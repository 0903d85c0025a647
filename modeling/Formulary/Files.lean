import Formulary.Bindings

/-!
# Files

The files at hand, by name.  Names are taken relative to one directory, which holds no other
directory.
-/

namespace Formulary

/-- The contents of files by name. -/
abbrev Files := Bindings String

inductive FileError where
  | missing (name : String)
  | directory (name : String)
  deriving Repr, DecidableEq

def FileError.message : FileError → String
  | missing name => s!"open {name}: no such file or directory"
  | directory name => s!"read {name}: is a directory"

namespace Files

/-- The name without a needless mark of the directory it is in. -/
def plainName (name : String) : String :=
  match name.toList with
  | '.' :: '/' :: rest => String.ofList rest
  | _ => name

/-- Whether the name is that of a directory. -/
def isDirectory (name : String) : Bool := [".", "./", "..", "../", "/"].contains name

/-- The content of the file with the given name. -/
def read (f : Files) (name : String) : Except FileError String :=
  if isDirectory name then .error (.directory name)
  else
    match Bindings.find? f (plainName name) with
    | some content => .ok content
    | none => .error (.missing name)

end Files

end Formulary
