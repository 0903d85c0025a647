import Formulary.Arith.Settings.Toml
import Formulary.Arith.Settings.Yaml
import Formulary.Files
import Formulary.Text.Case

/-!
# Profiles in files

The end of a file name tells the format that a profile is written in.
-/

namespace Formulary.Arith

/-- Why no profile can be had from a file. -/
inductive ProfileError where
  | file (error : FileError)
  | format (name : String) (extension : String)
  | undecodable (name : String)
  deriving Repr, DecidableEq

def ProfileError.message : ProfileError → String
  | file e => e.message
  | format name extension => s!"{name}: unsupported profile format {Text.quote extension}"
  | undecodable name => s!"{name}: invalid profile"

/-- The end of a file name from its last dot on, in lower case. -/
def extensionOf (name : String) : String :=
  let file := (name.toList.reverse.takeWhile (· != '/'))
  let (ext, rest) := file.span (· != '.')
  if rest.isEmpty then "" else String.ofList (('.' :: ext.reverse).map Text.toLower)

/-- The profile in the content of a file; the format is told by the name. -/
def Profile.ofFile (name content : String) : Except ProfileError Profile :=
  let settings : Except ProfileError (Option Settings) := match extensionOf name with
    | ".yaml" | ".yml" => .ok (Settings.ofYaml? content)
    | ".toml" => .ok (Settings.ofToml? content)
    | ext => .error (.format name ext)
  settings.bind fun
    | some s => .ok s.profile
    | none => .error (.undecodable name)

/-- The profile in a file. -/
def Profile.load (files : Files) (name : String) : Except ProfileError Profile := do
  let content ← (files.read name).mapError .file
  Profile.ofFile name content

end Formulary.Arith
