import Formulary.Bindings
import Formulary.Number.Literal
import Formulary.Number.Written
import Formulary.Text.Blank

/-!
# Assignments

Variables given as `name=value`.  Blanks around the name and the value do not count.
-/

namespace Formulary.Arith

inductive AssignmentError where
  | noValue (text : String)
  | number (name : String) (error : Number.NumberError)
  deriving Repr, DecidableEq

def AssignmentError.message : AssignmentError → String
  | noValue text => s!"{text}: expected name=value"
  | number name e => s!"{name}: {e.message}"

/-- The variables with one more of them, given as a text (`Vars.Set`). -/
def assign (vars : Bindings Float) (text : String) : Except AssignmentError (Bindings Float) :=
  match Text.cutAt '=' text with
  | none => .error (.noValue text)
  | some (name, value) =>
    match Number.read (Text.trim value) with
    | .ok v => .ok (vars.insert (Text.trim name) v)
    | .error e => .error (.number name e)

/-- The variables as a text (`Vars.String`). -/
def assignments (vars : Bindings Float) : String :=
  ",".intercalate (vars.map fun (name, v) => name ++ "=" ++ Number.write v)

end Formulary.Arith
