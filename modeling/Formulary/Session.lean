import Formulary.Arith.Eval
import Formulary.Arith.Layout
import Formulary.Arith.Profile
import Formulary.Tree.Render

/-!
# Sessions

A session evaluates formulas line by line and remembers variables.  A line is a formula, an
assignment `name = formula`, or a command after a colon: `vars`, `funcs`, `tree` and `fmt`.
-/

namespace Formulary

open Arith (Dialect EvalError FormulaError formulaMessage)

structure Session where
  dialect : Dialect
  env : Environment Float
  /-- Tells which names look like one that is not known. -/
  similar : Text.Similarity

inductive SessionError where
  | formula (error : FormulaError)
  | eval (error : EvalError)
  | scope (error : ScopeError)
  | badName (name : String)
  | unknownCommand (name : String)

/-- The message with the names close to an undefined one (`explain`). -/
def Arith.EvalError.explained (e : EvalError) : String :=
  match e with
  | .undefined _ (other :: others) =>
    e.message ++ " (similar: " ++ ", ".intercalate (other :: others) ++ ")"
  | _ => e.message

namespace SessionError

def message : SessionError → String
  | formula e => formulaMessage e
  | eval e => e.message
  | scope e => e.message
  | badName name => s!"{name}: invalid variable name"
  | unknownCommand name => s!"{name}: unknown command"

/-- The message with the names close to an undefined one. -/
def explained : SessionError → String
  | eval e => e.explained
  | e => e.message

end SessionError

namespace Session

/-- A session without variables. -/
def start (similar : Text.Similarity) (d : Dialect) : Except ScopeError Session := do
  return ⟨d, ← d.environment [], similar⟩

def parse (s : Session) (text : String) : Except SessionError Arith.Formula :=
  (s.dialect.parse (.ofString text)).mapError .formula

/-- The value of a formula. -/
def value (s : Session) (text : String) : Except SessionError Float := do
  let t ← s.parse text
  (Arith.eval s.similar s.env t).mapError .eval

/-- Whether the text is a single name (`isIdent`). -/
def isName (text : String) : Bool :=
  match (Arith.feed (.ofString text)).collect with
  | ([t], none) => t.code == Arith.Symbol.ident.kind.code
  | _ => false

/-- The lines of the variables and constants with their values. -/
def listing (s : Session) : String :=
  String.join (s.env.names.map fun name =>
    let v := (s.env.resolve name).toOption.getD 0.0
    name ++ " = " ++ Number.write v ++ "\n")

/-- What a command writes (`session.command`).  The command is the text up to the first blank. -/
def command (s : Session) (text : String) : Except SessionError String :=
  let (name, rest) := (Text.cutAt ' ' text).getD (text, "")
  match name with
  | "vars" => .ok s.listing
  | "funcs" => .ok (" ".intercalate s.dialect.profile.functions ++ "\n")
  | "tree" => do return (← s.parse rest).outline (·.label)
  | "fmt" => do return Arith.format (← s.parse rest) ++ "\n"
  | _ => .error (.unknownCommand name)

/-- Evaluates a formula and gives its value to a variable, and writes it. -/
def assign (s : Session) (name text : String) : Except SessionError (Session × String) := do
  let name := Text.trim name
  if isName name then
    let v ← s.value text
    let env ← (s.env.define name v).mapError .scope
    return ({ s with env }, Number.write v ++ "\n")
  else throw (.badName name)

/-- Runs one line: the session after it, and what it writes (`session.exec`). -/
def exec (s : Session) (line : String) : Except SessionError (Session × String) :=
  match line.toList with
  | ':' :: text => (s.command (String.ofList text)).map (s, ·)
  | _ =>
    match Text.cutAt '=' line with
    | some (name, text) => s.assign name text
    | none => (s.value line).map fun v => (s, Number.write v ++ "\n")

end Session

end Formulary
