import Formulary.Arith.Function
import Formulary.Arith.Op
import Formulary.Scope
import Formulary.Text.Distance

/-!
# Evaluation

The value of a formula in an environment (`Eval`).  Operands are evaluated from left to right and
before the operator is looked at; the first error ends the evaluation.  An error of a name that is
not known lists those that look like it, in the eyes of whoever asks for the value.
-/

namespace Formulary.Arith

inductive EvalError where
  | missingOperand
  | unsupportedNode
  /-- An operator with too few or too many operands. -/
  | operands (name : String)
  /-- A function with the wrong number of arguments. -/
  | arguments (name : String) (given : Nat)
  | unsupportedUnary (name : String)
  | unsupportedBinary (name : String)
  | divisionByZero
  /-- A name without a definition, and the known names close to it. -/
  | undefined (name : String) (others : List String)
  deriving Repr, DecidableEq

def EvalError.message : EvalError → String
  | missingOperand => "missing operand"
  | unsupportedNode => "unknown: unsupported node"
  | operands name => s!"{name}: wrong number of arguments"
  | arguments name given => s!"{name}: wrong number of arguments: got {given}"
  | unsupportedUnary name => s!"{name}: unsupported unary operator"
  | unsupportedBinary name => s!"{name}: unsupported binary operator"
  | divisionByZero => "division by zero"
  | undefined name _ => s!"{name}: undefined identifier"

def evalVar (similar : Text.Similarity) (env : Environment Float) (name : String) :
    Except EvalError Float :=
  match env.resolve name with
  | .ok v => .ok v
  | .error _ => .error (.undefined name (similar name env.names))

def evalUnary (name : String) : List Float → Except EvalError Float
  | [x] =>
    match name with
    | "-" => .ok (-x)
    | "+" => .ok x
    | _ => .error (.unsupportedUnary name)
  | _ => .error (.operands name)

def evalBinary (name : String) : List Float → Except EvalError Float
  | [x, y] =>
    match name with
    | "+" => .ok (x + y)
    | "-" => .ok (x - y)
    | "*" => .ok (x * y)
    | "/" => if y == 0.0 then .error .divisionByZero else .ok (x / y)
    | "%" => if y == 0.0 then .error .divisionByZero else .ok (Number.remainder x y)
    | "^" => .ok (x.pow y)
    | _ => .error (.unsupportedBinary name)
  | _ => .error (.operands name)

def evalCall (name : String) (f : Function) (args : List Float) : Except EvalError Float :=
  match f.at? args with
  | some v => .ok v
  | none => .error (.arguments name args.length)

mutual

/-- The value of a formula. -/
def eval (similar : Text.Similarity) (env : Environment Float) : Formula → Except EvalError Float
  | .node op ts =>
    match op with
    | .const v => .ok v
    | .var name => evalVar similar env name
    | .unary name =>
      if ts.length == 1 then (evalList similar env ts).bind (evalUnary name)
      else .error (.operands name)
    | .binary name _ =>
      if ts.length == 2 then (evalList similar env ts).bind (evalBinary name)
      else .error (.operands name)
    | .call name =>
      match function? name with
      | none => .error (.undefined name (similar name functionNames))
      | some f =>
        if f.accepts ts.length then (evalList similar env ts).bind (evalCall name f)
        else .error (.arguments name ts.length)
    | .other _ => .error .unsupportedNode

/-- The values of formulas, up to the first that has none. -/
def evalList (similar : Text.Similarity) (env : Environment Float) :
    List Formula → Except EvalError (List Float)
  | [] => .ok []
  | t :: ts => (eval similar env t).bind fun v => (evalList similar env ts).map (v :: ·)

end

/-- The value of a formula that may be missing (`Eval`). -/
def eval? (similar : Text.Similarity) (env : Environment Float) :
    Option Formula → Except EvalError Float
  | none => .error .missingOperand
  | some t => eval similar env t

end Formulary.Arith
