import Formulary.Arith.Op

/-!
# Formulas as text

A formula is written with its binary operators between their operands and with no more parentheses
than reading it back takes: on the left of an operator around a looser one, on the right also around
one of the same level.
-/

namespace Formulary.Arith

-- The power is the one of `NatPow`, whatever other instances are in scope.
attribute [local instance (high)] instPowNat

/-- How tight single operands and calls bind: tighter than any operator. -/
def operandPrecedence : Int := 2 ^ (63 : Nat) - 1

/-- How tight unary operators bind. -/
def unaryPrecedence : Int := operandPrecedence - 1

/-- How tight a node binds what it is made of (`precedence`). -/
def Op.precedence : Op → Int
  | .binary _ level => level
  | .unary _ => unaryPrecedence
  | _ => operandPrecedence

/-- The text of a formula and how tight it binds. -/
structure Piece where
  text : String
  precedence : Int
  deriving Repr, DecidableEq

/-- The text of an operand, in parentheses if need be. -/
def Piece.grouped (p : Piece) (needed : Bool) : String :=
  if needed then "(" ++ p.text ++ ")" else p.text

/-- An operand that is missing takes no text. -/
def Piece.missing : Piece := ⟨"", operandPrecedence⟩

/-- The text of a node whose children have the given texts. -/
def Op.compose (op : Op) (pieces : List Piece) : String :=
  match op with
  | .binary name level =>
    let left := pieces[0]?.getD .missing
    let right := pieces[1]?.getD .missing
    left.grouped (left.precedence < level) ++ " " ++ name ++ " "
      ++ right.grouped (right.precedence ≤ level)
  | .unary name =>
    let operand := pieces[0]?.getD .missing
    name ++ operand.grouped (operand.precedence < unaryPrecedence)
  | .call name => name ++ "(" ++ ", ".intercalate (pieces.map (·.text)) ++ ")"
  | op => op.label

mutual

/-- The text of a formula (`Format`). -/
def format : Formula → String
  | .node op ts => op.compose (formatList ts)

/-- The texts of formulas and how tight they bind. -/
def formatList : List Formula → List Piece
  | [] => []
  | t :: ts => ⟨format t, t.value.precedence⟩ :: formatList ts

end

end Formulary.Arith
