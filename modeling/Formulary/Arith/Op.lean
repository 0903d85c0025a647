import Formulary.Number.Written
import Formulary.Tree

/-!
# Operations

The nodes of a formula: constants, variables, unary and binary operators and calls.  A binary
operator knows the level of precedence it was read at.  A tree built by hand may also hold nodes of
no known kind, and any number of children anywhere.
-/

namespace Formulary.Arith

inductive Op where
  | const (value : Float)
  | var (name : String)
  | unary (name : String)
  | binary (name : String) (level : Int)
  | call (name : String)
  | other (name : String)
  deriving Repr

namespace Op

/-- The names of the kinds of node, by number from zero. -/
def kindNames : List String := ["const", "var", "unary", "binary", "call"]

/-- The name of the kind with the given number. -/
def kindNameOfCode (n : Int) : String :=
  if n < 0 then "unknown" else kindNames.getD n.toNat "unknown"

def kindName : Op → String
  | const _ => "const"
  | var _ => "var"
  | unary _ => "unary"
  | binary _ _ => "binary"
  | call _ => "call"
  | other _ => "unknown"

/-- The text of a node. -/
def label : Op → String
  | const v => Number.write v
  | var name | unary name | binary name _ | call name | other name => name

/-- Whether two nodes are the same; constants are compared as numbers. -/
def same : Op → Op → Bool
  | const v, const w => v == w
  | var a, var b | unary a, unary b | call a, call b | other a, other b => a == b
  | binary a i, binary b j => a == b && i == j
  | _, _ => false

end Op

/-- A formula. -/
abbrev Formula := Tree Op

/-- Whether two formulas are the same. -/
def Formula.same (a b : Formula) : Bool := Tree.sameBy Op.same a b

end Formulary.Arith
