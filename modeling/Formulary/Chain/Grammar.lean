import Formulary.Token
import Formulary.Text.Quoted

/-!
# Grammars of operator precedence

A grammar says which kinds of token are operators, operands and signs of grouping.  The binary
operators come in levels, the loosest first; within a level they associate to the left.
-/

namespace Formulary.Chain

/-- The place at which a token was found. -/
inductive Role where
  | atom
  | binaryOperator
  | unaryOperator
  | function
  deriving Repr, DecidableEq

namespace Role

def all : List Role := [atom, binaryOperator, unaryOperator, function]

def name : Role → String
  | atom => "atom"
  | binaryOperator => "binary-operator"
  | unaryOperator => "unary-operator"
  | function => "function"

/-- The name of the role with the given number, counted from zero. -/
def nameOfCode (n : Int) : String :=
  if n < 0 then "unknown" else (all[n.toNat]?.map name).getD "unknown"

end Role

structure Grammar where
  leftParen : Option Kind
  rightParen : Option Kind
  comma : Option Kind
  /-- The binary operators by level, the loosest level first. -/
  binaries : List (List Kind)
  unaries : List Kind
  /-- The kinds of operands. -/
  identifiers : List Kind
  /-- Whether an operand with this text is the name of a function. -/
  isFunction : String → Bool

/-- Why no parser can be built. -/
inductive ConfigError where
  | noConverter
  | noParens
  | emptyLevel (level : Nat)
  | unknownOperator (level : Nat) (name : String)
  | unknownUnary (name : String)
  | unknownFunction (name : String)
  deriving Repr, DecidableEq

namespace ConfigError

def reason : ConfigError → String
  | noConverter => "converter is missing"
  | noParens => "parenthesis and comma token types are required"
  | emptyLevel i => s!"precedence level {i} has no operator"
  | unknownOperator i name => s!"level {i}: unknown operator {Text.quote name}"
  | unknownUnary name => s!"unknown unary operator {Text.quote name}"
  | unknownFunction name => s!"unknown function {Text.quote name}"

def message (e : ConfigError) : String := s!"invalid parser configuration: {e.reason}"

end ConfigError

end Formulary.Chain
