import Formulary.Token

/-!
# Symbols of the formula language

The kinds of token that formulas are made of.
-/

namespace Formulary.Arith

inductive Symbol where
  | number
  | ident
  | add
  | sub
  | mul
  | div
  | mod
  | pow
  | leftParen
  | rightParen
  | comma
  deriving Repr, DecidableEq

namespace Symbol

def all : List Symbol :=
  [number, ident, add, sub, mul, div, mod, pow, leftParen, rightParen, comma]

def code : Symbol → Nat
  | number => 1
  | ident => 2
  | add => 3
  | sub => 4
  | mul => 5
  | div => 6
  | mod => 7
  | pow => 8
  | leftParen => 9
  | rightParen => 10
  | comma => 11

def name : Symbol → String
  | number => "NUMBER"
  | ident => "IDENT"
  | add => "ADD"
  | sub => "SUB"
  | mul => "MUL"
  | div => "DIV"
  | mod => "MOD"
  | pow => "POW"
  | leftParen => "LPAREN"
  | rightParen => "RPAREN"
  | comma => "COMMA"

def kind (s : Symbol) : Kind := ⟨s.code, s.name⟩

/-- The kind with the given code; a code that no symbol has is that of an unknown one. -/
def kindOfCode (n : Int) : Kind :=
  match all.find? (fun s => (s.code : Int) == n) with
  | some s => s.kind
  | none => ⟨n, "UNKNOWN"⟩

/-- The symbol that a single character stands for. -/
def ofChar? : Char → Option Symbol
  | '+' => some add
  | '-' => some sub
  | '*' => some mul
  | '/' => some div
  | '%' => some mod
  | '^' => some pow
  | '(' => some leftParen
  | ')' => some rightParen
  | ',' => some comma
  | _ => none

/-- Whether the symbol can be an operator of a profile. -/
def isOperator : Symbol → Bool
  | add | sub | mul | div | mod | pow => true
  | _ => false

/-- The operator with the given spelling (`kindOf`). -/
def ofOperator? (s : String) : Option Symbol :=
  match s.toList with
  | [c] => (ofChar? c).filter isOperator
  | _ => none

end Symbol

end Formulary.Arith
