import Formulary.Token

/-!
# Symbols of the rule notation

The kinds of token that grammars are written with.
-/

namespace Formulary.Rules

inductive Symbol where
  | assign
  | bar
  | greater
  | less
  | ident
  | word
  | quoted
  deriving Repr, DecidableEq

namespace Symbol

def all : List Symbol := [assign, bar, greater, less, ident, word, quoted]

def code : Symbol → Nat
  | assign => 1
  | bar => 2
  | greater => 3
  | less => 4
  | ident => 5
  | word => 6
  | quoted => 7

def name : Symbol → String
  | assign => "ASSIGN"
  | bar => "BAR"
  | greater => "GT"
  | less => "LT"
  | ident => "ID"
  | word => "STRING"
  | quoted => "QUOTED_STRING"

def kind (s : Symbol) : Kind := ⟨s.code, s.name⟩

/-- The kind with the given code; a code that no symbol has is that of an unknown one. -/
def kindOfCode (n : Int) : Kind :=
  match all.find? (fun s => (s.code : Int) == n) with
  | some s => s.kind
  | none => ⟨n, "UNKNOWN"⟩

/-- The symbol that a single character stands for. -/
def ofChar? : Char → Option Symbol
  | '|' => some bar
  | '<' => some less
  | '>' => some greater
  | _ => none

end Symbol

end Formulary.Rules
