import Formulary.Position

/-!
# Tokens

A token has a kind, a text and a position.  Kinds are told apart by their code alone; the name is
for messages.  The code -1 is that of the end of the input, whatever the name.
-/

namespace Formulary

/-- The lexical category of a token. -/
structure Kind where
  code : Int
  name : String
  deriving Repr, DecidableEq

namespace Kind

/-- The kind of the token that ends every input. -/
def eof : Kind := ⟨-1, "EOF"⟩

/-- A kind that has a code and no name. -/
def unnamed (code : Int) : Kind := ⟨code, s!"type-{code}"⟩

end Kind

structure Token where
  kind : Kind
  value : String
  pos : Position
  deriving Repr, DecidableEq

namespace Token

/-- The token found after the last one of an input. -/
def eofAt (p : Position) : Token := ⟨.eof, "", p⟩

/-- The end of the input, at no position. -/
def eof : Token := eofAt .nowhere

def code (t : Token) : Int := t.kind.code

def isEOF (t : Token) : Bool := t.code == -1

/-- Tokens are the same when kind and text are; where they stand does not count. -/
def same (t u : Token) : Bool := t.code == u.code && t.value == u.value

def text (t : Token) : String :=
  if t.isEOF then "<eof>" else s!"{t.kind.name}({t.value})"

end Token

end Formulary
