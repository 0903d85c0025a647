/-!
# Positions

Where a character stands in a text: its offset in bytes from zero, its line and its column from one.
The column counts characters.  The position with all three at zero belongs to what stands nowhere.
-/

namespace Formulary

structure Position where
  offset : Int
  line : Int
  column : Int
  deriving Repr, DecidableEq

namespace Position

/-- The position of what stands nowhere. -/
def nowhere : Position := ⟨0, 0, 0⟩

/-- The position of the first character of a text. -/
def start : Position := ⟨0, 1, 1⟩

/-- The position after the character `c` of `width` bytes that stands at `p`. -/
def advance (p : Position) (c : Char) (width : Nat) : Position :=
  if c = '\n' then ⟨p.offset + width, p.line + 1, 1⟩
  else ⟨p.offset + width, p.line, p.column + 1⟩

def text (p : Position) : String := s!"{p.line}:{p.column}"

end Position

end Formulary
