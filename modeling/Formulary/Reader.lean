import Formulary.Failure
import Formulary.Text.Source

/-!
# The reader under the scanners

A reader is the part of a source that is still unread, with the position of its first character.
-/

namespace Formulary

structure Reader where
  rest : Text.Source
  pos : Position
  deriving Repr, DecidableEq

namespace Reader

def ofSource (s : Text.Source) : Reader := ⟨s, .start⟩

/-- The next character, if there is one. -/
def peek (r : Reader) : Option Char := r.rest.head?.map (·.char)

/-- Whether the next character is one that `p` accepts. -/
def sees (r : Reader) (p : Char → Bool) : Bool := r.peek.any p

/-- The position after the characters of `s`, the first of which stands at `p`. -/
def positionAfter (p : Position) (s : Text.Source) : Position :=
  s.foldl (fun p g => p.advance g.char g.width) p

/-- The reader after one more character; at the end of the source it stays where it is. -/
def advance (r : Reader) : Reader :=
  match r.rest with
  | [] => r
  | g :: rest => ⟨rest, r.pos.advance g.char g.width⟩

/-- The longest run of characters that `p` accepts, and the reader after it. -/
def takeWhile (r : Reader) (p : Char → Bool) : List Char × Reader :=
  let run := r.rest.takeWhile (p ·.char)
  (Text.Source.chars run, ⟨r.rest.dropWhile (p ·.char), positionAfter r.pos run⟩)

/-- The reader after the longest run of characters that `p` accepts. -/
def skipWhile (r : Reader) (p : Char → Bool) : Reader := (r.takeWhile p).2

/-- The character the reader stands at fits no token, for the reason `cause`; at the end of the
source that is the reason. -/
def invalid (r : Reader) (cause : String) : Failure :=
  match r.peek with
  | some c => .unreadable ⟨c.toNat, cause, r.pos⟩
  | none => .unreadable ⟨0, "unexpected end of input", r.pos⟩

end Reader

end Formulary
