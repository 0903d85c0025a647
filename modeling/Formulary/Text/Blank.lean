import Formulary.Text.Table

/-!
# Blanks

Three classes: the four blanks that separate tokens, white space as Unicode has it, and the
control characters.
-/

namespace Formulary.Text

/-- The blanks that may stand between two tokens. -/
def isBlank (c : Char) : Bool := c == ' ' || c == '\t' || c == '\r' || c == '\n'

/-- The blanks within a line. -/
def isSpacing (c : Char) : Bool := c == ' ' || c == '\t'

def spaces : List Run := [
  ⟨0x9, 0xd, 1⟩, ⟨0x20, 0x20, 1⟩, ⟨0x85, 0x85, 1⟩, ⟨0xa0, 0xa0, 1⟩, ⟨0x1680, 0x1680, 1⟩,
  ⟨0x2000, 0x200a, 1⟩, ⟨0x2028, 0x2029, 1⟩, ⟨0x202f, 0x202f, 1⟩, ⟨0x205f, 0x205f, 1⟩,
  ⟨0x3000, 0x3000, 1⟩]

/-- White space in the sense of Unicode 15. -/
def isSpace (c : Char) : Bool := inTable spaces c

/-- The control characters: the general category Cc. -/
def isControl (c : Char) : Bool := c.toNat < 0x20 || (0x7f ≤ c.toNat && c.toNat < 0xa0)

/-- The text without the white space at both ends. -/
def trim (s : String) : String :=
  String.ofList ((s.toList.dropWhile isSpace).reverse.dropWhile isSpace).reverse

/-- The text cut at the first `c`, which belongs to neither part. -/
def cutAt (c : Char) (s : String) : Option (String × String) :=
  match s.toList.span (· != c) with
  | (_, []) => none
  | (before, _ :: after) => some (String.ofList before, String.ofList after)

end Formulary.Text
