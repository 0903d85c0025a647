/-!
# Source text

What the scanners read: the characters of a text, each with the number of bytes it takes.  Raw bytes
are decoded as UTF-8; a byte that belongs to no character stands for the replacement character and
keeps its width of one byte.
-/

namespace Formulary.Text

/-- A character of a source with its width in bytes. -/
structure Glyph where
  char : Char
  width : Nat
  deriving Repr, DecidableEq

abbrev Source := List Glyph

/-- What a byte that belongs to no character is read as. -/
def replacement : Glyph := ⟨'\uFFFD', 1⟩

namespace Source

def ofString (s : String) : Source :=
  s.toList.map fun c => ⟨c, c.utf8Size⟩

/-- Continuation bytes. -/
def isTail (b : Nat) : Bool := 0x80 ≤ b && b ≤ 0xbf

/-- The six low bits of a continuation byte. -/
def tailBits (b : Nat) : Nat := b - 0x80

/-- The second bytes that may follow a first byte of a character of three or four bytes: no
overlong form, no surrogate, nothing above U+10FFFF. -/
def mayFollow (a b : Nat) : Bool :=
  if a == 0xe0 then 0xa0 ≤ b && b ≤ 0xbf
  else if a == 0xed then 0x80 ≤ b && b ≤ 0x9f
  else if a == 0xf0 then 0x90 ≤ b && b ≤ 0xbf
  else if a == 0xf4 then 0x80 ≤ b && b ≤ 0x8f
  else isTail b

/-- The character that starts with the byte `a`, `rest` being the bytes after it. -/
def lead (a : Nat) (rest : List Nat) : Glyph :=
  if a < 0x80 then ⟨Char.ofNat a, 1⟩
  else if 0xc2 ≤ a && a ≤ 0xdf then
    match rest with
    | b :: _ =>
      if isTail b then ⟨Char.ofNat ((a - 0xc0) * 64 + tailBits b), 2⟩ else replacement
    | [] => replacement
  else if 0xe0 ≤ a && a ≤ 0xef then
    match rest with
    | b :: c :: _ =>
      if mayFollow a b && isTail c then
        ⟨Char.ofNat (((a - 0xe0) * 64 + tailBits b) * 64 + tailBits c), 3⟩
      else replacement
    | _ => replacement
  else if 0xf0 ≤ a && a ≤ 0xf4 then
    match rest with
    | b :: c :: d :: _ =>
      if mayFollow a b && isTail c && isTail d then
        ⟨Char.ofNat ((((a - 0xf0) * 64 + tailBits b) * 64 + tailBits c) * 64 + tailBits d), 4⟩
      else replacement
    | _ => replacement
  else replacement

/-- Decodes bytes of which the first `owed` belong to a character already read. -/
def decode : (owed : Nat) → List Nat → Source
  | _, [] => []
  | owed + 1, _ :: rest => decode owed rest
  | 0, a :: rest =>
    let g := lead a rest
    g :: decode (g.width - 1) rest

def ofBytes (bytes : List Nat) : Source := decode 0 bytes

/-- The characters of the source. -/
def chars (s : Source) : List Char := s.map (·.char)

end Source

end Formulary.Text
