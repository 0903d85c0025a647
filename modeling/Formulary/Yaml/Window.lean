/-!
# The characters at hand

A text is read in blocks of a fixed size: the next one is read when more characters are asked for
than are left at hand.  The characters at hand then start with the one asked from.  A block in which
a character stands that no text may hold cannot be read, which does no harm as long as it is not
asked for.
-/

namespace Formulary.Yaml

/-- Whether a character may stand in a text at all. -/
def isAllowed (c : Char) : Bool :=
  let n := c.toNat
  n == 0x9 || n == 0xa || n == 0xd || (0x20 ≤ n && n ≤ 0x7e) || n == 0x85
    || (0xa0 ≤ n && n ≤ 0xfffd) || 0x10000 ≤ n

/-- The character that some put in front of a text to tell the order of bytes. -/
def byteOrderMark : Char := '\uFEFF'

/-! ## Blocks -/

/-- How many bytes a block has at most. -/
def blockBytes : Nat := 512

/-- The number of characters of each block, or none for one that cannot be read.  The first block
has already `chars` characters in `bytes` bytes, all of them allowed if it is `sound`. -/
def blocksFrom (bytes chars : Nat) (sound : Bool) : List Char → List (Option Nat)
  | [] => [if sound then some chars else none]
  | c :: rest =>
    if bytes + c.utf8Size ≤ blockBytes then
      blocksFrom (bytes + c.utf8Size) (chars + 1) (sound && isAllowed c) rest
    else (if sound then some chars else none) :: blocksFrom c.utf8Size 1 (isAllowed c) rest

/-! ## Windows -/

structure Window where
  /-- Whether the characters at hand start with a byte order mark. -/
  marked : Bool
  /-- How many of them are left. -/
  ahead : Nat
  /-- The numbers of characters of the blocks that can be read. -/
  blocks : List Nat
  /-- Whether these are all. -/
  whole : Bool
  deriving Repr

namespace Window

/-- Nothing is at hand yet of a text; `used` bytes of its first block are left out. -/
def start (used : Nat) (cs : List Char) : Window :=
  let blocks := blocksFrom used 0 true cs
  ⟨false, 0, (blocks.takeWhile Option.isSome).filterMap id, blocks.all Option.isSome⟩

/-- Reads blocks until `n` characters are at hand.  At the end of the text one more is, its end. -/
def fill? (w : Window) (n : Nat) : (ahead : Nat) → (blocks : List Nat) → Option Window
  | ahead, [] => if w.whole then some { w with ahead := ahead + 1, blocks := [] } else none
  | ahead, b :: blocks =>
    if n ≤ ahead + b then some { w with ahead := ahead + b, blocks }
    else fill? w n (ahead + b) blocks

/-- Asks for `n` characters, the next of which is `first`. -/
def ask? (w : Window) (n : Nat) (first : Option Char) : Option Window :=
  if n ≤ w.ahead then some w
  else { w with marked := first == some byteOrderMark }.fill? n w.ahead w.blocks

/-- After `n` characters at hand. -/
def drop (w : Window) (n : Nat) : Window := { w with ahead := w.ahead - n }

end Window

end Formulary.Yaml
