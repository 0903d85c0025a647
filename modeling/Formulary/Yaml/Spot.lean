import Formulary.Number.Literal
import Formulary.Text.Blank
import Formulary.Yaml.Window

/-!
# Characters and places of YAML texts

Lines end with a line feed, a carriage return, both, or one of three signs of Unicode.  Two of
these, the separators of lines and of paragraphs, are kept as they are; the others are read as line
feeds.
-/

namespace Formulary.Yaml

open Text (isSpacing)

/-! ## Characters -/

/-- The text with a single character for each line end.  A carriage return stands for one with a
line feed behind it here, and a line feed for all others but the two separators. -/
def withLineEnds : List Char → List Char
  | '\r' :: '\n' :: rest => '\r' :: withLineEnds rest
  | c :: rest => (if c == '\r' || c == '\u0085' then '\n' else c) :: withLineEnds rest
  | [] => []

/-- The characters that end a line. -/
def isBreak (c : Char) : Bool := c == '\n' || c == '\r' || c == '\u2028' || c == '\u2029'

/-- What the end of a line stands for in a scalar. -/
def lineFeed (c : Char) : Char := if c == '\r' then '\n' else c

/-- How many characters of the text a character stands for. -/
def widthOf (c : Char) : Nat := if c == '\r' then 2 else 1

/-- Whether the text is over or goes on with a blank or a line end. -/
def atBlank : List Char → Bool
  | [] => true
  | c :: _ => isSpacing c || isBreak c

/-- The characters of names. -/
def isNameChar (c : Char) : Bool :=
  c.isAlpha || Number.isDecimalDigit c || c == '_' || c == '-'

/-- The signs of lists and maps written with brackets. -/
def isFlowSign (c : Char) : Bool :=
  c == ',' || c == '[' || c == ']' || c == '\x7b' || c == '\x7d'

/-- The characters that have a meaning of their own at the start of a node. -/
def isIndicator (c : Char) : Bool :=
  isFlowSign c || "-?:#&*!|>'\"%@\x60".toList.contains c

/-- Whether a line that parts documents starts here. -/
def isMarker : List Char → Bool
  | '-' :: '-' :: '-' :: rest => atBlank rest
  | '.' :: '.' :: '.' :: rest => atBlank rest
  | _ => false

/-! ## Places -/

/-- A place in a text: what follows it, its line and its column, both from zero, and what is at
hand. -/
structure Spot where
  rest : List Char
  line : Nat
  column : Nat
  window : Window

namespace Spot

/-- Asks for `n` characters. -/
def ask? (p : Spot) (n : Nat) : Option Spot :=
  (p.window.ask? n p.rest.head?).map fun window => { p with window }

/-- The place after the next character. -/
def next (p : Spot) : Spot :=
  match p.rest with
  | [] => p
  | c :: rest =>
    let window := p.window.drop (widthOf c)
    if isBreak c then ⟨rest, p.line + 1, 0, window⟩ else ⟨rest, p.line, p.column + 1, window⟩

/-- The place after the next `n` characters. -/
def skip (p : Spot) : (n : Nat) → Spot
  | 0 => p
  | n + 1 => (skip p n).next

/-- The place after the next `n` characters, each of which is asked for. -/
def pass? : (n : Nat) → Spot → Option Spot
  | 0, p => some p
  | n + 1, p => do
    let p ← if p.rest.head?.any isBreak then p.ask? 2 else some p
    pass? n (← p.next.ask? 1)

/-- The place in front of `rest`, the end of what follows. -/
def passTo? (p : Spot) (rest : List Char) : Option Spot := p.pass? (p.rest.length - rest.length)

/-- The place after the characters that fit. -/
def passWhile? (p : Spot) (fits : Char → Bool) : Option Spot := p.passTo? (p.rest.dropWhile fits)

/-- The place after the next `n` characters, which are read word by word: at the start of each word
four of them are asked for.  `spaced` tells whether a blank stands before. -/
def passWords? : (n : Nat) → (spaced : Bool) → Spot → Option Spot
  | 0, _, p => some p
  | n + 1, spaced, p =>
    match p.rest with
    | [] => some p
    | c :: _ => do
      let blank := atBlank p.rest
      let p ← if isBreak c then p.ask? 2 else if !blank && spaced then p.ask? 4 else some p
      passWords? n blank (← p.next.ask? (if blank then 1 else 2))

/-- Passes over the next character as if it were a byte order mark.  A line that ends with it goes
on then; of a line end of two characters the second is left. -/
def passMark (p : Spot) : Spot :=
  match p.rest with
  | [] => p
  | c :: rest =>
    ⟨if c == '\r' then '\n' :: rest else rest, p.line, p.column + 1, p.window.drop 1⟩

/-- Whether the next character is `c`. -/
def sees (p : Spot) (c : Char) : Bool := p.rest.head? == some c

/-- Whether the next character is `c` and a blank or a line end comes after it. -/
def seesAlone (p : Spot) (c : Char) : Bool := p.sees c && atBlank p.rest.tail

/-- Whether a line that parts documents starts here. -/
def atMarker (p : Spot) : Bool := p.column == 0 && isMarker p.rest

end Spot

/-! ## Gaps -/

/-- The place at the end of the line. -/
def Spot.lineEnd? (p : Spot) : Option Spot := p.passWhile? (!isBreak ·)

/-- The number of characters within which a comment starts that is looked for. -/
def commentReach : Nat := 512

/-- The place after a comment that only blanks may stand before, on the same line. -/
def Spot.afterLineComment? (p : Spot) : Option Spot := do
  let (blanks, after) := p.rest.span isSpacing
  let p ← p.ask? (min (blanks.length + 1) commentReach)
  if blanks.length < commentReach && after.head? == some '#' then (← p.passTo? after).lineEnd?
  else some p

/-- The end of a comment that starts here and of those that follow it with nothing but blanks and
empty lines between them, at most `rounds` of them. -/
def Spot.afterComments? : (rounds : Nat) → Spot → Option Spot
  | 0, p => some p
  | rounds + 1, p => do
    let p ← p.lineEnd?
    let (between, after) := p.rest.span fun c => isSpacing c || c == '\n' || c == '\r'
    let length := (between.map widthOf).sum
    let p ← p.ask? (min (length + 1) commentReach)
    if between.head?.any isBreak && length < commentReach && after.head? == some '#' then
      afterComments? rounds (← p.passTo? after)
    else some p

/-- Skips blanks, comments and line ends, at most `rounds` of the latter.  `block` tells whether we
are outside of brackets, and `fresh` whether a list or a map may start by layout: tabs do not count
as blanks there, and a line end makes it so.  Gives back how that stands in the end, and the place.

While the characters at hand start with a byte order mark, whatever stands at the start of a line is
passed over like one. -/
def gap? (block : Bool) : (rounds : Nat) → (fresh : Bool) → Spot → Option (Bool × Spot)
  | 0, fresh, p => some (fresh, p)
  | rounds + 1, fresh, p => do
    let p ← p.ask? 1
    let p ← (if p.column == 0 && p.window.marked then p.passMark else p).ask? 1
    let p ← p.passWhile? fun c => c == ' ' || (c == '\t' && !(block && fresh))
    let p ← if p.sees '#' then p.afterComments? p.rest.length else some p
    if p.rest.head?.any isBreak then gap? block rounds (fresh || block) (← p.ask? 2).next
    else some (fresh, p)

end Formulary.Yaml
