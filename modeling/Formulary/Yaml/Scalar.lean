import Formulary.Text.Hex
import Formulary.Yaml.Spot

/-!
# YAML scalars

Quoted scalars and plain ones may go over several lines: a single line end stands for a blank, of
several ones the first is left out, and the blanks around them do not count.  A scalar by layout is
written line by line below its sign.

The readers take a scalar off the front of the characters, or refuse them.
-/

namespace Formulary.Yaml

open Text (isSpacing)

/-- What stands for blanks or, if there are any, for line ends; the latest of them come first. -/
def folded (blanks breaks : List Char) : List Char :=
  match breaks.reverse with
  | [] => blanks.reverse
  | ['\n'] => [' ']
  | '\n' :: more => more
  | breaks => breaks

/-! ## Quoted scalars -/

/-- Reads up to the closing single quote; two of them stand for one.  `blanks` and `breaks` are the
blanks and line ends read just before. -/
def singleQuoted : (blanks breaks : List Char) → List Char → Option (List Char × List Char)
  | blanks, breaks, '\x27' :: '\x27' :: rest =>
    (singleQuoted [] [] rest).map fun (cs, after) => (folded blanks breaks ++ '\x27' :: cs, after)
  | blanks, breaks, '\x27' :: rest => some (folded blanks breaks, rest)
  | blanks, breaks, c :: rest =>
    if isBreak c then if isMarker rest then none else singleQuoted [] (lineFeed c :: breaks) rest
    else if isSpacing c then singleQuoted (if breaks.isEmpty then c :: blanks else []) breaks rest
    else (singleQuoted [] [] rest).map fun (cs, after) => (folded blanks breaks ++ c :: cs, after)
  | _, _, [] => none

/-- The character that a short escape stands for. -/
def escaped? : Char → Option Char
  | '0' => some '\x00'
  | 'a' => some '\x07'
  | 'b' => some '\x08'
  | 't' | '\t' => some '\t'
  | 'n' => some '\n'
  | 'v' => some '\x0b'
  | 'f' => some '\x0c'
  | 'r' => some '\r'
  | 'e' => some '\x1b'
  | ' ' => some ' '
  | '\x22' => some '\x22'
  | '\x27' => some '\x27'
  | '\\' => some '\\'
  | 'N' => some '\u0085'
  | '_' => some '\u00a0'
  | 'L' => some '\u2028'
  | 'P' => some '\u2029'
  | _ => none

/-- What stands for blanks or line ends in double quotes.  After a backslash that joined two lines,
as `joined` tells, blanks do not count and line ends stay. -/
def joinedOr (joined : Bool) (blanks breaks : List Char) : List Char :=
  if joined then breaks.reverse else folded blanks breaks

/-- Reads up to the closing double quote. -/
def doubleQuoted : (joined : Bool) → (blanks breaks : List Char) → List Char →
    Option (List Char × List Char)
  | joined, blanks, breaks, '\x22' :: rest => some (joinedOr joined blanks breaks, rest)
  | joined, blanks, breaks, '\\' :: 'x' :: a :: b :: rest => do
    let ch ← Text.charOfHex? [a, b]
    let (cs, after) ← doubleQuoted false [] [] rest
    return (joinedOr joined blanks breaks ++ ch :: cs, after)
  | joined, blanks, breaks, '\\' :: 'u' :: a :: b :: c :: d :: rest => do
    let ch ← Text.charOfHex? [a, b, c, d]
    let (cs, after) ← doubleQuoted false [] [] rest
    return (joinedOr joined blanks breaks ++ ch :: cs, after)
  | joined, blanks, breaks, '\\' :: 'U' :: a :: b :: c :: d :: e :: f :: g :: h :: rest => do
    let ch ← Text.charOfHex? [a, b, c, d, e, f, g, h]
    let (cs, after) ← doubleQuoted false [] [] rest
    return (joinedOr joined blanks breaks ++ ch :: cs, after)
  | joined, blanks, breaks, '\\' :: c :: rest => do
    let before := joinedOr joined blanks breaks
    if isBreak c then
      if isMarker rest then none
      else (doubleQuoted true [] [] rest).map fun (cs, after) => (before ++ cs, after)
    else
      let ch ← escaped? c
      (doubleQuoted false [] [] rest).map fun (cs, after) => (before ++ ch :: cs, after)
  | joined, blanks, breaks, c :: rest =>
    if isBreak c then
      if isMarker rest then none else doubleQuoted joined [] (lineFeed c :: breaks) rest
    else if isSpacing c then
      doubleQuoted joined (if breaks.isEmpty && !joined then c :: blanks else []) breaks rest
    else
      (doubleQuoted false [] [] rest).map fun (cs, after) =>
        (joinedOr joined blanks breaks ++ c :: cs, after)
  | _, _, _, [] => none

/-! ## Plain scalars -/

/-- Whether a plain scalar can start here.  `flow` tells whether we are inside brackets. -/
def startsPlain (flow : Bool) : List Char → Bool
  | [] => false
  | c :: rest =>
    !(isIndicator c || atBlank (c :: rest))
      || (c == '-' && !atBlank rest)
      || (!flow && (c == '?' || c == ':') && !atBlank rest)

/-- Whether a line of a plain scalar ends here.  `spaced` tells whether a blank stands before. -/
def endsPlain (flow spaced : Bool) : List Char → Bool
  | [] => true
  | c :: rest =>
    isBreak c || (c == '#' && spaced) || (c == ':' && atBlank rest)
      || (flow && (isFlowSign c || c == '?'))

/-- The characters of one line of a plain scalar, and those after them. -/
def plainLine (flow : Bool) : (spaced : Bool) → List Char → List Char × List Char
  | _, [] => ([], [])
  | spaced, c :: rest =>
    if endsPlain flow spaced (c :: rest) then ([], c :: rest)
    else
      let (cs, after) := plainLine flow (isSpacing c) rest
      (c :: cs, after)

def dropTrailingBlanks (cs : List Char) : List Char := (cs.reverse.dropWhile isSpacing).reverse

/-- The line ends and blanks in front of the next character: the line ends, the latest first, the
column of that character, and the text from it on.  No tab may stand left of the column `least`. -/
def lineEnds (least : Int) : (breaks : List Char) → (column : Nat) → List Char →
    Option (List Char × Nat × List Char)
  | breaks, column, c :: rest =>
    if isBreak c then lineEnds least (lineFeed c :: breaks) 0 rest
    else if c == '\t' && !breaks.isEmpty && (column : Int) < least then none
    else if isSpacing c then lineEnds least breaks (column + 1) rest
    else some (breaks, column, c :: rest)
  | breaks, column, [] => some (breaks, column, [])

/-- What is read of a plain scalar: its characters, whether line ends after it were passed, and the
text from there on. -/
structure PlainRead where
  chars : List Char
  crossed : Bool
  rest : List Char

/-- A plain scalar of at most `rounds` lines.  Outside of brackets it goes on only on lines that
start in the column `least` or further right. -/
def plainScalar (flow : Bool) (least : Int) : (rounds : Nat) → List Char → Option PlainRead
  | 0, _ => none
  | rounds + 1, cs => do
    let (line, after) := plainLine flow false cs
    let own := dropTrailingBlanks line
    let (breaks, column, next) ← lineEnds least [] 0 after
    if breaks.isEmpty then return ⟨own, false, after⟩
    else if endsPlain flow true next || (column == 0 && isMarker next)
        || (!flow && (column : Int) < least) then return ⟨own, true, next⟩
    else
      let more ← plainScalar flow least rounds next
      return { more with chars := own ++ folded [] breaks ++ more.chars }

/-! ## Scalars by layout -/

/-- How the line ends at the end of a scalar by layout are kept: none, one or all. -/
inductive Chomping where
  | strip
  | clip
  | keep
  deriving Repr, DecidableEq

/-- What stands behind the sign of a scalar by layout; an indentation of zero is not given. -/
structure BlockHeader where
  chomping : Chomping
  indentation : Nat
  deriving Repr

def chomping? : Char → Option Chomping
  | '-' => some .strip
  | '+' => some .keep
  | _ => none

def indentation? (c : Char) : Option Nat :=
  if '1' ≤ c && c ≤ '9' then some (c.toNat - 0x30) else none

/-- Splits off the first character if it has a reading. -/
def splitFirst {α : Type} (read? : Char → Option α) (cs : List Char) : Option α × List Char :=
  match cs with
  | [] => (none, [])
  | c :: rest =>
    match read? c with
    | some a => (some a, rest)
    | none => (none, cs)

/-- The marks right behind the sign, in one order or the other. -/
def blockMarks (cs : List Char) : BlockHeader × List Char :=
  match splitFirst chomping? cs with
  | (some chomping, cs) =>
    let (width, cs) := splitFirst indentation? cs
    (⟨chomping, width.getD 0⟩, cs)
  | (none, cs) =>
    match splitFirst indentation? cs with
    | (some width, cs) =>
      let (chomping, cs) := splitFirst chomping? cs
      (⟨chomping.getD .clip, width⟩, cs)
    | (none, cs) => (⟨.clip, 0⟩, cs)

/-- Reads the rest of the line behind the sign, with its line end. -/
def blockHeader? (cs : List Char) : Option (BlockHeader × List Char) :=
  let (header, cs) := blockMarks cs
  let cs := cs.dropWhile isSpacing
  let cs := if cs.head? == some '#' then cs.dropWhile (!isBreak ·) else cs
  match cs with
  | [] => some (header, [])
  | c :: rest => if isBreak c then some (header, rest) else none

/-- What stands between the lines of a scalar by layout: the line ends, the column of the next
character, the largest column that was reached, and the text from there on. -/
structure BlockGap where
  breaks : List Char
  column : Nat
  reach : Nat
  rest : List Char

/-- Skips empty lines and the blanks of the indentation, which ends in the column `width` if that is
not zero.  No tab may stand within it. -/
def blockGap? (width : Nat) : (reach column : Nat) → List Char → Option BlockGap
  | reach, column, [] => some ⟨[], column, max reach column, []⟩
  | reach, column, c :: rest =>
    let inside := width == 0 || column < width
    if inside && c == ' ' then blockGap? width reach (column + 1) rest
    else if inside && c == '\t' then none
    else if isBreak c then
      (blockGap? width (max reach column) 0 rest).map fun g =>
        { g with breaks := lineFeed c :: g.breaks }
    else some ⟨[], column, max reach column, c :: rest⟩

/-- The lines of a scalar by layout, at most `rounds` of them.  `lead` is the line end of the line
before and `more` those of empty lines after it; `blank` tells whether that line started with a
blank.  With `folding`, a line end between two lines of text is a blank. -/
def blockLines (folding : Bool) (chomping : Chomping) (width : Nat) :
    (rounds : Nat) → (lead more : List Char) → (blank : Bool) → (column : Nat) → List Char →
    Option (List Char × List Char)
  | 0, _, _, _, _, _ => none
  | rounds + 1, lead, more, blank, column, cs =>
    match column == width, cs with
    | true, c :: _ => do
      let joint :=
        if folding && !blank && !isSpacing c && lead == ['\n'] then
          (if more.isEmpty then [' '] else [])
        else lead
      let (line, after) := cs.span (!isBreak ·)
      let gap ← blockGap? width 0 (if after.isEmpty then column + line.length else 0) after.tail
      let (text, rest) ←
        blockLines folding chomping width rounds ((after.take 1).map lineFeed) gap.breaks
          (isSpacing c) gap.column gap.rest
      return (joint ++ more ++ line ++ text, rest)
    | _, _ =>
      some (match chomping with
        | .strip => ([], cs)
        | .clip => (lead, cs)
        | .keep => (lead ++ more, cs))

/-- A scalar by layout, from behind its sign on, below a node in the column `indent`. -/
def blockScalar? (folding : Bool) (indent : Int) (cs : List Char) :
    Option (List Char × List Char) := do
  let (header, cs) ← blockHeader? cs
  let given := if header.indentation == 0 then 0 else indent.toNat + header.indentation
  let gap ← blockGap? given 0 0 cs
  let width := if given == 0 then max gap.reach (max (indent + 1).toNat 1) else given
  blockLines folding header.chomping width (cs.length + 1) [] gap.breaks false gap.column gap.rest

end Formulary.Yaml
