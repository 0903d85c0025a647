import Formulary.Text.Hex
import Formulary.Text.Printable

/-!
# Quoted text

A text between quotes, in which the quote and the backslash are written with a backslash in front,
printable characters as they are, and the others as escapes: a letter for the seven classic control
characters, `\x` and two digits below the space and for the delete character, `\u` and four digits
below U+10000, `\U` and eight digits above.  Octal escapes are read and not written.
-/

namespace Formulary.Text

/-- The letter that stands for a control character after a backslash. -/
def escapeLetter? (c : Char) : Option Char :=
  match c.toNat with
  | 0x07 => some 'a'
  | 0x08 => some 'b'
  | 0x0c => some 'f'
  | 0x0a => some 'n'
  | 0x0d => some 'r'
  | 0x09 => some 't'
  | 0x0b => some 'v'
  | _ => none

/-- How `c` is written between two quotes `quote`. -/
def escape (quote c : Char) : List Char :=
  if c == quote || c == '\\' then ['\\', c]
  else if isPrintable c then [c]
  else match escapeLetter? c with
    | some letter => ['\\', letter]
    | none =>
      let n := c.toNat
      if n < 0x20 || n == 0x7f then '\\' :: 'x' :: hex 2 n
      else if n < 0x10000 then '\\' :: 'u' :: hex 4 n
      else '\\' :: 'U' :: hex 8 n

/-- The text between double quotes. -/
def quote (s : String) : String :=
  String.ofList (['\x22'] ++ s.toList.flatMap (escape '\x22') ++ ['\x22'])

/-- The control character that a letter stands for after a backslash. -/
def escapedBy? (letter : Char) : Option Char :=
  match letter with
  | 'a' => some '\x07'
  | 'b' => some '\x08'
  | 'f' => some '\x0c'
  | 'n' => some '\x0a'
  | 'r' => some '\x0d'
  | 't' => some '\x09'
  | 'v' => some '\x0b'
  | _ => none

def isOctalDigit (c : Char) : Bool := '0' ≤ c && c ≤ '7'

/-- The character that three octal digits stand for.  They stand for a byte, which is a character
only below 0x80. -/
def charOfOctal? (cs : List Char) : Option Char :=
  let n := cs.foldl (fun n c => n * 8 + (c.toNat - 0x30)) 0
  if cs.length == 3 && cs.all isOctalDigit && n < 0x80 then some (Char.ofNat n) else none

/-- The character that the text after a backslash starts with, and the text after that.  The two
digits after an `x` stand for a byte as well. -/
def unescape? (quote : Char) : List Char → Option (Char × List Char)
  | [] => none
  | c :: cs =>
    if c == quote || c == '\\' then some (c, cs)
    else
      let number (width : Nat) := (charOfHex? (cs.take width)).map fun d => (d, cs.drop width)
      if c == 'x' then (number 2).filter (·.1.toNat < 0x80)
      else if c == 'u' then number 4
      else if c == 'U' then number 8
      else if isOctalDigit c then (charOfOctal? (c :: cs.take 2)).map fun d => (d, cs.drop 2)
      else (escapedBy? c).map fun d => (d, cs)

/-- Reads the characters up to the closing quote, behind which there is nothing.  At most `size`
characters are left.  A line does not end between quotes. -/
def unquoteRest? (quote : Char) : (size : Nat) → List Char → Option (List Char)
  | _, [] | 0, _ => none
  | size + 1, c :: cs =>
    if c == quote then if cs.isEmpty then some [] else none
    else if c == '\\' then do
      let (d, rest) ← unescape? quote cs
      return d :: (← unquoteRest? quote size rest)
    else if c == '\n' then none
    else do return c :: (← unquoteRest? quote size cs)

/-- The text that stands between double quotes. -/
def unquote? (s : List Char) : Option (List Char) :=
  match s with
  | '\x22' :: cs => unquoteRest? '\x22' cs.length cs
  | _ => none

/-- The character between single quotes. -/
def quoteChar (c : Char) : String :=
  String.ofList (['\x27'] ++ escape '\x27' c ++ ['\x27'])

/-- The character of a code point; a number that is none stands for the replacement character. -/
def charOfCode (n : Int) : Char :=
  if 0 ≤ n ∧ n.toNat.isValidChar then Char.ofNat n.toNat else '\uFFFD'

end Formulary.Text
