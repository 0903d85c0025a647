import Formulary.Ebnf.Production
import Formulary.Number.Literal
import Formulary.Reader
import Formulary.Text.Blank

/-!
# Lexemes of productions

The notation of productions knows names, numbers, texts between double quotes and single characters.
-/

namespace Formulary.Ebnf

open Number (isDecimalDigit)

inductive Lexeme where
  | name (text : String)
  | whole (text : String)
  | decimal (text : String)
  /-- A text as it stands, with its quotes and escapes. -/
  | literal (text : String)
  | char (c : Char)
  | eof
  deriving Repr, DecidableEq

namespace Lexeme

/-- How a lexeme is shown where it was not expected. -/
def shown : Lexeme → String
  | name text => s!"Ident {text}"
  | whole text => s!"Int {text}"
  | decimal text => s!"Float {text}"
  | literal text => s!"String {text}"
  | char c => Text.quote (String.singleton c)
  | eof => "EOF "

/-- The characters of a lexeme. -/
def text : Lexeme → String
  | name text | whole text | decimal text | literal text => text
  | char c => String.singleton c
  | eof => ""

end Lexeme

/-- A lexeme at its position. -/
structure Spot where
  lexeme : Lexeme
  pos : Position
  deriving Repr, DecidableEq

/-! ## Numbers -/

def isHexDigit (c : Char) : Bool := (Text.hexValue? c).isSome

/-- Splits the text after its longest start of characters that `p` accepts. -/
def spanDigits (p : Char → Bool) (cs : List Char) : List Char × List Char :=
  cs.span fun c => p c || c == '_'

/-- The mark of a base, and the digits of that base. -/
def baseMark? (c : Char) : Option (Char → Bool) :=
  if c == 'x' || c == 'X' then some isHexDigit
  else if c == 'o' || c == 'O' || c == 'b' || c == 'B' then some isDecimalDigit
  else none

/-- The start of a number up to its last digit before a dot or an exponent: the characters taken,
the digits that may follow a dot, and the text after. -/
def wholePart (cs : List Char) : List Char × (Char → Bool) × List Char :=
  match cs with
  | '0' :: c :: rest =>
    match baseMark? c with
    | some p => let (ds, after) := spanDigits p rest; ('0' :: c :: ds, p, after)
    | none => let (ds, after) := spanDigits isDecimalDigit cs; (ds, isDecimalDigit, after)
  | _ => let (ds, after) := spanDigits isDecimalDigit cs; (ds, isDecimalDigit, after)

/-- A dot and the digits behind it, if there is a dot. -/
def fractionPart (p : Char → Bool) (cs : List Char) : List Char × List Char :=
  match cs with
  | '.' :: rest => let (ds, after) := spanDigits p rest; ('.' :: ds, after)
  | _ => ([], cs)

def isExponentMark (c : Char) : Bool := c == 'e' || c == 'E' || c == 'p' || c == 'P'

/-- The mark of an exponent with its sign and digits, if there is one. -/
def exponentPart (cs : List Char) : List Char × List Char :=
  match cs with
  | c :: rest =>
    if isExponentMark c then
      match rest with
      | s :: rest =>
        if s == '+' || s == '-' then
          let (ds, after) := spanDigits isDecimalDigit rest
          (c :: s :: ds, after)
        else
          let (ds, after) := spanDigits isDecimalDigit (s :: rest)
          (c :: ds, after)
      | [] => ([c], [])
    else ([], cs)
  | [] => ([], [])

/-- The number that the text starts with. -/
def numberAt (cs : List Char) : Lexeme :=
  let (whole, p, after) := wholePart cs
  let (fraction, after) := fractionPart p after
  let (exponent, _) := exponentPart after
  let text := String.ofList (whole ++ fraction ++ exponent)
  if fraction.isEmpty && exponent.isEmpty then .whole text else .decimal text

/-! ## Names and texts -/

/-- The characters up to and with the closing quote. -/
def literalRest : List Char → List Char
  | [] => []
  | '\\' :: c :: rest => '\\' :: c :: literalRest rest
  | c :: rest => if c == '\x22' then [c] else c :: literalRest rest

/-- The lexeme that a text starts with, a text that starts with no blank. -/
def lexemeAt (cs : List Char) : Lexeme :=
  match cs with
  | [] => .eof
  | c :: rest =>
    if startsName c then .name (String.ofList (cs.takeWhile continuesName))
    else if isDecimalDigit c then numberAt cs
    else if c == '\x22' then .literal (String.ofList (c :: literalRest rest))
    else .char c

/-- The reader after `n` more characters. -/
def skip (r : Reader) (n : Nat) : Reader :=
  ⟨r.rest.drop n, Reader.positionAfter r.pos (r.rest.take n)⟩

/-- The lexemes of a text, and its end. -/
def spots (r : Reader) : List Spot × Spot :=
  let start := r.skipWhile Text.isBlank
  match lexemeAt (Text.Source.chars start.rest) with
  | .eof => ([], ⟨.eof, start.pos⟩)
  | lexeme =>
    let after := skip start lexeme.text.length
    if _h : after.rest.length < r.rest.length then
      let (spots, ending) := spots after
      (⟨lexeme, start.pos⟩ :: spots, ending)
    else ([], ⟨.eof, start.pos⟩)
termination_by r.rest.length

end Formulary.Ebnf
