import Formulary.Arith.Symbol
import Formulary.Feed
import Formulary.Text.Blank

/-!
# Scanning formulas

A formula is made of numbers, identifiers and nine signs of one character, with blanks between them.
A scan that fails stops at the character at fault and has taken those before it, so a second scan
goes on from there.
-/

namespace Formulary.Arith

def isDigit (c : Char) : Bool := '0' ≤ c && c ≤ '9'

/-- The letters of identifiers: those of ASCII and the underscore. -/
def isLetter (c : Char) : Bool :=
  ('a' ≤ c && c ≤ 'z') || ('A' ≤ c && c ≤ 'Z') || c == '_'

def isIdentChar (c : Char) : Bool := isLetter c || isDigit c

/-- The digits of a mantissa, with a point where there is one. -/
def scanMantissa (r : Reader) : List Char × Reader :=
  let (whole, r) := r.takeWhile isDigit
  if r.sees (· == '.') then
    let (fraction, r) := r.advance.takeWhile isDigit
    (whole ++ '.' :: fraction, r)
  else (whole, r)

/-- The exponent at which `r` stands, mark included, or the failure to find its digits. -/
def scanExponent (r : Reader) : Except Failure (List Char) × Reader :=
  let (mark, r) := (r.peek.toList, r.advance)
  let (sign, r) :=
    if r.sees fun c => c == '-' || c == '+' then (r.peek.toList, r.advance) else ([], r)
  if r.sees isDigit then
    let (ds, r) := r.takeWhile isDigit
    (.ok (mark ++ sign ++ ds), r)
  else (.error (r.invalid "missing exponent"), r)

/-- The number at which `r` stands. -/
def scanNumber (r : Reader) : Step × Reader :=
  let (mantissa, after) := scanMantissa r
  if mantissa == ['.'] then (.error (.unreadable ⟨'.'.toNat, "invalid number", r.pos⟩), after)
  else if after.sees fun c => c == 'e' || c == 'E' then
    match scanExponent after with
    | (.ok exponent, after) =>
      (.ok ⟨Symbol.number.kind, String.ofList (mantissa ++ exponent), r.pos⟩, after)
    | (.error e, after) => (.error e, after)
  else (.ok ⟨Symbol.number.kind, String.ofList mantissa, r.pos⟩, after)

/-- The identifier at which `r` stands. -/
def scanIdent (r : Reader) : Step × Reader :=
  let (name, after) := r.takeWhile isIdentChar
  (.ok ⟨Symbol.ident.kind, String.ofList name, r.pos⟩, after)

/-- The token at which `r` stands, a character that is no blank. -/
def scanToken (r : Reader) : Step × Reader :=
  match r.peek with
  | none => (.ok (.eofAt r.pos), r)
  | some c =>
    if isDigit c || c == '.' then scanNumber r
    else if isLetter c then scanIdent r
    else
      match Symbol.ofChar? c with
      | some s => (.ok ⟨s.kind, String.ofList [c], r.pos⟩, r.advance)
      | none => (.error (r.invalid "invalid character"), r)

/-- The next token (`Scanner.Next`). -/
def scan (r : Reader) : Step × Reader := scanToken (r.skipWhile Text.isBlank)

/-- The tokens of a formula. -/
def feed (s : Text.Source) : Feed := .ofScanner scan (.ofSource s)

end Formulary.Arith
