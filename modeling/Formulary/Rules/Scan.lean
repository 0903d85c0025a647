import Formulary.Feed
import Formulary.Rules.Symbol
import Formulary.Text.Blank
import Formulary.Text.Digit
import Formulary.Text.Letter

/-!
# Scanning rules

A name starts with a letter and goes on with letters, digits and hyphens.  Any other run of visible
characters without a bracket, bar, colon or quote is a word.  Between single quotes any text may
stand; a backslash takes the character after it as it is.
-/

namespace Formulary.Rules

def isQuote (c : Char) : Bool := c == '\x27'

def isNameChar (c : Char) : Bool := Text.isLetter c || Text.isDigit c || c == '-'

/-- The characters of words. -/
def isWordChar (c : Char) : Bool :=
  !(Text.isBlank c || Text.isSpace c || Text.isControl c)
    && (Symbol.ofChar? c).isNone && c != ':' && !isQuote c

/-- Takes the given characters one by one; the first that is missing is at fault. -/
def scanExactly : List Char → Reader → Except Failure Unit × Reader
  | [], r => (.ok (), r)
  | c :: cs, r =>
    if r.sees (· == c) then scanExactly cs r.advance
    else (.error (r.invalid "expected ::="), r)

def scanAssign (r : Reader) : Step × Reader :=
  match scanExactly [':', ':', '='] r with
  | (.ok (), after) => (.ok ⟨Symbol.assign.kind, "::=", r.pos⟩, after)
  | (.error e, after) => (.error e, after)

/-- The text up to the closing quote and the source after that quote, or none when it is missing;
in front of it, the part of the source that was taken. -/
def quotedText : Text.Source → Text.Source × Option (List Char × Text.Source)
  | [] => ([], none)
  | g :: rest =>
    if isQuote g.char then ([g], some ([], rest))
    else if g.char == '\\' then
      match rest with
      | [] => ([g], none)
      | escaped :: rest =>
        let (taken, result) := quotedText rest
        (g :: escaped :: taken, result.map fun (cs, after) => (escaped.char :: cs, after))
    else
      let (taken, result) := quotedText rest
      (g :: taken, result.map fun (cs, after) => (g.char :: cs, after))

/-- The quoted text at whose first quote `r` stands (`scanQuote`). -/
def scanQuoted (r : Reader) : Step × Reader :=
  let inside := r.advance
  match quotedText inside.rest with
  | (taken, some (cs, rest)) =>
    (.ok ⟨Symbol.quoted.kind, String.ofList cs, r.pos⟩,
      ⟨rest, Reader.positionAfter inside.pos taken⟩)
  | (taken, none) =>
    (.error (.unreadable ⟨0, "unterminated quoted string", r.pos⟩),
      ⟨[], Reader.positionAfter inside.pos taken⟩)

/-- The run of characters that `p` accepts, as a token (`scanIdent` and `scanString`). -/
def scanRun (s : Symbol) (p : Char → Bool) (r : Reader) : Step × Reader :=
  let (cs, after) := r.takeWhile p
  (.ok ⟨s.kind, String.ofList cs, r.pos⟩, after)

/-- The token at which `r` stands, a character that is no blank. -/
def scanToken (r : Reader) : Step × Reader :=
  match r.peek with
  | none => (.ok (.eofAt r.pos), r)
  | some c =>
    if c == ':' then scanAssign r
    else
      match Symbol.ofChar? c with
      | some s => (.ok ⟨s.kind, String.ofList [c], r.pos⟩, r.advance)
      | none =>
        if isQuote c then scanQuoted r
        else if Text.isLetter c then scanRun .ident isNameChar r
        else if isWordChar c then scanRun .word isWordChar r
        else (.error (r.invalid "invalid character"), r)

/-- The next token (`Scanner.Next`). -/
def scan (r : Reader) : Step × Reader := scanToken (r.skipWhile Text.isBlank)

/-- The tokens of a grammar. -/
def feed (s : Text.Source) : Feed := .ofScanner scan (.ofSource s)

end Formulary.Rules
