import Formulary.Text.Quoted
import Formulary.Token

/-!
# Failures while reading

What can go wrong before a value is built: a character that no token takes, a token that does not
fit, a source that gives up, and a look ahead at a place that is none.
-/

namespace Formulary

/-- A token that does not fit where it stands. -/
structure SyntaxError where
  /-- The name of the kind that would have fitted, if there is only one. -/
  expected : String
  /-- The token found. -/
  actual : String
  cause : String
  pos : Position
  deriving Repr, DecidableEq

namespace SyntaxError

/-- Whether the input ended too early. -/
def isEOF (e : SyntaxError) : Bool := e.actual == "<eof>"

def message (e : SyntaxError) : String :=
  if e.expected != "" then
    s!"{e.pos.text}: {e.cause}: want {e.expected} but got {e.actual}"
  else if e.actual == "" || e.isEOF then s!"{e.pos.text}: {e.cause}"
  else s!"{e.pos.text}: {e.cause}: {e.actual}"

def causeOf (t : Token) : String :=
  if t.isEOF then "unexpected end of input" else "unexpected symbol"

/-- The token can not be accepted here (`Unexpected`). -/
def unexpected (t : Token) : SyntaxError := ⟨"", t.text, causeOf t, t.pos⟩

/-- Another kind was required here (`expected`). -/
def wanted (k : Kind) (t : Token) : SyntaxError := ⟨k.name, t.text, causeOf t, t.pos⟩

end SyntaxError

/-- A character that can neither start nor continue a token. -/
structure TokenizeError where
  /-- The code point at fault, zero when there is none to show. -/
  char : Int
  /-- Left empty for the plain case of a character that fits nowhere. -/
  cause : String
  pos : Position
  deriving Repr, DecidableEq

namespace TokenizeError

def message (e : TokenizeError) : String :=
  let cause := if e.cause == "" then "invalid character" else e.cause
  if e.char == 0 then s!"{e.pos.text}: {cause}"
  else s!"{e.pos.text}: {cause} {Text.quoteChar (Text.charOfCode e.char)}"

end TokenizeError

inductive Failure where
  | misplaced (error : SyntaxError)
  | unreadable (error : TokenizeError)
  /-- The source of the tokens gave up with a reason of its own. -/
  | source (reason : String)
  /-- There is no token `ahead` places ahead. -/
  | lookahead (ahead : Int)
  deriving Repr, DecidableEq

namespace Failure

def message : Failure → String
  | misplaced e => e.message
  | unreadable e => e.message
  | source reason => reason
  | lookahead k => s!"lookahead {k}: position should be at least 1"

end Failure

end Formulary
