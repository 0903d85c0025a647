import Formulary.Chain.Grammar
import Formulary.Cursor
import Formulary.Text.Blank

/-!
# Rules, errors and traces of a parse

The rules of the chain are the levels of the binary operators and the forms of an operand.  While it
parses, the chain reports which rules it enters and leaves, and at which one it fails.
-/

namespace Formulary.Chain

inductive Rule where
  | level (index : Nat)
  | expression
  | terminal
  | call
  | group
  | unary
  | atom
  deriving Repr, DecidableEq

def Rule.name : Rule → String
  | level i => s!"level-{i}"
  | expression => "expression"
  | terminal => "terminal"
  | call => "call"
  | group => "group"
  | unary => "unary"
  | atom => "atom"

/-- Why a parse fails.  `ε` holds the reasons for which a token can not be converted. -/
inductive ParseError (ε : Type) where
  | read (failure : Failure)
  | nested (limit : Nat) (pos : Position)
  | convert (token : Token) (reason : ε)
  /-- The grammar gives the end of the input a part to play, and the parse would never stop. -/
  | endless
  deriving Repr, DecidableEq

def ParseError.message {ε : Type} (reason : ε → String) : ParseError ε → String
  | read f => f.message
  | nested limit pos => s!"{pos.text}: expression nested deeper than {limit} levels"
  | convert token e => s!"{token.pos.text}: {token.text}: {reason e}"
  | endless => "parse never ends"

inductive Event (ε : Type) where
  | enter (rule : Rule) (depth : Nat)
  | leave (rule : Rule) (depth : Nat)
  | failed (rule : Rule) (error : ParseError ε)
  deriving Repr, DecidableEq

/-! ## Traces as text -/

/-- Whether a value of a log line has to be quoted: it is empty or holds a blank, an equals sign, a
quote or a character that is not printable.  A backslash alone is no reason. -/
def needsQuotes (s : String) : Bool :=
  s.isEmpty || s.toList.any fun c =>
    if c.toNat < 0x80 then c.toNat ≤ 0x20 || c == '=' || c == '\x22'
    else c == '\uFFFD' || Text.isSpace c || !Text.isPrintable c

def logValue (s : String) : String := if needsQuotes s then Text.quote s else s

/-- A log line made of a level, a message and pairs of names and values. -/
def logLine (level : String) (pairs : List (String × String)) : String :=
  " ".intercalate (s!"level={level}" :: pairs.map fun (k, v) => k ++ "=" ++ logValue v) ++ "\n"

/-- The event as a line of a log. -/
def Event.line {ε : Type} (reason : ε → String) : Event ε → String
  | enter rule depth =>
    logLine "DEBUG" [("msg", "start parse rule"), ("rule", rule.name), ("depth", toString depth)]
  | leave rule depth =>
    logLine "DEBUG" [("msg", "done parse rule"), ("rule", rule.name), ("depth", toString depth)]
  | failed rule e =>
    logLine "ERROR"
      [("msg", "parse rule failed"), ("rule", rule.name), ("error", e.message reason)]

end Formulary.Chain
