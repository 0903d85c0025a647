import Formulary.Yaml.Scalar
import Formulary.Yaml.Token

/-!
# The tokens of a text

A text is taken apart from front to back.  That a node is a key is known only when the colon after
it is seen: so its place is remembered, and the token of the key, and of the map that starts with
it, is put in front of it later.  Tokens wait in a queue until this can no longer happen to them and
two more have come.  Where the text cannot be taken apart the tokens end; those that did not wait
any more are still there.
-/

namespace Formulary.Yaml

open Text (isSpacing)

/-- A node that may turn out to be a key. -/
structure Candidate where
  /-- The number of its first token. -/
  number : Nat
  line : Nat
  column : Nat
  /-- Whether nothing but a key can stand there. -/
  required : Bool
  /-- Whether its first token waits for the colon. -/
  awaited : Bool
  deriving Repr

/-- What is known about brackets that are open. -/
structure Bracket where
  /-- The number of the first token of the last node within them that could have been a key, or of
  the bracket itself. -/
  number : Nat
  candidate : Option Candidate
  deriving Repr

/-- What is known while a text is taken apart. -/
structure Scan where
  spot : Spot
  /-- The tokens that wait. -/
  queue : List Token
  /-- The number of tokens that wait no more. -/
  given : Nat
  /-- The column of the innermost list or map by layout, and those around it; outside of all it is
  minus one. -/
  indent : Int
  outer : List Int
  /-- The brackets that are open, the innermost first. -/
  flow : List Bracket
  /-- The possible key outside of brackets. -/
  base : Option Candidate
  /-- Whether a key may start here and, outside of brackets, a list or a map by layout. -/
  fresh : Bool

namespace Scan

/-- The start of a text.  `used` bytes of its first block are left out. -/
def start (used : Nat) (cs : List Char) : Scan :=
  ⟨⟨withLineEnds cs, 0, 0, .start used cs⟩, [.streamStart], 0, -1, [], [], none, true⟩

/-- Whether we are outside of brackets. -/
def isBlock (s : Scan) : Bool := s.flow.isEmpty

/-- How many brackets may be open, and how many lists and maps by layout. -/
def depthLimit : Nat := 10000

/-- Adds a token to the queue. -/
def push (s : Scan) (t : Token) : Scan := { s with queue := s.queue ++ [t] }

/-- The number of the next token. -/
def nextNumber (s : Scan) : Nat := s.given + s.queue.length

/-- Puts a token in front of the one of the given number; one that waits no more cannot be reached,
and the token comes last. -/
def insert (s : Scan) (number : Nat) (t : Token) : Scan :=
  if s.given ≤ number then { s with queue := s.queue.insertIdx (number - s.given) t } else s.push t

/-- Adds a token and goes to the place after it. -/
def pushTo (s : Scan) (t : Token) (spot : Spot) : Scan := { s.push t with spot }

/-! ## Keys -/

/-- The possible key within the innermost brackets. -/
def candidate (s : Scan) : Option Candidate :=
  match s.flow with
  | [] => s.base
  | b :: _ => b.candidate

def setCandidate (s : Scan) (c : Option Candidate) : Scan :=
  match s.flow with
  | [] => { s with base := c }
  | b :: outer =>
    { s with flow := ⟨(c.map (·.number)).getD b.number, c⟩ :: outer }

/-- The number of characters within which the colon of a key comes. -/
def keyReach : Nat := 1024

/-- Whether the colon of a possible key can no longer come: it stands on the same line. -/
def isLate (s : Scan) (c : Candidate) : Bool :=
  c.line < s.spot.line || c.column + keyReach < s.spot.column

/-- Gives up the possible key; refused if one had to be there. -/
def dropCandidate? (s : Scan) : Option Scan :=
  match s.candidate with
  | some c => if c.required then none else some (s.setCandidate none)
  | none => some s

/-- Remembers the place if a key may start here. -/
def noteCandidate? (s : Scan) : Option Scan :=
  if s.fresh then do
    let required := s.isBlock && s.indent == s.spot.column
    let c := ⟨s.nextNumber, s.spot.line, s.spot.column, required, true⟩
    return (← s.dropCandidate?).setCandidate (some c)
  else some s

/-! ## Layout -/

/-- Starts a list or a map in a column if that is further right than the one around it; its token is
put in front of the one of the given number. -/
def roll? (s : Scan) (column : Nat) (number : Nat) (t : Token) : Option Scan :=
  if s.isBlock && s.indent < column then
    if s.outer.length < depthLimit then
      some { s.insert number t with indent := column, outer := s.indent :: s.outer }
    else none
  else some s

/-- Ends the lists and maps that stand further right than the column. -/
def unrollFrom (column : Int) : List Int → Scan → Scan
  | [], s => s
  | around :: outer, s =>
    if column < s.indent then
      unrollFrom column outer { s.push .endOfLayout with indent := around, outer := outer }
    else s

def unroll (s : Scan) (column : Int) : Scan :=
  if s.isBlock then unrollFrom column s.outer s else s

/-! ## Tokens of each kind -/

/-- Starts afresh outside of all lists and maps by layout. -/
def reset? (s : Scan) : Option Scan := do
  return { ← (s.unroll (-1)).dropCandidate? with fresh := false }

/-- The end of the text, which ends its last line. -/
def finish? (s : Scan) : Option Scan := do
  let p := s.spot
  let spot := if p.column == 0 then p else { p with line := p.line + 1, column := 0 }
  return (← { s with spot }.reset?).push .streamEnd

/-- The place after a comment behind the token just added. -/
def skipComment? (s : Scan) : Option Scan := do
  return { s with spot := ← s.spot.afterLineComment? }

/-- An opening bracket. -/
def openBracket? (s : Scan) (t : Token) : Option Scan := do
  let s ← s.noteCandidate?
  if depthLimit ≤ s.flow.length then none
  { s.pushTo t s.spot.next with flow := ⟨s.nextNumber, none⟩ :: s.flow, fresh := true }.skipComment?

/-- Leaves the innermost brackets.  If nothing within them could have been a key, the brackets are
no longer waited for as one. -/
def leave (s : Scan) : Scan :=
  match s.flow with
  | [] => s
  | b :: flow =>
    let s := { s with flow }
    match s.candidate with
    | some c =>
      if c.number == b.number then s.setCandidate (some { c with awaited := false }) else s
    | none => s

/-- A closing bracket, even where none is open. -/
def closeBracket? (s : Scan) (t : Token) : Option Scan := do
  let s := (← s.dropCandidate?).leave
  { s.pushTo t s.spot.next with fresh := false }.skipComment?

def comma? (s : Scan) : Option Scan := do
  let s ← s.dropCandidate?
  { s.pushTo .comma s.spot.next with fresh := true }.skipComment?

/-- The sign of an item. -/
def item? (s : Scan) : Option Scan := do
  if s.isBlock && !s.fresh then none
  let s ← s.roll? s.spot.column s.nextNumber .listByLayout
  let s ← s.dropCandidate?
  return { s.pushTo .item s.spot.next with fresh := true }

/-- The sign of a key. -/
def key? (s : Scan) : Option Scan := do
  if s.isBlock && !s.fresh then none
  let s ← s.roll? s.spot.column s.nextNumber .mapByLayout
  let s ← s.dropCandidate?
  { s.pushTo .key s.spot.next with fresh := s.isBlock }.skipComment?

/-- The colon behind a node that was remembered: it is a key. -/
def colonAfterKey? (s : Scan) (c : Candidate) : Option Scan := do
  let s ← (s.insert c.number .key).roll? c.column c.number .mapByLayout
  return { s.setCandidate none with fresh := false }

/-- A colon that follows no node, or one behind the sign of a key. -/
def colonAlone? (s : Scan) : Option Scan := do
  if s.isBlock && !s.fresh then none
  let s ← s.roll? s.spot.column s.nextNumber .mapByLayout
  return { s with fresh := s.isBlock }

def colon? (s : Scan) : Option Scan := do
  let s ← match s.candidate with
    | none => s.colonAlone?
    | some c =>
      if !s.isLate c then s.colonAfterKey? c
      else if c.required then none
      else (s.setCandidate none).colonAlone?
  (s.pushTo .value s.spot.next).skipComment?

/-- A token that a key may start with; `spot` is the place after it. -/
def inline? (s : Scan) (t : Token) (spot : Spot) : Option Scan := do
  let s ← s.noteCandidate?
  return { s.pushTo t spot with fresh := false }

/-- A plain scalar.  Blanks and line ends behind it belong to it; one more word is looked for there
unless the line starts too far left. -/
def plain? (s : Scan) : Option Scan := do
  let cs := s.spot.rest
  let read ← plainScalar (!s.isBlock) (s.indent + 1) (cs.length + 1) cs
  let length := cs.length - read.rest.length
  let spot ← s.spot.passWords? length false
  let ends := (cs.drop (length - 1)).head?.any fun c => isSpacing c || isBreak c
  let isLeft := s.isBlock && (spot.column : Int) < s.indent + 1
  let spot ← if ends && !(read.crossed && isLeft) then spot.ask? 4 else some spot
  let s ← s.inline? (.scalar (String.ofList read.chars) true) spot
  if read.crossed then return { s with fresh := true } else s.skipComment?

/-- A quoted scalar. -/
def quoted? (s : Scan) : Option Scan := do
  let inside := s.spot.rest.tail
  let (cs, after) ←
    if s.spot.sees '\x27' then singleQuoted [] [] inside else doubleQuoted false [] [] inside
  let spot ← (← s.spot.next.ask? 4).passWords? (inside.length - after.length - 1) true
  (← s.inline? (.scalar (String.ofList cs) false) spot.next).skipComment?

/-- A scalar by layout. -/
def block? (s : Scan) (folding : Bool) : Option Scan := do
  let s ← s.dropCandidate?
  let (text, after) ← blockScalar? folding s.indent s.spot.rest.tail
  let s := s.pushTo (.scalar (String.ofList text) false) (← s.spot.passTo? after)
  return { s with fresh := true }

/-- A name or a tag. -/
def nameOrTag? : List Char → Option (Token × List Char)
  | '*' :: rest => (name? rest).map fun (name, after) => (.reference name, after)
  | '&' :: rest => (name? rest).map fun (name, after) => (.anchor name, after)
  | '!' :: rest => tag? rest
  | _ => none

/-! ## Taking a text apart -/

/-- Whether the sign `c` stands here by itself; within brackets it always does. -/
def seesSign (s : Scan) (c : Char) : Bool :=
  if s.isBlock then s.spot.seesAlone c else s.spot.sees c

/-- Adds the next token after the gap in front of it. -/
def add? (s : Scan) : Option Scan := do
  let spot := s.spot
  if spot.rest.isEmpty then s.finish?
  else if spot.column == 0 && spot.sees '%' then
    let s ← s.reset?
    let (t, after) ← directive? spot.rest.tail
    return s.pushTo t (← spot.passTo? after)
  else if spot.atMarker then
    let marker := if spot.sees '-' then Token.documentStart else .documentEnd
    return (← s.reset?).pushTo marker (spot.skip 3)
  else if spot.sees '[' then s.openBracket? .listOpen
  else if spot.sees '\x7b' then s.openBracket? .mapOpen
  else if spot.sees ']' then s.closeBracket? .listClose
  else if spot.sees '\x7d' then s.closeBracket? .mapClose
  else if spot.sees ',' then s.comma?
  else if spot.seesAlone '-' then s.item?
  else if s.seesSign '?' then s.key?
  else if s.seesSign ':' then s.colon?
  else if s.isBlock && (spot.sees '|' || spot.sees '>') then s.block? (spot.sees '>')
  else if spot.sees '\x27' || spot.sees '\x22' then s.quoted?
  else if startsPlain (!s.isBlock) spot.rest then s.plain?
  else
    let (t, after) ← nameOrTag? spot.rest
    (← s.inline? t (← spot.passTo? after)).skipComment?

/-- Adds the next token. -/
def fetch? (s : Scan) : Option Scan := do
  let (fresh, spot) ← gap? s.isBlock (s.spot.rest.length + 1) s.fresh s.spot
  ({ s with fresh, spot := ← spot.ask? 4 }.unroll spot.column).add?

/-- The node that may be a key and that starts with the first token of the queue, which waits for
it. -/
def firstCandidate? (s : Scan) : Option Candidate :=
  let isFirst (c : Candidate) : Bool := c.awaited && c.number == s.given
  (s.base.filter isFirst) <|> s.flow.findSome? fun b => b.candidate.filter isFirst

/-- Whether the first token of the queue waits no more; nothing is known if it had to be part of a
key and is not. -/
def isReady? (s : Scan) : Option Bool :=
  if s.queue.length < 3 then some false
  else match s.firstCandidate? with
    | none => some true
    | some c => if !s.isLate c then some false else if c.required then none else some true

/-- The tokens of a text, in at most `rounds` rounds. -/
def tokens : (rounds : Nat) → Scan → List Token
  | 0, _ => []
  | rounds + 1, s =>
    match s.isReady?, s.queue with
    | some true, t :: queue =>
      if t == .streamEnd then [t] else t :: tokens rounds { s with queue, given := s.given + 1 }
    | some _, _ =>
      match s.fetch? with
      | some s => tokens rounds s
      | none => []
    | none, _ => []

end Scan

/-- The tokens of a text.  A byte order mark in front of it does not count. -/
def tokensOf (text : String) : List Token :=
  let (used, cs) := match text.toList with
    | '\uFEFF' :: rest => (byteOrderMark.utf8Size, rest)
    | cs => (0, cs)
  Scan.tokens (6 * cs.length + 20) (.start used cs)

end Formulary.Yaml
