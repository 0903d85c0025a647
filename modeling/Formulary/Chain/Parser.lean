import Formulary.Chain.Trace
import Formulary.Tree

/-!
# The chain of precedence levels

Each level reads operands of the next one, joined by its own operators; behind the last level stand
the calls, the groups in parentheses, the unary operators and the atoms.  A group and the arguments
of a call start again at the first level.

Nothing recurses without an allowance.  Expressions nest at most as deep as the `room` left, which
is the limit of the parser or, without one, the number of tokens at hand: each nesting takes a
token.  A loop over operators or arguments ends because each round takes a token too.  An allowance
that runs out without a limit means that the end of the input was taken for an operator, an operand
or a parenthesis again and again.
-/

namespace Formulary.Chain

/-! ## 1. Parsers and their work -/

/-- A parser: a checked grammar, a conversion of tokens into values and a limit of depth
(`Formula`). -/
structure Parser (ε α : Type) where
  convert : Token → Role → Except ε α
  leftParen : Kind
  rightParen : Kind
  comma : Kind
  /-- The codes of the binary operators by level. -/
  levels : List (List Int)
  unaries : List Int
  identifiers : List Int
  isFunction : String → Bool
  /-- The greatest depth of expressions, zero for no limit. -/
  limit : Nat

def codes (kinds : List Kind) : List Int := kinds.map (·.code)

/-- The index of the first level without an operator. -/
def emptyLevel? (levels : List (List Kind)) : Option Nat := levels.findIdx? (·.isEmpty)

/-- The parser of a grammar, without a limit of depth (`New`). -/
def Parser.build {ε α : Type} (g : Grammar) (convert : Option (Token → Role → Except ε α)) :
    Except ConfigError (Parser ε α) :=
  match convert, g.leftParen, g.rightParen, g.comma with
  | none, _, _, _ => .error .noConverter
  | some convert, some leftParen, some rightParen, some comma =>
    match emptyLevel? g.binaries with
    | some i => .error (.emptyLevel i)
    | none => .ok {
        convert, leftParen, rightParen, comma
        levels := g.binaries.map codes
        unaries := codes g.unaries
        identifiers := codes g.identifiers
        isFunction := g.isFunction
        limit := 0 }
  | _, _, _, _ => .error .noParens

/-- The parser with a limit of depth (`WithMaxDepth`); zero and less mean none. -/
def Parser.withLimit {ε α : Type} (p : Parser ε α) (limit : Int) : Parser ε α :=
  { p with limit := limit.toNat }

/-- What a parse has done so far. -/
structure Work (ε : Type) where
  cursor : Cursor
  /-- The events reported, the latest first. -/
  events : List (Event ε)
  /-- The tokens converted with their roles, the latest first. -/
  converted : List (Token × Role)

/-- A stage of a parse.  What it did stays done when it fails. -/
abbrev Stage (ε α : Type) := ExceptT (ParseError ε) (StateM (Work ε)) α

section

variable {ε α β : Type}

/-- Reports an event. -/
def report (e : Event ε) : Stage ε Unit := modify fun w => { w with events := e :: w.events }

/-- Fails within `rule`, and reports it (`state.fail`). -/
def failIn (rule : Rule) (e : ParseError ε) : Stage ε β := do
  report (.failed rule e)
  throw e

/-- Moves the cursor; a failure of the move is one within `rule`. -/
def onCursor (rule : Rule) (move : Cursor → Except Failure β × Cursor) : Stage ε β := do
  let w ← get
  let (result, cursor) := move w.cursor
  set { w with cursor }
  match result with
  | .ok b => pure b
  | .error f => failIn rule (.read f)

/-- The next token. -/
def peek (rule : Rule) : Stage ε Token := onCursor rule (·.look 1)

/-- Moves past the next token. -/
def skip (rule : Rule) : Stage ε Unit := onCursor rule (·.consume)

/-- Moves past a token of the given kind. -/
def require (rule : Rule) (k : Kind) : Stage ε Unit := do
  let _ ← onCursor rule (·.expect k)

/-- Runs `body` between the events that enter and leave `rule`, whether or not it fails
(`state.enter` and `state.leave`). -/
def within (rule : Rule) (depth : Nat) (body : Stage ε β) : Stage ε β := do
  report (.enter rule depth)
  let result ← ExceptT.lift body.run
  report (.leave rule depth)
  match result with
  | .ok b => pure b
  | .error e => throw e

/-- The position of the next token, or of nothing when it can not be read. -/
def peekPosition : Stage ε Position := do
  let w ← get
  let (result, cursor) := w.cursor.look 1
  set { w with cursor }
  match result with
  | .ok t => pure t.pos
  | .error _ => pure .nowhere

/-- The number of tokens that a loop or a nesting can still take. -/
def pending : Stage ε Nat := do return (← get).cursor.pending

namespace Parser

variable (p : Parser ε α)

/-- The value of a token in a role (`state.value`). -/
def valueOf (rule : Rule) (t : Token) (role : Role) : Stage ε α := do
  modify fun w => { w with converted := (t, role) :: w.converted }
  match p.convert t role with
  | .ok v => pure v
  | .error e => failIn rule (.convert t e)

/-- Fails because expressions nest too deep. -/
def tooDeep (rule : Rule) : Stage ε β := do
  if p.limit == 0 then failIn rule .endless
  else
    let pos ← peekPosition
    failIn rule (.nested p.limit pos)

/-! ## 2. Operands -/

/-- A single operand (`state.atom`). -/
def atom : Stage ε (Tree α) := do
  let t ← peek .atom
  if p.identifiers.contains t.code then
    skip .atom
    let v ← p.valueOf .atom t .atom
    return .leaf v
  else failIn .atom (.read (.misplaced (.unexpected t)))

/-- Unary operators before an atom (`state.unary`), each of which takes a level of depth. -/
def unary : (room depth : Nat) → Stage ε (Tree α)
  | room, depth => do
    let t ← peek .unary
    if p.unaries.contains t.code then
      within .unary depth do
        match room with
        | 0 => p.tooDeep .unary
        | room + 1 =>
          skip .unary
          let v ← p.valueOf .unary t .unaryOperator
          let operand ← unary room (depth + 1)
          return .node v [operand]
    else p.atom

/-- The arguments of a call, each read by `argument`, up to the closing parenthesis. -/
def arguments (argument : Stage ε (Tree α)) : (rounds : Nat) → Stage ε (List (Tree α))
  | 0 => failIn .call .endless
  | rounds + 1 => do
    let first ← argument
    let t ← peek .call
    if t.code == p.comma.code then
      skip .call
      let others ← arguments argument rounds
      return first :: others
    else return [first]

/-- A function with its arguments (`state.call`). -/
def call (argument : Stage ε (Tree α)) (depth : Nat) : Stage ε (Tree α) :=
  within .call depth do
    let t ← peek .call
    skip .call
    let v ← p.valueOf .call t .function
    require .call p.leftParen
    let rounds ← pending
    let args ← p.arguments argument (rounds + 1)
    require .call p.rightParen
    return .node v args

/-- An expression in parentheses (`state.group`). -/
def group (inner : Stage ε (Tree α)) (depth : Nat) : Stage ε (Tree α) :=
  within .group depth do
    skip .group
    let t ← inner
    require .group p.rightParen
    return t

/-- An operand of the last level (`state.terminal`).  `inner` reads an expression one level of depth
further down. -/
def terminal (inner : Stage ε (Tree α)) (room depth : Nat) : Stage ε (Tree α) := do
  let t ← peek .terminal
  if p.identifiers.contains t.code && p.isFunction t.value then p.call inner depth
  else if t.code == p.leftParen.code then p.group inner depth
  else p.unary room depth

/-! ## 3. Levels -/

/-- Reads operators of `ops` and an operand after each, and joins them to the left of `left`. -/
def climb (rule : Rule) (ops : List Int) (operand : Stage ε (Tree α)) :
    (rounds : Nat) → (left : Tree α) → Stage ε (Tree α)
  | 0, _ => failIn rule .endless
  | rounds + 1, left => do
    let t ← peek rule
    if ops.contains t.code then
      skip rule
      let v ← p.valueOf rule t .binaryOperator
      let right ← operand
      climb rule ops operand rounds (.node v [left, right])
    else return left

/-- The level with the given index and those behind it, the last of which reads `operand`
(`state.expr` and `state.term`). -/
def level (operand : Stage ε (Tree α)) (depth : Nat) :
    (index : Nat) → (levels : List (List Int)) → Stage ε (Tree α)
  | _, [] => operand
  | index, ops :: others =>
    within (.level index) depth do
      let next := level operand depth (index + 1) others
      let left ← next
      let rounds ← pending
      p.climb (.level index) ops next (rounds + 1) left

/-- An expression, with room for `room` levels of depth below the depth `depth`
(`state.expression`). -/
def expression : (room depth : Nat) → Stage ε (Tree α)
  | 0, _ => p.tooDeep .expression
  | room + 1, depth =>
    p.level (p.terminal (expression room (depth + 1)) room (depth + 1)) (depth + 1) 0 p.levels

/-! ## 4. Whole parses -/

/-- The room for nesting at the start of a parse. -/
def room (c : Cursor) : Nat := if p.limit == 0 then c.pending + 1 else p.limit

/-- Parses one expression (`Formula.Parse`); the tokens after it are left alone. -/
def parse : Stage ε (Tree α) := do
  let w ← get
  p.expression (p.room w.cursor) 0

/-- Parses one expression that has to take up the whole input (`Formula.ParseAll`). -/
def parseAll : Stage ε (Tree α) := do
  let tree ← p.parse
  let w ← get
  let (result, cursor) := w.cursor.look 1
  set { w with cursor }
  match result with
  | .ok t => if t.isEOF then return tree else throw (.read (.misplaced (.unexpected t)))
  | .error f => throw (.read f)

end Parser

/-- The outcome of a stage run on a cursor. -/
structure Outcome (ε β : Type) where
  result : Except (ParseError ε) β
  cursor : Cursor
  /-- The events reported, the first one first. -/
  events : List (Event ε)
  /-- The tokens converted with their roles, the first one first. -/
  converted : List (Token × Role)

/-- Runs a stage on a cursor. -/
def runOn (c : Cursor) (stage : Stage ε β) : Outcome ε β :=
  let (result, work) := stage.run ⟨c, [], []⟩
  ⟨result, work.cursor, work.events.reverse, work.converted.reverse⟩

end

end Formulary.Chain
