import Formulary.Proofs.Chain.Language

/-!
# The chain without allowances

The parser of this library carries allowances, and one that runs out is an error.  Here is the chain
without any: its functions call each other as long as they like.  All else they do is what the
stages of the parser do: what they look at, convert and report, and how they fail.  Only the end of
the input is never passed like a token: where that would happen there is no outcome.

Each function is written once, with the calls that it makes left to `ask`.  `unrolled n` lets them
nest less than `n` deep and has no outcome beyond.  The chain itself is the limit: its outcome is
the one that is there from some `n` on (`Reaches`), and where the calls never end there is none.

1. Stages that need not have an outcome.
2. The functions of the chain.
3. The chain, unrolled.
4. Steps, and room.
-/

namespace Formulary.Chain

open Filter (atTop)

variable {ε α β γ : Type}

/-! ## 1. Stages that need not have an outcome -/

/-- A stage that need not have an outcome. -/
abbrev Unbounded (ε β : Type) := ExceptT (ParseError ε) (StateT (Work ε) Option) β

namespace Unbounded

/-- A stage that ends by itself. -/
def once (x : Stage ε β) : Unbounded ε β := fun k => some (exec x k)

/-- A stage that passes the next token if `passes` holds of it.  It has no outcome where that is the
end of the input. -/
def guarded (passes : Token → Bool) (x : Stage ε β) : Unbounded ε β := fun k =>
  match (k.cursor.look 1).1 with
  | .ok t => if t.isEOF && passes t then none else some (exec x k)
  | .error _ => some (exec x k)

/-- Moves past the next token. -/
def move (rule : Rule) : Unbounded ε Unit := guarded (fun _ => true) (skip rule)

/-- Moves past a token of the given kind. -/
def demand (rule : Rule) (kind : Kind) : Unbounded ε Unit :=
  guarded (fun t => t.code == kind.code) (require rule kind)

/-- Reports that a rule is entered and left. -/
def within (rule : Rule) (depth : Nat) (y : Unbounded ε β) : Unbounded ε β := fun k =>
  (y.run.run { k with events := .enter rule depth :: k.events }).map fun (result, work) =>
    (result, { work with events := .leave rule depth :: work.events })

/-! ## 2. The functions of the chain -/

/-- A call of one of the functions below. -/
inductive Call (α : Type) where
  | unary (depth : Nat)
  | expression (depth : Nat)
  | level (depth index : Nat) (levels : List (List Int))
  | climb (depth index : Nat) (ops : List Int) (others : List (List Int)) (left : Tree α)
  | terminal (depth : Nat)
  | arguments (depth : Nat)

/-- What a call returns. -/
abbrev Call.Value : Call α → Type
  | .arguments _ => List (Tree α)
  | _ => Tree α

section

variable (p : Parser ε α) (ask : ∀ q : Call α, Unbounded ε q.Value)

/-- Fails if what comes `depth` levels deep is too deep. -/
def descend (rule : Rule) (depth : Nat) : Stage ε Unit :=
  if p.limit ≠ 0 ∧ p.limit ≤ depth then p.tooDeep rule else pure ()

/-- A single operand. -/
def atom : Unbounded ε (Tree α) := do
  let t ← once (peek .atom)
  if p.identifiers.contains t.code then
    move .atom
    let v ← once (p.valueOf .atom t .atom)
    return .leaf v
  else once (failIn .atom (.read (.misplaced (.unexpected t))))

/-- Unary operators before an operand. -/
def unary (depth : Nat) : Unbounded ε (Tree α) := do
  let t ← once (peek .unary)
  if p.unaries.contains t.code then
    within .unary depth do
      once (descend p .unary depth)
      move .unary
      let v ← once (p.valueOf .unary t .unaryOperator)
      let operand ← ask (.unary (depth + 1))
      return .node v [operand]
  else atom p

/-- Expressions with commas between them. -/
def arguments (depth : Nat) : Unbounded ε (List (Tree α)) := do
  let first ← ask (.expression depth)
  let t ← once (peek .call)
  if t.code == p.comma.code then
    move .call
    let others ← ask (.arguments depth)
    return first :: others
  else return [first]

/-- A function with its arguments. -/
def call (depth : Nat) : Unbounded ε (Tree α) :=
  within .call depth do
    let t ← once (peek .call)
    move .call
    let v ← once (p.valueOf .call t .function)
    demand .call p.leftParen
    let args ← ask (.arguments depth)
    demand .call p.rightParen
    return .node v args

/-- An expression in parentheses. -/
def group (depth : Nat) : Unbounded ε (Tree α) :=
  within .group depth do
    move .group
    let t ← ask (.expression depth)
    demand .group p.rightParen
    return t

/-- An operand of the last level. -/
def terminal (depth : Nat) : Unbounded ε (Tree α) := do
  let t ← once (peek .terminal)
  if p.identifiers.contains t.code && p.isFunction t.value then call p ask depth
  else if t.code == p.leftParen.code then group p ask depth
  else ask (.unary depth)

/-- Operators of `ops` with an operand each. -/
def climb (depth index : Nat) (ops : List Int) (others : List (List Int)) (left : Tree α) :
    Unbounded ε (Tree α) := do
  let t ← once (peek (.level index))
  if ops.contains t.code then
    move (.level index)
    let v ← once (p.valueOf (.level index) t .binaryOperator)
    let right ← ask (.level depth (index + 1) others)
    ask (.climb depth index ops others (.node v [left, right]))
  else return left

/-- The levels from `index` on. -/
def level (depth index : Nat) : (levels : List (List Int)) → Unbounded ε (Tree α)
  | [] => ask (.terminal depth)
  | ops :: others =>
    within (.level index) depth do
      let left ← ask (.level depth (index + 1) others)
      ask (.climb depth index ops others left)

/-- An expression. -/
def expression (depth : Nat) : Unbounded ε (Tree α) := do
  once (descend p .expression depth)
  ask (.level (depth + 1) 0 p.levels)

/-- The function that is called. -/
def body : ∀ q : Call α, Unbounded ε q.Value
  | .unary depth => unary p ask depth
  | .expression depth => expression p ask depth
  | .level depth index levels => level ask depth index levels
  | .climb depth index ops others left => climb p ask depth index ops others left
  | .terminal depth => terminal p ask depth
  | .arguments depth => arguments p ask depth

end

/-! ## 3. The chain, unrolled -/

section

variable (p : Parser ε α)

/-- A call, with less than `n` calls inside each other. -/
def unrolled : (n : Nat) → ∀ q : Call α, Unbounded ε q.Value
  | 0, _ => fun _ => none
  | n + 1, q => body p (unrolled n) q

/-- One expression; the tokens after it are left alone. -/
def parse (n : Nat) : Unbounded ε (Tree α) := unrolled p n (.expression 0)

/-- One expression that has to take up the whole input. -/
def parseAll (n : Nat) : Unbounded ε (Tree α) := do
  let tree ← parse p n
  once (seeEnd tree)

end

/-- **The outcome without an allowance** is the one that is there however deep the calls may nest,
from some depth on. -/
def Reaches (y : Nat → Unbounded ε β) (k : Work ε) (r : Except (ParseError ε) β × Work ε) : Prop :=
  ∀ᶠ n in atTop, (y n).run.run k = some r

/-- There is at most one outcome. -/
theorem Reaches.unique {y : Nat → Unbounded ε β} {k : Work ε}
    {r r' : Except (ParseError ε) β × Work ε} (h : Reaches y k r) (h' : Reaches y k r') :
    r = r' := by
  obtain ⟨n, hn, hn'⟩ := (h.and h').exists
  exact Option.some_inj.mp (hn.symm.trans hn')

/-- A stage that ends by itself has its outcome, however deep the calls may nest. -/
theorem reaches_once (x : Stage ε β) (k : Work ε) : Reaches (fun _ => once x) k (exec x k) :=
  .of_forall fun _ => rfl

/-- **A call has the outcome of its function**, with the calls that this makes. -/
theorem reaches_unrolled {p : Parser ε α} {q : Call α} {k : Work ε}
    {r : Except (ParseError ε) q.Value × Work ε} :
    Reaches (fun n => unrolled p n q) k r ↔ Reaches (fun n => body p (unrolled p n) q) k r := by
  unfold Reaches
  rw [← Filter.map_add_atTop_eq_nat 1, Filter.eventually_map]
  simp only [Filter.map_add_atTop_eq_nat, unrolled]

/-! ## 4. Steps, and room -/

/-- The outcome of two steps is that of the second, unless the first has none or fails. -/
theorem run_bind (x : Unbounded ε β) (f : β → Unbounded ε γ) (k : Work ε) :
    (x >>= f).run.run k = match x.run.run k with
      | none => none
      | some (.ok b, k') => (f b).run.run k'
      | some (.error e, k') => some (.error e, k') := by
  show (ExceptT.bind x f).run k = _
  simp only [ExceptT.bind, ExceptT.run, ExceptT.mk, bind, StateT.bind, StateT.run]
  rcases x k with _ | ⟨r, k'⟩
  · rfl
  · cases r <;> rfl

/-- Where the end of the input is not passed, nothing is guarded against. -/
theorem run_guarded {passes : Token → Bool} {x : Stage ε β} {k : Work ε}
    (h : ∀ t, (k.cursor.look 1).1 = .ok t → t.isEOF = true → passes t = false) :
    (guarded passes x).run.run k = some (exec x k) := by
  show guarded passes x k = _
  unfold guarded
  split
  · next t ht =>
    cases hend : t.isEOF with
    | false => simp
    | true => simp [h t ht hend]
  · rfl

variable {p : Parser ε α}

theorem once_pure_bind (b : β) (g : β → Unbounded ε γ) : once (pure b) >>= g = g b := rfl

/-- Where there is room, nothing is too deep. -/
theorem descend_of_room {room depth : Nat} (hroom : p.limit ≠ 0 → room + 1 + depth = p.limit)
    (rule : Rule) : descend p rule depth = pure () := by
  rw [descend, if_neg]
  rintro ⟨hlimit, hdepth⟩
  have := hroom hlimit
  omega

/-- Without room left, what comes is too deep. -/
theorem descend_of_limit {depth : Nat} (hroom : p.limit ≠ 0 → 0 + depth = p.limit)
    (hlimit : p.limit ≠ 0) (rule : Rule) : descend p rule depth = p.tooDeep rule := by
  have := hroom hlimit
  rw [descend, if_pos ⟨hlimit, by omega⟩]

end Unbounded

end Formulary.Chain
