import Formulary.Proofs.Arith.Evaluation

/-!
# Evaluation is strict, and nothing is called unguarded

An evaluation that succeeds has looked at all nodes but those below constants and variables, and has
found each of them in order (`Sound`).  Where all of these are in order, what is left to go wrong is
a division by zero.  Both hold of any tree, with any number of children anywhere, and in any
environment.

A function is called with as many arguments as it takes and never with others.  That is said by
exchanging the call: whatever it does with any other number of arguments, no evaluation changes
(`evalBy_eq`).

1. The nodes that are looked at, and when they are in order.
2. A node whose operands have values is in order or raises an error.
3. Exchanging the call.
4. All trees and environments. -/

namespace Formulary.Arith

variable {similar : Text.Similarity} {env : Environment Float} {t u : Formula} {ts : List Formula}
  {e : EvalError}

/-! ## 1. Nodes in order -/

/-- Whether the node has a value of its own, so that its children are not looked at. -/
def Op.isAtom : Op → Bool
  | .const _ | .var _ => true
  | _ => false

/-- `Reached u t`: the tree `u` is `t` or stands below it, and not below a constant or a
variable. -/
inductive Reached (u : Formula) : Formula → Prop
  | whole : Reached u u
  | operand {op : Op} {t : Formula} {ts : List Formula} :
      op.isAtom = false → t ∈ ts → Reached u t → Reached u (.node op ts)

/-- The functions that take one argument or more. -/
def variadicNames : List String := ["max", "min"]

/-- The node on top of the tree is in order: a variable has a value, an operator has a meaning and
as many operands as it takes, and a function is known and has as many arguments as it takes. -/
inductive Sound (env : Environment Float) : Formula → Prop
  | const (v : Float) (ts : List Formula) : Sound env (.node (.const v) ts)
  | var {name : String} {x : Float} (ts : List Formula) :
      env.resolve name = .ok x → Sound env (.node (.var name) ts)
  | unary {name : String} (t : Formula) :
      name ∈ unaryNames → Sound env (.node (.unary name) [t])
  | binary {name : String} (level : Int) (left right : Formula) :
      name ∈ binaryNames → Sound env (.node (.binary name level) [left, right])
  | one {name : String} {f : Float → Float} (t : Formula) :
      function? name = some (.one f) → Sound env (.node (.call name) [t])
  | two {name : String} {f : Float → Float → Float} (t u : Formula) :
      function? name = some (.two f) → Sound env (.node (.call name) [t, u])
  | many {name : String} (t : Formula) (ts : List Formula) :
      name ∈ variadicNames → Sound env (.node (.call name) (t :: ts))

/-- The node on top of the tree divides, or takes the remainder, by zero. -/
inductive DividesByZero (similar : Text.Similarity) (env : Environment Float) : Formula → Prop
  | intro {name : String} {level : Int} {left right : Formula} {y : Float} :
      name = "/" ∨ name = "%" → eval similar env right = .ok y → (y == 0.0) = true →
      DividesByZero similar env (.node (.binary name level) [left, right])

theorem function?_of_variadic {name : String} (h : name ∈ variadicNames) :
    ∃ f, function? name = some (.many f) := by
  simp only [variadicNames, List.mem_cons, List.not_mem_nil, or_false] at h
  rcases h with rfl | rfl
  · exact ⟨Number.greater, rfl⟩
  · exact ⟨Number.lesser, rfl⟩

theorem variadic_of_function? {name : String} {f : Float → Float → Float}
    (h : function? name = some (.many f)) : name ∈ variadicNames := by
  have hmem : (name, Function.many f) ∈ functions := by
    rw [function?, List.lookup_eq_some_iff] at h
    obtain ⟨before, after, heq, -⟩ := h
    simp [heq]
  simp only [functions, List.mem_cons, Prod.mk.injEq, reduceCtorEq, and_false, false_or,
    List.not_mem_nil, or_false] at hmem
  rcases hmem with ⟨rfl, -⟩ | ⟨rfl, -⟩
  · decide
  · decide

/-! ## 2. One node -/

/-- Who has a value and looks at its operands has values for them. -/
theorem operands_of_ok {op : Op} {x : Float} (h : eval similar env (.node op ts) = .ok x)
    (hop : op.isAtom = false) : ∃ xs, evalList similar env ts = .ok xs := by
  have hbind : ∀ {f}, (evalList similar env ts).bind f = .ok x →
      ∃ xs, evalList similar env ts = .ok xs := by
    intro f hf
    cases hts : evalList similar env ts with
    | error e =>
      rw [hts] at hf
      cases hf
    | ok xs => exact ⟨xs, rfl⟩
  cases op with
  | const v => cases hop
  | var name => cases hop
  | unary name =>
    rw [eval] at h
    split at h
    · exact hbind h
    · cases h
  | binary name level =>
    rw [eval] at h
    split at h
    · exact hbind h
    · cases h
  | call name =>
    rw [eval] at h
    split at h
    · cases h
    · split at h
      · exact hbind h
      · cases h
  | other name =>
    rw [eval] at h
    cases h

/-- Each formula of a list that has values has one. -/
theorem exists_value {xs : List Float} (h : evalList similar env ts = .ok xs) (ht : t ∈ ts) :
    ∃ y, eval similar env t = .ok y := by
  obtain ⟨i, hi, rfl⟩ := List.getElem_of_mem ht
  have hvalues := forall₂_eval h
  exact ⟨_, hvalues.get hi (hvalues.length_eq ▸ hi)⟩

/-- **A node whose operands have values is in order or raises an error.** -/
theorem sound_or_raises (op : Op)
    (hts : op.isAtom = false → ∀ t ∈ ts, ∃ y, eval similar env t = .ok y) :
    Sound env (.node op ts) ∨ ∃ e, Raises similar env (.node op ts) e := by
  cases op with
  | const v => exact .inl (.const v ts)
  | var name =>
    cases hname : env.resolve name with
    | ok x => exact .inl (.var ts hname)
    | error reason => exact .inr ⟨_, .unbound hname⟩
  | unary name =>
    by_cases hlength : ts.length = 1
    · obtain ⟨t, rfl⟩ := List.length_eq_one_iff.mp hlength
      by_cases hname : name ∈ unaryNames
      · exact .inl (.unary t hname)
      · obtain ⟨x, hx⟩ := hts rfl t (by simp)
        exact .inr ⟨_, .unaryName hx hname⟩
    · exact .inr ⟨_, .unaryOperands hlength⟩
  | binary name level =>
    by_cases hlength : ts.length = 2
    · obtain ⟨left, right, rfl⟩ := List.length_eq_two.mp hlength
      by_cases hname : name ∈ binaryNames
      · exact .inl (.binary level left right hname)
      · obtain ⟨x, hx⟩ := hts rfl left (by simp)
        obtain ⟨y, hy⟩ := hts rfl right (by simp)
        exact .inr ⟨_, .binaryName hx hy hname⟩
    · exact .inr ⟨_, .binaryOperands hlength⟩
  | call name =>
    cases hf : function? name with
    | none => exact .inr ⟨_, .function hf⟩
    | some f =>
      cases haccepts : f.accepts ts.length with
      | false => exact .inr ⟨_, .arguments hf haccepts⟩
      | true =>
        left
        cases f with
        | one f =>
          obtain ⟨t, rfl⟩ := List.length_eq_one_iff.mp (by simpa [Function.accepts] using haccepts)
          exact .one t hf
        | two f =>
          obtain ⟨t, u, rfl⟩ := List.length_eq_two.mp (by simpa [Function.accepts] using haccepts)
          exact .two t u hf
        | many f =>
          obtain ⟨t, ts, rfl⟩ :=
            List.exists_cons_of_length_pos (by simpa [Function.accepts] using haccepts)
          exact .many t ts (variadic_of_function? hf)
  | other name => exact .inr ⟨_, .kind⟩

/-- **A node in order raises an error only where it divides by zero.** -/
theorem Sound.raises (h : Sound env u) (hraises : Raises similar env u e) :
    e = .divisionByZero ∧ DividesByZero similar env u := by
  cases hraises with
  | unbound hreason =>
    cases h with
    | var _ hx =>
      rw [hx] at hreason
      cases hreason
  | unaryOperands hlength =>
    cases h
    exact absurd rfl hlength
  | unaryName _ hname =>
    cases h with
    | unary _ hmem => exact absurd hmem hname
  | binaryOperands hlength =>
    cases h
    exact absurd rfl hlength
  | zero _ hright hname hzero => exact ⟨rfl, .intro hname hright hzero⟩
  | binaryName _ _ hname =>
    cases h with
    | binary _ _ _ hmem => exact absurd hmem hname
  | function hnone =>
    cases h with
    | one _ hf =>
      rw [hnone] at hf
      cases hf
    | two _ _ hf =>
      rw [hnone] at hf
      cases hf
    | many _ _ hname =>
      obtain ⟨f, hf⟩ := function?_of_variadic hname
      rw [hnone] at hf
      cases hf
  | arguments hf haccepts =>
    cases h with
    | one _ hone =>
      obtain rfl := Option.some.inj (hf.symm.trans hone)
      cases haccepts
    | two _ _ htwo =>
      obtain rfl := Option.some.inj (hf.symm.trans htwo)
      cases haccepts
    | many t ts hname =>
      obtain ⟨f, hmany⟩ := function?_of_variadic hname
      obtain rfl := Option.some.inj (hf.symm.trans hmany)
      simp [Function.accepts] at haccepts
  | kind => cases h

/-- **All that is looked at is in order and has a value**, if the tree has one. -/
theorem sound_of_eval_ok {x : Float} (h : eval similar env t = .ok x) (hu : Reached u t) :
    Sound env u ∧ ∃ y, eval similar env u = .ok y := by
  induction hu generalizing x with
  | whole =>
    refine ⟨?_, x, h⟩
    rcases u with ⟨op, ts⟩
    have hoperands : op.isAtom = false → ∀ t ∈ ts, ∃ y, eval similar env t = .ok y := by
      intro hop t ht
      obtain ⟨xs, hxs⟩ := operands_of_ok h hop
      exact exists_value hxs ht
    rcases sound_or_raises op hoperands with hsound | ⟨e, hraises⟩
    · exact hsound
    · rw [hraises.eval_eq] at h
      cases h
  | operand hop ht _ ih =>
    obtain ⟨xs, hxs⟩ := operands_of_ok h hop
    obtain ⟨y, hy⟩ := exists_value hxs ht
    exact ih hy

/-- **Every error is raised at a node that is looked at.** -/
theorem exists_reached_raises (h : eval similar env t = .error e) :
    ∃ u, Reached u t ∧ Raises similar env u e := by
  induction t using Tree.induction with
  | node op ts ih =>
    cases hop : op.isAtom with
    | false =>
      rcases raises_or_operand h with hraises | ⟨t, ht, heval⟩
      · exact ⟨_, .whole, hraises⟩
      · obtain ⟨u, hu, hraises⟩ := ih t ht heval
        exact ⟨u, .operand hop ht hu, hraises⟩
    | true =>
      refine ⟨_, .whole, ?_⟩
      cases op with
      | const v =>
        rw [eval] at h
        cases h
      | var name =>
        rw [eval, evalVar] at h
        split at h
        · cases h
        next reason hreason =>
          cases h
          exact .unbound hreason
      | unary | binary | call | other => cases hop

/-- Who divides by zero has no value. -/
theorem DividesByZero.not_ok (h : DividesByZero similar env u) {x : Float} :
    eval similar env u ≠ .ok x := by
  intro hx
  cases h with
  | @intro name level left right y hname hy hzero =>
    obtain ⟨xs, hxs⟩ := operands_of_ok hx rfl
    obtain ⟨z, hz⟩ := exists_value hxs (t := left) (by simp)
    have herror : eval similar env (.node (.binary name level) [left, right])
        = .error .divisionByZero :=
      (Raises.zero hz hy hname hzero).eval_eq
    rw [hx] at herror
    cases herror

/-! ## 3. Calls -/

mutual

/-- The value of a formula in which functions are called by `call`. -/
def evalBy (similar : Text.Similarity)
    (call : String → Function → List Float → Except EvalError Float) (env : Environment Float) :
    Formula → Except EvalError Float
  | .node op ts =>
    match op with
    | .const v => .ok v
    | .var name => evalVar similar env name
    | .unary name =>
      if ts.length == 1 then (evalListBy similar call env ts).bind (evalUnary name)
      else .error (.operands name)
    | .binary name _ =>
      if ts.length == 2 then (evalListBy similar call env ts).bind (evalBinary name)
      else .error (.operands name)
    | .call name =>
      match function? name with
      | none => .error (.undefined name (similar name functionNames))
      | some f =>
        if f.accepts ts.length then (evalListBy similar call env ts).bind (call name f)
        else .error (.arguments name ts.length)
    | .other _ => .error .unsupportedNode

def evalListBy (similar : Text.Similarity)
    (call : String → Function → List Float → Except EvalError Float) (env : Environment Float) :
    List Formula → Except EvalError (List Float)
  | [] => .ok []
  | t :: ts =>
    (evalBy similar call env t).bind fun v => (evalListBy similar call env ts).map (v :: ·)

end

/-- A function has a value at the arguments that it is called with. -/
theorem exists_at? {f : Function} {xs : List Float} (h : f.accepts xs.length = true) :
    ∃ x, f.at? xs = some x := by
  obtain ⟨x, hx⟩ := evalCall_of_accepts "" h
  unfold evalCall at hx
  split at hx
  next y hy => exact ⟨y, hy⟩
  next => cases hx

section

variable {call : String → Function → List Float → Except EvalError Float}

/-- A call that keeps to the values of the function is the call of the evaluation. -/
theorem bind_call_eq (hcall : ∀ name f xs x, f.at? xs = some x → call name f xs = .ok x)
    (name : String) {f : Function} (h : f.accepts ts.length = true) :
    (evalList similar env ts).bind (call name f)
      = (evalList similar env ts).bind (evalCall name f) := by
  cases hts : evalList similar env ts with
  | error e => rfl
  | ok xs =>
    rw [(forall₂_eval hts).length_eq] at h
    obtain ⟨x, hx⟩ := exists_at? h
    change call name f xs = evalCall name f xs
    rw [hcall name f xs x hx, evalCall, hx]

mutual

/-- **Functions are called with as many arguments as they take, and never with others**: what a
call does there makes no difference. -/
theorem evalBy_eq (hcall : ∀ name f xs x, f.at? xs = some x → call name f xs = .ok x)
    (env : Environment Float) : ∀ t : Formula, evalBy similar call env t = eval similar env t
  | .node op ts => by
    have hts := evalListBy_eq hcall env ts
    cases op with
    | const | var | other => rw [evalBy, eval]
    | unary name => rw [evalBy, eval, hts]
    | binary name level => rw [evalBy, eval, hts]
    | call name =>
      rw [evalBy, eval, hts]
      cases function? name with
      | none => rfl
      | some f =>
        cases haccepts : f.accepts ts.length with
        | false => simp only [haccepts, Bool.false_eq_true, ↓reduceIte]
        | true =>
          simp only [haccepts, ↓reduceIte]
          exact bind_call_eq hcall name haccepts

theorem evalListBy_eq (hcall : ∀ name f xs x, f.at? xs = some x → call name f xs = .ok x)
    (env : Environment Float) :
    ∀ ts : List Formula, evalListBy similar call env ts = evalList similar env ts
  | [] => by rw [evalListBy, evalList]
  | t :: ts => by
    rw [evalListBy, evalList, evalBy_eq hcall env t, evalListBy_eq hcall env ts]

end

end

/-! ## 4. All trees -/

/-- **Evaluation is strict and its guards are complete**, for any tree and any environment:

* if there is a value, every node is in order that does not stand below a constant or a variable,
  and has a value itself;
* if all these nodes are in order, the only error is a division by zero, and that is the error
  exactly if one of them divides by a formula whose value is zero;
* functions are called with as many arguments as they take and with no others, so that it does not
  matter what they do with those. -/
theorem eval_strict_and_guarded (similar : Text.Similarity) (env : Environment Float)
    (t : Formula) :
    (∀ x, eval similar env t = .ok x →
      ∀ u, Reached u t → Sound env u ∧ ∃ y, eval similar env u = .ok y) ∧
    ((∀ u, Reached u t → Sound env u) → ∀ e, eval similar env t = .error e ↔
      e = .divisionByZero ∧ ∃ u, Reached u t ∧ DividesByZero similar env u) ∧
    ∀ call : String → Function → List Float → Except EvalError Float,
      (∀ name f xs x, f.at? xs = some x → call name f xs = .ok x) →
        evalBy similar call env t = eval similar env t := by
  refine ⟨?_, ?_, ?_⟩
  · intro x hx u hu
    exact sound_of_eval_ok hx hu
  · intro hsound
    have hzero : ∀ {e}, eval similar env t = .error e →
        e = .divisionByZero ∧ ∃ u, Reached u t ∧ DividesByZero similar env u := by
      intro e he
      obtain ⟨u, hu, hraises⟩ := exists_reached_raises he
      obtain ⟨rfl, hdivides⟩ := (hsound u hu).raises hraises
      exact ⟨rfl, u, hu, hdivides⟩
    intro e
    constructor
    · exact hzero
    · rintro ⟨rfl, u, hu, hdivides⟩
      cases ht : eval similar env t with
      | ok x =>
        obtain ⟨-, y, hy⟩ := sound_of_eval_ok ht hu
        exact absurd hy hdivides.not_ok
      | error e => rw [(hzero ht).1]
  · intro call hcall
    exact evalBy_eq hcall env t

/-- `max(1, x) % -0`, where the constant has a child that is no node at all. -/
def remainderByZero : Formula :=
  .node (.binary "%" 1)
    [.node (.call "max") [.leaf (.const 1.0), .leaf (.var "x")],
      .node (.unary "-") [.node (.const 0.0) [.leaf (.other "?")]]]

/-- **Nothing is wrong with `max(1, x) % -0` but the zero**: what stands below the constant is not
looked at. -/
theorem eval_strict_and_guarded_remainderByZero :
    (∀ u, Reached u remainderByZero → Sound (.ofBindings [("x", 2.0)]) u) ∧
      eval Text.similar (.ofBindings [("x", 2.0)]) remainderByZero = .error .divisionByZero := by
  have hsound : ∀ u, Reached u remainderByZero → Sound (.ofBindings [("x", 2.0)]) u := by
    intro u hu
    cases hu with
    | whole => exact .binary 1 _ _ (by decide)
    | operand _ hmem hu =>
      rcases List.mem_pair.mp hmem with rfl | rfl
      · cases hu with
        | whole => exact .many _ _ (by decide)
        | operand _ hmem hu =>
          rcases List.mem_pair.mp hmem with rfl | rfl
          · cases hu with
            | whole => exact .const 1.0 []
            | operand hop _ _ => cases hop
          · cases hu with
            | whole => exact .var (x := 2.0) [] rfl
            | operand hop _ _ => cases hop
      · cases hu with
        | whole => exact .unary _ (by decide)
        | operand _ hmem hu =>
          obtain rfl := List.mem_singleton.mp hmem
          cases hu with
          | whole => exact .const 0.0 _
          | operand hop _ _ => cases hop
  have hdivides : DividesByZero Text.similar (.ofBindings [("x", 2.0)]) remainderByZero :=
    .intro (y := -0.0) (.inr rfl) rfl (by decide)
  constructor
  · exact hsound
  · exact ((eval_strict_and_guarded _ _ _).2.1 hsound _).mpr ⟨rfl, _, .whole, hdivides⟩

end Formulary.Arith
