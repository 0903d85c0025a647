import Formulary.Arith.Eval
import Formulary.Proofs.Arith.RoundTrip
import Mathlib.Data.List.Forall2

/-!
# Where an evaluation fails

Every error of an evaluation is raised at one node of the formula (`exists_raises`): the node has no
value although all below it that was asked for has (`Raises`).  So the errors that formulas of a
profile can have are found node by node, from the shapes that nodes of a profile have.

A profile that compiles knows only functions and binary operators that can be evaluated.  Of its
unary operators the same is not checked, and that is all that stands between what can be parsed and
what can be evaluated (`eval_error_of_parse`).

1. Parts of a tree.
2. The errors of a node.
3. The nodes of a profile.
-/

namespace Formulary

/-! ## 1. Parts -/

/-- `u.IsPart t`: the tree `u` is `t` or stands somewhere below it. -/
inductive Tree.IsPart {α : Type} (u : Tree α) : Tree α → Prop
  | whole : IsPart u u
  | child {v : α} {t : Tree α} {ts : List (Tree α)} : t ∈ ts → IsPart u t → IsPart u (.node v ts)

namespace Arith

/-! ## 2. Errors -/

variable {similar : Text.Similarity} {env : Environment Float} {t u : Formula} {ts : List Formula}
  {e : EvalError}

/-- The operators of two operands that have a meaning. -/
def binaryNames : List String := ["+", "-", "*", "/", "%", "^"]

/-- The operators of one operand that have a meaning. -/
def unaryNames : List String := ["-", "+"]

/-- `Raises similar env u e`: the error `e` is raised at the node on top of `u`, which has the
operands it needs for getting that far. -/
inductive Raises (similar : Text.Similarity) (env : Environment Float) : Formula → EvalError → Prop
  | unbound {name : String} {ts : List Formula} {reason : ScopeError} :
      env.resolve name = .error reason →
      Raises similar env (.node (.var name) ts) (.undefined name (similar name env.names))
  | unaryOperands {name : String} {ts : List Formula} : ts.length ≠ 1 →
      Raises similar env (.node (.unary name) ts) (.operands name)
  | unaryName {name : String} {t : Formula} {x : Float} :
      eval similar env t = .ok x → name ∉ unaryNames →
      Raises similar env (.node (.unary name) [t]) (.unsupportedUnary name)
  | binaryOperands {name : String} {level : Int} {ts : List Formula} : ts.length ≠ 2 →
      Raises similar env (.node (.binary name level) ts) (.operands name)
  | zero {name : String} {level : Int} {left right : Formula} {x y : Float} :
      eval similar env left = .ok x → eval similar env right = .ok y → name = "/" ∨ name = "%" →
      (y == 0.0) = true →
      Raises similar env (.node (.binary name level) [left, right]) .divisionByZero
  | binaryName {name : String} {level : Int} {left right : Formula} {x y : Float} :
      eval similar env left = .ok x → eval similar env right = .ok y → name ∉ binaryNames →
      Raises similar env (.node (.binary name level) [left, right]) (.unsupportedBinary name)
  | function {name : String} {ts : List Formula} : function? name = none →
      Raises similar env (.node (.call name) ts) (.undefined name (similar name functionNames))
  | arguments {name : String} {ts : List Formula} {f : Function} : function? name = some f →
      f.accepts ts.length = false →
      Raises similar env (.node (.call name) ts) (.arguments name ts.length)
  | kind {name : String} {ts : List Formula} :
      Raises similar env (.node (.other name) ts) .unsupportedNode

/-- The first formula without a value gives its error to the list. -/
theorem exists_eval_error (h : evalList similar env ts = .error e) :
    ∃ t ∈ ts, eval similar env t = .error e := by
  induction ts with
  | nil => cases h
  | cons t ts ih =>
    rw [evalList] at h
    cases ht : eval similar env t with
    | error e' =>
      rw [ht] at h
      obtain rfl := Except.error.inj h
      exact ⟨t, List.mem_cons_self, ht⟩
    | ok x =>
      rw [ht] at h
      cases hts : evalList similar env ts with
      | error e' =>
        simp only [hts, Except.bind, Except.map] at h
        obtain rfl := Except.error.inj h
        obtain ⟨u, hu, heval⟩ := ih hts
        exact ⟨u, List.mem_cons_of_mem t hu, heval⟩
      | ok xs => simp [hts, Except.bind, Except.map] at h

/-- The values of a list are those of its formulas, one by one. -/
theorem forall₂_eval {xs : List Float} (h : evalList similar env ts = .ok xs) :
    List.Forall₂ (fun t x => eval similar env t = .ok x) ts xs := by
  induction ts generalizing xs with
  | nil =>
    cases h
    exact .nil
  | cons t ts ih =>
    rw [evalList] at h
    cases ht : eval similar env t with
    | error e' => simp [ht, Except.bind] at h
    | ok x =>
      cases hts : evalList similar env ts with
      | error e' => simp [ht, hts, Except.bind, Except.map] at h
      | ok ys =>
        simp only [ht, hts, Except.bind, Except.map, Except.ok.injEq] at h
        subst h
        exact .cons ht (ih hts)

theorem evalUnary_eq_error {name : String} {x : Float} :
    evalUnary name [x] = .error e ↔ name ∉ unaryNames ∧ e = .unsupportedUnary name := by
  simp only [evalUnary]
  split
  · simp [unaryNames]
  · simp [unaryNames]
  next hminus hplus =>
    have hname : name ∉ unaryNames := by simpa [unaryNames] using ⟨hminus, hplus⟩
    simp [hname, @eq_comm _ e]

theorem evalBinary_eq_error {name : String} {x y : Float} :
    evalBinary name [x, y] = .error e ↔
      ((name = "/" ∨ name = "%") ∧ (y == 0.0) = true ∧ e = .divisionByZero) ∨
        (name ∉ binaryNames ∧ e = .unsupportedBinary name) := by
  simp only [evalBinary]
  split
  · simp [binaryNames]
  · simp [binaryNames]
  · simp [binaryNames]
  · by_cases hzero : (y == 0.0) = true <;> simp [binaryNames, hzero, @eq_comm _ e]
  · by_cases hzero : (y == 0.0) = true <;> simp [binaryNames, hzero, @eq_comm _ e]
  · simp [binaryNames]
  next hplus hminus htimes hover hrest hpower =>
    have hname : name ∉ binaryNames := by
      simpa [binaryNames] using ⟨hplus, hminus, htimes, hover, hrest, hpower⟩
    have hdivision : ¬ (name = "/" ∨ name = "%") := not_or.mpr ⟨hover, hrest⟩
    simp [hname, hdivision, @eq_comm _ e]

/-- A function has a value at as many arguments as it accepts. -/
theorem evalCall_of_accepts (name : String) {f : Function} {xs : List Float}
    (h : f.accepts xs.length = true) : ∃ x, evalCall name f xs = .ok x := by
  unfold evalCall
  cases f with
  | one f =>
    obtain ⟨x, rfl⟩ := List.length_eq_one_iff.mp (by simpa [Function.accepts] using h)
    exact ⟨f x, rfl⟩
  | two f =>
    obtain ⟨x, y, rfl⟩ := List.length_eq_two.mp (by simpa [Function.accepts] using h)
    exact ⟨f x y, rfl⟩
  | many f =>
    obtain ⟨x, xs, rfl⟩ := List.exists_cons_of_length_pos (by simpa [Function.accepts] using h)
    exact ⟨_, rfl⟩

/-- What a node makes of its operands when one of them may have no value. -/
theorem bind_eval_error {f : List Float → Except EvalError Float}
    (h : (evalList similar env ts).bind f = .error e) :
    (∃ t ∈ ts, eval similar env t = .error e) ∨
      ∃ xs, List.Forall₂ (fun t x => eval similar env t = .ok x) ts xs ∧ f xs = .error e := by
  cases hts : evalList similar env ts with
  | error e' =>
    rw [hts] at h
    obtain rfl := Except.error.inj h
    exact .inl (exists_eval_error hts)
  | ok xs =>
    rw [hts] at h
    exact .inr ⟨xs, forall₂_eval hts, h⟩

/-- **A node without a value** raises the error itself or has it from an operand. -/
theorem raises_or_operand {op : Op} (h : eval similar env (.node op ts) = .error e) :
    Raises similar env (.node op ts) e ∨ ∃ t ∈ ts, eval similar env t = .error e := by
  cases op with
  | const v =>
    rw [eval] at h
    cases h
  | var name =>
    rw [eval, evalVar] at h
    split at h
    · cases h
    next reason hreason =>
      cases h
      exact .inl (.unbound hreason)
  | unary name =>
    rw [eval] at h
    split at h
    next hlength =>
      rcases bind_eval_error h with hoperand | ⟨xs, hxs, hraised⟩
      · exact .inr hoperand
      obtain ⟨t, rfl⟩ := List.length_eq_one_iff.mp (by simpa using hlength)
      cases hxs with
      | cons ht hnil =>
        cases hnil
        obtain ⟨hname, rfl⟩ := evalUnary_eq_error.mp hraised
        exact .inl (.unaryName ht hname)
    next hlength =>
      cases h
      exact .inl (.unaryOperands (by simpa using hlength))
  | binary name level =>
    rw [eval] at h
    split at h
    next hlength =>
      rcases bind_eval_error h with hoperand | ⟨xs, hxs, hraised⟩
      · exact .inr hoperand
      obtain ⟨left, right, rfl⟩ := List.length_eq_two.mp (by simpa using hlength)
      obtain _ | ⟨hleft, _ | ⟨hright, _ | _⟩⟩ := hxs
      rcases evalBinary_eq_error.mp hraised with ⟨hname, hzero, rfl⟩ | ⟨hname, rfl⟩
      · exact .inl (.zero hleft hright hname hzero)
      · exact .inl (.binaryName hleft hright hname)
    next hlength =>
      cases h
      exact .inl (.binaryOperands (by simpa using hlength))
  | call name =>
    rw [eval] at h
    split at h
    next hnone =>
      cases h
      exact .inl (.function hnone)
    next f hf =>
      split at h
      next haccepts =>
        rcases bind_eval_error h with hoperand | ⟨xs, hxs, hraised⟩
        · exact .inr hoperand
        -- there are as many values as arguments, so a function that accepts these has a value
        rw [hxs.length_eq] at haccepts
        obtain ⟨x, hx⟩ := evalCall_of_accepts name haccepts
        rw [hx] at hraised
        cases hraised
      next haccepts =>
        cases h
        exact .inl (.arguments hf (by simpa using haccepts))
  | other name =>
    rw [eval] at h
    cases h
    exact .inl .kind

/-- **Every error is raised at one node of the formula.** -/
theorem exists_raises (h : eval similar env t = .error e) :
    ∃ u : Formula, u.IsPart t ∧ Raises similar env u e := by
  induction t using Tree.induction with
  | node op ts ih =>
    rcases raises_or_operand h with hraises | ⟨t, ht, heval⟩
    · exact ⟨_, .whole, hraises⟩
    · obtain ⟨u, hpart, hraises⟩ := ih t ht heval
      exact ⟨u, .child ht hpart, hraises⟩

/-- **What a node raises is the error of its evaluation.** -/
theorem Raises.eval_eq (h : Raises similar env u e) : eval similar env u = .error e := by
  cases h with
  | unbound hreason => simp [eval, evalVar, hreason]
  | unaryOperands hlength => simp [eval, hlength]
  | unaryName ht hname =>
    simp [eval, evalList, ht, Except.bind, Except.map, evalUnary_eq_error.mpr ⟨hname, rfl⟩]
  | binaryOperands hlength => simp [eval, hlength]
  | @zero _ _ _ _ x _ hleft hright hname hzero =>
    have hraised := (evalBinary_eq_error (x := x)).mpr (.inl ⟨hname, hzero, rfl⟩)
    simp [eval, evalList, hleft, hright, Except.bind, Except.map, hraised]
  | @binaryName _ _ _ _ x y hleft hright hname =>
    have hraised := (evalBinary_eq_error (x := x) (y := y)).mpr (.inr ⟨hname, rfl⟩)
    simp [eval, evalList, hleft, hright, Except.bind, Except.map, hraised]
  | function hnone => simp [eval, hnone]
  | arguments hf haccepts => simp [eval, hf, haccepts]
  | kind => rw [eval]

/-! ## 3. Profiles -/

variable {p : Profile} {d : Dialect}

/-- The parts of a well-formed tree are well formed, below a unary operator or not. -/
theorem WellFormed.part {below : Bool} (ht : WellFormed p below t) (hu : u.IsPart t) :
    ∃ below', WellFormed p below' u := by
  induction hu generalizing below with
  | whole => exact ⟨below, ht⟩
  | child hmem _ ih =>
    cases ht with
    | const _ => cases hmem
    | var _ _ => cases hmem
    | unary _ hoperand => exact ih (List.mem_singleton.mp hmem ▸ hoperand)
    | binary _ hleft hright =>
      rcases List.mem_pair.mp hmem with rfl | rfl
      · exact ih hleft
      · exact ih hright
    | call _ _ hargs => exact ih (hargs _ hmem)

/-- **Every operator that a profile can list has a meaning between two operands.** -/
theorem mem_binaryNames {name : String} {s : Symbol} (h : Symbol.ofOperator? name = some s) :
    name ∈ binaryNames := by
  obtain ⟨c, rfl, hc, hop⟩ := ofOperator?_eq_some.mp h
  unfold Symbol.ofChar? at hc
  split at hc <;> cases hc
  case h_7 | h_8 | h_9 => cases hop
  all_goals decide

/-- The errors that are left to the nodes of a profile: a division by zero, a call with the wrong
number of arguments, a variable without a value, and a unary operator that has no meaning. -/
inductive Allowed (similar : Text.Similarity) (p : Profile) (env : Environment Float) :
    Formula → EvalError → Prop
  | zero {name : String} {level : Int} {left right : Formula} :
      Allowed similar p env (.node (.binary name level) [left, right]) .divisionByZero
  | arguments {name : String} {args : List Formula} :
      Allowed similar p env (.node (.call name) args) (.arguments name args.length)
  | unbound {name : String} :
      Allowed similar p env (.leaf (.var name)) (.undefined name (similar name env.names))
  | unaryName {name : String} {operand : Formula} : name ∈ p.unary → name ∉ unaryNames →
      Allowed similar p env (.node (.unary name) [operand]) (.unsupportedUnary name)

/-- **The errors of a node of a profile.** -/
theorem allowed_of_raises (h : Compiled p d) {below : Bool} (hu : WellFormed p below u)
    (hraises : Raises similar env u e) : Allowed similar p env u e := by
  cases hraises with
  | unbound hreason =>
    cases hu
    exact .unbound
  | unaryOperands hlength =>
    cases hu
    exact absurd rfl hlength
  | unaryName ht hname =>
    cases hu with
    | unary hmem _ => exact .unaryName hmem hname
  | binaryOperands hlength =>
    cases hu
    exact absurd rfl hlength
  | zero _ _ _ _ => exact .zero
  | binaryName _ _ hname =>
    cases hu with
    | binary hlast _ _ =>
      obtain ⟨_, s, hs, -⟩ := h.codeOf_of_lists hlast.1
      exact absurd (mem_binaryNames hs) hname
  | function hnone =>
    cases hu with
    | call hmem _ _ =>
      have hsome := h.functions _ hmem
      rw [hnone] at hsome
      cases hsome
  | arguments _ _ => exact .arguments
  | kind => cases hu

/-- **What can be parsed can be evaluated, but for unary operators without a meaning.**  Every error
of the evaluation of a formula that was parsed is raised at one of its nodes.  It is a division by
zero, a call with the wrong number of arguments, a variable without a value, or a unary operator
other than `-` and `+` that the profile lists. -/
theorem eval_error_of_parse (hd : Dialect.compile p = .ok d) {s : Text.Source} {t : Formula}
    (ht : d.parse s = .ok t) (similar : Text.Similarity) (env : Environment Float) :
    (∀ e, eval similar env t = .error e → ∃ u : Formula, u.IsPart t ∧ Raises similar env u e) ∧
      ∀ (u : Formula) e, u.IsPart t → Raises similar env u e →
        eval similar env u = .error e ∧ Allowed similar p env u e := by
  have h := Dialect.compiled hd
  refine ⟨fun e => exists_raises, fun u e hu hraises => ⟨hraises.eval_eq, ?_⟩⟩
  obtain ⟨below, hwell⟩ := (wellFormed_of_parse h ht).part hu
  exact allowed_of_raises h hwell hraises

/-- `-a / pow(b)`, with one argument where two are wanted. -/
def signedQuotient : Formula :=
  .node (.binary "/" 1)
    [.node (.unary "-") [.leaf (.var "a")], .node (.call "pow") [.leaf (.var "b")]]

/-- **In the standard profile `-a / pow(b)` fails at the call**, whatever `b` is. -/
theorem eval_error_of_parse_signedQuotient : ∃ d, Dialect.compile .standard = .ok d ∧
    d.parse (.ofString "-a / pow(b)") = .ok signedQuotient ∧
    ∃ u : Formula, u.IsPart signedQuotient ∧
      Allowed Text.similar .standard (.ofBindings [("a", 1.0)]) u (.arguments "pow" 1) := by
  have hlast : Profile.standard.ListsLast 1 "/" := .of_drop rfl (by decide) (by decide)
  have hwell : WellFormed .standard false signedQuotient :=
    .binary hlast (.unary (by decide) (.var (by decide) (by decide)))
      (.call (by decide) (by decide) (by simpa using .var (by decide) (by decide)))
  obtain ⟨d, hd⟩ : ∃ d, Dialect.compile .standard = .ok d := ⟨_, rfl⟩
  have h := Dialect.compiled hd
  have hallows : d.parser.Allows (weight signedQuotient).nesting := .inl (by rw [h.limit]; decide)
  have hparse := parse_of_prints h (prints_format_formula h hwell) hallows
  rw [show format signedQuotient = "-a / pow(b)" by decide] at hparse
  have herror : eval Text.similar (.ofBindings [("a", 1.0)]) signedQuotient
      = .error (.arguments "pow" 1) := rfl
  obtain ⟨hsome, hall⟩ := eval_error_of_parse hd hparse Text.similar (.ofBindings [("a", 1.0)])
  obtain ⟨u, hu, hraises⟩ := hsome _ herror
  exact ⟨d, hd, hparse, u, hu, (hall u _ hu hraises).2⟩

/-- The profile whose only unary operator is a star. -/
def starProfile : Profile := { Profile.bare with unary := ["*"] }

/-- `*x` -/
def starOperation : Formula := .node (.unary "*") [.leaf (.var "x")]

/-- **A profile with the unary operator `*` compiles and parses `*x`, which can not be evaluated**,
whatever `x` is. -/
theorem starOperation_not_evaluated : ∃ d, Dialect.compile starProfile = .ok d ∧
    d.parse (.ofString "*x") = .ok starOperation ∧
    eval Text.similar (.ofBindings [("x", 1.0)]) starOperation
      = .error (.unsupportedUnary "*") := by
  have hwell : WellFormed starProfile false starOperation :=
    .unary (by decide) (.var (by decide) (by decide))
  obtain ⟨d, hd⟩ : ∃ d, Dialect.compile starProfile = .ok d := ⟨_, rfl⟩
  have h := Dialect.compiled hd
  have hallows : d.parser.Allows (weight starOperation).nesting := .inl (by rw [h.limit]; decide)
  have hparse := parse_of_prints h (prints_format_formula h hwell) hallows
  rw [show format starOperation = "*x" by decide] at hparse
  exact ⟨d, hd, hparse, rfl⟩

end Arith

end Formulary
