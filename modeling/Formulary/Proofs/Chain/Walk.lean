import Formulary.Proofs.Chain.Completeness

/-!
# A walk over the tokens of an expression

A chain decides with one token ahead what to do with it, and what it decides depends on little: on
what is due, an operand or an operator, and on the parentheses that are open.  `Parser.step` says so
without the levels, the trees and the depth of the parser: it takes one token and either gives the
next stand or finds that the token can not follow.

Two things are read off a walk.  A list of tokens can be walked if each of its tokens can follow the
ones before it.  And the depth of a stand is 1 more than the number of groups, arguments and unary
operators around it, so the greatest depth along a walk is the nesting of the tokens
(`Parser.nesting`).  That this is the nesting of the grammar is shown for parsers that tell their
codes apart; only these read a text in one way (`Derives.nesting_eq`). -/

namespace Formulary.Chain

variable {ε α : Type}

/-! ## 1. Stands and steps -/

/-- What is due next. -/
inductive Due where
  /-- An operand, with `signs` unary operators right before it. -/
  | operand (signs : Nat)
  /-- The parenthesis behind the name of a function. -/
  | opening
  /-- An operator, or the end of the expression. -/
  | operator
  deriving Repr, DecidableEq

/-- What an open parenthesis holds. -/
inductive Bracket where
  | group
  | call
  deriving Repr, DecidableEq

/-- Where a walk stands. -/
structure Stand where
  due : Due
  /-- The open parentheses, the innermost first. -/
  brackets : List Bracket
  deriving Repr, DecidableEq

def Due.signs : Due → Nat
  | operand signs => signs
  | opening => 0
  | operator => 0

namespace Stand

/-- Before an expression. -/
def start : Stand := ⟨.operand 0, []⟩

/-- Behind an expression. -/
def done : Stand := ⟨.operator, []⟩

/-- The depth of what comes next: 1 for an expression of its own, and 1 for each parenthesis and
unary operator around it. -/
def depth (s : Stand) : Nat := s.brackets.length + s.due.signs + 1

@[simp] theorem depth_operand (signs : Nat) (bs : List Bracket) :
    depth ⟨.operand signs, bs⟩ = bs.length + signs + 1 := rfl

@[simp] theorem depth_opening (bs : List Bracket) : depth ⟨.opening, bs⟩ = bs.length + 1 := rfl

@[simp] theorem depth_operator (bs : List Bracket) : depth ⟨.operator, bs⟩ = bs.length + 1 := rfl

end Stand

namespace Parser

variable (p : Parser ε α)

/-- Some level lists the code. -/
def isOperator (code : Int) : Bool := p.levels.any (·.contains code)

/-- The token is the name of a function. -/
def namesFunction (t : Token) : Bool := p.identifiers.contains t.code && p.isFunction t.value

/-- The stand behind the token `t`, if the token can follow. -/
def step (s : Stand) (t : Token) : Option Stand :=
  match s.due with
  | .operand signs =>
    -- behind a unary operator there are no calls and no groups
    if signs == 0 && p.namesFunction t then some { s with due := .opening }
    else if signs == 0 && t.code == p.leftParen.code then some ⟨.operand 0, .group :: s.brackets⟩
    else if p.unaries.contains t.code then some { s with due := .operand (signs + 1) }
    else if p.identifiers.contains t.code then some { s with due := .operator }
    else none
  | .opening =>
    if t.code == p.leftParen.code then some ⟨.operand 0, .call :: s.brackets⟩ else none
  | .operator =>
    if p.isOperator t.code then some { s with due := .operand 0 }
    else
      match s.brackets with
      | [] => none
      | b :: bs =>
        if b == .call && t.code == p.comma.code then some { s with due := .operand 0 }
        else if t.code == p.rightParen.code then some ⟨.operator, bs⟩
        else none

/-- The stand behind the tokens `w`, if each of them can follow the ones before it. -/
def walk (s : Stand) (w : List Token) : Option Stand := w.foldlM p.step s

/-- The greatest depth along a walk. -/
def deepest : Stand → List Token → Nat
  | s, [] => s.depth
  | s, t :: w =>
    max s.depth (match p.step s t with
      | some s' => deepest s' w
      | none => 0)

/-- The nesting of tokens: 1 more than the most groups, arguments of calls and unary operators that
stand around a point of them. -/
def nesting (w : List Token) : Nat := p.deepest .start w

variable {p}

/-! ## 2. One step -/

theorem isOperator_iff {code : Int} : p.isOperator code = true ↔ ∃ i, p.operator i code := by
  simp only [isOperator, List.any_eq_true, List.contains_iff_mem]
  constructor
  · rintro ⟨ops, hops, hmem⟩
    obtain ⟨i, hi⟩ := List.mem_iff_getElem?.mp hops
    exact ⟨i, ops, hi, hmem⟩
  · rintro ⟨i, ops, hi, hmem⟩
    exact ⟨ops, List.mem_of_getElem? hi, hmem⟩

theorem isOperator_false {code : Int} (h : ∀ i, ¬ p.operator i code) :
    p.isOperator code = false := by
  rw [Bool.eq_false_iff]
  intro hop
  obtain ⟨i, hi⟩ := isOperator_iff.mp hop
  exact h i hi

section Steps

variable {t : Token} {signs : Nat} {bs : List Bracket}

theorem step_function (ht : p.namesFunction t = true) :
    p.step ⟨.operand 0, bs⟩ t = some ⟨.opening, bs⟩ := by
  simp [step, ht]

theorem step_leftParen (hf : p.namesFunction t = false) (ht : t.code = p.leftParen.code) :
    p.step ⟨.operand 0, bs⟩ t = some ⟨.operand 0, .group :: bs⟩ := by
  simp [step, hf, ht]

/-- Neither a call nor a group starts with the token, or none may start here. -/
def Plain (p : Parser ε α) (signs : Nat) (t : Token) : Prop :=
  signs = 0 → p.namesFunction t = false ∧ t.code ≠ p.leftParen.code

theorem plain_succ : p.Plain (signs + 1) t := fun h => absurd h (Nat.succ_ne_zero signs)

/-- **Where no call and no group starts**, the token is a unary operator or an identifier. -/
theorem step_plain (h : p.Plain signs t) (bs : List Bracket) :
    p.step ⟨.operand signs, bs⟩ t =
      if p.unaries.contains t.code then some ⟨.operand (signs + 1), bs⟩
      else if p.identifiers.contains t.code then some ⟨.operator, bs⟩ else none := by
  cases signs with
  | zero =>
    obtain ⟨hf, hparen⟩ := h rfl
    simp [step, hf, hparen]
  | succ signs => simp [step]

theorem step_opening :
    p.step ⟨.opening, bs⟩ t
      = if t.code = p.leftParen.code then some ⟨.operand 0, .call :: bs⟩ else none := by
  simp [step]

theorem step_operator (ht : p.isOperator t.code = true) :
    p.step ⟨.operator, bs⟩ t = some ⟨.operand 0, bs⟩ := by
  simp [step, ht]

/-- Behind a whole expression only an operator can follow. -/
theorem step_done (ht : p.isOperator t.code = false) : p.step .done t = none := by
  simp [step, Stand.done, ht]

theorem step_comma (ht : t.code = p.comma.code) :
    p.step ⟨.operator, .call :: bs⟩ t = some ⟨.operand 0, .call :: bs⟩ := by
  simp [step, ht]

/-- Behind an expression in parentheses stands the closing one, or a comma in a call. -/
theorem step_closing {b : Bracket} (hop : p.isOperator t.code = false)
    (hcomma : b = .call → t.code ≠ p.comma.code) :
    p.step ⟨.operator, b :: bs⟩ t
      = if t.code = p.rightParen.code then some ⟨.operator, bs⟩ else none := by
  cases b with
  | group => simp [step, hop]
  | call => simp [step, hop, hcomma rfl]

end Steps

/-- **A step takes a walk one deeper at most.** -/
theorem depth_step {s s' : Stand} {t : Token} (h : p.step s t = some s') :
    s'.depth ≤ s.depth + 1 := by
  obtain ⟨due, bs⟩ := s
  cases due with
  | operand signs =>
    simp only [step] at h
    split at h
    · obtain rfl := Option.some.inj h
      simp only [Stand.depth_opening, Stand.depth_operand]
      omega
    · split at h
      · obtain rfl := Option.some.inj h
        simp only [Stand.depth_operand, List.length_cons]
        omega
      · split at h
        · obtain rfl := Option.some.inj h
          simp only [Stand.depth_operand]
          omega
        · split at h
          · obtain rfl := Option.some.inj h
            simp only [Stand.depth_operator, Stand.depth_operand]
            omega
          · simp at h
  | opening =>
    rw [step_opening] at h
    split at h
    · obtain rfl := Option.some.inj h
      simp
    · simp at h
  | operator =>
    simp only [step] at h
    split at h
    · obtain rfl := Option.some.inj h
      simp
    · split at h
      · simp at h
      · split at h
        · obtain rfl := Option.some.inj h
          simp
        · split at h
          · obtain rfl := Option.some.inj h
            simp only [Stand.depth_operator, List.length_cons]
            omega
          · simp at h

/-! ## 3. Walks -/

@[simp] theorem walk_nil (s : Stand) : p.walk s [] = some s := rfl

theorem walk_cons (s : Stand) (t : Token) (w : List Token) :
    p.walk s (t :: w) = (p.step s t).bind fun s' => p.walk s' w := by
  simp [walk, List.foldlM_cons]

theorem walk_append (s : Stand) (u w : List Token) :
    p.walk s (u ++ w) = (p.walk s u).bind fun s' => p.walk s' w := by
  simp [walk, List.foldlM_append]

/-- The first part of a walk is a walk. -/
theorem exists_walk_of_append {s s' : Stand} {u w : List Token} (h : p.walk s (u ++ w) = some s') :
    ∃ s₁, p.walk s u = some s₁ ∧ p.walk s₁ w = some s' := by
  rw [walk_append] at h
  exact Option.bind_eq_some_iff.mp h

/-- **A walk is at most as deep as it is long.** -/
theorem depth_walk {s s' : Stand} {w : List Token} (h : p.walk s w = some s') :
    s'.depth ≤ s.depth + w.length := by
  induction w generalizing s with
  | nil =>
    obtain rfl := Option.some.inj h
    simp
  | cons t w ih =>
    rw [walk_cons] at h
    obtain ⟨s₁, hstep, hwalk⟩ := Option.bind_eq_some_iff.mp h
    have hdepth := depth_step hstep
    have hrest := ih hwalk
    simp only [List.length_cons]
    omega

theorem depth_le_deepest (s : Stand) (w : List Token) : s.depth ≤ p.deepest s w := by
  cases w with
  | nil => exact Nat.le_refl _
  | cons t w => exact Nat.le_max_left _ _

/-- **No stand of a walk is deeper than its deepest.** -/
theorem depth_le_deepest_of_walk {s s' : Stand} {u : List Token} (h : p.walk s u = some s')
    (w : List Token) : s'.depth ≤ p.deepest s (u ++ w) := by
  induction u generalizing s with
  | nil =>
    obtain rfl := Option.some.inj h
    exact depth_le_deepest _ w
  | cons t u ih =>
    rw [walk_cons] at h
    obtain ⟨s₁, hstep, hwalk⟩ := Option.bind_eq_some_iff.mp h
    have hle := ih hwalk
    simp only [List.cons_append, deepest, hstep]
    omega

/-- `Walks p n s u s'`: the tokens `u` lead from `s` to `s'`, and each of them is taken at a stand
that is no deeper than `n`. -/
inductive Walks (p : Parser ε α) (n : Nat) : Stand → List Token → Stand → Prop
  | stay (s : Stand) : Walks p n s [] s
  | step {s s' s'' : Stand} {t : Token} {w : List Token} :
      s.depth ≤ n → p.step s t = some s' → Walks p n s' w s'' → Walks p n s (t :: w) s''

namespace Walks

variable {n : Nat} {s s' s'' : Stand} {u w : List Token}

theorem trans (h : Walks p n s u s') (h' : Walks p n s' w s'') : Walks p n s (u ++ w) s'' := by
  induction h with
  | stay _ => exact h'
  | step hdepth hstep _ ih => exact .step hdepth hstep (ih h')

theorem walk (h : Walks p n s u s') : p.walk s u = some s' := by
  induction h with
  | stay _ => rfl
  | step _ hstep _ ih =>
    rw [walk_cons, hstep]
    exact ih

/-- The bound on the stands that are left, with one on the last, bounds the walk. -/
theorem deepest_le (h : Walks p n s u s') (hs' : s'.depth ≤ n) : p.deepest s u ≤ n := by
  induction h with
  | stay _ => exact hs'
  | step hdepth hstep _ ih =>
    have hrest := ih hs'
    simp only [deepest, hstep]
    omega

end Walks

/-! ## 4. Derivations as walks -/

/-- The deepest stand of a walk in two parts is that of one of them. -/
theorem deepest_append {s s' : Stand} {u : List Token} (hu : p.walk s u = some s')
    (w : List Token) : p.deepest s (u ++ w) = max (p.deepest s u) (p.deepest s' w) := by
  induction u generalizing s with
  | nil =>
    obtain rfl := Option.some.inj hu
    have hle := p.depth_le_deepest s w
    simp only [List.nil_append, deepest]
    omega
  | cons t u ih =>
    rw [walk_cons] at hu
    obtain ⟨s₁, hstep, hwalk⟩ := Option.bind_eq_some_iff.mp hu
    simp only [List.cons_append, deepest, hstep]
    rw [ih hwalk, Nat.max_assoc]

/-- `Spans p s w s' d`: the tokens `w` lead from `s` to `s'`, and the deepest stand on the way has
the depth `d`. -/
def Spans (p : Parser ε α) (s : Stand) (w : List Token) (s' : Stand) (d : Nat) : Prop :=
  p.walk s w = some s' ∧ p.deepest s w = d

namespace Spans

variable {s s' s'' : Stand} {u w : List Token} {d d' : Nat} {t : Token}

theorem single (h : p.step s t = some s') : p.Spans s [t] s' (max s.depth s'.depth) := by
  constructor
  · rw [walk_cons, h]
    rfl
  · simp [deepest, h]

theorem append (h : p.Spans s u s' d) (h' : p.Spans s' w s'' d') :
    p.Spans s (u ++ w) s'' (max d d') := by
  constructor
  · rw [walk_append, h.1]
    exact h'.1
  · rw [deepest_append h.1, h.2, h'.2]

theorem cons (h : p.step s t = some s') (h' : p.Spans s' w s'' d') :
    p.Spans s (t :: w) s'' (max s.depth d') := by
  constructor
  · rw [walk_cons, h]
    exact h'.1
  · simp [deepest, h, h'.2]

theorem congr (h : p.Spans s w s' d) (hd : d = d') : p.Spans s w s' d' := hd ▸ h

end Spans

/-- What a derivation that nests `n` deep is as a walk. -/
def Sits (p : Parser ε α) : Form → Nat → List Token → Prop
  | .level _, n, w => ∀ bs, p.Spans ⟨.operand 0, bs⟩ w ⟨.operator, bs⟩ (bs.length + n)
  | .operand, n, w => ∀ signs bs,
      (signs = 0 → ∀ a, w = [a] → p.isFunction a.value = false) →
      p.Spans ⟨.operand signs, bs⟩ w ⟨.operator, bs⟩ (bs.length + signs + n)
  | .arguments, n, w => ∀ bs,
      p.Spans ⟨.operand 0, .call :: bs⟩ w ⟨.operator, .call :: bs⟩ (bs.length + 1 + n)

section Separated

variable {t : Token} {signs : Nat} {bs : List Bracket}

/-- An identifier that may stand alone is taken as an operand. -/
theorem Separated.step_atom (hp : p.Separated) (ht : t.code ∈ p.identifiers)
    (hfun : signs = 0 → p.isFunction t.value = false) :
    p.step ⟨.operand signs, bs⟩ t = some ⟨.operator, bs⟩ := by
  have hplain : p.Plain signs t := fun hs =>
    ⟨by simp [namesFunction, hfun hs], fun hparen => hp.leftParen_identifiers (hparen ▸ ht)⟩
  have hun : t.code ∉ p.unaries := fun hun => hp.unaries_identifiers _ hun ht
  rw [step_plain hplain, if_neg (by simpa using hun), if_pos (by simpa using ht)]

theorem Separated.step_unary (hp : p.Separated) (ht : t.code ∈ p.unaries) :
    p.step ⟨.operand signs, bs⟩ t = some ⟨.operand (signs + 1), bs⟩ := by
  have hid : t.code ∉ p.identifiers := hp.unaries_identifiers _ ht
  have hplain : p.Plain signs t := fun _ =>
    ⟨by simp [namesFunction, hid], fun hparen => hp.leftParen_unaries (hparen ▸ ht)⟩
  rw [step_plain hplain, if_pos (by simpa using ht)]

theorem Separated.step_group (hp : p.Separated) (ht : t.code = p.leftParen.code) :
    p.step ⟨.operand 0, bs⟩ t = some ⟨.operand 0, .group :: bs⟩ := by
  refine step_leftParen ?_ ht
  simp [namesFunction, ht, hp.leftParen_identifiers]

/-- A closing parenthesis closes whatever is open. -/
theorem Separated.step_rightParen (hp : p.Separated) (b : Bracket)
    (ht : t.code = p.rightParen.code) :
    p.step ⟨.operator, b :: bs⟩ t = some ⟨.operator, bs⟩ := by
  have hop : p.isOperator t.code = false := by
    rw [ht]
    exact isOperator_false hp.rightParen
  rw [step_closing hop fun _ hcomma => hp.comma_ne (hcomma.symm.trans ht), if_pos ht]

end Separated

end Parser

/-- **A derivation is a walk as deep as the derivation nests**, if no code has two meanings. -/
theorem Derives.sits {p : Parser ε α} (hp : p.Separated) {form : Form} {n : Nat} {w : List Token}
    {ts : List (Tree α)} (h : Derives p p.innermost form n w ts) : p.Sits form n w := by
  induction h with
  | tighter _ _ ih => exact ih
  | @binary i m n u w o v left right ho _ hl hr ihl ihr =>
    intro bs
    have hstep : p.step ⟨.operator, bs⟩ o = some ⟨.operand 0, bs⟩ :=
      Parser.step_operator (Parser.isOperator_iff.mpr ⟨i, ho.1⟩)
    have hpos := hr.nesting_pos
    refine ((ihl bs).append (.cons hstep (ihr bs))).congr ?_
    simp only [Stand.depth_operator]
    omega
  | @call n f opening closing w v args hid hfun _ hopening hclosing h ih =>
    intro bs
    have hpos := h.nesting_pos
    have hname : p.namesFunction f = true := by simp [Parser.namesFunction, hid, hfun]
    have hopen : p.step ⟨.opening, bs⟩ opening = some ⟨.operand 0, .call :: bs⟩ := by
      rw [Parser.step_opening, if_pos hopening]
    refine Parser.Spans.congr (.cons (Parser.step_function hname) (.cons hopen
      ((ih bs).append (.single (hp.step_rightParen .call hclosing))))) ?_
    simp only [Stand.depth_operand, Stand.depth_opening, Stand.depth_operator, List.length_cons]
    omega
  | @group n opening closing w t hopening hclosing h ih =>
    intro bs
    have hpos := h.nesting_pos
    refine Parser.Spans.congr (.cons (hp.step_group hopening)
      ((ih (.group :: bs)).append (.single (hp.step_rightParen .group hclosing)))) ?_
    simp only [Stand.depth_operand, Stand.depth_operator, List.length_cons]
    omega
  | operand _ hfun ih => exact fun bs => ih 0 bs fun _ => hfun
  | unary ho _ _ ih =>
    intro signs bs _
    refine Parser.Spans.congr (.cons (hp.step_unary ho) (ih (signs + 1) bs (by simp))) ?_
    simp only [Stand.depth_operand]
    omega
  | atom ha _ =>
    intro signs bs hfun
    refine Parser.Spans.congr (.single (hp.step_atom ha fun hs => hfun hs _ rfl)) ?_
    simp only [Stand.depth_operand, Stand.depth_operator]
    omega
  | last _ ih => exact fun bs => ih (.call :: bs)
  | @more m n u w comma t ts hcomma hu hw ihu ihw =>
    intro bs
    have hpos := hw.nesting_pos
    refine ((ihu (.call :: bs)).append (.cons (Parser.step_comma hcomma) (ihw bs))).congr ?_
    simp only [Stand.depth_operator, List.length_cons]
    omega

/-- **The nesting of an expression is that of its derivation.** -/
theorem Derives.nesting_eq {p : Parser ε α} (hp : p.Separated) {n : Nat} {w : List Token}
    {t : Tree α} (h : Derives p p.innermost (.level 0) n w [t]) : p.nesting w = n := by
  have hspan : p.nesting w = ([] : List Bracket).length + n := (h.sits hp []).2
  rw [hspan, List.length_nil, Nat.zero_add]

end Formulary.Chain
