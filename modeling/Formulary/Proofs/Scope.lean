import Formulary.Proofs.Bindings
import Formulary.Scope
import Mathlib.Data.List.Basic

/-!
# Read-only names

A scope is asked for a name and, if it does not hold it, its parent is asked, and so on outwards.  A
read-only scope takes no definitions, and a definition is refused where a read-only scope further
out holds the name.  This is checked once, when something is defined; that it is enough to check it
then is the subject of this module.

What carries it is an invariant of the whole store (`Scopes.Guarded`): no scope holds a name that a
read-only scope around it holds.  A definition keeps it because the check looks at all scopes
around; a new scope keeps it because it is empty or has nothing around it.

1. Links between scopes, and the two searches along them.
2. The invariant, and the calls that keep it.
3. What a read-only scope holds, it holds for good (`Scopes.read_only_for_good`).
-/

namespace Formulary

variable {α : Type}

namespace Scopes

/-! ## 1. Links -/

/-- The scope at a place. -/
def scope? (s : Scopes α) (place : Nat) : Option (Scope α) :=
  match s.entries[place]? with
  | some (.scope sc) => some sc
  | _ => none

/-- `s.Encloses outer inner`: following the links to parents, `outer` is reached from `inner` in one
step or more. -/
inductive Encloses (s : Scopes α) (outer : Nat) : Nat → Prop
  | parent {inner : Nat} {sc : Scope α} :
      s.scope? inner = some sc → sc.parent = some outer → Encloses s outer inner
  | step {inner next : Nat} {sc : Scope α} :
      s.scope? inner = some sc → sc.parent = some next → Encloses s outer next →
      Encloses s outer inner

/-- Every entry is a scope, and its parent stands before it. -/
structure Linked (s : Scopes α) : Prop where
  scopes : ∀ place, place < s.entries.length → ∃ sc, s.scope? place = some sc
  backwards : ∀ place sc outer, s.scope? place = some sc → sc.parent = some outer → outer < place

variable {s s' : Scopes α} {place outer inner r e : Nat} {sc : Scope α} {name : String} {v : α}

theorem scope?_eq_some : s.scope? place = some sc ↔ s.entries[place]? = some (.scope sc) := by
  unfold scope?
  split
  next h => simp [h]
  next h =>
    simp only [reduceCtorEq, false_iff]
    exact fun heq => h sc heq

theorem lt_of_scope? (h : s.scope? place = some sc) : place < s.entries.length :=
  (List.getElem?_eq_some_iff.mp (scope?_eq_some.mp h)).1

namespace Encloses

theorem exists_inner (h : s.Encloses outer inner) : ∃ sc, s.scope? inner = some sc := by
  cases h with
  | parent hsc _ => exact ⟨_, hsc⟩
  | step hsc _ _ => exact ⟨_, hsc⟩

theorem trans (h : s.Encloses r outer) (h' : s.Encloses outer inner) : s.Encloses r inner := by
  induction h' with
  | parent hsc hp => exact .step hsc hp h
  | step hsc hp _ ih => exact .step hsc hp ih

end Encloses

/-- The chain of a scope starts with it and goes on with that of its parent. -/
theorem chainFrom_scope (hsc : s.scope? place = some sc) (steps : Nat) :
    s.chainFrom (steps + 1) place = (place, sc) :: sc.parent.elim [] (s.chainFrom steps) := by
  rw [chainFrom, scope?_eq_some.mp hsc]
  cases hp : sc.parent <;> simp [hp]

@[simp] theorem openChainFrom_none (steps : Nat) : s.openChainFrom steps none = [] := by
  cases steps <;> simp [openChainFrom]

theorem openChainFrom_scope (hsc : s.scope? place = some sc) (steps : Nat) :
    s.openChainFrom (steps + 1) (some place) = sc :: s.openChainFrom steps sc.parent := by
  rw [openChainFrom, scope?_eq_some.mp hsc]

/-- There is a first step from the place of a scope. -/
theorem exists_steps (hsc : s.scope? place = some sc) : ∃ steps, s.entries.length = steps + 1 :=
  Nat.exists_eq_succ_of_ne_zero (Nat.ne_zero_of_lt (lt_of_scope? hsc))

/-- **Where a definition is refused and what it does otherwise.** -/
theorem define_eq (hsc : s.scope? place = some sc) (name : String) (v : α) :
    s.define place name v = if s.isFixed sc name then .error (.readOnly name) else
      .ok ⟨s.entries.set place (.scope { sc with bindings := sc.bindings.insert name v })⟩ := by
  obtain ⟨steps, hsteps⟩ := exists_steps hsc
  rw [define, hsteps, scopeAt, scope?_eq_some.mp hsc]

namespace Linked

variable (h : s.Linked)

include h

theorem lt_of_encloses (he : s.Encloses outer inner) : outer < inner := by
  induction he with
  | parent hsc hp => exact h.backwards _ _ _ hsc hp
  | step hsc hp _ ih => exact Nat.lt_trans ih (h.backwards _ _ _ hsc hp)

/-- The search ends before its steps are used up, since each link leads to an earlier place. -/
theorem chainFrom_congr {steps steps' : Nat} (hplace : place < s.entries.length)
    (hsteps : place < steps) (hsteps' : place < steps') :
    s.chainFrom steps place = s.chainFrom steps' place := by
  induction steps generalizing place steps' with
  | zero => exact absurd hsteps (Nat.not_lt_zero _)
  | succ steps ih =>
    obtain ⟨steps', rfl⟩ := Nat.exists_eq_succ_of_ne_zero (Nat.ne_zero_of_lt hsteps')
    obtain ⟨sc, hsc⟩ := h.scopes place hplace
    rw [chainFrom_scope hsc, chainFrom_scope hsc]
    cases hp : sc.parent with
    | none => rfl
    | some outer =>
      have hlt := h.backwards place sc outer hsc hp
      simp only [Option.elim_some]
      rw [ih (by omega) (by omega) (show outer < steps' by omega)]

theorem openChainFrom_congr {steps steps' : Nat} (hplace : place < s.entries.length)
    (hsteps : place < steps) (hsteps' : place < steps') :
    s.openChainFrom steps (some place) = s.openChainFrom steps' (some place) := by
  induction steps generalizing place steps' with
  | zero => exact absurd hsteps (Nat.not_lt_zero _)
  | succ steps ih =>
    obtain ⟨steps', rfl⟩ := Nat.exists_eq_succ_of_ne_zero (Nat.ne_zero_of_lt hsteps')
    obtain ⟨sc, hsc⟩ := h.scopes place hplace
    rw [openChainFrom_scope hsc, openChainFrom_scope hsc]
    cases hp : sc.parent with
    | none => simp
    | some outer =>
      have hlt := h.backwards place sc outer hsc hp
      rw [ih (by omega) (by omega) (show outer < steps' by omega)]

/-- **A scope is asked first, and then its parent.** -/
theorem resolve_eq (hsc : s.scope? place = some sc) (name : String) :
    s.resolve place name = match sc.bindings.find? name, sc.parent with
      | some v, _ => .ok v
      | none, some outer => s.resolve outer name
      | none, none => .error (.undefined name) := by
  obtain ⟨steps, hsteps⟩ := exists_steps hsc
  have hlt := lt_of_scope? hsc
  rw [resolve, chain, hsteps, chainFrom_scope hsc]
  cases hfind : sc.bindings.find? name with
  | some v => simp [hfind]
  | none =>
    cases hp : sc.parent with
    | none => simp [hfind]
    | some outer =>
      have hback := h.backwards place sc outer hsc hp
      simp only [Option.elim_some, List.findSome?_cons, hfind]
      rw [resolve, chain, hsteps, h.chainFrom_congr (by omega) (show outer < steps by omega)
        (show outer < steps + 1 by omega)]

/-- The scopes met from a place outwards start with the one at that place. -/
theorem openChain_scope (hsc : s.scope? place = some sc) :
    s.openChainFrom s.entries.length (some place)
      = sc :: s.openChainFrom s.entries.length sc.parent := by
  obtain ⟨steps, hsteps⟩ := exists_steps hsc
  have hlt := lt_of_scope? hsc
  rw [hsteps, openChainFrom_scope hsc]
  cases hp : sc.parent with
  | none => simp
  | some outer =>
    have hback := h.backwards place sc outer hsc hp
    rw [h.openChainFrom_congr (by omega) (show outer < steps by omega)
      (show outer < steps + 1 by omega)]

/-- **The check for read-only names sees all scopes around.** -/
theorem mem_openChain (he : s.Encloses outer inner) {fixed : Scope α}
    (houter : s.scope? outer = some fixed) (hsc : s.scope? inner = some sc) :
    fixed ∈ s.openChainFrom s.entries.length sc.parent := by
  induction he generalizing sc with
  | parent hsc' hp =>
    obtain rfl := Option.some.inj (hsc.symm.trans hsc')
    rw [hp, h.openChain_scope houter]
    exact List.mem_cons_self
  | step hsc' hp hnext ih =>
    obtain rfl := Option.some.inj (hsc.symm.trans hsc')
    obtain ⟨next, hscope⟩ := hnext.exists_inner
    rw [hp, h.openChain_scope hscope]
    exact List.mem_cons_of_mem next (ih hscope)

/-- A name that a read-only scope around holds is refused. -/
theorem isFixed_of_encloses (he : s.Encloses outer inner) {fixed : Scope α}
    (houter : s.scope? outer = some fixed) (hfixed : fixed.readOnly = true)
    (hname : fixed.bindings.holds name = true) (hsc : s.scope? inner = some sc) :
    s.isFixed sc name = true := by
  rw [isFixed, Bool.or_eq_true]
  refine .inr (List.any_eq_true.mpr ⟨fixed, h.mem_openChain he houter hsc, ?_⟩)
  rw [hfixed, hname]
  rfl

end Linked

/-! ## 2. The invariant -/

/-- **No scope holds a name that a read-only scope around it holds**, and read-only scopes have
nothing around them. -/
structure Guarded (s : Scopes α) : Prop extends s.Linked where
  roots : ∀ r sc, s.scope? r = some sc → sc.readOnly = true → sc.parent = none
  free : ∀ r e fixed sc name, s.Encloses r e → s.scope? r = some fixed → fixed.readOnly = true →
    fixed.bindings.holds name = true → s.scope? e = some sc → sc.bindings.holds name = false

theorem scope?_add (sc : Scope α) (p : Nat) :
    (s.add (.scope sc)).1.scope? p = if p = s.entries.length then some sc else s.scope? p := by
  by_cases hp : p = s.entries.length
  · simp [scope?, add, hp]
  · rw [if_neg hp, scope?, scope?, add]
    rcases Nat.lt_or_gt_of_ne hp with hlt | hgt
    · rw [List.getElem?_append_left hlt]
    · rw [List.getElem?_eq_none (Nat.le_of_lt hgt),
        List.getElem?_eq_none (by simpa using Nat.succ_le_of_lt hgt)]

theorem scope?_set (hsc : s.scope? place = some sc) (sc' : Scope α) (p : Nat) :
    (Scopes.mk (s.entries.set place (.scope sc'))).scope? p
      = if p = place then some sc' else s.scope? p := by
  by_cases hp : p = place
  · simp [scope?, hp, lt_of_scope? hsc]
  · rw [if_neg hp, scope?, scope?, List.getElem?_set_ne (Ne.symm hp)]

/-- What is defined stands at the place, which is not read-only; nothing else is changed. -/
theorem define_eq_ok (h : s.Linked) (hplace : place < s.entries.length)
    (hdef : s.define place name v = .ok s') :
    ∃ sc, s.scope? place = some sc ∧ s.isFixed sc name = false ∧
      s'.entries.length = s.entries.length ∧
      ∀ p, s'.scope? p = if p = place then some { sc with bindings := sc.bindings.insert name v }
        else s.scope? p := by
  obtain ⟨sc, hsc⟩ := h.scopes place hplace
  rw [define_eq hsc] at hdef
  split at hdef
  · cases hdef
  next hfree =>
    cases hdef
    exact ⟨sc, hsc, by simpa using hfree, List.length_set, scope?_set hsc _⟩

namespace Linked

variable (h : s.Linked) (hplace : place < s.entries.length) (hdef : s.define place name v = .ok s')

include h hplace hdef

/-- Before a definition each scope had the parent and the nature it has now, and was the same if the
name was not bound in it. -/
theorem scope_before {p : Nat} {sc' : Scope α} (hsc' : s'.scope? p = some sc') :
    ∃ sc₀, s.scope? p = some sc₀ ∧ sc₀.parent = sc'.parent ∧ sc₀.readOnly = sc'.readOnly ∧
      (s.isFixed sc₀ name = false ∧ sc'.bindings = sc₀.bindings.insert name v ∨ sc₀ = sc') := by
  obtain ⟨sc, hsc, hopen, -, hscope⟩ := define_eq_ok h hplace hdef
  rw [hscope] at hsc'
  split at hsc'
  next heq =>
    cases hsc'
    exact ⟨sc, heq ▸ hsc, rfl, rfl, .inl ⟨hopen, rfl⟩⟩
  next => exact ⟨sc', hsc', rfl, rfl, .inr rfl⟩

/-- So a definition makes no links. -/
theorem encloses_before (he : s'.Encloses outer inner) : s.Encloses outer inner := by
  induction he with
  | parent hsc' hp =>
    obtain ⟨sc₀, hsc₀, hp₀, -⟩ := h.scope_before hplace hdef hsc'
    exact .parent hsc₀ (hp₀.trans hp)
  | step hsc' hp _ ih =>
    obtain ⟨sc₀, hsc₀, hp₀, -⟩ := h.scope_before hplace hdef hsc'
    exact .step hsc₀ (hp₀.trans hp) ih

end Linked

namespace Guarded

/-- Scopes that stood in a store before another was added see what they saw. -/
theorem encloses_of_add (h : s.Guarded) (he : (s.add (.scope sc)).1.Encloses outer inner)
    (hinner : inner < s.entries.length) : s.Encloses outer inner := by
  induction he with
  | parent hsc hp =>
    rw [scope?_add, if_neg (Nat.ne_of_lt hinner)] at hsc
    exact .parent hsc hp
  | step hsc hp _ ih =>
    rw [scope?_add, if_neg (Nat.ne_of_lt hinner)] at hsc
    exact .step hsc hp (ih (Nat.lt_trans (h.backwards _ _ _ hsc hp) hinner))

/-- **A new scope**, which is without a parent or empty. -/
theorem add (h : s.Guarded) (hnew : ∀ outer, sc.parent = some outer →
    outer < s.entries.length ∧ sc.bindings = [] ∧ sc.readOnly = false) :
    (s.add (.scope sc)).1.Guarded where
  scopes := by
    intro p hp
    rw [scope?_add]
    split
    · exact ⟨sc, rfl⟩
    next hne =>
      rw [Scopes.add, List.length_append, List.length_singleton] at hp
      exact h.scopes p (by omega)
  backwards := by
    intro p sc' outer hsc hp
    rw [scope?_add] at hsc
    split at hsc
    next heq =>
      cases hsc
      rw [heq]
      exact (hnew outer hp).1
    next => exact h.backwards p sc' outer hsc hp
  roots := by
    intro r sc' hsc hfixed
    rw [scope?_add] at hsc
    split at hsc
    next =>
      cases hsc
      cases hp : sc.parent with
      | none => rfl
      | some outer =>
        rw [(hnew outer hp).2.2] at hfixed
        cases hfixed
    next => exact h.roots r sc' hsc hfixed
  free := by
    intro r e fixed sc' name he hr hfixed hname hsc
    rw [scope?_add] at hsc
    split at hsc
    next heq =>
      -- the new scope has a parent, so it is empty
      obtain ⟨outer, hp⟩ : ∃ outer, sc'.parent = some outer := by
        cases he with
        | parent hsc' hp | step hsc' hp _ =>
          rw [scope?_add, if_pos heq] at hsc'
          rw [← Option.some.inj (hsc'.symm.trans hsc)]
          exact ⟨_, hp⟩
      cases hsc
      rw [(hnew outer hp).2.1]
      rfl
    next hne =>
      have hlt := lt_of_scope? hsc
      have he' := h.encloses_of_add he hlt
      have hrlt := Nat.lt_trans (h.lt_of_encloses he') hlt
      rw [scope?_add, if_neg (Nat.ne_of_lt hrlt)] at hr
      exact h.free r e fixed sc' name he' hr hfixed hname hsc

/-- **A definition that is not refused.** -/
theorem define (h : s.Guarded) (hplace : place < s.entries.length)
    (hdef : s.define place name v = .ok s') : s'.Guarded where
  scopes := by
    intro p hp
    obtain ⟨sc, -, -, hlength, hscope⟩ := define_eq_ok h.toLinked hplace hdef
    rw [hscope]
    split
    · exact ⟨_, rfl⟩
    · exact h.scopes p (hlength ▸ hp)
  backwards := by
    intro p sc' outer hsc' hp
    obtain ⟨sc₀, hsc₀, hp₀, -⟩ := h.toLinked.scope_before hplace hdef hsc'
    exact h.backwards p sc₀ outer hsc₀ (hp₀.trans hp)
  roots := by
    intro r sc' hsc' hfixed
    obtain ⟨sc₀, hsc₀, hp₀, hfixed₀, -⟩ := h.toLinked.scope_before hplace hdef hsc'
    rw [← hp₀]
    exact h.roots r sc₀ hsc₀ (hfixed₀.trans hfixed)
  free := by
    intro r e fixed sc' n he hr hfixed hname hsc'
    have he₀ := h.toLinked.encloses_before hplace hdef he
    -- the read-only scope is the one that was there: it takes no definition itself
    obtain ⟨fixed₀, hr₀, -, hfixed₀, hsame⟩ := h.toLinked.scope_before hplace hdef hr
    obtain rfl : fixed₀ = fixed := hsame.resolve_left fun ⟨hopen, _⟩ => by
      rw [isFixed, hfixed₀, hfixed, Bool.true_or] at hopen
      cases hopen
    obtain ⟨sc₀, hsc₀, -, -, hcases⟩ := h.toLinked.scope_before hplace hdef hsc'
    have hfree₀ := h.free r e fixed₀ sc₀ n he₀ hr₀ hfixed hname hsc₀
    rcases hcases with ⟨hopen, hbindings⟩ | rfl
    · have hne : n ≠ name := by
        rintro rfl
        rw [h.toLinked.isFixed_of_encloses he₀ hr₀ hfixed hname hsc₀] at hopen
        cases hopen
      rw [Bindings.holds_eq_false, hbindings, Bindings.find?_insert_of_ne hne]
      exact Bindings.holds_eq_false.mp hfree₀
    · exact hfree₀

/-- **A name that a read-only scope around holds is found there.** -/
theorem resolve_of_encloses (h : s.Guarded) (he : s.Encloses r e) {fixed : Scope α}
    (hr : s.scope? r = some fixed) (hfixed : fixed.readOnly = true)
    (hname : fixed.bindings.find? name = some v) : s.resolve e name = .ok v := by
  have hholds : fixed.bindings.holds name = true := Bindings.holds_iff.mpr ⟨v, hname⟩
  induction he with
  | parent hsc hp =>
    have hfree := h.free _ _ _ _ name (.parent hsc hp) hr hfixed hholds hsc
    rw [h.resolve_eq hsc, Bindings.holds_eq_false.mp hfree, hp]
    simp only
    rw [h.resolve_eq hr, hname]
  | step hsc hp hnext ih =>
    have hfree := h.free _ _ _ _ name (.step hsc hp hnext) hr hfixed hholds hsc
    rw [h.resolve_eq hsc, Bindings.holds_eq_false.mp hfree, hp]
    exact ih

end Guarded

/-- `s₀.Leads s`: calls lead from the store `s₀` to `s`, each one on any of the scopes made before
it: a new scope without a parent that is empty, or has bindings of its own, or is read-only; a new
empty scope enclosed by another one; a definition that is not refused.  One that is refused leaves
the store as it is. -/
inductive Leads (s₀ : Scopes α) : Scopes α → Prop
  | start : Leads s₀ s₀
  | empty {s : Scopes α} : Leads s₀ s → Leads s₀ (s.add (.scope ⟨[], none, false⟩)).1
  | enclosed {s : Scopes α} {outer : Nat} : Leads s₀ s → outer < s.entries.length →
      Leads s₀ (s.add (.scope ⟨[], some outer, false⟩)).1
  | ofBindings {s : Scopes α} (b : Bindings α) : Leads s₀ s →
      Leads s₀ (s.add (.scope ⟨b, none, false⟩)).1
  | readOnly {s : Scopes α} (b : Bindings α) : Leads s₀ s →
      Leads s₀ (s.add (.scope ⟨b, none, true⟩)).1
  | define {s s' : Scopes α} {place : Nat} {name : String} {v : α} : Leads s₀ s →
      place < s.entries.length → s.define place name v = .ok s' → Leads s₀ s'

/-- The stores that come from the empty one by calls. -/
def Reachable (s : Scopes α) : Prop := empty.Leads s

theorem guarded_empty : (empty : Scopes α).Guarded where
  scopes := by simp [empty]
  backwards := by simp [empty, scope?]
  roots := by simp [empty, scope?]
  free := by simp [empty, scope?]

/-- **Every call keeps the invariant.** -/
theorem Guarded.of_leads {s₀ : Scopes α} (h₀ : s₀.Guarded) (h : s₀.Leads s) : s.Guarded := by
  induction h with
  | start => exact h₀
  | empty _ ih => exact ih.add (by simp)
  | enclosed _ houter ih => exact ih.add (by simpa using houter)
  | ofBindings b _ ih => exact ih.add (by simp)
  | readOnly b _ ih => exact ih.add (by simp)
  | define _ hplace hdef ih => exact ih.define hplace hdef

theorem Reachable.guarded (h : s.Reachable) : s.Guarded := guarded_empty.of_leads h

/-! ## 3. For good -/

/-- The read-only scope at `r` was made with the bindings `b`. -/
def Made (s : Scopes α) (r : Nat) (b : Bindings α) : Prop :=
  ∃ s₀ : Scopes α, s₀.Reachable ∧ s₀.entries.length = r ∧
    (s₀.add (.scope ⟨b, none, true⟩)).1.Leads s

variable {fixed : Scope α}

/-- A read-only scope is one that was there before another one is added, or that one. -/
theorem made_of_add (hs : s.Reachable)
    (hmade : ∀ {r fixed}, s.scope? r = some fixed → fixed.readOnly = true →
      s.Made r fixed.bindings)
    (hnext : ∀ {s₀}, Leads s₀ s → Leads s₀ (s.add (.scope sc)).1)
    (hnew : sc.readOnly = true → sc.parent = none)
    (hr : (s.add (.scope sc)).1.scope? r = some fixed) (hfixed : fixed.readOnly = true) :
    (s.add (.scope sc)).1.Made r fixed.bindings := by
  rw [scope?_add] at hr
  split at hr
  next heq =>
    cases hr
    obtain ⟨b, parent, readOnly⟩ := sc
    obtain rfl : parent = none := hnew hfixed
    obtain rfl : readOnly = true := hfixed
    exact ⟨s, hs, heq.symm, .start⟩
  next =>
    obtain ⟨s₀, hs₀, hlength, hleads⟩ := hmade hr hfixed
    exact ⟨s₀, hs₀, hlength, hnext hleads⟩

/-- **A read-only scope has the bindings it was made with.** -/
theorem Reachable.made (h : s.Reachable) (hr : s.scope? r = some fixed)
    (hfixed : fixed.readOnly = true) : s.Made r fixed.bindings := by
  induction h generalizing r fixed with
  | start => simp [empty, scope?] at hr
  | empty hs ih => exact made_of_add hs ih .empty (by simp) hr hfixed
  | enclosed hs houter ih => exact made_of_add hs ih (.enclosed · houter) (by simp) hr hfixed
  | ofBindings b hs ih => exact made_of_add hs ih (.ofBindings b) (by simp) hr hfixed
  | readOnly b hs ih => exact made_of_add hs ih (.readOnly b) (by simp) hr hfixed
  | define hs hplace hdef ih =>
    obtain ⟨sc, hsc, hfree, -, hscope⟩ := define_eq_ok (Reachable.guarded hs).toLinked hplace hdef
    rw [hscope] at hr
    split at hr
    next =>
      cases hr
      rw [isFixed, Bool.or_eq_false_iff] at hfree
      exact absurd hfixed (by simp [hfree.1])
    next =>
      obtain ⟨s₀, hs₀, hlength, hleads⟩ := ih hr hfixed
      exact ⟨s₀, hs₀, hlength, .define hleads hplace hdef⟩

/-- **What a read-only scope holds, it holds for good, and for all that it encloses.**  In every
store that can be reached, where a read-only scope `r` that holds a name is reached from `e` through
the links to parents:

* asking `e` for the name gives the value that `r` has for it, and that is the value `r` was made
  with;
* a definition of the name in `e` is refused, whatever the value;
* neither `e` nor any scope between `e` and `r` holds the name. -/
theorem read_only_for_good (h : s.Reachable) (hr : s.scope? r = some fixed)
    (hfixed : fixed.readOnly = true) (hname : fixed.bindings.find? name = some v)
    (he : s.Encloses r e) :
    s.resolve e name = .ok v ∧
    (∃ b, s.Made r b ∧ b.find? name = some v) ∧
    (∀ w, s.define e name w = .error (.readOnly name)) ∧
    ∀ m sc, m = e ∨ s.Encloses m e ∧ s.Encloses r m → s.scope? m = some sc →
      sc.bindings.holds name = false := by
  have hguarded := h.guarded
  have hholds : fixed.bindings.holds name = true := Bindings.holds_iff.mpr ⟨v, hname⟩
  refine ⟨hguarded.resolve_of_encloses he hr hfixed hname, ⟨_, h.made hr hfixed, hname⟩,
    fun w => ?_, fun m sc hm hsc => ?_⟩
  · obtain ⟨sc, hsc⟩ := he.exists_inner
    rw [define_eq hsc, hguarded.toLinked.isFixed_of_encloses he hr hfixed hholds hsc, if_pos rfl]
  · have hrm : s.Encloses r m := by
      rcases hm with rfl | ⟨-, hrm⟩
      · exact he
      · exact hrm
    exact hguarded.free r m fixed sc name hrm hr hfixed hholds hsc

/-- Constants, a scope within them that holds a name of its own, and an empty one within that. -/
def threeScopes : Scopes Nat :=
  ⟨[.scope ⟨[("dozen", 12), ("score", 20)], none, true⟩, .scope ⟨[("gross", 144)], some 0, false⟩,
    .scope ⟨[], some 1, false⟩]⟩

/-- **A name of the outermost scope** can not be defined in the innermost one. -/
theorem read_only_for_good_threeScopes :
    threeScopes.Reachable ∧ threeScopes.Encloses 0 2 ∧
      threeScopes.resolve 2 "score" = .ok 20 ∧
      threeScopes.define 2 "score" 21 = .error (.readOnly "score") := by
  have hgross : (((Scopes.empty.add (.scope ⟨[("dozen", 12), ("score", 20)], none, true⟩)).1.add
      (.scope ⟨[], some 0, false⟩)).1.add (.scope ⟨[], some 1, false⟩)).1.define 1 "gross" 144
      = .ok threeScopes := rfl
  have hreach : threeScopes.Reachable :=
    .define (.enclosed (.enclosed (.readOnly _ .start) (by decide)) (by decide)) (by decide) hgross
  have hencloses : threeScopes.Encloses 0 2 := .step rfl rfl (.parent rfl rfl)
  have hscore : Bindings.find? [("dozen", 12), ("score", 20)] "score" = some 20 := rfl
  obtain ⟨hresolve, -, hdefine, -⟩ := read_only_for_good hreach rfl rfl hscore hencloses
  exact ⟨hreach, hencloses, hresolve, hdefine 21⟩

end Scopes

end Formulary
