import Formulary.Proofs.Scope
import Mathlib.Data.List.Sort
import Mathlib.Data.String.Basic

/-!
# Lexical scoping

A name is looked for in a scope, then in the one around it, and so on outwards; the first scope that
holds it gives its value.  Scopes are shared, and some stand for others, so one definition can be
seen from many places.  This module says from which: the places from which the scope of the
definition is the first one to hold the name.  From every other place, and for every other name, all
is as it was.

Unlike in the module on read-only names a store may hold delegates here.  What carries the searches
is that each link, to a parent or to what a delegate stands for, leads to an earlier place
(`Scopes.Ordered`); so a search is a recursion over places, one equation for each kind of entry.

1. Places, and what they are linked to.
2. One equation for each kind of entry.
3. The scope that a name is found in.
4. What a definition changes.
5. The names in sight. -/

namespace Formulary

variable {α : Type}

namespace Scopes

/-! ## 1. Links of all kinds -/

/-- The entry at the place is a delegate for `target`. -/
def Delegates (s : Scopes α) (place target : Nat) : Prop :=
  s.entries[place]? = some (.delegate target)

/-- `s.StandsFor e place`: to ask or define at `e` is to do so at `place`, where a scope is. -/
inductive StandsFor (s : Scopes α) (place : Nat) : Nat → Prop
  | scope {sc : Scope α} : s.scope? place = some sc → StandsFor s place place
  | delegate {e target : Nat} :
      s.Delegates e target → StandsFor s place target → StandsFor s place e

/-- `s.FirstHolds name place e`: on the way outwards from `e`, the first scope that holds the name
is the one at `place`. -/
inductive FirstHolds (s : Scopes α) (name : String) (place : Nat) : Nat → Prop
  | here {sc : Scope α} :
      s.scope? place = some sc → sc.bindings.holds name = true → FirstHolds s name place place
  | outer {e next : Nat} {sc : Scope α} :
      s.scope? e = some sc → sc.bindings.holds name = false → sc.parent = some next →
      FirstHolds s name place next → FirstHolds s name place e
  | delegate {e target : Nat} :
      s.Delegates e target → FirstHolds s name place target → FirstHolds s name place e

/-- Each link leads to an earlier place. -/
structure Ordered (s : Scopes α) : Prop where
  parent : ∀ place sc outer, s.scope? place = some sc → sc.parent = some outer → outer < place
  target : ∀ place target, s.Delegates place target → target < place

variable {s s' : Scopes α} {e e' place target outer : Nat} {sc : Scope α} {name other : String}
  {v : α}

/-- **An entry is a scope or a delegate.** -/
theorem scope_or_delegate (h : e < s.entries.length) :
    (∃ sc, s.scope? e = some sc) ∨ ∃ target, s.Delegates e target := by
  cases hentry : s.entries[e] with
  | scope sc =>
    exact .inl ⟨sc, scope?_eq_some.mpr (by rw [List.getElem?_eq_getElem h, hentry])⟩
  | delegate target => exact .inr ⟨target, by rw [Delegates, List.getElem?_eq_getElem h, hentry]⟩

theorem Delegates.lt (h : s.Delegates e target) : e < s.entries.length :=
  (List.getElem?_eq_some_iff.mp h).1

/-- A delegate is no scope. -/
theorem Delegates.scope? (h : s.Delegates e target) : s.scope? e = none := by
  rw [Scopes.scope?, h]

theorem Delegates.unique (h : s.Delegates e target) {target' : Nat} (h' : s.Delegates e target') :
    target = target' := by
  have heq := h.symm.trans h'
  cases heq
  rfl

/-! ## 2. One equation for each kind of entry -/

theorem chainFrom_delegate (h : s.Delegates e target) (steps : Nat) :
    s.chainFrom (steps + 1) e = s.chainFrom steps target := by
  rw [chainFrom, h]

theorem scopeAt_delegate (h : s.Delegates e target) (steps : Nat) :
    s.scopeAt (steps + 1) e = s.scopeAt steps target := by
  rw [scopeAt, h]

namespace Ordered

variable (h : s.Ordered)

include h

/-- The search ends before its steps are used up. -/
theorem chainFrom_congr {steps steps' : Nat} (he : e < s.entries.length) (hsteps : e < steps)
    (hsteps' : e < steps') : s.chainFrom steps e = s.chainFrom steps' e := by
  induction steps generalizing e steps' with
  | zero => exact absurd hsteps (Nat.not_lt_zero _)
  | succ steps ih =>
    obtain ⟨steps', rfl⟩ := Nat.exists_eq_succ_of_ne_zero (Nat.ne_zero_of_lt hsteps')
    rcases scope_or_delegate he with ⟨sc, hsc⟩ | ⟨target, htarget⟩
    · rw [chainFrom_scope hsc, chainFrom_scope hsc]
      cases hp : sc.parent with
      | none => rfl
      | some outer =>
        have hlt := h.parent e sc outer hsc hp
        have hsteps'' : outer < steps' := by omega
        simp only [Option.elim_some]
        rw [ih (by omega) (by omega) hsteps'']
    · have hlt := h.target e target htarget
      rw [chainFrom_delegate htarget, chainFrom_delegate htarget]
      exact ih (by omega) (by omega) (by omega)

theorem chain_scope (hsc : s.scope? e = some sc) :
    s.chain e = (e, sc) :: sc.parent.elim [] s.chain := by
  obtain ⟨steps, hsteps⟩ := exists_steps hsc
  have hlt := lt_of_scope? hsc
  rw [chain, hsteps, chainFrom_scope hsc]
  cases hp : sc.parent with
  | none => rfl
  | some outer =>
    have hback := h.parent e sc outer hsc hp
    have hshort : outer < steps := by omega
    simp only [Option.elim_some]
    rw [chain, hsteps, h.chainFrom_congr (by omega) hshort (Nat.lt_succ_of_lt hshort)]

theorem chain_delegate (htarget : s.Delegates e target) : s.chain e = s.chain target := by
  have hlt := htarget.lt
  have hback := h.target e target htarget
  obtain ⟨steps, hsteps⟩ := Nat.exists_eq_succ_of_ne_zero (Nat.ne_zero_of_lt hlt)
  rw [chain, chain, hsteps, chainFrom_delegate htarget]
  exact h.chainFrom_congr (by omega) (by omega) (by omega)

/-- **A scope is asked first, and then its parent.** -/
theorem resolve_scope (hsc : s.scope? e = some sc) (name : String) :
    s.resolve e name = match sc.bindings.find? name, sc.parent with
      | some v, _ => .ok v
      | none, some outer => s.resolve outer name
      | none, none => .error (.undefined name) := by
  rw [resolve, h.chain_scope hsc]
  cases hfind : sc.bindings.find? name with
  | some v => simp [hfind]
  | none => cases hp : sc.parent <;> simp [hfind, resolve]

/-- **A delegate answers as what it stands for.** -/
theorem resolve_delegate (htarget : s.Delegates e target) (name : String) :
    s.resolve e name = s.resolve target name := by
  rw [resolve, resolve, h.chain_delegate htarget]

/-- **Delegates are followed to a scope.** -/
theorem exists_scopeAt {steps : Nat} (he : e < s.entries.length) (hsteps : e < steps) :
    ∃ place sc, s.scopeAt steps e = some (place, sc) ∧ s.scope? place = some sc ∧
      s.StandsFor place e := by
  induction steps generalizing e with
  | zero => exact absurd hsteps (Nat.not_lt_zero _)
  | succ steps ih =>
    rcases scope_or_delegate he with ⟨sc, hsc⟩ | ⟨target, htarget⟩
    · refine ⟨e, sc, ?_, hsc, .scope hsc⟩
      rw [scopeAt, scope?_eq_some.mp hsc]
    · have hlt := h.target e target htarget
      obtain ⟨place, sc, hat, hsc, hstands⟩ := ih (e := target) (by omega) (by omega)
      refine ⟨place, sc, ?_, hsc, .delegate htarget hstands⟩
      rw [scopeAt_delegate htarget, hat]

/-- **A definition is one in the scope that the place stands for**, or is refused for a read-only
name. -/
theorem define_eq (he : e < s.entries.length) (name : String) (v : α) :
    ∃ place sc, s.StandsFor place e ∧ s.scope? place = some sc ∧
      s.define e name v = if s.isFixed sc name then .error (.readOnly name) else
        .ok ⟨s.entries.set place (.scope { sc with bindings := sc.bindings.insert name v })⟩ := by
  obtain ⟨place, sc, hat, hsc, hstands⟩ := h.exists_scopeAt he he
  exact ⟨place, sc, hstands, hsc, by rw [define, hat]⟩

end Ordered

/-! ## 3. Where a name is found -/

/-- Behind a delegate the same scope is found. -/
theorem firstHolds_delegate (htarget : s.Delegates e target) :
    s.FirstHolds name place e ↔ s.FirstHolds name place target := by
  refine ⟨fun h => ?_, .delegate htarget⟩
  cases h with
  | here hsc _ | outer hsc _ _ _ =>
    rw [htarget.scope?] at hsc
    cases hsc
  | delegate htarget' h => rwa [htarget.unique htarget']

/-- A scope that holds the name is the one found. -/
theorem firstHolds_of_holds (hsc : s.scope? e = some sc) (hholds : sc.bindings.holds name = true) :
    s.FirstHolds name place e ↔ place = e := by
  constructor
  · intro h
    cases h with
    | here _ _ => rfl
    | outer hsc' hholds' _ _ =>
      obtain rfl := Option.some.inj (hsc.symm.trans hsc')
      rw [hholds] at hholds'
      cases hholds'
    | delegate htarget _ =>
      rw [htarget.scope?] at hsc
      cases hsc
  · rintro rfl
    exact .here hsc hholds

/-- From a scope that does not hold the name, it is found from the parent. -/
theorem firstHolds_of_not_holds (hsc : s.scope? e = some sc)
    (hholds : sc.bindings.holds name = false) :
    s.FirstHolds name place e ↔
      ∃ outer, sc.parent = some outer ∧ s.FirstHolds name place outer := by
  constructor
  · intro h
    cases h with
    | here hsc' hholds' =>
      obtain rfl := Option.some.inj (hsc.symm.trans hsc')
      rw [hholds] at hholds'
      cases hholds'
    | outer hsc' _ hp h =>
      obtain rfl := Option.some.inj (hsc.symm.trans hsc')
      exact ⟨_, hp, h⟩
    | delegate htarget _ =>
      rw [htarget.scope?] at hsc
      cases hsc
  · rintro ⟨outer, hp, h⟩
    exact .outer hsc hholds hp h

/-! ## 4. What a definition changes -/

/-- The call with the name and the value leads from `s` to the store after it; one that is refused
leaves the store as it is. -/
def afterDefine (s : Scopes α) (e : Nat) (name : String) (v : α) : Scopes α :=
  match s.define e name v with
  | .ok s' => s'
  | .error _ => s

section Set

variable (hsc : s.scope? place = some sc) (sc' : Scope α)

include hsc

/-- A new scope in the place of an old one touches no delegate. -/
theorem delegates_set :
    (Scopes.mk (s.entries.set place (.scope sc'))).Delegates e target ↔ s.Delegates e target := by
  unfold Delegates
  by_cases he : place = e
  · subst he
    rw [List.getElem?_set_self (lt_of_scope? hsc), scope?_eq_some.mp hsc]
    simp
  · rw [List.getElem?_set_ne he]

theorem Ordered.set (h : s.Ordered) (hparent : sc'.parent = sc.parent) :
    (Scopes.mk (s.entries.set place (.scope sc'))).Ordered where
  parent := by
    intro p sc₁ outer hsc₁ hp
    rw [scope?_set hsc] at hsc₁
    split at hsc₁
    next heq =>
      cases hsc₁
      exact heq ▸ h.parent place sc outer hsc (hparent ▸ hp)
    next => exact h.parent p sc₁ outer hsc₁ hp
  target := by
    intro p target htarget
    exact h.target p target ((delegates_set hsc sc').mp htarget)

/-- What stands for a scope goes on to do so. -/
theorem StandsFor.set {p : Nat} (h : s.StandsFor p e) :
    (Scopes.mk (s.entries.set place (.scope sc'))).StandsFor p e := by
  induction h with
  | @scope sc₁ hsc₁ =>
    by_cases hp : p = place
    · exact .scope (by rw [scope?_set hsc, if_pos hp])
    · exact .scope (by rw [scope?_set hsc, if_neg hp, hsc₁])
  | delegate htarget _ ih => exact .delegate ((delegates_set hsc sc').mpr htarget) ih

end Set

/-- **A definition is seen where the scope of the definition is the first to hold the name**, and
nowhere else.  By induction on the place that is asked: what it is linked to stands before it. -/
theorem Ordered.resolve_set (h : s.Ordered) (hsc : s.scope? place = some sc) (name : String) (v : α)
    (hs' : s' = ⟨s.entries.set place (.scope { sc with bindings := sc.bindings.insert name v })⟩)
    (he : e < s.entries.length) (other : String) :
    (other = name → s'.FirstHolds name place e → s'.resolve e other = .ok v) ∧
      (¬ (other = name ∧ s'.FirstHolds name place e) → s'.resolve e other = s.resolve e other) := by
  have h' : s'.Ordered := hs' ▸ h.set hsc _ rfl
  have hscope : ∀ p, s'.scope? p = if p = place then
      some { sc with bindings := sc.bindings.insert name v } else s.scope? p :=
    hs' ▸ scope?_set hsc _
  have hholds : (sc.bindings.insert name v).holds name = true :=
    Bindings.holds_iff.mpr ⟨v, Bindings.find?_insert_self⟩
  induction e using Nat.strong_induction_on with
  | _ e ih =>
    rcases scope_or_delegate he with ⟨sc₁, hsc₁⟩ | ⟨target, htarget⟩
    · by_cases heq : e = place
      · -- the scope of the definition itself
        subst heq
        obtain rfl := Option.some.inj (hsc.symm.trans hsc₁)
        have hnew := (hscope e).trans (if_pos rfl)
        rw [h'.resolve_scope hnew, h.resolve_scope hsc]
        refine ⟨?_, fun hother => ?_⟩
        · rintro rfl -
          rw [Bindings.find?_insert_self]
        · have hne : other ≠ name := fun hname => hother ⟨hname, .here hnew hholds⟩
          rw [Bindings.find?_insert_of_ne hne]
          cases sc.bindings.find? other with
          | some w => rfl
          | none =>
            cases hp : sc.parent with
            | none => rfl
            | some outer =>
              have hlt := h.parent e sc outer hsc hp
              exact (ih outer hlt (by omega)).2 fun hboth => hne hboth.1
      · -- another scope, which is as it was
        have hsame : s'.scope? e = some sc₁ := by rw [hscope, if_neg heq, hsc₁]
        rw [h'.resolve_scope hsame, h.resolve_scope hsc₁]
        cases hfind : sc₁.bindings.find? other with
        | some w =>
          refine ⟨?_, fun _ => rfl⟩
          rintro rfl hfirst
          have hone := Bindings.holds_iff.mpr ⟨w, hfind⟩
          exact absurd ((firstHolds_of_holds hsame hone).mp hfirst).symm heq
        | none =>
          have hfirst (hname : other = name) : s'.FirstHolds name place e ↔
              ∃ outer, sc₁.parent = some outer ∧ s'.FirstHolds name place outer :=
            firstHolds_of_not_holds hsame (hname ▸ Bindings.holds_eq_false.mpr hfind)
          cases hp : sc₁.parent with
          | none =>
            refine ⟨fun hname hplace => ?_, fun _ => rfl⟩
            obtain ⟨outer, hp', -⟩ := (hfirst hname).mp hplace
            cases hp.symm.trans hp'
          | some outer =>
            have hlt := h.parent e sc₁ outer hsc₁ hp
            obtain ⟨hseen, hkept⟩ := ih outer hlt (by omega)
            refine ⟨fun hname hplace => ?_, fun hother => hkept fun ⟨hname, hplace⟩ => ?_⟩
            · obtain ⟨outer', hp', hplace'⟩ := (hfirst hname).mp hplace
              obtain rfl := Option.some.inj (hp.symm.trans hp')
              exact hseen hname hplace'
            · exact hother ⟨hname, (hfirst hname).mpr ⟨outer, hp, hplace⟩⟩
    · have hlt := h.target e target htarget
      have htarget' : s'.Delegates e target := hs' ▸ (delegates_set hsc _).mpr htarget
      rw [h'.resolve_delegate htarget', h.resolve_delegate htarget, firstHolds_delegate htarget']
      exact ih target hlt (by omega)

/-! ## 5. The names in sight -/

/-- The first two of a list are compared, and one of them goes if they are the same. -/
theorem eraseReps_cons_cons (a b : String) (l : List String) :
    (a :: b :: l).eraseReps = if a = b then (a :: l).eraseReps else a :: (b :: l).eraseReps := by
  have hloop : ∀ (l acc : List String) (a : String),
      List.eraseRepsBy.loop (· == ·) a l acc = acc.reverse ++ (a :: l).eraseReps := by
    intro l
    induction l with
    | nil => simp [List.eraseReps, List.eraseRepsBy, List.eraseRepsBy.loop]
    | cons b l ih =>
      intro acc a
      rw [List.eraseReps, List.eraseRepsBy, List.eraseRepsBy.loop, List.eraseRepsBy.loop]
      cases a == b <;> simp [ih]
  rw [List.eraseReps, List.eraseRepsBy, List.eraseRepsBy.loop]
  by_cases hab : a = b
  · simp [hab, hloop]
  · have hbeq : (a == b) = false := by simpa using hab
    simp [hab, hbeq, hloop]

theorem mem_eraseReps {l : List String} : name ∈ l.eraseReps ↔ name ∈ l := by
  induction l with
  | nil => simp [List.eraseReps, List.eraseRepsBy]
  | cons a l ih =>
    cases l with
    | nil => simp [List.eraseReps, List.eraseRepsBy, List.eraseRepsBy.loop]
    | cons b l =>
      rw [eraseReps_cons_cons]
      split
      next hab =>
        subst hab
        rw [ih]
        simp
      next => rw [List.mem_cons, ih, ← List.mem_cons]

/-- **A sorted list without its repetitions** is strictly increasing. -/
theorem pairwise_eraseReps {l : List String} (h : l.Pairwise (· ≤ ·)) :
    l.eraseReps.Pairwise (· < ·) := by
  induction l with
  | nil => simp [List.eraseReps, List.eraseRepsBy]
  | cons a l ih =>
    cases l with
    | nil => simp [List.eraseReps, List.eraseRepsBy, List.eraseRepsBy.loop]
    | cons b l =>
      have htail := ih h.of_cons
      rw [eraseReps_cons_cons]
      split
      next hab =>
        subst hab
        exact htail
      next hab =>
        refine List.pairwise_cons.mpr ⟨fun c hc => ?_, htail⟩
        have hlt : a < b := lt_of_le_of_ne (List.rel_of_pairwise_cons h List.mem_cons_self) hab
        rcases List.mem_cons.mp (mem_eraseReps.mp hc) with rfl | hc
        · exact hlt
        · exact lt_of_lt_of_le hlt (List.rel_of_pairwise_cons h.of_cons hc)

/-- Sorts the names, and leaves repetitions out. -/
def arranged (l : List String) : List String :=
  (l.mergeSort fun a b => !(decide (b < a))).eraseReps

theorem mem_arranged {l : List String} : name ∈ arranged l ↔ name ∈ l := by
  rw [arranged, mem_eraseReps, List.mem_mergeSort]

theorem pairwise_arranged (l : List String) : (arranged l).Pairwise (· < ·) := by
  have hle (a b : String) : (!(decide (b < a))) = true ↔ a ≤ b := by
    rw [Bool.not_eq_true', decide_eq_false_iff_not, not_lt]
  have hsorted : (l.mergeSort fun a b => !(decide (b < a))).Pairwise
      fun a b => (!(decide (b < a))) = true := by
    refine List.pairwise_mergeSort (fun a b c hab hbc => ?_) (fun a b => ?_) l
    · exact (hle a c).mpr (le_trans ((hle a b).mp hab) ((hle b c).mp hbc))
    · rw [Bool.or_eq_true, hle, hle]
      exact le_total a b
  exact pairwise_eraseReps (hsorted.imp (hle _ _).mp)

theorem names_eq (s : Scopes α) (e : Nat) :
    s.names e = arranged ((s.chain e).flatMap fun (_, sc) => sc.bindings.names) := rfl

/-- **The names are those that have a value.** -/
theorem mem_names_iff : name ∈ s.names e ↔ ∃ v, s.resolve e name = .ok v := by
  have hnames : ∀ b : Bindings α, name ∈ b.names ↔ (b.find? name).isSome = true := by
    intro b
    simp [Bindings.names, Bindings.find?, List.lookup_isSome_iff]
  rw [names_eq, mem_arranged, List.mem_flatMap, resolve]
  constructor
  · rintro ⟨⟨place, sc⟩, hmem, hname⟩
    have hfound : ((s.chain e).findSome? fun (_, sc) => sc.bindings.find? name).isSome = true :=
      List.findSome?_isSome_iff.mpr ⟨_, hmem, (hnames _).mp hname⟩
    obtain ⟨v, hv⟩ := Option.isSome_iff_exists.mp hfound
    exact ⟨v, by rw [hv]⟩
  · rintro ⟨v, hv⟩
    split at hv
    next w hfound =>
      obtain ⟨⟨place, sc⟩, hmem, hfind⟩ := List.exists_of_findSome?_eq_some hfound
      exact ⟨_, hmem, (hnames _).mpr (Option.isSome_iff_exists.mpr ⟨w, hfind⟩)⟩
    next => cases hv

/-! ## 6. Stores that come from calls -/

/-- Calls lead to the store, each one on any of the places made before it: a new scope that is empty
or has bindings of its own, read-only or not; a new empty scope enclosed by a place; a delegate for
a place; a definition that is not refused.  One that is refused leaves the store as it is. -/
inductive Built : Scopes α → Prop
  | start : Built empty
  | empty {s : Scopes α} : Built s → Built (s.add (.scope ⟨[], none, false⟩)).1
  | enclosed {s : Scopes α} {outer : Nat} : Built s → outer < s.entries.length →
      Built (s.add (.scope ⟨[], some outer, false⟩)).1
  | ofBindings {s : Scopes α} (b : Bindings α) : Built s →
      Built (s.add (.scope ⟨b, none, false⟩)).1
  | readOnly {s : Scopes α} (b : Bindings α) : Built s →
      Built (s.add (.scope ⟨b, none, true⟩)).1
  | delegate {s : Scopes α} {target : Nat} : Built s → target < s.entries.length →
      Built (s.add (.delegate target)).1
  | define {s s' : Scopes α} {e : Nat} {name : String} {v : α} : Built s →
      e < s.entries.length → s.define e name v = .ok s' → Built s'

/-- An entry of a store with one more is one from before or the new one. -/
theorem entries_add {entry entry' : ScopeEntry α} {p : Nat}
    (h : (s.add entry).1.entries[p]? = some entry') :
    s.entries[p]? = some entry' ∨ p = s.entries.length ∧ entry = entry' := by
  have hlt : p < s.entries.length + 1 := by
    simpa [Scopes.add] using (List.getElem?_eq_some_iff.mp h).1
  rcases Nat.lt_succ_iff_lt_or_eq.mp hlt with hp | rfl
  · exact .inl (by rwa [Scopes.add, List.getElem?_append_left hp] at h)
  · exact .inr ⟨rfl, by simpa [Scopes.add] using h⟩

/-- What is linked to places made before it keeps the order. -/
theorem Ordered.add (h : s.Ordered) {entry : ScopeEntry α}
    (hparent : ∀ sc outer, entry = .scope sc → sc.parent = some outer → outer < s.entries.length)
    (htarget : ∀ target, entry = .delegate target → target < s.entries.length) :
    (s.add entry).1.Ordered where
  parent := by
    intro place sc outer hsc hp
    rcases entries_add (scope?_eq_some.mp hsc) with hold | ⟨rfl, hnew⟩
    · exact h.parent place sc outer (scope?_eq_some.mpr hold) hp
    · exact hparent sc outer hnew hp
  target := by
    intro place target hdelegates
    rcases entries_add hdelegates with hold | ⟨rfl, hnew⟩
    · exact h.target place target hold
    · exact htarget target hnew

theorem ordered_empty : (empty : Scopes α).Ordered where
  parent := by simp [empty, scope?]
  target := by simp [empty, Delegates]

theorem Built.ordered (h : s.Built) : s.Ordered := by
  induction h with
  | start => exact ordered_empty
  | empty _ ih => exact ih.add (by rintro _ _ ⟨⟩ ⟨⟩) (by rintro _ ⟨⟩)
  | enclosed _ houter ih => exact ih.add (by rintro _ _ ⟨⟩ ⟨⟩; exact houter) (by rintro _ ⟨⟩)
  | ofBindings b _ ih => exact ih.add (by rintro _ _ ⟨⟩ ⟨⟩) (by rintro _ ⟨⟩)
  | readOnly b _ ih => exact ih.add (by rintro _ _ ⟨⟩ ⟨⟩) (by rintro _ ⟨⟩)
  | delegate _ htarget ih => exact ih.add (by rintro _ _ ⟨⟩) (by rintro _ ⟨⟩; exact htarget)
  | define _ he hdef ih =>
    obtain ⟨place, sc, -, hsc, heq⟩ := ih.define_eq he _ _
    rw [heq] at hdef
    split at hdef
    · cases hdef
    · obtain rfl := Except.ok.inj hdef
      exact ih.set hsc _ rfl

/-- **A definition changes what lexical scoping says, and the names in sight are those that have a
value.**  In every store that calls lead to, for every place `e`, name and value:

* a definition is only refused for a read-only name, and then nothing is changed;
* one that is not refused is one in the scope that `e` stands for; from then on the name has the
  value at each place from which that scope is the first to hold it, and at any other place, as well
  as for any other name, all is as it was;
* the names in sight of `e` are strictly increasing, and they are those that have a value. -/
theorem lexical_scoping (h : s.Built) (he : e < s.entries.length) (name : String) (v : α) :
    (∀ refused, s.define e name v = .error refused →
      refused = .readOnly name ∧
        ∀ e' other, (s.afterDefine e name v).resolve e' other = s.resolve e' other) ∧
    (∀ s', s.define e name v = .ok s' →
      s'.entries.length = s.entries.length ∧
      ∃ place, s.StandsFor place e ∧ s'.StandsFor place e ∧
        ∀ e' < s.entries.length, ∀ other,
          (other = name → s'.FirstHolds name place e' → s'.resolve e' other = .ok v) ∧
          (¬ (other = name ∧ s'.FirstHolds name place e') →
            s'.resolve e' other = s.resolve e' other)) ∧
    (s.names e).Pairwise (· < ·) ∧
    ∀ other, other ∈ s.names e ↔ ∃ w, s.resolve e other = .ok w := by
  obtain ⟨place, sc, hstands, hsc, heq⟩ := h.ordered.define_eq he name v
  refine ⟨fun refused hdef => ⟨?_, fun e' other => by rw [afterDefine, hdef]⟩, fun s' hdef => ?_,
    pairwise_arranged _, fun other => mem_names_iff⟩
  · rw [heq] at hdef
    split at hdef
    · exact (Except.error.inj hdef).symm
    · cases hdef
  · rw [heq] at hdef
    split at hdef
    · cases hdef
    · have hs' := (Except.ok.inj hdef).symm
      refine ⟨by rw [hs', List.length_set], place, hstands, hs' ▸ hstands.set hsc _,
        fun e' he' other => h.ordered.resolve_set hsc name v hs' he' other⟩

/-- A scope with a name, a delegate for it, and two scopes enclosed by the delegate, one of which
has a value of its own for the name. -/
def sharedScopes (outer inner : Nat) : Scopes Nat :=
  ⟨[.scope ⟨[("dozen", outer)], none, false⟩, .delegate 0, .scope ⟨[], some 1, false⟩,
    .scope ⟨[("dozen", inner)], some 1, false⟩]⟩

/-- **A dozen defined at the delegate** is seen from the scope that has none of its own, and not
from the one that has. -/
theorem lexical_scoping_sharedScopes :
    (sharedScopes 12 13).Built ∧
      (sharedScopes 12 13).define 1 "dozen" 20 = .ok (sharedScopes 20 13) ∧
      (sharedScopes 20 13).resolve 2 "dozen" = .ok 20 ∧
      (sharedScopes 20 13).resolve 3 "dozen" = (sharedScopes 12 13).resolve 3 "dozen" ∧
      ((sharedScopes 12 13).names 1).Pairwise (· < ·) := by
  have hscope : Built (empty.add (.scope ⟨[("dozen", 12)], none, false⟩)).1 := .ofBindings _ .start
  have hdelegate := hscope.delegate (show 0 < 1 by decide)
  have hempty := (hdelegate.enclosed (show 1 < 2 by decide)).enclosed (show 1 < 3 by decide)
  have hbuilt : (sharedScopes 12 13).Built :=
    hempty.define (show 3 < 4 by decide) (show Scopes.define _ 3 "dozen" 13 = _ from rfl)
  have hdef : (sharedScopes 12 13).define 1 "dozen" 20 = .ok (sharedScopes 20 13) := rfl
  obtain ⟨-, hdefined, hsorted, -⟩ := lexical_scoping hbuilt (show 1 < 4 by decide) "dozen" 20
  obtain ⟨-, place, -, hstands, hseen⟩ := hdefined _ hdef
  obtain rfl : place = 0 := by
    cases hstands with
    | scope hsc => cases hsc
    | delegate htarget hstands =>
      cases htarget
      cases hstands with
      | scope _ => rfl
      | delegate htarget _ => cases htarget
  have hfirst : (sharedScopes 20 13).FirstHolds "dozen" 0 2 :=
    .outer rfl rfl rfl (.delegate rfl (.here rfl rfl))
  refine ⟨hbuilt, hdef, (hseen 2 (by decide) "dozen").1 rfl hfirst,
    (hseen 3 (by decide) "dozen").2 fun hboth => ?_, hsorted⟩
  -- the scope asked has the name itself
  have hplace := (firstHolds_of_holds (show _ = some _ from rfl) rfl).mp hboth.2
  cases hplace

end Scopes

end Formulary
