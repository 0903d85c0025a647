import Formulary.Forest
import Mathlib.Data.List.Dedup
import Mathlib.Data.List.Perm.Subperm

/-!
# A store of nodes is a forest

The links between parents and children are kept twice, in the node and in the list of its parent,
and nodes move between trees.  Whatever is called, and also where a call to attach nodes stops half
way, both kinds of links tell the same story, no list of children has a node twice, and no line of
parents comes back to where it started (`Forest.WellLinked`).

The invariant is carried by one step: attaching a single node `c` to `n` takes `c` out of all lists
of children and puts it at the end of the list of `n` (`Forest.Moved`).  It keeps the lines of
parents free of circles because `c` is not above `n`, and the test for that, which looks only as far
up as the store is large, sees all that is above (`Forest.WellLinked.mem_line`). -/

namespace Formulary

variable {α : Type}

namespace Forest

/-! ## 1. Links -/

/-- `f.Above a n`: following the links to parents, `a` is reached from `n`, in no steps or more. -/
inductive Above (f : Forest α) (a : Nat) : Nat → Prop
  | self : Above f a a
  | step {n p : Nat} : f.parent? n = some p → Above f a p → Above f a n

/-- The links of a store make a forest of ordered trees. -/
structure WellLinked (f : Forest α) : Prop where
  /-- Children know their parent, and parents their children. -/
  linked : ∀ n c, c ∈ f.children n ↔ f.parent? c = some n
  /-- No child is listed twice. -/
  nodup : ∀ n, (f.children n).Nodup
  /-- Parents are nodes of the store. -/
  inside : ∀ c n, f.parent? c = some n → n < f.nodes.length
  /-- No node stands above its own parent. -/
  acyclic : ∀ c n, f.parent? c = some n → ¬ f.Above c n

variable {f f' : Forest α} {n c p : Nat}

theorem Above.trans {a b : Nat} (hab : f.Above a b) (hb : f.Above b n) : f.Above a n := by
  induction hb with
  | self => exact hab
  | step hp _ ih => exact .step hp ih

/-- What has a parent is a node of the store. -/
theorem lt_of_parent (h : f.parent? c = some n) : c < f.nodes.length := by
  rcases Nat.lt_or_ge c f.nodes.length with hlt | hge
  · exact hlt
  · simp [parent?, List.getElem?_eq_none hge] at h

/-! ## 2. Lines of parents -/

theorem above_of_mem_lineFrom {steps a : Nat} (h : a ∈ f.lineFrom steps n) : f.Above a n := by
  induction steps generalizing n with
  | zero => simp [lineFrom] at h
  | succ steps ih =>
    rw [lineFrom] at h
    rcases List.mem_cons.mp h with rfl | h
    · exact .self
    · cases hp : f.parent? n with
      | none => simp [hp] at h
      | some p => exact .step hp (ih (by simpa [hp] using h))

/-- A line that stops before its steps are used up has all that is above. -/
theorem mem_lineFrom {steps a : Nat} (h : f.Above a n) (hlt : (f.lineFrom steps n).length < steps) :
    a ∈ f.lineFrom steps n := by
  induction steps generalizing n with
  | zero => simp at hlt
  | succ steps ih =>
    rw [lineFrom] at hlt ⊢
    cases h with
    | self => exact List.mem_cons_self
    | step hp habove =>
      simp only [hp, List.length_cons] at hlt ⊢
      exact List.mem_cons_of_mem n (ih habove (by omega))

theorem lineFrom_take (steps : Nat) (n : Nat) :
    (f.lineFrom (steps + 1) n).take steps = f.lineFrom steps n := by
  induction steps generalizing n with
  | zero => rfl
  | succ steps ih =>
    rw [lineFrom, lineFrom, List.take_succ_cons]
    cases hp : f.parent? n with
    | none => simp
    | some p => simp only [ih]

namespace WellLinked

theorem nodup_lineFrom (h : f.WellLinked) (steps : Nat) (n : Nat) :
    (f.lineFrom steps n).Nodup := by
  induction steps generalizing n with
  | zero => exact List.nodup_nil
  | succ steps ih =>
    rw [lineFrom]
    cases hp : f.parent? n with
    | none => simp
    | some p =>
      have hn : n ∉ f.lineFrom steps p := fun hmem =>
        h.acyclic n p hp (above_of_mem_lineFrom hmem)
      exact List.nodup_cons.mpr ⟨hn, ih p⟩

/-- All above a node of the store are nodes of the store. -/
theorem lt_of_above (h : f.WellLinked) {a : Nat} (ha : f.Above a n) (hn : n < f.nodes.length) :
    a < f.nodes.length := by
  induction ha with
  | self => exact hn
  | step hp _ ih => exact ih (h.inside _ _ hp)

/-- No line is longer than the store. -/
theorem length_lineFrom_le (h : f.WellLinked) (steps : Nat) (hn : n < f.nodes.length) :
    (f.lineFrom steps n).length ≤ f.nodes.length := by
  have hsub : f.lineFrom steps n ⊆ List.range f.nodes.length := fun a ha =>
    List.mem_range.mpr (h.lt_of_above (above_of_mem_lineFrom ha) hn)
  have hle := (List.subperm_of_subset (h.nodup_lineFrom steps n) hsub).length_le
  rwa [List.length_range] at hle

/-- **The line of a node has all that is above it.** -/
theorem mem_line (h : f.WellLinked) (hn : n < f.nodes.length) {a : Nat} :
    a ∈ f.line n ↔ f.Above a n := by
  refine ⟨above_of_mem_lineFrom, fun ha => ?_⟩
  have hle := h.length_lineFrom_le (f.nodes.length + 1) hn
  have hmem := mem_lineFrom ha (Nat.lt_succ_of_le hle)
  rwa [line, ← lineFrom_take, List.take_of_length_le hle]

end WellLinked

/-! ## 3. One node is moved -/

/-- `f'` is `f` after the node `c` was taken away from where it was, and put at the end of the
children of `home`, if there is one. -/
structure Moved (f : Forest α) (c : Nat) (home : Option Nat) (f' : Forest α) : Prop where
  length : f'.nodes.length = f.nodes.length
  value : ∀ m, f'.value? m = f.value? m
  parent : ∀ m, f'.parent? m = if m = c then home else f.parent? m
  children : ∀ m, f'.children m = (f.children m).filter (· ≠ c) ++ if home = some m then [c] else []

section Changes

variable (f) (n m : Nat) (home : Option Nat) (change : List Nat → List Nat)

@[simp] theorem length_setParent : (f.setParent n home).nodes.length = f.nodes.length :=
  List.length_modify _ _ _

@[simp] theorem length_setChildren : (f.setChildren n change).nodes.length = f.nodes.length :=
  List.length_modify _ _ _

@[simp] theorem value?_setParent : (f.setParent n home).value? m = f.value? m := by
  cases hm : f.nodes[m]? <;>
    simp [value?, setParent, List.getElem?_modify, hm, apply_ite ForestNode.value]

@[simp] theorem value?_setChildren : (f.setChildren n change).value? m = f.value? m := by
  cases hm : f.nodes[m]? <;>
    simp [value?, setChildren, List.getElem?_modify, hm, apply_ite ForestNode.value]

@[simp] theorem children_setParent : (f.setParent n home).children m = f.children m := by
  cases hm : f.nodes[m]? <;>
    simp [children, setParent, List.getElem?_modify, hm, apply_ite ForestNode.children]

@[simp] theorem parent?_setChildren : (f.setChildren n change).parent? m = f.parent? m := by
  cases hm : f.nodes[m]? <;>
    simp [parent?, setChildren, List.getElem?_modify, hm, apply_ite ForestNode.parent]

variable {n}

theorem parent?_setParent (hn : n < f.nodes.length) :
    (f.setParent n home).parent? m = if m = n then home else f.parent? m := by
  by_cases hm : n = m
  · subst hm
    simp [parent?, setParent, List.getElem?_eq_getElem hn]
  · simp [parent?, setParent, hm, Ne.symm hm]

theorem children_setChildren (hn : n < f.nodes.length) :
    (f.setChildren n change).children m
      = if m = n then change (f.children m) else f.children m := by
  by_cases hm : n = m
  · subst hm
    simp [children, setChildren, List.getElem?_eq_getElem hn]
  · simp [children, setChildren, hm, Ne.symm hm]

end Changes

/-- **A node is taken away from its parent.** -/
theorem WellLinked.detach_moved (h : f.WellLinked) (c : Nat) : Moved f c none (f.detach c) := by
  have hother : ∀ m, f.parent? c ≠ some m → (f.children m).filter (· ≠ c) = f.children m :=
    fun m hm => List.filter_eq_self.mpr fun x hx => by
      have hne : x ≠ c := fun hxc => hm ((h.linked m c).mp (hxc ▸ hx))
      simpa using hne
  unfold detach
  split
  · next hp =>
    refine ⟨rfl, fun _ => rfl, fun m => ?_, fun m => ?_⟩
    · split
      · next hm => rw [hm, hp]
      · rfl
    · simp only [reduceCtorEq, if_false, List.append_nil]
      rw [hother m (by simp [hp])]
  · next p hp =>
    have hc := lt_of_parent hp
    refine ⟨by simp, fun m => by simp, fun m => ?_, fun m => ?_⟩
    · rw [parent?_setParent _ _ _ (by simpa using hc), parent?_setChildren]
    · simp only [reduceCtorEq, if_false, List.append_nil, children_setParent]
      rw [children_setChildren _ _ _ (h.inside c p hp)]
      split
      · next hm =>
        subst hm
        rw [(h.nodup m).erase_eq_filter]
        exact List.filter_congr fun x _ => by by_cases hx : x = c <;> simp [hx]
      · next hm => exact (hother m fun hcm => hm (Option.some.inj (hcm.symm.trans hp))).symm

/-- **A node is attached**, unless it is the other node or above it. -/
theorem WellLinked.attachOne_cases (h : f.WellLinked) (hn : n < f.nodes.length)
    (hc : c < f.nodes.length) :
    f.Above c n ∧ f.attachOne n c = .error .cycle ∨
      ¬ f.Above c n ∧ ∃ f', f.attachOne n c = .ok f' ∧ Moved f c (some n) f' := by
  by_cases habove : f.Above c n
  · refine .inl ⟨habove, ?_⟩
    simp [attachOne, (h.mem_line hn).mpr habove]
  · refine .inr ⟨habove, _, if_neg (by simpa [h.mem_line hn] using habove), ?_⟩
    have hmoved := h.detach_moved c
    refine ⟨by simp [hmoved.length], fun m => by simp [hmoved.value], fun m => ?_, fun m => ?_⟩
    · rw [parent?_setChildren, parent?_setParent _ _ _ (by rwa [hmoved.length]), hmoved.parent]
      split <;> rfl
    · rw [children_setChildren _ _ _ (by rwa [length_setParent, hmoved.length]),
        children_setParent, hmoved.children]
      by_cases hm : m = n
      · simp [hm]
      · simp [hm, Ne.symm hm]

namespace Moved

variable {home : Option Nat}

/-- What is above a node now was above it before, unless the node that was moved is. -/
theorem above (h : Moved f c home f') {a b : Nat} (hab : f'.Above a b) :
    f.Above a b ∨ ∃ n, home = some n ∧ f.Above c b ∧ f'.Above a n := by
  induction hab with
  | self => exact .inl .self
  | @step b p hp habove ih =>
    rw [h.parent] at hp
    split at hp
    · next hbc =>
      subst hbc
      exact .inr ⟨p, hp, .self, habove⟩
    · next hbc =>
      rcases ih with hap | ⟨n, hn, hcp, han⟩
      · exact .inl (.step hp hap)
      · exact .inr ⟨n, hn, .step hp hcp, han⟩

/-- **No circle is made** by moving a node to one that it is not above. -/
theorem acyclic (h : Moved f c home f') (hf : f.WellLinked)
    (hfree : ∀ n, home = some n → ¬ f.Above c n) {x p : Nat} (hp : f'.parent? x = some p) :
    ¬ f'.Above x p := by
  intro hxp
  rw [h.parent] at hp
  split at hp
  · next hxc =>
    subst hxc
    rcases h.above hxp with hcp | ⟨n, hn, hcp, -⟩
    · exact hfree p hp hcp
    · exact hfree p hp hcp
  · next hxc =>
    rcases h.above hxp with hxp | ⟨n, hn, hcp, hxn⟩
    · exact hf.acyclic x p hp hxp
    · -- the circle runs through the node that was moved, so that was above its new parent
      have hcx : f.Above c x := .step hp hcp
      rcases h.above hxn with hxn | ⟨n', hn', hcn, -⟩
      · exact hfree n hn (hcx.trans hxn)
      · exact hfree n hn hcn

/-- **Moving a node keeps the links.** -/
theorem wellLinked (h : Moved f c home f') (hf : f.WellLinked)
    (hhome : ∀ n, home = some n → n < f.nodes.length ∧ ¬ f.Above c n) : f'.WellLinked where
  linked := by
    intro m x
    rw [h.children, h.parent, List.mem_append, List.mem_filter]
    by_cases hxc : x = c
    · subst hxc
      by_cases hm : home = some m <;> simp [hm]
    · have hlinked := hf.linked m x
      by_cases hm : home = some m <;> simp [hm, hxc, hlinked]
  nodup := by
    intro m
    rw [h.children]
    have hfilter := (hf.nodup m).filter (· ≠ c)
    split
    · exact List.nodup_append.mpr ⟨hfilter, List.nodup_singleton c, by
        intro a ha b hb
        obtain rfl := List.mem_singleton.mp hb
        simpa using (List.mem_filter.mp ha).2⟩
    · rwa [List.append_nil]
  inside := by
    intro x m hm
    rw [h.length]
    rw [h.parent] at hm
    split at hm
    · exact (hhome m hm).1
    · exact hf.inside x m hm
  acyclic := fun x p hp => h.acyclic hf (fun n hn => (hhome n hn).2) hp

end Moved

/-! ## 4. Several nodes are attached -/

/-- `f'` is `f` after the nodes `cs` were attached to `n`, one after another. -/
structure Attached (f : Forest α) (n : Nat) (cs : List Nat) (f' : Forest α) : Prop where
  wellLinked : f'.WellLinked
  length : f'.nodes.length = f.nodes.length
  value : ∀ m, f'.value? m = f.value? m
  /-- The other children stay in front, and each new one stands where it was named last. -/
  home : f'.children n = (f.children n).filter (· ∉ cs) ++ cs.dedup
  others : ∀ m, m ≠ n → f'.children m = (f.children m).filter (· ∉ cs)

theorem WellLinked.attached_nil (h : f.WellLinked) (n : Nat) : Attached f n [] f :=
  ⟨h, rfl, fun _ => rfl, by simp, fun _ _ => by simp⟩

theorem filter_filter_cons (l cs : List Nat) (c : Nat) :
    (l.filter (· ≠ c)).filter (· ∉ cs) = l.filter (· ∉ c :: cs) := by
  rw [List.filter_filter]
  exact List.filter_congr fun x _ => by simp [Bool.and_comm]

/-- One node is attached before the others. -/
theorem Attached.cons {f₁ : Forest α} {cs : List Nat} (h : Attached f₁ n cs f')
    (hmoved : Moved f c (some n) f₁) : Attached f n (c :: cs) f' where
  wellLinked := h.wellLinked
  length := h.length.trans hmoved.length
  value := fun m => (h.value m).trans (hmoved.value m)
  home := by
    rw [h.home, hmoved.children, if_pos rfl, List.filter_append, filter_filter_cons,
      List.append_assoc]
    by_cases hc : c ∈ cs
    · simp [hc, List.dedup_cons_of_mem hc]
    · simp [hc, List.dedup_cons_of_notMem hc]
  others := by
    intro m hm
    rw [h.others m hm, hmoved.children, if_neg (by simpa using Ne.symm hm), List.append_nil,
      filter_filter_cons]

/-- **Nodes are attached up to the first one that is above**, and all of them if there is none. -/
theorem WellLinked.attach_cases (h : f.WellLinked) (hn : n < f.nodes.length)
    {cs : List (Option Nat)} (hcs : ∀ c, some c ∈ cs → c < f.nodes.length) :
    (∃ f', f.attach n cs = (f', .ok ()) ∧ Attached f n (cs.filterMap id) f') ∨
      ∃ f' pre c post, cs = pre ++ some c :: post ∧ f.attach n pre = (f', .ok ()) ∧
        Attached f n (pre.filterMap id) f' ∧ f'.Above c n ∧
        f.attach n cs = (f', .error .cycle) := by
  induction cs generalizing f with
  | nil => exact .inl ⟨f, rfl, h.attached_nil n⟩
  | cons c cs ih =>
    have htail : ∀ x, some x ∈ cs → x < f.nodes.length := fun x hx =>
      hcs x (List.mem_cons_of_mem c hx)
    cases c with
    | none =>
      rcases ih h hn htail with ⟨f', hf', hattached⟩ | ⟨f', pre, c, post, rfl, hpre, hrest⟩
      · exact .inl ⟨f', hf', hattached⟩
      · exact .inr ⟨f', none :: pre, c, post, rfl, hpre, hrest⟩
    | some c =>
      have hc := hcs c List.mem_cons_self
      rcases h.attachOne_cases hn hc with ⟨habove, herror⟩ | ⟨hfree, f₁, hone, hmoved⟩
      · exact .inr ⟨f, [], c, cs, rfl, rfl, h.attached_nil n, habove, by simp [attach, herror]⟩
      · have hlinked : f₁.WellLinked := hmoved.wellLinked h fun m hm => by
          obtain rfl := Option.some.inj hm
          exact ⟨hn, hfree⟩
        have hstep : ∀ more, f.attach n (some c :: more) = f₁.attach n more := fun more => by
          simp [attach, hone]
        rw [← hmoved.length] at hn htail
        rcases ih hlinked hn htail with
          ⟨f', hf', hattached⟩ | ⟨f', pre, x, post, rfl, hpre, hattached, habove, hfail⟩
        · exact .inl ⟨f', (hstep cs).trans hf', hattached.cons hmoved⟩
        · exact .inr ⟨f', some c :: pre, x, post, rfl, (hstep pre).trans hpre,
            hattached.cons hmoved, habove, (hstep _).trans hfail⟩

/-- Attaching goes on behind what was attached. -/
theorem attach_append {pre : List (Option Nat)} (h : f.attach n pre = (f', .ok ()))
    (post : List (Option Nat)) : f.attach n (pre ++ post) = f'.attach n post := by
  induction pre generalizing f with
  | nil =>
    obtain ⟨rfl, -⟩ := Prod.mk.inj h
    rfl
  | cons c pre ih =>
    cases c with
    | none => exact ih h
    | some c =>
      rw [List.cons_append, attach]
      rw [attach] at h
      split at h
      · exact ih h
      · simp at h

/-- Whatever comes of it, the links are kept. -/
theorem WellLinked.attach (h : f.WellLinked) (hn : n < f.nodes.length) {cs : List (Option Nat)}
    (hcs : ∀ c, some c ∈ cs → c < f.nodes.length) : (f.attach n cs).1.WellLinked := by
  rcases h.attach_cases hn hcs with
    ⟨f', hf', hattached⟩ | ⟨f', pre, c, post, -, -, hattached, -, hf'⟩
  · rw [hf']
    exact hattached.wellLinked
  · rw [hf']
    exact hattached.wellLinked

/-- All nodes are attached if there is no failure. -/
theorem WellLinked.attached_of_ok (h : f.WellLinked) (hn : n < f.nodes.length)
    {cs : List (Option Nat)} (hcs : ∀ c, some c ∈ cs → c < f.nodes.length)
    (hok : f.attach n cs = (f', .ok ())) : Attached f n (cs.filterMap id) f' := by
  rcases h.attach_cases hn hcs with ⟨g, hg, hattached⟩ | ⟨g, pre, c, post, -, -, -, -, hg⟩
  · obtain rfl : g = f' := (Prod.mk.inj (hg.symm.trans hok)).1
    exact hattached
  · rw [hg] at hok
    simp at hok

/-- **The first node that is above ends a call**, and changes nothing. -/
theorem WellLinked.attach_eq_cycle (h : f.WellLinked) (hn : n < f.nodes.length)
    {cs : List (Option Nat)} (hcs : ∀ c, some c ∈ cs → c < f.nodes.length) :
    f.attach n cs = (f', .error .cycle) ↔
      ∃ pre c post, cs = pre ++ some c :: post ∧ f.attach n pre = (f', .ok ()) ∧ f'.Above c n := by
  constructor
  · intro hfail
    rcases h.attach_cases hn hcs with ⟨g, hg, -⟩ | ⟨g, pre, c, post, hsplit, hpre, -, habove, hg⟩
    · rw [hg] at hfail
      simp at hfail
    · obtain rfl : g = f' := (Prod.mk.inj (hg.symm.trans hfail)).1
      exact ⟨pre, c, post, hsplit, hpre, habove⟩
  · rintro ⟨pre, c, post, rfl, hpre, habove⟩
    have hattached := h.attached_of_ok hn (fun x hx => hcs x (List.mem_append_left _ hx)) hpre
    have hc : c < f.nodes.length := hcs c (by simp)
    rw [← hattached.length] at hn hc
    rw [attach_append hpre, Forest.attach]
    rcases hattached.wellLinked.attachOne_cases hn hc with ⟨-, herror⟩ | ⟨hfree, -⟩
    · rw [herror]
    · exact absurd habove hfree

/-! ## 5. All stores -/

/-- The stores that come from the empty one by calls.  What a call to attach nodes leaves behind
counts also if it fails. -/
inductive Reachable : Forest α → Prop
  | empty : Reachable .empty
  | new {f : Forest α} (v : α) : Reachable f → Reachable (f.new v).1
  | attach {f : Forest α} {n : Nat} {cs : List (Option Nat)} : Reachable f → n < f.nodes.length →
      (∀ c, some c ∈ cs → c < f.nodes.length) → Reachable (f.attach n cs).1
  | detach {f : Forest α} (n : Nat) : Reachable f → Reachable (f.detach n)

theorem wellLinked_empty : (empty : Forest α).WellLinked where
  linked := by simp [empty, children, parent?]
  nodup := by simp [empty, children]
  inside := by simp [empty, parent?]
  acyclic := by simp [empty, parent?]

theorem getElem?_new (v : α) (m : Nat) :
    (f.new v).1.nodes[m]? = f.nodes[m]? ∨
      (f.new v).1.nodes[m]? = some ⟨v, none, []⟩ ∧ f.nodes[m]? = none := by
  rcases Nat.lt_trichotomy m f.nodes.length with hm | rfl | hm
  · exact .inl (List.getElem?_append_left hm)
  · exact .inr (by simp [Forest.new])
  · refine .inl ?_
    rw [List.getElem?_eq_none (Nat.le_of_lt hm)]
    exact List.getElem?_eq_none (by simpa [Forest.new] using Nat.succ_le_of_lt hm)

theorem parent?_new (v : α) (m : Nat) : (f.new v).1.parent? m = f.parent? m := by
  rcases getElem?_new (f := f) v m with hm | ⟨hm, hnone⟩
  · simp [parent?, hm]
  · simp [parent?, hm, hnone]

theorem children_new (v : α) (m : Nat) : (f.new v).1.children m = f.children m := by
  rcases getElem?_new (f := f) v m with hm | ⟨hm, hnone⟩
  · simp [children, hm]
  · simp [children, hm, hnone]

/-- A new node has no links. -/
theorem WellLinked.new (h : f.WellLinked) (v : α) : (f.new v).1.WellLinked := by
  have hparent := parent?_new (f := f) v
  have hchildren := children_new (f := f) v
  have habove : ∀ {a b}, (f.new v).1.Above a b → f.Above a b := fun hab => by
    induction hab with
    | self => exact .self
    | step hp _ ih => exact .step (by rwa [hparent] at hp) ih
  refine ⟨fun n c => ?_, fun n => ?_, fun c n hc => ?_, fun c n hc hab => ?_⟩
  · rw [hparent, hchildren, h.linked]
  · rw [hchildren]
    exact h.nodup n
  · rw [hparent] at hc
    have hlt := h.inside c n hc
    simp only [Forest.new, List.length_append, List.length_singleton]
    omega
  · rw [hparent] at hc
    exact h.acyclic c n hc (habove hab)

/-- **The links are kept by every call.** -/
theorem Reachable.wellLinked (h : f.Reachable) : f.WellLinked := by
  induction h with
  | empty => exact wellLinked_empty
  | new v _ ih => exact ih.new v
  | attach _ hn hcs ih => exact ih.attach hn hcs
  | detach n _ ih => exact (ih.detach_moved n).wellLinked ih (by simp)

/-- **The store is always a forest of ordered trees.**  In every store that can be reached:

* children and parents agree, no node is listed twice, all links lead to nodes of the store, and no
  line of parents comes back;
* attaching nodes fails exactly if it comes to one that is at that moment the node itself or above
  it, and leaves the store as it was then, with the nodes before that one attached;
* if it does not fail, the node has the children it had, without those named, and then those named,
  in the order of their last mention; other nodes lose the children that are named, and that is
  all. -/
theorem always_forest (h : f.Reachable) :
    f.WellLinked ∧ (∀ n c, c ∈ f.children n → c < f.nodes.length) ∧
    ∀ (n : Nat) (cs : List (Option Nat)), n < f.nodes.length →
      (∀ c, some c ∈ cs → c < f.nodes.length) →
      (∀ f', f.attach n cs = (f', .error .cycle) ↔
        ∃ pre c post, cs = pre ++ some c :: post ∧ f.attach n pre = (f', .ok ()) ∧
          f'.Above c n) ∧
      ∀ f', f.attach n cs = (f', .ok ()) →
        f'.children n = (f.children n).filter (· ∉ cs.filterMap id) ++ (cs.filterMap id).dedup ∧
        (∀ m, m ≠ n → f'.children m = (f.children m).filter (· ∉ cs.filterMap id)) ∧
        f'.nodes.length = f.nodes.length ∧ ∀ m, f'.value? m = f.value? m := by
  have hlinked := h.wellLinked
  refine ⟨hlinked, fun n c hc => lt_of_parent ((hlinked.linked n c).mp hc), fun n cs hn hcs => ?_⟩
  refine ⟨fun f' => hlinked.attach_eq_cycle hn hcs, fun f' hok => ?_⟩
  have hattached := hlinked.attached_of_ok hn hcs hok
  exact ⟨hattached.home, hattached.others, hattached.length, hattached.value⟩

/-- A root `a` with the children `b` and `c`. -/
def threeNodes : Forest String :=
  (((((empty.new "a").1.new "b").1).new "c").1.attach 0 [some 1, none, some 2]).1

/-- **A call that fails keeps what it has done**: `b` is named before its own parent, and comes to
stand below `c`. -/
theorem always_forest_threeNodes :
    threeNodes.Reachable ∧ 2 < threeNodes.nodes.length ∧
      (∀ c, some c ∈ [some 1, some 0, some 1] → c < threeNodes.nodes.length) ∧
      threeNodes.attach 2 [some 1, some 0, some 1]
        = ((threeNodes.attach 2 [some 1]).1, .error .cycle) ∧
      ((threeNodes.attach 2 [some 1]).1).children 2 = [1] ∧
      ((threeNodes.attach 2 [some 1]).1).children 0 = [2] := by
  have hnames : ∀ cs : List (Option Nat), (∀ c ∈ cs.filterMap id, c < 3) →
      ∀ c, some c ∈ cs → c < 3 := fun cs h c hc => h c (List.mem_filterMap.mpr ⟨some c, hc, rfl⟩)
  have hreach : threeNodes.Reachable :=
    .attach (.new "c" (.new "b" (.new "a" .empty))) (by decide) (hnames _ (by decide))
  have hnamed : ∀ c, some c ∈ [some 1, some 0, some 1] → c < threeNodes.nodes.length :=
    hnames _ (by decide)
  have hfirst : ∀ c, some c ∈ [some 1] → c < threeNodes.nodes.length := hnames _ (by decide)
  have hforest := (always_forest hreach).2.2
  have hok : threeNodes.attach 2 [some 1] = ((threeNodes.attach 2 [some 1]).1, .ok ()) := rfl
  have habove : ((threeNodes.attach 2 [some 1]).1).Above 0 2 := .step rfl .self
  obtain ⟨hhome, hothers, -⟩ := (hforest 2 [some 1] (by decide) hfirst).2 _ hok
  refine ⟨hreach, by decide, hnamed, ?_, hhome, hothers 0 (by decide)⟩
  exact ((hforest 2 _ (by decide) hnamed).1 _).mpr ⟨[some 1], 0, [some 1], rfl, hok, habove⟩

end Forest

end Formulary
