import Formulary.Proofs.Traversal
import Mathlib.Data.Set.List

/-!
# Copies

A copy of a node with all below it is made in the store that the node stands in: a new node, to
which the copies of the children are attached one by one, while the children are read from the node.
Nothing is lost or put into another order on the way, because what is attached is always new
(`copyFrom_plants`), so what a copy does to the store can be said of the tree that is copied
(`plant_planted`).

What is kept is said by one relation (`Grown`): the nodes that were there keep their values, parents
and children, except for the children of the one node that something is attached to.  Trees that
this node does not belong to are seen as before (`Grown.values_eq`). -/

namespace Formulary.Forest

variable {α : Type} {f f' : Forest α} {n m c r x : Nat} {home : Option Nat} {t : Tree α}

/-! ## 1. The values below a node -/

theorem WellLinked.values_eq (h : f.WellLinked) (n : Nat) :
    f.values n = .node (f.value? n) ((f.children n).map f.values) := by
  rw [values, h.places_eq, Tree.map, Tree.mapList_eq, List.map_map]
  rfl

/-- **The values below a node depend on the nodes below it only.** -/
theorem values_congr (h : f.WellLinked) (h' : f'.WellLinked) (n : Nat)
    (hsame : ∀ x, f.Above n x → f'.value? x = f.value? x ∧ f'.children x = f.children x) :
    f'.values n = f.values n := by
  induction n using h.induction with
  | step n ih =>
    obtain ⟨hvalue, hchildren⟩ := hsame n .self
    rw [h.values_eq, h'.values_eq, hvalue, hchildren]
    refine congrArg _ (List.map_congr_left fun c hc => ih c hc fun x hx => hsame x ?_)
    exact h.above_iff.mpr (.inr ⟨c, hc, hx⟩)

theorem exists_value (hn : n < f.nodes.length) : ∃ v, f.value? n = some v :=
  ⟨f.nodes[n].value, by simp [value?, List.getElem?_eq_getElem hn]⟩

/-- All below a node of the store has a value. -/
theorem WellLinked.exists_values (h : f.WellLinked) (hn : n < f.nodes.length) :
    ∃ t : Tree α, f.values n = t.map some := by
  induction n using h.induction with
  | step n ih =>
    obtain ⟨v, hv⟩ := exists_value hn
    have hbelow : (f.children n).map f.values ∈ Set.range (List.map (Tree.map some)) := by
      rw [Set.range_list_map]
      intro u hu
      obtain ⟨c, hc, rfl⟩ := List.mem_map.mp hu
      obtain ⟨t, ht⟩ := ih c hc (lt_of_parent ((h.linked n c).mp hc))
      exact ⟨t, ht.symm⟩
    obtain ⟨ts, hts⟩ := hbelow
    exact ⟨.node v ts, by rw [h.values_eq, hv, ← hts, Tree.map, Tree.mapList_eq]⟩

/-- What stands below a node of the store is a node of the store. -/
theorem Above.lt (h : f.Above n x) (hn : n < f.nodes.length) : x < f.nodes.length := by
  cases h with
  | self => exact hn
  | step hp _ => exact lt_of_parent hp

/-- **No node is higher than the store is large.** -/
theorem WellLinked.height_lt (h : f.WellLinked) (hn : n < f.nodes.length) :
    (f.places n).height < f.nodes.length := by
  obtain ⟨m, hm, hdepth⟩ := h.exists_depth_eq n
  have hline := h.length_lineFrom_le f.nodes.length (hm.lt hn)
  rw [depth, depth, line] at hdepth
  omega

/-! ## 2. What is kept -/

/-- `f'` has the nodes of `f` and perhaps more.  Those of `f` are as they were, but new nodes may
have come to the children of `home`. -/
structure Grown (f : Forest α) (home : Option Nat) (f' : Forest α) : Prop where
  length : f.nodes.length ≤ f'.nodes.length
  value : ∀ x < f.nodes.length, f'.value? x = f.value? x
  parent : ∀ x < f.nodes.length, f'.parent? x = f.parent? x
  children : ∀ x < f.nodes.length, home ≠ some x → f'.children x = f.children x

namespace Grown

theorem refl (f : Forest α) (home : Option Nat) : Grown f home f :=
  ⟨Nat.le_refl _, fun _ _ => rfl, fun _ _ => rfl, fun _ _ _ => rfl⟩

theorem trans {f₁ : Forest α} (h : Grown f home f₁) (h' : Grown f₁ home f') : Grown f home f' where
  length := Nat.le_trans h.length h'.length
  value x hx := (h'.value x (Nat.lt_of_lt_of_le hx h.length)).trans (h.value x hx)
  parent x hx := (h'.parent x (Nat.lt_of_lt_of_le hx h.length)).trans (h.parent x hx)
  children x hx hne :=
    (h'.children x (Nat.lt_of_lt_of_le hx h.length) hne).trans (h.children x hx hne)

/-- What a new node gets is nothing to the nodes that were there. -/
theorem of_fresh (h : Grown f (some r) f') (hr : f.nodes.length ≤ r) : Grown f none f' where
  length := h.length
  value := h.value
  parent := h.parent
  children x hx _ := h.children x hx fun heq => by
    rw [Option.some.inj heq] at hr
    omega

/-- Nothing new is above a node that was there. -/
theorem above (h : Grown f home f') (hf : f.WellLinked) {a b : Nat} (hb : b < f.nodes.length)
    (hab : f'.Above a b) : f.Above a b := by
  induction hab with
  | self => exact .self
  | @step b p hp _ ih =>
    rw [h.parent b hb] at hp
    exact .step hp (ih (hf.inside b p hp))

/-- A new node is not above one that was there. -/
theorem not_above (h : Grown f home f') (hf : f.WellLinked) (hm : f.nodes.length ≤ m)
    (hr : r < f.nodes.length) : ¬ f'.Above m r := fun habove => by
  have hlt := hf.lt_of_above (h.above hf hr habove) hr
  omega

/-- **A tree that nothing is attached to is seen as before.** -/
theorem values_eq (h : Grown f home f') (hf : f.WellLinked) (hf' : f'.WellLinked)
    (hn : n < f.nodes.length) (hhome : ∀ r, home = some r → ¬ f.Above n r) :
    f'.values n = f.values n := by
  refine values_congr hf hf' n fun x hx => ⟨h.value x (hx.lt hn), ?_⟩
  exact h.children x (hx.lt hn) fun heq => hhome x heq hx

end Grown

/-- A new node changes nothing else. -/
theorem grown_new (f : Forest α) (home : Option Nat) (v : α) : Grown f home (f.new v).1 where
  length := by simp [new]
  value x hx := by simp [value?, new, List.getElem?_append_left hx]
  parent x _ := parent?_new v x
  children x _ _ := children_new v x

theorem parent?_root (f : Forest α) (v : α) : (f.new v).1.parent? (f.new v).2 = none := by
  rw [parent?_new, parent?, new, List.getElem?_eq_none (Nat.le_refl _)]
  rfl

/-! ## 3. A tree is planted -/

/-- `m` is the root of a new tree with the values of `t`, and the rest is kept. -/
structure Planted (f : Forest α) (t : Tree α) (f' : Forest α) (m : Nat) : Prop where
  reachable : f'.Reachable
  grown : Grown f none f'
  fresh : f.nodes.length ≤ m
  inside : m < f'.nodes.length
  root : f'.parent? m = none
  values : f'.values m = t.map some

/-- The tree with the root `m` and the values of `t` was attached to `r`, behind its children. -/
structure Joined (f : Forest α) (r : Nat) (t : Tree α) (f' : Forest α) (m : Nat) : Prop where
  reachable : f'.Reachable
  grown : Grown f (some r) f'
  children : f'.children r = f.children r ++ [m]
  fresh : f.nodes.length ≤ m
  inside : m < f'.nodes.length
  values : f'.values m = t.map some

/-- No node loses a child when a root is attached. -/
theorem Moved.children_of_root (h : Moved f c (some r) f') (hf : f.WellLinked)
    (hroot : f.parent? c = none) (x : Nat) :
    f'.children x = f.children x ++ if some r = some x then [c] else [] := by
  rw [h.children, List.filter_eq_self.mpr]
  intro child hchild
  have hne : child ≠ c := by
    rintro rfl
    have hparent := (hf.linked x child).mp hchild
    rw [hroot] at hparent
    cases hparent
  simpa using hne

/-- **A new tree can be attached to any node that was there**, and comes behind its children. -/
theorem Planted.attach (h : Planted f t f' m) (hf : f.WellLinked) (hr : r < f.nodes.length) :
    ∃ f₂, f'.attach r [some m] = (f₂, .ok ()) ∧ Joined f r t f₂ m := by
  have hf' := h.reachable.wellLinked
  have hr' := Nat.lt_of_lt_of_le hr h.grown.length
  have hfree := h.grown.not_above hf h.fresh hr
  rcases hf'.attachOne_cases hr' h.inside with ⟨habove, -⟩ | ⟨-, f₂, hone, hmoved⟩
  · exact absurd habove hfree
  have hattach : f'.attach r [some m] = (f₂, .ok ()) := by simp [Forest.attach, hone]
  have hreach : f₂.Reachable := by
    have hnames : ∀ c, some c ∈ [some m] → c < f'.nodes.length := by
      intro c hc
      rw [Option.some.inj (List.mem_singleton.mp hc)]
      exact h.inside
    have hcall := h.reachable.attach hr' hnames
    rwa [hattach] at hcall
  have hchildren := hmoved.children_of_root hf' h.root
  have hother : ∀ x, x ≠ r → f₂.children x = f'.children x := fun x hx => by
    rw [hchildren, if_neg fun heq => hx (Option.some.inj heq).symm, List.append_nil]
  have hgrown : Grown f (some r) f₂ :=
    { length := hmoved.length ▸ h.grown.length
      value := fun x hx => by rw [hmoved.value, h.grown.value x hx]
      parent := fun x hx => by
        have hne : x ≠ m := Nat.ne_of_lt (Nat.lt_of_lt_of_le hx h.fresh)
        rw [hmoved.parent, if_neg hne, h.grown.parent x hx]
      children := fun x hx hne => by
        rw [hother x fun heq => hne (congrArg some heq.symm), h.grown.children x hx (by simp)] }
  -- the new tree is seen as before, because `r` does not belong to it
  have hvalues : f₂.values m = f'.values m := values_congr hf' hreach.wellLinked m fun x hx =>
    ⟨hmoved.value x, hother x fun heq => hfree (heq ▸ hx)⟩
  refine ⟨f₂, hattach, hreach, hgrown, ?_, h.fresh, hmoved.length ▸ h.inside,
    hvalues.trans h.values⟩
  rw [hchildren, if_pos rfl, h.grown.children r hr (by simp)]

mutual

/-- **Planting a tree makes a new tree** and keeps all that was there. -/
theorem plant_planted : ∀ (t : Tree α) {f : Forest α}, f.Reachable →
    Planted f t (f.plant t).1 (f.plant t).2
  | .node v ts, f, h => by
    have hroot : (f.new v).2 < (f.new v).1.nodes.length := by simp [new]
    have hnew : f.nodes.length ≤ (f.new v).2 := Nat.le_refl _
    obtain ⟨hreach, hgrown, cs, hchildren, hvalues⟩ := plantList_grown ts (h.new v) hroot
    have hnone : (f.new v).1.children (f.new v).2 = [] := by
      rw [children_new, children, List.getElem?_eq_none hnew]
      rfl
    have hvalue : (f.new v).1.value? (f.new v).2 = some v := by simp [value?, new]
    refine ⟨hreach, ((grown_new f _ v).trans hgrown).of_fresh hnew, hnew, ?_, ?_, ?_⟩
    · exact Nat.lt_of_lt_of_le hroot hgrown.length
    · rw [plant, hgrown.parent _ hroot, parent?_root]
    · rw [plant, hreach.wellLinked.values_eq, hgrown.value _ hroot, hvalue, hchildren, hnone,
        List.nil_append, hvalues, Tree.map, Tree.mapList_eq]

/-- The trees come behind the children that the node has. -/
theorem plantList_grown : ∀ (ts : List (Tree α)) {f : Forest α} {r : Nat}, f.Reachable →
    r < f.nodes.length → (f.plantList r ts).Reachable ∧ Grown f (some r) (f.plantList r ts) ∧
    ∃ cs, (f.plantList r ts).children r = f.children r ++ cs ∧
      cs.map (f.plantList r ts).values = ts.map (Tree.map some)
  | [], f, r, h, _ => ⟨h, .refl f _, [], (List.append_nil _).symm, rfl⟩
  | t :: ts, f, r, h, hr => by
    obtain ⟨f₂, hattach, hjoined⟩ := (plant_planted t h).attach h.wellLinked hr
    have hr₂ := Nat.lt_of_lt_of_le hr hjoined.grown.length
    obtain ⟨hreach, hgrown, cs, hchildren, hvalues⟩ := plantList_grown ts hjoined.reachable hr₂
    have hapart := hjoined.grown.not_above h.wellLinked hjoined.fresh hr
    have hfirst := hgrown.values_eq hjoined.reachable.wellLinked hreach.wellLinked hjoined.inside
      fun r' heq => Option.some.inj heq ▸ hapart
    rw [plantList]
    simp only [hattach]
    refine ⟨hreach, hjoined.grown.trans hgrown, (f.plant t).2 :: cs, ?_, ?_⟩
    · rw [hchildren, hjoined.children, List.append_assoc]
      rfl
    · rw [List.map_cons, List.map_cons, hvalues, hfirst, hjoined.values]

end

/-! ## 4. A copy is a planted tree -/

section Copying

variable {change : α → α}

/-- What copying a node comes to: a new tree is planted. -/
def Plants (change : α → α)
    (copy : Forest α → Option Nat → Option (Forest α × Except ForestError (Option Nat)))
    (t : Tree α) : Prop :=
  ∀ {f : Forest α} {n : Nat}, f.Reachable → n < f.nodes.length → f.values n = t.map some →
    copy f (some n) = some ((f.plant (t.map change)).1, .ok (some (f.plant (t.map change)).2))

/-- **The children are read as they were**, whatever was attached to `r` in between, and so each of
them is copied, in their order. -/
theorem copyChildren_eq_plantList
    {copy : Forest α → Option Nat → Option (Forest α × Except ForestError (Option Nat))}
    {ts : List (Tree α)} (hcopy : ∀ t ∈ ts, Plants change copy t) {i : Nat} (h : f.Reachable)
    (hn : n < f.nodes.length) (hr : r < f.nodes.length) (hapart : ¬ f.Above n r)
    (hts : ((f.children n).drop i).map f.values = ts.map (Tree.map some)) :
    copyChildren copy n r (List.range' i ts.length) f
      = some (f.plantList r (Tree.mapList change ts), .ok ()) := by
  induction ts generalizing f i with
  | nil => rfl
  | cons t ts ih =>
    have hf := h.wellLinked
    obtain ⟨c, cs, hdrop, hc, hcs⟩ := List.map_eq_cons_iff.mp hts
    have hget : (f.children n)[i]? = some c := by
      have hhead := congrArg (·[0]?) hdrop
      simpa using hhead
    have hchild := (hf.linked n c).mp (List.mem_of_getElem? hget)
    obtain ⟨f₂, hattach, hjoined⟩ := (plant_planted (t.map change) h).attach hf hr
    have hgrown := hjoined.grown
    have hchildren : f₂.children n = f.children n :=
      hgrown.children n hn fun heq => hapart (Option.some.inj heq ▸ .self)
    have hothers : ((f₂.children n).drop (i + 1)).map f₂.values = ts.map (Tree.map some) := by
      rw [hchildren, ← List.tail_drop, hdrop, List.tail_cons, ← hcs]
      refine List.map_congr_left fun x hx => ?_
      have hmem : x ∈ f.children n := List.mem_of_mem_drop (hdrop ▸ List.mem_cons_of_mem c hx)
      have hparent := (hf.linked n x).mp hmem
      refine hgrown.values_eq hf hjoined.reachable.wellLinked (lt_of_parent hparent) ?_
      rintro r' ⟨rfl⟩ habove
      exact hapart (hf.above_iff.mpr (.inr ⟨x, hmem, habove⟩))
    have hrest := ih (fun u hu => hcopy u (List.mem_cons_of_mem t hu)) hjoined.reachable
      (Nat.lt_of_lt_of_le hn hgrown.length) (Nat.lt_of_lt_of_le hr hgrown.length)
      (fun habove => hapart (hgrown.above hf hr habove)) hothers
    have hfirst := hcopy t List.mem_cons_self h (lt_of_parent hchild) hc
    rw [List.length_cons, List.range'_succ, copyChildren, hget]
    simp only [hfirst, hattach]
    rw [hrest, Tree.mapList, plantList]
    simp only [hattach]

/-- **Copying a node plants the tree of its values**, if there are enough steps for its height. -/
theorem copyFrom_plants (change : α → α) (steps : Nat) (t : Tree α) (ht : t.height < steps) :
    Plants change (copyFrom change steps) t := by
  induction steps generalizing t with
  | zero => exact absurd ht (Nat.not_lt_zero _)
  | succ steps ih =>
    intro f n h hn hvalues
    obtain ⟨v, ts⟩ := t
    have hf := h.wellLinked
    rw [hf.values_eq, Tree.map, Tree.mapList_eq] at hvalues
    obtain ⟨hvalue, hts⟩ := Tree.node.inj hvalues
    have hbelow : ∀ t ∈ ts, Plants change (copyFrom change steps) t := fun t ht' => ih t (by
      have hlt := Tree.height_lt_heightList ht'
      rw [Tree.height] at ht
      omega)
    have hroot : (f.new (change v)).2 < (f.new (change v)).1.nodes.length := by simp [new]
    have hgrown := grown_new f none (change v)
    have hapart : ¬ (f.new (change v)).1.Above n (f.new (change v)).2 := fun habove => by
      cases habove with
      | self => exact Nat.lt_irrefl _ hn
      | step hp _ =>
        rw [parent?_root] at hp
        cases hp
    have hchildren : (((f.new (change v)).1.children n).drop 0).map (f.new (change v)).1.values
        = ts.map (Tree.map some) := by
      rw [List.drop_zero, children_new, ← hts]
      exact List.map_congr_left fun c hc => hgrown.values_eq hf (h.new (change v)).wellLinked
        (lt_of_parent ((hf.linked n c).mp hc)) (by simp)
    have hall := copyChildren_eq_plantList hbelow (h.new (change v))
      (Nat.lt_of_lt_of_le hn hgrown.length) hroot hapart hchildren
    have hlength : ((f.new (change v)).1.children n).length = ts.length := by
      simpa using congrArg List.length hchildren
    rw [copyFrom, hvalue]
    simp only [hlength, List.range_eq_range', hall]
    rfl

end Copying

/-! ## 5. Copies -/

/-- `m` is a copy of `n` that was made in `f`, with `change` applied to the values, and `f'` is what
the store has become. -/
structure Copied (f : Forest α) (change : α → α) (n : Nat) (f' : Forest α) (m : Nat) : Prop where
  /-- The copy comes to an end and attaches no node below itself. -/
  made : f.copy change (some n) = some (f', .ok (some m))
  reachable : f'.Reachable
  linked : f'.WellLinked
  /-- The nodes that were there have their values, parents and children. -/
  kept : Grown f none f'
  root : f'.parent? m = none
  inside : m < f'.nodes.length
  /-- No node belongs to the copy and to a tree that was there. -/
  apart : ∀ a x, a < f.nodes.length → f'.Above a x → ¬ f'.Above m x
  values : f'.values m = (f.values n).map (Option.map change)

section Copies

variable {change : α → α}

/-- **Every node has a copy.** -/
theorem exists_copied (h : f.Reachable) (hn : n < f.nodes.length) (change : α → α) :
    ∃ f' m, Copied f change n f' m := by
  have hf := h.wellLinked
  obtain ⟨t, ht⟩ := hf.exists_values hn
  have hheight : t.height < f.nodes.length + 1 := by
    have hlt := hf.height_lt hn
    rw [← Tree.height_map f.value?, ← values, ht, Tree.height_map] at hlt
    exact Nat.lt_succ_of_lt hlt
  have hplanted := plant_planted (t.map change) h
  refine ⟨_, _, copyFrom_plants change _ t hheight h hn ht, hplanted.reachable,
    hplanted.reachable.wellLinked, hplanted.grown, hplanted.root, hplanted.inside,
    fun a x ha hax hmx => ?_, ?_⟩
  · have hold := hplanted.grown.not_above hf hplanted.fresh ha
    rcases WellLinked.above_or_above hax hmx with ham | hma
    · cases ham with
      | self => exact hold .self
      | step hp _ =>
        rw [hplanted.root] at hp
        cases hp
    · exact hold hma
  · rw [hplanted.values, ht, Tree.map_map, Tree.map_map]
    rfl

/-- What was there before a copy is made is seen as before. -/
theorem Copied.values_old (h : Copied f change n f' m) (hf : f.WellLinked) {a : Nat}
    (ha : a < f.nodes.length) : f'.values a = f.values a :=
  h.kept.values_eq hf h.linked ha (by simp)

/-- **Two copies of one tree are the same**, if the values that were made are the same as
themselves. -/
theorem same_of_values {eq : α → α → Bool} {a b : Nat} (hf : f.WellLinked)
    (hn : n < f.nodes.length) (ha : f'.values a = (f.values n).map (Option.map change))
    (hb : f'.values b = (f.values n).map (Option.map change))
    (hself : ∀ x v, f.Above n x → f.value? x = some v → eq (change v) (change v) = true) :
    f'.same eq (some a) (some b) = true := by
  rw [same, ha, hb]
  refine Tree.sameBy_self fun v hv => ?_
  rw [values, Tree.map_map, Tree.downward_map] at hv
  obtain ⟨x, hx, rfl⟩ := List.mem_map.mp hv
  have habove := (hf.traverses_downward.mem_iff hf n x).mp hx
  obtain ⟨w, hw⟩ := exists_value (habove.lt hn)
  simpa [hw, sameValue] using hself x w habove hw

/-- **Copies of trees that are the same are the same**, if `change` keeps that. -/
theorem same_of_same {eq : α → α → Bool} {a b a' b' : Nat} (h : f.same eq (some a) (some b) = true)
    (hchange : ∀ v w, eq v w = true → eq (change v) (change w) = true)
    (ha : f'.values a' = (f.values a).map (Option.map change))
    (hb : f'.values b' = (f.values b).map (Option.map change)) :
    f'.same eq (some a') (some b') = true := by
  rw [same, ha, hb]
  refine Tree.sameBy_map ?_ h
  rintro (_ | v) (_ | w) heq
  · cases heq
  · cases heq
  · cases heq
  · exact hchange v w heq

/-- **A copy is a tree of its own.**  In every store that can be reached:

* every node has a copy, made without an attempt to attach a node below itself, with all the
  properties of `Copied`;
* a copy with the same values is the same as the tree;
* a copy of a copy is the same as a copy that makes both changes at once;
* copies of trees that are the same are the same, if the change keeps that.

Where values need not be the same as themselves, trees are still alike in their values. -/
theorem copy_apart (h : f.Reachable) (hn : n < f.nodes.length) (change : α → α) :
    (∃ f' m, Copied f change n f' m) ∧
    (∃ f' m, Copied f id n f' m ∧ f'.values m = f'.values n ∧
      ∀ eq : α → α → Bool, (∀ x v, f.Above n x → f.value? x = some v → eq v v = true) →
        f'.same eq (some m) (some n) = true) ∧
    (∀ again : α → α, ∃ f₁ m₁ f₂ m₂ f₃ m₃,
      Copied f change n f₁ m₁ ∧ Copied f₁ again m₁ f₂ m₂ ∧ Copied f₂ (again ∘ change) n f₃ m₃ ∧
      f₃.values m₂ = f₃.values m₃ ∧
      ∀ eq : α → α → Bool, (∀ x v, f.Above n x → f.value? x = some v →
          eq (again (change v)) (again (change v)) = true) →
        f₃.same eq (some m₂) (some m₃) = true) ∧
    ∀ (eq : α → α → Bool) (b : Nat), b < f.nodes.length → f.same eq (some n) (some b) = true →
      (∀ v w, eq v w = true → eq (change v) (change w) = true) →
      ∃ f₁ m₁ f₂ m₂, Copied f change n f₁ m₁ ∧ Copied f₁ change b f₂ m₂ ∧
        f₂.same eq (some m₁) (some m₂) = true := by
  have hf := h.wellLinked
  obtain ⟨f₁, m₁, h₁⟩ := exists_copied h hn change
  refine ⟨⟨f₁, m₁, h₁⟩, ?_, fun again => ?_, fun eq b hb hsame hchange => ?_⟩
  · obtain ⟨f', m, hcopied⟩ := exists_copied h hn id
    have hcopy := hcopied.values
    have hid : (f.values n).map (Option.map id) = f.values n := by
      rw [Option.map_id]
      exact Tree.map_id _
    have hold := (hcopied.values_old hf hn).trans hid.symm
    exact ⟨f', m, hcopied, hcopy.trans hold.symm, fun eq hself =>
      same_of_values hf hn hcopy hold hself⟩
  · have hn₁ := Nat.lt_of_lt_of_le hn h₁.kept.length
    obtain ⟨f₂, m₂, h₂⟩ := exists_copied h₁.reachable h₁.inside again
    have hn₂ := Nat.lt_of_lt_of_le hn₁ h₂.kept.length
    obtain ⟨f₃, m₃, h₃⟩ := exists_copied h₂.reachable hn₂ (again ∘ change)
    have htwice : f₃.values m₂ = (f.values n).map (Option.map (again ∘ change)) := by
      rw [h₃.values_old h₂.linked h₂.inside, h₂.values, h₁.values, Tree.map_map,
        Option.map_comp_map]
    have honce : f₃.values m₃ = (f.values n).map (Option.map (again ∘ change)) := by
      rw [h₃.values, h₂.values_old h₁.linked hn₁, h₁.values_old hf hn]
    exact ⟨f₁, m₁, f₂, m₂, f₃, m₃, h₁, h₂, h₃, htwice.trans honce.symm, fun eq hself =>
      same_of_values hf hn htwice honce hself⟩
  · obtain ⟨f₂, m₂, h₂⟩ := exists_copied h₁.reachable (Nat.lt_of_lt_of_le hb h₁.kept.length) change
    have hfirst : f₂.values m₁ = (f.values n).map (Option.map change) :=
      (h₂.values_old h₁.linked h₁.inside).trans h₁.values
    have hsecond : f₂.values m₂ = (f.values b).map (Option.map change) := by
      rw [h₂.values, h₁.values_old hf hb]
    exact ⟨f₁, m₁, f₂, m₂, h₁, h₂, same_of_same hsame hchange hfirst hsecond⟩

/-- **A copy is made of what a node has now**: `d` was moved below `c` and is copied with it, and
both stay where they are. -/
theorem copy_apart_movedNode :
    let twice := fun v : String => v ++ v
    movedNode.Reachable ∧ 2 < movedNode.nodes.length ∧
      (∃ f' m, Copied movedNode twice 2 f' m ∧ f'.parent? 2 = some 0 ∧ f'.children 2 = [3] ∧
        f'.values m = .node (some "cc") [.leaf (some "dd")]) ∧
      (∃ f' m, Copied movedNode id 2 f' m ∧ f'.same (· == ·) (some m) (some 2) = true) ∧
      ∃ f₁ m₁ f₂ m₂, Copied movedNode twice 2 f₁ m₁ ∧ Copied f₁ twice 2 f₂ m₂ ∧
        f₂.same (· == ·) (some m₁) (some m₂) = true := by
  intro twice
  have hinside : 2 < movedNode.nodes.length := by decide
  have hvalues : movedNode.values 2 = .node (some "c") [.leaf (some "d")] := rfl
  have hsame : movedNode.same (· == ·) (some 2) (some 2) = true := by decide
  obtain ⟨⟨f', m, hcopied⟩, ⟨g, k, hid, -, hequal⟩, -, hboth⟩ :=
    copy_apart movedNode_reachable hinside twice
  refine ⟨movedNode_reachable, hinside, ⟨f', m, hcopied, ?_, ?_, ?_⟩, ?_, ?_⟩
  · exact (hcopied.kept.parent 2 hinside).trans rfl
  · exact (hcopied.kept.children 2 hinside (by simp)).trans rfl
  · rw [hcopied.values, hvalues]
    rfl
  · exact ⟨g, k, hid, hequal (· == ·) fun _ v _ _ => beq_self_eq_true v⟩
  · exact hboth (· == ·) 2 hinside hsame fun v w heq => by
      rw [eq_of_beq heq]
      exact beq_self_eq_true _

end Copies

end Formulary.Forest
