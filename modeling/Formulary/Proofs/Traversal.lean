import Formulary.Proofs.Forest
import Formulary.Proofs.Tree.Walks
import Mathlib.Data.List.Flatten

/-!
# Walks through a forest

What stands below a node is found by the links to children, and what stands above it by the links to
parents.  In a forest both tell the same: the walks down and up show the nodes at and below a node,
each once and in the order of the children; they show as many nodes as its size says; and its height
is the greatest number of edges by which one of them is deeper than the node itself.

1. The store is large enough: a node with its subtrees is what the links say
   (`WellLinked.places_eq`), and nodes can be reasoned about from the children up
   (`WellLinked.induction`).
2. What both walks have in common (`Traverses`): the node itself is put somewhere into the lists of
   its children.
3. Heights, depths and roots.
4. All of it in every store that can be reached. -/

namespace Formulary.Forest

variable {α : Type} {f : Forest α} {n m c p a b x y : Nat}

/-! ## 1. Subtrees -/

theorem line_ne_nil (hn : n < f.nodes.length) : f.line n ≠ [] := by
  obtain ⟨k, hk⟩ := Nat.exists_eq_succ_of_ne_zero (Nat.ne_zero_of_lt hn)
  rw [line, hk, lineFrom]
  exact List.cons_ne_nil _ _

namespace WellLinked

/-- **The line of a child** is that of its parent with the child in front. -/
theorem line_child (h : f.WellLinked) (hc : f.parent? c = some n) :
    f.line c = c :: f.line n := by
  have hle := h.length_lineFrom_le (f.nodes.length + 1) (lt_of_parent hc)
  rw [line, ← lineFrom_take, List.take_of_length_le hle, lineFrom, hc]
  rfl

/-- Further down than the store is large there is nothing. -/
theorem placesFrom_succ (h : f.WellLinked) (steps : Nat)
    (hn : f.nodes.length ≤ steps + (f.line n).length) :
    f.placesFrom (steps + 1) n = f.placesFrom steps n := by
  induction steps generalizing n with
  | zero =>
    have hnone : f.children n = [] := List.eq_nil_iff_forall_not_mem.mpr fun c hc => by
      have hparent := (h.linked n c).mp hc
      have hle := h.length_lineFrom_le f.nodes.length (lt_of_parent hparent)
      have hline := congrArg List.length (h.line_child hparent)
      rw [line, List.length_cons] at hline
      omega
    rw [placesFrom, placesFrom, hnone]
    rfl
  | succ steps ih =>
    rw [placesFrom, placesFrom]
    congr 1
    refine List.map_congr_left fun c hc => ih ?_
    rw [h.line_child ((h.linked n c).mp hc), List.length_cons]
    omega

/-- **A node has the subtrees of its children.** -/
theorem places_eq (h : f.WellLinked) (n : Nat) :
    f.places n = .node n ((f.children n).map f.places) := by
  rw [places, ← h.placesFrom_succ f.nodes.length (Nat.le_add_right _ _)]
  rfl

/-- **Induction from the children up.** -/
theorem induction (h : f.WellLinked) {motive : Nat → Prop}
    (step : ∀ n, (∀ c ∈ f.children n, motive c) → motive n) (n : Nat) : motive n := by
  generalize ht : f.places n = t
  induction t using Tree.induction generalizing n with
  | node v ts ih =>
    rw [h.places_eq] at ht
    obtain ⟨-, rfl⟩ := Tree.node.inj ht
    exact step n fun c hc => ih (f.places c) (List.mem_map_of_mem hc) c rfl

/-- What stands at or below a node is the node, or stands at or below a child of it. -/
theorem above_iff (h : f.WellLinked) :
    f.Above n m ↔ m = n ∨ ∃ c ∈ f.children n, f.Above c m := by
  constructor
  · intro habove
    induction habove with
    | self => exact .inl rfl
    | @step m p hp _ ih =>
      rcases ih with rfl | ⟨c, hc, habove⟩
      · exact .inr ⟨m, (h.linked p m).mpr hp, .self⟩
      · exact .inr ⟨c, hc, .step hp habove⟩
  · rintro (rfl | ⟨c, hc, habove⟩)
    · exact .self
    · exact (Above.step ((h.linked n c).mp hc) .self).trans habove

/-- No node stands at or below one of its children. -/
theorem not_above_parent (h : f.WellLinked) (hc : c ∈ f.children n) : ¬ f.Above c n :=
  h.acyclic c n ((h.linked n c).mp hc)

/-- Of two nodes above the same one, one is above the other. -/
theorem above_or_above (ha : f.Above a m) (hb : f.Above b m) : f.Above a b ∨ f.Above b a := by
  induction ha with
  | self => exact .inr hb
  | @step m p hp ha ih =>
    cases hb with
    | self => exact .inl (.step hp ha)
    | step hp' hb =>
      obtain rfl := Option.some.inj (hp.symm.trans hp')
      exact ih hb

/-- **Siblings have nothing below them in common.** -/
theorem siblings_apart (h : f.WellLinked) (ha : a ∈ f.children n) (hb : b ∈ f.children n)
    (hne : a ≠ b) (hax : f.Above a x) (hbx : f.Above b x) : False := by
  have hbelow : ∀ {a b}, a ∈ f.children n → b ∈ f.children n → a ≠ b → ¬ f.Above a b := by
    intro a b ha hb hne habove
    cases habove with
    | self => exact hne rfl
    | step hp habove =>
      obtain rfl := Option.some.inj (((h.linked n b).mp hb).symm.trans hp)
      exact h.not_above_parent ha habove
  rcases above_or_above hax hbx with hab | hba
  · exact hbelow ha hb hne hab
  · exact hbelow hb ha hne.symm hba

end WellLinked

/-! ## 2. Walks -/

/-- `walk n` is a list of the nodes at and below `n`, made from the lists of its children, one
behind the other, and the node itself. -/
structure Traverses (f : Forest α) (walk : Nat → List Nat) : Prop where
  once : ∀ n, (walk n).Perm (n :: (f.children n).flatMap walk)
  inOrder : ∀ n, ((f.children n).flatMap walk).Sublist (walk n)

/-- The nodes at and below `n` stand in the list, each of them once; and what stands at or below a
child stands before what stands at or below a later child of the same parent. -/
structure Lists (f : Forest α) (n : Nat) (nodes : List Nat) : Prop where
  nodup : nodes.Nodup
  mem : ∀ m, m ∈ nodes ↔ f.Above n m
  siblings : ∀ p a b x y, f.Above n p → [a, b].Sublist (f.children p) → f.Above a x →
    f.Above b y → [x, y].Sublist nodes

/-- What is made from the first of two values stands before what is made from the second. -/
theorem sublist_flatMap_of_pair {l : List Nat} {g : Nat → List Nat} (h : [a, b].Sublist l)
    (hx : x ∈ g a) (hy : y ∈ g b) : [x, y].Sublist (l.flatMap g) := by
  have hpair : [x, y].Sublist ([a, b].flatMap g) := by
    rw [List.flatMap_cons, List.flatMap_singleton]
    exact (List.singleton_sublist.mpr hx).append (List.singleton_sublist.mpr hy)
  exact hpair.trans (h.flatMap g)

namespace Traverses

variable {walk : Nat → List Nat}

/-- **Just the nodes at and below are shown.** -/
theorem mem_iff (h : f.Traverses walk) (hf : f.WellLinked) (n m : Nat) :
    m ∈ walk n ↔ f.Above n m := by
  induction n using hf.induction with
  | step n ih =>
    rw [(h.once n).mem_iff, List.mem_cons, List.mem_flatMap, hf.above_iff]
    exact or_congr_right (exists_congr fun c => and_congr_right fun hc => ih c hc)

/-- **No node is shown twice.** -/
theorem nodup (h : f.Traverses walk) (hf : f.WellLinked) (n : Nat) : (walk n).Nodup := by
  induction n using hf.induction with
  | step n ih =>
    rw [(h.once n).nodup_iff, List.nodup_cons, List.mem_flatMap, List.nodup_flatMap]
    refine ⟨?_, ih, ?_⟩
    · rintro ⟨c, hc, hmem⟩
      exact hf.not_above_parent hc ((h.mem_iff hf c n).mp hmem)
    · refine (hf.nodup n).imp_of_mem ?_
      intro a b ha hb hne x hax hbx
      exact hf.siblings_apart ha hb hne ((h.mem_iff hf a x).mp hax) ((h.mem_iff hf b x).mp hbx)

/-- What is shown below a child is shown below its parent, in the same order. -/
theorem sublist_of_child (h : f.Traverses walk) (hc : c ∈ f.children n) :
    (walk c).Sublist (walk n) :=
  (List.sublist_flatten_of_mem (List.mem_map_of_mem hc)).trans (h.inOrder n)

/-- What is shown below any node is shown below the nodes above it, in the same order. -/
theorem sublist_of_above (h : f.Traverses walk) (hf : f.WellLinked) (hp : f.Above n p) :
    (walk p).Sublist (walk n) := by
  induction n using hf.induction with
  | step n ih =>
    rcases hf.above_iff.mp hp with rfl | ⟨c, hc, habove⟩
    · exact .refl _
    · exact (ih c hc habove).trans (h.sublist_of_child hc)

/-- **Siblings are shown in their order**, each with all below it. -/
theorem lists (h : f.Traverses walk) (hf : f.WellLinked) (n : Nat) : f.Lists n (walk n) where
  nodup := h.nodup hf n
  mem := h.mem_iff hf n
  siblings := by
    intro p a b x y hp hab hax hby
    have hpair := sublist_flatMap_of_pair hab ((h.mem_iff hf a x).mpr hax)
      ((h.mem_iff hf b y).mpr hby)
    exact hpair.trans ((h.inOrder p).trans (h.sublist_of_above hf hp))

end Traverses

namespace WellLinked

theorem downward_eq (h : f.WellLinked) (n : Nat) : (f.places n).downward
    = n :: (f.children n).flatMap fun c => (f.places c).downward := by
  rw [h.places_eq, Tree.downward, Tree.downwardList_eq, List.flatMap_map]

theorem upward_eq (h : f.WellLinked) (n : Nat) : (f.places n).upward
    = (f.children n).flatMap (fun c => (f.places c).upward) ++ [n] := by
  rw [h.places_eq, Tree.upward, Tree.upwardList_eq, List.flatMap_map]

theorem traverses_downward (h : f.WellLinked) :
    f.Traverses fun n => (f.places n).downward where
  once n := by rw [h.downward_eq]
  inOrder n := by
    rw [h.downward_eq n]
    exact List.sublist_cons_self _ _

theorem traverses_upward (h : f.WellLinked) : f.Traverses fun n => (f.places n).upward where
  once n := by
    rw [h.upward_eq n]
    exact List.perm_append_comm
  inOrder n := by
    rw [h.upward_eq n]
    exact List.sublist_append_left _ _

/-- **On the way down a node is shown before all below it.** -/
theorem downward_before (h : f.WellLinked) (ha : f.Above n a) (hb : f.Above a b) (hne : a ≠ b) :
    [a, b].Sublist (f.places n).downward := by
  have hwalk := h.traverses_downward
  have hbelow : b ∈ (f.places a).downward := (hwalk.mem_iff h a b).mpr hb
  refine List.Sublist.trans ?_ (hwalk.sublist_of_above h ha)
  rw [h.downward_eq] at hbelow ⊢
  have htail := (List.mem_cons.mp hbelow).resolve_left (Ne.symm hne)
  exact (List.singleton_sublist.mpr htail).cons_cons a

/-- **On the way up a node is shown after all below it.** -/
theorem upward_after (h : f.WellLinked) (ha : f.Above n a) (hb : f.Above a b) (hne : a ≠ b) :
    [b, a].Sublist (f.places n).upward := by
  have hwalk := h.traverses_upward
  have hbelow : b ∈ (f.places a).upward := (hwalk.mem_iff h a b).mpr hb
  refine List.Sublist.trans ?_ (hwalk.sublist_of_above h ha)
  rw [h.upward_eq] at hbelow ⊢
  have hfront := (List.mem_append.mp hbelow).resolve_right fun hmem =>
    hne (List.mem_singleton.mp hmem).symm
  exact (List.singleton_sublist.mpr hfront).append (.refl [a])

/-! ## 3. Height, depth and root -/

/-- A child is one edge deeper than its parent. -/
theorem depth_child (h : f.WellLinked) (hc : c ∈ f.children n) : f.depth c = f.depth n + 1 := by
  have hparent := (h.linked n c).mp hc
  have hpos := List.length_pos_iff.mpr (line_ne_nil (h.inside c n hparent))
  rw [depth, depth, h.line_child hparent, List.length_cons]
  omega

/-- A child has the root of its parent. -/
theorem root_child (h : f.WellLinked) (hc : c ∈ f.children n) : f.root c = f.root n := by
  have hparent := (h.linked n c).mp hc
  have hline := line_ne_nil (h.inside c n hparent)
  rw [root, root, h.line_child hparent, List.getLastD_cons, List.getLastD_eq_getLast?,
    List.getLastD_eq_getLast?, List.getLast?_eq_some_getLast hline]
  rfl

/-- **All below a node has the same root.** -/
theorem root_eq (h : f.WellLinked) (hm : f.Above n m) : f.root m = f.root n := by
  induction hm with
  | self => rfl
  | @step m p hp _ ih => exact (h.root_child ((h.linked p m).mpr hp)).trans ih

theorem depth_le (h : f.WellLinked) (hm : f.Above n m) : f.depth n ≤ f.depth m := by
  induction hm with
  | self => exact Nat.le_refl _
  | @step m p hp _ ih =>
    rw [h.depth_child ((h.linked p m).mpr hp)]
    exact Nat.le_succ_of_le ih

/-- **Nothing is deeper than the height says.** -/
theorem depth_le_height (h : f.WellLinked) (hm : f.Above n m) :
    f.depth m ≤ f.depth n + (f.places n).height := by
  induction n using h.induction with
  | step n ih =>
    rcases h.above_iff.mp hm with rfl | ⟨c, hc, habove⟩
    · exact Nat.le_add_right _ _
    · have hle := ih c hc habove
      have hheight := Tree.height_lt_heightList (List.mem_map_of_mem (f := f.places) hc)
      rw [h.depth_child hc] at hle
      rw [h.places_eq, Tree.height]
      omega

/-- **Some node is as deep as the height says.** -/
theorem exists_depth_eq (h : f.WellLinked) (n : Nat) :
    ∃ m, f.Above n m ∧ f.depth m = f.depth n + (f.places n).height := by
  induction n using h.induction with
  | step n ih =>
    rw [h.places_eq, Tree.height]
    by_cases hzero : Tree.heightList ((f.children n).map f.places) = 0
    · exact ⟨n, .self, by rw [hzero]; rfl⟩
    · obtain ⟨t, ht, hheight⟩ := Tree.exists_height hzero
      obtain ⟨c, hc, rfl⟩ := List.mem_map.mp ht
      obtain ⟨m, hm, hdepth⟩ := ih c hc
      rw [h.depth_child hc] at hdepth
      exact ⟨m, h.above_iff.mpr (.inr ⟨c, hc, hm⟩), by omega⟩

end WellLinked

/-! ## 4. All stores -/

/-- **Walks, size, height, depth and root agree.**  In every store that can be reached, and for
every node `n` of it:

* both walks show the nodes at and below `n`, each once and siblings in their order; on the way down
  a node comes before all below it, on the way up after it;
* both show as many nodes as the size says;
* a visitor that ends a walk at a node was shown the front of the list and is shown no more,
  whatever it does with the nodes;
* the height is the greatest number of edges by which a node shown is deeper than `n`, and all that
  is shown has the root of `n`. -/
theorem traversals_agree (h : f.Reachable) (n : Nat) :
    let nodes := (f.places n).preorder none
    let nodesUp := (f.places n).postorder none
    (f.Lists n nodes ∧ ∀ a b, f.Above n a → f.Above a b → a ≠ b → [a, b].Sublist nodes) ∧
    (f.Lists n nodesUp ∧ ∀ a b, f.Above n a → f.Above a b → a ≠ b → [b, a].Sublist nodesUp) ∧
    (nodes.length = (f.places n).size ∧ nodesUp.length = (f.places n).size) ∧
    (∀ k, (f.places n).preorder (some (k + 1)) = nodes.take (k + 1) ∧
      (f.places n).postorder (some (k + 1)) = nodesUp.take (k + 1)) ∧
    (∀ (σ : Type) (visit : σ → Nat → σ × Bool) (s : σ),
      (f.places n).walkDown visit s = Tree.showAll visit s nodes ∧
        (f.places n).walkUp visit s = Tree.showAll visit s nodesUp) ∧
    ((∀ m ∈ nodes, f.depth n ≤ f.depth m ∧ f.depth m ≤ f.depth n + (f.places n).height) ∧
      ∃ m ∈ nodes, f.depth m = f.depth n + (f.places n).height) ∧
    ∀ m ∈ nodes, f.root m = f.root n := by
  have hf := h.wellLinked
  have hmem := hf.traverses_downward.mem_iff hf n
  simp only [Tree.preorder_none, Tree.postorder_none]
  refine ⟨⟨hf.traverses_downward.lists hf n, ?_⟩, ⟨hf.traverses_upward.lists hf n, ?_⟩,
    ⟨Tree.length_downward _, Tree.length_upward _⟩, ?_, ?_, ⟨?_, ?_⟩, ?_⟩
  · intro a b ha hb hne
    exact hf.downward_before ha hb hne
  · intro a b ha hb hne
    exact hf.upward_after ha hb hne
  · intro k
    exact ⟨Tree.preorder_some k _, Tree.postorder_some k _⟩
  · intro σ visit s
    exact ⟨Tree.walkDown_eq visit s _, Tree.walkUp_eq visit s _⟩
  · intro m hm
    exact ⟨hf.depth_le ((hmem m).mp hm), hf.depth_le_height ((hmem m).mp hm)⟩
  · obtain ⟨m, hm, hdepth⟩ := hf.exists_depth_eq n
    exact ⟨m, (hmem m).mpr hm, hdepth⟩
  · intro m hm
    exact hf.root_eq ((hmem m).mp hm)

/-- A root `a` with the children `b` and `c`; `d` was below `b` and now stands below `c`, and `e`
stands below `b`. -/
def movedNode : Forest String :=
  let nodes : Forest String := ["a", "b", "c", "d", "e"].foldl (fun f v => (f.new v).1) empty
  (((nodes.attach 0 [some 1, some 2]).1.attach 1 [some 3, some 4]).1.attach 2 [some 3]).1

theorem movedNode_reachable : movedNode.Reachable := by
  have hnames : ∀ cs : List (Option Nat), (∀ c ∈ cs.filterMap id, c < 5) →
      ∀ c, some c ∈ cs → c < 5 := fun cs h c hc => h c (List.mem_filterMap.mpr ⟨some c, hc, rfl⟩)
  have hnew := Reachable.new "e" (.new "d" (.new "c" (.new "b" (.new "a" .empty))))
  exact .attach (.attach (.attach hnew (by decide) (hnames _ (by decide))) (by decide)
    (hnames _ (by decide))) (by decide) (hnames _ (by decide))

/-- **A node is shown where it was moved to**: `d` comes behind `c` on the way down and in front of
it on the way up, and a walk that ends at the third node has not come to it. -/
theorem traversals_agree_movedNode :
    movedNode.Reachable ∧ (movedNode.places 0).preorder none = [0, 1, 4, 2, 3] ∧
      (movedNode.places 0).postorder none = [4, 1, 3, 2, 0] ∧
      (movedNode.places 0).preorder (some 3) = [0, 1, 4] ∧
      (movedNode.places 0).size = 5 ∧
      (∃ m ∈ [0, 1, 4, 2, 3], movedNode.depth m = 2) ∧ movedNode.root 3 = movedNode.root 0 := by
  have hdown : (movedNode.places 0).preorder none = [0, 1, 4, 2, 3] := by decide
  have hup : (movedNode.places 0).postorder none = [4, 1, 3, 2, 0] := by decide
  have hheight : (movedNode.places 0).height = 2 := by decide
  obtain ⟨-, -, ⟨hsize, -⟩, hstop, -, ⟨-, hdeepest⟩, hroot⟩ :=
    traversals_agree movedNode_reachable 0
  rw [hdown] at hsize hdeepest hroot
  rw [hheight] at hdeepest
  refine ⟨movedNode_reachable, hdown, hup, ?_, hsize.symm, hdeepest, hroot 3 (by decide)⟩
  rw [(hstop 2).1, hdown]
  rfl

end Formulary.Forest
