import Formulary.Proofs.Traversal
import Formulary.Proofs.Tree.Graph

/-!
# Drawing a node with all below it

The graph that is drawn of a node has a line for each node at or below it, numbered as a walk down
shows them, and a line for each link between two of them, those of one parent in the order of its
children (`Forest.graph_exact`).

Which links are drawn is said by `Tree.links` for any tree; for the tree below a node of a store
they are the links that the store keeps (`Forest.WellLinked.links_from`).  As no node is shown
twice, a number and the node that has it can stand for one another. -/

namespace Formulary.Forest

variable {α : Type} {f : Forest α} {n a b : Nat}

/-! ## 1. Links -/

/-- What one member of a list is made into is all there is, if the others come to nothing. -/
theorem flatMap_eq_of_unique {β : Type} {l : List Nat} {g : Nat → List β} {c : Nat} (hl : l.Nodup)
    (hc : c ∈ l) (hother : ∀ x ∈ l, x ≠ c → g x = []) : l.flatMap g = g c := by
  obtain ⟨front, back, rfl⟩ := List.append_of_mem hc
  have hnodup := List.nodup_middle.mp hl
  have hnew := (List.nodup_cons.mp hnodup).1
  have hnone : ∀ x ∈ front ++ back, g x = [] := fun x hx =>
    hother x (by
      rcases List.mem_append.mp hx with hx | hx <;> simp [hx]) fun heq => hnew (heq ▸ hx)
  obtain ⟨hfront, hback⟩ := List.forall_mem_append.mp hnone
  rw [List.flatMap_append, List.flatMap_cons, List.flatMap_eq_nil_iff.mpr hfront,
    List.flatMap_eq_nil_iff.mpr hback]
  simp

namespace WellLinked

theorem value_places (h : f.WellLinked) (n : Nat) : (f.places n).value = n := by
  rw [h.places_eq]
  rfl

/-- The links below a node are those below its children and those to its children. -/
theorem links_eq (h : f.WellLinked) (n : Nat) :
    (f.places n).links = (f.children n).flatMap fun c => (f.places c).links ++ [(n, c)] := by
  have hlist : ∀ cs : List Nat, Tree.linksList n (cs.map f.places)
      = cs.flatMap fun c => (f.places c).links ++ [(n, c)] := by
    intro cs
    induction cs with
    | nil => rfl
    | cons c cs ih =>
      rw [List.map_cons, Tree.linksList, ih, List.flatMap_cons, h.value_places, List.append_assoc]
      rfl
  rw [h.places_eq, Tree.links]
  exact hlist _

/-- Links lead from nodes at or below the node. -/
theorem above_of_mem_links (h : f.WellLinked) (hab : (a, b) ∈ (f.places n).links) :
    f.Above n a ∧ f.parent? b = some a := by
  induction n using h.induction with
  | step n ih =>
    rw [h.links_eq] at hab
    obtain ⟨c, hc, hmem⟩ := List.mem_flatMap.mp hab
    rcases List.mem_append.mp hmem with hmem | hmem
    · obtain ⟨habove, hparent⟩ := ih c hc hmem
      exact ⟨h.above_iff.mpr (.inr ⟨c, hc, habove⟩), hparent⟩
    · obtain ⟨rfl, rfl⟩ := Prod.mk.inj (List.mem_singleton.mp hmem)
      exact ⟨.self, (h.linked a b).mp hc⟩

/-- **The links from one node lead to its children**, in their order. -/
theorem links_from (h : f.WellLinked) (ha : f.Above n a) :
    (f.places n).links.filter (·.1 = a) = (f.children a).map (a, ·) := by
  induction n using h.induction with
  | step n ih =>
    have hnone : ∀ c ∈ f.children n, ¬ f.Above c a → (f.places c).links.filter (·.1 = a) = [] := by
      intro c hc hbelow
      refine List.filter_eq_nil_iff.mpr fun link hlink heq => hbelow ?_
      rw [← of_decide_eq_true heq]
      exact (h.above_of_mem_links hlink).1
    rw [h.links_eq, List.filter_flatMap]
    by_cases heq : a = n
    · subst heq
      rw [← List.flatMap_singleton' ((f.children a).map (a, ·)), List.flatMap_map]
      refine List.flatMap_congr fun c hc => ?_
      rw [List.filter_append, hnone c hc (h.not_above_parent hc)]
      simp
    · obtain ⟨c, hc, hbelow⟩ := (h.above_iff.mp ha).resolve_left heq
      have hfilter : ∀ x, (((f.places x).links ++ [(n, x)]).filter (·.1 = a))
          = (f.places x).links.filter (·.1 = a) := by
        intro x
        simp [List.filter_append, Ne.symm heq]
      simp only [hfilter]
      rw [flatMap_eq_of_unique (h.nodup n) hc, ih c hc hbelow]
      intro x hx hne
      exact hnone x hx fun habove => h.siblings_apart hx hc hne habove hbelow

end WellLinked

/-! ## 2. Numbers of nodes

`edges` are pairs of places in `nodes`, and `links` has the nodes that stand there. -/

section Numbers

variable {nodes : List Nat} {edges links : List (Nat × Nat)} {i j : Nat}

theorem eq_of_getElem? (hnodes : nodes.Nodup) (hi : nodes[i]? = some a) (hj : nodes[j]? = some a) :
    i = j :=
  (List.getElem?_inj (List.getElem?_eq_some_iff.mp hi).1 hnodes).mp (hi.trans hj.symm)

theorem mem_edges_iff (hnodes : nodes.Nodup)
    (hends : edges.map (Tree.ends nodes) = links.map fun (a, b) => (some a, some b)) :
    (i, j) ∈ edges ↔ ∃ a b, nodes[i]? = some a ∧ nodes[j]? = some b ∧ (a, b) ∈ links := by
  constructor
  · intro hmem
    have hlink := List.mem_map_of_mem (f := Tree.ends nodes) hmem
    rw [hends] at hlink
    obtain ⟨⟨a, b⟩, hab, heq⟩ := List.mem_map.mp hlink
    obtain ⟨hi, hj⟩ := Prod.mk.inj heq
    exact ⟨a, b, hi.symm, hj.symm, hab⟩
  · rintro ⟨a, b, hi, hj, hab⟩
    have hlink := List.mem_map_of_mem (f := fun (a, b) => (some a, some b)) hab
    rw [← hends] at hlink
    obtain ⟨⟨i', j'⟩, hmem, heq⟩ := List.mem_map.mp hlink
    obtain ⟨hi', hj'⟩ := Prod.mk.inj heq
    obtain rfl := eq_of_getElem? hnodes hi hi'
    obtain rfl := eq_of_getElem? hnodes hj hj'
    exact hmem

/-- The edges from a number are the links from the node that has it, in the same order. -/
theorem edges_from (hnodes : nodes.Nodup)
    (hends : edges.map (Tree.ends nodes) = links.map fun (a, b) => (some a, some b))
    (hi : nodes[i]? = some a) :
    (edges.filter (·.1 = i)).map (Tree.ends nodes)
      = (links.filter (·.1 = a)).map fun (a, b) => (some a, some b) := by
  have hsame : ∀ e : Nat × Nat, (e.1 = i) = ((Tree.ends nodes e).1 = some a) := fun e =>
    propext ⟨fun h => by rw [Tree.ends, h, hi], fun h => eq_of_getElem? hnodes h hi⟩
  have hfilter := congrArg (List.filter fun e : Option Nat × Option Nat => e.1 = some a) hends
  rw [List.filter_map, List.filter_map] at hfilter
  simp only [Function.comp_def, Option.some.injEq, ← hsame] at hfilter
  exact hfilter

end Numbers

/-! ## 3. The graph -/

/-- **A graph has a line for each node and each link.**  The graph of a node has, between its first
and its last line, lines that are told by their texts:

* a line for each node at or below the node, with its label, numbered from 0 on as a walk down
  shows them;
* one line less for edges, and from number `i` to number `j` just where the node with the number `i`
  is the parent of the node with the number `j`;
* those from one node to its children in their order. -/
theorem graph_exact (h : f.Reachable) (n : Nat) (label : Nat → String) (name : String) :
    let nodes := (f.places n).preorder none
    let lines := (f.places n).graphLines label
    let edges := lines.filterMap Tree.GraphLine.edge?
    (Tree.linesOf ((f.places n).graph label name)
        = ("digraph " ++ Text.quote (if name == "" then "tree" else name) ++ " \x7b") ::
          (lines.map Tree.GraphLine.bare ++ ["\x7d", ""]) ∧
      Function.Injective Tree.GraphLine.bare) ∧
    (nodes.length = (f.places n).size ∧
      lines.filterMap Tree.GraphLine.node? = nodes.zipIdx.map fun (m, i) => (i, label m)) ∧
    edges.length + 1 = (f.places n).size ∧
    (∀ i j, (i, j) ∈ edges ↔
      ∃ a b, nodes[i]? = some a ∧ nodes[j]? = some b ∧ f.parent? b = some a) ∧
    ∀ i a, nodes[i]? = some a →
      (edges.filter (·.1 = i)).map (fun e => nodes[e.2]?) = (f.children a).map some := by
  have hf := h.wellLinked
  have hmem := hf.traverses_downward.mem_iff hf n
  have hnodup := hf.traverses_downward.nodup hf n
  have hends := Tree.graphNode_edges label (f.places n).downward 0 (f.places n) (List.prefix_refl _)
  simp only [Tree.preorder_none, Tree.graphLines]
  refine ⟨⟨Tree.linesOf_graph _ _ _, fun _ _ => Tree.GraphLine.bare_inj⟩,
    ⟨Tree.length_downward _, Tree.graphNode_nodes _ _ _⟩, ?_, fun i j => ?_, fun i a hi => ?_⟩
  · have hlength := congrArg List.length hends
    rw [List.length_map, List.length_map] at hlength
    rw [hlength, Tree.length_links]
  · rw [mem_edges_iff hnodup hends]
    refine exists_congr fun a => exists_congr fun b => and_congr_right fun hi =>
      and_congr_right fun _ => ⟨fun hab => (hf.above_of_mem_links hab).2, fun hparent => ?_⟩
    have hlink : (a, b) ∈ (f.children a).map (a, ·) :=
      List.mem_map_of_mem ((hf.linked a b).mpr hparent)
    rw [← hf.links_from ((hmem a).mp (List.mem_of_getElem? hi))] at hlink
    exact (List.mem_filter.mp hlink).1
  · have hfrom := congrArg (List.map (·.2)) (edges_from hnodup hends hi)
    rw [hf.links_from ((hmem a).mp (List.mem_of_getElem? hi))] at hfrom
    simpa [Tree.ends, Function.comp_def] using hfrom

/-- **Numbers follow the walk, and an edge comes behind what it leads to**: the node at place 3 was
moved below the one at place 2, and has the number 4. -/
theorem graph_exact_movedNode :
    let label := fun m => s!"\"{m}\n\"];"
    let lines := (movedNode.places 0).graphLines label
    let edges := lines.filterMap Tree.GraphLine.edge?
    movedNode.Reachable ∧
      lines.filterMap Tree.GraphLine.node?
        = [(0, label 0), (1, label 1), (2, label 4), (3, label 2), (4, label 3)] ∧
      edges = [(1, 2), (0, 1), (3, 4), (0, 3)] ∧ (3, 4) ∈ edges ∧ movedNode.parent? 3 = some 2 ∧
      (edges.filter (·.1 = 0)).map (fun e => [0, 1, 4, 2, 3][e.2]?) = [some 1, some 2] := by
  intro label lines edges
  have hnodes : (movedNode.places 0).preorder none = [0, 1, 4, 2, 3] := by decide
  have hchildren : movedNode.children 0 = [1, 2] := by decide
  obtain ⟨-, ⟨-, hlines⟩, -, hparent, horder⟩ := graph_exact movedNode_reachable 0 label "moved"
  rw [hnodes] at hlines hparent horder
  have hmoved : movedNode.parent? 3 = some 2 := by decide
  refine ⟨movedNode_reachable, hlines, rfl, (hparent 3 4).mpr ⟨2, 3, rfl, rfl, hmoved⟩, hmoved, ?_⟩
  rw [horder 0 0 rfl, hchildren]
  rfl

end Formulary.Forest
