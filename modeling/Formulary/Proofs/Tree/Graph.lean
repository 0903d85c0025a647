import Formulary.Proofs.Scanning
import Formulary.Proofs.Text.Digits
import Formulary.Proofs.Text.Quoting
import Formulary.Proofs.Tree.Walks
import Formulary.Tree.Render

/-!
# The lines of a drawn graph

The graph of a tree is a text of lines (`linesOf_graph`), and each line between the first and the
last can be told by its text (`GraphLine.bare_inj`): labels are quoted, so no end of a line is left
in them.

The nodes are numbered in the order of `downward` (`graphNode_nodes`).  The line of an edge comes
behind the subtree that it leads to, so the edges are compared to a list in the same order that
names their ends (`links`, `graphNode_edges`).

1. The text of a line.
2. The lines of a text.
3. Nodes and their numbers.
4. Edges.
-/

namespace Formulary

open Reader (Stops stops_cons)

/-! ## 1. Lines -/

namespace Tree

variable {α : Type} {l l' : GraphLine}

namespace GraphLine

/-- A line without its end. -/
def bare : GraphLine → String
  | .node id label => s!"\tnode{id} [label={Text.quote label}];"
  | .edge parent child => s!"\tnode{parent} -> node{child};"

theorem text_eq (l : GraphLine) : l.text = l.bare ++ "\n" := by
  cases l <;> simp only [text, bare, String.append_assoc] <;> rfl

/-- The first number of a line, and what stands behind it. -/
def front : GraphLine → Nat
  | .node id _ => id
  | .edge parent _ => parent

def back : GraphLine → List Char
  | .node _ label => ' ' :: '[' :: ("label=".toList ++ ((Text.quote label).toList ++ [']', ';']))
  | .edge _ child => ' ' :: '-' :: ("> node".toList ++ ((toString child).toList ++ [';']))

theorem toList_bare (l : GraphLine) :
    l.bare.toList = "\tnode".toList ++ ((toString l.front).toList ++ l.back) := by
  cases l <;> simp only [bare, front, back, String.toList_append, List.append_assoc] <;> rfl

theorem newline_not_mem_bare (l : GraphLine) : '\n' ∉ l.bare.toList := by
  have hdigits : ∀ n : Nat, '\n' ∉ (toString n).toList := fun n hmem => by
    have hdigit := Text.isDigit_of_mem_toString hmem
    revert hdigit
    decide
  have hback : '\n' ∉ l.back := by
    cases l with
    | node _ label => simp [back, Text.newline_not_mem_quote label]
    | edge _ child => simpa [back] using hdigits child
  rw [toList_bare]
  simpa [hback] using hdigits l.front

/-- The number in front ends where the first blank is. -/
theorem front_back_inj (h : l.bare = l'.bare) : l.front = l'.front ∧ l.back = l'.back := by
  have hdigits : ∀ n : Nat, ∀ d ∈ (toString n).toList, d.isDigit = true :=
    fun n d hd => Text.isDigit_of_mem_toString hd
  have hends : ∀ l : GraphLine, Stops (·.isDigit) l.back := fun l => by
    cases l <;> exact stops_cons rfl _
  have hlist := congrArg String.toList h
  rw [toList_bare, toList_bare] at hlist
  obtain ⟨hfront, hback⟩ := Stops.append_inj (List.append_cancel_left hlist) (hdigits l.front)
    (hdigits l'.front) (hends l) (hends l')
  exact ⟨Text.toString_inj (String.toList_inj.mp hfront), hback⟩

/-- **Lines have different texts.** -/
theorem bare_inj (h : l.bare = l'.bare) : l = l' := by
  obtain ⟨hfront, hback⟩ := front_back_inj h
  cases l with
  | node id label =>
    cases l' with
    | node id' label' =>
      simp only [back, List.cons.injEq, List.append_cancel_left_eq, List.append_cancel_right_eq,
        true_and] at hback
      rw [show id = id' from hfront, Text.quote_inj (String.toList_inj.mp hback)]
    | edge parent child => cases (List.cons.inj (List.cons.inj hback).2).1
  | edge parent child =>
    cases l' with
    | node id' label' => cases (List.cons.inj (List.cons.inj hback).2).1
    | edge parent' child' =>
      simp only [back, List.cons.injEq, List.append_cancel_left_eq, List.append_cancel_right_eq,
        true_and] at hback
      rw [show parent = parent' from hfront, Text.toString_inj (String.toList_inj.mp hback)]

end GraphLine

/-! ## 2. The lines of a text -/

/-- The lines of a text; what stands behind the last end of a line is one of them. -/
def linesOf (text : String) : List String := (text.toList.splitOn '\n').map String.ofList

theorem linesOf_append {line : String} (hline : '\n' ∉ line.toList) (text : String) :
    linesOf (line ++ "\n" ++ text) = line :: linesOf text := by
  have hlist : (line ++ "\n" ++ text).toList = line.toList ++ '\n' :: text.toList := by simp
  have hsplit : (line.toList ++ '\n' :: text.toList).splitOn '\n'
      = line.toList.splitOn '\n' ++ text.toList.splitOn '\n' :=
    List.splitOnP_append_cons _ _ (beq_self_eq_true _)
  rw [linesOf, hlist, hsplit, List.splitOn_eq_singleton hline]
  simp [linesOf]

theorem linesOf_join (ls : List GraphLine) (text : String) :
    linesOf (String.join (ls.map (·.text)) ++ text) = ls.map GraphLine.bare ++ linesOf text := by
  induction ls with
  | nil => simp
  | cons l ls ih =>
    rw [List.map_cons, String.join_cons, l.text_eq, String.append_assoc,
      linesOf_append l.newline_not_mem_bare, ih]
    rfl

/-- **A graph has a line for its name, the lines of nodes and edges, and one for its end.** -/
theorem linesOf_graph (label : α → String) (name : String) (t : Tree α) :
    linesOf (graph label name t)
      = ("digraph " ++ Text.quote (if name == "" then "tree" else name) ++ " \x7b") ::
          ((t.graphLines label).map GraphLine.bare ++ ["\x7d", ""]) := by
  have hquote := Text.newline_not_mem_quote (if name == "" then "tree" else name)
  have htext : graph label name t
      = ("digraph " ++ Text.quote (if name == "" then "tree" else name) ++ " \x7b") ++ "\n"
        ++ (String.join ((t.graphLines label).map (·.text)) ++ "\x7d\n") := by
    simp [graph, String.append_assoc]
  rw [htext, linesOf_append (by simpa using hquote), linesOf_join]
  rfl

/-! ## 3. Nodes -/

/-- The number and the label of a node. -/
def GraphLine.node? : GraphLine → Option (Nat × String)
  | .node id label => some (id, label)
  | .edge _ _ => none

/-- The numbers of the nodes that an edge leads from and to. -/
def GraphLine.edge? : GraphLine → Option (Nat × Nat)
  | .node _ _ => none
  | .edge parent child => some (parent, child)

mutual

/-- As many numbers are used as there are nodes. -/
theorem graphNode_next (label : α → String) (id : Nat) :
    ∀ t : Tree α, (graphNode label id t).2 = id + t.size
  | node v ts => by
    rw [graphNode, size, graphList_next label id (id + 1) ts]
    omega

theorem graphList_next (label : α → String) (parent next : Nat) :
    ∀ ts : List (Tree α), (graphList label parent next ts).2 = next + sizeList ts
  | [] => rfl
  | t :: ts => by
    rw [graphList, sizeList]
    simp only
    rw [graphNode_next label next t, graphList_next label parent _ ts, Nat.add_assoc]

end

mutual

/-- **The nodes are numbered on the way down.** -/
theorem graphNode_nodes (label : α → String) (id : Nat) : ∀ t : Tree α,
    (graphNode label id t).1.filterMap GraphLine.node?
      = (t.downward.zipIdx id).map fun (v, i) => (i, label v)
  | node v ts => by
    rw [graphNode, downward, List.zipIdx_cons, List.map_cons,
      ← graphList_nodes label id (id + 1) ts]
    rfl

theorem graphList_nodes (label : α → String) (parent next : Nat) : ∀ ts : List (Tree α),
    (graphList label parent next ts).1.filterMap GraphLine.node?
      = ((downwardList ts).zipIdx next).map fun (v, i) => (i, label v)
  | [] => rfl
  | t :: ts => by
    rw [graphList, downwardList, List.zipIdx_append, List.map_append,
      ← graphNode_nodes label next t, length_downward, ← graphList_nodes label parent _ ts,
      ← graphNode_next label next t]
    exact List.filterMap_append

end

/-! ## 4. Edges -/

mutual

/-- The values of a node and of its parent for each edge, in the order in which edges are drawn. -/
def links : Tree α → List (α × α)
  | node v ts => linksList v ts

def linksList (parent : α) : List (Tree α) → List (α × α)
  | [] => []
  | t :: ts => links t ++ (parent, t.value) :: linksList parent ts

end

mutual

/-- **There is one edge less than there are nodes.** -/
theorem length_links : ∀ t : Tree α, t.links.length + 1 = t.size
  | node v ts => by rw [links, size, length_linksList v ts]

theorem length_linksList (parent : α) :
    ∀ ts : List (Tree α), (linksList parent ts).length = sizeList ts
  | [] => rfl
  | t :: ts => by
    rw [linksList, sizeList, List.length_append, List.length_cons, length_linksList parent ts,
      ← length_links t]
    omega

end

/-- The nodes at the numbers of an edge. -/
def ends (nodes : List α) (edge : Nat × Nat) : Option α × Option α :=
  (nodes[edge.1]?, nodes[edge.2]?)

theorem getElem?_of_prefix_drop {l nodes : List α} {v : α} {id : Nat}
    (h : v :: l <+: nodes.drop id) : nodes[id]? = some v := by
  obtain ⟨rest, hrest⟩ := h
  have hhead := congrArg (·[0]?) hrest
  simpa using hhead.symm

mutual

/-- **The edges lead from the parent of each node to the node**, where `nodes` has the nodes of the
tree from the number of its root on. -/
theorem graphNode_edges (label : α → String) (nodes : List α) (id : Nat) : ∀ t : Tree α,
    t.downward <+: nodes.drop id →
    ((graphNode label id t).1.filterMap GraphLine.edge?).map (ends nodes)
      = t.links.map fun (a, b) => (some a, some b)
  | node v ts, h => by
    have hparent := getElem?_of_prefix_drop h
    have hbelow : downwardList ts <+: nodes.drop (id + 1) := by
      obtain ⟨rest, hrest⟩ := h
      refine ⟨rest, ?_⟩
      rw [← List.tail_drop, ← hrest]
      rfl
    rw [links, ← graphList_edges label nodes id (id + 1) v hparent ts hbelow]
    rfl

theorem graphList_edges (label : α → String) (nodes : List α) (parent next : Nat) (v : α)
    (hparent : nodes[parent]? = some v) : ∀ ts : List (Tree α),
    downwardList ts <+: nodes.drop next →
    ((graphList label parent next ts).1.filterMap GraphLine.edge?).map (ends nodes)
      = (linksList v ts).map fun (a, b) => (some a, some b)
  | [], _ => rfl
  | t :: ts, h => by
    rw [downwardList] at h
    have hfirst : t.downward <+: nodes.drop next := (List.prefix_append _ _).trans h
    have hothers : downwardList ts <+: nodes.drop (graphNode label next t).2 := by
      obtain ⟨rest, hrest⟩ := h
      refine ⟨rest, ?_⟩
      rw [graphNode_next, ← List.drop_drop, ← hrest, List.append_assoc, ← length_downward,
        List.drop_left]
    have hroot : nodes[next]? = some t.value := by
      cases t with
      | node w us => exact getElem?_of_prefix_drop hfirst
    rw [graphList, linksList]
    simp only [List.filterMap_append, List.filterMap_cons, GraphLine.edge?, List.map_append,
      List.map_cons]
    rw [graphNode_edges label nodes next t hfirst,
      graphList_edges label nodes parent _ v hparent ts hothers, ends, hparent, hroot]

end

end Tree

end Formulary
