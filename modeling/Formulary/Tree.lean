/-!
# Ordered trees

A tree is a value and a list of subtrees.
-/

namespace Formulary

inductive Tree (α : Type) where
  | node (value : α) (children : List (Tree α))
  deriving Repr, Inhabited

namespace Tree

variable {α β σ : Type}

def value : Tree α → α
  | node v _ => v

def children : Tree α → List (Tree α)
  | node _ ts => ts

/-- **Induction on trees**: what holds of a node if it holds of its subtrees holds of all trees. -/
@[elab_as_elim]
theorem induction {motive : Tree α → Prop}
    (node : ∀ v ts, (∀ t ∈ ts, motive t) → motive (.node v ts)) (t : Tree α) : motive t :=
  match t with
  | .node v ts => node v ts fun t _ => induction node t

/-- A tree of one node. -/
def leaf (v : α) : Tree α := node v []

def isLeaf (t : Tree α) : Bool := t.children.isEmpty

/-! ## Size and height -/

mutual

/-- The number of nodes (`Size`). -/
def size : Tree α → Nat
  | node _ ts => sizeList ts + 1

def sizeList : List (Tree α) → Nat
  | [] => 0
  | t :: ts => size t + sizeList ts

end

mutual

/-- The number of edges on the longest path down to a leaf (`Height`). -/
def height : Tree α → Nat
  | node _ ts => heightList ts

/-- The height of a tree that has these subtrees. -/
def heightList : List (Tree α) → Nat
  | [] => 0
  | t :: ts => max (height t + 1) (heightList ts)

end

/-! ## Walks

A walk shows the values one by one to a visitor, which keeps a state and says whether it wants to
see more. -/

mutual

/-- Shows each value before those below it (`preorder`).  The flag of the result tells whether the
visitor wants to see more. -/
def walkDown (visit : σ → α → σ × Bool) (s : σ) : Tree α → σ × Bool
  | node v ts =>
    match visit s v with
    | (s, true) => walkDownList visit s ts
    | (s, false) => (s, false)

def walkDownList (visit : σ → α → σ × Bool) (s : σ) : List (Tree α) → σ × Bool
  | [] => (s, true)
  | t :: ts =>
    match walkDown visit s t with
    | (s, true) => walkDownList visit s ts
    | (s, false) => (s, false)

end

mutual

/-- Shows each value after those below it (`postorder`). -/
def walkUp (visit : σ → α → σ × Bool) (s : σ) : Tree α → σ × Bool
  | node v ts =>
    match walkUpList visit s ts with
    | (s, true) => visit s v
    | (s, false) => (s, false)

def walkUpList (visit : σ → α → σ × Bool) (s : σ) : List (Tree α) → σ × Bool
  | [] => (s, true)
  | t :: ts =>
    match walkUp visit s t with
    | (s, true) => walkUpList visit s ts
    | (s, false) => (s, false)

end

/-- The visitor that notes what it sees, the latest first, and stops after `limit` values; with no
limit it sees all. -/
def note (limit : Option Nat) (seen : List α) (v : α) : List α × Bool :=
  (v :: seen, limit.all fun n => decide (seen.length + 1 < n))

/-- The values, each before those below it, up to `limit` of them. -/
def preorder (limit : Option Nat) (t : Tree α) : List α := (walkDown (note limit) [] t).1.reverse

/-- The values, each after those below it, up to `limit` of them. -/
def postorder (limit : Option Nat) (t : Tree α) : List α := (walkUp (note limit) [] t).1.reverse

/-! ## Copies and comparison -/

mutual

/-- The tree of the same shape with `f` applied to each value (`Map`). -/
def map (f : α → β) : Tree α → Tree β
  | node v ts => node (f v) (mapList f ts)

def mapList (f : α → β) : List (Tree α) → List (Tree β)
  | [] => []
  | t :: ts => map f t :: mapList f ts

end

mutual

/-- Whether both trees have the same shape and `eq` holds of the values at each place (`Equal`). -/
def sameBy (eq : α → α → Bool) : Tree α → Tree α → Bool
  | node v ts, node w us => eq v w && sameByList eq ts us

def sameByList (eq : α → α → Bool) : List (Tree α) → List (Tree α) → Bool
  | [], [] => true
  | t :: ts, u :: us => sameBy eq t u && sameByList eq ts us
  | _, _ => false

end

end Tree

end Formulary
