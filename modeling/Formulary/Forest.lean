import Formulary.Tree

/-!
# Forests

A store of nodes that are linked both ways: each node knows its parent and the list of its children.
Nodes are named by their place in the store.  A node is attached to another one at the end of its
children and leaves the parent it had; one that stands above the other, or is the other, can not be
attached to it.  A node is copied with all below it into the store that it stands in.
-/

namespace Formulary

structure ForestNode (α : Type) where
  value : α
  parent : Option Nat
  children : List Nat
  deriving Repr

structure Forest (α : Type) where
  nodes : List (ForestNode α)
  deriving Repr

/-- Attaching would put a node below itself. -/
inductive ForestError where
  | cycle
  deriving Repr, DecidableEq

def ForestError.message : ForestError → String
  | cycle => "tree: attaching node would create a cycle"

namespace Forest

variable {α β : Type}

def empty : Forest α := ⟨[]⟩

/-- Adds a node without parent and children, and names it (`New`). -/
def new (f : Forest α) (v : α) : Forest α × Nat := (⟨f.nodes ++ [⟨v, none, []⟩]⟩, f.nodes.length)

def value? (f : Forest α) (n : Nat) : Option α := f.nodes[n]?.map (·.value)

def parent? (f : Forest α) (n : Nat) : Option Nat := f.nodes[n]?.bind (·.parent)

def children (f : Forest α) (n : Nat) : List Nat := (f.nodes[n]?.map (·.children)).getD []

/-- Gives a node another parent, or none. -/
def setParent (f : Forest α) (n : Nat) (parent : Option Nat) : Forest α :=
  ⟨f.nodes.modify n fun node => { node with parent }⟩

/-- Changes the list of the children of a node. -/
def setChildren (f : Forest α) (n : Nat) (change : List Nat → List Nat) : Forest α :=
  ⟨f.nodes.modify n fun node => { node with children := change node.children }⟩

/-! ## Upwards -/

/-- The node, its parent, the parent of that, and so on for at most `steps` nodes. -/
def lineFrom (f : Forest α) : (steps : Nat) → (n : Nat) → List Nat
  | 0, _ => []
  | steps + 1, n =>
    n :: (match f.parent? n with
      | some p => lineFrom f steps p
      | none => [])

/-- The node and all above it, the root last.  No line is longer than the store. -/
def line (f : Forest α) (n : Nat) : List Nat := f.lineFrom f.nodes.length n

def root (f : Forest α) (n : Nat) : Nat := (f.line n).getLastD n

/-- The number of edges up to the root (`Depth`). -/
def depth (f : Forest α) (n : Nat) : Nat := (f.line n).length - 1

/-! ## Changes -/

/-- Takes the node away from its parent (`Detach`). -/
def detach (f : Forest α) (n : Nat) : Forest α :=
  match f.parent? n with
  | none => f
  | some p => (f.setChildren p (·.erase n)).setParent n none

/-- Attaches one node. -/
def attachOne (f : Forest α) (n child : Nat) : Except ForestError (Forest α) :=
  if (f.line n).contains child then .error .cycle
  else .ok (((f.detach child).setParent child (some n)).setChildren n (· ++ [child]))

/-- Attaches nodes one after another (`Attach`), up to the first that can not be; those before it
stay attached.  Where no node is given, none is attached. -/
def attach (f : Forest α) (n : Nat) : List (Option Nat) → Forest α × Except ForestError Unit
  | [] => (f, .ok ())
  | none :: cs => attach f n cs
  | some c :: cs =>
    match f.attachOne n c with
    | .ok f => attach f n cs
    | .error e => (f, .error e)

/-! ## Downwards -/

/-- The places of a node and of all below it, as a tree, `steps` levels down. -/
def placesFrom (f : Forest α) : (steps : Nat) → (n : Nat) → Tree Nat
  | 0, n => .leaf n
  | steps + 1, n => .node n ((f.children n).map (placesFrom f steps))

/-- The places of a node and of all below it.  No tree is higher than the store. -/
def places (f : Forest α) (n : Nat) : Tree Nat := f.placesFrom f.nodes.length n

/-- The values of a node and of all below it. -/
def values (f : Forest α) (n : Nat) : Tree (Option α) := (f.places n).map f.value?

mutual

/-- Adds a copy of a tree, node by node, and names its root. -/
def plant (f : Forest α) : Tree α → Forest α × Nat
  | .node v ts =>
    let (f, root) := f.new v
    (plantList f root ts, root)

/-- Adds copies of trees below a node. -/
def plantList (f : Forest α) (parent : Nat) : List (Tree α) → Forest α
  | [] => f
  | t :: ts =>
    let (f, child) := plant f t
    plantList (f.attach parent [some child]).1 parent ts

end

/-! ## Copies and comparison -/

/-- Attaches copies of the children of `n` to `root`, one by one.  A child is looked up by its
number when its turn has come, in the store as it is then; where there is none any more, there is
nothing to copy and nothing to attach. -/
def copyChildren
    (copy : Forest α → Option Nat → Option (Forest α × Except ForestError (Option Nat)))
    (n root : Nat) : List Nat → Forest α → Option (Forest α × Except ForestError Unit)
  | [], f => some (f, .ok ())
  | i :: is, f =>
    match copy f (f.children n)[i]? with
    | some (f, .ok child) =>
      match f.attach root [child] with
      | (f, .ok ()) => copyChildren copy n root is f
      | (f, .error e) => some (f, .error e)
    | some (f, .error e) => some (f, .error e)
    | none => none

/-- Copies a node and all below it into the same store, with `change` applied to the values, and
names the copy.  Where no node is given, nothing is copied.  No result means that there are more
levels than `steps`. -/
def copyFrom (change : α → α) :
    (steps : Nat) → Forest α → Option Nat → Option (Forest α × Except ForestError (Option Nat))
  | 0, _, _ => none
  | _ + 1, f, none => some (f, .ok none)
  | steps + 1, f, some n =>
    match f.value? n with
    | none => none
    | some v =>
      let (f, root) := f.new (change v)
      match copyChildren (copyFrom change steps) n root (.range (f.children n).length) f with
      | some (f, .ok ()) => some (f, .ok (some root))
      | some (f, .error e) => some (f, .error e)
      | none => none

/-- A copy of a node and of all below it (`Map`).  Where `change` makes values of another kind, the
store has values of both kinds.  There are no more levels than nodes; one more step is for no
node. -/
def copy (change : α → α) (f : Forest α) (n : Option Nat) :
    Option (Forest α × Except ForestError (Option Nat)) :=
  f.copyFrom change (f.nodes.length + 1) n

/-- Whether there are two values and `eq` holds of them. -/
def sameValue (eq : α → α → Bool) : Option α → Option α → Bool
  | some v, some w => eq v w
  | _, _ => false

/-- Whether two nodes have the same values below them, and as many, in trees of the same shape
(`Equal`). -/
def same (eq : α → α → Bool) (f : Forest α) : Option Nat → Option Nat → Bool
  | some a, some b => (f.values a).sameBy (sameValue eq) (f.values b)
  | none, none => true
  | _, _ => false

end Forest

end Formulary
