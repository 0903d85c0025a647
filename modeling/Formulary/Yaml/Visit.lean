import Formulary.Yaml.Meaning

/-!
# Visiting nodes

Whoever takes values out of a document visits its nodes one by one.  A node used again under its
name is visited again, and so a short document can ask for very many visits.  That is refused as
soon as nearly all visits of a long series are such repetitions.
-/

namespace Formulary.Yaml

/-! ## Counting -/

/-- The visits so far. -/
structure Tally where
  visits : Nat
  /-- Those of nodes used again. -/
  repetitions : Nat
  /-- How many nodes used again we are within. -/
  depth : Nat
  deriving Repr

namespace Tally

def zero : Tally := ⟨0, 0, 0⟩

/-- The numbers of visits between which the share of repetitions that is allowed goes down. -/
def few : Nat := 400000

def many : Nat := 4000000

/-- Whether more than the share of repetitions is reached that is allowed: 99 of a hundred for few
visits, ten for many, and in between in proportion. -/
def isLopsided (t : Tally) : Bool :=
  if t.visits ≤ few then 99 * t.visits < 100 * t.repetitions
  else if many ≤ t.visits then t.visits < 10 * t.repetitions
  else (99 * (many - few) - 89 * (t.visits - few)) * t.visits < 100 * (many - few) * t.repetitions

/-- Short series are allowed whatever their repetitions. -/
def isExcessive (t : Tally) : Bool := 100 < t.repetitions && 1000 < t.visits && t.isLopsided

/-- One more visit. -/
def add (t : Tally) : Tally :=
  { t with visits := t.visits + 1, repetitions := t.repetitions + min t.depth 1 }

end Tally

/-- What takes a value out of a document, or refuses it. -/
abbrev Visits (α : Type) := StateT Tally Option α

/-- Counts a visit. -/
def count : Visits Unit := do
  let t := (← get).add
  if t.isExcessive then failure else set t

/-! ## Visits -/

variable {α : Type}

/-- Visits a node, or the one that is meant if it is used under its name.  One that is used within
itself cannot be visited. -/
def visit (read : Node → Visits α) (n : Node) : Visits α := do
  count
  match n with
  | .reference _ target =>
    let target ← target
    modify fun t => { t with depth := t.depth + 1 }
    count
    let a ← read target
    modify fun t => { t with depth := t.depth - 1 }
    return a
  | n => read n

namespace Node

/-- What a scalar stands for; lists and maps stand for nothing. -/
def meaning? : Node → Option Meaning
  | .scalar text tag => scalarMeaning? text tag
  | _ => none

def isNull (n : Node) : Bool :=
  match n.meaning? with
  | some .null => true
  | _ => false

/-- The text of a scalar; null has none. -/
def text? : Node → Option (Option String)
  | .scalar text tag => do
    match ← scalarMeaning? text tag with
    | .null => return none
    | .text s => return some s
    | _ => return some text
  | _ => none

end Node

/-- What a scalar stands for. -/
def visitScalar : Node → Visits Meaning := visit fun n => n.meaning?

/-- The text of a scalar; null has none. -/
def visitText : Node → Visits (Option String) := visit fun n => n.text?

/-- The items of a list one by one, or null. -/
def visitItems (item : Node → Visits α) : Node → Visits (Option (List α)) :=
  visit fun
    | .list items => return some (← items.mapM item)
    | n => if n.isNull then return none else failure

end Formulary.Yaml
