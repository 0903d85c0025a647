import Formulary.Yaml.Visit

/-!
# The fields of a map

The keys of a map are texts.  Under the key of merging, a map takes over the fields of other maps
that it does not have itself; of several such maps the first counts.
-/

namespace Formulary.Yaml

/-- The entries of a map, if no key stands twice. -/
def distinct? : List (Node × Node) → Option (List (Node × Node))
  | [] => some []
  | (k, v) :: es =>
    if es.any fun (other, _) => k.sameKey other then none
    else (distinct? es).map ((k, v) :: ·)

/-- The node under the key of merging. -/
def mergeNode? (es : List (Node × Node)) : Option Node :=
  (es.find? fun (k, _) => k.isMergeKey).map (·.2)

/-- The maps that are merged: a single one or those in a list. -/
def mergedMaps? : Node → Option (List Node)
  | .list items => some items
  | .scalar .. => none
  | n => some [n]

/-- The names that the keys of a map protect from being merged: those that look like texts. -/
def protectedNames (es : List (Node × Node)) : Visits (List String) := do
  let names ← es.mapM fun (k, _) => do
    match ← visitScalar k with
    | .text s => return some s
    | _ => return none
  return names.filterMap id

variable {σ : Type}

/-- What is done with a field: it is given its name and its node.  The flag tells whether the field
is one of a merged map. -/
abbrev FieldTaker (σ : Type) := (merged : Bool) → σ → String → Node → Visits σ

/-- Takes the fields that the entries of a map give.  In a merged map those with one of the `names`
are passed over, which are then all that the map has, too.  A key that is null gives no field. -/
def takeEntries (take : FieldTaker σ) : (names : Option (List String)) → List (Node × Node) → σ →
    Visits (Option (List String) × σ)
  | names, [], s => return (names, s)
  | names, (k, v) :: es, s => do
    if k.isMergeKey then takeEntries take names es s
    else match ← visitText k with
      | none => takeEntries take names es s
      | some name =>
        if names.any (·.contains name) then takeEntries take names es s
        else takeEntries take (names.map (name :: ·)) es (← take names.isSome s name v)

/-- Takes the fields of a map and of maps merged into it, which are nested `steps` deep at most. -/
def takeMap (take : FieldTaker σ) : (steps : Nat) → (names : Option (List String)) →
    List (Node × Node) → σ → Visits (List String × σ)
  | 0, _, _, _ => failure
  | steps + 1, names, es, s => do
    let es ← distinct? es
    let (names, s) ← takeEntries take names es s
    match mergeNode? es with
    | none => return (names.getD [], s)
    | some merged =>
      let names ← match names with
        | some names => pure names
        | none => protectedNames es
      (← mergedMaps? merged).foldlM
        (fun (names, s) n => n |> visit fun
          | .map es => takeMap take steps (some names) es s
          | _ => failure)
        (names, s)

/-- Takes the fields of a map, one after the other. -/
def takeFields (take : FieldTaker σ) (steps : Nat) (es : List (Node × Node)) (s : σ) :
    Visits σ := do
  return (← takeMap take steps none es s).2

end Formulary.Yaml
