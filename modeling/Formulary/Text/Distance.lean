/-!
# Names that look alike

The edit distance of two names, counted in bytes, and the names of a list that lie close to one.
-/

namespace Formulary.Text

/-- One row of the distance table.  `above` is the row before it from the current column on, `left`
the entry just written and `diagonal` the entry above it. -/
def distanceRow (a : UInt8) : (diagonal left : Nat) → (above : List Nat) → List UInt8 → List Nat
  | diagonal, left, up :: above, b :: bs =>
    let here := min (min (up + 1) (left + 1)) (if a == b then diagonal else diagonal + 1)
    here :: distanceRow a up here above bs
  | _, _, _, _ => []

/-- The row that follows `row` when `a` is read. -/
def nextRow (bs : List UInt8) (row : List Nat) (a : UInt8) : List Nat :=
  match row with
  | [] => []
  | first :: above => (first + 1) :: distanceRow a first (first + 1) above bs

/-- The least number of insertions, deletions and replacements that turn one text into the other. -/
def editDistance (as bs : List UInt8) : Nat :=
  (as.foldl (nextRow bs) (List.range (bs.length + 1))).getLastD 0

/-- Picks the names of a list that look like a name. -/
abbrev Similarity := String → List String → List String

/-- The candidates at most two edits away from `name`, in their own order. -/
def similar : Similarity := fun name candidates =>
  candidates.filter fun c => editDistance name.toUTF8.toList c.toUTF8.toList ≤ 2

end Formulary.Text
