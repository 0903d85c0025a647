/-!
# Character tables

A class of characters is a list of runs of code points, in ascending order.  A run has a step, so
that the alternation of capitals and small letters takes one entry and not fifty.
-/

namespace Formulary.Text

/-- The code points `first`, `first + step`, `first + 2 * step`, … up to `last`. -/
structure Run where
  first : Nat
  last : Nat
  step : Nat
  deriving Repr, DecidableEq

namespace Run

/-- Whether the run holds the code point `n`. -/
def holds (r : Run) (n : Nat) : Bool :=
  r.first ≤ n && n ≤ r.last && (n - r.first) % r.step == 0

end Run

/-- Whether a run of the table holds `c`. -/
def inTable (table : List Run) (c : Char) : Bool :=
  table.any (·.holds c.toNat)

/-- A run of characters that all lie at the same distance from their counterpart. -/
structure Shift where
  run : Run
  distance : Int
  deriving Repr, DecidableEq

/-- The counterpart of `c`, or `c` itself when no run of the table holds it. -/
def shiftBy (table : List Shift) (c : Char) : Char :=
  match table.find? (·.run.holds c.toNat) with
  | some s => Char.ofNat (c.toNat + s.distance).toNat
  | none => c

end Formulary.Text
