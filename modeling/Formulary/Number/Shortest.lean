import Formulary.Number.Binary

/-!
# Shortest decimals

The decimal with the fewest digits among those that read back as a given double.
-/

namespace Formulary.Number

-- The power is the one of `NatPow`, whatever other instances are in scope.
attribute [local instance (high)] instPowNat

/-- The number `digits * 10 ^ exponent`. -/
structure Decimal where
  digits : Nat
  exponent : Int
  deriving Repr, DecidableEq

/-- Compares `a * 10 ^ i` with `b * 2 ^ j`. -/
def compareScaled (a : Nat) (i : Int) (b : Nat) (j : Int) : Ordering :=
  compare (a * 10 ^ i.toNat * 2 ^ (-j).toNat) (b * 2 ^ j.toNat * 10 ^ (-i).toNat)

/-- Whether the decimal rounds to the magnitude: it lies between the points halfway to the two
neighbours, which count as inside when the mantissa is even.  Below a power of two the neighbours
stand twice as close. -/
def Decimal.readsBack (d : Decimal) (b : Binary) : Bool :=
  let narrow := b.mantissa == 2 ^ (52 : Nat) && leastExponent < b.exponent
  let low := if narrow then 4 * b.mantissa - 1 else 4 * b.mantissa - 2
  let high := 4 * b.mantissa + 2
  let even := b.mantissa % 2 == 0
  let fromLow := compareScaled d.digits d.exponent low (b.exponent - 2)
  let toHigh := compareScaled d.digits d.exponent high (b.exponent - 2)
  (fromLow == .gt || (even && fromLow == .eq)) && (toHigh == .lt || (even && toHigh == .eq))

/-- The least power of ten above the magnitude, looked for from `k` upwards in `tries` steps. -/
def scaleFrom (b : Binary) : (tries : Nat) → (k : Int) → Int
  | 0, k => k
  | tries + 1, k =>
    if compareScaled 1 k b.mantissa b.exponent == .gt then k else scaleFrom b tries (k + 1)

/-- The least `k` with the magnitude below `10 ^ k`. -/
def scale (b : Binary) : Int :=
  scaleFrom b 5 (((b.mantissa.log2 : Int) + b.exponent) * 30103 / 100000 - 1)

/-- The two multiples of `10 ^ e` around the magnitude; the nearer one first, and of two equally
near ones the even. -/
def neighbours (b : Binary) (e : Int) : List Decimal :=
  let num := b.mantissa * 2 ^ b.exponent.toNat * 10 ^ (-e).toNat
  let den := 2 ^ (-b.exponent).toNat * 10 ^ e.toNat
  let below : Nat := num / den
  if roundDiv num den == below then [⟨below, e⟩, ⟨below + 1, e⟩] else [⟨below + 1, e⟩, ⟨below, e⟩]

/-- The first decimal that reads back, with `n` digits or up to `more` more. -/
def searchFrom (b : Binary) (k : Int) : (n more : Nat) → Option Decimal
  | n, 0 => (neighbours b (k - n)).find? (·.readsBack b)
  | n, more + 1 =>
    match (neighbours b (k - n)).find? (·.readsBack b) with
    | some d => some d
    | none => searchFrom b k (n + 1) more

/-- The shortest decimal that reads back as the magnitude.  Seventeen digits are always enough; the
exact value stands in where a proof of that would be needed. -/
def shortest (b : Binary) : Decimal :=
  if b.mantissa == 0 then ⟨0, 0⟩
  else
    match searchFrom b (scale b) 1 16 with
    | some d => d
    | none =>
      ⟨b.mantissa * 2 ^ b.exponent.toNat * 5 ^ (-b.exponent).toNat, -(-b.exponent).toNat⟩

end Formulary.Number
