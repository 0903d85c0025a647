import Formulary.Number.Binary

/-!
# Arithmetic on doubles

The operations that the evaluator needs beside those of the machine.
-/

namespace Formulary.Number

-- The power is the one of `NatPow`, whatever other instances are in scope.
attribute [local instance (high)] instPowNat

def notANumber : Float := Float.ofBits 0x7ff8000000000001

/-- The remainder of a division that rounds toward zero; it is exact and has the sign of `x`. -/
def remainder (x y : Float) : Float :=
  match Double.ofFloat x, Double.ofFloat y with
  | .finite negative a, .finite _ b =>
    if b.mantissa == 0 then notANumber
    else
      let least := min a.exponent b.exponent
      let whole := a.mantissa * 2 ^ (a.exponent - least).toNat
      let part := b.mantissa * 2 ^ (b.exponent - least).toNat
      let (num, den) := scaleDown (whole % part) 1 (-least)
      ((nearestFloat? negative num den).getD notANumber)
  | .finite _ _, .infinite _ => x
  | _, _ => notANumber

/-- The double nearest to a whole number. -/
def ofWhole (n : Int) : Float :=
  if n < 0 then -(Float.ofNat n.natAbs) else Float.ofNat n.natAbs

/-- The whole part of a number, toward zero; none for what is not finite. -/
def wholePart? (x : Float) : Option Int :=
  match Double.ofFloat x with
  | .finite negative b =>
    let n := b.mantissa * 2 ^ b.exponent.toNat / 2 ^ (-b.exponent).toNat
    some (if negative then -(n : Int) else n)
  | _ => none

/-- The length of the vector `(x, y)`, without overflow on the way. -/
def hypotenuse (x y : Float) : Float :=
  if x.isInf || y.isInf then (1.0 : Float) / 0.0
  else if x.isNaN || y.isNaN then notANumber
  else
    let p := x.abs
    let q := y.abs
    let (long, short) := if p < q then (q, p) else (p, q)
    if long == 0.0 then 0.0
    else
      let ratio := short / long
      long * (1.0 + ratio * ratio).sqrt

/-- Whether the sign bit is set. -/
def isNegative (x : Float) : Bool := 2 ^ (63 : Nat) ≤ x.toBits.toNat

/-- The lesser of two numbers; negative zero is less than zero, and no number beats both. -/
def lesser (x y : Float) : Float :=
  if x.isNaN || y.isNaN then notANumber
  else if x == y then (if isNegative x then x else y)
  else if x < y then x else y

/-- The greater of two numbers. -/
def greater (x y : Float) : Float :=
  if x.isNaN || y.isNaN then notANumber
  else if x == y then (if isNegative x then y else x)
  else if x < y then y else x

end Formulary.Number
