/-!
# Doubles as whole numbers

A finite double is a sign, a whole number below `2 ^ 53` and a power of two.  All exact work on
numbers is done on these.
-/

namespace Formulary.Number

-- The power is the one of `NatPow`, whatever other instances are in scope.
attribute [local instance (high)] instPowNat

/-- The magnitude `mantissa * 2 ^ exponent`. -/
structure Binary where
  mantissa : Nat
  exponent : Int
  deriving Repr, DecidableEq

inductive Double where
  | nan
  | infinite (negative : Bool)
  | finite (negative : Bool) (magnitude : Binary)
  deriving Repr, DecidableEq

/-- The least exponent of a double. -/
def leastExponent : Int := -1074

/-- The bits of positive infinity. -/
def infinityBits : Nat := 0x7ff * 2 ^ (52 : Nat)

namespace Double

def ofBits (bits : Nat) : Double :=
  let negative : Bool := 2 ^ (63 : Nat) ≤ bits
  let exponent : Nat := bits / 2 ^ (52 : Nat) % 2 ^ (11 : Nat)
  let fraction : Nat := bits % 2 ^ (52 : Nat)
  if exponent == 0x7ff then
    if fraction == 0 then .infinite negative else .nan
  else if exponent == 0 then .finite negative ⟨fraction, leastExponent⟩
  else .finite negative ⟨2 ^ (52 : Nat) + fraction, leastExponent + exponent - 1⟩

def ofFloat (x : Float) : Double := ofBits x.toBits.toNat

end Double

/-- The quotient rounded to a whole number; a tie goes to the even neighbour. -/
def roundDiv (num den : Nat) : Nat :=
  let quotient := num / den
  let twice := 2 * (num % den)
  if twice < den then quotient
  else if den < twice then quotient + 1
  else quotient + quotient % 2

/-- The ratio `num / (den * 2 ^ e)`. -/
def scaleDown (num den : Nat) (e : Int) : Nat × Nat :=
  (num * 2 ^ (-e).toNat, den * 2 ^ e.toNat)

namespace Binary

/-- The magnitude nearest to `num / den`, with as many bits as a double has room for at that size.
The mantissa can come out as `2 ^ 53`, which is the next power of two. -/
def nearest (num den : Nat) : Binary :=
  if num = 0 then ⟨0, leastExponent⟩ else
  let guess : Int := (num.log2 : Int) - den.log2 - 53
  let (n, d) := scaleDown num den guess
  let exponent := max leastExponent (if n / d < 2 ^ (53 : Nat) then guess else guess + 1)
  let (n, d) := scaleDown num den exponent
  ⟨roundDiv n d, exponent⟩

/-- The bits of the magnitude, if it is below the infinite. -/
def bits? (b : Binary) : Option Nat :=
  let bits := (b.exponent - leastExponent).toNat * 2 ^ (52 : Nat) + b.mantissa
  if bits < infinityBits then some bits else none

end Binary

/-- The double with the given sign and bits of the magnitude. -/
def ofMagnitudeBits (negative : Bool) (bits : Nat) : Float :=
  Float.ofBits (UInt64.ofNat (if negative then 2 ^ (63 : Nat) + bits else bits))

/-- The double nearest to `num / den`, or none when that is beyond the finite ones. -/
def nearestFloat? (negative : Bool) (num den : Nat) : Option Float :=
  (Binary.nearest num den).bits?.map (ofMagnitudeBits negative)

end Formulary.Number
