import Formulary.Number.Literal

/-!
# Reading whole numbers

A whole number may have a sign and the mark of a base: `0x`, `0o`, `0b`, or a bare zero for base
eight.
-/

namespace Formulary.Number

-- The power is the one of `NatPow`, whatever other instances are in scope.
attribute [local instance (high)] instPowNat

/-- The value of a row of digits; underscores are passed over. -/
def readDigits? (base : Nat) (cs : List Char) : Option Nat :=
  cs.foldl
    (fun acc c => acc.bind fun n =>
      if c == '_' then some n else (digitIn? base c).map (n * base + ·))
    (some 0)

/-- The base that a whole number without sign is written in, and its digits. -/
def splitBase : List Char → Nat × List Char
  | '0' :: x :: rest@(_ :: _) =>
    if x == 'x' || x == 'X' then (16, rest)
    else if x == 'o' || x == 'O' then (8, rest)
    else if x == 'b' || x == 'B' then (2, rest)
    else (8, x :: rest)
  | '0' :: rest => (8, rest)
  | cs => (10, cs)

/-- Reads a whole number of 64 bits. -/
def readInteger (s : String) : Except Fault Int :=
  let (negative, body) := splitSign s.toList
  if body.isEmpty then .error .malformed
  else
    let (base, ds) := splitBase body
    match readDigits? base ds with
    | none => .error .malformed
    | some n =>
      if ds.contains '_' && !underscoresFit body then .error .malformed
      else if negative then
        if n ≤ 2 ^ (63 : Nat) then .ok (-(n : Int)) else .error .outOfRange
      else if n < 2 ^ (63 : Nat) then .ok n
      else .error .outOfRange

end Formulary.Number
