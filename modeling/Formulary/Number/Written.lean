import Formulary.Number.Shortest

/-!
# Written numbers

How a number is written everywhere in the output: the shortest decimal that reads back, positionally
while its leading digit stands for `10 ^ (-4)` up to `10 ^ 5`, and otherwise with an exponent that
has a sign and at least two digits.
-/

namespace Formulary.Number

/-- The decisions of a number format. -/
structure Layout where
  /-- The least exponent of the leading digit that is written positionally. -/
  plainFrom : Int
  /-- The first exponent above that is not. -/
  plainBelow : Int
  /-- The least number of digits of a written exponent. -/
  exponentWidth : Nat

/-- The format of all numbers in the output. -/
def plain : Layout where
  plainFrom := -4
  plainBelow := 6
  exponentWidth := 2

/-- The digits of `n` in base ten. -/
def digitsOf (n : Nat) : List Char := Nat.toDigits 10 n

/-- The digits without the zeros at their end. -/
def dropZeros (ds : List Char) : List Char := (ds.reverse.dropWhile (· == '0')).reverse

/-- The digits with zeros in front, up to the width. -/
def padZeros (width : Nat) (ds : List Char) : List Char :=
  List.replicate (width - ds.length) '0' ++ ds

/-- The digits `ds`, which are not all zero, with the leading one at `10 ^ e`. -/
def Layout.write (l : Layout) (ds : List Char) (e : Int) : List Char :=
  if l.plainFrom ≤ e ∧ e < l.plainBelow then
    if e < 0 then
      '0' :: '.' :: (List.replicate (-e - 1).toNat '0' ++ ds)
    else
      let whole := ds.take (e.toNat + 1)
      let fraction := ds.drop (e.toNat + 1)
      whole ++ List.replicate (e.toNat + 1 - whole.length) '0' ++
        (if fraction.isEmpty then [] else '.' :: fraction)
  else
    let mantissa :=
      match ds with
      | d :: rest@(_ :: _) => d :: '.' :: rest
      | short => short
    mantissa ++ 'e' :: (if e < 0 then '-' else '+') ::
      padZeros l.exponentWidth (digitsOf e.natAbs)

/-- The decimal as text. -/
def Decimal.write (l : Layout) (d : Decimal) : List Char :=
  if d.digits == 0 then ['0']
  else
    let ds := digitsOf d.digits
    l.write (dropZeros ds) (d.exponent + ds.length - 1)

/-- The number as text. -/
def write (x : Float) : String :=
  match Double.ofFloat x with
  | .nan => "NaN"
  | .infinite negative => if negative then "-Inf" else "+Inf"
  | .finite negative b =>
    String.ofList ((if negative then ['-'] else []) ++ (shortest b).write plain)

end Formulary.Number
