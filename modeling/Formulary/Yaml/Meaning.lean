import Formulary.Calendar
import Formulary.Number.Arithmetic
import Formulary.Number.Integer
import Formulary.Text.Base64
import Formulary.Text.Source
import Formulary.Yaml.Node

/-!
# What scalars stand for

A plain scalar without a tag stands for what its text looks like.  With the tag of a kind it has to
look like one of that kind; with any other tag it is a text.
-/

namespace Formulary.Yaml

-- The power is the one of `NatPow`, whatever other instances are in scope.
attribute [local instance (high)] instPowNat

inductive Meaning where
  | null
  | flag
  | whole (n : Int)
  | decimal (x : Float)
  | moment
  | text (s : String)
  deriving Repr

/-- The tag of the kind. -/
def Meaning.tag : Meaning → String
  | null => "!!null"
  | flag => "!!bool"
  | whole _ => "!!int"
  | decimal _ => "!!float"
  | moment => "!!timestamp"
  | text _ => Node.textTag

/-! ## Texts with a look of their own -/

/-- The names of things that are not numbers in the usual sense. -/
def named? : String → Option Meaning
  | "" | "~" | "null" | "Null" | "NULL" => some .null
  | "true" | "True" | "TRUE" | "false" | "False" | "FALSE" => some .flag
  | ".nan" | ".NaN" | ".NAN" =>
    some (.decimal (Number.ofMagnitudeBits false (Number.infinityBits + 2 ^ (51 : Nat))))
  | ".inf" | ".Inf" | ".INF" | "+.inf" | "+.Inf" | "+.INF" =>
    some (.decimal (Number.ofMagnitudeBits false Number.infinityBits))
  | "-.inf" | "-.Inf" | "-.INF" => some (.decimal (Number.ofMagnitudeBits true Number.infinityBits))
  | _ => none

/-- Whether the text is a date, or a date and a time.  A time behind a blank has no distance from
universal time, any other time has one. -/
def isMoment (cs : List Char) : Bool :=
  (cs.takeWhile Number.isDecimalDigit).length == 4
    && (Calendar.whole (Calendar.instant? 1 'T') cs || Calendar.whole (Calendar.instant? 1 't') cs
      || match Calendar.date? 1 cs with
        | some [] => true
        | some (' ' :: rest) => Calendar.whole (Calendar.time? 1) (rest.dropWhile (· == ' '))
        | _ => false)

/-- A whole number without sign of 64 bits. -/
def unsigned? (cs : List Char) : Option Int :=
  let (base, ds) := Number.splitBase cs
  match cs, Number.readDigits? base ds with
  | [], _ => none
  | _, some n => if n < 2 ^ (64 : Nat) then some n else none
  | _, none => none

/-- A whole number of 64 bits with a sign behind the mark of its base. -/
def signAfterBase? (cs : List Char) : Option Int := do
  let (base, cs) ← match cs with
    | '0' :: 'b' :: cs => some (2, cs)
    | '0' :: 'o' :: cs => some (8, cs)
    | _ => none
  let (negative, ds) := Number.splitSign cs
  let n ← Number.readDigits? base ds
  if ds.isEmpty then none
  else if negative then if n ≤ 2 ^ (63 : Nat) then some (-(n : Int)) else none
  else if n < 2 ^ (63 : Nat) then some n
  else none

/-- Whether the text is a decimal number with at least one digit and no digits missing. -/
def isDecimal (cs : List Char) : Bool :=
  let (mantissa, exponent) := (Number.splitSign cs).2.span fun c => c != 'e' && c != 'E'
  let (whole, fraction) := mantissa.span (· != '.')
  let digits (cs : List Char) : Bool := cs.all Number.isDecimalDigit
  let power := (Number.splitSign exponent.tail).2
  digits whole && digits fraction.tail
    && !(whole.isEmpty && fraction.tail.isEmpty)
    && (exponent.isEmpty || (digits power && !power.isEmpty))

/-- The number that a text starting with a digit or a sign stands for.  Underscores are left out. -/
def number? (s : String) : Option Meaning :=
  let cs := s.toList.filter (· != '_')
  let text := String.ofList cs
  let decimal? := if isDecimal cs then (Number.read text).toOption else none
  ((Number.readInteger text).toOption.map .whole)
    <|> ((unsigned? cs).map .whole)
    <|> (decimal?.map .decimal)
    <|> ((signAfterBase? cs).map .whole)

/-- What a text looks like.  `moments` tells whether it may be a date. -/
def meaningOf (moments : Bool) (s : String) : Meaning :=
  match named? s with
  | some m => m
  | none =>
    match s.toList with
    | '.' :: _ => ((Number.read s).toOption.map .decimal).getD (.text s)
    | c :: _ =>
      if Number.isDecimalDigit c || c == '+' || c == '-' then
        if moments && isMoment s.toList then .moment else (number? s).getD (.text s)
      else .text s
    | [] => .text s

/-! ## Tags -/

/-- What a scalar stands for, or none if its tag does not fit.  A tag of binary data makes it the
text that has these bytes. -/
def scalarMeaning? (text tag : String) : Option Meaning :=
  match tag with
  | "" => some (meaningOf true text)
  | "!!binary" =>
    (Text.Base64.decode? text).map fun bytes =>
      .text (String.ofList (Text.Source.ofBytes bytes).chars)
  | "!!float" =>
    match meaningOf false text with
    | .decimal x => some (.decimal x)
    | .whole n => if n < 2 ^ (63 : Nat) then some (.decimal (Number.ofWhole n)) else none
    | _ => none
  | "!!null" | "!!bool" | "!!int" | "!!timestamp" =>
    let m := meaningOf (tag == "!!timestamp") text
    if m.tag == tag then some m else none
  | _ => some (.text text)

end Formulary.Yaml
