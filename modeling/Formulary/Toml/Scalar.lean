import Formulary.Calendar
import Formulary.Toml.Value

/-!
# TOML scalars

Numbers, truth values and moments are single words.  Digits may be separated by single underscores,
and a decimal number has no needless zeros in front.
-/

namespace Formulary.Toml

open Number (digitIn? splitSign)

-- The power is the one of `NatPow`, whatever other instances are in scope.
attribute [local instance (high)] instPowNat

/-- A row of digits that single underscores may separate. -/
def digitsFit (base : Nat) : List Char → Bool
  | [] => false
  | [c] => (digitIn? base c).isSome
  | c :: '_' :: rest => (digitIn? base c).isSome && digitsFit base rest
  | c :: rest => (digitIn? base c).isSome && digitsFit base rest

/-- The value of a row of digits. -/
def digitsValue (base : Nat) (cs : List Char) : Nat :=
  cs.foldl (fun n c => match digitIn? base c with
    | some d => n * base + d
    | none => n) 0

/-- Whether the digits of a decimal number start as they should. -/
def leadFits : List Char → Bool
  | '0' :: _ :: _ => false
  | _ => true

/-- The number, if it has room in 64 bits. -/
def bounded? (n : Int) : Option Int :=
  if -(2 ^ (63 : Nat)) ≤ n && n < 2 ^ (63 : Nat) then some n else none

def wholeOf? (cs : List Char) : Option Int :=
  match cs with
  | '0' :: 'x' :: ds => if digitsFit 16 ds then bounded? (digitsValue 16 ds) else none
  | '0' :: 'o' :: ds => if digitsFit 8 ds then bounded? (digitsValue 8 ds) else none
  | '0' :: 'b' :: ds => if digitsFit 2 ds then bounded? (digitsValue 2 ds) else none
  | _ =>
    let (negative, ds) := splitSign cs
    if digitsFit 10 ds && leadFits ds then
      bounded? (if negative then -(digitsValue 10 ds : Int) else digitsValue 10 ds)
    else none

def isExponentMark (c : Char) : Bool := c == 'e' || c == 'E'

/-- Whether the text is that of a number with a fraction or an exponent. -/
def isDecimal (cs : List Char) : Bool :=
  let (mantissa, exponent) := (splitSign cs).2.span (!isExponentMark ·)
  let (whole, fraction) := mantissa.span (· != '.')
  digitsFit 10 whole && leadFits whole
    && (fraction.isEmpty || digitsFit 10 fraction.tail)
    && (exponent.isEmpty || digitsFit 10 (splitSign exponent.tail).2)
    && !(fraction.isEmpty && exponent.isEmpty)

def decimalOf? (cs : List Char) : Option Float :=
  match String.ofList cs with
  | "inf" | "+inf" => some (Number.ofMagnitudeBits false Number.infinityBits)
  | "-inf" => some (Number.ofMagnitudeBits true Number.infinityBits)
  | "nan" | "+nan" | "-nan" =>
    some (Number.ofMagnitudeBits false (Number.infinityBits + 2 ^ (51 : Nat)))
  | _ =>
    if isDecimal cs then (Number.read (String.ofList (cs.filter (· != '_')))).toOption else none

/-- The moment with capital marks, and the mark of a time for a blank. -/
def momentChar (c : Char) : Char :=
  if c == 't' || c == ' ' then 'T' else if c == 'z' then 'Z' else c

def isDate (cs : List Char) : Bool := Calendar.whole (Calendar.date? 2) cs

def isMoment (cs : List Char) : Bool :=
  let cs := cs.map momentChar
  Calendar.whole (Calendar.instant? 2 'T') cs || Calendar.whole (Calendar.dateTime? 2 'T') cs
    || isDate cs || Calendar.whole (Calendar.time? 2) cs

/-- The value that a word stands for. -/
def scalarOf? (cs : List Char) : Option Value :=
  match String.ofList cs with
  | "true" => some (.flag true)
  | "false" => some (.flag false)
  | s =>
    match wholeOf? cs with
    | some n => some (.whole n)
    | none =>
      match decimalOf? cs with
      | some x => some (.decimal x)
      | none => if isMoment cs then some (.moment s) else none

end Formulary.Toml
