import Formulary.Number.Shortest
import Formulary.Text.Quoted

/-!
# Reading numbers

A number text is a decimal or a hexadecimal literal with an optional sign, or one of the names of
infinity and of the value that is no number.  Single underscores may separate digits.  A value too
large for a double is refused; one too small is zero.
-/

namespace Formulary.Number

-- The power is the one of `NatPow`, whatever other instances are in scope.
attribute [local instance (high)] instPowNat

/-- Why a text is not read as a number. -/
inductive Fault where
  | malformed
  | outOfRange
  deriving Repr, DecidableEq

/-- A text that could not be read as a number. -/
structure NumberError where
  text : String
  fault : Fault
  deriving Repr, DecidableEq

def Fault.message : Fault → String
  | .malformed => "invalid syntax"
  | .outOfRange => "value out of range"

def NumberError.message (e : NumberError) : String :=
  s!"strconv.ParseFloat: parsing {Text.quote e.text}: {e.fault.message}"

def isDecimalDigit (c : Char) : Bool := '0' ≤ c && c ≤ '9'

/-- The value of `c` as a digit of the given base. -/
def digitIn? (base : Nat) (c : Char) : Option Nat :=
  (Text.hexValue? c).filter (· < base)

/-- The characters with the sign in front of them split off. -/
def splitSign : List Char → Bool × List Char
  | '-' :: cs => (true, cs)
  | '+' :: cs => (false, cs)
  | cs => (false, cs)

/-- Digits read so far: their value, how many there are, and how many of them stand after the
point, if there was one. -/
structure Mantissa where
  value : Nat
  count : Nat
  fraction : Option Nat
  deriving Repr, DecidableEq

/-- Reads the digits of a mantissa with at most one point; underscores are passed over. -/
def readMantissa (base : Nat) : Mantissa → List Char → Mantissa × List Char
  | m, [] => (m, [])
  | m, c :: cs =>
    if c == '_' then readMantissa base m cs
    else if c == '.' then
      match m.fraction with
      | some _ => (m, c :: cs)
      | none => readMantissa base { m with fraction := some 0 } cs
    else
      match digitIn? base c with
      | some d =>
        readMantissa base ⟨m.value * base + d, m.count + 1, m.fraction.map (· + 1)⟩ cs
      | none => (m, c :: cs)

/-- The exponents worth telling apart; a longer row of digits changes nothing. -/
def exponentBound : Nat := 10000

/-- Reads the digits of an exponent; underscores are passed over. -/
def readExponent : Nat → List Char → Nat × List Char
  | e, [] => (e, [])
  | e, c :: cs =>
    if c == '_' then readExponent e cs
    else
      match digitIn? 10 c with
      | some d => readExponent (if e < exponentBound then e * 10 + d else e) cs
      | none => (e, c :: cs)

/-- What the underscores of a literal are checked against. -/
inductive Seen where
  | start
  | digit
  | underscore
  | other
  deriving Repr, DecidableEq

/-- Whether every underscore stands between two digits. -/
def underscoresFrom (hexadecimal : Bool) : Seen → List Char → Bool
  | seen, [] => seen != .underscore
  | seen, c :: cs =>
    if isDecimalDigit c || (hexadecimal && (Text.hexValue? c).isSome) then
      underscoresFrom hexadecimal .digit cs
    else if c == '_' then
      if seen == .digit then underscoresFrom hexadecimal .underscore cs else false
    else if seen == .underscore then false
    else underscoresFrom hexadecimal .other cs

/-- Whether every underscore separates two digits; the mark of a base counts as a digit. -/
def underscoresFit (cs : List Char) : Bool :=
  match (splitSign cs).2 with
  | '0' :: x :: rest =>
    if x == 'x' || x == 'X' then underscoresFrom true .digit rest
    else if x == 'b' || x == 'B' || x == 'o' || x == 'O' then underscoresFrom false .digit rest
    else underscoresFrom false .start ('0' :: x :: rest)
  | rest => underscoresFrom false .start rest

/-- The double nearest to `digits * 10 ^ e`. -/
def ofDecimal? (negative : Bool) (digits : Nat) (e : Int) : Option Float :=
  let size : Int := (Nat.toDigits 10 digits).length + e
  if digits == 0 || size < -400 then some (ofMagnitudeBits negative 0)
  else if 400 < size then none
  else nearestFloat? negative (digits * 10 ^ e.toNat) (10 ^ (-e).toNat)

/-- The double nearest to `digits * 2 ^ e`. -/
def ofBinary? (negative : Bool) (digits : Nat) (e : Int) : Option Float :=
  let size : Int := digits.log2 + e
  if digits == 0 || size < -1200 then some (ofMagnitudeBits negative 0)
  else if 1200 < size then none
  else nearestFloat? negative (digits * 2 ^ e.toNat) (2 ^ (-e).toNat)

/-- The exponent after its mark, or none when digits are missing. -/
def readSignedExponent? (cs : List Char) : Option (Int × List Char) :=
  let (negative, cs) := splitSign cs
  if (cs.head?.any isDecimalDigit) then
    let (e, rest) := readExponent 0 cs
    some (if negative then -(e : Int) else e, rest)
  else none

/-- Reads a literal without its sign: whether it is hexadecimal, its mantissa, and its exponent of
two or ten. -/
def readUnsigned? (cs : List Char) : Option (Bool × Mantissa × Int × List Char) :=
  let (hexadecimal, body) :=
    match cs with
    | '0' :: x :: rest@(_ :: _) => if x == 'x' || x == 'X' then (true, rest) else (false, cs)
    | _ => (false, cs)
  let (m, rest) := readMantissa (if hexadecimal then 16 else 10) ⟨0, 0, none⟩ body
  if m.count == 0 then none
  else
    match rest with
    | c :: after =>
      if (if hexadecimal then c == 'p' || c == 'P' else c == 'e' || c == 'E') then
        (readSignedExponent? after).map fun (e, rest) => (hexadecimal, m, e, rest)
      else if hexadecimal then none
      else some (false, m, 0, rest)
    | [] => if hexadecimal then none else some (false, m, 0, [])

/-- The names of infinity and of the value that is no number, in any mixture of cases. -/
def readNamed? (s : String) : Option Float :=
  match s.toLower with
  | "inf" | "+inf" | "infinity" | "+infinity" => some (ofMagnitudeBits false infinityBits)
  | "-inf" | "-infinity" => some (ofMagnitudeBits true infinityBits)
  | "nan" => some (ofMagnitudeBits false (infinityBits + 2 ^ (51 : Nat)))
  | _ => none

/-- Reads a number literal. -/
def readLiteral (cs : List Char) : Except Fault Float :=
  let (negative, body) := splitSign cs
  match readUnsigned? body with
  | some (hexadecimal, m, e, []) =>
    if underscoresFit cs then
      let after : Int := m.fraction.getD 0
      let value :=
        if hexadecimal then ofBinary? negative m.value (e - 4 * after)
        else ofDecimal? negative m.value (e - after)
      match value with
      | some x => .ok x
      | none => .error .outOfRange
    else .error .malformed
  | _ => .error .malformed

/-- Reads a number. -/
def read (s : String) : Except NumberError Float :=
  match readNamed? s with
  | some x => .ok x
  | none => (readLiteral s.toList).mapError (⟨s, ·⟩)

end Formulary.Number
