/-!
# Bytes in base sixty-four

Four characters stand for three bytes.  The last bytes are filled up with signs of equality, and
line ends do not count.
-/

namespace Formulary.Text.Base64

/-- The value of a digit. -/
def digit? (c : Char) : Option Nat :=
  if 'A' ≤ c && c ≤ 'Z' then some (c.toNat - 0x41)
  else if 'a' ≤ c && c ≤ 'z' then some (c.toNat - 0x61 + 26)
  else if '0' ≤ c && c ≤ '9' then some (c.toNat - 0x30 + 52)
  else if c == '+' then some 62
  else if c == '/' then some 63
  else none

/-- The bytes of digits in groups of four. -/
def groups? : List Char → Option (List Nat)
  | [] => some []
  | [a, b, '=', '='] => do return [((← digit? a) * 64 + (← digit? b)) / 16]
  | [a, b, c, '='] => do
    let n := ((← digit? a) * 64 + (← digit? b)) * 64 + (← digit? c)
    return [n / 1024, n / 4 % 256]
  | a :: b :: c :: d :: rest => do
    let n := (((← digit? a) * 64 + (← digit? b)) * 64 + (← digit? c)) * 64 + (← digit? d)
    return n / 65536 :: n / 256 % 256 :: n % 256 :: (← groups? rest)
  | _ => none

/-- The bytes that a text stands for. -/
def decode? (s : String) : Option (List Nat) :=
  groups? (s.toList.filter fun c => c != '\n' && c != '\r')

end Formulary.Text.Base64
