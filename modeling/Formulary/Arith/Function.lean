import Formulary.Number.Arithmetic

/-!
# Functions

The functions that formulas can call, each with the number of arguments it takes.
-/

namespace Formulary.Arith

inductive Function where
  | one (f : Float → Float)
  | two (f : Float → Float → Float)
  /-- Takes one or more arguments and joins them from left to right. -/
  | many (f : Float → Float → Float)

namespace Function

/-- Whether the function takes `n` arguments. -/
def accepts : Function → (n : Nat) → Bool
  | one _, n => n == 1
  | two _, n => n == 2
  | many _, n => 0 < n

/-- The value at the arguments, if there is the right number of them. -/
def at? : Function → List Float → Option Float
  | one f, [x] => some (f x)
  | two f, [x, y] => some (f x y)
  | many f, x :: xs => some (xs.foldl f x)
  | _, _ => none

end Function

/-- The functions by name, in the order of their names (`builtins`). -/
def functions : List (String × Function) := [
  ("abs", .one Float.abs),
  ("acos", .one Float.acos),
  ("asin", .one Float.asin),
  ("atan", .one Float.atan),
  ("atan2", .two Float.atan2),
  ("ceil", .one Float.ceil),
  ("cos", .one Float.cos),
  ("exp", .one Float.exp),
  ("floor", .one Float.floor),
  ("hypot", .two Number.hypotenuse),
  ("log", .one Float.log),
  ("max", .many Number.greater),
  ("min", .many Number.lesser),
  ("pow", .two Float.pow),
  ("sin", .one Float.sin),
  ("sqrt", .one Float.sqrt),
  ("tan", .one Float.tan)]

def functionNames : List String := functions.map (·.1)

def function? (name : String) : Option Function := functions.lookup name

end Formulary.Arith
