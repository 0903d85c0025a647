import Formulary.Arith.Settings
import Formulary.Number.Arithmetic
import Formulary.Toml.Document

/-!
# Settings in TOML

A setting must have the kind of value that it asks for.  The case of its name does not count.
-/

namespace Formulary.Arith.Settings

open Toml (Value)

-- The power is the one of `NatPow`, whatever other instances are in scope.
attribute [local instance (high)] instPowNat

def tomlTexts? : Value → Option (List String)
  | .list items => items.mapM fun
    | .text s => some s
    | _ => none
  | _ => none

def tomlLevels? : Value → Option (List (List String))
  | .list items => items.mapM tomlTexts?
  | _ => none

/-- A number; a whole one must be one that doubles can tell from its neighbours. -/
def tomlNumber? : Value → Option Float
  | .decimal x => some x
  | .whole n =>
    if n.natAbs < 2 ^ (53 : Nat) then some (Number.ofWhole n) else none
  | _ => none

/-- The constants of a table.  What is no table sets nothing. -/
def tomlConstants? : Value → Option (Option (Bindings Float))
  | .table es => (es.mapM fun e => (tomlNumber? e.2).map (e.1, ·)).map some
  | _ => some none

/-- The small letter that two characters share if they differ only by case; the long s and the sign
of the unit kelvin count as letters. -/
def foldCase (c : Char) : Char :=
  if c == 'ſ' then 's' else if c == '\u212a' then 'k' else c.toLower

/-- Takes one entry of a document into account.  The case of a name does not count. -/
def addToml (s : Settings) (entry : String × Value) : Option Settings := do
  let (k, v) := entry
  match String.ofList (k.toList.map foldCase) with
  | "levels" => return { s with levels := ← tomlLevels? v }
  | "unary" => return { s with unary := some (← tomlTexts? v) }
  | "functions" => return { s with functions := some (← tomlTexts? v) }
  | "max-depth" =>
    match v with
    | .whole n => return { s with maxDepth := n }
    | _ => none
  | "constants" => return { s with constants := ← tomlConstants? v }
  | _ => return s

/-- The settings in a TOML document. -/
def ofToml? (text : String) : Option Settings := do
  (← Toml.parse? text).foldlM addToml unset

end Formulary.Arith.Settings
