import Formulary.Arith.Settings
import Formulary.Number.Arithmetic
import Formulary.Yaml.Document
import Formulary.Yaml.Fields

/-!
# Settings in YAML

A setting that is null is not set.  What is null within a list of texts is left out, and a constant
that is null is zero.
-/

namespace Formulary.Arith.Settings

open Yaml (Node Visits visitScalar visitText visitItems)

-- The power is the one of `NatPow`, whatever other instances are in scope.
attribute [local instance (high)] instPowNat

/-- A list of texts, or null. -/
def yamlTexts (n : Node) : Visits (Option (List String)) := do
  return (← visitItems visitText n).map (·.filterMap id)

/-- The levels of a list; one that is null is empty. -/
def yamlLevels (n : Node) : Visits (List (List String)) := do
  return ((← visitItems yamlTexts n).getD []).map (·.getD [])

/-- The whole part of a double in 64 bits.  Whatever has no room there becomes the least number, but
numbers that are too large and what is no number are refused. -/
def wholeOf? (x : Float) : Option Int :=
  if x ≤ 9223372036854775807.0 then
    let n := (Number.wholePart? x).getD (-(2 ^ (63 : Nat)))
    some (if -(2 ^ (63 : Nat)) ≤ n && n < 2 ^ (63 : Nat) then n else -(2 ^ (63 : Nat)))
  else none

/-- A whole number of 64 bits; parts of it are cut off, and null counts as zero. -/
def yamlWhole (n : Node) : Visits Int := do
  match ← visitScalar n with
  | .null => return 0
  | .whole n => if n < 2 ^ (63 : Nat) then return n else failure
  | .decimal x => wholeOf? x
  | _ => failure

/-- A number, or null. -/
def yamlNumber (n : Node) : Visits (Option Float) := do
  match ← visitScalar n with
  | .null => return none
  | .whole n => return some (Number.ofWhole n)
  | .decimal x => return some x
  | _ => failure

/-- Binds a constant.  One that is null does not replace another if it is that of a merged map. -/
def takeConstant : Yaml.FieldTaker (Bindings Float) := fun merged b name n => do
  match ← yamlNumber n with
  | some x => return b.insert name x
  | none => return if merged && b.holds name then b else b.insert name 0.0

/-- The constants of a map, or null.  Merged maps are nested `steps` deep at most. -/
def yamlConstants (steps : Nat) : Node → Visits (Option (Bindings Float)) :=
  Yaml.visit fun
    | .map es => return some (← Yaml.takeFields takeConstant steps es [])
    | n => if n.isNull then return none else failure

/-- The names of the settings. -/
def names : List String := ["levels", "unary", "functions", "max-depth", "constants"]

/-- Sets what a name stands for. -/
def assign (steps : Nat) (s : Settings) (name : String) (n : Node) : Visits Settings := do
  match name with
  | "levels" => return { s with levels := ← yamlLevels n }
  | "unary" => return { s with unary := ← yamlTexts n }
  | "functions" => return { s with functions := ← yamlTexts n }
  | "max-depth" => return { s with maxDepth := ← yamlWhole n }
  | "constants" => return { s with constants := ← yamlConstants steps n }
  | _ => return s

/-- Takes one field of a document into account, beside the names of the settings met before: none
stands twice. -/
def takeSetting (steps : Nat) : Yaml.FieldTaker (Settings × List String) :=
  fun _ (s, met) name n => do
    if !names.contains name then return (s, met)
    else if met.contains name then failure
    else return (← assign steps s name n, name :: met)

/-- The settings in the root of a document. -/
def yamlSettings (steps : Nat) : Node → Visits Settings :=
  Yaml.visit fun
    | .map es => return (← Yaml.takeFields (takeSetting steps) steps es (unset, [])).1
    | n => if n.isNull then return unset else failure

/-- The settings in a YAML document.  The document itself counts as visited, too. -/
def ofYaml? (text : String) : Option Settings := do
  let root ← Yaml.parse? text
  (do Yaml.count; yamlSettings (text.length + 1) root : Visits Settings).run' .zero

end Formulary.Arith.Settings
