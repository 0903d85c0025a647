import Formulary.Arith.Assignment
import Formulary.Arith.ProfileFile
import Formulary.Command.Host
import Formulary.Command.Toolkit
import Formulary.Session

/-!
# Commands on formulas

`parse` prints a formula in one of several notations, `eval` prints its value.
-/

namespace Formulary.Command

open Arith (Dialect Formula Profile formulaMessage)

variable {m : Type → Type} [Monad m]

/-- What all commands on formulas can be told about the profile. -/
structure ProfileOptions where
  config : String
  maxDepth : Int

/-- The standard profile and no limit of its own. -/
def ProfileOptions.preset : ProfileOptions := ⟨"", 0⟩

def configFlag {σ : Type} (set : σ → String → σ) : Flag σ :=
  .text "config" "profile file (yaml or toml) defining operators and functions" none set

/-- The profile that the options name. -/
def ProfileOptions.profile (o : ProfileOptions) (host : Host m) : m (Except String Profile) :=
  if o.config.isEmpty then pure (.ok .standard)
  else do
    match ← host.read o.config with
    | .error e => pure (.error e.message)
    | .ok content => pure ((Profile.ofFile o.config content).mapError (·.message))

/-- The compiled profile that the options name.  A limit among the options wins. -/
def ProfileOptions.dialect (o : ProfileOptions) (host : Host m) : m (Except String Dialect) := do
  let profile ← o.profile host
  return do
    let d ← (Dialect.compile (← profile)).mapError (·.message)
    return if 0 < o.maxDepth then d.withLimit o.maxDepth else d

/-! ## parse -/

structure ParseOptions extends ProfileOptions where
  format : String
  trace : Bool

/-- The text of a formula in the notation of the given name. -/
def formatted (format : String) (t : Formula) : Except String String :=
  match format with
  | "tree" | "" => .ok (t.outline (·.label))
  | "lisp" => .ok (t.lisp (·.label) ++ "\n")
  | "parens" => .ok (t.parens (·.label) ++ "\n")
  | "infix" => .ok (Arith.format t ++ "\n")
  | "dot" => .ok (t.graph (·.label) "formula")
  | _ => .error s!"{format}: unsupported format"

def parseFlags : List (Flag ParseOptions) := [
  configFlag fun o config => { o with config },
  .text "format" "output format: tree, lisp, parens, infix or dot" (some "tree")
    fun o format => { o with format },
  .whole "max-depth" "maximum nesting of the formula" fun o maxDepth => { o with maxDepth },
  .switch "trace" "trace parsing rules on stderr" fun o trace => { o with trace }]

/-- Parses a text and prints the formula. -/
def parseText (o : ParseOptions) (d : Dialect) (text : String) : Report :=
  let outcome := d.trace (.ofString text)
  let log :=
    if o.trace then String.join (outcome.events.map (·.line Arith.conversionReason)) else ""
  let printed := (outcome.result.mapError formulaMessage).bind (formatted o.format)
  (Report.ofResult printed).warned log

def parseCommand : Subcommand m :=
  .ofFlags "parse" [] "parse a formula and print its tree" parseFlags
    ⟨.preset, "tree", false⟩ fun host o operands => do
      match ← o.dialect host with
      | .error message => pure (.failed message)
      | .ok d => return parseText o d (← inputText host operands)

/-! ## eval -/

structure EvalOptions extends ProfileOptions where
  vars : Bindings Float

def evalFlags : List (Flag EvalOptions) := [
  configFlag fun o config => { o with config },
  ⟨"var", some "value", "define a variable with name=value", none, fun o text =>
    match Arith.assign o.vars text with
    | .ok vars => .ok { o with vars }
    | .error e => .error e.message⟩]

/-- The value of a text in a dialect. -/
def evalText (similar : Text.Similarity) (d : Dialect) (vars : Bindings Float) (text : String) :
    Except String String := do
  let t ← (d.parse (.ofString text)).mapError formulaMessage
  let env ← (d.environment vars).mapError (·.message)
  let v ← (Arith.eval similar env t).mapError (·.explained)
  return Number.write v ++ "\n"

def evalCommand (kit : Toolkit) : Subcommand m :=
  .ofFlags "eval" ["calc"] "evaluate a formula" evalFlags ⟨.preset, []⟩ fun host o operands => do
    match ← o.dialect host with
    | .error message => pure (.failed message)
    | .ok d => return .ofResult (evalText kit.similar d o.vars (← inputText host operands))

end Formulary.Command
