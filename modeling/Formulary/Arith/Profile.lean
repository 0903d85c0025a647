import Formulary.Arith.Function
import Formulary.Arith.Op
import Formulary.Arith.Scan
import Formulary.Chain.Parser
import Formulary.Number.Literal
import Formulary.Scope

/-!
# Profiles

A profile is a dialect of arithmetic: its operators by level, its unary operators, the functions
that can be called, a limit of depth and constants.  Compiled, it parses formulas.
-/

namespace Formulary.Arith

open Chain (ConfigError Grammar ParseError Role)

structure Profile where
  /-- The binary operators by level of precedence, the loosest first. -/
  levels : List (List String)
  unary : List String
  functions : List String
  /-- The greatest depth of formulas, zero or less for no limit. -/
  maxDepth : Int
  constants : Bindings Float
  deriving Repr

namespace Profile

/-- The profile without any operator, function or constant. -/
def bare : Profile := ⟨[], [], [], 0, []⟩

/-- The profile used when none is given (`DefaultProfile`). -/
def standard : Profile where
  levels := [["+", "-"], ["*", "/", "%"], ["^"]]
  unary := ["-", "+"]
  functions := functionNames
  maxDepth := 0
  constants := [("e", 2.718281828459045), ("pi", 3.141592653589793)]

/-- The kinds of the operators of one level. -/
def levelKinds (index : Nat) (ops : List String) : Except ConfigError (List Kind) :=
  ops.mapM fun op =>
    match Symbol.ofOperator? op with
    | some s => .ok s.kind
    | none => .error (.unknownOperator index op)

/-- The kinds of the operators of the levels from the given index on. -/
def binaryKinds : (index : Nat) → List (List String) → Except ConfigError (List (List Kind))
  | _, [] => .ok []
  | index, ops :: levels => do
    let kinds ← levelKinds index ops
    let others ← binaryKinds (index + 1) levels
    return kinds :: others

def unaryKinds (ops : List String) : Except ConfigError (List Kind) :=
  ops.mapM fun op =>
    match Symbol.ofOperator? op with
    | some s => .ok s.kind
    | none => .error (.unknownUnary op)

/-- All functions have to be known ones. -/
def checkFunctions (names : List String) : Except ConfigError Unit :=
  match names.find? fun name => (function? name).isNone with
  | some name => .error (.unknownFunction name)
  | none => .ok ()

/-- The grammar of the profile (`Profile.grammar`). -/
def grammar (p : Profile) : Except ConfigError Grammar := do
  let binaries ← binaryKinds 0 p.levels
  let unaries ← unaryKinds p.unary
  checkFunctions p.functions
  return {
    leftParen := some Symbol.leftParen.kind
    rightParen := some Symbol.rightParen.kind
    comma := some Symbol.comma.kind
    binaries, unaries
    identifiers := [Symbol.number.kind, Symbol.ident.kind]
    isFunction := p.functions.contains }

/-- The last of the levels from `index` on that lists the operator, or `found` if none does. -/
def lastLevel (op : String) : (found index : Nat) → List (List String) → Nat
  | found, _, [] => found
  | found, index, ops :: levels =>
    lastLevel op (if ops.contains op then index else found) (index + 1) levels

/-- The level of precedence of an operator (`Profile.levels`). -/
def levelOf (p : Profile) (op : String) : Nat := lastLevel op 0 0 p.levels

/-- The node that a token stands for (`Parser.convert`). -/
def convert (p : Profile) (t : Token) (role : Role) : Except Number.NumberError Op :=
  match role with
  | .binaryOperator => .ok (.binary t.value (p.levelOf t.value))
  | .unaryOperator => .ok (.unary t.value)
  | .function => .ok (.call t.value)
  | .atom =>
    if t.code == Symbol.number.kind.code then (Number.read t.value).map .const
    else .ok (.var t.value)

end Profile

/-- How a number that can not be converted is reported. -/
def conversionReason (e : Number.NumberError) : String := s!"invalid number: {e.message}"

abbrev FormulaError := ParseError Number.NumberError

def formulaMessage (e : FormulaError) : String := e.message conversionReason

/-- A compiled profile. -/
structure Dialect where
  profile : Profile
  parser : Chain.Parser Number.NumberError Op

namespace Dialect

/-- Compiles a profile (`Compile`). -/
def compile (p : Profile) : Except ConfigError Dialect := do
  let g ← p.grammar
  let parser ← Chain.Parser.build g (some p.convert)
  return ⟨p, parser.withLimit p.maxDepth⟩

/-- The dialect with another limit of depth. -/
def withLimit (d : Dialect) (limit : Int) : Dialect :=
  { d with parser := d.parser.withLimit limit }

/-- Parses a formula, and tells what happened on the way. -/
def trace (d : Dialect) (s : Text.Source) : Chain.Outcome Number.NumberError Formula :=
  Chain.runOn (.ofFeed (feed s)) d.parser.parseAll

/-- Parses a formula (`Parser.Parse`). -/
def parse (d : Dialect) (s : Text.Source) : Except FormulaError Formula := (d.trace s).result

/-- The environment of formulas: the variables, enclosed by the constants of the profile
(`Parser.Environ`). -/
def environment (d : Dialect) (vars : Bindings Float) : Except ScopeError (Environment Float) :=
  (Environment.within d.profile.constants).defineAll vars

end Dialect

end Formulary.Arith
