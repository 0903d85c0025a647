import Formulary.Bindings
import Formulary.Ebnf.Production
import Formulary.Rules.Grammar
import Formulary.Text.Pascal
import Formulary.Text.Quoted

/-!
# Grammars as productions

Each rule becomes a production.  Its name is that of the rule in Pascal case, with a number behind
it if an earlier rule has taken the name.  A grammar is verified on its productions.
-/

namespace Formulary.Rules

/-- The names tried for a production when the names in `taken` are gone: the bare one, then numbered
ones.  One more than are gone is enough. -/
def candidates (taken : List String) (base : String) : List String :=
  base :: (List.range taken.length).map fun i => base ++ toString (i + 1)

/-- The first candidate that is not taken. -/
def freshName (taken : List String) (base : String) : String :=
  ((candidates taken base).find? fun name => !taken.contains name).getD base

/-- The names of the productions of rules with the given names, in order. -/
def productionNames (taken : List String) : List String → List String
  | [] => []
  | name :: names =>
    let fresh := freshName taken (Text.pascal name)
    fresh :: productionNames (taken ++ [fresh]) names

namespace Grammar

/-- The name of the production of each rule.  Of two rules with one name, the later counts. -/
def productions (g : Grammar) : Bindings String :=
  (g.names.zip (productionNames [] g.names)).foldl (fun b (name, p) => b.insert name p) []

/-- The name of the production that a reference leads to (`productionName`). -/
def productionOf (g : Grammar) (name : String) : String :=
  (g.productions.find? name).getD (Text.pascal name)

def itemProduction (g : Grammar) : Item → String
  | .rule name => g.productionOf name
  | .word text | .quoted text => Text.quote text

/-- A rule as a production. -/
def ruleProduction (g : Grammar) (r : Rule) : String :=
  let alternative (a : Alternative) : String := " ".intercalate (a.map g.itemProduction)
  g.productionOf r.name ++ " = " ++ " | ".intercalate (r.alternatives.map alternative) ++ " .\n"

/-- The grammar as productions, one a line (`EBNF`). -/
def ebnf (g : Grammar) : String := String.join (g.rules.map g.ruleProduction)

end Grammar

/-- Why a grammar is refused. -/
inductive GrammarError where
  | noRule
  | undefined (use : UndefinedRule)
  /-- Its productions are at fault; the file they are said to be in is named for the start rule. -/
  | productions (file : String) (first : Ebnf.Problem) (others : List Ebnf.Problem)
  deriving Repr, DecidableEq

def GrammarError.message : GrammarError → String
  | noRule => "grammar has no rule"
  | undefined use => use.message
  | productions file first others =>
    let more := if others.isEmpty then "" else s!" (and {others.length} more errors)"
    s!"ebnf: {first.message file}{more}"

namespace Grammar

/-- The rule that the grammar starts with (`Start`). -/
def start (g : Grammar) : Except GrammarError Rule :=
  match g.rules with
  | [] => .error .noRule
  | r :: _ => .ok r

/-- Checks that all rules in use are defined (`Validate`). -/
def validate (similar : Text.Similarity) (g : Grammar) : Except GrammarError Unit :=
  if g.rules.isEmpty then .error .noRule
  else
    match g.undefined? similar with
    | some use => .error (.undefined use)
    | none => .ok ()

/-- Fails if there are problems. -/
def refuse (file : String) : List Ebnf.Problem → Except GrammarError Unit
  | [] => .ok ()
  | first :: others => .error (.productions file first others)

/-- Checks that all rules in use are defined and that all rules are in use (`Verify`).  The second
is left to the package that checks productions. -/
def verify (similar : Text.Similarity) (k : Ebnf.Package) (g : Grammar) :
    Except GrammarError Unit := do
  g.validate similar
  let start ← g.start
  let (productions, problems) := k.read (.ofString g.ebnf)
  refuse start.name problems
  refuse start.name (k.verify productions (g.productionOf start.name))

end Grammar

end Formulary.Rules
