import Formulary.Text.Distance

/-!
# Grammars

A grammar is a list of rules, the first of which is the start rule.  A rule has alternatives, each a
sequence of items: references to rules and terminals, the latter as plain words or between quotes.
-/

namespace Formulary.Rules

inductive Item where
  | rule (name : String)
  | word (text : String)
  | quoted (text : String)
  deriving Repr, DecidableEq

abbrev Alternative := List Item

structure Rule where
  name : String
  alternatives : List Alternative
  deriving Repr, DecidableEq

structure Grammar where
  rules : List Rule
  deriving Repr, DecidableEq

/-! ## Text -/

/-- A reference to a rule (`NonTerminal.String`). -/
def reference (name : String) : String := "<" ++ name ++ ">"

/-- How a character is written between single quotes. -/
def quotedChar (c : Char) : List Char := if c == '\x27' || c == '\\' then ['\\', c] else [c]

def Item.text : Item → String
  | rule name => reference name
  | word text => text
  | quoted text => String.ofList (['\x27'] ++ text.toList.flatMap quotedChar ++ ['\x27'])

def alternativeText (a : Alternative) : String := " ".intercalate (a.map Item.text)

def Rule.text (r : Rule) : String :=
  reference r.name ++ " ::= " ++ " | ".intercalate (r.alternatives.map alternativeText)

/-- The grammar as it is read, one rule a line (`Grammar.String`). -/
def Grammar.text (g : Grammar) : String := String.join (g.rules.map fun r => r.text ++ "\n")

/-! ## Contents -/

/-- The terminal that an item is. -/
def Item.terminal? : Item → Option String
  | rule _ => none
  | word text | quoted text => some text

/-- The items of a rule, through its alternatives. -/
def Rule.items (r : Rule) : List Item := r.alternatives.flatten

/-- The names of the rules that a rule refers to. -/
def Rule.references (r : Rule) : List String :=
  r.items.filterMap fun
    | .rule name => some name
    | _ => none

namespace Grammar

def names (g : Grammar) : List String := g.rules.map (·.name)

/-- The terminals in the order in which they first appear (`Terminals`). -/
def terminals (g : Grammar) : List String :=
  (g.rules.flatMap fun r => r.items.filterMap Item.terminal?).eraseDups

/-- The first rule with the given name (`Rule`). -/
def rule? (g : Grammar) (name : String) : Option Rule := g.rules.find? (·.name == name)

/-- The rules with the alternatives added to the rule of that name, or with a new rule (`add`). -/
def addTo (r : Rule) : List Rule → List Rule
  | [] => [r]
  | first :: others =>
    if first.name == r.name then
      { first with alternatives := first.alternatives ++ r.alternatives } :: others
    else first :: addTo r others

/-- The grammar of a list of definitions; those of one name make up one rule. -/
def ofDefinitions (defs : List Rule) : Grammar := ⟨defs.foldl (fun rules r => addTo r rules) []⟩

end Grammar

/-! ## Validity -/

/-- A use of a rule that has no definition. -/
structure UndefinedRule where
  name : String
  /-- The rule that uses it. -/
  rule : String
  /-- The names of rules close to the one used. -/
  others : List String
  deriving Repr, DecidableEq

def UndefinedRule.message (u : UndefinedRule) : String :=
  s!"{reference u.name}: undefined nonterminal used in rule {reference u.rule}"

namespace Grammar

/-- The first use of a rule that has no definition, with the rules that look like it. -/
def undefined? (similar : Text.Similarity) (g : Grammar) : Option UndefinedRule :=
  g.rules.findSome? fun r =>
    (r.references.find? fun name => !g.names.contains name).map fun name =>
      ⟨name, r.name, similar name g.names⟩

end Grammar

end Formulary.Rules
