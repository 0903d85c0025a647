import Formulary.Ebnf.Production
import Formulary.Text.Blank
import Formulary.Text.Quoted

/-!
# What a package of productions does

Grammars are verified by a package that reads productions and searches them.  Three things are
relied on, each a property that a package may have:

* `Package.Reads`: a text is read as the productions whose words stand in it;
* `Package.Verifies`: productions are in order just if the start is one of them, all of them are in
  use, and references lead to productions, from lexical ones to lexical ones only;
* `Package.Blames`: a reference from a lexical production to another one is told in a text of its
  own.

Texts are described by words with blanks behind them (`Spells`).  Nothing is said of texts that are
written in another way, nor of how literal texts are written: any literal will do that can be
unquoted.

1. Words.
2. The words of productions.
3. Productions in use.
4. The package.
-/

namespace Formulary.Ebnf

/-! ## 1. Words -/

/-- The shape of names: a letter or an underscore, then letters, digits and underscores. -/
def isName (name : String) : Bool :=
  match name.toList with
  | [] => false
  | c :: cs => startsName c && cs.all continuesName

theorem isName_iff {name : String} :
    isName name = true ↔ ∃ c cs, name.toList = c :: cs ∧ startsName c = true
      ∧ ∀ d ∈ cs, continuesName d = true := by
  unfold isName
  split
  next h => simp [h]
  next c cs h => simp [h, and_assoc]

/-- The words of productions: names, texts and the signs between them. -/
inductive Word where
  | name (text : String)
  | text (value : String)
  | sign (c : Char)

/-- `w.Spelt cs`: the characters `cs` are the word.  A text is a literal of printable characters
that is unquoted to its value. -/
inductive Word.Spelt : Word → List Char → Prop
  | name {name : String} : isName name = true → Spelt (.name name) name.toList
  | text {value : String} {cs : List Char} : (∀ c ∈ cs, Text.isPrintable c = true) →
      Text.unquote? cs = some value.toList → Spelt (.text value) cs
  | sign {c : Char} : c ∈ ['=', '|', '.'] → Spelt (.sign c) [c]

/-- `Spells ws cs`: the words stand in the text one after the other, each with a blank behind it. -/
inductive Spells : List Word → List Char → Prop
  | nil : Spells [] []
  | blank {c : Char} {ws : List Word} {cs : List Char} :
      Text.isBlank c = true → Spells ws cs → Spells ws (c :: cs)
  | word {w : Word} {text : List Char} {c : Char} {ws : List Word} {cs : List Char} :
      w.Spelt text → Text.isBlank c = true → Spells ws cs → Spells (w :: ws) (text ++ c :: cs)

/-- **A text behind another one.** -/
theorem Spells.append {ws ws' : List Word} {cs cs' : List Char} (h : Spells ws cs)
    (h' : Spells ws' cs') : Spells (ws ++ ws') (cs ++ cs') := by
  induction h with
  | nil => exact h'
  | blank hc _ ih => exact .blank hc ih
  | word htext hc _ ih =>
    rw [List.append_assoc]
    exact .word htext hc ih

/-! ## 2. Productions -/

def Term.word : Term → Word
  | name text _ => .name text
  | literal text => .text text

/-- The words of alternatives, with bars between them. -/
def alternativesWords : List (List Term) → List Word
  | [] => []
  | [a] => a.map Term.word
  | a :: a' :: as => a.map Term.word ++ .sign '|' :: alternativesWords (a' :: as)

def Production.words (p : Production) : List Word :=
  [.name p.name, .sign '='] ++ alternativesWords p.alternatives ++ [.sign '.']

/-- The term at no place. -/
def Term.bare : Term → Term
  | name text _ => .name text .nowhere
  | literal text => .literal text

/-- The production at no place. -/
def Production.bare (p : Production) : Production :=
  ⟨p.name, .nowhere, p.alternatives.map (·.map Term.bare)⟩

/-! ## 3. Use -/

/-- `InUse all start name`: references lead from the production `start` to the name. -/
inductive InUse (all : List Production) (start : String) : String → Prop
  | start : InUse all start start
  | reference {p : Production} {ref : String × Position} :
      InUse all start p.name → p ∈ all → ref ∈ p.references → InUse all start ref.1

/-- The reference leads to a production, and not out of the lexical ones. -/
def InOrder (all : List Production) (lexical : Bool) (ref : String × Position) : Prop :=
  (∃ p ∈ all, p.name = ref.1) ∧ (lexical = true → isLexical ref.1 = true)

/-- How a reference out of the lexical productions is told. -/
def outOfOrder (name : String) : String := s!"reference to non-lexical production {name}"

/-! ## 4. The package -/

namespace Package

/-- **Productions are read from their words.**  They have distinct names and are not empty anywhere.
Where they stand in the text is not said. -/
def Reads (k : Package) : Prop :=
  ∀ {text : String} {ps : List Production}, Spells (ps.flatMap Production.words) text.toList →
    (∀ p ∈ ps, p.alternatives ≠ [] ∧ ∀ a ∈ p.alternatives, a ≠ []) → (ps.map (·.name)).Nodup →
    ∃ qs, k.read (.ofString text) = (qs, []) ∧ qs.map Production.bare = ps.map Production.bare

/-- **Nothing is wrong with productions of distinct names if and only if** the start is one of them,
all of them are in use, and all references are in order. -/
def Verifies (k : Package) : Prop :=
  ∀ {all : List Production} {start : String}, (all.map (·.name)).Nodup →
    (k.verify all start = [] ↔ (∃ p ∈ all, p.name = start) ∧ (∀ p ∈ all, InUse all start p.name) ∧
      ∀ p ∈ all, ∀ ref ∈ p.references, InOrder all (isLexical p.name) ref)

/-- **References out of the lexical productions are told**, those of productions in use, and nothing
else is told in the same text. -/
def Blames (k : Package) : Prop :=
  ∀ {all : List Production} {start : String}, (all.map (·.name)).Nodup →
    (∀ p ∈ all, isName p.name = true) → (∃ p ∈ all, p.name = start) → ∀ name,
    ((∃ problem ∈ k.verify all start, problem.text = outOfOrder name) ↔
      ∃ p ∈ all, InUse all start p.name ∧ isLexical p.name = true ∧
        ∃ ref ∈ p.references, ref.1 = name ∧ isLexical name = false)

end Package

end Formulary.Ebnf
