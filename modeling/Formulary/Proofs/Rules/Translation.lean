import Formulary.Proofs.Rules.Naming
import Formulary.Proofs.Rules.RoundTrip
import Formulary.Proofs.Text.Quoting
import Mathlib.Data.List.Nodup

/-!
# A grammar read as productions

The text of a grammar as productions is made of the words of one production for each rule, with its
alternatives and items in order (`Grammar.spells_ebnf`).  References become names and terminals
become texts; what a terminal has in it does not matter.  So a package that reads productions from
their words reads these (`Grammar.read_ebnf`).

Each word has a blank behind it, so the texts of parts are put one behind the other
(`Ebnf.Spells.append`).
-/

namespace Formulary.Rules

open Ebnf (Production Spells Word)

variable {g : Grammar} {i : Item} {a : Alternative} {as : List Alternative} {r : Rule}

namespace Grammar

/-! ## 1. The productions -/

def term (g : Grammar) : Item → Ebnf.Term
  | .rule name => .name (g.productionOf name) .nowhere
  | .word text | .quoted text => .literal text

/-- The production of a rule. -/
def production (g : Grammar) (r : Rule) : Production :=
  ⟨g.productionOf r.name, .nowhere, r.alternatives.map (·.map g.term)⟩

theorem bare_production (g : Grammar) (r : Rule) : (g.production r).bare = g.production r := by
  have hterm : ∀ i : Item, (g.term i).bare = g.term i := by
    intro i
    cases i <;> rfl
  simp [production, Production.bare, hterm, Function.comp_def]

/-! ## 2. The text -/

theorem WellFormed.isName_names (hg : g.WellFormed) : ∀ name ∈ g.names, isName name = true := by
  intro name hname
  obtain ⟨r, hr, rfl⟩ := List.mem_map.mp hname
  exact (hg.rules r hr).name

/-- A word and a blank. -/
theorem spells_word {w : Word} {text : String} (h : w.Spelt text.toList) :
    Spells [w] (text.toList ++ [' ']) :=
  .word h rfl .nil

/-- A terminal is quoted in printable characters, and unquoted to what it was. -/
theorem spelt_quote (text : String) : (Word.text text).Spelt (Text.quote text).toList :=
  .text (Text.isPrintable_of_mem_quote text) (Text.unquote?_quote text)

/-- **An item**, whatever is in a terminal. -/
theorem spelt_item (hg : g.WellFormed) (hi : i.WellFormed) :
    (g.term i).word.Spelt (g.itemProduction i).toList := by
  cases i with
  | rule name => exact .name (isName_productionOf hg.distinct hg.isName_names hi)
  | word text => exact spelt_quote text
  | quoted text => exact spelt_quote text

/-- **The items of an alternative.** -/
theorem spells_items (hg : g.WellFormed) (hne : a ≠ []) (ha : ∀ i ∈ a, i.WellFormed) :
    Spells ((a.map g.term).map Ebnf.Term.word)
      ((" ".intercalate (a.map g.itemProduction)).toList ++ [' ']) := by
  induction a with
  | nil => exact absurd rfl hne
  | cons i a ih =>
    have hitem := spells_word (spelt_item hg (ha i (by simp)))
    cases a with
    | nil => simpa using hitem
    | cons i' a =>
      have hitems := ih (by simp) fun i hi => ha i (by simp [hi])
      have htext : (" ".intercalate ((i :: i' :: a).map g.itemProduction)).toList ++ [' ']
          = ((g.itemProduction i).toList ++ [' '])
            ++ ((" ".intercalate ((i' :: a).map g.itemProduction)).toList ++ [' ']) := by
        simp [String.intercalate_cons_cons]
      rw [htext]
      exact hitem.append hitems

/-- **Alternatives**, with bars between them. -/
theorem spells_alternatives (hg : g.WellFormed) (hne : as ≠ [])
    (has : ∀ a ∈ as, a ≠ [] ∧ ∀ i ∈ a, i.WellFormed) :
    Spells (Ebnf.alternativesWords (as.map (·.map g.term)))
      ((" | ".intercalate (as.map fun a => " ".intercalate (a.map g.itemProduction))).toList
        ++ [' ']) := by
  induction as with
  | nil => exact absurd rfl hne
  | cons a as ih =>
    obtain ⟨hfirst, hwell⟩ := has a (by simp)
    have hitems := spells_items hg hfirst hwell
    cases as with
    | nil => simpa [Ebnf.alternativesWords] using hitems
    | cons a' as =>
      have hothers := ih (by simp) fun a ha => has a (by simp [ha])
      have hbar : Spells [.sign '|'] ['|', ' '] := .word (.sign (by simp)) rfl .nil
      have htext : (" | ".intercalate ((a :: a' :: as).map fun a =>
            " ".intercalate (a.map g.itemProduction))).toList ++ [' ']
          = ((" ".intercalate (a.map g.itemProduction)).toList ++ [' ']) ++ (['|', ' '] ++
            ((" | ".intercalate ((a' :: as).map fun a =>
              " ".intercalate (a.map g.itemProduction))).toList ++ [' '])) := by
        simp [String.intercalate_cons_cons]
      rw [htext]
      exact hitems.append (hbar.append hothers)

/-- **A rule**, with the end of its line. -/
theorem spells_rule (hg : g.WellFormed) (hr : r.WellFormed) :
    Spells (g.production r).words (g.ruleProduction r).toList := by
  have hname : Spells [.name (g.productionOf r.name)] ((g.productionOf r.name).toList ++ [' ']) :=
    spells_word (.name (isName_productionOf hg.distinct hg.isName_names hr.name))
  have hequals : Spells [.sign '='] ['=', ' '] := .word (.sign (by simp)) rfl .nil
  have hstop : Spells [.sign '.'] ['.', '\n'] := .word (.sign (by simp)) rfl .nil
  have hall := (hname.append hequals).append
    ((spells_alternatives hg hr.nonempty hr.items).append hstop)
  have htext : (g.ruleProduction r).toList
      = ((g.productionOf r.name).toList ++ [' '] ++ ['=', ' '])
        ++ ((" | ".intercalate (r.alternatives.map fun a =>
          " ".intercalate (a.map g.itemProduction))).toList ++ [' '] ++ ['.', '\n']) := by
    simp [ruleProduction]
  rw [htext]
  simpa [Production.words, production] using hall

/-- **The text of a grammar as productions has the words of its productions.** -/
theorem spells_ebnf (hg : g.WellFormed) :
    Spells ((g.rules.map g.production).flatMap Production.words) g.ebnf.toList := by
  have hrules : ∀ rs : List Rule, (∀ r ∈ rs, r.WellFormed) →
      Spells ((rs.map g.production).flatMap Production.words)
        (String.join (rs.map g.ruleProduction)).toList := by
    intro rs hrs
    induction rs with
    | nil => exact .nil
    | cons r rs ih =>
      have hothers := ih fun r hr => hrs r (by simp [hr])
      simpa using (spells_rule hg (hrs r (by simp))).append hothers
  exact hrules g.rules hg.rules

theorem nodup_productions (hg : g.WellFormed) :
    ((g.rules.map g.production).map (·.name)).Nodup := by
  have hnames : (g.rules.map g.production).map (·.name) = g.names.map g.productionOf := by
    simp [production, names, Function.comp_def]
  rw [hnames]
  exact (List.nodup_map_iff_inj_on hg.distinct).mpr fun m hm n hn heq =>
    productionOf_inj hg.distinct hm hn heq

/-- **The text of a grammar is read as its productions**, one for each rule. -/
theorem read_ebnf {k : Ebnf.Package} (hk : k.Reads) (hg : g.WellFormed) :
    ∃ ps, k.read (.ofString g.ebnf) = (ps, []) ∧
      ps.map Production.bare = g.rules.map g.production := by
  have hwell : ∀ p ∈ g.rules.map g.production,
      p.alternatives ≠ [] ∧ ∀ a ∈ p.alternatives, a ≠ [] := by
    intro p hp
    obtain ⟨r, hr, rfl⟩ := List.mem_map.mp hp
    have hr' := hg.rules r hr
    refine ⟨by simpa [production] using hr'.nonempty, fun a ha => ?_⟩
    obtain ⟨a', ha', rfl⟩ := List.mem_map.mp ha
    simpa using (hr'.items a' ha').1
  obtain ⟨ps, hread, hps⟩ := hk (spells_ebnf hg) hwell (nodup_productions hg)
  exact ⟨ps, hread, by rw [hps, List.map_map]; simp [Function.comp_def, bare_production]⟩

end Grammar

end Formulary.Rules
