import Formulary.Proofs.Ebnf.Reading
import Formulary.Proofs.Ebnf.Search
import Formulary.Proofs.Rules.Translation

/-!
# What it takes to be verified

A grammar is verified if and only if all rules in use are defined and all rules are in use
(`Grammar.verify_decides`).  The check is made on the productions of the grammar, by a package of
which no more is known than that it reads and verifies productions.  What it finds is carried back:
each production that is read stands for one rule (`Grammar.Renders`), and because production names
are distinct, a production is in use exactly if its rule is (`Grammar.inUse_iff_reaches`).

1. Uses of rules.
2. Productions and rules.
3. Verification.
-/

namespace Formulary.Rules

open Ebnf (Production InUse InOrder)

namespace Grammar

variable {g : Grammar} {r first : Rule} {rest : List Rule} {name : String} {use : UndefinedRule}
  {p : Production} {ps : List Production} {similar : Text.Similarity} {k : Ebnf.Package}

/-! ## 1. Uses -/

/-- All rules in use are defined. -/
def Defined (g : Grammar) : Prop := ∀ r ∈ g.rules, ∀ name ∈ r.references, name ∈ g.names

/-- `g.Reaches name`: references lead from the first rule to the name. -/
inductive Reaches (g : Grammar) : String → Prop
  | start {r : Rule} {rest : List Rule} : g.rules = r :: rest → Reaches g r.name
  | reference {r : Rule} {name : String} :
      Reaches g r.name → r ∈ g.rules → name ∈ r.references → Reaches g name

/-- The name has no definition, and its use in the rule `r` is the first of such a name. -/
def FirstUndefined (g : Grammar) (r : Rule) (name : String) : Prop :=
  name ∉ g.names ∧ ∃ before after earlier later,
    g.rules = before ++ r :: after ∧ r.references = earlier ++ name :: later ∧
    (∀ r' ∈ before, ∀ n ∈ r'.references, n ∈ g.names) ∧ ∀ n ∈ earlier, n ∈ g.names

theorem undefined?_eq_none : g.undefined? similar = none ↔ g.Defined := by
  simp [undefined?, Defined, List.findSome?_eq_none_iff]

/-- **What is found is the first use of an undefined rule.** -/
theorem undefined?_eq_some (h : g.undefined? similar = some use) :
    ∃ r name, g.FirstUndefined r name ∧ use = ⟨name, r.name, similar name g.names⟩ := by
  obtain ⟨before, r, after, hrules, hr, hbefore⟩ := List.findSome?_eq_some_iff.mp h
  obtain ⟨name, hname, rfl⟩ := Option.map_eq_some_iff.mp hr
  obtain ⟨hnew, earlier, later, hrefs, hearlier⟩ := List.find?_eq_some_iff_append.mp hname
  refine ⟨r, name, ⟨by simpa using hnew, before, after, earlier, later, hrules, hrefs, ?_, ?_⟩, rfl⟩
  · intro r' hr' n hn
    have hnone := Option.map_eq_none_iff.mp (hbefore r' hr')
    simpa using List.find?_eq_none.mp hnone n hn
  · intro n hn
    simpa using hearlier n hn

/-! ## 2. Productions and rules -/

/-- The production has the name of the rule and refers to what the rule refers to. -/
structure Renders (g : Grammar) (p : Production) (r : Rule) : Prop where
  name : p.name = g.productionOf r.name
  references : p.references.map (·.1) = r.references.map g.productionOf

/-- The names that a term or an item refers to. -/
theorem references_bare (p : Production) :
    p.bare.references.map (·.1) = p.references.map (·.1) := by
  simp only [Production.references, Production.bare, ← List.map_flatten, List.filterMap_map,
    List.map_filterMap]
  refine List.filterMap_congr fun t _ => ?_
  cases t <;> rfl

theorem references_production (g : Grammar) (r : Rule) :
    (g.production r).references.map (·.1) = r.references.map g.productionOf := by
  simp only [Production.references, production, Rule.references, Rule.items, ← List.map_flatten,
    List.filterMap_map, List.map_filterMap]
  refine List.filterMap_congr fun i _ => ?_
  cases i <;> rfl

theorem renders_of_bare (h : p.bare = g.production r) : g.Renders p r where
  name := congrArg Production.name h
  references := by rw [← references_bare, h, references_production]

/-- Each production stands for a rule, and each rule has its production. -/
theorem renders_of_map_bare (h : ps.map Production.bare = g.rules.map g.production) :
    (∀ p ∈ ps, ∃ r ∈ g.rules, g.Renders p r) ∧ ∀ r ∈ g.rules, ∃ p ∈ ps, g.Renders p r := by
  constructor
  · intro p hp
    have hbare : p.bare ∈ g.rules.map g.production := h ▸ List.mem_map_of_mem hp
    obtain ⟨r, hr, heq⟩ := List.mem_map.mp hbare
    exact ⟨r, hr, renders_of_bare heq.symm⟩
  · intro r hr
    have hbare : g.production r ∈ ps.map Production.bare := h ▸ List.mem_map_of_mem hr
    obtain ⟨p, hp, heq⟩ := List.mem_map.mp hbare
    exact ⟨p, hp, renders_of_bare heq⟩

/-- A reference of the production is one of the rule. -/
theorem Renders.exists_use (h : g.Renders p r) {ref : String × Position}
    (href : ref ∈ p.references) : ∃ n ∈ r.references, g.productionOf n = ref.1 :=
  List.mem_map.mp (h.references ▸ List.mem_map_of_mem href)

/-- A reference of the rule is one of the production. -/
theorem Renders.exists_reference (h : g.Renders p r) {n : String} (hn : n ∈ r.references) :
    ∃ ref ∈ p.references, ref.1 = g.productionOf n := by
  have hn' : g.productionOf n ∈ p.references.map (·.1) := h.references ▸ List.mem_map_of_mem hn
  exact List.mem_map.mp hn'

theorem mem_names (hr : r ∈ g.rules) : r.name ∈ g.names := List.mem_map_of_mem hr

/-- The first rule has its production. -/
theorem exists_start (hps : ps.map Production.bare = g.rules.map g.production)
    (hrules : g.rules = first :: rest) : ∃ p ∈ ps, p.name = g.productionOf first.name := by
  have hfirst : first ∈ g.rules := by simp [hrules]
  obtain ⟨p, hp, hrenders⟩ := (renders_of_map_bare hps).2 first hfirst
  exact ⟨p, hp, hrenders.name⟩

/-- **A production is in use exactly if its rule is**, when all rules in use are defined. -/
theorem inUse_iff_reaches (hg : g.WellFormed) (hdefined : g.Defined)
    (hps : ps.map Production.bare = g.rules.map g.production) (hrules : g.rules = first :: rest)
    (hname : name ∈ g.names) :
    InUse ps (g.productionOf first.name) (g.productionOf name) ↔ g.Reaches name := by
  obtain ⟨hrule, hproduction⟩ := renders_of_map_bare hps
  constructor
  · intro h
    -- the name of a production in use is that of one rule only
    have hback : ∀ x, InUse ps (g.productionOf first.name) x →
        ∃ name ∈ g.names, g.productionOf name = x ∧ g.Reaches name := by
      intro x hx
      induction hx with
      | start => exact ⟨first.name, mem_names (by simp [hrules]), rfl, .start hrules⟩
      | @reference p ref _ hp href ih =>
        obtain ⟨n, hn, heq, hreaches⟩ := ih
        obtain ⟨r, hr, hrenders⟩ := hrule p hp
        obtain rfl : n = r.name :=
          productionOf_inj hg.distinct hn (mem_names hr) (heq.trans hrenders.name)
        obtain ⟨n', hn', heq'⟩ := hrenders.exists_use href
        exact ⟨n', hdefined r hr n' hn', heq', .reference hreaches hr hn'⟩
    obtain ⟨n, hn, heq, hreaches⟩ := hback _ h
    rwa [← productionOf_inj hg.distinct hn hname heq]
  · intro h
    clear hname
    induction h with
    | @start r _ hr =>
      rw [hrules] at hr
      cases hr
      exact .start
    | @reference r n _ hr hn ih =>
      obtain ⟨p, hp, hrenders⟩ := hproduction r hr
      obtain ⟨ref, href, heq⟩ := hrenders.exists_reference hn
      rw [← heq]
      rw [← hrenders.name] at ih
      exact .reference ih hp href

/-! ## 3. Verification -/

theorem refuse_eq_ok (file : String) {problems : List Ebnf.Problem} :
    refuse file problems = .ok () ↔ problems = [] := by
  cases problems <;> simp [refuse]

/-- **The check of the productions** is a check of the productions that are read. -/
theorem verify_eq_refuse (similar : Text.Similarity) (hk : k.Reads) (hg : g.WellFormed)
    (hdefined : g.Defined) (hrules : g.rules = first :: rest) :
    ∃ ps, ps.map Production.bare = g.rules.map g.production ∧
      g.verify similar k = refuse first.name (k.verify ps (g.productionOf first.name)) := by
  obtain ⟨ps, hread, hps⟩ := read_ebnf hk hg
  refine ⟨ps, hps, ?_⟩
  have hvalidate : g.validate similar = .ok () := by
    simp [validate, hrules, undefined?_eq_none.mpr hdefined]
  have hstart : g.start = .ok first := by simp [start, hrules]
  simp only [verify, hvalidate, hstart, hread]
  rfl

/-- The names of the productions that are read are distinct. -/
theorem nodup_names (hg : g.WellFormed) (hps : ps.map Production.bare = g.rules.map g.production) :
    (ps.map (·.name)).Nodup := by
  have hnames := congrArg (List.map (·.name)) hps
  rw [List.map_map] at hnames
  exact hnames ▸ nodup_productions hg

theorem isLexical_productionOf (hg : g.WellFormed)
    (hupper : ∀ entry ∈ g.productions, entry.2.toList.head?.any Text.isUpper = true)
    (hr : r ∈ g.rules) : Ebnf.isLexical (g.productionOf r.name) = false := by
  simp [Ebnf.isLexical, hupper _ (mem_productions hg.distinct (mem_names hr))]

/-- References to defined rules are in order in the productions that stand for them, if none of
these is lexical. -/
theorem inOrder_of_defined (hg : g.WellFormed) (hdefined : g.Defined)
    (hupper : ∀ entry ∈ g.productions, entry.2.toList.head?.any Text.isUpper = true)
    (hps : ps.map Production.bare = g.rules.map g.production) (hp : p ∈ ps) :
    ∀ ref ∈ p.references, InOrder ps (Ebnf.isLexical p.name) ref := by
  intro ref href
  obtain ⟨hrule, hproduction⟩ := renders_of_map_bare hps
  obtain ⟨r, hr, hrenders⟩ := hrule p hp
  obtain ⟨n, hn, heq⟩ := hrenders.exists_use href
  obtain ⟨r', hr', rfl⟩ := List.mem_map.mp (hdefined r hr n hn)
  obtain ⟨p', hp', hrenders'⟩ := hproduction r' hr'
  refine ⟨⟨p', hp', hrenders'.name.trans heq⟩, fun hlexical => ?_⟩
  rw [hrenders.name, isLexical_productionOf hg hupper hr] at hlexical
  cases hlexical

/-- **When all rules in use are defined**, a grammar is verified if and only if all rules are in
use. -/
theorem verify_iff_reaches (hreads : k.Reads) (hverifies : k.Verifies) (hg : g.WellFormed)
    (hdefined : g.Defined)
    (hupper : ∀ entry ∈ g.productions, entry.2.toList.head?.any Text.isUpper = true) :
    g.verify similar k = .ok () ↔ ∀ r ∈ g.rules, g.Reaches r.name := by
  obtain ⟨first, rest, hrules⟩ := List.exists_cons_of_ne_nil hg.nonempty
  obtain ⟨ps, hps, hverify⟩ := verify_eq_refuse similar hreads hg hdefined hrules
  obtain ⟨hrule, hproduction⟩ := renders_of_map_bare hps
  have hreaches : ∀ r ∈ g.rules,
      InUse ps (g.productionOf first.name) (g.productionOf r.name) ↔ g.Reaches r.name :=
    fun r hr => inUse_iff_reaches hg hdefined hps hrules (mem_names hr)
  rw [hverify, refuse_eq_ok, hverifies (nodup_names hg hps)]
  constructor
  · rintro ⟨-, huse, -⟩ r hr
    obtain ⟨p, hp, hrenders⟩ := hproduction r hr
    exact (hreaches r hr).mp (hrenders.name ▸ huse p hp)
  · intro hall
    refine ⟨exists_start hps hrules, fun p hp => ?_,
      fun p hp => inOrder_of_defined hg hdefined hupper hps hp⟩
    obtain ⟨r, hr, hrenders⟩ := hrule p hp
    rw [hrenders.name]
    exact (hreaches r hr).mpr (hall r hr)

/-- The use of a rule that is not defined is told before anything else is looked at. -/
theorem verify_of_undefined (hg : g.WellFormed) (h : g.undefined? similar = some use) :
    g.verify similar k = .error (.undefined use) := by
  obtain ⟨first, rest, hrules⟩ := List.exists_cons_of_ne_nil hg.nonempty
  simp only [verify, validate, hrules, h]
  rfl

/-- **A grammar is verified if and only if** all rules in use are defined and all rules are in use,
provided that the names of its productions start with capitals.  If a rule in use is not defined,
the error tells the first such use. -/
theorem verify_decides {k : Ebnf.Package} (hreads : k.Reads) (hverifies : k.Verifies)
    (similar : Text.Similarity) {s : Text.Source} {g : Grammar} (h : parse s = .ok g)
    (hupper : ∀ entry ∈ g.productions, entry.2.toList.head?.any Text.isUpper = true) :
    (g.verify similar k = .ok () ↔
      (∀ r ∈ g.rules, ∀ name ∈ r.references, name ∈ g.names) ∧ ∀ r ∈ g.rules, g.Reaches r.name) ∧
    ((∃ r ∈ g.rules, ∃ name ∈ r.references, name ∉ g.names) →
      ∃ r name, g.FirstUndefined r name ∧
        g.verify similar k = .error (.undefined ⟨name, r.name, similar name g.names⟩)) := by
  have hg := wellFormed_of_parse h
  cases hundefined : g.undefined? similar with
  | none =>
    have hdefined : g.Defined := undefined?_eq_none.mp hundefined
    refine ⟨?_, fun ⟨r, hr, name, hname, hnew⟩ => absurd (hdefined r hr name hname) hnew⟩
    rw [verify_iff_reaches hreads hverifies hg hdefined hupper]
    exact ⟨fun hreaches => ⟨hdefined, hreaches⟩, fun hall => hall.2⟩
  | some use =>
    have hverify := verify_of_undefined (k := k) hg hundefined
    obtain ⟨r, name, hfirst, rfl⟩ := undefined?_eq_some hundefined
    refine ⟨⟨fun hok => ?_, fun hall => ?_⟩, fun _ => ⟨r, name, hfirst, hverify⟩⟩
    · rw [hverify] at hok
      cases hok
    · rw [undefined?_eq_none.mpr hall.1] at hundefined
      cases hundefined

/-- Three rules whose names are `AB` or `AB1` in Pascal case, and terminals that need escapes. -/
def collidingNames : Grammar where
  rules := [
    ⟨"a-b", [[.rule "aB"], [.rule "aB1", .quoted "\"\\\n"]]⟩,
    ⟨"aB", [[.rule "aB1", .word "=."], [.rule "a-b", .word "y"]]⟩,
    ⟨"aB1", [[.word "x"]]⟩]

/-- The last rule of `collidingNames` is missing. -/
def missingName : Grammar where
  rules := collidingNames.rules.take 2

/-- **The checker verifies `collidingNames`**, under the names `AB`, `AB1` and `AB11`, but not
without its last rule. -/
theorem verify_decides_collidingNames :
    collidingNames.names.map collidingNames.productionOf = ["AB", "AB1", "AB11"] ∧
      collidingNames.verify Text.similar Ebnf.checker = .ok () ∧
      ∃ r name, missingName.FirstUndefined r name ∧ missingName.verify Text.similar Ebnf.checker
        = .error (.undefined ⟨name, r.name, Text.similar name missingName.names⟩) := by
  have hreach : ∀ r ∈ collidingNames.rules, collidingNames.Reaches r.name := by
    have hfirst : collidingNames.Reaches "a-b" := .start rfl
    have hsecond : collidingNames.Reaches "aB" :=
      .reference hfirst List.mem_cons_self (by decide)
    have hthird : collidingNames.Reaches "aB1" :=
      .reference hfirst List.mem_cons_self (by decide)
    simp only [collidingNames, List.mem_cons, List.not_mem_nil, or_false]
    rintro r (rfl | rfl | rfl)
    · exact hfirst
    · exact hsecond
    · exact hthird
  refine ⟨by decide +kernel, ?_, ?_⟩
  · exact (verify_decides Ebnf.checker_reads Ebnf.checker_verifies Text.similar
      (s := .ofString collidingNames.text) (by decide +kernel) (by decide +kernel)).1.mpr
        ⟨by decide +kernel, hreach⟩
  · exact (verify_decides Ebnf.checker_reads Ebnf.checker_verifies Text.similar
      (s := .ofString missingName.text) (by decide +kernel) (by decide +kernel)).2
        ⟨_, List.mem_cons_self, "aB1", by decide, by decide⟩

end Grammar

end Formulary.Rules
