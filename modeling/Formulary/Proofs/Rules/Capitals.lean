import Formulary.Proofs.Rules.Verified

/-!
# Capitals of productions

A production is a lexical one unless its name starts with a capital, and the name of a production
starts with the capital of the first letter of its rule (`Grammar.head_productionOf`).  There are
letters that have none, such as `ß`, so a grammar may have lexical productions, and it is refused
for one that refers to a production of the other kind (`Grammar.capitals_decide`), by any package
that tells such references.

1. First letters.
2. The problems of a grammar.
-/

namespace Formulary.Rules

/-! ## 1. First letters -/

variable {taken names : List String} {base name : String} {g : Grammar}

/-- The first letter of the name has a capital, or is one. -/
def hasCapital (name : String) : Bool :=
  name.toList.head?.any fun c => Text.isUpper (Text.toUpper c)

theorem head_pascal (h : isName name = true) :
    (Text.pascal name).toList.head? = name.toList.head?.map Text.toUpper := by
  obtain ⟨c, cs, hlist, hc, -⟩ := isName_iff.mp h
  rw [Text.pascal, hlist, Text.pascalChars_of_letter hc, String.toList_ofList]
  rfl

/-- A number changes only the end of a name. -/
theorem head_freshName (h : base.toList ≠ []) :
    (freshName taken base).toList.head? = base.toList.head? := by
  rcases List.mem_cons.mp (freshName_spec taken base).1 with heq | hmem
  · rw [heq]
  · obtain ⟨i, -, heq⟩ := List.mem_map.mp hmem
    obtain ⟨c, cs, hlist⟩ := List.exists_cons_of_ne_nil h
    rw [← heq, String.toList_append, hlist]
    rfl

theorem head_productionNames (h : ∀ name ∈ names, isName name = true) (taken : List String) :
    (productionNames taken names).map (·.toList.head?)
      = names.map fun name => name.toList.head?.map Text.toUpper := by
  induction names generalizing taken with
  | nil => rfl
  | cons name names ih =>
    obtain ⟨hname, hnames⟩ := List.forall_mem_cons.mp h
    have hne : (Text.pascal name).toList ≠ [] := by
      obtain ⟨c, cs, hlist, -⟩ := Ebnf.isName_iff.mp (isName_pascal hname)
      rw [hlist]
      exact List.cons_ne_nil c cs
    rw [productionNames, List.map_cons, List.map_cons, ih hnames, head_freshName hne,
      head_pascal hname]

namespace Grammar

/-- **The name of a production starts with the capital of its rule's first letter**, or with that
letter if it has none. -/
theorem head_productionOf (hg : g.WellFormed) (hname : name ∈ g.names) :
    (g.productionOf name).toList.head? = name.toList.head?.map Text.toUpper := by
  have hheads := head_productionNames hg.isName_names []
  rw [← map_productionOf hg.distinct, List.map_map] at hheads
  exact List.map_inj_left.mp hheads name hname

theorem isLexical_eq (hg : g.WellFormed) (hname : name ∈ g.names) :
    Ebnf.isLexical (g.productionOf name) = !hasCapital name := by
  rw [Ebnf.isLexical, head_productionOf hg hname, Option.any_map]
  rfl

/-! ## 2. Grammars -/

open Ebnf (InUse outOfOrder)

variable {first : Rule} {rest : List Rule} {similar : Text.Similarity} {k : Ebnf.Package}

/-- The grammar is refused for its productions, and the text stands among what is wrong with
them. -/
def Blamed (similar : Text.Similarity) (k : Ebnf.Package) (g : Grammar) (text : String) : Prop :=
  ∃ file first others, g.verify similar k = .error (.productions file first others) ∧
    ∃ problem ∈ first :: others, problem.text = text

/-- All that is wrong with the productions is told. -/
theorem blamed_iff {file text : String} {problems : List Ebnf.Problem}
    (hverify : g.verify similar k = refuse file problems) :
    g.Blamed similar k text ↔ ∃ problem ∈ problems, problem.text = text := by
  unfold Blamed
  rw [hverify]
  cases problems with
  | nil => simp [refuse]
  | cons first others =>
    constructor
    · rintro ⟨_, _, _, heq, htext⟩
      cases heq
      exact htext
    · intro htext
      exact ⟨file, first, others, rfl, htext⟩

theorem not_blamed_of_undefined {use : UndefinedRule} {text : String} (hg : g.WellFormed)
    (h : g.undefined? similar = some use) : ¬ g.Blamed similar k text := by
  rintro ⟨file, first, others, hverify, -⟩
  rw [verify_of_undefined hg h] at hverify
  cases hverify

/-- **A grammar whose rules are defined is blamed for a reference** from a rule in use whose first
letter has no capital to one whose first letter has one. -/
theorem blamed_iff_capitals (hreads : k.Reads) (hblames : k.Blames) (hg : g.WellFormed)
    (hdefined : g.Defined) :
    g.Blamed similar k (outOfOrder name) ↔ ∃ r ∈ g.rules, ∃ n ∈ r.references, g.Reaches r.name ∧
      hasCapital r.name = false ∧ hasCapital n = true ∧ g.productionOf n = name := by
  obtain ⟨first, rest, hrules⟩ := List.exists_cons_of_ne_nil hg.nonempty
  obtain ⟨ps, hps, hverify⟩ := verify_eq_refuse similar hreads hg hdefined hrules
  obtain ⟨hrule, hproduction⟩ := renders_of_map_bare hps
  have huse : ∀ r ∈ g.rules,
      InUse ps (g.productionOf first.name) (g.productionOf r.name) ↔ g.Reaches r.name :=
    fun r hr => inUse_iff_reaches hg hdefined hps hrules (mem_names hr)
  have hnames : ∀ p ∈ ps, Ebnf.isName p.name = true := by
    intro p hp
    obtain ⟨r, hr, hrenders⟩ := hrule p hp
    rw [hrenders.name]
    exact isName_productionOf hg.distinct hg.isName_names (hg.isName_names _ (mem_names hr))
  rw [blamed_iff hverify, hblames (nodup_names hg hps) hnames (exists_start hps hrules)]
  constructor
  · rintro ⟨p, hp, hinuse, hlexical, ref, href, rfl, hcapital⟩
    obtain ⟨r, hr, hrenders⟩ := hrule p hp
    obtain ⟨n, hn, heq⟩ := hrenders.exists_use href
    rw [hrenders.name] at hinuse
    rw [hrenders.name, isLexical_eq hg (mem_names hr)] at hlexical
    rw [← heq, isLexical_eq hg (hdefined r hr n hn)] at hcapital
    exact ⟨r, hr, n, hn, (huse r hr).mp hinuse, by simpa using hlexical, by simpa using hcapital,
      heq⟩
  · rintro ⟨r, hr, n, hn, hreaches, hsmall, hcapital, rfl⟩
    obtain ⟨p, hp, hrenders⟩ := hproduction r hr
    obtain ⟨ref, href, heq⟩ := hrenders.exists_reference hn
    have hlexical : Ebnf.isLexical p.name = true := by
      rw [hrenders.name, isLexical_eq hg (mem_names hr), hsmall]
      rfl
    have hother : Ebnf.isLexical (g.productionOf n) = false := by
      rw [isLexical_eq hg (hdefined r hr n hn), hcapital]
      rfl
    exact ⟨p, hp, hrenders.name ▸ (huse r hr).mpr hreaches, hlexical, ref, href, heq, hother⟩

/-- **A production starts with a capital if the first letter of its rule has one**, and only then.
So a grammar is refused for a reference to a production that is not lexical just if all rules in use
are defined and a rule in use whose first letter has no capital refers to one whose first letter has
one. -/
theorem capitals_decide {s : Text.Source} {g : Grammar} (h : parse s = .ok g) :
    (∀ entry ∈ g.productions, entry.2.toList.head?.any Text.isUpper = hasCapital entry.1) ∧
    ∀ {k : Ebnf.Package}, k.Reads → k.Blames → ∀ similar name,
      (g.Blamed similar k (outOfOrder name) ↔
        (∀ r ∈ g.rules, ∀ n ∈ r.references, n ∈ g.names) ∧
        ∃ r ∈ g.rules, ∃ n ∈ r.references, g.Reaches r.name ∧
          hasCapital r.name = false ∧ hasCapital n = true ∧ g.productionOf n = name) := by
  have hg := wellFormed_of_parse h
  refine ⟨fun (n, p) hentry => ?_, fun {k} hreads hblames similar name => ?_⟩
  · obtain ⟨hn, rfl⟩ := (mem_productions_iff hg.distinct).mp hentry
    simp only [head_productionOf hg hn, Option.any_map]
    rfl
  · cases hundefined : g.undefined? similar with
    | none =>
      have hdefined : g.Defined := undefined?_eq_none.mp hundefined
      rw [blamed_iff_capitals hreads hblames hg hdefined]
      exact ⟨fun hrefers => ⟨hdefined, hrefers⟩, And.right⟩
    | some use =>
      refine iff_of_false (not_blamed_of_undefined hg hundefined) fun ⟨hdefined, _⟩ => ?_
      rw [undefined?_eq_none.mpr hdefined] at hundefined
      cases hundefined

/-- A rule that starts with a letter without capital, and one that it refers to. -/
def sharpS : Grammar where
  rules := [⟨"ß", [[.rule "a"]]⟩, ⟨"a", [[.word "x"]]⟩]

/-- **The checker refuses `sharpS`** for the reference to the rule whose production is `A`. -/
theorem capitals_decide_sharpS :
    parse (.ofString "<ß> ::= <a>\n<a> ::= x\n") = .ok sharpS ∧
      (∀ entry ∈ sharpS.productions, entry.2.toList.head?.any Text.isUpper = hasCapital entry.1) ∧
      hasCapital "ß" = false ∧ sharpS.Blamed Text.similar Ebnf.checker (outOfOrder "A") := by
  have hparse : parse (.ofString "<ß> ::= <a>\n<a> ::= x\n") = .ok sharpS := by decide +kernel
  have hsmall : hasCapital "ß" = false := by decide +kernel
  obtain ⟨hproductions, hblamed⟩ := capitals_decide hparse
  refine ⟨hparse, hproductions, hsmall,
    (hblamed Ebnf.checker_reads Ebnf.checker_blames Text.similar "A").mpr ⟨by decide, ?_⟩⟩
  exact ⟨_, List.mem_cons_self, "a", by decide, .start rfl, hsmall, by decide +kernel,
    by decide +kernel⟩

/-- **Not all productions start with capitals**, and a grammar is refused for that, whichever
package verifies it. -/
theorem sharpS_refused :
    parse (.ofString "<ß> ::= <a>\n<a> ::= x\n") = .ok sharpS ∧
      sharpS.productions = [("ß", "ß"), ("a", "A")] ∧
      (¬ ∀ entry ∈ sharpS.productions, entry.2.toList.head?.any Text.isUpper = true) ∧
      ∀ k : Ebnf.Package, k.Reads → k.Blames →
        sharpS.Blamed Text.similar k "reference to non-lexical production A" := by
  have hparse : parse (.ofString "<ß> ::= <a>\n<a> ::= x\n") = .ok sharpS := by decide +kernel
  refine ⟨hparse, by decide +kernel, by decide +kernel, fun k hreads hblames => ?_⟩
  have htext : outOfOrder "A" = "reference to non-lexical production A" := by decide +kernel
  have hdefined : ∀ r ∈ sharpS.rules, ∀ n ∈ r.references, n ∈ sharpS.names := by decide
  rw [← htext, blamed_iff_capitals hreads hblames (wellFormed_of_parse hparse) hdefined]
  exact ⟨_, List.mem_cons_self, "a", by decide, .start rfl, by decide +kernel, by decide +kernel,
    by decide +kernel⟩

end Grammar

end Formulary.Rules
