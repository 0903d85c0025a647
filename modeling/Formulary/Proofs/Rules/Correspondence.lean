import Formulary.Proofs.Rules.Verified
import Mathlib.Data.List.Forall2

/-!
# Rules and their productions, side by side

A grammar is kept whole when it is turned into productions (`Grammar.ebnf_preserves_grammar`): its
text as productions is read without a problem, as one production for each rule, with the
alternatives of the rule and their items in order.  Any package will do that reads productions from
their words.

That the text is read as the productions of the rules is known (`read_ebnf`), but only for
references spelt out by `productionOf`.  What is added is where these names lead: to the production
that stands at the place of the rule referred to.  For this all rules in use have to be defined.

1. What an item, an alternative and a rule become.
2. From equality but for positions to correspondence.
3. The productions of a grammar.
-/

namespace Formulary.Rules

open Ebnf (Production)

namespace Grammar

/-! ## 1. Correspondence -/

/-- What an item becomes among the productions `ps`, which stand in the order of the rules: a
reference to a rule becomes the name of the production of that rule, and a terminal becomes a text
that is the same once its quotes and escapes are taken off. -/
inductive Becomes (g : Grammar) (ps : List Production) : Item → Ebnf.Term → Prop
  | rule {r : Rule} {p : Production} {pos : Position} :
      (r, p) ∈ g.rules.zip ps → Becomes g ps (.rule r.name) (.name p.name pos)
  | word {text : String} : Becomes g ps (.word text) (.literal text)
  | quoted {text : String} : Becomes g ps (.quoted text) (.literal text)

/-- The production has the name that the rule was given, and its alternatives are those of the rule,
item by item. -/
structure Corresponds (g : Grammar) (ps : List Production) (r : Rule) (p : Production) : Prop where
  name : g.productions.find? r.name = some p.name
  alternatives : List.Forall₂ (List.Forall₂ (g.Becomes ps)) r.alternatives p.alternatives

variable {g : Grammar} {r : Rule} {p : Production} {ps : List Production} {i : Item}
  {t : Ebnf.Term} {name : String}

/-! ## 2. Items and alternatives -/

/-- Lists that two functions make equal go together, each member with the one at its place. -/
theorem forall₂_of_map_eq {α β γ : Type} {f : α → γ} {h : β → γ} {xs : List α} {ys : List β}
    (heq : ys.map h = xs.map f) : List.Forall₂ (fun x y => x ∈ xs ∧ h y = f x) xs ys := by
  refine (List.forall₂_and_left xs ys).mpr ⟨fun x hx => hx, ?_⟩
  have hmaps : List.Forall₂ (· = ·) (ys.map h) (xs.map f) := by rwa [List.forall₂_eq_eq_eq]
  exact (List.forall₂_map_right_iff.mp (List.forall₂_map_left_iff.mp hmaps)).flip

/-- A rule that is defined is found beside its production. -/
theorem exists_zip (hps : ps.map Production.bare = g.rules.map g.production)
    (hname : name ∈ g.names) :
    ∃ r p, (r, p) ∈ g.rules.zip ps ∧ r.name = name ∧ p.name = g.productionOf name := by
  obtain ⟨r, hr, rfl⟩ := List.mem_map.mp hname
  obtain ⟨k, hk, rfl⟩ := List.mem_iff_getElem.mp hr
  have hlength := congrArg List.length hps
  simp only [List.length_map] at hlength
  have hzip : k < (g.rules.zip ps).length := by
    rw [List.length_zip]
    omega
  refine ⟨g.rules[k], ps[k], List.mem_iff_getElem.mpr ⟨k, hzip, List.getElem_zip⟩, rfl, ?_⟩
  have hbare := List.getElem_of_eq hps (i := k) (by simpa using by omega)
  rw [List.getElem_map, List.getElem_map] at hbare
  exact congrArg Production.name hbare

/-- **An item becomes the term that it is but for its position.** -/
theorem becomes_of_bare (hps : ps.map Production.bare = g.rules.map g.production)
    (hi : ∀ name, i = .rule name → name ∈ g.names) (h : t.bare = g.term i) : g.Becomes ps i t := by
  cases i with
  | rule name =>
    obtain ⟨r, p, hzip, rfl, hp⟩ := exists_zip hps (hi name rfl)
    cases t with
    | literal _ => cases h
    | name text pos =>
      obtain rfl : text = p.name := by
        rw [hp]
        injection h
      exact .rule hzip
  | word text =>
    cases t with
    | literal text' =>
      cases h
      exact .word
    | name _ _ => cases h
  | quoted text =>
    cases t with
    | literal text' =>
      cases h
      exact .quoted
    | name _ _ => cases h

/-! ## 3. The productions of a grammar -/

/-- A reference among the items of a rule is one of its references. -/
theorem mem_references {a : Alternative} (ha : a ∈ r.alternatives) (hname : .rule name ∈ a) :
    name ∈ r.references :=
  List.mem_filterMap.mpr ⟨.rule name, List.mem_flatten.mpr ⟨a, ha, hname⟩, rfl⟩

/-- **A production that is that of a rule but for positions corresponds to it.** -/
theorem corresponds_of_bare (hdistinct : g.names.Nodup) (hdefined : g.Defined)
    (hps : ps.map Production.bare = g.rules.map g.production) (hr : r ∈ g.rules)
    (h : p.bare = g.production r) : g.Corresponds ps r p where
  name := by
    have hp : p.name = g.productionOf r.name := congrArg Production.name h
    rw [hp, find?_eq_productionOf hdistinct (mem_names hr)]
  alternatives := by
    have halternatives := congrArg Production.alternatives h
    refine (forall₂_of_map_eq halternatives).imp fun a u ⟨ha, hu⟩ => ?_
    refine (forall₂_of_map_eq hu).imp fun i t ⟨hi, ht⟩ => becomes_of_bare hps ?_ ht
    rintro name rfl
    exact hdefined r hr name (mem_references ha hi)

theorem defined_of_validate {similar : Text.Similarity} (h : g.validate similar = .ok ()) :
    g.Defined := by
  unfold validate at h
  split at h
  · cases h
  split at h
  · cases h
  next hnone => exact undefined?_eq_none.mp hnone

/-- **A grammar is kept whole when it is turned into productions.**  If a grammar was read and all
its rules in use are defined, its text as productions is read without a problem.  Each rule has one
production, under the name it was given; no name stands twice; and alternatives and items are kept
in order, where a reference names the production of its rule and a terminal is the text it was,
whatever characters it has. -/
theorem ebnf_preserves_grammar {k : Ebnf.Package} (hk : k.Reads) {similar : Text.Similarity}
    {s : Text.Source} {g : Grammar} (h : parse s = .ok g) (hvalid : g.validate similar = .ok ()) :
    ∃ ps, k.read (.ofString g.ebnf) = (ps, []) ∧ (ps.map (·.name)).Nodup ∧
      List.Forall₂ (g.Corresponds ps) g.rules ps := by
  have hg := wellFormed_of_parse h
  obtain ⟨ps, hread, hps⟩ := read_ebnf hk hg
  refine ⟨ps, hread, ?_, ?_⟩
  · have hnames := congrArg (List.map (·.name)) hps
    rw [List.map_map] at hnames
    exact hnames ▸ nodup_productions hg
  · exact (forall₂_of_map_eq hps).imp fun r p ⟨hr, hp⟩ =>
      corresponds_of_bare hg.distinct (defined_of_validate hvalid) hps hr hp

/-- Two rules of one name in Pascal case, and terminals that are empty or full of what is written
with escapes. -/
def awkwardTerminals : Grammar where
  rules := [
    ⟨"a-b", [[.rule "aB", .quoted ""], [.quoted "\"\\\n\x00\x7f", .rule "a-b", .word "=."]]⟩,
    ⟨"aB",
      [[.quoted "\uFFFD\u200b", .quoted (String.singleton (Char.ofNat 0x10FFFF)), .word "x-1"]]⟩]

/-- **`awkwardTerminals` is kept whole** for the checker, under the names `AB` and `AB1`. -/
theorem ebnf_preserves_grammar_awkwardTerminals :
    parse (.ofString awkwardTerminals.text) = .ok awkwardTerminals ∧
      awkwardTerminals.validate Text.similar = .ok () ∧
      awkwardTerminals.names.map awkwardTerminals.productionOf = ["AB", "AB1"] ∧
      ∃ ps, Ebnf.checker.read (.ofString awkwardTerminals.ebnf) = (ps, []) ∧
        (ps.map (·.name)).Nodup ∧
        List.Forall₂ (awkwardTerminals.Corresponds ps) awkwardTerminals.rules ps := by
  have hread : parse (.ofString awkwardTerminals.text) = .ok awkwardTerminals := by decide +kernel
  have hvalid : awkwardTerminals.validate Text.similar = .ok () := by decide +kernel
  exact ⟨hread, hvalid, by decide +kernel, ebnf_preserves_grammar Ebnf.checker_reads hread hvalid⟩

end Grammar

end Formulary.Rules
