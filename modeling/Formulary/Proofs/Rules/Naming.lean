import Formulary.Proofs.Bindings
import Formulary.Proofs.Ebnf.Package
import Formulary.Proofs.Rules.Lexing
import Formulary.Proofs.Text.Casing
import Formulary.Proofs.Text.Digits
import Formulary.Rules.Production
import Mathlib.Data.List.Nodup
import Mathlib.Data.List.Perm.Subperm

/-!
# The names of productions

Every rule has a production name of its own (`Grammar.productionOf_inj`), and it has the shape of a
name if the names of rules have (`Grammar.isName_productionOf`).

A name is looked for among numbered candidates.  They are pairwise distinct and one more than the
names that are gone, so one of them is left (`freshName_spec`).

1. Candidates.
2. The names of a list of rules.
3. The shapes of names.
4. The names of a grammar.
-/

namespace Formulary.Rules

variable {taken names : List String} {base name : String} {g : Grammar}

/-! ## 1. Candidates -/

/-- Numbers make distinct names, none of which is the bare one. -/
theorem nodup_candidates (taken : List String) (base : String) : (candidates taken base).Nodup := by
  refine List.nodup_cons.mpr ⟨?_, List.nodup_range.map ?_⟩
  · intro hmem
    obtain ⟨i, -, heq⟩ := List.mem_map.mp hmem
    have hbare : base ++ toString (i + 1) = base ++ "" := heq.trans String.append_empty.symm
    exact Text.toString_ne_empty _ ((String.append_right_inj base).mp hbare)
  · intro i j heq
    exact Nat.succ.inj (Text.toString_inj ((String.append_right_inj base).mp heq))

theorem exists_candidate (taken : List String) (base : String) :
    ∃ name ∈ candidates taken base, name ∉ taken := by
  by_contra hall
  have hsub : candidates taken base ⊆ taken := fun name hname =>
    not_not.mp fun hnew => hall ⟨name, hname, hnew⟩
  have hle := (List.subperm_of_subset (nodup_candidates taken base) hsub).length_le
  simp only [candidates, List.length_cons, List.length_map, List.length_range] at hle
  omega

/-- **The fresh name is a candidate that is not taken.** -/
theorem freshName_spec (taken : List String) (base : String) :
    freshName taken base ∈ candidates taken base ∧ freshName taken base ∉ taken := by
  obtain ⟨name, hname, hnew⟩ := exists_candidate taken base
  rw [freshName]
  cases hfind : (candidates taken base).find? fun name => !taken.contains name with
  | none =>
    have hall := List.find?_eq_none.mp hfind name hname
    simp [hnew] at hall
  | some fresh =>
    have hfresh := List.find?_some hfind
    exact ⟨List.mem_of_find?_eq_some hfind, by simpa using hfresh⟩

/-! ## 2. A list of rules -/

theorem length_productionNames (taken names : List String) :
    (productionNames taken names).length = names.length := by
  induction names generalizing taken with
  | nil => rfl
  | cons name names ih => simp [productionNames, ih]

/-- **The names are pairwise distinct**, and distinct from those that were taken. -/
theorem nodup_productionNames (h : taken.Nodup) (names : List String) :
    (taken ++ productionNames taken names).Nodup := by
  induction names generalizing taken with
  | nil => simpa [productionNames] using h
  | cons name names ih =>
    have hnew := (freshName_spec taken (Text.pascal name)).2
    have htaken : (taken ++ [freshName taken (Text.pascal name)]).Nodup :=
      List.nodup_append.mpr ⟨h, by simp, fun a ha b hb heq =>
        hnew (List.mem_singleton.mp hb ▸ heq ▸ ha)⟩
    have hall := ih htaken
    rwa [List.append_assoc, List.singleton_append] at hall

/-! ## 3. Shapes -/

/-- The Pascal case of a name is a name. -/
theorem isName_pascal (h : isName name = true) : Ebnf.isName (Text.pascal name) = true := by
  obtain ⟨c, cs, hlist, hc, -⟩ := isName_iff.mp h
  refine Ebnf.isName_iff.mpr ⟨Text.toUpper c, Text.pascalChars false cs, ?_, ?_, ?_⟩
  · rw [Text.pascal, hlist, Text.pascalChars_of_letter hc, String.toList_ofList]
  · rw [Ebnf.startsName, Text.isLetter_toUpper hc, Bool.true_or]
  · intro d hd
    have hd' := Text.pascalChars_chars false cs d hd
    rcases Bool.or_eq_true_iff.mp hd' with hletter | hdigit
    · simp [Ebnf.continuesName, Ebnf.startsName, hletter]
    · simp [Ebnf.continuesName, hdigit]

theorem isDigit_of_ascii {c : Char} (h : c.isDigit = true) : Text.isDigit c = true := by
  obtain ⟨hge, hle⟩ := Char.isDigit_iff_toNat.mp h
  refine List.any_eq_true.mpr ⟨⟨0x30, 0x39, 1⟩, List.mem_cons_self, ?_⟩
  have hlow : 0x30 ≤ c.toNat := hge
  have hhigh : c.toNat ≤ 0x39 := hle
  simp [Text.Run.holds, hlow, hhigh, Nat.mod_one]

/-- A number behind a name leaves a name. -/
theorem isName_append_number (h : Ebnf.isName base = true) (n : Nat) :
    Ebnf.isName (base ++ toString n) = true := by
  obtain ⟨c, cs, hlist, hc, hcs⟩ := Ebnf.isName_iff.mp h
  refine Ebnf.isName_iff.mpr ⟨c, cs ++ (toString n).toList, by simp [hlist], hc, ?_⟩
  refine List.forall_mem_append.mpr ⟨hcs, fun d hd => ?_⟩
  have hdigit := Text.isDigit_of_mem_toString hd
  simp [Ebnf.continuesName, isDigit_of_ascii hdigit]

theorem isName_productionNames (h : ∀ name ∈ names, isName name = true) (taken : List String) :
    ∀ p ∈ productionNames taken names, Ebnf.isName p = true := by
  induction names generalizing taken with
  | nil => simp [productionNames]
  | cons name names ih =>
    obtain ⟨hname, hnames⟩ := List.forall_mem_cons.mp h
    refine List.forall_mem_cons.mpr ⟨?_, ih hnames _⟩
    have hmem := (freshName_spec taken (Text.pascal name)).1
    rcases List.mem_cons.mp hmem with heq | hmem
    · rw [heq]
      exact isName_pascal hname
    · obtain ⟨i, -, heq⟩ := List.mem_map.mp hmem
      rw [← heq]
      exact isName_append_number (isName_pascal hname) _

/-! ## 4. A grammar -/

namespace Grammar

/-- The entries of the production names. -/
theorem keys_zip (g : Grammar) : (g.names.zip (productionNames [] g.names)).map (·.1) = g.names :=
  List.map_fst_zip (Nat.le_of_eq (length_productionNames [] g.names).symm)

/-- A rule is found with the name that it was given. -/
theorem find?_productions (h : g.names.Nodup) {i : Nat} (hi : i < g.names.length)
    (hi' : i < (productionNames [] g.names).length) :
    g.productions.find? g.names[i] = some (productionNames [] g.names)[i] := by
  have hzip : i < (g.names.zip (productionNames [] g.names)).length := by
    rw [List.length_zip]
    omega
  have hentry : (g.names[i], (productionNames [] g.names)[i])
      ∈ g.names.zip (productionNames [] g.names) :=
    List.mem_iff_getElem.mpr ⟨i, hzip, List.getElem_zip⟩
  exact Bindings.find?_insertAll (by rwa [keys_zip]) hentry

/-- **The names of the productions**, rule by rule. -/
theorem map_productionOf (h : g.names.Nodup) :
    g.names.map g.productionOf = productionNames [] g.names := by
  refine List.ext_getElem (by rw [List.length_map, length_productionNames]) fun i hi hi' => ?_
  rw [List.length_map] at hi
  rw [List.getElem_map, productionOf, find?_productions h hi hi', Option.getD_some]

theorem find?_eq_productionOf (h : g.names.Nodup) (hname : name ∈ g.names) :
    g.productions.find? name = some (g.productionOf name) := by
  obtain ⟨i, hi, rfl⟩ := List.mem_iff_getElem.mp hname
  rw [productionOf, find?_productions h hi (by rwa [length_productionNames]), Option.getD_some]

theorem mem_productions (h : g.names.Nodup) (hname : name ∈ g.names) :
    (name, g.productionOf name) ∈ g.productions :=
  Bindings.mem_of_find? (find?_eq_productionOf h hname)

/-- The names of productions are those of the rules. -/
theorem mem_productions_iff (h : g.names.Nodup) {p : String} :
    (name, p) ∈ g.productions ↔ name ∈ g.names ∧ p = g.productionOf name := by
  refine ⟨fun hmem => ?_, fun ⟨hname, hp⟩ => hp ▸ mem_productions h hname⟩
  have hzip := (Bindings.mem_insertAll hmem).resolve_right List.not_mem_nil
  rw [← map_productionOf h, ← List.map_prod_left_eq_zip] at hzip
  obtain ⟨n, hn, heq⟩ := List.mem_map.mp hzip
  obtain ⟨rfl, rfl⟩ := Prod.mk.inj heq
  exact ⟨hn, rfl⟩

/-- **Every rule has a production name of its own.** -/
theorem productionOf_inj (h : g.names.Nodup) {m n : String} (hm : m ∈ g.names) (hn : n ∈ g.names)
    (heq : g.productionOf m = g.productionOf n) : m = n := by
  have hnodup : (g.names.map g.productionOf).Nodup := by
    rw [map_productionOf h]
    exact nodup_productionNames List.nodup_nil g.names
  exact List.inj_on_of_nodup_map hnodup hm hn heq

/-- **Production names have the shape of names**, those of undefined rules too. -/
theorem isName_productionOf (h : g.names.Nodup) (hnames : ∀ name ∈ g.names, isName name = true)
    (hname : isName name = true) : Ebnf.isName (g.productionOf name) = true := by
  by_cases hmem : name ∈ g.names
  · refine isName_productionNames hnames [] _ ?_
    rw [← map_productionOf h]
    exact List.mem_map_of_mem hmem
  · have hfind : g.productions.find? name = none :=
      Bindings.find?_insertAll_of_not_mem (by rwa [keys_zip])
    rw [productionOf, hfind]
    exact isName_pascal hname

end Grammar

end Formulary.Rules
