import Formulary.Proofs.Arith.Printing

/-!
# Reading a printed formula

Parsing and printing are inverse on the trees of a profile.  What is parsed is well formed, and the
text of a well-formed tree is parsed as that tree if it nests no deeper than the parser allows.
-/

namespace Formulary.Arith

open Chain (Derives)

variable {p : Profile} {d : Dialect}

/-- **The tokens of a text that derives a tree** end with the text and have its weight. -/
theorem untilEnd_of_prints {v : Weight} {s : String} {t : Formula}
    (hprints : Prints d (.level 0) v s.toList [t]) :
    ∃ e, (feed (.ofString s)).untilEnd = (tokens (.ofString s), .ok e) ∧ e.isEOF = true
      ∧ Derives d.parser d.parser.innermost (.level 0) v.nesting (tokens (.ofString s)) [t]
      ∧ openings (tokens (.ofString s)) = v.openings := by
  obtain ⟨w, r', hscans, hr', hd, hopen⟩ := hprints [] (.ofSource (.ofString s)) [] (by simp)
    (by rw [Reader.chars_ofString, List.append_nil, List.nil_append]) (by intro c hc; cases hc)
  obtain ⟨e, he, hend⟩ := untilEnd_of_nil hr'
  have huntil : (feed (.ofString s)).untilEnd = (w, .ok e) := by
    rw [feed, hscans.untilEnd, hend, List.append_nil]
  have htokens : tokens (.ofString s) = w := by rw [tokens, huntil]
  exact ⟨e, by rw [htokens, huntil], he, htokens ▸ hd, htokens ▸ hopen⟩

/-- **A text that derives a tree is parsed as it**, if it nests as deep as is allowed. -/
theorem parse_of_prints (h : Compiled p d) {v : Weight} {s : String} {t : Formula}
    (hprints : Prints d (.level 0) v s.toList [t]) (hallows : d.parser.Allows v.nesting) :
    d.parse (.ofString s) = .ok t := by
  obtain ⟨e, huntil, he, hd, -⟩ := untilEnd_of_prints hprints
  exact Chain.Parser.parseAll_complete h.unsigned h.separated huntil he hd hallows

/-- The text of a well-formed tree is a formula. -/
theorem prints_format_formula (h : Compiled p d) {t : Formula} (ht : WellFormed p false t) :
    Prints d (.level 0) (weight t) (format t).toList [t] :=
  ((prints_format h ht).2 rfl).loosen (ht.bound_le h) (Nat.zero_le _)

/-- **Parsing and printing are inverse on the trees of a profile.**  Every tree that is parsed is
well formed, and without a limit of depth the text of every well-formed tree is parsed as that
tree. -/
theorem parse_format_inverse (hd : Dialect.compile p = .ok d) :
    (∀ s t, d.parse s = .ok t → WellFormed p false t) ∧
    (p.maxDepth ≤ 0 → ∀ t, WellFormed p false t →
      d.parse (.ofString (format t)) = .ok t ∧ Formula.same t t = true) := by
  have h := Dialect.compiled hd
  refine ⟨fun s t ht => wellFormed_of_parse h ht, fun hdepth t ht => ⟨?_, ht.same_self⟩⟩
  refine parse_of_prints h (prints_format_formula h ht) (.inl ?_)
  rw [h.limit]
  omega

/-- `a - (b - -sin)`: a difference on the right of another, and the name of a function under a
sign. -/
def nestedDifference : Formula :=
  .node (.binary "-" 0) [.leaf (.var "a"),
    .node (.binary "-" 0) [.leaf (.var "b"), .node (.unary "-") [.leaf (.var "sin")]]]

theorem listsLast_minus : Profile.standard.ListsLast 0 "-" :=
  .of_drop rfl (by decide) (by decide)

/-- **In the standard profile `a - (b - -sin)` is printed so and read back**, with `sin` as a
variable. -/
theorem parse_format_inverse_nestedDifference : ∃ d, Dialect.compile .standard = .ok d ∧
    format nestedDifference = "a - (b - -sin)" ∧ WellFormed .standard false nestedDifference ∧
    d.parse (.ofString (format nestedDifference)) = .ok nestedDifference := by
  have ht : WellFormed .standard false nestedDifference :=
    .binary listsLast_minus (.var (by decide) (by decide))
      (.binary listsLast_minus (.var (by decide) (by decide))
        (.unary (by decide) (.var (by decide) (by decide))))
  exact ⟨_, rfl, by decide, ht, ((parse_format_inverse rfl).2 (by decide) _ ht).1⟩

end Formulary.Arith
