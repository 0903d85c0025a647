import Formulary.Ebnf.Lexeme
import Formulary.Proofs.Ebnf.Package
import Formulary.Proofs.Scanning
import Formulary.Proofs.Text.Quoting

/-!
# The lexemes of a text

The checker finds the words of a text (`spots_of_spells`): each lexeme is the word that stands at
its place (`Lexeme.word?`), when there are blanks between words.

The lexemes are found one by one, each from the characters in front of a reader (`spots_of_spelt`).
Positions depend on the whole text before a lexeme and are left open.
-/

namespace Formulary.Ebnf

open Reader (Stops stops_cons)

variable {r : Reader} {w : Word} {ws : List Word} {c : Char} {cs rest blanks : List Char}

/-! ## 1. One lexeme -/

/-- The word that a lexeme is. -/
def Lexeme.word? : Lexeme → Option Word
  | name text => some (.name text)
  | literal text => (Text.unquote? text.toList).map fun value => .text (String.ofList value)
  | char c => some (.sign c)
  | _ => none

theorem continuesName_of_isBlank (h : Text.isBlank c = true) : continuesName c = false := by
  simp only [Text.isBlank, Bool.or_eq_true, beq_iff_eq] at h
  rcases h with ((rfl | rfl) | rfl) | rfl <;> decide +kernel

theorem Word.Spelt.exists_head (h : w.Spelt cs) :
    ∃ c cs', cs = c :: cs' ∧ Text.isBlank c = false := by
  cases h with
  | name hname =>
    obtain ⟨c, cs', hlist, hc, -⟩ := isName_iff.mp hname
    refine ⟨c, cs', hlist, Bool.eq_false_iff.mpr fun hblank => ?_⟩
    have hnone := continuesName_of_isBlank hblank
    rw [continuesName, hc, Bool.true_or] at hnone
    cases hnone
  | text _ hvalue =>
    obtain ⟨inner, rfl, -⟩ := Text.unquote?_inside hvalue
    exact ⟨'\x22', _, rfl, rfl⟩
  | @sign c hc =>
    refine ⟨c, [], rfl, ?_⟩
    simp only [List.mem_cons, List.not_mem_nil, or_false] at hc
    rcases hc with rfl | rfl | rfl <;> rfl

/-- **The closing quote is the first one behind no backslash.** -/
theorem literalRest_inside (h : Text.Inside cs) (rest : List Char) :
    literalRest (cs ++ '\x22' :: rest) = cs ++ ['\x22'] := by
  induction h with
  | nil => simp [literalRest]
  | @plain c cs hquote hslash _ ih =>
    rw [List.cons_append, literalRest.eq_def]
    simp [hquote, hslash, ih]
  | escape _ ih => simp [literalRest, ih]

/-- **A text starts with its first word**, when what follows can not go on with it. -/
theorem lexemeAt_spelt (h : w.Spelt cs) (hend : Stops continuesName rest) :
    (lexemeAt (cs ++ rest)).word? = some w ∧ (lexemeAt (cs ++ rest)).text.toList = cs := by
  cases h with
  | @name name hname =>
    obtain ⟨c, cs', hlist, hc, hcs'⟩ := isName_iff.mp hname
    have hall : ∀ d ∈ name.toList, continuesName d = true := by
      rw [hlist]
      exact List.forall_mem_cons.mpr ⟨by rw [continuesName, hc, Bool.true_or], hcs'⟩
    have hrest : rest.takeWhile continuesName = [] := by
      cases rest with
      | nil => rfl
      | cons d rest => simp [hend d rfl]
    have htake : (name.toList ++ rest).takeWhile continuesName = name.toList := by
      rw [List.takeWhile_append_of_pos hall, hrest, List.append_nil]
    have hlexeme : lexemeAt (name.toList ++ rest) = .name name := by
      rw [hlist] at htake ⊢
      rw [List.cons_append] at htake ⊢
      simp only [lexemeAt, hc, htake, ↓reduceIte]
      rw [← hlist, String.ofList_toList]
    rw [hlexeme]
    exact ⟨rfl, rfl⟩
  | @text value cs _ hvalue =>
    have hstart : startsName '\x22' = false := by decide +kernel
    have hdigit : Number.isDecimalDigit '\x22' = false := by decide +kernel
    have hlexeme : lexemeAt (cs ++ rest) = .literal (String.ofList cs) := by
      obtain ⟨inner, rfl, hinside⟩ := Text.unquote?_inside hvalue
      rw [List.cons_append, List.append_assoc]
      simp only [lexemeAt, hstart, hdigit, Bool.false_eq_true, ↓reduceIte, beq_self_eq_true]
      rw [List.singleton_append, literalRest_inside hinside]
    rw [hlexeme]
    exact ⟨by simp [Lexeme.word?, hvalue, String.ofList_toList], String.toList_ofList⟩
  | @sign c hc =>
    have hnone : startsName c = false ∧ Number.isDecimalDigit c = false
        ∧ (c == '\x22') = false := by
      simp only [List.mem_cons, List.not_mem_nil, or_false] at hc
      rcases hc with rfl | rfl | rfl
      all_goals exact ⟨by decide +kernel, by decide +kernel, rfl⟩
    obtain ⟨hstart, hdigit, hquote⟩ := hnone
    have hlexeme : lexemeAt ([c] ++ rest) = .char c := by
      simp [lexemeAt, hstart, hdigit, hquote]
    rw [hlexeme]
    exact ⟨rfl, String.toList_singleton c⟩

theorem chars_skip (r : Reader) (n : Nat) : (skip r n).chars = r.chars.drop n := by
  simp [skip, Reader.chars, Text.Source.chars]

/-- **The first word of a text is found behind the blanks**, and the others behind it. -/
theorem spots_of_spelt (h : w.Spelt cs) (hblank : ∀ c ∈ blanks, Text.isBlank c = true)
    (hr : r.chars = blanks ++ (cs ++ rest)) (hend : Stops continuesName rest) :
    ∃ s r', spots r = (s :: (spots r').1, (spots r').2) ∧ s.lexeme.word? = some w
      ∧ r'.chars = rest := by
  obtain ⟨c, cs', rfl, hc⟩ := h.exists_head
  have hskip : (r.skipWhile Text.isBlank).chars = c :: cs' ++ rest := by
    refine Reader.chars_skipWhile hr hblank fun d hd => ?_
    cases hd
    exact hc
  obtain ⟨hword, htext⟩ := lexemeAt_spelt h hend
  have hat : lexemeAt (Text.Source.chars (r.skipWhile Text.isBlank).rest)
      = lexemeAt (c :: cs' ++ rest) := congrArg lexemeAt hskip
  generalize lexemeAt (c :: cs' ++ rest) = x at hword htext hat
  have hafter : (skip (r.skipWhile Text.isBlank) x.text.length).chars = rest := by
    rw [chars_skip, hskip, ← htext, ← String.length_toList, List.drop_left]
  have hlt : (skip (r.skipWhile Text.isBlank) x.text.length).rest.length < r.rest.length := by
    rw [← Reader.length_chars, ← Reader.length_chars, hafter, hr]
    simp only [List.length_append, List.length_cons]
    omega
  refine ⟨⟨x, (r.skipWhile Text.isBlank).pos⟩, _, ?_, hword, hafter⟩
  rw [spots]
  simp only [hat]
  cases x with
  | eof => cases hword
  | _ => simp [hlt]

/-- Blanks at the end of a text have no lexemes. -/
theorem spots_of_blanks (h : ∀ c ∈ r.chars, Text.isBlank c = true) : (spots r).1 = [] := by
  have hskip : (r.skipWhile Text.isBlank).chars = [] :=
    Reader.chars_skipWhile (List.append_nil _).symm h fun c hc => by cases hc
  have hat : lexemeAt (Text.Source.chars (r.skipWhile Text.isBlank).rest) = .eof := by
    show lexemeAt (r.skipWhile Text.isBlank).chars = .eof
    rw [hskip]
    rfl
  rw [spots]
  simp only [hat]

/-! ## 2. The lexemes of a text -/

/-- **The lexemes of a text are its words**, whatever blanks stand in front. -/
theorem spots_of_spells (h : Spells ws cs) (hblank : ∀ c ∈ blanks, Text.isBlank c = true)
    (hr : r.chars = blanks ++ cs) : (spots r).1.map (·.lexeme.word?) = ws.map some := by
  induction h generalizing blanks r with
  | nil => simp [spots_of_blanks (r := r) (by simpa [hr] using hblank)]
  | @blank c ws cs hc _ ih =>
    have hblank' : ∀ d ∈ blanks ++ [c], Text.isBlank d = true :=
      List.forall_mem_append.mpr ⟨hblank, Text.isBlank_single hc⟩
    exact ih hblank' (by simp [hr])
  | word hspelt hc _ ih =>
    obtain ⟨s, r', hspots, hword, hr'⟩ :=
      spots_of_spelt hspelt hblank hr (stops_cons (continuesName_of_isBlank hc) _)
    rw [hspots, List.map_cons, List.map_cons, hword, ih (Text.isBlank_single hc) hr']

end Formulary.Ebnf
