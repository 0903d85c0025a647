import Formulary.Proofs.Lookahead
import Formulary.Text.Blank

/-!
# Scanning a text

A scanner gives one token at a time, and a feed asks it again until nothing is left.  Both scanners
of the library look at characters only; positions and widths are carried along.  This module says
what the moves of a reader do to the characters still to be read (`Reader.chars`), and puts single
answers of a scanner together to the tokens of a text (`Scans`), whatever blanks stand between them.
-/

namespace Formulary

/-! ## 1. The characters of a reader -/

namespace Reader

variable {r : Reader} {p : Char → Bool} {c : Char} {cs rest : List Char}

/-- The characters still to be read. -/
def chars (r : Reader) : List Char := Text.Source.chars r.rest

theorem chars_ofString (s : String) : (ofSource (.ofString s)).chars = s.toList := by
  simp [chars, ofSource, Text.Source.ofString, Text.Source.chars, Function.comp_def]

theorem length_chars (r : Reader) : r.chars.length = r.rest.length := by
  simp [chars, Text.Source.chars]

theorem peek_eq (r : Reader) : r.peek = r.chars.head? := by
  simp [peek, chars, Text.Source.chars]

theorem peek_cons (h : r.chars = c :: cs) : r.peek = some c := by
  rw [peek_eq, h]
  rfl

theorem exists_chars_of_peek (h : r.peek = some c) : ∃ cs, r.chars = c :: cs := by
  rw [peek_eq] at h
  exact List.head?_eq_some_iff.mp h

theorem rest_ne_nil (h : r.chars = c :: cs) : r.rest ≠ [] := by
  intro hnil
  rw [chars, hnil] at h
  cases h

theorem sees_cons (h : r.chars = c :: cs) (p : Char → Bool) : r.sees p = p c := by
  rw [sees, peek_cons h]
  rfl

theorem sees_nil (h : r.chars = []) (p : Char → Bool) : r.sees p = false := by
  rw [sees, peek_eq, h]
  rfl

/-- The next character, if there is one, is none that `p` accepts. -/
def Stops (p : Char → Bool) (rest : List Char) : Prop := ∀ c ∈ rest.head?, p c = false

theorem stops_cons (hc : p c = false) (rest : List Char) : Stops p (c :: rest) := by
  rintro d hd
  cases hd
  exact hc

/-- **A text splits in one way only** into a run of accepted characters and what stops the run. -/
theorem Stops.append_inj {ds rest' : List Char} (h : cs ++ rest = ds ++ rest')
    (hcs : ∀ c ∈ cs, p c = true) (hds : ∀ d ∈ ds, p d = true) (hrest : Stops p rest)
    (hrest' : Stops p rest') : cs = ds ∧ rest = rest' := by
  induction cs generalizing ds with
  | nil =>
    cases ds with
    | nil => exact ⟨rfl, h⟩
    | cons d ds =>
      have hd := hrest d (by rw [← List.nil_append rest, h]; rfl)
      rw [hds d List.mem_cons_self] at hd
      cases hd
  | cons c cs ih =>
    cases ds with
    | nil =>
      have hc := hrest' c (by rw [← List.nil_append rest', ← h]; rfl)
      rw [hcs c List.mem_cons_self] at hc
      cases hc
    | cons d ds =>
      obtain ⟨rfl, htail⟩ := List.cons.inj h
      obtain ⟨rfl, hend⟩ := ih htail (fun c hc => hcs c (List.mem_cons_of_mem _ hc))
        fun d hd => hds d (List.mem_cons_of_mem _ hd)
      exact ⟨rfl, hend⟩

theorem sees_of_stops (h : r.chars = rest) (hstop : Stops p rest) : r.sees p = false := by
  cases rest with
  | nil => exact sees_nil h p
  | cons c rest => rw [sees_cons h]; exact hstop c rfl

theorem stops_of_not_sees (h : ¬ r.sees p = true) : Stops p r.chars := by
  intro c hc
  rw [← peek_eq] at hc
  rw [sees, show r.peek = some c from hc] at h
  simpa using h

theorem exists_chars_of_sees (h : r.sees p = true) : ∃ c cs, r.chars = c :: cs ∧ p c = true := by
  obtain ⟨c, hpeek, hc⟩ := (Option.any_eq_true ..).mp h
  obtain ⟨cs, hcs⟩ := exists_chars_of_peek hpeek
  exact ⟨c, cs, hcs, hc⟩

/-- A move forward takes one character off. -/
theorem chars_advance (h : r.chars = c :: cs) : r.advance.chars = cs := by
  unfold advance
  rcases r with ⟨_ | ⟨g, rest⟩, pos⟩
  · cases h
  · exact (List.cons.inj h).2

theorem takeWhile_fst (r : Reader) (p : Char → Bool) : (r.takeWhile p).1 = r.chars.takeWhile p := by
  simp [takeWhile, chars, Text.Source.chars, List.takeWhile_map, Function.comp_def]

theorem chars_takeWhile (r : Reader) (p : Char → Bool) :
    (r.takeWhile p).2.chars = r.chars.dropWhile p := by
  simp [takeWhile, chars, Text.Source.chars, List.dropWhile_map, Function.comp_def]

/-- **A run is what is accepted**, up to the first character that is not. -/
theorem takeWhile_splits (r : Reader) (p : Char → Bool) :
    r.chars = (r.takeWhile p).1 ++ (r.takeWhile p).2.chars ∧
      (∀ c ∈ (r.takeWhile p).1, p c = true) ∧ Stops p (r.takeWhile p).2.chars := by
  rw [takeWhile_fst, chars_takeWhile]
  refine ⟨List.takeWhile_append_dropWhile.symm, List.all_eq_true.mp List.all_takeWhile, ?_⟩
  intro c hc
  obtain ⟨cs, hcs⟩ := List.head?_eq_some_iff.mp hc
  have hne : r.chars.dropWhile p ≠ [] := by simp [hcs]
  have hhead := List.head_dropWhile_not p hne
  simpa [hcs] using hhead

/-- **A run of accepted characters is taken whole**, and no more than it. -/
theorem takeWhile_append (h : r.chars = cs ++ rest) (hcs : ∀ c ∈ cs, p c = true)
    (hrest : Stops p rest) : ∃ r', r.takeWhile p = (cs, r') ∧ r'.chars = rest := by
  have htake : rest.takeWhile p = [] := by
    cases rest with
    | nil => rfl
    | cons c rest => simp [hrest c rfl]
  have hdrop : rest.dropWhile p = rest := by
    cases rest with
    | nil => rfl
    | cons c rest => simp [hrest c rfl]
  refine ⟨(r.takeWhile p).2, Prod.ext ?_ rfl, ?_⟩
  · rw [takeWhile_fst, h, List.takeWhile_append_of_pos hcs, htake, List.append_nil]
  · rw [chars_takeWhile, h, List.dropWhile_append_of_pos hcs, hdrop]

/-- Leaving out a run of accepted characters. -/
theorem chars_skipWhile (h : r.chars = cs ++ rest) (hcs : ∀ c ∈ cs, p c = true)
    (hrest : Stops p rest) : (r.skipWhile p).chars = rest := by
  obtain ⟨r', heq, hr'⟩ := takeWhile_append h hcs hrest
  rw [skipWhile, heq]
  exact hr'

theorem length_skipWhile_le (r : Reader) (p : Char → Bool) :
    (r.skipWhile p).rest.length ≤ r.rest.length := by
  rw [← length_chars, ← length_chars, skipWhile, chars_takeWhile]
  exact List.IsSuffix.length_le (List.dropWhile_suffix p)

theorem length_advance_le (r : Reader) : r.advance.rest.length ≤ r.rest.length := by
  unfold advance
  split <;> simp_all

theorem length_advance_lt (h : r.chars = c :: cs) : r.advance.rest.length < r.rest.length := by
  rw [← length_chars, ← length_chars, chars_advance h, h]
  exact Nat.lt_succ_self _

/-- A run that starts with an accepted character starts with it, and takes something off. -/
theorem takeWhile_cons (h : r.chars = c :: cs) (hc : p c = true) :
    (r.takeWhile p).1 = c :: cs.takeWhile p ∧ (r.takeWhile p).2.rest.length < r.rest.length := by
  constructor
  · rw [r.takeWhile_fst, h, List.takeWhile_cons_of_pos hc]
  · rw [← length_chars, ← length_chars, r.chars_takeWhile, h, List.dropWhile_cons_of_pos hc]
    exact Nat.lt_succ_of_le (List.IsSuffix.length_le (List.dropWhile_suffix p))

end Reader

theorem Text.isBlank_single {c : Char} (h : isBlank c = true) : ∀ d ∈ [c], isBlank d = true := by
  intro d hd
  rw [List.mem_singleton.mp hd]
  exact h

/-! ## 2. The tokens of a scanner -/

namespace Feed

variable {scan : Reader → Step × Reader} {r r' : Reader} {t : Token} {w : List Token}

/-- Every token but the end of the input takes something off the text. -/
def Advances (scan : Reader → Step × Reader) : Prop :=
  ∀ r t r', scan r = (.ok t, r') → t.isEOF = false → r'.rest.length < r.rest.length

theorem untilEnd_ofScanner_token (h : scan r = (.ok t, r')) (ht : t.isEOF = false)
    (hlt : r'.rest.length < r.rest.length) :
    (ofScanner scan r).untilEnd
      = (t :: (ofScanner scan r').untilEnd.1, (ofScanner scan r').untilEnd.2) := by
  rw [ofScanner, h]
  simp only [hlt, ↓reduceDIte]
  exact untilEndFrom_token ht _ _

theorem untilEnd_ofScanner_eof (h : scan r = (.ok t, r')) (ht : t.isEOF = true) :
    (ofScanner scan r).untilEnd = ([], .ok t) := by
  rw [ofScanner, h]
  split
  · exact untilEndFrom_eof ht _ _
  · rfl

theorem untilEnd_ofScanner_error {e : Failure} (h : scan r = (.error e, r')) :
    (ofScanner scan r).untilEnd = ([], .error e) := by
  rw [ofScanner, h]
  split
  · rfl
  · rfl

/-- The three ways in which a scan can go on. -/
theorem ofScanner_cases (hscan : Advances scan) (r : Reader) :
    (∃ ending, (ofScanner scan r).untilEnd = ([], ending) ∧ Closes ending) ∨
      ∃ t r', scan r = (.ok t, r') ∧ t.isEOF = false ∧ r'.rest.length < r.rest.length ∧
        (ofScanner scan r).untilEnd
          = (t :: (ofScanner scan r').untilEnd.1, (ofScanner scan r').untilEnd.2) := by
  rcases h : scan r with ⟨answer, r'⟩
  cases answer with
  | error e => exact .inl ⟨.error e, untilEnd_ofScanner_error h, fun t ht => by cases ht⟩
  | ok t =>
    cases ht : t.isEOF with
    | true =>
      refine .inl ⟨.ok t, untilEnd_ofScanner_eof h ht, fun u hu => ?_⟩
      cases hu
      exact ht
    | false =>
      have hlt := hscan r t r' h ht
      exact .inr ⟨t, r', rfl, ht, hlt, untilEnd_ofScanner_token h ht hlt⟩

/-- **The tokens of a text come to an end**: the end of the input or a failure. -/
theorem closes_ofScanner (hscan : Advances scan) (r : Reader) :
    Closes (ofScanner scan r).untilEnd.2 := by
  rcases ofScanner_cases hscan r with ⟨ending, heq, hclose⟩ | ⟨t, r', -, -, hlt, heq⟩
  · rw [heq]
    exact hclose
  · rw [heq]
    exact closes_ofScanner hscan r'
termination_by r.rest.length

/-- What holds of every token that the scanner gives holds of the tokens of a text. -/
theorem forall_mem_ofScanner {P : Token → Prop} (hscan : Advances scan)
    (hP : ∀ r t r', scan r = (.ok t, r') → t.isEOF = false → P t) (r : Reader) :
    ∀ t ∈ (ofScanner scan r).untilEnd.1, P t := by
  rcases ofScanner_cases hscan r with ⟨ending, heq, -⟩ | ⟨u, r', hu, hne, hlt, heq⟩
  · rw [heq]
    simp
  · intro t ht
    rw [heq] at ht
    rcases List.mem_cons.mp ht with rfl | ht
    · exact hP r t r' hu hne
    · exact forall_mem_ofScanner hscan hP r' t ht
termination_by r.rest.length

/-- `Scans scan r w r'`: from `r` on the scanner gives the tokens `w`, and then stands at `r'`. -/
inductive Scans (scan : Reader → Step × Reader) : Reader → List Token → Reader → Prop
  | nil (r : Reader) : Scans scan r [] r
  | cons {r r₁ r₂ : Reader} {t : Token} {w : List Token} :
      scan r = (.ok t, r₁) → t.isEOF = false → r₁.rest.length < r.rest.length →
      Scans scan r₁ w r₂ → Scans scan r (t :: w) r₂

namespace Scans

variable {r₁ r₂ r₃ : Reader} {u : List Token}

theorem single (h : scan r = (.ok t, r')) (ht : t.isEOF = false)
    (hlt : r'.rest.length < r.rest.length) : Scans scan r [t] r' :=
  .cons h ht hlt (.nil r')

theorem append (h : Scans scan r₁ u r₂) (h' : Scans scan r₂ w r₃) : Scans scan r₁ (u ++ w) r₃ := by
  induction h with
  | nil r => exact h'
  | cons hscan ht hlt _ ih => exact .cons hscan ht hlt (ih h')

/-- **What was scanned stands in front of the tokens still to come.** -/
theorem untilEnd (h : Scans scan r w r') :
    (ofScanner scan r).untilEnd
      = (w ++ (ofScanner scan r').untilEnd.1, (ofScanner scan r').untilEnd.2) := by
  induction h with
  | nil r => rfl
  | cons hscan ht hlt _ ih => rw [untilEnd_ofScanner_token hscan ht hlt, ih]; rfl

end Scans

/-! ## 3. Blanks

Both scanners leave out blanks and then look for a token. -/

section

variable {scanToken : Reader → Step × Reader} {blanks cs rest : List Char} {c : Char}

/-- **Blanks in front of a token do not matter.** -/
theorem scans_after_blanks {P : Token → Prop} (hadvances : Advances scan)
    (hscan : ∀ r, scan r = scanToken (r.skipWhile Text.isBlank))
    (hblank : ∀ c ∈ blanks, Text.isBlank c = true) (h : r.chars = blanks ++ c :: cs)
    (hc : Text.isBlank c = false) (htoken : ∀ r : Reader, r.chars = c :: cs →
      ∃ t r', scanToken r = (.ok t, r') ∧ t.isEOF = false ∧ P t ∧ r'.chars = rest) :
    ∃ t r', Scans scan r [t] r' ∧ P t ∧ r'.chars = rest := by
  have hskip : (r.skipWhile Text.isBlank).chars = c :: cs := by
    refine Reader.chars_skipWhile h hblank fun d hd => ?_
    cases hd
    exact hc
  obtain ⟨t, r', ht, heof, hP, hr'⟩ := htoken _ hskip
  have heq : scan r = (.ok t, r') := (hscan r).trans ht
  exact ⟨t, r', .single heq heof (hadvances r t r' heq heof), hP, hr'⟩

/-- **After the last token there may be blanks before the end of the input.** -/
theorem untilEnd_of_blanks (hscan : ∀ r, scan r = scanToken (r.skipWhile Text.isBlank))
    (heof : ∀ r : Reader, r.peek = none → scanToken r = (.ok (.eofAt r.pos), r))
    (h : ∀ c ∈ r.chars, Text.isBlank c = true) :
    ∃ e, e.isEOF = true ∧ (ofScanner scan r).untilEnd = ([], .ok e) := by
  have hskip : (r.skipWhile Text.isBlank).chars = [] :=
    Reader.chars_skipWhile (List.append_nil _).symm h fun c hc => by cases hc
  have hend := heof (r.skipWhile Text.isBlank) (by rw [Reader.peek_eq, hskip]; rfl)
  exact ⟨_, rfl, untilEnd_ofScanner_eof ((hscan r).trans hend) rfl⟩

end

end Feed

end Formulary
