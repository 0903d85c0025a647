import Mathlib.Algebra.Group.Nat.Defs
import Formulary.Text.Quoted

/-!
# Reading a quoted text

A text is read from between its quotes as it was (`unquote?_quote`), whatever characters it has.
Each character is written as it is or as an escape, and an escape is read as its character
(`escape_cases`).  All characters of a quoted text can be printed (`isPrintable_of_mem_quote`), so
it has no ends of lines in it.

A text that can be read ends with the first quote behind no backslash (`unquote?_inside`).
-/

namespace Formulary.Text

/-! ## 1. Digits in base sixteen -/

theorem hexValue?_hexDigit {n : Nat} (h : n < 16) : hexValue? (hexDigit n) = some n := by
  have hall : ∀ m : Fin 16, hexValue? (hexDigit m) = some m.val := by decide
  exact hall ⟨n, h⟩

theorem length_hex (width n : Nat) : (hex width n).length = width := by
  induction width generalizing n with
  | zero => rfl
  | succ width ih => simp [hex, ih]

/-- The digits of a number are worth as much of it as there is room for. -/
theorem hex_value (width n : Nat) : ∃ ds, (hex width n).mapM hexValue? = some ds ∧
    ds.foldl (fun n d => n * 16 + d) 0 = n % 16 ^ width := by
  induction width generalizing n with
  | zero => exact ⟨[], rfl, by simp [Nat.mod_one]⟩
  | succ width ih =>
    obtain ⟨ds, hds, hvalue⟩ := ih (n / 16)
    refine ⟨ds ++ [n % 16], ?_, ?_⟩
    · simp [hex, List.mapM_append, hds, hexValue?_hexDigit (Nat.mod_lt n (by decide))]
    · rw [List.foldl_append, hvalue, Nat.pow_succ, Nat.mul_comm, Nat.mod_mul]
      simp only [List.foldl_cons, List.foldl_nil]
      omega

/-- **A character is read from its number.** -/
theorem charOfHex?_hex {width : Nat} {c : Char} (h : c.toNat < 16 ^ width) :
    charOfHex? (hex width c.toNat) = some c := by
  obtain ⟨ds, hds, hvalue⟩ := hex_value width c.toNat
  rw [Nat.mod_eq_of_lt h] at hvalue
  have hvalid : c.toNat.isValidChar := c.valid
  simp [charOfHex?, hds, hvalue, hvalid, Char.ofNat_toNat]

theorem exists_hexDigit {width n : Nat} {d : Char} (h : d ∈ hex width n) :
    ∃ m : Fin 16, d = hexDigit m := by
  induction width generalizing n with
  | zero => cases h
  | succ width ih =>
    rw [hex, List.mem_append] at h
    rcases h with h | h
    · exact ih h
    · exact ⟨⟨n % 16, Nat.mod_lt n (by decide)⟩, List.mem_singleton.mp h⟩

/-! ## 2. Escapes -/

/-- The character is read from behind a backslash. -/
def ReadAs (e : Char) (es : List Char) (c : Char) : Prop :=
  ∀ rest, unescape? '\x22' (e :: es ++ rest) = some (c, rest)

variable {c : Char} {cs rest : List Char}

/-- A quote or a backslash. -/
theorem readAs_marked (h : c = '\x22' ∨ c = '\\') : ReadAs c [] c := by
  simp [ReadAs, unescape?, h]

/-- The letter of a control character. -/
theorem readAs_letter {letter : Char} (h : escapeLetter? c = some letter) : ReadAs letter [] c := by
  have hcode : c = Char.ofNat c.toNat := (Char.ofNat_toNat c).symm
  intro rest
  unfold escapeLetter? at h
  split at h <;> cases h
  all_goals
    rename_i hn
    rw [hn] at hcode
    subst hcode
    rfl

/-- The number of a character, behind the mark for its width. -/
theorem readAs_number {mark : Char} {width : Nat}
    (hmark : (mark, width) ∈ [('x', 2), ('u', 4), ('U', 8)]) (h : c.toNat < 16 ^ width)
    (hbyte : mark = 'x' → c.toNat < 0x80) : ReadAs mark (hex width c.toNat) c := by
  intro rest
  have htake : (hex width c.toNat ++ rest).take width = hex width c.toNat :=
    List.take_left' (length_hex width c.toNat)
  have hdrop : (hex width c.toNat ++ rest).drop width = rest :=
    List.drop_left' (length_hex width c.toNat)
  have hread := charOfHex?_hex h
  simp only [List.mem_cons, Prod.mk.injEq, List.not_mem_nil, or_false] at hmark
  rcases hmark with ⟨rfl, rfl⟩ | ⟨rfl, rfl⟩ | ⟨rfl, rfl⟩
  · simp [unescape?, htake, hdrop, hread, hbyte rfl]
  · simp [unescape?, htake, hdrop, hread]
  · simp [unescape?, htake, hdrop, hread]

/-- **A character is written as it is, or as an escape that is read as it.** -/
theorem escape_cases (c : Char) :
    (escape '\x22' c = [c] ∧ isPrintable c = true ∧ c ≠ '\x22' ∧ c ≠ '\\') ∨
      ∃ e es, escape '\x22' c = '\\' :: e :: es ∧ ReadAs e es c := by
  unfold escape
  split
  next hmarked => exact .inr ⟨c, [], rfl, readAs_marked (by simpa using hmarked)⟩
  next hplain =>
    split
    next hprintable => exact .inl ⟨rfl, hprintable, by simpa using hplain⟩
    refine .inr ?_
    split
    next letter hletter => exact ⟨letter, [], rfl, readAs_letter hletter⟩
    next =>
      have hlt : c.toNat < 0x110000 := by
        have hvalid : c.toNat.isValidChar := c.valid
        unfold Nat.isValidChar at hvalid
        omega
      dsimp only
      split
      next hcontrol =>
        have hsmall : c.toNat < 0x80 := by
          simp only [Bool.or_eq_true, decide_eq_true_eq, beq_iff_eq] at hcontrol
          omega
        exact ⟨_, _, rfl, readAs_number (by simp) (by omega) fun _ => hsmall⟩
      split
      next hsmall => exact ⟨_, _, rfl, readAs_number (by simp) hsmall (by simp)⟩
      next => exact ⟨_, _, rfl, readAs_number (by simp) (by omega) (by simp)⟩

theorem isPrintable_hex {width n : Nat} : ∀ d ∈ hex width n, isPrintable d = true := by
  have hall : ∀ m : Fin 16, isPrintable (hexDigit m) = true := by decide +kernel
  intro d hd
  obtain ⟨m, rfl⟩ := exists_hexDigit hd
  exact hall m

/-- **What is written for a character can be printed.** -/
theorem isPrintable_escape (c : Char) : ∀ d ∈ escape '\x22' c, isPrintable d = true := by
  have hslash : isPrintable '\\' = true := by decide +kernel
  unfold escape
  split
  next hmarked =>
    have hc : isPrintable c = true := by
      rcases Bool.or_eq_true_iff.mp hmarked with h | h <;> rw [beq_iff_eq.mp h] <;> decide +kernel
    simp [hslash, hc]
  split
  next hprintable => simp [hprintable]
  split
  next letter hletter =>
    have hc : isPrintable letter = true := by
      unfold escapeLetter? at hletter
      split at hletter <;> cases hletter <;> decide +kernel
    simp [hslash, hc]
  next =>
    have hmarks : isPrintable 'x' = true ∧ isPrintable 'u' = true ∧ isPrintable 'U' = true := by
      decide +kernel
    obtain ⟨hx, hu, hU⟩ := hmarks
    have hlists : ∀ (mark : Char) (width : Nat), isPrintable mark = true →
        ∀ d ∈ '\\' :: mark :: hex width c.toNat, isPrintable d = true := by
      intro mark width hmark
      simpa [hslash, hmark] using isPrintable_hex
    dsimp only
    split
    · exact hlists 'x' 2 hx
    split
    · exact hlists 'u' 4 hu
    · exact hlists 'U' 8 hU

/-! ## 3. A text -/

theorem length_escape_pos (c : Char) : 0 < (escape '\x22' c).length := by
  rcases escape_cases c with ⟨h, -⟩ | ⟨e, es, h, -⟩ <;> simp [h]

/-- **The characters between the quotes are read one by one.** -/
theorem unquoteRest?_escape (cs : List Char) {size : Nat} (h : cs.length < size) :
    unquoteRest? '\x22' size (cs.flatMap (escape '\x22') ++ ['\x22']) = some cs := by
  obtain ⟨size, rfl⟩ : ∃ n, size = n + 1 := Nat.exists_eq_succ_of_ne_zero (Nat.ne_zero_of_lt h)
  induction cs generalizing size with
  | nil => simp [unquoteRest?]
  | cons c cs ih =>
    obtain ⟨size, rfl⟩ : ∃ n, size = n + 1 :=
      Nat.exists_eq_succ_of_ne_zero (Nat.ne_zero_of_lt (Nat.lt_of_succ_lt_succ h))
    have hrest := ih size (Nat.lt_of_succ_lt_succ h)
    rw [List.flatMap_cons, List.append_assoc]
    rcases escape_cases c with ⟨hescape, hprintable, hquote, hslash⟩ | ⟨e, es, hescape, hread⟩
    · have hline : c ≠ '\n' := by
        rintro rfl
        revert hprintable
        decide +kernel
      rw [hescape, List.singleton_append, unquoteRest?]
      simp [hquote, hslash, hline, hrest]
    · have hfirst := hread (cs.flatMap (escape '\x22') ++ ['\x22'])
      rw [List.cons_append] at hfirst
      rw [hescape, List.cons_append, unquoteRest?, List.cons_append, hfirst]
      simp [hrest]

theorem toList_quote (s : String) :
    (quote s).toList = '\x22' :: (s.toList.flatMap (escape '\x22') ++ ['\x22']) := by
  simp [quote]

/-- **A text is read from between its quotes.** -/
theorem unquote?_quote (s : String) : unquote? (quote s).toList = some s.toList := by
  have hlength : s.toList.length ≤ (s.toList.flatMap (escape '\x22')).length := by
    induction s.toList with
    | nil => simp
    | cons c cs ih =>
      have := length_escape_pos c
      simp only [List.flatMap_cons, List.length_append, List.length_cons]
      omega
  rw [toList_quote]
  refine unquoteRest?_escape s.toList ?_
  rw [List.length_append, List.length_singleton]
  omega

/-- **Texts are quoted differently.** -/
theorem quote_inj {s s' : String} (h : quote s = quote s') : s = s' := by
  have hread := unquote?_quote s
  rw [h, unquote?_quote s'] at hread
  exact (String.toList_inj.mp (Option.some.inj hread)).symm

/-- **All characters of a quoted text can be printed.** -/
theorem isPrintable_of_mem_quote (s : String) : ∀ d ∈ (quote s).toList, isPrintable d = true := by
  have hquote : isPrintable '\x22' = true := by decide +kernel
  intro d hd
  rw [toList_quote] at hd
  rcases List.mem_cons.mp hd with rfl | hd
  · exact hquote
  rcases List.mem_append.mp hd with hd | hd
  · obtain ⟨c, -, hc⟩ := List.mem_flatMap.mp hd
    exact isPrintable_escape c d hc
  · rwa [List.mem_singleton.mp hd]

/-- **No end of a line is left between the quotes.** -/
theorem newline_not_mem_quote (s : String) : '\n' ∉ (quote s).toList := by
  intro hmem
  have hprintable := isPrintable_of_mem_quote s _ hmem
  revert hprintable
  decide +kernel

/-! ## 4. The end of a text -/

/-- What stands between two quotes: no quote, unless a backslash stands in front of it. -/
inductive Inside : List Char → Prop
  | nil : Inside []
  | plain {c : Char} {cs : List Char} : c ≠ '\x22' → c ≠ '\\' → Inside cs → Inside (c :: cs)
  | escape {c : Char} {cs : List Char} : Inside cs → Inside ('\\' :: c :: cs)

theorem Inside.append {es : List Char} (hes : ∀ d ∈ es, d ≠ '\x22' ∧ d ≠ '\\')
    (h : Inside cs) : Inside (es ++ cs) := by
  induction es with
  | nil => exact h
  | cons d es ih =>
    obtain ⟨⟨hquote, hslash⟩, hes⟩ := List.forall_mem_cons.mp hes
    exact .plain hquote hslash (ih hes)

/-- What is read as a number has digits only. -/
theorem hexValue?_ne_none {ds : List Nat} (h : cs.mapM hexValue? = some ds) :
    ∀ d ∈ cs, hexValue? d ≠ none := by
  induction cs generalizing ds with
  | nil => simp
  | cons c cs ih =>
    rw [List.mapM_cons] at h
    obtain ⟨n, hn, h⟩ := Option.bind_eq_some_iff.mp h
    obtain ⟨ds', hds', -⟩ := Option.bind_eq_some_iff.mp h
    exact List.forall_mem_cons.mpr ⟨by simp [hn], ih hds'⟩

theorem ne_of_charOfHex? (h : charOfHex? cs = some c) : ∀ d ∈ cs, d ≠ '\x22' ∧ d ≠ '\\' := by
  intro d hd
  obtain ⟨ds, hds, -⟩ := Option.bind_eq_some_iff.mp h
  have hvalue := hexValue?_ne_none hds d hd
  constructor <;> rintro rfl <;> exact hvalue (by decide)

theorem ne_of_charOfOctal? (h : charOfOctal? cs = some c) : ∀ d ∈ cs, d ≠ '\x22' ∧ d ≠ '\\' := by
  intro d hd
  unfold charOfOctal? at h
  dsimp only at h
  split at h
  next hall =>
    simp only [Bool.and_eq_true, List.all_eq_true] at hall
    have hoctal := hall.1.2 d hd
    constructor <;> rintro rfl <;> revert hoctal <;> decide
  next => cases h

/-- **An escape is one character and then digits.** -/
theorem unescape?_eq_some (h : unescape? '\x22' cs = some (c, rest)) :
    ∃ e es, cs = e :: es ++ rest ∧ ∀ d ∈ es, d ≠ '\x22' ∧ d ≠ '\\' := by
  cases cs with
  | nil => cases h
  | cons e cs =>
    have hnumber : ∀ width : Nat,
        (charOfHex? (cs.take width)).map (fun d => (d, cs.drop width)) = some (c, rest) →
        ∃ e' es, e :: cs = e' :: es ++ rest ∧ ∀ d ∈ es, d ≠ '\x22' ∧ d ≠ '\\' := by
      intro width hmap
      obtain ⟨d, hd, heq⟩ := Option.map_eq_some_iff.mp hmap
      obtain ⟨-, rfl⟩ := Prod.mk.inj heq
      exact ⟨e, cs.take width, by simp, ne_of_charOfHex? hd⟩
    have hletter : rest = cs → ∃ e' es, e :: cs = e' :: es ++ rest ∧
        ∀ d ∈ es, d ≠ '\x22' ∧ d ≠ '\\' := by
      rintro rfl
      exact ⟨e, [], rfl, by simp⟩
    unfold unescape? at h
    dsimp only at h
    split at h
    · cases h
      exact hletter rfl
    split at h
    · exact hnumber 2 (Option.filter_eq_some_iff.mp h).1
    split at h
    · exact hnumber 4 h
    split at h
    · exact hnumber 8 h
    split at h
    · obtain ⟨d, hd, heq⟩ := Option.map_eq_some_iff.mp h
      obtain ⟨-, rfl⟩ := Prod.mk.inj heq
      exact ⟨e, cs.take 2, by simp, fun d' hd' => ne_of_charOfOctal? hd d' (by simp [hd'])⟩
    · obtain ⟨d, -, heq⟩ := Option.map_eq_some_iff.mp h
      exact hletter (Prod.mk.inj heq).2.symm

/-- **A text that can be read ends with the first quote behind no backslash.** -/
theorem unquoteRest?_inside {size : Nat} {value : List Char}
    (h : unquoteRest? '\x22' size cs = some value) :
    ∃ inner, cs = inner ++ ['\x22'] ∧ Inside inner := by
  induction size generalizing cs value with
  | zero => cases cs <;> cases h
  | succ size ih =>
    cases cs with
    | nil => cases h
    | cons c cs =>
      rw [unquoteRest?] at h
      split at h
      next hquote =>
        split at h
        next hempty => exact ⟨[], by simp [beq_iff_eq.mp hquote, List.isEmpty_iff.mp hempty], .nil⟩
        next => cases h
      split at h
      next hslash =>
        obtain ⟨⟨d, rest⟩, hescape, hrest⟩ := Option.bind_eq_some_iff.mp h
        obtain ⟨value', hvalue, -⟩ := Option.bind_eq_some_iff.mp hrest
        obtain ⟨e, es, rfl, hes⟩ := unescape?_eq_some hescape
        obtain ⟨inner, rfl, hinner⟩ := ih hvalue
        refine ⟨'\\' :: e :: (es ++ inner), by simp [beq_iff_eq.mp hslash], ?_⟩
        exact .escape (.append hes hinner)
      split at h
      · cases h
      next hquote hslash _ =>
        obtain ⟨value', hvalue, -⟩ := Option.bind_eq_some_iff.mp h
        obtain ⟨inner, rfl, hinner⟩ := ih hvalue
        exact ⟨c :: inner, rfl, .plain (by simpa using hquote) (by simpa using hslash) hinner⟩

theorem unquote?_inside {value : List Char} (h : unquote? cs = some value) :
    ∃ inner, cs = '\x22' :: (inner ++ ['\x22']) ∧ Inside inner := by
  unfold unquote? at h
  split at h
  next cs =>
    obtain ⟨inner, rfl, hinner⟩ := unquoteRest?_inside h
    exact ⟨inner, rfl, hinner⟩
  next => cases h

end Formulary.Text
