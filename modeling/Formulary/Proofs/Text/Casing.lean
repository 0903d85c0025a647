import Formulary.Text.Pascal

/-!
# Letters and digits in Pascal case

A text in Pascal case has letters and digits only, and starts with a letter if the text did
(`pascalChars_chars`, `pascalChars_of_letter`): the capital of a letter is a letter, and a digit is
its own capital.

Both facts are about the tables and are checked run by run: the capitals of a run of small letters
are all in one run of letters (`Run.within`), unless the run has no character in common with the
table (`Run.apart`).
-/

namespace Formulary.Text

/-! ## 1. Runs -/

namespace Run

variable {r r' : Run} {n : Nat}

/-- Every code point of the run is in the run `r'`. -/
def within (r r' : Run) : Bool :=
  Nat.ble r.last r'.last && Nat.ble r'.first r.first && (r.first - r'.first) % r'.step == 0
    && r.step % r'.step == 0

/-- No code point is in both runs. -/
def apart (r r' : Run) : Bool := Nat.blt r'.last r.first || Nat.blt r.last r'.first

theorem holds_of_within (h : r.within r' = true) (hn : r.holds n = true) : r'.holds n = true := by
  simp only [within, holds, Bool.and_eq_true, decide_eq_true_eq, beq_iff_eq, Nat.ble_eq] at h hn ⊢
  obtain ⟨⟨⟨hlast, hfirst⟩, hstart⟩, hstep⟩ := h
  obtain ⟨⟨hge, hle⟩, hmod⟩ := hn
  refine ⟨⟨by omega, by omega⟩, ?_⟩
  have hdvd : r'.step ∣ n - r.first :=
    Nat.dvd_trans (Nat.dvd_of_mod_eq_zero hstep) (Nat.dvd_of_mod_eq_zero hmod)
  rw [show n - r'.first = (n - r.first) + (r.first - r'.first) by omega]
  exact Nat.mod_eq_zero_of_dvd (Nat.dvd_add hdvd (Nat.dvd_of_mod_eq_zero hstart))

theorem not_holds_of_apart (h : r.apart r' = true) (hn : r.holds n = true) :
    r'.holds n = false := by
  simp only [apart, Bool.or_eq_true, Nat.blt_eq] at h
  simp only [holds, Bool.and_eq_true, decide_eq_true_eq] at hn
  rw [Bool.eq_false_iff]
  intro hn'
  simp only [holds, Bool.and_eq_true, decide_eq_true_eq] at hn'
  omega

end Run

/-- The run of the counterparts. -/
def Shift.target (s : Shift) : Run :=
  ⟨(s.run.first + s.distance).toNat, (s.run.last + s.distance).toNat, s.run.step⟩

theorem Shift.target_holds {s : Shift} {n : Nat} (h : s.run.holds n = true)
    (hpos : 0 ≤ s.run.first + s.distance) : s.target.holds (n + s.distance).toNat = true := by
  simp only [Run.holds, Bool.and_eq_true, decide_eq_true_eq, beq_iff_eq, target] at h ⊢
  obtain ⟨⟨hge, hle⟩, hmod⟩ := h
  rw [show (n + s.distance).toNat - (s.run.first + s.distance).toNat = n - s.run.first by omega]
  exact ⟨⟨decide_eq_true (by omega), decide_eq_true (by omega)⟩, hmod⟩

/-! ## 2. Capitals -/

variable {c : Char} {cs : List Char}

/-- A run of small letters has no letter at all or goes into a run of letters. -/
theorem letters_upper : upperShifts.all (fun s =>
    (0 ≤ s.run.first + s.distance && letters.any s.target.within) || letters.all s.run.apart)
      = true := by
  decide +kernel

/-- The code points of letters are those of characters. -/
theorem letters_valid : letters.all (fun r =>
    r.last < 0xd800 || (0xdfff < r.first && r.last < 0x110000)) = true := by
  decide +kernel

/-- **The capital of a letter is a letter.** -/
theorem isLetter_toUpper (h : isLetter c = true) : isLetter (toUpper c) = true := by
  unfold toUpper shiftBy
  split
  next s hfind =>
    have hrun : s.run.holds c.toNat = true := by
      have := List.find?_some hfind
      simpa using this
    have htable := List.all_eq_true.mp letters_upper s (List.mem_of_find?_eq_some hfind)
    rcases Bool.or_eq_true_iff.mp htable with hinto | hapart
    · obtain ⟨hpos, hany⟩ := Bool.and_eq_true_iff.mp hinto
      obtain ⟨r, hr, hwithin⟩ := List.any_eq_true.mp hany
      have hholds := Run.holds_of_within hwithin (Shift.target_holds hrun (of_decide_eq_true hpos))
      have hvalid : (c.toNat + s.distance).toNat.isValidChar := by
        have hr' := List.all_eq_true.mp letters_valid r hr
        simp only [Run.holds, Bool.and_eq_true, Bool.or_eq_true, decide_eq_true_eq] at hholds hr'
        unfold Nat.isValidChar
        omega
      have hcode :
          (Char.ofNat (c.toNat + s.distance).toNat).toNat = (c.toNat + s.distance).toNat := by
        rw [Char.ofNat, dif_pos hvalid]
        rfl
      exact List.any_eq_true.mpr ⟨r, hr, by rwa [hcode]⟩
    · obtain ⟨r, hr, hholds⟩ := List.any_eq_true.mp h
      rw [Run.not_holds_of_apart (List.all_eq_true.mp hapart r hr) hrun] at hholds
      cases hholds
  next => exact h

/-- **A digit is its own capital.** -/
theorem toUpper_of_digit (h : isDigit c = true) : toUpper c = c := by
  have htable : upperShifts.all (fun s => digits.all s.run.apart) = true := by decide +kernel
  unfold toUpper shiftBy
  split
  next s hfind =>
    have hrun : s.run.holds c.toNat = true := by
      have := List.find?_some hfind
      simpa using this
    obtain ⟨r, hr, hholds⟩ := List.any_eq_true.mp h
    have hapart := List.all_eq_true.mp htable s (List.mem_of_find?_eq_some hfind)
    rw [Run.not_holds_of_apart (List.all_eq_true.mp hapart r hr) hrun] at hholds
    cases hholds
  next => rfl

/-! ## 3. Pascal case -/

/-- **Letters and digits are left, and nothing else.** -/
theorem pascalChars_chars (start : Bool) (cs : List Char) :
    ∀ c ∈ pascalChars start cs, (isLetter c || isDigit c) = true := by
  fun_induction pascalChars start cs with
  | case1 => simp
  | case2 _ _ _ _ ih => exact ih
  | case3 start c cs _ hc ih =>
    refine List.forall_mem_cons.mpr ⟨?_, ih⟩
    split
    · rcases Bool.or_eq_true_iff.mp hc with hletter | hdigit
      · rw [isLetter_toUpper hletter, Bool.true_or]
      · rw [toUpper_of_digit hdigit, hdigit, Bool.or_true]
    · exact hc
  | case4 _ _ _ _ _ ih => exact ih

theorem isSeparator_of_letter (h : isLetter c = true) : isSeparator c = false := by
  rw [Bool.eq_false_iff]
  intro hsep
  simp only [isSeparator, Bool.or_eq_true, beq_iff_eq] at hsep
  rcases hsep with (rfl | rfl) | rfl
  all_goals
    revert h
    decide +kernel

/-- **A letter in front stays in front**, as a capital. -/
theorem pascalChars_of_letter (h : isLetter c = true) (cs : List Char) :
    pascalChars true (c :: cs) = toUpper c :: pascalChars false cs := by
  simp [pascalChars, isSeparator_of_letter h, h]

end Formulary.Text
