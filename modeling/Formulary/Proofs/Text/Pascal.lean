import Formulary.Proofs.Text.Casing
import Formulary.Proofs.Text.Encoding

/-!
# Words joined in Pascal case

A separator ends what comes before it: the parts of a text on both sides of it are joined on their
own (`pascalChars_append`).  What is left of a text are its letters and digits, some of them
replaced by their capitals (`pascalChars_letters`), and joining them once more changes nothing
(`pascalChars_again`), because a capital is its own capital (`toUpper_toUpper`).

Words can also be joined in two passes, one that drops characters and one that writes capitals; the
state of each is where the other one stands (`joined_sifted`).

1. Capitals of capitals.
2. Two passes.
3. Words.
4. Bytes.
-/

namespace Formulary.Text

/-! ## 1. Capitals of capitals -/

namespace Run

variable {r r' : Run} {n : Nat}

/-- The code points of the run are all even or all odd. -/
def keepsParity (r : Run) : Bool := r.step % 2 == 0 || r.last == r.first

/-- One run has even code points and the other one odd ones. -/
def alternates (r r' : Run) : Bool :=
  r.keepsParity && r'.keepsParity && (r.first + r'.first) % 2 == 1

theorem parity_of_holds (h : r.keepsParity = true) (hn : r.holds n = true) :
    n % 2 = r.first % 2 := by
  simp only [keepsParity, holds, Bool.or_eq_true, Bool.and_eq_true, decide_eq_true_eq,
    beq_iff_eq] at h hn
  obtain ⟨⟨hge, hle⟩, hmod⟩ := hn
  rcases h with hstep | hsingle
  · have hdvd : 2 ∣ n - r.first :=
      Nat.dvd_trans (Nat.dvd_of_mod_eq_zero hstep) (Nat.dvd_of_mod_eq_zero hmod)
    omega
  · omega

theorem not_holds_of_alternates (h : r.alternates r' = true) (hn : r.holds n = true) :
    r'.holds n = false := by
  simp only [alternates, Bool.and_eq_true, beq_iff_eq] at h
  obtain ⟨⟨hr, hr'⟩, hodd⟩ := h
  rw [Bool.eq_false_iff]
  intro hn'
  have hparity := parity_of_holds hr hn
  have hparity' := parity_of_holds hr' hn'
  omega

end Run

variable {c d : Char} {cs : List Char}

/-- Capitals are characters, and none of them is in a run of small letters. -/
theorem capitals_settled : upperShifts.all (fun s =>
    0 ≤ s.run.first + s.distance
      && (s.target.last < 0xd800 || 0xdfff < s.target.first && s.target.last < 0x110000)
      && upperShifts.all fun t => s.target.apart t.run || s.target.alternates t.run) = true := by
  decide +kernel

/-- **A capital is its own capital.** -/
theorem toUpper_toUpper (c : Char) : toUpper (toUpper c) = toUpper c := by
  cases hfind : upperShifts.find? (·.run.holds c.toNat) with
  | none =>
    have hself : toUpper c = c := by rw [toUpper, shiftBy, hfind]
    rw [hself, hself]
  | some s =>
    have hrun : s.run.holds c.toNat = true := by simpa using List.find?_some hfind
    have htable := List.all_eq_true.mp capitals_settled s (List.mem_of_find?_eq_some hfind)
    simp only [Bool.and_eq_true, decide_eq_true_eq] at htable
    obtain ⟨⟨hpos, hvalid⟩, hothers⟩ := htable
    have hupper : toUpper c = Char.ofNat (c.toNat + s.distance).toNat := by
      rw [toUpper, shiftBy, hfind]
    have htarget := Shift.target_holds hrun hpos
    have hcode : (toUpper c).toNat = (c.toNat + s.distance).toNat := by
      rw [hupper]
      refine Source.toNat_ofNat ?_
      simp only [Run.holds, Bool.and_eq_true, Bool.or_eq_true, decide_eq_true_eq] at htarget hvalid
      omega
    have hnone : upperShifts.find? (·.run.holds (toUpper c).toNat) = none := by
      refine List.find?_eq_none.mpr fun t ht => ?_
      rw [hcode]
      rcases Bool.or_eq_true_iff.mp (List.all_eq_true.mp hothers t ht) with hapart | halternates
      · simp [Run.not_holds_of_apart hapart htarget]
      · simp [Run.not_holds_of_alternates halternates htarget]
    rw [toUpper, shiftBy, hnone]

/-! ## 2. Two passes -/

/-- The characters that words are made of: letters and digits. -/
def inWord (c : Char) : Bool := isLetter c || isDigit c

/-- The letters, digits and separators of a text that stands behind the character `last`.  A
separator behind another one is left out. -/
def sifted : (last : Char) → List Char → List Char
  | _, [] => []
  | last, c :: cs =>
    if !(inWord c || isSeparator c) || isSeparator last && isSeparator c then sifted last cs
    else c :: sifted c cs

/-- The characters between separators, the first one after a separator in upper case. -/
def joined : (start : Bool) → List Char → List Char
  | _, [] => []
  | start, c :: cs =>
    if isSeparator c then joined true cs
    else (if start then toUpper c else c) :: joined false cs

/-- **Both passes together join words**: a word is about to start where the last character that was
left is a separator. -/
theorem joined_sifted (last : Char) (cs : List Char) :
    joined (isSeparator last) (sifted last cs) = pascalChars (isSeparator last) cs := by
  induction cs generalizing last with
  | nil => rfl
  | cons c cs ih =>
    have ihc := ih c
    have ihlast := ih last
    rw [sifted, pascalChars, show (isLetter c || isDigit c) = inWord c from rfl]
    cases hsep : isSeparator c with
    | true =>
      rw [hsep] at ihc
      cases hlast : isSeparator last with
      | true => simpa [hlast] using ihlast
      | false => simpa [joined, hsep] using ihc
    | false =>
      rw [hsep] at ihc
      cases hkept : inWord c with
      | true => simpa [joined, hsep] using ihc
      | false => simpa using ihlast

/-! ## 3. Words -/

/-- No separator is part of a word. -/
theorem isSeparator_of_inWord (h : inWord c = true) : isSeparator c = false := by
  rw [Bool.eq_false_iff]
  intro hsep
  simp only [isSeparator, Bool.or_eq_true, beq_iff_eq] at hsep
  rcases hsep with (rfl | rfl) | rfl
  all_goals
    revert h
    decide +kernel

/-- **A separator ends what comes before it**, and a word starts behind it. -/
theorem pascalChars_append (h : isSeparator c = true) (start : Bool) (cs ds : List Char) :
    pascalChars start (cs ++ c :: ds) = pascalChars start cs ++ pascalChars true ds := by
  fun_induction pascalChars start cs with
  | case1 start => simp [pascalChars, h]
  | case2 start d cs hd ih => simpa [pascalChars, hd] using ih
  | case3 start d cs hd hkept ih => simpa [pascalChars, hd, hkept] using ih
  | case4 start d cs hd hkept ih => simpa [pascalChars, hd, hkept] using ih

theorem pascalChars_of_inWord (h : inWord c = true) (start : Bool) (cs : List Char) :
    pascalChars start (c :: cs) = (if start then toUpper c else c) :: pascalChars false cs := by
  rw [pascalChars, isSeparator_of_inWord h]
  exact if_pos h

/-- Within a word nothing is changed. -/
theorem pascalChars_word (h : ∀ c ∈ cs, inWord c = true) : pascalChars false cs = cs := by
  induction cs with
  | nil => rfl
  | cons c cs ih =>
    obtain ⟨hc, hcs⟩ := List.forall_mem_cons.mp h
    rw [pascalChars_of_inWord hc, ih hcs]
    rfl

/-- The first character is in upper case. -/
theorem toUpper_head_pascalChars (cs : List Char) :
    ∀ d ∈ (pascalChars true cs).head?, toUpper d = d := by
  generalize hstart : true = start
  fun_induction pascalChars start cs with
  | case1 => simp
  | case2 start c cs hc ih => exact ih rfl
  | case3 start c cs hc hkept ih => simp [← hstart, toUpper_toUpper]
  | case4 start c cs hc hkept ih => exact ih hstart

/-- **Joined words are one word**, which stays as it is. -/
theorem pascalChars_again (cs : List Char) :
    pascalChars true (pascalChars true cs) = pascalChars true cs := by
  have hkept : ∀ c ∈ pascalChars true cs, inWord c = true := pascalChars_chars true cs
  have hhead := toUpper_head_pascalChars cs
  cases hword : pascalChars true cs with
  | nil => rfl
  | cons d ds =>
    rw [hword] at hkept hhead
    obtain ⟨hd, hds⟩ := List.forall_mem_cons.mp hkept
    rw [pascalChars_of_inWord hd, pascalChars_word hds, if_pos rfl, hhead d rfl]

/-- **The letters and digits are left in their order**, some of them as capitals. -/
theorem pascalChars_letters (start : Bool) (cs : List Char) :
    List.Forall₂ (fun c d => d = c ∨ d = toUpper c) (cs.filter inWord) (pascalChars start cs) := by
  fun_induction pascalChars start cs with
  | case1 => exact .nil
  | case2 start c cs hsep ih =>
    have hc : ¬ inWord c = true := fun hc => by
      rw [isSeparator_of_inWord hc] at hsep
      cases hsep
    rwa [List.filter_cons_of_neg hc]
  | case3 start c cs _ hc ih =>
    have hc : inWord c = true := hc
    rw [List.filter_cons_of_pos hc]
    refine .cons ?_ ih
    split
    · exact .inr rfl
    · exact .inl rfl
  | case4 start c cs _ hc ih =>
    have hc : ¬ inWord c = true := hc
    rwa [List.filter_cons_of_neg hc]

/-! ## 4. Bytes -/

open Source (ofBytes)
open Arith (bytesOf)

/-- The characters of the bytes. -/
def charsOf (bytes : List Nat) : List Char := (ofBytes bytes).chars

/-- The Pascal case of a text given in bytes, as bytes.  A byte that belongs to no character is
dropped. -/
def pascalBytes (bytes : List Nat) : List Nat := bytesOf (pascal (String.ofList (charsOf bytes)))

theorem charsOf_bytesOf (s : String) : charsOf (bytesOf s) = s.toList := by
  simp [charsOf, Source.ofBytes_bytesOf, Source.ofString, Source.chars, Function.comp_def]

theorem charsOf_pascalBytes (bytes : List Nat) :
    charsOf (pascalBytes bytes) = pascalChars true (charsOf bytes) := by
  rw [pascalBytes, charsOf_bytesOf, pascal, String.toList_ofList, String.toList_ofList]

/-- A separator is a character of its own, whatever the bytes before it are. -/
theorem charsOf_append (h : isSeparator c = true) (a b : List Nat) :
    charsOf (a ++ c.toNat :: b) = charsOf a ++ c :: charsOf b := by
  have hlow : c.toNat < 0x80 := by
    simp only [isSeparator, Bool.or_eq_true, beq_iff_eq] at h
    rcases h with (rfl | rfl) | rfl
    all_goals decide
  rw [charsOf, Source.ofBytes_append a (by simpa using hlow), Source.ofBytes_cons_ascii hlow,
    Char.ofNat_toNat]
  simp [charsOf, Source.chars]

/-- **Words are joined one by one, and once joined they stay as they are.**  For any bytes, those
included that belong to no character: a text with a separator in it is joined part by part, joining
twice is joining once, and what is left are the letters and digits of the text, as many of them and
in their order, each as it was or as its capital.  This is what two passes do, one of which leaves
out characters and the other one separators. -/
theorem pascal_joins_words (a b : List Nat) {sep : Char} (hsep : sep ∈ ['-', '_', ' ']) :
    pascalBytes (a ++ sep.toNat :: b) = pascalBytes a ++ pascalBytes b ∧
    pascalBytes (pascalBytes a) = pascalBytes a ∧
    (∀ c ∈ charsOf (pascalBytes a), inWord c = true) ∧
    List.Forall₂ (fun c d => d = c ∨ d = toUpper c)
      ((charsOf a).filter inWord) (charsOf (pascalBytes a)) ∧
    charsOf (pascalBytes a) = joined true (sifted '-' (charsOf a)) := by
  have hsep : isSeparator sep = true := by
    simpa [isSeparator, or_assoc] using hsep
  refine ⟨?_, ?_, ?_, ?_, ?_⟩
  · rw [pascalBytes, charsOf_append hsep, pascal, String.toList_ofList, pascalChars_append hsep,
      String.ofList_append, Source.bytesOf_append]
    simp [pascalBytes, pascal]
  · have hagain : pascal (String.ofList (pascalChars true (charsOf a)))
        = pascal (String.ofList (charsOf a)) := by
      simp [pascal, pascalChars_again]
    rw [pascalBytes, charsOf_pascalBytes, hagain, pascalBytes]
  · rw [charsOf_pascalBytes]
    exact pascalChars_chars true (charsOf a)
  · rw [charsOf_pascalBytes]
    exact pascalChars_letters true (charsOf a)
  · rw [charsOf_pascalBytes]
    exact (joined_sifted '-' (charsOf a)).symm

/-- **Bytes that belong to no character start no word and end none**: `-a?b-` and `c?` with a
stray byte in each are joined to `AbC`. -/
theorem pascal_joins_words_strayBytes :
    '_' ∈ ['-', '_', ' '] ∧
      pascalBytes ([0x2d, 0x61, 0xff, 0x62, 0x2d] ++ '_'.toNat :: [0x63, 0xc3])
        = [0x41, 0x62, 0x43] := by
  have hsep : '_' ∈ ['-', '_', ' '] := by decide
  obtain ⟨happend, -⟩ := pascal_joins_words [0x2d, 0x61, 0xff, 0x62, 0x2d] [0x63, 0xc3] hsep
  refine ⟨hsep, ?_⟩
  rw [happend]
  decide +kernel

end Formulary.Text
