import Formulary.Text.Source
import Mathlib

/-!
# Bytes and characters

Decoding goes through the bytes from left to right and never looks back, so it can be cut: where a
character ends, the bytes before and the bytes behind are decoded on their own (`ofBytes_take`,
`ofBytes_drop`).  A byte below 0x80 is a character of its own and no part of another one
(`lead_cases`), so the lines of the bytes are those of the characters (`count_newline`,
`ofBytes_lastLine`).  All of this holds of any bytes; those that belong to no character are read as
one each. -/

namespace Formulary.Text.Source

/-! ## 1. The first character -/

/-- The number of bytes of the characters. -/
def size : Source → Nat
  | [] => 0
  | g :: s => g.width + size s

@[simp] theorem size_nil : size [] = 0 := rfl

@[simp] theorem size_cons (g : Glyph) (s : Source) : size (g :: s) = g.width + size s := rfl

@[simp] theorem size_append (s s' : Source) : size (s ++ s') = size s + size s' := by
  induction s with
  | nil => simp
  | cons g s ih => simp [ih, Nat.add_assoc]

variable {a b c d : Nat} {rest u v : List Nat} {g : Glyph} {s s' : Source} {bytes : List Nat}

theorem toNat_ofNat {n : Nat} (h : n < 0xd800 ∨ 0xdfff < n ∧ n < 0x110000) :
    (Char.ofNat n).toNat = n := by
  have hvalid : n.isValidChar := h
  simp [Char.ofNat, hvalid, Char.toNat, Char.ofNatAux]

/-- A character that starts before the bytes `rest` and takes some of them: it lies beyond ASCII,
and so do the bytes. -/
structure Beyond (g : Glyph) (rest : List Nat) : Prop where
  char : 0x80 ≤ g.char.toNat
  width_pos : 1 ≤ g.width
  fits : g.width - 1 ≤ rest.length
  tail : ∀ b ∈ rest.take (g.width - 1), 0x80 ≤ b

theorem beyond_replacement (rest : List Nat) : Beyond replacement rest :=
  ⟨by decide, by decide, Nat.zero_le _, by simp [replacement]⟩

theorem isTail_iff : isTail b = true ↔ 0x80 ≤ b ∧ b ≤ 0xbf := by
  simp [isTail]

/-- What may follow a first byte continues the character, and keeps it within the range of the
length: above the shorter forms, outside the surrogates and below the end. -/
theorem mayFollow_bounds (h : mayFollow a b = true) :
    0x80 ≤ b ∧ b ≤ 0xbf ∧ (a = 0xe0 → 0xa0 ≤ b) ∧ (a = 0xed → b ≤ 0x9f) ∧
      (a = 0xf0 → 0x90 ≤ b) ∧ (a = 0xf4 → b ≤ 0x8f) := by
  simp only [mayFollow, isTail] at h
  grind

/-- **The first byte is a character of its own, or its character lies beyond ASCII** with all its
bytes. -/
theorem lead_cases (a : Nat) (rest : List Nat) :
    a < 0x80 ∧ lead a rest = ⟨Char.ofNat a, 1⟩ ∨ 0x80 ≤ a ∧ Beyond (lead a rest) rest := by
  by_cases ha : a < 0x80
  · exact .inl ⟨ha, by rw [lead.eq_def, if_pos ha]⟩
  refine .inr ⟨Nat.le_of_not_lt ha, ?_⟩
  rw [lead.eq_def, if_neg ha]
  split
  next htwo =>
    simp only [Bool.and_eq_true, decide_eq_true_eq] at htwo
    split
    next b rest =>
      split
      next hb =>
        have hb := isTail_iff.mp hb
        refine ⟨?_, by simp, by simp, by simpa using hb.1⟩
        rw [toNat_ofNat (by unfold tailBits; omega)]
        unfold tailBits
        omega
      next => exact beyond_replacement _
    next => exact beyond_replacement _
  split
  next hthree =>
    simp only [Bool.and_eq_true, decide_eq_true_eq] at hthree
    split
    next b c rest =>
      split
      next hbc =>
        rw [Bool.and_eq_true] at hbc
        have hb := mayFollow_bounds hbc.1
        have hc := isTail_iff.mp hbc.2
        refine ⟨?_, by simp, by simp, by simpa using ⟨hb.1, hc.1⟩⟩
        rw [toNat_ofNat (by unfold tailBits; omega)]
        unfold tailBits
        omega
      next => exact beyond_replacement _
    next => exact beyond_replacement _
  split
  next hfour =>
    simp only [Bool.and_eq_true, decide_eq_true_eq] at hfour
    split
    next b c d rest =>
      split
      next hbcd =>
        rw [Bool.and_eq_true, Bool.and_eq_true] at hbcd
        have hb := mayFollow_bounds hbcd.1.1
        have hc := isTail_iff.mp hbcd.1.2
        have hd := isTail_iff.mp hbcd.2
        refine ⟨?_, by simp, by simp, by simpa using ⟨hb.1, hc.1, hd.1⟩⟩
        rw [toNat_ofNat (by unfold tailBits; omega)]
        unfold tailBits
        omega
      next => exact beyond_replacement _
    next => exact beyond_replacement _
  next => exact beyond_replacement _

theorem width_pos (a : Nat) (rest : List Nat) : 1 ≤ (lead a rest).width := by
  rcases lead_cases a rest with ⟨-, heq⟩ | ⟨-, hbeyond⟩
  · rw [heq]
  · exact hbeyond.width_pos

theorem width_le (a : Nat) (rest : List Nat) : (lead a rest).width - 1 ≤ rest.length := by
  rcases lead_cases a rest with ⟨-, heq⟩ | ⟨-, hbeyond⟩
  · rw [heq]
    exact Nat.zero_le _
  · exact hbeyond.fits

/-- **A character does not depend on the bytes behind it.** -/
theorem lead_append (a : Nat) (u v : List Nat) (h : (lead a (u ++ v)).width - 1 ≤ u.length) :
    lead a u = lead a (u ++ v) := by
  rw [lead.eq_def, lead.eq_def] at *
  -- where the bytes end before the character does, `h` leaves only the replacement
  split_ifs at h ⊢
  · rfl
  · rcases u with _ | ⟨b, u⟩
    · rcases v with _ | ⟨b, v⟩ <;> grind
    · rfl
  · rcases u with _ | ⟨b, _ | ⟨c, u⟩⟩
    · rcases v with _ | ⟨b, _ | ⟨c, v⟩⟩ <;> grind
    · rcases v with _ | ⟨c, v⟩ <;> grind
    · rfl
  · rcases u with _ | ⟨b, _ | ⟨c, _ | ⟨d, u⟩⟩⟩
    · rcases v with _ | ⟨b, _ | ⟨c, _ | ⟨d, v⟩⟩⟩ <;> grind
    · rcases v with _ | ⟨c, _ | ⟨d, v⟩⟩ <;> grind
    · rcases v with _ | ⟨d, v⟩ <;> grind
    · rfl
  · rfl

/-! ## 2. Cutting between characters -/

/-- The bytes owed to a character are passed over. -/
theorem decode_eq (owed : Nat) (bytes : List Nat) :
    decode owed bytes = ofBytes (bytes.drop owed) := by
  induction bytes generalizing owed with
  | nil => simp [decode, ofBytes]
  | cons a rest ih =>
    cases owed with
    | zero => rfl
    | succ owed => rw [decode, List.drop_succ_cons, ih]

@[simp] theorem ofBytes_nil : ofBytes [] = [] := rfl

/-- **The first character, and then what its bytes leave over.** -/
theorem ofBytes_cons (a : Nat) (rest : List Nat) :
    ofBytes (a :: rest) = lead a rest :: ofBytes (rest.drop ((lead a rest).width - 1)) := by
  rw [ofBytes, decode, decode_eq]

/-- **Induction on bytes by characters.** -/
@[elab_as_elim]
theorem bytes_induction {motive : List Nat → Prop} (nil : motive [])
    (cons : ∀ a rest, motive (rest.drop ((lead a rest).width - 1)) → motive (a :: rest))
    (bytes : List Nat) : motive bytes :=
  match bytes with
  | [] => nil
  | a :: rest => cons a rest (bytes_induction nil cons (rest.drop ((lead a rest).width - 1)))
termination_by bytes.length
decreasing_by
  rw [List.length_drop, List.length_cons]
  omega

/-- All bytes belong to the characters. -/
theorem size_ofBytes (bytes : List Nat) : size (ofBytes bytes) = bytes.length := by
  induction bytes using bytes_induction with
  | nil => rfl
  | cons a rest ih =>
    have hpos := width_pos a rest
    have hfits := width_le a rest
    rw [ofBytes_cons, size_cons, ih, List.length_drop, List.length_cons]
    omega

/-- **Between two characters the bytes can be cut**: each part is decoded on its own. -/
theorem ofBytes_cut (h : ofBytes bytes = s ++ s') :
    ofBytes (bytes.take (size s)) = s ∧ ofBytes (bytes.drop (size s)) = s' := by
  induction s generalizing bytes with
  | nil => simpa using h
  | cons g s ih =>
    cases bytes with
    | nil => simp at h
    | cons a rest =>
      rw [ofBytes_cons, List.cons_append] at h
      obtain ⟨rfl, htail⟩ := List.cons.inj h
      obtain ⟨htake, hdrop⟩ := ih htail
      have hpos := width_pos a rest
      have hfits := width_le a rest
      obtain ⟨w, hw⟩ := Nat.exists_eq_add_of_le' hpos
      rw [hw, Nat.add_sub_cancel] at htake hdrop hfits htail
      have hsize : size (lead a rest :: s) = w + size s + 1 := by
        rw [size_cons, hw]
        omega
      have hlead : lead a (rest.take (w + size s)) = lead a rest := by
        have hlocal := lead_append a (rest.take (w + size s)) (rest.drop (w + size s))
        rw [List.take_append_drop, List.length_take] at hlocal
        exact hlocal (by omega)
      rw [hsize, List.take_succ_cons, List.drop_succ_cons, ofBytes_cons, hlead, hw,
        Nat.add_sub_cancel, List.drop_take, Nat.add_sub_cancel_left, htake, ← List.drop_drop]
      exact ⟨rfl, hdrop⟩

/-- A byte of ASCII is a character, whatever comes behind it. -/
theorem ofBytes_cons_ascii (h : a < 0x80) (rest : List Nat) :
    ofBytes (a :: rest) = ⟨Char.ofNat a, 1⟩ :: ofBytes rest := by
  have hlead : lead a rest = ⟨Char.ofNat a, 1⟩ := by rw [lead.eq_def, if_pos h]
  rw [ofBytes_cons, hlead]
  rfl

/-- **In front of a byte of ASCII the bytes can be joined**: it ends the character before it. -/
theorem ofBytes_append (u : List Nat) (hv : ∀ b ∈ v.head?, b < 0x80) :
    ofBytes (u ++ v) = ofBytes u ++ ofBytes v := by
  induction u using bytes_induction with
  | nil => rfl
  | cons a rest ih =>
    have hfits : (lead a (rest ++ v)).width - 1 ≤ rest.length := by
      rcases lead_cases a (rest ++ v) with ⟨-, heq⟩ | ⟨-, hbeyond⟩
      · rw [heq]
        exact Nat.zero_le _
      · by_contra hlong
        have hle := hbeyond.fits
        rw [List.length_append] at hle
        obtain ⟨b, v', rfl⟩ := List.exists_cons_of_length_pos (l := v) (by omega)
        have hlow := hv b rfl
        have hhigh := hbeyond.tail b (by
          rw [List.take_append]
          obtain ⟨n, hn⟩ := Nat.exists_eq_add_of_lt (Nat.lt_of_not_le hlong)
          rw [hn, Nat.add_assoc, Nat.add_sub_cancel_left, List.take_succ_cons]
          simp)
        omega
    have hlead := lead_append a rest v hfits
    rw [List.cons_append, ofBytes_cons, ofBytes_cons, ← hlead, List.cons_append]
    rw [← hlead] at hfits
    rw [List.drop_append_of_le_length hfits, ih]

/-! ## 3. Lines -/

/-- The end of a line. -/
def isNewline (g : Glyph) : Bool := g.char == '\n'

/-- The bytes of a character beyond the first end no line. -/
theorem count_tail (a : Nat) (rest : List Nat) :
    (rest.take ((lead a rest).width - 1)).count 10 = 0 := by
  rw [List.count_eq_zero]
  rcases lead_cases a rest with ⟨-, heq⟩ | ⟨-, hbeyond⟩
  · simp [heq]
  · intro hmem
    have hle := hbeyond.tail 10 hmem
    omega

/-- **A character ends a line if its first byte does.** -/
theorem isNewline_lead (a : Nat) (rest : List Nat) : isNewline (lead a rest) = (a == 10) := by
  rcases lead_cases a rest with ⟨ha, heq⟩ | ⟨ha, hbeyond⟩
  · rw [heq, isNewline]
    have hcode : (Char.ofNat a).toNat = a := toNat_ofNat (.inl (by omega))
    by_cases h : a = 10
    · simp [h]
    · have hne : Char.ofNat a ≠ '\n' := by
        intro hchar
        rw [hchar] at hcode
        exact h hcode.symm
      simp [h, hne]
  · have hchar : (lead a rest).char ≠ '\n' := by
      intro hchar
      have hcode := hbeyond.char
      rw [hchar] at hcode
      exact absurd hcode (by decide)
    have hten : a ≠ 10 := by omega
    simp [isNewline, hchar, hten]

/-- **The lines of the bytes are those of the characters.** -/
theorem count_newline (bytes : List Nat) : bytes.count 10 = (ofBytes bytes).countP isNewline := by
  induction bytes using bytes_induction with
  | nil => rfl
  | cons a rest ih =>
    have hcut := List.take_append_drop ((lead a rest).width - 1) rest
    have hrest : rest.count 10 = (rest.drop ((lead a rest).width - 1)).count 10 := by
      conv_lhs => rw [← hcut, List.count_append, count_tail, Nat.zero_add]
    rw [List.count_cons, hrest, ih, ofBytes_cons, List.countP_cons, isNewline_lead]

/-- A list in two parts, of which the second is all that `p` accepts at the end. -/
theorem rtakeWhile_append {α : Type} {p : α → Bool} {l l' : List α} (h : l.rtakeWhile p = [])
    (h' : ∀ x ∈ l', p x = true) : (l ++ l').rtakeWhile p = l' := by
  induction l' using List.reverseRecOn with
  | nil => rwa [List.append_nil]
  | append_singleton l' x ih =>
    rw [← List.append_assoc, List.rtakeWhile_concat_pos p _ x (h' x (by simp)),
      ih fun y hy => h' y (by simp [hy])]

/-- The bytes behind the last end of a line. -/
def lastLine (bytes : List Nat) : List Nat := bytes.rtakeWhile (· != 10)

/-- Behind the end of a line nothing stands on it. -/
theorem lastLine_of_newline (h : ofBytes bytes = s ++ [g]) (hg : isNewline g = true) :
    lastLine bytes = [] := by
  obtain ⟨-, hlast⟩ := ofBytes_cut h
  rcases hbytes : bytes.drop (size s) with _ | ⟨a, rest⟩
  · rw [hbytes] at hlast
    cases hlast
  · rw [hbytes, ofBytes_cons] at hlast
    obtain ⟨rfl, hrest⟩ := List.cons.inj hlast
    rw [isNewline_lead, beq_iff_eq] at hg
    subst hg
    have hnil : rest = [] := by
      have hempty : ofBytes rest = [] := hrest
      have hsize := size_ofBytes rest
      rw [hempty] at hsize
      exact List.length_eq_zero_iff.mp hsize.symm
    rw [lastLine, ← List.take_append_drop (size s) bytes, hbytes, hnil]
    exact List.rtakeWhile_concat_neg _ _ _ (by decide)

/-- **The last line of the bytes is that of the characters.** -/
theorem ofBytes_lastLine (bytes : List Nat) :
    ofBytes (lastLine bytes) = (ofBytes bytes).rtakeWhile (!isNewline ·) := by
  have hparts := List.rdropWhile_append_rtakeWhile (p := (!isNewline ·)) (l := ofBytes bytes)
  generalize hu : (ofBytes bytes).rdropWhile (!isNewline ·) = u at hparts
  generalize hv : (ofBytes bytes).rtakeWhile (!isNewline ·) = v at hparts ⊢
  obtain ⟨htake, hdrop⟩ := ofBytes_cut hparts.symm
  have hfree : ∀ b ∈ bytes.drop (size u), (b != 10) = true := by
    have hcount : (bytes.drop (size u)).count 10 = 0 := by
      rw [count_newline, hdrop, List.countP_eq_zero]
      intro g hg
      rw [← hv] at hg
      simpa using List.mem_rtakeWhile_imp hg
    intro b hb
    rw [bne_iff_ne]
    rintro rfl
    exact List.count_eq_zero.mp hcount hb
  have hline : lastLine (bytes.take (size u)) = [] := by
    rcases List.eq_nil_or_concat u with hnil | ⟨u', g, hconcat⟩
    · simp [hnil, lastLine]
    · refine lastLine_of_newline (htake.trans (by rw [hconcat, List.concat_eq_append])) ?_
      have hlast := List.rdropWhile_last_not (!isNewline ·) (ofBytes bytes) (by simp [hu, hconcat])
      simpa [hu, hconcat] using hlast
  have hlast : lastLine bytes = bytes.drop (size u) := by
    conv_lhs => rw [← List.take_append_drop (size u) bytes]
    exact rtakeWhile_append hline hfree
  rw [hlast, hdrop]

/-! ## 4. Characters of ASCII -/

/-- **A character of ASCII is its byte.** -/
theorem lead_ascii (h : (lead a rest).char.toNat < 0x80) :
    (lead a rest).char.toNat = a ∧ (lead a rest).width = 1 := by
  rcases lead_cases a rest with ⟨ha, heq⟩ | ⟨-, hbeyond⟩
  · rw [heq]
    exact ⟨toNat_ofNat (.inl (by omega)), rfl⟩
  · exact absurd hbeyond.char (Nat.not_le_of_lt h)

/-- **A text of ASCII is its bytes.** -/
theorem bytes_of_ascii (h : ofBytes bytes = s) (hs : ∀ g ∈ s, g.char.toNat < 0x80) :
    bytes = s.chars.map (·.toNat) := by
  subst h
  induction bytes using bytes_induction with
  | nil => rfl
  | cons a rest ih =>
    rw [ofBytes_cons] at hs ⊢
    obtain ⟨hchar, hwidth⟩ := lead_ascii (hs _ List.mem_cons_self)
    rw [hwidth] at ih hs ⊢
    rw [chars, List.map_cons, List.map_cons, hchar]
    exact congrArg (a :: ·) (ih fun g hg => hs g (List.mem_cons_of_mem _ hg))

end Formulary.Text.Source
