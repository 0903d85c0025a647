import Formulary.Proofs.Arith.Lexemes

/-!
# Texts as bytes

The bytes of a text in UTF-8 are decoded as the characters of the text (`ofBytes_bytesOf`).  A
character takes one to four bytes; for each length there is a lemma that reads the bytes back.
-/

namespace Formulary.Text.Source

open Arith (bytesOf)

variable {n : Nat} {rest : List Nat}

/-! ## 1. One character -/

theorem lead_two (hlow : 0x80 ≤ n) (hhigh : n < 0x800) :
    lead (n / 64 + 0xc0) ((n % 64 + 0x80) :: rest) = ⟨Char.ofNat n, 2⟩ := by
  have htail : isTail (n % 64 + 0x80) = true := isTail_iff.mpr (by omega)
  have hcode : (n / 64 + 0xc0 - 0xc0) * 64 + tailBits (n % 64 + 0x80) = n := by
    unfold tailBits
    omega
  rw [lead.eq_def, if_neg (by omega), if_pos (by simp; omega)]
  simp only [htail, if_true, hcode]

theorem lead_three (hlow : 0x800 ≤ n) (hhigh : n < 0x10000) (hvalid : n < 0xd800 ∨ 0xdfff < n) :
    lead (n / 4096 + 0xe0) ((n / 64 % 64 + 0x80) :: (n % 64 + 0x80) :: rest)
      = ⟨Char.ofNat n, 3⟩ := by
  have hfollow : mayFollow (n / 4096 + 0xe0) (n / 64 % 64 + 0x80) = true := by
    simp only [mayFollow, isTail]
    grind
  have htail : isTail (n % 64 + 0x80) = true := isTail_iff.mpr (by omega)
  have hcode : ((n / 4096 + 0xe0 - 0xe0) * 64 + tailBits (n / 64 % 64 + 0x80)) * 64
      + tailBits (n % 64 + 0x80) = n := by
    unfold tailBits
    omega
  rw [lead.eq_def, if_neg (by omega), if_neg (by simp), if_pos (by simp; omega)]
  simp only [hfollow, htail, Bool.and_self, if_true, hcode]

theorem lead_four (hlow : 0x10000 ≤ n) (hhigh : n < 0x110000) :
    lead (n / 262144 + 0xf0)
        ((n / 4096 % 64 + 0x80) :: (n / 64 % 64 + 0x80) :: (n % 64 + 0x80) :: rest)
      = ⟨Char.ofNat n, 4⟩ := by
  have hfollow : mayFollow (n / 262144 + 0xf0) (n / 4096 % 64 + 0x80) = true := by
    simp only [mayFollow, isTail]
    grind
  have htail : isTail (n / 64 % 64 + 0x80) = true := isTail_iff.mpr (by omega)
  have htail' : isTail (n % 64 + 0x80) = true := isTail_iff.mpr (by omega)
  have hcode : (((n / 262144 + 0xf0 - 0xf0) * 64 + tailBits (n / 4096 % 64 + 0x80)) * 64
      + tailBits (n / 64 % 64 + 0x80)) * 64 + tailBits (n % 64 + 0x80) = n := by
    unfold tailBits
    omega
  rw [lead.eq_def, if_neg (by omega), if_neg (by simp), if_neg (by simp), if_pos (by simp; omega)]
  simp only [hfollow, htail, htail', Bool.and_self, if_true, hcode]

/-- The bytes of a character. -/
def encodeChar (c : Char) : List Nat := (String.utf8EncodeChar c).map (·.toNat)

theorem toNat_byte {m : Nat} (h : m < 256) : (UInt8.ofNat m).toNat = m := by
  rw [UInt8.toNat_ofNat']
  exact Nat.mod_eq_of_lt h

/-- **The bytes of a character are read as that character**, whatever comes behind them. -/
theorem ofBytes_encodeChar (c : Char) (rest : List Nat) :
    ofBytes (encodeChar c ++ rest) = ⟨c, c.utf8Size⟩ :: ofBytes rest := by
  have hvalid : c.toNat < 0xd800 ∨ 0xdfff < c.toNat ∧ c.toNat < 0x110000 := c.valid
  have hchar : Char.ofNat c.toNat = c := Char.ofNat_toNat c
  unfold encodeChar String.utf8EncodeChar Char.utf8Size
  simp only [UInt32.le_iff_toNat_le, Char.toNat_val, UInt32.toNat_ofNatLT]
  generalize c.toNat = n at hvalid hchar ⊢
  subst hchar
  split_ifs with hone htwo hthree
  · rw [List.map_singleton, toNat_byte (by omega), List.singleton_append,
      ofBytes_cons_ascii (by omega)]
  · simp only [List.map_cons, List.map_nil, List.cons_append, List.nil_append]
    rw [toNat_byte (by omega), toNat_byte (by omega), Nat.mod_eq_of_lt (by omega : n / 64 < 32),
      ofBytes_cons, lead_two (by omega) (by omega)]
    rfl
  · simp only [List.map_cons, List.map_nil, List.cons_append, List.nil_append]
    rw [toNat_byte (by omega), toNat_byte (by omega), toNat_byte (by omega),
      Nat.mod_eq_of_lt (by omega : n / 4096 < 16), ofBytes_cons,
      lead_three (by omega) (by omega) (by omega)]
    rfl
  · simp only [List.map_cons, List.map_nil, List.cons_append, List.nil_append]
    rw [toNat_byte (by omega), toNat_byte (by omega), toNat_byte (by omega), toNat_byte (by omega),
      Nat.mod_eq_of_lt (by omega : n / 262144 < 8), ofBytes_cons, lead_four (by omega) (by omega)]
    rfl

/-! ## 2. Texts -/

variable {cs : List Char}

theorem bytesOf_ofList (cs : List Char) : bytesOf (String.ofList cs) = cs.flatMap encodeChar := by
  rw [bytesOf, String.toByteArray_ofList, List.utf8Encode, List.data_toByteArray, List.map_flatMap]
  rfl

/-- **The bytes of a text are read as that text.** -/
theorem ofBytes_bytesOf (s : String) : ofBytes (bytesOf s) = ofString s := by
  rw [← String.ofList_toList (s := s), bytesOf_ofList, ofString, String.toList_ofList]
  induction s.toList with
  | nil => rfl
  | cons c cs ih => rw [List.flatMap_cons, ofBytes_encodeChar, ih, List.map_cons]

theorem bytesOf_append (s t : String) : bytesOf (s ++ t) = bytesOf s ++ bytesOf t := by
  simp [bytesOf]

end Formulary.Text.Source
