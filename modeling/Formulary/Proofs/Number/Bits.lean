import Mathlib
import Formulary.Number.Arithmetic

/-!
# Doubles and their bits

A double that is no infinity and is a number is determined by its bits, and below `infinityBits` the
bits are those of a finite double with a clear sign.  Everything here is about the layout of the
format; nothing rounds.

1. Taking the three fields of a word apart and putting them together.
2. Words below `infinityBits`.
3. Finite doubles with a clear sign: `Unsigned`.
-/

namespace Formulary.Number

open Float.Model Float.Model.UnpackedFloat

/-! ## 1. The fields of a word -/

/-- A word with the layout of a double. -/
abbrev Word := BitVec Format.binary64.numBits

theorem toNat_unpackMantissa (b : Word) : (unpackMantissa b).toNat = b.toNat % 2 ^ 52 := by
  simp [unpackMantissa, BitVec.extractLsb]

theorem toNat_unpackExponent (b : Word) : (unpackExponent b).toNat = b.toNat / 2 ^ 52 % 2 ^ 11 := by
  simp [unpackExponent, BitVec.extractLsb, Nat.shiftRight_eq_div_pow]

theorem toNat_unpackSign (b : Word) : (unpackSign b).toNat = b.toNat / 2 ^ 63 := by
  have hlt : b.toNat < 2 ^ 64 := b.isLt
  simp [unpackSign, BitVec.extractLsb, Nat.shiftRight_eq_div_pow]
  omega

/-- The fields side by side, as a number. -/
theorem toNat_packComponents (s : Sign) (e : BitVec 11) (m : BitVec 52) :
    (packComponents Format.binary64 s e m).toNat
      = s.toBitVec.toNat * 2 ^ 63 + e.toNat * 2 ^ 52 + m.toNat := by
  have he : e.toNat < 2 ^ 11 := e.isLt
  have hm : m.toNat < 2 ^ 52 := m.isLt
  unfold packComponents
  rw [BitVec.toNat_append, BitVec.toNat_append, ← Nat.shiftLeft_add_eq_or_of_lt he,
    ← Nat.shiftLeft_add_eq_or_of_lt hm, Nat.shiftLeft_eq, Nat.shiftLeft_eq]
  omega

theorem toNat_toBitVec_ofBitVec (b : BitVec 1) : (Sign.ofBitVec b).toBitVec = b := by
  revert b
  decide

/-- The fields of a word, put together again. -/
theorem packComponents_fields (b : Word) :
    packComponents Format.binary64 (Sign.ofBitVec (unpackSign b)) (unpackExponent b)
      (unpackMantissa b) = b := by
  apply BitVec.eq_of_toNat_eq
  rw [toNat_packComponents, toNat_toBitVec_ofBitVec, toNat_unpackSign, toNat_unpackExponent,
    toNat_unpackMantissa]
  omega

/-- A number below the normal ones is stored with an exponent field of zero. -/
theorem pack_subnormal (s : Sign) (m : BitVec 52) (hpos : 0 < m.toNat) :
    UnpackedFloat.pack Format.binary64 (.finite s m.toNat (-1074) hpos)
      = packComponents Format.binary64 s 0#11 m := by
  have hlog : m.toNat.log2 + 1 ≠ Format.binary64.mantissaBits := by
    have hlt : m.toNat.log2 < 52 := (Nat.log2_lt (by omega)).mpr m.isLt
    have hbits : Format.binary64.mantissaBits = 53 := rfl
    omega
  have hexp : ¬ 2 ^ Format.binary64.exponentBits
      ≤ ((-1074 : Int) + Format.binary64.exponentBias
          + Format.binary64.mantissaBitsWithoutImplicit).toNat + 1 := by
    decide
  simp only [UnpackedFloat.pack, hlog, hexp, ↓reduceIte]
  rw [BitVec.ofNat_toNat, BitVec.setWidth_eq]

/-- A normal number is stored without its leading bit. -/
theorem pack_normal (s : Sign) (e : BitVec 11) (m : BitVec 52) (hpos : 0 < (1#1 ++ m).toNat)
    (hmax : e.toNat ≠ 2047) :
    UnpackedFloat.pack Format.binary64 (.finite s (1#1 ++ m).toNat (e.toNat - 1075) hpos)
      = packComponents Format.binary64 s e m := by
  have hm : m.toNat < 2 ^ 52 := m.isLt
  have he : e.toNat < 2 ^ 11 := e.isLt
  have hvalue : (1#1 ++ m).toNat = 2 ^ 52 + m.toNat := by
    rw [BitVec.toNat_append, ← Nat.shiftLeft_add_eq_or_of_lt hm, Nat.shiftLeft_eq]
    simp
  have hlog : (1#1 ++ m).toNat.log2 + 1 = Format.binary64.mantissaBits := by
    have hlow : 52 ≤ (1#1 ++ m).toNat.log2 := (Nat.le_log2 (by omega)).mpr (by omega)
    have hhigh : (1#1 ++ m).toNat.log2 < 53 := (Nat.log2_lt (by omega)).mpr (by omega)
    have hbits : Format.binary64.mantissaBits = 53 := rfl
    omega
  have hbiased : ((e.toNat - 1075 : Int) + Format.binary64.exponentBias
      + Format.binary64.mantissaBitsWithoutImplicit).toNat = e.toNat := by
    have hbias : Format.binary64.exponentBias = 1023 := rfl
    have hwidth : Format.binary64.mantissaBitsWithoutImplicit = 52 := rfl
    omega
  have hexp : ¬ 2 ^ Format.binary64.exponentBits ≤ e.toNat + 1 := by
    show ¬ 2 ^ 11 ≤ e.toNat + 1
    omega
  simp only [UnpackedFloat.pack, hlog, hbiased, hexp, ↓reduceIte]
  congr 1
  · rw [BitVec.ofNat_toNat, BitVec.setWidth_eq]
  · apply BitVec.eq_of_toNat_eq
    rw [hvalue, BitVec.toNat_ofNat]
    omega

/-- **Below the infinite, packing undoes unpacking.**  The cases are those of unpacking: zero, a
number below the normal ones, and a normal one. -/
theorem pack_unpack (b : Word) (h : (unpackExponent b).toNat ≠ 2047) :
    UnpackedFloat.pack Format.binary64 (UnpackedFloat.unpack Format.binary64 b) = b := by
  have hmax : unpackExponent b ≠ -1#_ := by
    intro hb
    exact h (by rw [hb]; rfl)
  refine Eq.trans ?_ (packComponents_fields b)
  unfold UnpackedFloat.unpack
  simp only [hmax, ↓reduceIte]
  split
  next hzero =>
    split
    next hnone => rw [hzero, hnone]; rfl
    next hsome =>
      rw [hzero]
      exact pack_subnormal _ _ _
  next hnormal => exact pack_normal _ _ _ _ h

/-! ## 2. Words below the infinite -/

theorem exponent_of_lt_infinityBits {b : Word} (h : b.toNat < infinityBits) :
    (unpackExponent b).toNat ≠ 2047 := by
  rw [toNat_unpackExponent]
  unfold infinityBits at h
  omega

/-- A word below the infinite survives being made a double. -/
theorem toNat_toBits_ofMagnitudeBits {bits : Nat} (h : bits < infinityBits) :
    (ofMagnitudeBits false bits).toBits.toNat = bits := by
  have hword : (UInt64.ofNat bits).toNat = bits := by
    rw [UInt64.toNat_ofNat']
    unfold infinityBits at h
    omega
  have hround := pack_unpack (UInt64.ofNat bits).toBitVec
    (exponent_of_lt_infinityBits (b := (UInt64.ofNat bits).toBitVec)
      (by rw [UInt64.toNat_toBitVec, hword]; exact h))
  show (UInt64.ofBitVec (UnpackedFloat.pack Format.binary64
    (UnpackedFloat.unpack Format.binary64 _))).toNat = bits
  simp only [Bool.false_eq_true, ↓reduceIte]
  rw [hround]
  exact hword

/-! ## 3. Finite doubles with a clear sign -/

/-- A number that is written without a sign: finite, with a clear sign bit.  Negative zero is not
one. -/
structure Unsigned (x : Float) : Prop where
  finite : x.isFinite = true
  clear : isNegative x = false

theorem isFinite_unpack (b : Word) :
    (UnpackedFloat.unpack Format.binary64 b).isFinite = true ↔ (unpackExponent b).toNat ≠ 2047 := by
  have hmax : unpackExponent b = -1#_ ↔ (unpackExponent b).toNat = 2047 := by
    rw [← BitVec.toNat_inj]
    exact Iff.rfl
  by_cases h : unpackExponent b = -1#_
  · have hfield := hmax.mp h
    unfold UnpackedFloat.unpack
    simp only [h, ↓reduceIte]
    split <;> simp_all [UnpackedFloat.isFinite]
  · have hfield := mt hmax.mpr h
    unfold UnpackedFloat.unpack
    simp only [h, ↓reduceIte]
    split
    · split <;> simp_all [UnpackedFloat.isFinite]
    · simp_all [UnpackedFloat.isFinite]

/-- The finite doubles with a clear sign are the words below the infinite. -/
theorem unsigned_iff {x : Float} : Unsigned x ↔ x.toBits.toNat < infinityBits := by
  have hlt : x.toBits.toNat < 2 ^ 64 := x.toBits.toNat_lt
  have hfield := toNat_unpackExponent x.toBits.toBitVec
  rw [UInt64.toNat_toBitVec] at hfield
  have hfinite : x.isFinite = true ↔ x.toBits.toNat / 2 ^ 52 % 2 ^ 11 ≠ 2047 := by
    rw [← hfield]
    exact isFinite_unpack x.toBits.toBitVec
  have hclear : isNegative x = false ↔ x.toBits.toNat < 2 ^ 63 := by
    simp [isNegative]
  unfold infinityBits
  constructor
  · rintro ⟨hf, hc⟩
    have := hfinite.mp hf
    have := hclear.mp hc
    omega
  · intro h
    exact ⟨hfinite.mpr (by omega), hclear.mpr (by omega)⟩

theorem unsigned_ofMagnitudeBits {bits : Nat} (h : bits < infinityBits) :
    Unsigned (ofMagnitudeBits false bits) := by
  rw [unsigned_iff, toNat_toBits_ofMagnitudeBits h]
  exact h

theorem eq_of_toBits_eq {x y : Float} (h : x.toBits = y.toBits) : x = y := by
  obtain ⟨a, ha⟩ := x
  obtain ⟨b, hb⟩ := y
  cases h
  rfl

/-- A finite double with a clear sign is made from its bits. -/
theorem Unsigned.ofMagnitudeBits_eq {x : Float} (hx : Unsigned x) :
    ofMagnitudeBits false x.toBits.toNat = x := by
  apply eq_of_toBits_eq
  apply UInt64.toNat_inj.mp
  exact toNat_toBits_ofMagnitudeBits (unsigned_iff.mp hx)

/-- A finite double equals itself, which is not so of every double. -/
theorem Unsigned.beq_self {x : Float} (hx : Unsigned x) : (x == x) = true := by
  have hfinite : x.toModel.unpack.isFinite = true := hx.finite
  show (x.toModel.unpack.compare x.toModel.unpack == some .eq) = true
  cases hu : x.toModel.unpack with
  | infinity s => rw [hu] at hfinite; cases hfinite
  | notANumber => rw [hu] at hfinite; cases hfinite
  | zero s => rfl
  | finite s m e hm => cases s <;> simp [UnpackedFloat.compare, Std.ReflCmp.compare_self]

end Formulary.Number
