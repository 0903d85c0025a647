import Mathlib.Algebra.Order.Field.Power
import Mathlib.Data.Rat.Cast.Order
import Mathlib.Tactic.FieldSimp
import Mathlib.Tactic.Linarith
import Mathlib.Tactic.Positivity
import Mathlib.Tactic.Ring
import Formulary.Number.Literal
import Formulary.Proofs.Number.Bits

/-!
# Rounding to the nearest double

Which numbers round to a given magnitude.  A magnitude in the form in which a double holds it is
`Canonical`; the numbers that round to it are those between the points halfway to its two
neighbours, `Holds`.

1. Canonical magnitudes, and that every unsigned double is one.
2. The interval of the numbers that round to a magnitude, and the check that a decimal lies in it.
3. Rounding a ratio: `nearest` gives the bits of every magnitude whose interval the ratio lies in.
4. The shortest decimal lies in its interval, so `ofDecimal?` reads it back.

The one case that needs care is a power of two: just below it the doubles stand twice as close, so a
number below it may be rounded at the finer spacing and still come out as the power of two.
-/

namespace Formulary.Number

/-! ## 1. Canonical magnitudes -/

/-- A magnitude in the form in which a double holds it: the mantissa is below `2 ^ 53`, and it uses
its leading bit unless the exponent is the least one. -/
structure Binary.Canonical (b : Binary) : Prop where
  mantissa_lt : b.mantissa < 2 ^ 53
  least_le : leastExponent ≤ b.exponent
  full : leastExponent < b.exponent → 2 ^ 52 ≤ b.mantissa

/-- **An unsigned double is a canonical magnitude** with the same bits. -/
theorem Unsigned.ofFloat_eq {x : Float} (hx : Unsigned x) :
    ∃ b : Binary, Double.ofFloat x = .finite false b ∧ b.Canonical
      ∧ b.bits? = some x.toBits.toNat := by
  have hlt := unsigned_iff.mp hx
  unfold Double.ofFloat
  generalize x.toBits.toNat = bits at hlt
  unfold infinityBits at hlt
  have hsign : decide (2 ^ 63 ≤ bits) = false := by
    rw [decide_eq_false_iff_not]
    omega
  have hmax : (bits / 2 ^ 52 % 2 ^ 11 == 0x7ff) = false := by
    rw [beq_eq_false_iff_ne]
    omega
  by_cases hzero : bits / 2 ^ 52 % 2 ^ 11 = 0
  · refine ⟨⟨bits % 2 ^ 52, leastExponent⟩, ?_, ⟨?_, ?_, ?_⟩, ?_⟩
    · simp only [Double.ofBits, hsign, hmax, Bool.false_eq_true, ↓reduceIte]
      rw [if_pos (beq_iff_eq.mpr hzero)]
    · simp only
      omega
    · exact Int.le_refl _
    · intro h
      exact absurd h (Int.lt_irrefl _)
    · simp only [Binary.bits?, infinityBits, Int.sub_self, Int.toNat_zero, Nat.zero_mul,
        Nat.zero_add]
      rw [if_pos (by omega)]
      congr 1
      omega
  · refine ⟨⟨2 ^ 52 + bits % 2 ^ 52, leastExponent + (bits / 2 ^ 52 % 2 ^ 11 : Nat) - 1⟩,
      ?_, ⟨?_, ?_, ?_⟩, ?_⟩
    · simp only [Double.ofBits, hsign, hmax, beq_eq_false_iff_ne.mpr hzero, Bool.false_eq_true,
        ↓reduceIte]
    · simp only
      omega
    · simp only
      omega
    · intro _
      exact Nat.le_add_right _ _
    · have hexp : (leastExponent + (bits / 2 ^ 52 % 2 ^ 11 : Nat) - 1 - leastExponent).toNat
          = bits / 2 ^ 52 % 2 ^ 11 - 1 := by omega
      simp only [Binary.bits?, infinityBits, hexp]
      have hvalue : (bits / 2 ^ 52 % 2 ^ 11 - 1) * 2 ^ 52 + (2 ^ 52 + bits % 2 ^ 52) = bits := by
        omega
      rw [hvalue, if_pos (by omega)]

/-! ## 2. The interval of a magnitude -/

/-- How far below the mantissa the interval of a magnitude starts, in units of the last place. -/
def Binary.slack (b : Binary) : ℚ :=
  if b.mantissa = 2 ^ 52 ∧ leastExponent < b.exponent then 1 / 4 else 1 / 2

/-- The numbers that round to a magnitude. -/
structure Binary.Holds (b : Binary) (v : ℚ) : Prop where
  low : (b.mantissa - b.slack) * 2 ^ b.exponent < v
    ∨ b.mantissa % 2 = 0 ∧ (b.mantissa - b.slack) * 2 ^ b.exponent = v
  high : v < (b.mantissa + 1 / 2) * 2 ^ b.exponent
    ∨ b.mantissa % 2 = 0 ∧ v = (b.mantissa + 1 / 2) * 2 ^ b.exponent

/-- The number that a decimal stands for. -/
def Decimal.value (d : Decimal) : ℚ := d.digits * 10 ^ d.exponent

theorem zpow_eq_div {a : ℚ} (ha : a ≠ 0) (i : Int) : a ^ i = a ^ i.toNat / a ^ (-i).toNat := by
  rw [← zpow_natCast, ← zpow_natCast, ← zpow_sub₀ ha]
  congr 1
  omega

/-- Comparing scaled whole numbers is comparing the numbers they stand for. -/
theorem compareScaled_eq (a : Nat) (i : Int) (b : Nat) (j : Int) :
    compareScaled a i b j = compare ((a : ℚ) * 10 ^ i) ((b : ℚ) * 2 ^ j) := by
  have hten : (0 : ℚ) < 10 ^ (-i).toNat := by positivity
  have htwo : (0 : ℚ) < 2 ^ (-j).toNat := by positivity
  have hleft : ((a * 10 ^ i.toNat * 2 ^ (-j).toNat : Nat) : ℚ)
      = a * 10 ^ i * (10 ^ (-i).toNat * 2 ^ (-j).toNat) := by
    rw [zpow_eq_div (by norm_num) i]
    push_cast
    field_simp
  have hright : ((b * 2 ^ j.toNat * 10 ^ (-i).toNat : Nat) : ℚ)
      = b * 2 ^ j * (10 ^ (-i).toNat * 2 ^ (-j).toNat) := by
    rw [zpow_eq_div (by norm_num) j]
    push_cast
    field_simp
  have hscale : (0 : ℚ) < 10 ^ (-i).toNat * 2 ^ (-j).toNat := mul_pos hten htwo
  unfold compareScaled
  rcases lt_trichotomy ((a : ℚ) * 10 ^ i) (b * 2 ^ j) with h | h | h
  · rw [compare_lt_iff_lt.mpr h, compare_lt_iff_lt, ← Nat.cast_lt (α := ℚ), hleft, hright]
    exact mul_lt_mul_of_pos_right h hscale
  · rw [compare_eq_iff_eq.mpr h, compare_eq_iff_eq, ← Nat.cast_inj (R := ℚ), hleft, hright, h]
  · rw [compare_gt_iff_gt.mpr h, compare_gt_iff_gt, ← Nat.cast_lt (α := ℚ), hleft, hright]
    exact mul_lt_mul_of_pos_right h hscale

/-- **The check that a decimal reads back is the interval of the magnitude.** -/
theorem readsBack_iff (d : Decimal) (b : Binary) (hb : b.mantissa ≠ 0) :
    d.readsBack b = true ↔ b.Holds d.value := by
  have hquarter : (2 : ℚ) ^ b.exponent = 4 * 2 ^ (b.exponent - 2) := by
    rw [zpow_sub₀ (by norm_num)]
    norm_num
    ring
  have hlow : (((if b.mantissa = 2 ^ 52 ∧ leastExponent < b.exponent then 4 * b.mantissa - 1
      else 4 * b.mantissa - 2 : Nat) : ℚ)) * 2 ^ (b.exponent - 2)
      = (b.mantissa - b.slack) * 2 ^ b.exponent := by
    unfold Binary.slack
    rw [hquarter]
    split
    · rw [Nat.cast_sub (by omega)]
      push_cast
      ring
    · rw [Nat.cast_sub (by omega)]
      push_cast
      ring
  have hhigh : ((4 * b.mantissa + 2 : Nat) : ℚ) * 2 ^ (b.exponent - 2)
      = (b.mantissa + 1 / 2) * 2 ^ b.exponent := by
    rw [hquarter]
    push_cast
    ring
  have hnarrow : (b.mantissa == 2 ^ 52 && decide (leastExponent < b.exponent)) = true
      ↔ b.mantissa = 2 ^ 52 ∧ leastExponent < b.exponent := by
    rw [Bool.and_eq_true, beq_iff_eq, decide_eq_true_iff]
  unfold Decimal.readsBack
  simp only [compareScaled_eq, hnarrow, Bool.and_eq_true, Bool.or_eq_true, beq_iff_eq,
    compare_gt_iff_gt, compare_lt_iff_lt, compare_eq_iff_eq, hlow, hhigh]
  constructor
  · rintro ⟨hl, hh⟩
    exact ⟨hl.imp_right fun h => ⟨h.1, h.2.symm⟩, hh⟩
  · rintro ⟨hl, hh⟩
    exact ⟨hl.imp_right fun h => ⟨h.1, h.2.symm⟩, hh⟩

/-! ## 3. Rounding a ratio -/

/-- The quotient is rounded to the whole number whose interval the ratio lies in. -/
theorem roundDiv_eq {num den m : Nat} (hden : 0 < den)
    (hlow : (m : ℚ) - 1 / 2 < num / den ∨ m % 2 = 0 ∧ (m : ℚ) - 1 / 2 = num / den)
    (hhigh : (num : ℚ) / den < m + 1 / 2 ∨ m % 2 = 0 ∧ (num : ℚ) / den = m + 1 / 2) :
    roundDiv num den = m := by
  have hpos : (0 : ℚ) < den := Nat.cast_pos.mpr hden
  -- both bounds without fractions
  have hlow' : 2 * (m * den) < 2 * num + den ∨ m % 2 = 0 ∧ 2 * (m * den) = 2 * num + den := by
    refine hlow.imp (fun h => ?_) (And.imp_right fun h => ?_)
    · rw [lt_div_iff₀ hpos] at h
      rw [← Nat.cast_lt (α := ℚ)]
      push_cast
      linarith
    · rw [eq_div_iff hpos.ne'] at h
      rw [← Nat.cast_inj (R := ℚ)]
      push_cast
      linarith
  have hhigh' : 2 * num < 2 * (m * den) + den ∨ m % 2 = 0 ∧ 2 * num = 2 * (m * den) + den := by
    refine hhigh.imp (fun h => ?_) (And.imp_right fun h => ?_)
    · rw [div_lt_iff₀ hpos] at h
      rw [← Nat.cast_lt (α := ℚ)]
      push_cast
      linarith
    · rw [div_eq_iff hpos.ne'] at h
      rw [← Nat.cast_inj (R := ℚ)]
      push_cast
      linarith
  have hsplit : num / den * den + num % den = num := Nat.div_add_mod' num den
  have hrest : num % den < den := Nat.mod_lt num hden
  simp only [roundDiv]
  -- the rounded quotient is the quotient or its successor
  obtain h | h | h | h :
      m + 1 ≤ num / den ∨ m = num / den ∨ m = num / den + 1 ∨ num / den + 2 ≤ m := by
    omega
  · have := Nat.mul_le_mul_right den h
    rw [Nat.add_mul] at this
    omega
  · rw [← h] at hsplit ⊢
    split
    · rfl
    · split <;> omega
  · have hnext : m * den = num / den * den + den := by rw [h, Nat.add_mul, Nat.one_mul]
    split
    · omega
    · split <;> omega
  · have := Nat.mul_le_mul_right den h
    rw [Nat.add_mul] at this
    omega

/-- Scaling a ratio divides it by a power of two. -/
theorem scaleDown_value (num den : Nat) (e : Int) :
    ((scaleDown num den e).1 : ℚ) / (scaleDown num den e).2 = num / den / 2 ^ e := by
  rw [zpow_eq_div (by norm_num) e]
  unfold scaleDown
  push_cast
  field_simp

theorem scaleDown_pos {den : Nat} (num : Nat) (e : Int) (hden : 0 < den) :
    0 < (scaleDown num den e).2 :=
  Nat.mul_pos hden (Nat.two_pow_pos _)

/-- A ratio lies between the powers of two around its size. -/
theorem ratio_bounds {num den : Nat} (hnum : num ≠ 0) (hden : den ≠ 0) :
    (2 : ℚ) ^ ((num.log2 : Int) - den.log2 - 1) ≤ num / den
      ∧ (num : ℚ) / den < 2 ^ ((num.log2 : Int) - den.log2 + 1) := by
  have hnumLow : (2 : ℚ) ^ num.log2 ≤ num := by exact_mod_cast Nat.log2_self_le hnum
  have hnumHigh : (num : ℚ) < 2 ^ (num.log2 + 1) := by exact_mod_cast Nat.lt_log2_self
  have hdenLow : (2 : ℚ) ^ den.log2 ≤ den := by exact_mod_cast Nat.log2_self_le hden
  have hdenHigh : (den : ℚ) < 2 ^ (den.log2 + 1) := by exact_mod_cast Nat.lt_log2_self
  have hpos : (0 : ℚ) < den := lt_of_lt_of_le (by positivity) hdenLow
  constructor
  · rw [le_div_iff₀ hpos]
    calc (2 : ℚ) ^ ((num.log2 : Int) - den.log2 - 1) * den
        ≤ 2 ^ ((num.log2 : Int) - den.log2 - 1) * 2 ^ (den.log2 + 1) :=
          mul_le_mul_of_nonneg_left hdenHigh.le (by positivity)
      _ = 2 ^ num.log2 := by
          rw [← zpow_natCast, ← zpow_natCast, ← zpow_add₀ (by norm_num)]
          congr 1
          push_cast
          ring
      _ ≤ num := hnumLow
  · rw [div_lt_iff₀ hpos]
    calc (num : ℚ) < 2 ^ (num.log2 + 1) := hnumHigh
      _ = 2 ^ ((num.log2 : Int) - den.log2 + 1) * 2 ^ den.log2 := by
          rw [← zpow_natCast, ← zpow_natCast, ← zpow_add₀ (by norm_num)]
          congr 1
          push_cast
          ring
      _ ≤ 2 ^ ((num.log2 : Int) - den.log2 + 1) * den :=
          mul_le_mul_of_nonneg_left hdenLow (by positivity)

/-- **What rounding does.**  The ratio is scaled so that its whole part has 53 bits, or fewer at the
least exponent, and rounded there. -/
theorem nearest_eq {num den : Nat} (hnum : num ≠ 0) (hden : den ≠ 0) :
    ∃ e : Int, (2 : ℚ) ^ (e + 52) ≤ num / den ∧ (num : ℚ) / den < 2 ^ (e + 53)
      ∧ Binary.nearest num den
        = ⟨roundDiv (scaleDown num den (max leastExponent e)).1
            (scaleDown num den (max leastExponent e)).2, max leastExponent e⟩ := by
  obtain ⟨hlow, hhigh⟩ := ratio_bounds hnum hden
  set guess : Int := (num.log2 : Int) - den.log2 - 53 with hguess
  have hpos := scaleDown_pos num guess (Nat.pos_of_ne_zero hden)
  -- the whole part has at most 53 bits at the guess exactly when the ratio is below `2 ^ 53` there
  have htest : (scaleDown num den guess).1 / (scaleDown num den guess).2 < 2 ^ 53
      ↔ (num : ℚ) / den < 2 ^ (guess + 53) := by
    rw [Nat.div_lt_iff_lt_mul hpos, ← Nat.cast_lt (α := ℚ), Nat.cast_mul,
      ← div_lt_iff₀ (Nat.cast_pos.mpr hpos), scaleDown_value, div_lt_iff₀ (by positivity),
      zpow_add₀ (by norm_num)]
    norm_num
    rw [mul_comm]
  refine ⟨if (scaleDown num den guess).1 / (scaleDown num den guess).2 < 2 ^ 53 then guess
    else guess + 1, ?_, ?_, ?_⟩
  · split
    next h =>
      refine le_trans (le_of_eq ?_) hlow
      congr 1
      omega
    next h =>
      rw [htest, not_lt] at h
      refine le_trans (le_of_eq ?_) h
      congr 1
      omega
  · split
    next h => exact htest.mp h
    next h =>
      refine lt_of_lt_of_le hhigh (le_of_eq ?_)
      congr 1
      omega
  · simp only [Binary.nearest, hnum, ↓reduceIte]
    rfl

/-- Rounding at a fixed exponent gives the mantissa whose interval the ratio lies in. -/
theorem roundDiv_scaleDown {num den m : Nat} {e : Int} (hden : den ≠ 0)
    (hlow : ((m : ℚ) - 1 / 2) * 2 ^ e < num / den
      ∨ m % 2 = 0 ∧ ((m : ℚ) - 1 / 2) * 2 ^ e = num / den)
    (hhigh : (num : ℚ) / den < (m + 1 / 2) * 2 ^ e
      ∨ m % 2 = 0 ∧ (num : ℚ) / den = (m + 1 / 2) * 2 ^ e) :
    roundDiv (scaleDown num den e).1 (scaleDown num den e).2 = m := by
  have hpow : (0 : ℚ) < 2 ^ e := by positivity
  apply roundDiv_eq (scaleDown_pos num e (Nat.pos_of_ne_zero hden))
  · rw [scaleDown_value, lt_div_iff₀ hpow, eq_div_iff hpow.ne']
    exact hlow
  · rw [scaleDown_value, div_lt_iff₀ hpow, div_eq_iff hpow.ne']
    exact hhigh

theorem Binary.slack_le (b : Binary) : b.slack ≤ 1 / 2 := by
  unfold Binary.slack
  split <;> norm_num

/-- Numbers in the interval of a magnitude, at most half a unit below and above it. -/
theorem Binary.Holds.bounds {b : Binary} {v : ℚ} (hv : b.Holds v) :
    (b.mantissa - b.slack) * 2 ^ b.exponent ≤ v ∧ v ≤ (b.mantissa + 1 / 2) * 2 ^ b.exponent := by
  refine ⟨?_, ?_⟩
  · rcases hv.low with h | ⟨-, h⟩
    · exact h.le
    · exact h.le
  · rcases hv.high with h | ⟨-, h⟩
    · exact h.le
    · exact h.le

/-- The interval of a magnitude is at least half a unit wide on its lower side; at that spacing its
mantissa is what the ratio rounds to. -/
theorem Binary.Holds.low_half {b : Binary} {v : ℚ} (hv : b.Holds v) :
    ((b.mantissa : ℚ) - 1 / 2) * 2 ^ b.exponent < v
      ∨ b.mantissa % 2 = 0 ∧ ((b.mantissa : ℚ) - 1 / 2) * 2 ^ b.exponent = v := by
  have hpow : (0 : ℚ) < 2 ^ b.exponent := by positivity
  have hslack : ((b.mantissa : ℚ) - 1 / 2) * 2 ^ b.exponent
      ≤ (b.mantissa - b.slack) * 2 ^ b.exponent :=
    mul_le_mul_of_nonneg_right (sub_le_sub_left b.slack_le _) hpow.le
  rcases hv.low with h | ⟨heven, h⟩
  · exact .inl (lt_of_le_of_lt hslack h)
  · rcases lt_or_eq_of_le (h ▸ hslack) with h' | h'
    · exact .inl h'
    · exact .inr ⟨heven, h'⟩

/-- A number in the interval of a magnitude that rounds at a finer spacing stands just below a power
of two, at the next finer spacing. -/
theorem Binary.Holds.finer {b : Binary} {v : ℚ} {e : Int} (hb : b.Canonical) (hv : b.Holds v)
    (hleast : leastExponent ≤ e) (hlt : e < b.exponent) (hhigh : v < 2 ^ (e + 53)) :
    b.mantissa = 2 ^ 52 ∧ e = b.exponent - 1 ∧ (2 ^ 53 - 1 / 2) * 2 ^ e ≤ v := by
  have hpow : (0 : ℚ) < 2 ^ b.exponent := by positivity
  have hmin := hv.bounds.1
  have hfull := hb.full (lt_of_le_of_lt hleast hlt)
  have hcap : v < 2 ^ 52 * 2 ^ b.exponent := by
    refine lt_of_lt_of_le hhigh ?_
    rw [← zpow_natCast, ← zpow_add₀ (by norm_num)]
    exact zpow_le_zpow_right₀ (by norm_num) (by push_cast; omega)
  have hmantissa : b.mantissa = 2 ^ 52 := by
    by_contra hne
    have hmore : (2 : ℚ) ^ 52 + 1 ≤ b.mantissa := by
      exact_mod_cast Nat.lt_of_le_of_ne hfull (Ne.symm hne)
    have hstart : (2 : ℚ) ^ 52 * 2 ^ b.exponent ≤ (b.mantissa - b.slack) * 2 ^ b.exponent :=
      mul_le_mul_of_nonneg_right (by linarith [b.slack_le]) hpow.le
    linarith
  have hslack : b.slack = 1 / 4 := if_pos ⟨hmantissa, lt_of_le_of_lt hleast hlt⟩
  rw [hmantissa, hslack] at hmin
  push_cast at hmin
  have hexp : e = b.exponent - 1 := by
    by_contra hne
    have hsmall : (2 : ℚ) ^ (e + 53) ≤ 2 ^ 51 * 2 ^ b.exponent := by
      rw [← zpow_natCast, ← zpow_add₀ (by norm_num)]
      exact zpow_le_zpow_right₀ (by norm_num) (by push_cast; omega)
    have : (2 : ℚ) ^ 51 * 2 ^ b.exponent ≤ (2 ^ 52 - 1 / 4) * 2 ^ b.exponent :=
      mul_le_mul_of_nonneg_right (by norm_num) hpow.le
    linarith
  refine ⟨hmantissa, hexp, ?_⟩
  have hhalf : (2 : ℚ) ^ b.exponent = 2 * 2 ^ e := by
    rw [hexp, zpow_sub₀ (by norm_num), zpow_one]
    ring
  rw [hhalf] at hmin
  linarith

/-- **A ratio in the interval of a magnitude rounds to the bits of that magnitude.** -/
theorem bits?_nearest {num den : Nat} {b : Binary} (hnum : num ≠ 0) (hden : den ≠ 0)
    (hb : b.Canonical) (hv : b.Holds (num / den)) : (Binary.nearest num den).bits? = b.bits? := by
  obtain ⟨e, hlow, hhigh, heq⟩ := nearest_eq hnum hden
  rw [heq]
  have hpow : (0 : ℚ) < 2 ^ b.exponent := by positivity
  obtain ⟨hmin, hmax⟩ := hv.bounds
  rcases lt_trichotomy (max leastExponent e) b.exponent with hlt | hsame | hgt
  · -- a finer spacing: the ratio rounds up to the power of two just above it
    set e' := max leastExponent e with he'
    have hleast : leastExponent ≤ e' := le_max_left _ _
    have hcap : (num : ℚ) / den < 2 ^ (e' + 53) :=
      lt_of_lt_of_le hhigh (zpow_le_zpow_right₀ (by norm_num) (by omega))
    obtain ⟨hmantissa, hexp, hfrom⟩ := hv.finer hb hleast hlt hcap
    have hpow' : (0 : ℚ) < 2 ^ e' := by positivity
    have hround : roundDiv (scaleDown num den e').1 (scaleDown num den e').2 = 2 ^ 53 := by
      refine roundDiv_scaleDown hden ?_ (.inl ?_)
      · push_cast
        exact (lt_or_eq_of_le hfrom).imp_right fun h => ⟨by norm_num, h⟩
      · rw [zpow_add₀ (by norm_num)] at hcap
        push_cast
        norm_num at hcap ⊢
        linarith
    have hbits : (e' - leastExponent).toNat * 2 ^ 52 + 2 ^ 53
        = (b.exponent - leastExponent).toNat * 2 ^ 52 + 2 ^ 52 := by omega
    simp only [Binary.bits?, hround, hmantissa, hbits]
  · -- the spacing of the magnitude
    rw [hsame, roundDiv_scaleDown hden hv.low_half hv.high]
  · -- a coarser spacing: the ratio would be above the interval
    exfalso
    have hexp : max leastExponent e = e := by
      have := hb.least_le
      omega
    have hmantissa : (b.mantissa : ℚ) + 1 ≤ 2 ^ 53 := by exact_mod_cast hb.mantissa_lt
    have hbelow : (b.mantissa + 1 / 2 : ℚ) * 2 ^ b.exponent < 2 ^ 53 * 2 ^ b.exponent :=
      mul_lt_mul_of_pos_right (by linarith) hpow
    have habove : (2 : ℚ) ^ 53 * 2 ^ b.exponent ≤ 2 ^ (e + 52) := by
      rw [← zpow_natCast, ← zpow_add₀ (by norm_num)]
      exact zpow_le_zpow_right₀ (by norm_num) (by push_cast; omega)
    linarith

/-! ## 4. The shortest decimal -/

theorem Binary.slack_pos (b : Binary) : 0 < b.slack := by
  unfold Binary.slack
  split <;> norm_num

/-- A magnitude lies in its own interval. -/
theorem Binary.holds_value (b : Binary) : b.Holds (b.mantissa * 2 ^ b.exponent) := by
  have hpow : (0 : ℚ) < 2 ^ b.exponent := by positivity
  refine ⟨.inl ?_, .inl ?_⟩
  · exact mul_lt_mul_of_pos_right (by linarith [b.slack_pos]) hpow
  · exact mul_lt_mul_of_pos_right (by linarith) hpow

/-- The interval of a magnitude other than zero lies above zero. -/
theorem Binary.Holds.lower {b : Binary} {v : ℚ} (hb : b.Canonical) (hm : b.mantissa ≠ 0)
    (hv : b.Holds v) : (2 : ℚ) ^ (-1075 : Int) ≤ v := by
  have hone : (1 : ℚ) ≤ b.mantissa := by exact_mod_cast Nat.pos_of_ne_zero hm
  refine le_trans ?_ hv.bounds.1
  calc (2 : ℚ) ^ (-1075 : Int) = 1 / 2 * 2 ^ leastExponent := by
        rw [show (-1075 : Int) = leastExponent + (-1) from rfl, zpow_add₀ (by norm_num)]
        norm_num
        ring
    _ ≤ 1 / 2 * 2 ^ b.exponent :=
        mul_le_mul_of_nonneg_left (zpow_le_zpow_right₀ (by norm_num) hb.least_le) (by norm_num)
    _ ≤ (b.mantissa - b.slack) * 2 ^ b.exponent :=
        mul_le_mul_of_nonneg_right (by linarith [b.slack_le]) (by positivity)

/-- The interval of a magnitude that a double holds lies below the next power of two. -/
theorem Binary.Holds.upper {b : Binary} {v : ℚ} {bits : Nat} (hb : b.Canonical)
    (hbits : b.bits? = some bits) (hv : b.Holds v) : v < 2 ^ (1025 : Int) := by
  have hmantissa : (b.mantissa : ℚ) + 1 ≤ 2 ^ 53 := by exact_mod_cast hb.mantissa_lt
  have hexp : b.exponent ≤ 972 := by
    have hlt : (b.exponent - leastExponent).toNat * 2 ^ 52 + b.mantissa < infinityBits := by
      simp only [Binary.bits?] at hbits
      split at hbits
      next h => exact h
      next => cases hbits
    unfold infinityBits leastExponent at hlt
    omega
  calc v ≤ (b.mantissa + 1 / 2) * 2 ^ b.exponent := hv.bounds.2
    _ < 2 ^ 53 * 2 ^ b.exponent := mul_lt_mul_of_pos_right (by linarith) (by positivity)
    _ ≤ 2 ^ 53 * 2 ^ (972 : Int) :=
        mul_le_mul_of_nonneg_left (zpow_le_zpow_right₀ (by norm_num) hexp) (by positivity)
    _ = 2 ^ (1025 : Int) := by
        rw [← zpow_natCast, ← zpow_add₀ (by norm_num)]
        norm_num

theorem readsBack_of_searchFrom {b : Binary} {k : Int} {n more : Nat} {d : Decimal}
    (h : searchFrom b k n more = some d) : d.readsBack b = true := by
  induction more generalizing n with
  | zero => exact List.find?_some (p := fun d : Decimal => d.readsBack b) h
  | succ more ih =>
    rw [searchFrom] at h
    split at h
    next found hfound =>
      cases h
      exact List.find?_some (p := fun d : Decimal => d.readsBack b) hfound
    next => exact ih h

/-- **The shortest decimal of a magnitude rounds to it.**  The search ends on one that was checked;
were there none, the exact value would do. -/
theorem shortest_holds {b : Binary} (hm : b.mantissa ≠ 0) : b.Holds (shortest b).value := by
  simp only [shortest, beq_iff_eq, hm, ↓reduceIte]
  split
  next d hd => exact (readsBack_iff d b hm).mp (readsBack_of_searchFrom hd)
  next =>
    have hvalue : Decimal.value ⟨b.mantissa * 2 ^ b.exponent.toNat * 5 ^ (-b.exponent).toNat,
        -(-b.exponent).toNat⟩ = b.mantissa * 2 ^ b.exponent := by
      unfold Decimal.value
      rw [zpow_neg, zpow_natCast, zpow_eq_div (by norm_num) b.exponent]
      push_cast
      rw [show (10 : ℚ) = 5 * 2 from by norm_num, mul_pow]
      field_simp
    rw [hvalue]
    exact b.holds_value

theorem two_pow_le_ten_pow : (2 : ℚ) ^ (1075 : Int) ≤ 10 ^ (400 : Int) :=
  calc (2 : ℚ) ^ (1075 : Int) ≤ 2 ^ (1200 : Int) := zpow_le_zpow_right₀ (by norm_num) (by norm_num)
    _ = (2 ^ 3 : ℚ) ^ (400 : Int) := by
        rw [← zpow_natCast, ← zpow_mul]
        norm_num
    _ ≤ 10 ^ (400 : Int) := zpow_le_zpow_left₀ (by norm_num) (by norm_num) (by norm_num)

/-- A whole number lies between the powers of ten around its number of digits. -/
theorem size_bounds {digits : Nat} (e : Int) (h : digits ≠ 0) :
    (10 : ℚ) ^ ((Nat.toDigits 10 digits).length + e - 1) ≤ digits * 10 ^ e
      ∧ digits * 10 ^ e < (10 : ℚ) ^ ((Nat.toDigits 10 digits).length + e) := by
  have hpow : (0 : ℚ) < 10 ^ e := by positivity
  have hpos : 0 < (Nat.toDigits 10 digits).length := Nat.length_toDigits_pos
  have hhigh : digits < 10 ^ (Nat.toDigits 10 digits).length :=
    (Nat.length_toDigits_le_iff (by norm_num) hpos).mp (Nat.le_refl _)
  have hlow : 10 ^ ((Nat.toDigits 10 digits).length - 1) ≤ digits := by
    rcases Nat.eq_or_lt_of_le hpos with hone | hmore
    · rw [← hone]
      exact Nat.pos_of_ne_zero h
    · have := (Nat.length_toDigits_le_iff (n := digits) (k := (Nat.toDigits 10 digits).length - 1)
        (b := 10) (by norm_num) (by omega)).not.mp (by omega)
      exact not_lt.mp this
  constructor
  · rw [show (Nat.toDigits 10 digits).length + e - 1
        = ((Nat.toDigits 10 digits).length - 1 : Nat) + e by omega, zpow_add₀ (by norm_num),
          zpow_natCast]
    exact mul_le_mul_of_nonneg_right (by exact_mod_cast hlow) hpow.le
  · rw [zpow_add₀ (by norm_num), zpow_natCast]
    exact mul_lt_mul_of_pos_right (by exact_mod_cast hhigh) hpow

/-- The decimals in the interval of a magnitude are of a size at which numbers are rounded. -/
theorem Binary.Holds.size {b : Binary} {bits digits : Nat} {e : Int} (hb : b.Canonical)
    (hbits : b.bits? = some bits) (hm : b.mantissa ≠ 0) (hv : b.Holds (digits * 10 ^ e)) :
    digits ≠ 0 ∧ -400 ≤ (Nat.toDigits 10 digits).length + e
      ∧ (Nat.toDigits 10 digits).length + e ≤ 400 := by
  have hlower := hv.lower hb hm
  have hupper := hv.upper hb hbits
  have hdigits : digits ≠ 0 := by
    rintro rfl
    rw [Nat.cast_zero, zero_mul] at hlower
    exact absurd hlower (not_le.mpr (by positivity))
  obtain ⟨hlow, hhigh⟩ := size_bounds e hdigits
  refine ⟨hdigits, not_lt.mp fun h => ?_, not_lt.mp fun h => ?_⟩
  · have htiny : (10 : ℚ) ^ (-400 : Int) ≤ 2 ^ (-1075 : Int) := by
      rw [zpow_neg, zpow_neg]
      exact inv_anti₀ (by positivity) two_pow_le_ten_pow
    have hcap : (10 : ℚ) ^ ((Nat.toDigits 10 digits).length + e) ≤ 10 ^ (-400 : Int) :=
      zpow_le_zpow_right₀ (by norm_num) h.le
    exact absurd (hhigh.trans_le (hcap.trans (htiny.trans hlower))) (lt_irrefl _)
  · have hhuge : (2 : ℚ) ^ (1025 : Int) ≤ 10 ^ (400 : Int) :=
      le_trans (zpow_le_zpow_right₀ (by norm_num) (by norm_num)) two_pow_le_ten_pow
    have hfloor : (10 : ℚ) ^ (400 : Int) ≤ 10 ^ ((Nat.toDigits 10 digits).length + e - 1) :=
      zpow_le_zpow_right₀ (by norm_num) (by omega)
    exact absurd (hupper.trans_le (hhuge.trans (hfloor.trans hlow))) (lt_irrefl _)

/-- **A decimal in the interval of a magnitude reads as that magnitude**, whatever its digits. -/
theorem ofDecimal?_of_holds {b : Binary} {bits digits : Nat} {e : Int} (hb : b.Canonical)
    (hbits : b.bits? = some bits) (hm : b.mantissa ≠ 0) (hv : b.Holds (digits * 10 ^ e)) :
    ofDecimal? false digits e = some (ofMagnitudeBits false bits) := by
  obtain ⟨hdigits, hmin, hmax⟩ := hv.size hb hbits hm
  have hratio : ((digits * 10 ^ e.toNat : Nat) : ℚ) / (10 ^ (-e).toNat : Nat)
      = digits * 10 ^ e := by
    rw [zpow_eq_div (by norm_num) e]
    push_cast
    rw [mul_div_assoc]
  have hround : (Binary.nearest (digits * 10 ^ e.toNat) (10 ^ (-e).toNat)).bits? = b.bits? :=
    bits?_nearest (by positivity) (by positivity) hb (hratio ▸ hv)
  simp only [ofDecimal?, beq_eq_false_iff_ne.mpr hdigits, not_lt.mpr hmin, not_lt.mpr hmax,
    decide_false, Bool.or_self, Bool.false_eq_true, ↓reduceIte, nearestFloat?, hround, hbits,
    Option.map_some]

end Formulary.Number
