import Formulary.Number.Literal
import Formulary.Number.Written
import Formulary.Proofs.Number.Rounding

/-!
# Numerals

A number is written as a `Numeral`: digits, perhaps a point with more digits, and perhaps an
exponent with its sign.  A numeral stands for a decimal, and reading its text gives the double
nearest to that decimal; so an unsigned double reads back as itself.

1. The shape of numerals, and the decimal each stands for.
2. Reading the text of a numeral.
3. The text of a decimal is a numeral with the same value.
4. Writing and reading back, and what a text that starts like a numeral can be read as.
-/

namespace Formulary.Number

/-! ## 1. Numerals -/

/-- A number as it is written.  An empty fraction is written without a point; the exponent comes
with whether its sign is negative. -/
structure Numeral where
  whole : List Char
  fraction : List Char
  exponent : Option (Bool × List Char)
  whole_ne : whole ≠ []
  whole_digits : ∀ c ∈ whole, c.isDigit = true
  fraction_digits : ∀ c ∈ fraction, c.isDigit = true
  exponent_ne : ∀ e ∈ exponent, e.2 ≠ []
  exponent_digits : ∀ e ∈ exponent, ∀ c ∈ e.2, c.isDigit = true

namespace Numeral

/-- The point and the digits after it. -/
def fractionText (ds : List Char) : List Char := if ds.isEmpty then [] else '.' :: ds

def sign (negative : Bool) : Char := if negative then '-' else '+'

/-- The mark of the exponent, its sign and its digits. -/
def exponentText : Option (Bool × List Char) → List Char
  | none => []
  | some (negative, ds) => 'e' :: sign negative :: ds

def text (n : Numeral) : List Char :=
  n.whole ++ (fractionText n.fraction ++ exponentText n.exponent)

/-- The digits as one whole number. -/
def digits (n : Numeral) : Nat := Nat.ofDigitChars 10 (n.whole ++ n.fraction) 0

/-- The exponent without its sign. -/
def magnitude (n : Numeral) : Nat := (n.exponent.map fun e => Nat.ofDigitChars 10 e.2 0).getD 0

def negative (n : Numeral) : Bool := (n.exponent.map (·.1)).getD false

/-- The power of ten that the digits are counted in. -/
def scale (n : Numeral) : Int :=
  (if n.negative then -(n.magnitude : Int) else n.magnitude) - n.fraction.length

end Numeral

/-! ## 2. Reading a numeral -/

theorem digitIn_digit {c : Char} (hc : c.isDigit = true) : digitIn? 10 c = some (c.toNat - 48) := by
  have hdecimal : ('0' ≤ c && c ≤ '9') = true := hc
  rw [Char.isDigit_iff_toNat] at hc
  simp only [Char.reduceToNat] at hc
  simp only [digitIn?, Text.hexValue?, hdecimal, ↓reduceIte, Option.filter]
  rw [if_pos (by simp; omega)]

theorem ne_of_isDigit {c d : Char} (hc : c.isDigit = true) (hd : d.isDigit = false) :
    (c == d) = false := by
  rw [beq_eq_false_iff_ne]
  rintro rfl
  rw [hc] at hd
  cases hd

/-- The digits in front of a text are taken into the mantissa. -/
theorem readMantissa_digits {ds : List Char} (hds : ∀ c ∈ ds, c.isDigit = true) (m : Mantissa)
    (rest : List Char) :
    readMantissa 10 m (ds ++ rest)
      = readMantissa 10 ⟨Nat.ofDigitChars 10 ds m.value, m.count + ds.length,
          m.fraction.map (· + ds.length)⟩ rest := by
  induction ds generalizing m with
  | nil => cases m with | mk v k f => cases f <;> simp
  | cons c ds ih =>
    have hc : c.isDigit = true := hds c (by simp)
    rw [List.cons_append, readMantissa, ne_of_isDigit hc (by decide : '_'.isDigit = false),
      ne_of_isDigit hc (by decide : '.'.isDigit = false), digitIn_digit hc]
    simp only [Bool.false_eq_true, ↓reduceIte]
    rw [ih fun d hd => hds d (by simp [hd])]
    congr 2
    · rw [Nat.ofDigitChars_cons, Nat.mul_comm]; rfl
    · simp only [List.length_cons]; omega
    · cases m.fraction with
      | none => rfl
      | some k => simp only [Option.map_some, List.length_cons]; congr 1; omega

/-- The digits of an exponent are read to their value while that stays below the bound. -/
theorem readExponent_digits {ds : List Char} (hds : ∀ c ∈ ds, c.isDigit = true) (e : Nat)
    (hbound : Nat.ofDigitChars 10 ds e < exponentBound) :
    readExponent e ds = (Nat.ofDigitChars 10 ds e, []) := by
  induction ds generalizing e with
  | nil => simp [readExponent]
  | cons c ds ih =>
    have hc : c.isDigit = true := hds c (by simp)
    rw [Nat.ofDigitChars_cons] at hbound ⊢
    have hsmall : e < exponentBound := by
      rw [Nat.ofDigitChars_eq_ofDigitChars_zero] at hbound
      have : 1 ≤ 10 ^ ds.length := Nat.one_le_two_pow.trans (Nat.pow_le_pow_left (by decide) _)
      have := Nat.mul_le_mul_right (10 * e + (c.toNat - '0'.toNat)) this
      omega
    rw [readExponent, ne_of_isDigit hc (by decide : '_'.isDigit = false), digitIn_digit hc]
    simp only [Bool.false_eq_true, ↓reduceIte, hsmall]
    rw [Nat.mul_comm e 10]
    exact ih (fun d hd => hds d (by simp [hd])) _ hbound

theorem underscoresFrom_of_not_mem {hexadecimal : Bool} {cs : List Char} (h : '_' ∉ cs)
    {seen : Seen} (hseen : seen ≠ .underscore) : underscoresFrom hexadecimal seen cs = true := by
  induction cs generalizing seen with
  | nil => simpa [underscoresFrom] using hseen
  | cons c cs ih =>
    have hc : (c == '_') = false := by
      rw [beq_eq_false_iff_ne]
      rintro rfl
      exact h (by simp)
    have hcs : '_' ∉ cs := fun hm => h (by simp [hm])
    rw [underscoresFrom]
    split
    · exact ih hcs (by decide)
    · rw [hc, beq_eq_false_iff_ne.mpr hseen]
      exact ih hcs (by decide)

/-- A text without underscores has none out of place. -/
theorem underscoresFit_of_not_mem {cs : List Char} (h : '_' ∉ (splitSign cs).2) :
    underscoresFit cs = true := by
  unfold underscoresFit
  split
  next x rest heq =>
    rw [heq] at h
    have hrest : '_' ∉ rest := fun hm => h (by simp [hm])
    split
    · exact underscoresFrom_of_not_mem hrest (by decide)
    · split
      · exact underscoresFrom_of_not_mem hrest (by decide)
      · exact underscoresFrom_of_not_mem h (by decide)
  next => exact underscoresFrom_of_not_mem h (by decide)

/-- A text that starts with a digit or a point has no sign. -/
theorem splitSign_of_head {c : Char} {cs : List Char} (hc : c.isDigit = true ∨ c = '.') :
    splitSign (c :: cs) = (false, c :: cs) := by
  unfold splitSign
  split
  next heq =>
    cases heq
    exact absurd hc (by decide)
  next heq =>
    cases heq
    exact absurd hc (by decide)
  next => rfl

/-- A text that starts with a digit or a point is no name of a number. -/
theorem readNamed?_of_head {c : Char} {cs : List Char} (hc : c.isDigit = true ∨ c = '.') :
    readNamed? (String.ofList (c :: cs)) = none := by
  have hhead : (String.ofList (c :: cs)).toLower.toList.head? = some c := by
    have hlower : c.toLower = c := by
      rcases hc with hc | rfl
      · rw [Char.isDigit_iff_toNat] at hc
        simp only [Char.reduceToNat] at hc
        unfold Char.toLower
        rw [dif_neg]
        rintro ⟨hge, -⟩
        have : 65 ≤ c.toNat := hge
        omega
      · decide
    rw [String.toLower, String.toList_map, String.toList_ofList, List.map_cons, hlower,
      List.head?_cons]
  unfold readNamed?
  generalize (String.ofList (c :: cs)).toLower = s at hhead
  split
  case h_8 => rfl
  all_goals
    cases hhead
    exact absurd hc (by decide)

namespace Numeral

theorem exists_head (n : Numeral) : ∃ c cs, n.text = c :: cs ∧ c.isDigit = true := by
  obtain ⟨c, cs, hw⟩ := List.exists_cons_of_ne_nil n.whole_ne
  refine ⟨c, cs ++ (fractionText n.fraction ++ exponentText n.exponent), ?_,
    n.whole_digits c (by simp [hw])⟩
  rw [text, hw]
  rfl

/-- The characters of a numeral. -/
theorem mem_text {n : Numeral} {c : Char} (hc : c ∈ n.text) :
    c.isDigit = true ∨ c ∈ ['.', 'e', '+', '-'] := by
  rw [text, List.mem_append, List.mem_append] at hc
  rcases hc with hc | hc | hc
  · exact .inl (n.whole_digits c hc)
  · unfold fractionText at hc
    split at hc
    · cases hc
    · rcases List.mem_cons.mp hc with rfl | hc
      · exact .inr (by simp)
      · exact .inl (n.fraction_digits c hc)
  · have hdigits := n.exponent_digits
    rcases hexp : n.exponent with _ | ⟨negative, ds⟩
    · rw [hexp] at hc
      cases hc
    · rw [hexp] at hc hdigits
      rcases List.mem_cons.mp hc with rfl | hc
      · exact .inr (by simp)
      rcases List.mem_cons.mp hc with rfl | hc
      · cases negative <;> exact .inr (by simp [sign])
      · exact .inl (hdigits _ rfl c hc)

theorem not_mem_text {n : Numeral} {c : Char} (hc : c.isDigit = false)
    (hmark : c ∉ ['.', 'e', '+', '-']) : c ∉ n.text := by
  intro hmem
  rcases mem_text hmem with h | h
  · rw [hc] at h
    cases h
  · exact hmark h

/-- The mantissa of a numeral, as it is read. -/
def mantissa (n : Numeral) : Mantissa :=
  ⟨n.digits, n.whole.length + n.fraction.length,
    if n.fraction.isEmpty then none else some n.fraction.length⟩

/-- The reading of the mantissa ends at the exponent. -/
theorem readMantissa_exponentText (m : Mantissa) (e : Option (Bool × List Char)) :
    readMantissa 10 m (exponentText e) = (m, exponentText e) := by
  cases e with
  | none => rfl
  | some e =>
    rw [exponentText, readMantissa, show digitIn? 10 'e' = none by decide]
    rfl

theorem readMantissa_text (n : Numeral) :
    readMantissa 10 ⟨0, 0, none⟩ n.text = (n.mantissa, exponentText n.exponent) := by
  rw [text, readMantissa_digits n.whole_digits]
  by_cases hempty : n.fraction = []
  · rw [hempty, fractionText, List.isEmpty_nil, if_pos rfl, List.nil_append,
      readMantissa_exponentText]
    simp [mantissa, digits, hempty]
  · have hnonempty : n.fraction.isEmpty = false := by simp [hempty]
    rw [fractionText, hnonempty, if_neg (by decide), List.cons_append, readMantissa]
    simp only [Option.map_none, beq_self_eq_true, ↓reduceIte,
      show ('.' == '_') = false by decide, Bool.false_eq_true]
    rw [readMantissa_digits n.fraction_digits, readMantissa_exponentText]
    simp [mantissa, digits, hnonempty, Nat.ofDigitChars_append]

/-- The exponent of a numeral is read to its value. -/
theorem readSignedExponent_digits {negative : Bool} {ds : List Char} (hne : ds ≠ [])
    (hds : ∀ c ∈ ds, c.isDigit = true) (hbound : Nat.ofDigitChars 10 ds 0 < exponentBound) :
    readSignedExponent? (sign negative :: ds)
      = some (if negative then -(Nat.ofDigitChars 10 ds 0 : Int)
          else Nat.ofDigitChars 10 ds 0, []) := by
  have hsplit : splitSign (sign negative :: ds) = (negative, ds) := by
    cases negative <;> rfl
  have hhead : ds.head?.any isDecimalDigit = true := by
    obtain ⟨c, cs, rfl⟩ := List.exists_cons_of_ne_nil hne
    exact hds c (by simp)
  simp only [readSignedExponent?, hsplit, hhead, ↓reduceIte, readExponent_digits hds 0 hbound]

/-- What is read after the mantissa of a literal in base ten. -/
def readTail (m : Mantissa) : List Char → Option (Bool × Mantissa × Int × List Char)
  | [] => some (false, m, 0, [])
  | c :: after =>
    if c == 'e' || c == 'E' then
      (readSignedExponent? after).map fun (e, rest) => (false, m, e, rest)
    else some (false, m, 0, c :: after)

/-- A text without the letter that marks base sixteen is read in base ten. -/
theorem readUnsigned?_decimal {cs rest : List Char} {m : Mantissa} (hx : 'x' ∉ cs) (hX : 'X' ∉ cs)
    (hm : readMantissa 10 ⟨0, 0, none⟩ cs = (m, rest)) (hcount : m.count ≠ 0) :
    readUnsigned? cs = readTail m rest := by
  unfold readUnsigned?
  split
  next hexadecimal body heq =>
    have hbase : hexadecimal = false ∧ body = cs := by
      split at heq
      next x d after =>
        have hne : (x == 'x' || x == 'X') = false := by
          rw [Bool.or_eq_false_iff, beq_eq_false_iff_ne, beq_eq_false_iff_ne]
          exact ⟨fun h => hx (by simp [h]), fun h => hX (by simp [h])⟩
        rw [hne, if_neg (by decide)] at heq
        cases heq
        exact ⟨rfl, rfl⟩
      next =>
        cases heq
        exact ⟨rfl, rfl⟩
    obtain ⟨rfl, rfl⟩ := hbase
    simp only [Bool.false_eq_true, ↓reduceIte, hm, beq_eq_false_iff_ne.mpr hcount]
    cases rest with
    | nil => rfl
    | cons c after => rfl

/-- **The text of a numeral is read as the decimal it stands for.** -/
theorem readUnsigned?_text (n : Numeral) (hbound : n.magnitude < exponentBound) :
    readUnsigned? n.text
      = some (false, n.mantissa, if n.negative then -(n.magnitude : Int) else n.magnitude, []) := by
  have hcount : n.mantissa.count ≠ 0 := by
    have := List.length_pos_of_ne_nil n.whole_ne
    simp only [mantissa]
    omega
  rw [readUnsigned?_decimal (not_mem_text (by decide) (by decide))
    (not_mem_text (by decide) (by decide))
    n.readMantissa_text hcount]
  have hne := n.exponent_ne
  have hdigits := n.exponent_digits
  unfold magnitude at hbound ⊢
  unfold negative
  rcases hexp : n.exponent with _ | ⟨negative, ds⟩
  · rfl
  · rw [hexp] at hne hdigits hbound
    rw [exponentText, readTail, if_pos (by decide),
      readSignedExponent_digits (hne _ rfl) (hdigits _ rfl) hbound]
    rfl

theorem read_text {n : Numeral} {x : Float} (hbound : n.magnitude < exponentBound)
    (hvalue : ofDecimal? false n.digits n.scale = some x) :
    read (String.ofList n.text) = .ok x := by
  obtain ⟨c, cs, htext, hc⟩ := n.exists_head
  have hsplit : splitSign n.text = (false, n.text) := by
    rw [htext]
    exact splitSign_of_head (.inl hc)
  have hfit : underscoresFit n.text = true := by
    apply underscoresFit_of_not_mem
    rw [hsplit]
    exact not_mem_text (by decide) (by decide)
  have hfraction : ((n.mantissa.fraction.getD 0 : Nat) : Int) = n.fraction.length := by
    unfold mantissa
    cases n.fraction <;> rfl
  have hliteral : readLiteral n.text = .ok x := by
    simp only [readLiteral, hsplit, n.readUnsigned?_text hbound, hfit, ↓reduceIte,
      Bool.false_eq_true, hfraction]
    rw [show ofDecimal? false n.mantissa.value
        ((if n.negative then -(n.magnitude : Int) else n.magnitude)
      - n.fraction.length) = some x from hvalue]
  unfold read
  have hnamed : readNamed? (String.ofList n.text) = none := by
    rw [htext]
    exact readNamed?_of_head (.inl hc)
  rw [hnamed]
  rw [String.toList_ofList, hliteral]
  rfl

end Numeral

/-! ## 3. Decimals as numerals -/

/-- The number that a numeral stands for. -/
def Numeral.value (n : Numeral) : ℚ := n.digits * 10 ^ n.scale

/-- The digits with the leading one at `10 ^ e`, as a number. -/
def placed (ds : List Char) (e : Int) : ℚ := Nat.ofDigitChars 10 ds 0 * 10 ^ (e + 1 - ds.length)

theorem isDigit_of_mem_zeros {k : Nat} {c : Char} (hc : c ∈ List.replicate k '0') :
    c.isDigit = true := by
  rw [List.eq_of_mem_replicate hc]
  rfl

theorem isDigit_of_mem_append {ds es : List Char} (hds : ∀ c ∈ ds, c.isDigit = true)
    (hes : ∀ c ∈ es, c.isDigit = true) : ∀ c ∈ ds ++ es, c.isDigit = true := by
  intro c hc
  rcases List.mem_append.mp hc with h | h
  · exact hds c h
  · exact hes c h

theorem ofDigitChars_zeros_append (k : Nat) (ds : List Char) :
    Nat.ofDigitChars 10 (List.replicate k '0' ++ ds) 0 = Nat.ofDigitChars 10 ds 0 := by
  rw [Nat.ofDigitChars_append, Nat.ofDigitChars_replicate_zero, Nat.mul_zero]

theorem ofDigitChars_append_zeros (k : Nat) (ds : List Char) :
    Nat.ofDigitChars 10 (ds ++ List.replicate k '0') 0 = 10 ^ k * Nat.ofDigitChars 10 ds 0 := by
  rw [Nat.ofDigitChars_append, Nat.ofDigitChars_replicate_zero]

theorem Numeral.value_of_no_exponent {n : Numeral} (h : n.exponent = none) :
    n.value
      = Nat.ofDigitChars 10 (n.whole ++ n.fraction) 0 * 10 ^ (-(n.fraction.length : Int)) := by
  simp [Numeral.value, Numeral.digits, Numeral.scale, Numeral.negative, Numeral.magnitude, h]

/-- Digits below one, after a zero and a point. -/
theorem exists_numeral_below {ds : List Char} {e : Int} (hne : ds ≠ [])
    (hds : ∀ c ∈ ds, c.isDigit = true) (he : e < 0) :
    ∃ n : Numeral, n.text = '0' :: '.' :: (List.replicate (-e - 1).toNat '0' ++ ds)
      ∧ n.value = placed ds e ∧ n.magnitude = 0 := by
  have hfraction : (List.replicate (-e - 1).toNat '0' ++ ds).isEmpty = false := by
    simp [hne]
  have hdigits : Nat.ofDigitChars 10 (['0'] ++ (List.replicate (-e - 1).toNat '0' ++ ds)) 0
      = Nat.ofDigitChars 10 ds 0 := ofDigitChars_zeros_append ((-e - 1).toNat + 1) ds
  have hscale : -((List.replicate (-e - 1).toNat '0' ++ ds).length : Int) = e + 1 - ds.length := by
    rw [List.length_append, List.length_replicate]
    omega
  refine ⟨⟨['0'], List.replicate (-e - 1).toNat '0' ++ ds, none, by simp, by simp,
    isDigit_of_mem_append (fun _ => isDigit_of_mem_zeros) hds, by simp, by simp⟩, ?_, ?_, rfl⟩
  · simp only [Numeral.text, Numeral.fractionText, Numeral.exponentText, hfraction,
      Bool.false_eq_true, ↓reduceIte, List.append_nil]
    rfl
  · rw [Numeral.value_of_no_exponent rfl, hdigits, hscale, placed]

/-- Digits from one up, filled up with zeros or cut by a point. -/
theorem exists_numeral_above {ds : List Char} {e : Int} (hne : ds ≠ [])
    (hds : ∀ c ∈ ds, c.isDigit = true) (he : 0 ≤ e) :
    ∃ n : Numeral, n.text = ds.take (e.toNat + 1)
        ++ List.replicate (e.toNat + 1 - (ds.take (e.toNat + 1)).length) '0'
        ++ (if (ds.drop (e.toNat + 1)).isEmpty then [] else '.' :: ds.drop (e.toNat + 1))
      ∧ n.value = placed ds e ∧ n.magnitude = 0 := by
  have htake : ds.take (e.toNat + 1) ≠ [] := by
    intro h
    rcases List.take_eq_nil_iff.mp h with h | h
    · omega
    · exact hne h
  have hvalue : (Nat.ofDigitChars 10 (ds.take (e.toNat + 1)
        ++ List.replicate (e.toNat + 1 - (ds.take (e.toNat + 1)).length) '0'
        ++ ds.drop (e.toNat + 1)) 0 : ℚ) * 10 ^ (-((ds.drop (e.toNat + 1)).length : Int))
      = placed ds e := by
    unfold placed
    rcases Nat.lt_or_ge (e.toNat + 1) ds.length with hcut | hfill
    · have hzeros : e.toNat + 1 - (ds.take (e.toNat + 1)).length = 0 := by
        rw [List.length_take]
        omega
      rw [hzeros, List.replicate_zero, List.append_nil, List.take_append_drop, List.length_drop]
      congr 2
      omega
    · have hexp : (e + 1 - ds.length : Int) = (e.toNat + 1 - ds.length : Nat) := by omega
      rw [List.take_of_length_le hfill, List.drop_of_length_le hfill, List.append_nil,
        ofDigitChars_append_zeros, hexp, zpow_natCast, List.length_nil, Nat.cast_mul, Nat.cast_pow]
      norm_num
      rw [mul_comm]
  refine ⟨⟨ds.take (e.toNat + 1)
      ++ List.replicate (e.toNat + 1 - (ds.take (e.toNat + 1)).length) '0',
    ds.drop (e.toNat + 1), none, by simp [htake],
    isDigit_of_mem_append (fun c hc => hds c (List.mem_of_mem_take hc))
      (fun _ => isDigit_of_mem_zeros),
    fun c hc => hds c (List.mem_of_mem_drop hc), by simp, by simp⟩, ?_, ?_, rfl⟩
  · simp only [Numeral.text, Numeral.fractionText, Numeral.exponentText, List.append_nil]
  · rw [Numeral.value_of_no_exponent rfl]
    exact hvalue

/-- The leading digit, a point and the others, and an exponent. -/
theorem exists_numeral_scientific {d : Char} {rest : List Char} (e : Int) (width : Nat)
    (hds : ∀ c ∈ d :: rest, c.isDigit = true) :
    ∃ n : Numeral, n.text = d :: Numeral.fractionText rest
          ++ 'e' :: (if e < 0 then '-' else '+') :: padZeros width (digitsOf e.natAbs)
      ∧ n.value = placed (d :: rest) e ∧ n.magnitude = e.natAbs := by
  have hexponent : ∀ c ∈ padZeros width (digitsOf e.natAbs), c.isDigit = true :=
    isDigit_of_mem_append (fun _ => isDigit_of_mem_zeros)
      fun c hc => Nat.isDigit_of_mem_toDigits (by decide) (by decide) hc
  have hne : padZeros width (digitsOf e.natAbs) ≠ [] := by
    simp [padZeros, digitsOf, Nat.toDigits_ne_nil]
  have hmagnitude : Nat.ofDigitChars 10 (padZeros width (digitsOf e.natAbs)) 0 = e.natAbs := by
    rw [padZeros, ofDigitChars_zeros_append]
    exact Nat.ofDigitChars_ten_toDigits
  refine ⟨⟨[d], rest, some (decide (e < 0), padZeros width (digitsOf e.natAbs)), by simp,
    fun c hc => hds c (by simp_all), fun c hc => hds c (by simp [hc]), ?_, ?_⟩, ?_, ?_, ?_⟩
  · rintro _ ⟨⟩
    exact hne
  · rintro _ ⟨⟩
    exact hexponent
  · simp [Numeral.text, Numeral.exponentText, Numeral.sign]
  · simp only [Numeral.value, Numeral.digits, Numeral.scale, Numeral.negative, Numeral.magnitude,
      placed, Option.map_some, Option.getD_some, hmagnitude, decide_eq_true_eq, List.length_cons]
    congr 2
    split <;> omega
  · simp only [Numeral.magnitude, Option.map_some, Option.getD_some, hmagnitude]

/-- **Placed digits are written as a numeral with the same value.** -/
theorem exists_numeral_layout (l : Layout) {ds : List Char} {e : Int} (hne : ds ≠ [])
    (hds : ∀ c ∈ ds, c.isDigit = true) (hbound : e.natAbs < exponentBound) :
    ∃ n : Numeral, n.text = l.write ds e ∧ n.value = placed ds e ∧ n.magnitude < exponentBound := by
  unfold Layout.write
  split
  · split
    next he =>
      obtain ⟨n, htext, hvalue, hm⟩ := exists_numeral_below hne hds he
      exact ⟨n, htext, hvalue, by rw [hm]; decide⟩
    next he =>
      obtain ⟨n, htext, hvalue, hm⟩ := exists_numeral_above hne hds (Int.not_lt.mp he)
      exact ⟨n, htext, hvalue, by rw [hm]; decide⟩
  · obtain ⟨d, rest, rfl⟩ := List.exists_cons_of_ne_nil hne
    obtain ⟨n, htext, hvalue, hm⟩ := exists_numeral_scientific e l.exponentWidth hds
    refine ⟨n, ?_, hvalue, by rw [hm]; exact hbound⟩
    rw [htext]
    cases rest <;> rfl

/-- What is dropped at the end are zeros. -/
theorem exists_dropZeros_append (ds : List Char) :
    ∃ k, dropZeros ds ++ List.replicate k '0' = ds := by
  refine ⟨(ds.reverse.takeWhile (· == '0')).length, ?_⟩
  have hzeros : List.replicate (ds.reverse.takeWhile (· == '0')).length '0'
      = (ds.reverse.takeWhile (· == '0')).reverse := by
    rw [eq_comm, List.eq_replicate_iff]
    refine ⟨List.length_reverse, fun c hc => ?_⟩
    have hall := List.all_takeWhile (p := (· == '0')) (l := ds.reverse)
    exact eq_of_beq (List.all_eq_true.mp hall c (List.mem_reverse.mp hc))
  rw [hzeros, dropZeros, ← List.reverse_append, List.takeWhile_append_dropWhile,
    List.reverse_reverse]

/-- **A decimal is written as a numeral with the same value.** -/
theorem exists_numeral_decimal (l : Layout) {d : Decimal} (hd : d.digits ≠ 0)
    (hbound : (d.exponent + (digitsOf d.digits).length - 1).natAbs < exponentBound) :
    ∃ n : Numeral, n.text = d.write l ∧ n.value = d.value ∧ n.magnitude < exponentBound := by
  obtain ⟨k, hk⟩ := exists_dropZeros_append (digitsOf d.digits)
  have hdigits : 10 ^ k * Nat.ofDigitChars 10 (dropZeros (digitsOf d.digits)) 0 = d.digits := by
    rw [← ofDigitChars_append_zeros, hk]
    exact Nat.ofDigitChars_ten_toDigits
  have hne : dropZeros (digitsOf d.digits) ≠ [] := by
    intro h
    rw [h, Nat.ofDigitChars_nil, Nat.mul_zero] at hdigits
    exact hd hdigits.symm
  have hall : ∀ c ∈ dropZeros (digitsOf d.digits), c.isDigit = true := by
    intro c hc
    apply Nat.isDigit_of_mem_toDigits (b := 10) (n := d.digits) (by decide) (by decide)
    show c ∈ digitsOf d.digits
    rw [← hk]
    exact List.mem_append_left _ hc
  have hlength : (digitsOf d.digits).length = (dropZeros (digitsOf d.digits)).length + k := by
    rw [← List.length_replicate (n := k) (a := '0'), ← List.length_append, hk]
  obtain ⟨n, htext, hvalue, hm⟩ := exists_numeral_layout l hne hall hbound
  refine ⟨n, ?_, ?_, hm⟩
  · rw [htext, Decimal.write, beq_eq_false_iff_ne.mpr hd]
    rfl
  · have hexp : d.exponent + (digitsOf d.digits).length - 1 + 1
        - (dropZeros (digitsOf d.digits)).length = k + d.exponent := by
      rw [hlength]
      push_cast
      ring
    have hcast : (d.digits : ℚ)
        = 10 ^ k * Nat.ofDigitChars 10 (dropZeros (digitsOf d.digits)) 0 := by
      exact_mod_cast hdigits.symm
    rw [hvalue, placed, Decimal.value, hexp, zpow_add₀ (by norm_num), zpow_natCast, hcast]
    ring

/-! ## 4. Writing and reading -/

/-- The numeral of zero. -/
def Numeral.zero : Numeral where
  whole := ['0']
  fraction := []
  exponent := none
  whole_ne := by decide
  whole_digits := by simp
  fraction_digits := by simp
  exponent_ne := by simp
  exponent_digits := by simp

/-- A canonical magnitude without a mantissa is zero. -/
theorem Binary.Canonical.bits_eq_zero {b : Binary} {bits : Nat} (hb : b.Canonical)
    (hbits : b.bits? = some bits) (hm : b.mantissa = 0) : bits = 0 := by
  have hexp : b.exponent = leastExponent := by
    by_contra hne
    have := hb.full (lt_of_le_of_ne hb.least_le (Ne.symm hne))
    rw [hm] at this
    exact absurd this (by decide)
  rw [Binary.bits?, hexp, hm] at hbits
  simpa [infinityBits] using hbits.symm

/-- **An unsigned double is written as a numeral that reads back as the double.** -/
theorem exists_numeral_write {x : Float} (hx : Unsigned x) :
    ∃ n : Numeral, write x = String.ofList n.text ∧ read (String.ofList n.text) = .ok x := by
  obtain ⟨b, hfloat, hb, hbits⟩ := hx.ofFloat_eq
  have hwrite : write x = String.ofList ((shortest b).write plain) := by
    simp only [write, hfloat, Bool.false_eq_true, ↓reduceIte, List.nil_append]
  rw [hwrite, ← hx.ofMagnitudeBits_eq]
  by_cases hm : b.mantissa = 0
  · have hshortest : shortest b = ⟨0, 0⟩ := by simp [shortest, hm]
    refine ⟨.zero, by rw [hshortest]; rfl, Numeral.read_text (by decide) ?_⟩
    rw [hb.bits_eq_zero hbits hm]
    rfl
  · have hholds := shortest_holds hm
    obtain ⟨hd, hmin, hmax⟩ := hholds.size hb hbits hm
    obtain ⟨n, htext, hvalue, hbound⟩ := exists_numeral_decimal plain hd (by
      unfold digitsOf exponentBound
      omega)
    refine ⟨n, by rw [htext], Numeral.read_text hbound (ofDecimal?_of_holds hb hbits hm ?_)⟩
    show b.Holds n.value
    rw [hvalue]
    exact hholds

theorem unsigned_of_nearestFloat? {num den : Nat} {x : Float}
    (h : nearestFloat? false num den = some x) : Unsigned x := by
  obtain ⟨bits, hbits, rfl⟩ := Option.map_eq_some_iff.mp h
  apply unsigned_ofMagnitudeBits
  simp only [Binary.bits?] at hbits
  split at hbits
  next hlt =>
    cases hbits
    exact hlt
  next => cases hbits

theorem unsigned_of_ofDecimal? {digits : Nat} {e : Int} {x : Float}
    (h : ofDecimal? false digits e = some x) : Unsigned x := by
  simp only [ofDecimal?] at h
  split at h
  · cases h
    exact unsigned_ofMagnitudeBits (by decide)
  · split at h
    · cases h
    · exact unsigned_of_nearestFloat? h

theorem unsigned_of_ofBinary? {digits : Nat} {e : Int} {x : Float}
    (h : ofBinary? false digits e = some x) : Unsigned x := by
  simp only [ofBinary?] at h
  split at h
  · cases h
    exact unsigned_ofMagnitudeBits (by decide)
  · split at h
    · cases h
    · exact unsigned_of_nearestFloat? h

/-- **A text that starts with a digit or a point is read as an unsigned double**, if as any. -/
theorem unsigned_of_read {c : Char} {cs : List Char} {x : Float} (hc : c.isDigit = true ∨ c = '.')
    (h : read (String.ofList (c :: cs)) = .ok x) : Unsigned x := by
  unfold read at h
  rw [readNamed?_of_head hc, String.toList_ofList] at h
  have hliteral : readLiteral (c :: cs) = .ok x := by
    cases hr : readLiteral (c :: cs) with
    | error e => simp [hr, Except.mapError] at h
    | ok y => simpa [hr, Except.mapError] using h
  unfold readLiteral at hliteral
  rw [splitSign_of_head hc] at hliteral
  simp only at hliteral
  split at hliteral
  next hexadecimal m e _ =>
    split at hliteral
    · split at hliteral
      next y hy =>
        cases hliteral
        split at hy
        · exact unsigned_of_ofBinary? hy
        · exact unsigned_of_ofDecimal? hy
      next => cases hliteral
    · cases hliteral
  next => cases hliteral

end Formulary.Number
