import Formulary.Arith.Scan
import Formulary.Proofs.Scanning
import Mathlib.Tactic.ByContra

/-!
# Literals

The scanner goes through a number once: digits, a point with more digits, and then, if an `e` comes
next, an exponent.  It never goes back.  This module says which texts are numbers then, without the
scanner: a number is the longest `Literal` at its place, and a place where one begins is refused
only if it is `Broken`.

1. Literals, and the longest one that a text starts with.
2. `NumberAt`: what the scanner looks at when it ends a number.  It is the longest literal.
3. The scanner ends a number like that, or stands at a broken one (`scanNumber_ends`); and where a
   number ends it is scanned (`scanNumber_again`). -/

namespace Formulary.Arith

open Reader (Stops)

/-! ## 1. Literals -/

/-- Digits of ASCII, as many as there are. -/
def Digits (cs : List Char) : Prop := ∀ c ∈ cs, isDigit c = true

/-- The mark of an exponent. -/
def isMark (c : Char) : Bool := c == 'e' || c == 'E'

def isSign (c : Char) : Bool := c == '-' || c == '+'

/-- Digits; digits, a point and perhaps more of them; or a point and digits. -/
inductive Mantissa : List Char → Prop
  | whole {ds : List Char} : ds ≠ [] → Digits ds → Mantissa ds
  | point {ds fs : List Char} : ds ≠ [] → Digits ds → Digits fs → Mantissa (ds ++ '.' :: fs)
  | fraction {fs : List Char} : fs ≠ [] → Digits fs → Mantissa ('.' :: fs)

/-- A mantissa, perhaps with an exponent: its mark, perhaps a sign, and digits. -/
inductive Literal : List Char → Prop
  | plain {m : List Char} : Mantissa m → Literal m
  | exponent {m sign ds : List Char} {mark : Char} : Mantissa m → isMark mark = true →
      sign ∈ [[], ['+'], ['-']] → ds ≠ [] → Digits ds → Literal (m ++ mark :: (sign ++ ds))

/-- `cs` is the longest text for which `P` holds that `text` starts with. -/
structure Longest (P : List Char → Prop) (text cs : List Char) : Prop where
  starts : cs <+: text
  holds : P cs
  longest : ∀ cs', cs' <+: text → P cs' → cs'.length ≤ cs.length

/-- `sign` is the sign in front of `rest`, or nothing if none comes next. -/
def Signed (sign rest : List Char) : Prop :=
  (∃ c, isSign c = true ∧ sign = [c]) ∨ (sign = [] ∧ Stops isSign rest)

/-- A number begins here and goes wrong: a point has no digit behind it, or the digits of the
exponent are missing behind the longest mantissa, a mark, and a sign if one comes next. -/
inductive Broken : List Char → Prop
  | point {rest : List Char} : Stops isDigit rest → Broken ('.' :: rest)
  | exponent {m sign rest : List Char} {mark : Char} :
      Longest Mantissa (m ++ mark :: (sign ++ rest)) m → isMark mark = true → Signed sign rest →
      Stops isDigit rest → Broken (m ++ mark :: (sign ++ rest))

variable {c mark mark' : Char} {m m' cs cs' sign sign' rest rest' text : List Char}

/-- A text starts with one longest text of a kind. -/
theorem Longest.unique {P : List Char → Prop} (h : Longest P text cs) (h' : Longest P text cs') :
    cs = cs' := by
  have hle := h'.longest cs h.starts h.holds
  have hge := h.longest cs' h'.starts h'.holds
  exact (List.prefix_of_prefix_length_le h.starts h'.starts hle).eq_of_length_le hge

/-- What starts the same and is longer goes on with the next character. -/
theorem exists_append_of_lt {rest : List Char} (h : cs' <+: cs ++ rest)
    (hlt : cs.length < cs'.length) : ∃ c s, cs' = cs ++ c :: s ∧ c ∈ rest.head? := by
  have hstarts := List.prefix_append cs rest
  obtain ⟨s, rfl⟩ := List.prefix_of_prefix_length_le hstarts h (Nat.le_of_lt hlt)
  rw [List.length_append] at hlt
  obtain ⟨c, s, rfl⟩ := List.exists_cons_of_length_pos (l := s) (by omega)
  refine ⟨c, s, rfl, ?_⟩
  obtain ⟨t, rfl⟩ := (List.prefix_append_right_inj cs).mp h
  rfl

theorem isMark_iff : isMark c = true ↔ c = 'e' ∨ c = 'E' := by
  rw [isMark, Bool.or_eq_true, beq_iff_eq, beq_iff_eq]

theorem isSign_iff : isSign c = true ↔ c = '-' ∨ c = '+' := by
  rw [isSign, Bool.or_eq_true, beq_iff_eq, beq_iff_eq]

namespace Digits

theorem not_mem (h : Digits cs) (hc : isDigit c = false) : c ∉ cs := by
  intro hmem
  rw [h c hmem] at hc
  cases hc

theorem count_point (h : Digits cs) : cs.count '.' = 0 := List.count_eq_zero.mpr (h.not_mem rfl)

/-- Digits are there, or they are not. -/
theorem not_stops (h : Digits cs) (hne : cs ≠ []) : ¬ Stops isDigit (cs ++ rest) := by
  obtain ⟨d, ds, rfl⟩ := List.exists_cons_of_ne_nil hne
  intro hstops
  have hd := hstops d rfl
  rw [h d List.mem_cons_self] at hd
  cases hd

theorem stops_sign (h : Digits cs) (hne : cs ≠ []) : Stops isSign (cs ++ rest) := by
  obtain ⟨d, ds, rfl⟩ := List.exists_cons_of_ne_nil hne
  rintro _ ⟨⟩
  by_contra hsign
  have hd := h d List.mem_cons_self
  rcases isSign_iff.mp (by simpa using hsign) with rfl | rfl <;> cases hd

end Digits

theorem not_digit_of_isMark (h : isMark c = true) : isDigit c = false := by
  rcases isMark_iff.mp h with rfl | rfl <;> rfl

namespace Mantissa

theorem ne_nil (h : Mantissa m) : m ≠ [] := by
  cases h with
  | whole hne _ => exact hne
  | point hne _ _ => simp
  | fraction _ _ => simp

theorem mem (h : Mantissa m) (hc : c ∈ m) : isDigit c = true ∨ c = '.' := by
  cases h with
  | whole _ hds => exact .inl (hds c hc)
  | point _ hds hfs =>
    rcases List.mem_append.mp hc with hc | hc
    · exact .inl (hds c hc)
    · exact (List.mem_cons.mp hc).elim .inr fun hc => .inl (hfs c hc)
  | fraction _ hfs => exact (List.mem_cons.mp hc).elim .inr fun hc => .inl (hfs c hc)

theorem exists_head (h : Mantissa m) : ∃ c cs, m = c :: cs ∧ (isDigit c = true ∨ c = '.') := by
  obtain ⟨c, cs, rfl⟩ := List.exists_cons_of_ne_nil h.ne_nil
  exact ⟨c, cs, rfl, h.mem List.mem_cons_self⟩

theorem count_point_le (h : Mantissa m) : m.count '.' ≤ 1 := by
  cases h with
  | whole _ hds => simp [hds.count_point]
  | point _ hds hfs => simp [hds.count_point, hfs.count_point]
  | fraction _ hfs => simp [hfs.count_point]

theorem not_mem_mark (h : Mantissa m) (hmark : isMark mark = true) : mark ∉ m := by
  intro hmem
  rcases h.mem hmem with hdigit | rfl
  · rw [not_digit_of_isMark hmark] at hdigit
    cases hdigit
  · cases hmark

/-- No mantissa starts with a point that has no digit behind it. -/
theorem not_point (h : Mantissa m) (hrest : Stops isDigit rest) : ¬ m <+: '.' :: rest := by
  rintro ⟨s, hs⟩
  cases h with
  | whole hne hds =>
    obtain ⟨d, ds, rfl⟩ := List.exists_cons_of_ne_nil hne
    obtain ⟨rfl, -⟩ := List.cons.inj hs
    cases hds _ List.mem_cons_self
  | @point ds fs hne hds _ =>
    obtain ⟨d, ds, rfl⟩ := List.exists_cons_of_ne_nil hne
    obtain ⟨rfl, -⟩ := List.cons.inj hs
    cases hds _ List.mem_cons_self
  | fraction hne hfs =>
    obtain ⟨-, rfl⟩ := List.cons.inj hs
    exact hfs.not_stops hne hrest

end Mantissa

namespace Literal

theorem mem (h : Literal cs) (hc : c ∈ cs) : isDigit c = true ∨ c ∈ ['.', 'e', 'E', '-', '+'] := by
  have hmantissa : ∀ {m : List Char}, Mantissa m → c ∈ m →
      isDigit c = true ∨ c ∈ ['.', 'e', 'E', '-', '+'] := by
    intro m hm hc
    refine (hm.mem hc).imp_right ?_
    rintro rfl
    simp
  cases h with
  | plain hm => exact hmantissa hm hc
  | exponent hm hmark hsign _ hds =>
    rw [List.mem_append, List.mem_cons, List.mem_append] at hc
    rcases hc with hc | rfl | hc | hc
    · exact hmantissa hm hc
    · rcases isMark_iff.mp hmark with rfl | rfl <;> simp
    · simp only [List.mem_cons, List.not_mem_nil, or_false] at hsign
      rcases hsign with rfl | rfl | rfl
      · cases hc
      · simp [List.mem_singleton.mp hc]
      · simp [List.mem_singleton.mp hc]
    · exact .inl (hds c hc)

theorem not_mem (h : Literal cs) (hdigit : isDigit c = false)
    (hmark : c ∉ ['.', 'e', 'E', '-', '+']) : c ∉ cs := by
  intro hc
  rcases h.mem hc with hc | hc
  · rw [hdigit] at hc
    cases hc
  · exact hmark hc

theorem exists_head (h : Literal cs) :
    ∃ c cs', cs = c :: cs' ∧ (isDigit c = true ∨ c = '.') := by
  cases h with
  | plain hm => exact hm.exists_head
  | exponent hm _ _ _ _ =>
    obtain ⟨c, m', rfl, hc⟩ := hm.exists_head
    exact ⟨c, _, rfl, hc⟩

end Literal

/-- **A mark ends the longest mantissa.** -/
theorem Longest.mantissa_eq (h : Longest Mantissa text m) (hm' : Mantissa m')
    (hmark' : isMark mark' = true) (hstarts : m' ++ mark' :: rest' <+: text) : m' = m := by
  have hstarts' : m' <+: text := (List.prefix_append m' _).trans hstarts
  have hpart : m' <+: m :=
    List.prefix_of_prefix_length_le hstarts' h.starts (h.longest m' hstarts' hm')
  rcases Nat.eq_or_lt_of_le hpart.length_le with heq | hlt
  · exact hpart.eq_of_length heq
  · obtain ⟨t, rfl⟩ := hstarts
    have hlonger : m <+: m' ++ (mark' :: rest' ++ t) := by simpa using h.starts
    obtain ⟨c, s, rfl, hc⟩ := exists_append_of_lt hlonger hlt
    -- the mark would be a character of the mantissa
    cases hc
    exact absurd (by simp) (h.holds.not_mem_mark hmark')

/-- In front of the digits of an exponent stands one sign at most. -/
theorem Signed.mem (h : Signed sign rest) : sign ∈ [[], ['+'], ['-']] := by
  rcases h with ⟨c, hc, rfl⟩ | ⟨rfl, -⟩
  · rcases isSign_iff.mp hc with rfl | rfl <;> simp
  · simp

/-- No sign comes next where digits do. -/
theorem Signed.of_digits (hsign : sign ∈ [[], ['+'], ['-']]) (hne : cs ≠ []) (hcs : Digits cs) :
    Signed sign (cs ++ rest) := by
  simp only [List.mem_cons, List.not_mem_nil, or_false] at hsign
  rcases hsign with rfl | rfl | rfl
  · exact .inr ⟨rfl, hcs.stops_sign hne⟩
  · exact .inl ⟨'+', rfl, rfl⟩
  · exact .inl ⟨'-', rfl, rfl⟩

/-- **A text has one sign in front of it**, or none. -/
theorem Signed.unique (h : Signed sign rest) (h' : Signed sign' rest')
    (heq : sign ++ rest = sign' ++ rest') : sign = sign' ∧ rest = rest' := by
  rcases h with ⟨c, hc, rfl⟩ | ⟨rfl, hstops⟩
  · rcases h' with ⟨c', -, rfl⟩ | ⟨rfl, hstops'⟩
    · simpa using heq
    · obtain rfl : c :: rest = rest' := heq
      rw [hstops' c rfl] at hc
      cases hc
  · rcases h' with ⟨c', hc', rfl⟩ | ⟨rfl, -⟩
    · obtain rfl : rest = c' :: rest' := heq
      rw [hstops c' rfl] at hc'
      cases hc'
    · exact ⟨rfl, heq⟩

/-! ## 2. Where a number ends -/

/-- The scanner ends the mantissa `m` where `rest` comes next. -/
inductive MantissaAt : List Char → List Char → Prop
  | whole {ds rest : List Char} :
      Digits ds → Stops isDigit rest → Stops (· == '.') rest → MantissaAt ds rest
  | point {ds fs rest : List Char} :
      Digits ds → Digits fs → Stops isDigit rest → MantissaAt (ds ++ '.' :: fs) rest

/-- The scanner ends the number `cs` where `rest` comes next. -/
inductive NumberAt : List Char → List Char → Prop
  | plain {m rest : List Char} :
      Mantissa m → MantissaAt m rest → Stops isMark rest → NumberAt m rest
  | exponent {m sign ds rest : List Char} {mark : Char} :
      Mantissa m → MantissaAt m (mark :: (sign ++ ds ++ rest)) → isMark mark = true →
      Signed sign (ds ++ rest) → ds ≠ [] → Digits ds → Stops isDigit rest →
      NumberAt (m ++ mark :: (sign ++ ds)) rest

/-- **The scanner takes the longest mantissa**: what comes next is no digit, and there is one point
at most. -/
theorem MantissaAt.longest (h : MantissaAt m rest) (hm : Mantissa m) :
    Longest Mantissa (m ++ rest) m := by
  refine ⟨List.prefix_append m rest, hm, ?_⟩
  intro m' hstarts hm'
  by_contra hlong
  obtain ⟨c, s, rfl, hc⟩ := exists_append_of_lt hstarts (Nat.lt_of_not_le hlong)
  have hnext : isDigit c = true ∨ c = '.' := hm'.mem (by simp)
  cases h with
  | whole _ hdigit hpoint =>
    rw [hdigit c hc] at hnext
    obtain rfl := hnext.resolve_left (by simp)
    cases hpoint '.' hc
  | point _ _ hdigit =>
    rw [hdigit c hc] at hnext
    obtain rfl := hnext.resolve_left (by simp)
    have hcount := hm'.count_point_le
    simp only [List.count_append, List.count_cons_self] at hcount
    omega

namespace NumberAt

theorem literal (h : NumberAt cs rest) : Literal cs := by
  cases h with
  | plain hm _ _ => exact .plain hm
  | exponent hm _ hmark hsigned hne hds _ => exact .exponent hm hmark hsigned.mem hne hds

/-- The number consists of the longest mantissa and what is there of an exponent. -/
theorem exists_mantissa (h : NumberAt cs rest) :
    ∃ m, Longest Mantissa (cs ++ rest) m ∧ m.length ≤ cs.length := by
  cases h with
  | plain hm hat _ => exact ⟨_, hat.longest hm, Nat.le_refl _⟩
  | @exponent m sign ds _ mark hm hat _ _ _ _ _ =>
    refine ⟨m, ?_, by simp⟩
    have hlongest := hat.longest hm
    simpa using hlongest

/-- **The scanner takes the longest literal.**  With the longest mantissa the place of the mark is
settled, and with it that of the sign and of the digits. -/
theorem longest (h : NumberAt cs rest) : Longest Literal (cs ++ rest) cs := by
  refine ⟨List.prefix_append cs rest, h.literal, ?_⟩
  intro cs' hstarts hliteral
  obtain ⟨m, hlongest, hle⟩ := h.exists_mantissa
  cases hliteral with
  | plain hm' => exact Nat.le_trans (hlongest.longest cs' hstarts hm') hle
  | @exponent m' sign' ds' mark' hm' hmark' hsign' hne' hds' =>
    obtain rfl := hlongest.mantissa_eq hm' hmark' hstarts
    obtain ⟨tail, htail⟩ := hstarts
    cases h with
    | plain hm hat hstops =>
      obtain rfl := hlongest.unique (hat.longest hm)
      rw [List.append_assoc] at htail
      obtain rfl := List.append_cancel_left htail
      rw [hstops mark' rfl] at hmark'
      cases hmark'
    | @exponent m sign ds _ mark hm hat hmark hsigned hne hds hstops =>
      obtain rfl : m' = m := hlongest.unique (by simpa using hat.longest hm)
      simp only [List.append_assoc, List.cons_append, List.append_cancel_left_eq,
        List.cons.injEq] at htail
      obtain ⟨rfl, htail⟩ := htail
      obtain ⟨rfl, hdigits⟩ := (Signed.of_digits hsign' hne' hds').unique hsigned htail
      have hcount : ds'.length ≤ ds.length := by
        by_contra hlong
        have hstarts : ds' <+: ds ++ rest := ⟨tail, hdigits⟩
        obtain ⟨c, s, rfl, hc⟩ := exists_append_of_lt hstarts (Nat.lt_of_not_le hlong)
        exact hds'.not_mem (hstops c hc) (by simp)
      simp only [List.length_append, List.length_cons]
      omega

/-- **A number that is scanned is not broken.** -/
theorem not_broken (h : NumberAt cs rest) : ¬ Broken (cs ++ rest) := by
  generalize htext : cs ++ rest = text
  intro hbroken
  cases hbroken with
  | point hstops =>
    obtain ⟨m, hlongest, -⟩ := h.exists_mantissa
    rw [htext] at hlongest
    exact hlongest.holds.not_point hstops hlongest.starts
  | @exponent m' sign' rest' mark' hlongest hmark' hsigned' hstops' =>
    cases h with
    | plain hm hat hstops =>
      obtain rfl := hlongest.unique (htext ▸ hat.longest hm)
      obtain rfl := List.append_cancel_left htext
      rw [hstops mark' rfl] at hmark'
      cases hmark'
    | @exponent m sign ds _ mark hm hat hmark hsigned hne hds hstops =>
      have hlongest' := hat.longest hm
      simp only [List.append_assoc, List.cons_append] at htext hlongest'
      rw [htext] at hlongest'
      obtain rfl := hlongest.unique hlongest'
      obtain ⟨rfl, htail⟩ := List.cons.inj (List.append_cancel_left htext)
      obtain ⟨rfl, rfl⟩ := hsigned.unique hsigned' htail
      exact hds.not_stops hne hstops'

end NumberAt

/-! ## 3. Where the scanner stands -/

variable {r : Reader}

/-- The mantissa that is scanned ends where the scanner stops. -/
theorem scanMantissa_ends (r : Reader) :
    r.chars = (scanMantissa r).1 ++ (scanMantissa r).2.chars ∧
      MantissaAt (scanMantissa r).1 (scanMantissa r).2.chars := by
  obtain ⟨hwhole, hdigits, hstops⟩ := r.takeWhile_splits isDigit
  simp only [scanMantissa]
  split
  next hsees =>
    obtain ⟨c, cs, hcs, hc⟩ := Reader.exists_chars_of_sees hsees
    obtain rfl := eq_of_beq hc
    obtain ⟨hfraction, hdigits', hstops'⟩ :=
      (r.takeWhile isDigit).2.advance.takeWhile_splits isDigit
    rw [Reader.chars_advance hcs] at hfraction
    refine ⟨?_, .point hdigits hdigits' hstops'⟩
    rw [List.append_assoc, List.cons_append, ← hfraction, ← hcs]
    exact hwhole
  next hsees => exact ⟨hwhole, .whole hdigits hstops (Reader.stops_of_not_sees hsees)⟩

theorem scanMantissa_ne_nil (h : r.chars = c :: cs) (hc : isDigit c = true ∨ c = '.') :
    (scanMantissa r).1 ≠ [] := by
  obtain ⟨hchars, hends⟩ := scanMantissa_ends r
  intro hnil
  rw [hnil] at hchars hends
  rw [List.nil_append, h] at hchars
  rw [← hchars] at hends
  generalize hm : ([] : List Char) = m at hends
  cases hends with
  | whole _ hdigit hpoint =>
    rcases hc with hc | rfl
    · rw [hdigit c rfl] at hc
      cases hc
    · cases hpoint '.' rfl
  | point _ _ _ => simp at hm

/-- What is scanned in front of a mark, and is more than a point, is a mantissa. -/
theorem MantissaAt.mantissa (h : MantissaAt m rest) (hne : m ≠ []) (hpoint : m ≠ ['.']) :
    Mantissa m := by
  cases h with
  | whole hds _ _ => exact .whole hne hds
  | @point ds fs _ hds hfs _ =>
    cases ds with
    | nil =>
      refine .fraction (fun hnil => hpoint ?_) hfs
      rw [hnil, List.nil_append]
    | cons d ds => exact .point (by simp) hds hfs

/-- A sign is taken if one comes next. -/
theorem sign_ends (r : Reader) :
    ∃ sign r', (if r.sees isSign then (r.peek.toList, r.advance) else ([], r)) = (sign, r') ∧
      r.chars = sign ++ r'.chars ∧ Signed sign r'.chars := by
  split
  next hsees =>
    obtain ⟨c, cs, hcs, hc⟩ := Reader.exists_chars_of_sees hsees
    refine ⟨[c], r.advance, by rw [Reader.peek_cons hcs]; rfl, ?_, .inl ⟨c, hc, rfl⟩⟩
    rw [Reader.chars_advance hcs, hcs]
    rfl
  next hsees => exact ⟨[], r, rfl, rfl, .inr ⟨rfl, Reader.stops_of_not_sees hsees⟩⟩

/-- **An exponent is scanned whole, or its digits are missing.** -/
theorem scanExponent_ends (h : r.chars = mark :: cs) :
    (∃ sign ds r', scanExponent r = (.ok (mark :: (sign ++ ds)), r') ∧ cs = sign ++ ds ++ r'.chars ∧
      Signed sign (ds ++ r'.chars) ∧ ds ≠ [] ∧ Digits ds ∧ Stops isDigit r'.chars) ∨
    ∃ e r' sign rest, scanExponent r = (.error e, r') ∧ cs = sign ++ rest ∧ Signed sign rest ∧
      Stops isDigit rest := by
  obtain ⟨sign, r₁, heq, hchars, hsigned⟩ := sign_ends r.advance
  have heq' : (if r.advance.sees fun c => c == '-' || c == '+' then
      (r.advance.peek.toList, r.advance.advance) else ([], r.advance)) = (sign, r₁) := heq
  rw [Reader.chars_advance h] at hchars
  simp only [scanExponent, heq', Reader.peek_cons h]
  obtain ⟨hds, hdigits, hstops⟩ := r₁.takeWhile_splits isDigit
  split
  next hsees =>
    refine .inl ⟨sign, (r₁.takeWhile isDigit).1, (r₁.takeWhile isDigit).2, rfl, ?_, hds ▸ hsigned,
      ?_, hdigits, hstops⟩
    · rw [hchars, List.append_assoc, ← hds]
    · intro hnil
      rw [hnil, List.nil_append] at hds
      rw [Reader.sees_of_stops hds hstops] at hsees
      cases hsees
  next hsees =>
    exact .inr ⟨_, r₁, sign, r₁.chars, rfl, hchars, hsigned, Reader.stops_of_not_sees hsees⟩

/-- **A number is scanned to its end, or it is broken.** -/
theorem scanNumber_ends (h : r.chars = c :: cs) (hc : isDigit c = true ∨ c = '.') :
    (∃ lexeme r', scanNumber r = (.ok ⟨Symbol.number.kind, String.ofList lexeme, r.pos⟩, r') ∧
      r.chars = lexeme ++ r'.chars ∧ NumberAt lexeme r'.chars) ∨
    (∃ e r', scanNumber r = (.error e, r')) ∧ Broken r.chars := by
  have hne := scanMantissa_ne_nil h hc
  obtain ⟨hchars, hends⟩ := scanMantissa_ends r
  simp only [scanNumber]
  split
  next hpoint =>
    refine .inr ⟨⟨_, _, rfl⟩, ?_⟩
    rw [beq_iff_eq] at hpoint
    rw [hpoint] at hchars hends
    rw [hchars]
    refine .point ?_
    generalize hm : ['.'] = m at hends
    cases hends with
    | whole hds _ _ =>
      subst hm
      cases hds '.' List.mem_cons_self
    | point _ _ hstops =>
      exact hstops
  next hpoint =>
    rw [beq_iff_eq] at hpoint
    have hmantissa := hends.mantissa hne hpoint
    split
    next hsees =>
      obtain ⟨mark, rest, hrest, hmark⟩ := Reader.exists_chars_of_sees hsees
      rw [hrest] at hchars hends
      rcases scanExponent_ends hrest with
        ⟨sign, ds, r', heq, rfl, hsigned, hne, hds, hstops⟩ |
        ⟨e, r', sign, rest', heq, rfl, hsigned, hstops⟩
      · rw [heq]
        refine .inl ⟨_, r', rfl, ?_, .exponent hmantissa hends hmark hsigned hne hds hstops⟩
        simpa using hchars
      · rw [heq]
        refine .inr ⟨⟨_, _, rfl⟩, ?_⟩
        rw [hchars]
        exact .exponent (hends.longest hmantissa) hmark hsigned hstops
    next hsees =>
      exact .inl ⟨_, _, rfl, hchars, .plain hmantissa hends (Reader.stops_of_not_sees hsees)⟩

/-- **A number is scanned where it ends**: it is the longest literal there, and not broken. -/
theorem scanNumber_again (h : NumberAt cs rest) (hr : r.chars = cs ++ rest) :
    ∃ r', scanNumber r = (.ok ⟨Symbol.number.kind, String.ofList cs, r.pos⟩, r') ∧
      r'.chars = rest := by
  obtain ⟨c, ds, hcs, hc⟩ := h.literal.exists_head
  have hstarts : r.chars = c :: (ds ++ rest) := by rw [hr, hcs, List.cons_append]
  rcases scanNumber_ends hstarts hc with ⟨lexeme, r', heq, hchars, hat⟩ | ⟨-, hbroken⟩
  · rw [hr] at hchars
    have hsame : cs = lexeme := by
      have hlongest := h.longest
      rw [hchars] at hlongest
      exact hlongest.unique hat.longest
    subst hsame
    exact ⟨r', heq, (List.append_cancel_left hchars).symm⟩
  · rw [hr] at hbroken
    exact absurd hbroken h.not_broken

end Formulary.Arith
