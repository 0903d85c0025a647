import Formulary.Proofs.Arith.Literals
import Formulary.Proofs.Number.Numeral

/-!
# The tokens of formulas

What the scanner of formulas gives, and which texts it gives a token for.

1. Words, and the texts that the symbols are spelled with.
2. Every token of a formula is spelled as its kind asks (`spelled_of_scan`).
3. A sign, a word or a numeral is scanned as one token, when what follows does not go on with it.
-/

namespace Formulary.Arith

open Reader (Stops)
open Number (Numeral)

/-! ## 1. Spellings -/

/-- The shape of the names in formulas: a letter or underscore, then letters, digits and
underscores. -/
def isWord (name : String) : Bool :=
  match name.toList with
  | [] => false
  | c :: cs => isLetter c && cs.all isIdentChar

theorem isWord_iff {name : String} :
    isWord name = true ↔ ∃ c cs, name.toList = c :: cs ∧ isLetter c = true
      ∧ ∀ d ∈ cs, isIdentChar d = true := by
  unfold isWord
  split
  next h => simp [h]
  next c cs h => simp [h]

/-- The texts of the tokens of a kind. -/
def Symbol.Spells (s : Symbol) (text : String) : Prop :=
  match s with
  | .number => ∃ c cs, text = String.ofList (c :: cs) ∧ (c.isDigit = true ∨ c = '.')
  | .ident => isWord text = true
  | s => ∃ c, text = String.ofList [c] ∧ ofChar? c = some s

/-- The token has the kind of a symbol and a text that spells it. -/
def Spelled (t : Token) : Prop := ∃ s : Symbol, t.kind = s.kind ∧ s.Spells t.value

theorem Symbol.code_inj {s s' : Symbol} (h : (s.code : Int) = s'.code) : s = s' := by
  revert h
  cases s <;> cases s' <;> decide

theorem Spelled.symbol {t : Token} (ht : Spelled t) {s : Symbol} (hcode : t.code = s.code) :
    s.Spells t.value := by
  obtain ⟨s', hkind, hspell⟩ := ht
  have hs : s' = s := by
    apply Symbol.code_inj
    rw [← hcode, Token.code, hkind]
    rfl
  exact hs ▸ hspell

theorem not_eof_of_kind {t : Token} {s : Symbol} (h : t.kind = s.kind) : t.isEOF = false := by
  rw [Token.isEOF, Token.code, h]
  cases s <;> rfl

/-- Signs are characters of no other kind. -/
theorem sign_char {c : Char} {s : Symbol} (h : Symbol.ofChar? c = some s) :
    isDigit c = false ∧ c ≠ '.' ∧ isLetter c = false ∧ Text.isBlank c = false
      ∧ s ≠ .number ∧ s ≠ .ident := by
  unfold Symbol.ofChar? at h
  split at h <;> cases h <;> decide

theorem spells_sign {c : Char} {s : Symbol} (h : Symbol.ofChar? c = some s) :
    s.Spells (String.ofList [c]) := by
  obtain ⟨-, -, -, -, hnumber, hident⟩ := sign_char h
  cases s
  case number => exact absurd rfl hnumber
  case ident => exact absurd rfl hident
  all_goals exact ⟨c, rfl, h⟩

/-! ## 2. What is scanned -/

variable {r r' : Reader} {t : Token} {c : Char} {cs rest : List Char}

theorem scanNumber_spelled (h : r.chars = c :: cs) (hc : isDigit c = true ∨ c = '.')
    (hscan : scanNumber r = (.ok t, r')) : Spelled t ∧ r'.rest.length < r.rest.length := by
  rcases scanNumber_ends h hc with ⟨lexeme, r₁, heq, hchars, hat⟩ | ⟨⟨e, r₁, heq⟩, -⟩
  · rw [heq] at hscan
    cases hscan
    obtain ⟨d, ds, rfl, hd⟩ := hat.literal.exists_head
    refine ⟨⟨.number, rfl, d, ds, rfl, hd⟩, ?_⟩
    rw [← Reader.length_chars, ← Reader.length_chars, hchars]
    simp
  · rw [heq] at hscan
    cases hscan

theorem scanIdent_spelled (h : r.chars = c :: cs) (hc : isLetter c = true)
    (hscan : scanIdent r = (.ok t, r')) : Spelled t ∧ r'.rest.length < r.rest.length := by
  obtain ⟨hfst, hlt⟩ := Reader.takeWhile_cons (p := isIdentChar) h (by simp [isIdentChar, hc])
  simp only [scanIdent] at hscan
  cases hscan
  refine ⟨⟨.ident, rfl, isWord_iff.mpr ⟨c, cs.takeWhile isIdentChar, ?_, hc, ?_⟩⟩, hlt⟩
  · rw [String.toList_ofList, hfst]
  · exact fun d hd => List.all_eq_true.mp List.all_takeWhile d hd

theorem scanToken_spelled (hscan : scanToken r = (.ok t, r')) (ht : t.isEOF = false) :
    Spelled t ∧ r'.rest.length < r.rest.length := by
  unfold scanToken at hscan
  split at hscan
  · cases hscan
    cases ht
  next c hpeek =>
    obtain ⟨cs, h⟩ := Reader.exists_chars_of_peek hpeek
    split at hscan
    next hc =>
      rw [Bool.or_eq_true, beq_iff_eq] at hc
      exact scanNumber_spelled h hc hscan
    split at hscan
    next hc => exact scanIdent_spelled h hc hscan
    split at hscan
    next s hs =>
      cases hscan
      exact ⟨⟨s, rfl, spells_sign hs⟩, Reader.length_advance_lt h⟩
    next => cases hscan

theorem advances_scan : Feed.Advances scan := by
  intro r t r' hscan ht
  exact Nat.lt_of_lt_of_le (scanToken_spelled hscan ht).2 (r.length_skipWhile_le Text.isBlank)

/-- **Every token of a formula is spelled as its kind asks.** -/
theorem spelled_of_scan (s : Text.Source) : ∀ t ∈ (feed s).untilEnd.1, Spelled t :=
  Feed.forall_mem_ofScanner advances_scan (fun _ _ _ hscan ht => (scanToken_spelled hscan ht).1) _

/-! ## 3. What is scanned as one token -/

/-- What follows can not go on with a word or a number. -/
def Ends (rest : List Char) : Prop := Stops (fun c => isIdentChar c || c == '.') rest

/-- The texts that are scanned as one token of the kind; a number has to be a numeral. -/
inductive Scannable : Symbol → List Char → Prop
  | sign {s : Symbol} {c : Char} : Symbol.ofChar? c = some s → Scannable s [c]
  | word {name : String} : isWord name = true → Scannable .ident name.toList
  | numeral (n : Numeral) : Scannable .number n.text

theorem Ends.stops_ident (h : Ends rest) : Stops isIdentChar rest := by
  intro c hc
  have := h c hc
  rw [Bool.or_eq_false_iff] at this
  exact this.1

theorem Ends.stops_digit (h : Ends rest) : Stops isDigit rest := by
  intro c hc
  have := h.stops_ident c hc
  rw [isIdentChar, Bool.or_eq_false_iff] at this
  exact this.2

theorem Ends.stops_point (h : Ends rest) : Stops (· == '.') rest := by
  intro c hc
  have := h c hc
  rw [Bool.or_eq_false_iff] at this
  exact this.2

theorem Ends.stops_mark (h : Ends rest) : Stops (fun c => c == 'e' || c == 'E') rest := by
  intro c hc
  have hident := h.stops_ident c hc
  rw [Bool.or_eq_false_iff, beq_eq_false_iff_ne, beq_eq_false_iff_ne]
  constructor
  · rintro rfl
    cases hident
  · rintro rfl
    cases hident

theorem scanIdent_again (hcs : ∀ c ∈ cs, isIdentChar c = true) (hrest : Stops isIdentChar rest)
    (hr : r.chars = cs ++ rest) :
    ∃ r', scanIdent r = (.ok ⟨Symbol.ident.kind, String.ofList cs, r.pos⟩, r') ∧
      r'.chars = rest := by
  obtain ⟨r', htake, hr'⟩ := r.takeWhile_append hr hcs hrest
  exact ⟨r', by simp only [scanIdent, htake], hr'⟩

theorem scanIdent_word {name : String} (hname : isWord name = true)
    (h : r.chars = name.toList ++ rest) (hend : Ends rest) :
    ∃ r', scanIdent r = (.ok ⟨Symbol.ident.kind, name, r.pos⟩, r') ∧ r'.chars = rest := by
  obtain ⟨c, cs, hlist, hc, hcs⟩ := isWord_iff.mp hname
  have hall : ∀ d ∈ name.toList, isIdentChar d = true := by
    rw [hlist]
    intro d hd
    rcases List.mem_cons.mp hd with rfl | hd
    · simp [isIdentChar, hc]
    · exact hcs d hd
  obtain ⟨r', heq, hr'⟩ := scanIdent_again hall hend.stops_ident h
  rw [String.ofList_toList] at heq
  exact ⟨r', heq, hr'⟩

/-- The digits and the point of a numeral. -/
theorem mantissa_numeral (n : Numeral) (hdigit : Stops isDigit rest)
    (hpoint : Stops (· == '.') rest) :
    Mantissa (n.whole ++ Numeral.fractionText n.fraction) ∧
      MantissaAt (n.whole ++ Numeral.fractionText n.fraction) rest := by
  by_cases hempty : n.fraction = []
  · rw [hempty, Numeral.fractionText, List.isEmpty_nil, if_pos rfl, List.append_nil]
    exact ⟨.whole n.whole_ne n.whole_digits, .whole n.whole_digits hdigit hpoint⟩
  · have htext : Numeral.fractionText n.fraction = '.' :: n.fraction := by
      simp [Numeral.fractionText, hempty]
    rw [htext]
    exact ⟨.point n.whole_ne n.whole_digits n.fraction_digits,
      .point n.whole_digits n.fraction_digits hdigit⟩

/-- **A numeral ends** where nothing goes on with it. -/
theorem numberAt_numeral (n : Numeral) (hend : Ends rest) : NumberAt n.text rest := by
  have hne := n.exponent_ne
  have hdigits := n.exponent_digits
  rw [Numeral.text, ← List.append_assoc]
  rcases hexp : n.exponent with _ | ⟨negative, es⟩
  · rw [Numeral.exponentText, List.append_nil]
    obtain ⟨hmantissa, hat⟩ := mantissa_numeral n hend.stops_digit hend.stops_point
    exact .plain hmantissa hat hend.stops_mark
  · rw [hexp] at hne hdigits
    have hsign : isSign (Numeral.sign negative) = true := by cases negative <;> rfl
    have hmark : ∀ {p : Char → Bool} {cs : List Char}, p 'e' = false → Stops p ('e' :: cs) := by
      rintro p cs he _ ⟨⟩
      exact he
    obtain ⟨hmantissa, hat⟩ := mantissa_numeral n (hmark rfl) (hmark rfl)
    exact .exponent hmantissa hat rfl (.inl ⟨_, hsign, rfl⟩) (hne _ rfl) (hdigits _ rfl)
      hend.stops_digit

theorem not_blank_of_isIdentChar {c : Char} (h : isIdentChar c = true) :
    Text.isBlank c = false := by
  have hne : ∀ d, isIdentChar d = false → c ≠ d := by
    rintro d hd rfl
    rw [h] at hd
    cases hd
  simp [Text.isBlank, hne ' ' rfl, hne '\t' rfl, hne '\r' rfl, hne '\n' rfl]

theorem isDigit_false_of_isLetter {c : Char} (h : isLetter c = true) : isDigit c = false := by
  simp only [isLetter, isDigit, Bool.or_eq_true, Bool.and_eq_true, decide_eq_true_eq, beq_iff_eq,
    Bool.and_eq_false_iff, decide_eq_false_iff_not, Char.le_def] at h ⊢
  rcases h with (h | h) | rfl
  · exact .inr fun h' => absurd (UInt32.le_trans h.1 h') (by decide)
  · exact .inr fun h' => absurd (UInt32.le_trans h.1 h') (by decide)
  · exact .inr (by decide)

/-- **A scannable text is one token**, when what follows can not go on with it. -/
theorem scanToken_scannable {s : Symbol} {cs : List Char} (hcs : Scannable s cs)
    (h : r.chars = cs ++ rest) (hend : s = .number ∨ s = .ident → Ends rest) :
    ∃ r', scanToken r = (.ok ⟨s.kind, String.ofList cs, r.pos⟩, r') ∧ r'.chars = rest := by
  cases hcs with
  | @sign s c hs =>
    obtain ⟨hdigit, hpoint, hletter, -⟩ := sign_char hs
    refine ⟨r.advance, ?_, Reader.chars_advance h⟩
    have hnumber : (isDigit c || c == '.') = false := by
      rw [hdigit, beq_eq_false_iff_ne.mpr hpoint]
      rfl
    simp only [scanToken, Reader.peek_cons h, hnumber, hletter, hs, Bool.false_eq_true, ↓reduceIte]
  | @word name hname =>
    obtain ⟨c, cs, hlist, hc, -⟩ := isWord_iff.mp hname
    obtain ⟨r', hscan, hr'⟩ := scanIdent_word hname h (hend (.inr rfl))
    refine ⟨r', ?_, hr'⟩
    rw [hlist] at h
    have hnumber : (isDigit c || c == '.') = false := by
      rw [isDigit_false_of_isLetter hc, Bool.false_or, beq_eq_false_iff_ne]
      rintro rfl
      cases hc
    simp only [scanToken, Reader.peek_cons h, hnumber, hc, Bool.false_eq_true, ↓reduceIte, hscan,
      String.ofList_toList]
  | numeral n =>
    obtain ⟨r', hscan, hr'⟩ := scanNumber_again (numberAt_numeral n (hend (.inl rfl))) h
    obtain ⟨c, cs, htext, hc⟩ := n.exists_head
    refine ⟨r', ?_, hr'⟩
    have hnumber : (isDigit c || c == '.') = true := by
      rw [show isDigit c = true from hc]
      rfl
    rw [← hscan]
    rw [htext] at h
    simp only [scanToken, Reader.peek_cons h, hnumber, ↓reduceIte]

theorem Scannable.exists_head {s : Symbol} {cs : List Char} (hcs : Scannable s cs) :
    ∃ c cs', cs = c :: cs' ∧ Text.isBlank c = false := by
  cases hcs with
  | @sign s c hs => exact ⟨c, [], rfl, (sign_char hs).2.2.2.1⟩
  | @word name hname =>
    obtain ⟨c, cs, hlist, hc, -⟩ := isWord_iff.mp hname
    exact ⟨c, cs, hlist, not_blank_of_isIdentChar (by simp [isIdentChar, hc])⟩
  | numeral n =>
    obtain ⟨c, cs, htext, hc⟩ := n.exists_head
    have hident : isIdentChar c = true := by simp [isIdentChar, show isDigit c = true from hc]
    exact ⟨c, cs, htext, not_blank_of_isIdentChar hident⟩

/-- A scannable text with blanks in front of it is scanned as a token. -/
theorem scans_token {s : Symbol} {blanks cs : List Char} (hcs : Scannable s cs)
    (hblank : ∀ c ∈ blanks, Text.isBlank c = true) (h : r.chars = blanks ++ (cs ++ rest))
    (hend : s = .number ∨ s = .ident → Ends rest) :
    ∃ t r', Feed.Scans scan r [t] r' ∧ t.kind = s.kind ∧ t.value = String.ofList cs
      ∧ r'.chars = rest := by
  obtain ⟨c, cs', rfl, hc⟩ := hcs.exists_head
  obtain ⟨t, r', hscans, ⟨hkind, hvalue⟩, hr'⟩ :=
    Feed.scans_after_blanks (P := fun t => t.kind = s.kind ∧ t.value = String.ofList (c :: cs'))
      advances_scan (fun _ => rfl) hblank h hc fun r hr => by
        obtain ⟨r', hscan, hr'⟩ := scanToken_scannable hcs hr hend
        exact ⟨_, r', hscan, not_eof_of_kind rfl, ⟨rfl, rfl⟩, hr'⟩
  exact ⟨t, r', hscans, hkind, hvalue, hr'⟩

/-- At the end of a text the scanner gives the end of the input. -/
theorem untilEnd_of_nil (h : r.chars = []) :
    ∃ e, e.isEOF = true ∧ (Feed.ofScanner scan r).untilEnd = ([], .ok e) :=
  Feed.untilEnd_of_blanks (fun _ => rfl) (fun r hr => by simp only [scanToken, hr]) (by simp [h])

end Formulary.Arith
