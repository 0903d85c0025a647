import Formulary.Proofs.Arith.Compiled
import Formulary.Proofs.Arith.Lexemes
import Formulary.Proofs.Chain.Conservation

/-!
# Numbers in formulas

The numbers of a formula are literals, and a literal is never malformed for the conversion: its
mantissa and its exponent are read to the end, whatever their size.  So all that a parse can find
wrong with a number is that its value is too large (`numbers_are_literals`). -/

namespace Formulary.Arith

open Text.Source (ofBytes)

variable {r : Reader} {c mark : Char} {m cs sign rest : List Char}

/-! ## 1. Calls for a token -/

/-- A number token is the number that ends where the scanner stops. -/
theorem scanToken_number {t : Token} {r' : Reader} (h : scanToken r = (.ok t, r'))
    (ht : t.code = Symbol.number.code) :
    ∃ lexeme, t.value = String.ofList lexeme ∧ t.pos = r.pos ∧ r.chars = lexeme ++ r'.chars ∧
      NumberAt lexeme r'.chars := by
  have hother : ∀ {s : Symbol} {value : String} {pos : Position} {r₁ : Reader}, s ≠ .number →
      ((.ok ⟨s.kind, value, pos⟩, r₁) : Step × Reader) ≠ (.ok t, r') := by
    rintro s value pos r₁ hs ⟨⟩
    exact hs (Symbol.code_inj ht)
  unfold scanToken at h
  split at h
  · cases h
    cases ht
  next c hpeek =>
    obtain ⟨cs, hcs⟩ := Reader.exists_chars_of_peek hpeek
    split at h
    next hc =>
      rw [Bool.or_eq_true, beq_iff_eq] at hc
      rcases scanNumber_ends hcs hc with ⟨lexeme, r₁, heq, hchars, hat⟩ | ⟨⟨e, r₁, heq⟩, -⟩
      · rw [heq] at h
        cases h
        exact ⟨lexeme, rfl, rfl, hchars, hat⟩
      · rw [heq] at h
        cases h
    split at h
    next hletter => exact absurd h (hother (by simp))
    split at h
    next s hs => exact absurd h (hother (sign_char hs).2.2.2.2.1)
    next => cases h

/-- Behind blanks, what starts like a number is refused if it is broken. -/
theorem scan_fails_iff (h : r.chars.dropWhile Text.isBlank = c :: cs)
    (hc : isDigit c = true ∨ c = '.') :
    (∃ e, (scan r).1 = .error e) ↔ Broken (c :: cs) := by
  have hskip : (r.skipWhile Text.isBlank).chars = c :: cs := (r.chars_takeWhile _).trans h
  have hstarts : (isDigit c || c == '.') = true := by
    rwa [Bool.or_eq_true, beq_iff_eq]
  have hscan : scan r = scanNumber (r.skipWhile Text.isBlank) := by
    simp only [scan, scanToken, Reader.peek_cons hskip, hstarts, ↓reduceIte]
  rw [hscan]
  rcases scanNumber_ends hskip hc with ⟨lexeme, r', heq, hchars, hat⟩ | ⟨⟨e, r', heq⟩, hbroken⟩
  · rw [heq]
    constructor
    · rintro ⟨e, he⟩
      cases he
    · intro hbroken
      rw [← hskip, hchars] at hbroken
      exact absurd hbroken hat.not_broken
  · rw [heq]
    exact ⟨fun _ => hskip ▸ hbroken, fun _ => ⟨e, rfl⟩⟩

/-! ## 2. Reading literals -/

open Number (readMantissa readExponent readSignedExponent? readUnsigned? readLiteral)

/-- Where the reading of a mantissa stops. -/
def EndsMantissa (rest : List Char) : Prop := ∀ v, readMantissa 10 v rest = (v, rest)

theorem endsMantissa_mark (hmark : isMark mark = true) : EndsMantissa (mark :: rest) := by
  intro v
  rcases isMark_iff.mp hmark with rfl | rfl
  · rw [readMantissa, show Number.digitIn? 10 'e' = none by decide]
    rfl
  · rw [readMantissa, show Number.digitIn? 10 'E' = none by decide]
    rfl

theorem readMantissa_point {ds fs : List Char} (hds : Digits ds) (hfs : Digits fs)
    (hrest : EndsMantissa rest) :
    ∃ v, readMantissa 10 ⟨0, 0, none⟩ (ds ++ '.' :: fs ++ rest) = (v, rest) ∧
      v.count = ds.length + fs.length := by
  rw [List.append_assoc, Number.readMantissa_digits hds, List.cons_append, readMantissa]
  simp only [Option.map_none, beq_self_eq_true, ↓reduceIte, show ('.' == '_') = false by decide,
    Bool.false_eq_true]
  rw [Number.readMantissa_digits hfs, hrest]
  exact ⟨_, rfl, by simp⟩

/-- **A mantissa is read whole.** -/
theorem Mantissa.readMantissa_eq (h : Mantissa m) (hrest : EndsMantissa rest) :
    ∃ v, readMantissa 10 ⟨0, 0, none⟩ (m ++ rest) = (v, rest) ∧ v.count ≠ 0 := by
  cases h with
  | whole hne hds =>
    have hlength := List.length_pos_of_ne_nil hne
    rw [Number.readMantissa_digits hds, hrest]
    exact ⟨_, rfl, by simp only; omega⟩
  | point hne hds hfs =>
    have hlength := List.length_pos_of_ne_nil hne
    obtain ⟨v, heq, hcount⟩ := readMantissa_point hds hfs hrest
    exact ⟨v, heq, by omega⟩
  | fraction hne hfs =>
    have hlength := List.length_pos_of_ne_nil hne
    have hnil : Digits [] := by simp [Digits]
    obtain ⟨v, heq, hcount⟩ := readMantissa_point hnil hfs hrest
    exact ⟨v, heq, by omega⟩

/-- However many digits an exponent has, all of them are passed. -/
theorem Digits.readExponent_eq (h : Digits cs) (e : Nat) : ∃ e', readExponent e cs = (e', []) := by
  induction cs generalizing e with
  | nil => exact ⟨e, rfl⟩
  | cons c cs ih =>
    have hc : c.isDigit = true := h c List.mem_cons_self
    rw [readExponent, Number.ne_of_isDigit hc (by decide : '_'.isDigit = false),
      Number.digitIn_digit hc]
    exact ih (fun d hd => h d (List.mem_cons_of_mem c hd)) _

theorem readSignedExponent?_digits (hsign : sign ∈ [[], ['+'], ['-']]) (hne : cs ≠ [])
    (hcs : Digits cs) : ∃ e, readSignedExponent? (sign ++ cs) = some (e, []) := by
  obtain ⟨e, he⟩ := hcs.readExponent_eq 0
  obtain ⟨d, ds, rfl⟩ := List.exists_cons_of_ne_nil hne
  have hd : isDigit d = true := hcs d List.mem_cons_self
  have hdecimal : Number.isDecimalDigit d = true := hd
  have hread : ∀ negative, Number.splitSign (sign ++ d :: ds) = (negative, d :: ds) →
      ∃ e, readSignedExponent? (sign ++ d :: ds) = some (e, []) := by
    intro negative hsplit
    simp only [readSignedExponent?, hsplit, List.head?_cons, Option.any_some, hdecimal, he,
      ↓reduceIte]
    exact ⟨_, rfl⟩
  simp only [List.mem_cons, List.not_mem_nil, or_false] at hsign
  rcases hsign with rfl | rfl | rfl
  · exact hread false (Number.splitSign_of_head (.inl hd))
  · exact hread false rfl
  · exact hread true rfl

/-- **A literal is read to its end.** -/
theorem Literal.readUnsigned?_eq (h : Literal cs) :
    ∃ v e, readUnsigned? cs = some (false, v, e, []) := by
  have hx : 'x' ∉ cs := h.not_mem rfl (by decide)
  have hX : 'X' ∉ cs := h.not_mem rfl (by decide)
  cases h with
  | plain hm =>
    have hend : EndsMantissa [] := fun v => rfl
    obtain ⟨v, heq, hcount⟩ := hm.readMantissa_eq hend
    rw [List.append_nil] at heq
    exact ⟨v, 0, Number.Numeral.readUnsigned?_decimal hx hX heq hcount⟩
  | exponent hm hmark hsign hne hds =>
    obtain ⟨v, heq, hcount⟩ := hm.readMantissa_eq (endsMantissa_mark hmark)
    obtain ⟨e, he⟩ := readSignedExponent?_digits hsign hne hds
    refine ⟨v, e, (Number.Numeral.readUnsigned?_decimal hx hX heq hcount).trans ?_⟩
    have hmark' : (_ == 'e' || _ == 'E') = true := hmark
    rw [Number.Numeral.readTail, if_pos hmark', he]
    rfl

/-- **All that can be wrong with a literal is its size.** -/
theorem Literal.read_error (h : Literal cs) {e : Number.NumberError}
    (he : Number.read (String.ofList cs) = .error e) : e = ⟨String.ofList cs, .outOfRange⟩ := by
  obtain ⟨c, cs', rfl, hc⟩ := h.exists_head
  have hsplit : Number.splitSign (c :: cs') = (false, c :: cs') := Number.splitSign_of_head hc
  have hfit : Number.underscoresFit (c :: cs') = true := by
    apply Number.underscoresFit_of_not_mem
    rw [hsplit]
    exact h.not_mem rfl (by decide)
  obtain ⟨v, exp, hread⟩ := h.readUnsigned?_eq
  have hliteral : ∀ fault, readLiteral (c :: cs') = .error fault → fault = .outOfRange := by
    intro fault hfault
    simp only [readLiteral, hsplit, hread, hfit, ↓reduceIte, Bool.false_eq_true] at hfault
    split at hfault <;> cases hfault
    rfl
  rw [Number.read, Number.readNamed?_of_head hc, String.toList_ofList] at he
  cases hresult : readLiteral (c :: cs') with
  | ok x =>
    rw [hresult] at he
    cases he
  | error fault =>
    rw [hresult] at he
    rw [← Except.error.inj he, hliteral fault hresult]

/-! ## 3. The numbers of a text -/

/-- The characters that the first `i` calls for a token have left. -/
def unread (bytes : List Nat) (i : Nat) : List Char :=
  ((Reader.ofSource (ofBytes bytes)).after scan i).chars

/-- **A number token is the longest literal behind the blanks.** -/
theorem scan_number {t : Token} (h : (scan r).1 = .ok t) (ht : t.code = Symbol.number.code) :
    t.pos = (r.skipWhile Text.isBlank).pos ∧
      Longest Literal (r.skipWhile Text.isBlank).chars t.value.toList := by
  have hscan : scanToken (r.skipWhile Text.isBlank) = (.ok t, (scan r).2) := Prod.ext h rfl
  obtain ⟨lexeme, hvalue, hpos, hchars, hat⟩ := scanToken_number hscan ht
  rw [hvalue, String.toList_ofList, hchars]
  exact ⟨hpos, hat.longest⟩

/-- **A conversion fails on numbers only**, and only because they are too large. -/
theorem Profile.convert_error {p : Profile} {t : Token} {role : Chain.Role}
    {why : Number.NumberError} (ht : t.code = Symbol.number.code → Literal t.value.toList)
    (h : p.convert t role = .error why) :
    t.code = Symbol.number.code ∧ why = ⟨t.value, .outOfRange⟩ := by
  unfold Profile.convert at h
  cases role with
  | atom =>
    dsimp only at h
    split at h
    next hcode =>
      have hnumber : t.code = Symbol.number.code := eq_of_beq hcode
      refine ⟨hnumber, ?_⟩
      cases hread : Number.read t.value with
      | ok x =>
        rw [hread] at h
        cases h
      | error e =>
        rw [hread] at h
        obtain rfl : e = why := Except.error.inj h
        have herror := (ht hnumber).read_error (e := e)
        rw [String.ofList_toList] at herror
        exact herror hread
    next => cases h
  | function => cases h
  | unaryOperator => cases h
  | binaryOperator => cases h

/-- **Numbers are literals, and fail on their size alone.**  For any bytes and any number of calls,
those included that follow a failure:

* the text of a number token is the longest literal that the bytes from its offset on start with;
* a call that finds a digit or a point behind the blanks fails exactly if the text is broken there;
* no conversion of a token fails, in any role and profile, but that of a number whose value is out
  of range;
* and no other number error is reported by a parse. -/
theorem numbers_are_literals (bytes : List Nat) :
    (∀ i t, (feed (ofBytes bytes)).answer i = .ok t → t.code = Symbol.number.code →
      ∃ o : Nat, t.pos.offset = o ∧
        Longest Literal (ofBytes (bytes.drop o)).chars t.value.toList) ∧
    (∀ i c cs, (unread bytes i).dropWhile Text.isBlank = c :: cs → isDigit c = true ∨ c = '.' →
      ((∃ e, (feed (ofBytes bytes)).answer i = .error e) ↔ Broken (c :: cs))) ∧
    (∀ i t, (feed (ofBytes bytes)).answer i = .ok t → ∀ (p : Profile) role why,
      p.convert t role = .error why →
      t.code = Symbol.number.code ∧ why = ⟨t.value, .outOfRange⟩) ∧
    ∀ p d, Dialect.compile p = .ok d → ∀ t why, d.parse (ofBytes bytes) = .error (.convert t why) →
      t.code = Symbol.number.code ∧ why = ⟨t.value, .outOfRange⟩ := by
  have hanswer : ∀ i, (feed (ofBytes bytes)).answer i
      = (scan ((Reader.ofSource (ofBytes bytes)).after scan i)).1 :=
    Feed.answer_ofScanner scan_scanned _
  refine ⟨?_, ?_, ?_, ?_⟩
  · intro i t ht hcode
    rw [hanswer] at ht
    obtain ⟨hpos, hlongest⟩ := scan_number ht hcode
    obtain ⟨q, hq⟩ := Feed.exists_standsAt_after scan_scanned bytes i
    have hplace := hq.goes (.takeWhile _ Text.isBlank)
    refine ⟨_, congrArg Position.offset (hpos.trans hplace.pos), ?_⟩
    rw [hplace.ofBytes_drop]
    exact hlongest
  · intro i c cs hcs hc
    rw [hanswer]
    exact scan_fails_iff hcs hc
  · intro i t ht p role why hwhy
    rw [hanswer] at ht
    exact p.convert_error (fun hcode => (scan_number ht hcode).2.holds) hwhy
  · intro p d hd t why hresult
    have h := Dialect.compiled hd
    have hclose : Feed.Closes (Cursor.ofFeed (feed (ofBytes bytes))).ahead.2 := by
      rw [Cursor.ahead_ofFeed]
      exact Feed.closes_ofScanner advances_scan _
    obtain ⟨hmem, role, -, hwhy⟩ :=
      Chain.Parser.of_convert_error h.unsigned hclose (Chain.Parser.parse_of_parseAll hresult)
    rw [Cursor.ahead_ofFeed] at hmem
    have hliteral : ∀ t ∈ (feed (ofBytes bytes)).untilEnd.1,
        t.code = Symbol.number.code → Literal t.value.toList := by
      refine Feed.forall_mem_ofScanner advances_scan ?_ _
      intro r t r' hscan _ hcode
      exact (scan_number (by rw [hscan]) hcode).2.holds
    rw [h.convert] at hwhy
    exact p.convert_error (hliteral t hmem) hwhy

/-- Two numbers and a name without a blank between them. -/
example : (feed (.ofString "1.2.3e5e3")).collect.1.map (·.value) = ["1.2", ".3e5", "e3"] := by cbv

end Formulary.Arith
