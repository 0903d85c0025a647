import Formulary.Proofs.Scanning
import Formulary.Rules.Grammar
import Formulary.Rules.Scan

/-!
# The tokens of grammars

What the scanner of grammars gives, and which texts it gives a token for.

1. Names and words.
2. Names and words in the tokens of a grammar have the shapes of names and words
   (`spelled_of_scan`).  The bytes of the source do not matter: a byte that belongs to no character
   is read as one.
3. A sign, a name, a word or a quoted text is scanned as one token, when what follows does not go on
   with it.  Between quotes any text can be written.
-/

namespace Formulary.Rules

open Reader (Stops)

/-! ## 1. Names and words -/

/-- The shape of the names of rules: a letter, then letters, digits and hyphens. -/
def isName (name : String) : Bool :=
  match name.toList with
  | [] => false
  | c :: cs => Text.isLetter c && cs.all isNameChar

/-- The shape of the words that are no names: characters of words, the first of which is no
letter. -/
def isPlain (text : String) : Bool :=
  match text.toList with
  | [] => false
  | c :: cs => !Text.isLetter c && (c :: cs).all isWordChar

theorem isName_iff {name : String} :
    isName name = true ↔ ∃ c cs, name.toList = c :: cs ∧ Text.isLetter c = true
      ∧ ∀ d ∈ cs, isNameChar d = true := by
  unfold isName
  split
  next h => simp [h]
  next c cs h => simp [h, and_assoc]

theorem isPlain_iff {text : String} :
    isPlain text = true ↔ ∃ c cs, text.toList = c :: cs ∧ Text.isLetter c = false
      ∧ ∀ d ∈ c :: cs, isWordChar d = true := by
  unfold isPlain
  split
  next h => simp [h]
  next c cs h => simp [h, and_assoc]

/-- The texts of the tokens of a kind. -/
def Symbol.Spells (s : Symbol) (text : String) : Prop :=
  match s with
  | .ident => isName text = true
  | .word => isPlain text = true
  | _ => True

/-- The token has the kind of a symbol and a text that spells it. -/
def Spelled (t : Token) : Prop := ∃ s : Symbol, t.kind = s.kind ∧ s.Spells t.value

theorem Symbol.code_inj {s s' : Symbol} (h : (s.code : Int) = s'.code) : s = s' := by
  revert h
  cases s <;> cases s' <;> decide

theorem not_eof_of_kind {t : Token} {s : Symbol} (h : t.kind = s.kind) : t.isEOF = false := by
  rw [Token.isEOF, Token.code, h]
  cases s <;> rfl

theorem spells_sign {c : Char} {s : Symbol} (h : Symbol.ofChar? c = some s) (text : String) :
    s.Spells text := by
  unfold Symbol.ofChar? at h
  split at h <;> cases h <;> trivial

/-! ## 2. What is scanned -/

variable {r r' : Reader} {t : Token} {c : Char} {cs rest : List Char}

/-- Characters that are there are taken one by one. -/
theorem scanExactly_append (h : r.chars = cs ++ rest) :
    ∃ r', scanExactly cs r = (.ok (), r') ∧ r'.chars = rest := by
  induction cs generalizing r with
  | nil => exact ⟨r, rfl, h⟩
  | cons c cs ih =>
    obtain ⟨r', hscan, hr'⟩ := ih (Reader.chars_advance h)
    refine ⟨r', ?_, hr'⟩
    rw [scanExactly, Reader.sees_cons h, beq_self_eq_true, if_pos rfl, hscan]

theorem length_scanExactly_le (h : scanExactly cs r = (.ok (), r')) :
    r'.rest.length ≤ r.rest.length := by
  induction cs generalizing r with
  | nil =>
    cases h
    exact Nat.le_refl _
  | cons c cs ih =>
    rw [scanExactly] at h
    split at h
    · exact Nat.le_trans (ih h) (Reader.length_advance_le r)
    · cases h

/-- An assignment takes its first character at least. -/
theorem scanAssign_spelled (h : r.chars = c :: cs) (hscan : scanAssign r = (.ok t, r')) :
    Spelled t ∧ r'.rest.length < r.rest.length := by
  unfold scanAssign at hscan
  split at hscan
  next after heq =>
    cases hscan
    refine ⟨⟨.assign, rfl, trivial⟩, ?_⟩
    rw [scanExactly] at heq
    split at heq
    · exact Nat.lt_of_le_of_lt (length_scanExactly_le heq) (Reader.length_advance_lt h)
    · cases heq
  next => cases hscan

/-- What stands behind the closing quote is a part of the source. -/
theorem length_quotedText_le {s taken after : Text.Source}
    (h : quotedText s = (taken, some (cs, after))) : after.length ≤ s.length := by
  fun_induction quotedText s generalizing taken cs after with
  | case1 => cases h
  | case2 g rest hquote =>
    cases h
    exact Nat.le_succ _
  | case3 => cases h
  | case4 g hquote hescape escaped rest taken' result heq ih =>
    obtain ⟨-, hresult⟩ := Prod.mk.inj h
    obtain ⟨⟨ds, after'⟩, hsome, hpair⟩ := Option.map_eq_some_iff.mp hresult
    cases hpair
    have := ih (heq.trans (by rw [hsome]))
    simp only [List.length_cons]
    omega
  | case5 g rest hquote hescape taken' result heq ih =>
    obtain ⟨-, hresult⟩ := Prod.mk.inj h
    obtain ⟨⟨ds, after'⟩, hsome, hpair⟩ := Option.map_eq_some_iff.mp hresult
    cases hpair
    exact Nat.le_succ_of_le (ih (heq.trans (by rw [hsome])))

theorem scanQuoted_spelled (h : r.chars = c :: cs) (hscan : scanQuoted r = (.ok t, r')) :
    Spelled t ∧ r'.rest.length < r.rest.length := by
  simp only [scanQuoted] at hscan
  split at hscan
  next taken ds after heq =>
    cases hscan
    exact ⟨⟨.quoted, rfl, trivial⟩,
      Nat.lt_of_le_of_lt (length_quotedText_le heq) (Reader.length_advance_lt h)⟩
  next => cases hscan

theorem scanName_spelled (h : r.chars = c :: cs) (hc : Text.isLetter c = true)
    (hscan : scanRun .ident isNameChar r = (.ok t, r')) :
    Spelled t ∧ r'.rest.length < r.rest.length := by
  obtain ⟨hfst, hlt⟩ := Reader.takeWhile_cons (p := isNameChar) h (by simp [isNameChar, hc])
  simp only [scanRun] at hscan
  cases hscan
  refine ⟨⟨.ident, rfl, isName_iff.mpr ⟨c, cs.takeWhile isNameChar, ?_, hc, ?_⟩⟩, hlt⟩
  · rw [String.toList_ofList, hfst]
  · exact fun d hd => List.all_eq_true.mp List.all_takeWhile d hd

theorem scanPlain_spelled (h : r.chars = c :: cs) (hletter : Text.isLetter c = false)
    (hc : isWordChar c = true) (hscan : scanRun .word isWordChar r = (.ok t, r')) :
    Spelled t ∧ r'.rest.length < r.rest.length := by
  obtain ⟨hfst, hlt⟩ := Reader.takeWhile_cons h hc
  simp only [scanRun] at hscan
  cases hscan
  refine ⟨⟨.word, rfl, isPlain_iff.mpr ⟨c, cs.takeWhile isWordChar, ?_, hletter, ?_⟩⟩, hlt⟩
  · rw [String.toList_ofList, hfst]
  · intro d hd
    rcases List.mem_cons.mp hd with rfl | hd
    · exact hc
    · exact List.all_eq_true.mp List.all_takeWhile d hd

theorem scanToken_spelled (hscan : scanToken r = (.ok t, r')) (ht : t.isEOF = false) :
    Spelled t ∧ r'.rest.length < r.rest.length := by
  unfold scanToken at hscan
  split at hscan
  · cases hscan
    cases ht
  next c hpeek =>
    obtain ⟨cs, h⟩ := Reader.exists_chars_of_peek hpeek
    split at hscan
    · exact scanAssign_spelled h hscan
    split at hscan
    next s hs =>
      cases hscan
      exact ⟨⟨s, rfl, spells_sign hs _⟩, Reader.length_advance_lt h⟩
    split at hscan
    · exact scanQuoted_spelled h hscan
    split at hscan
    next hletter => exact scanName_spelled h hletter hscan
    next hletter =>
      rw [Bool.not_eq_true] at hletter
      split at hscan
      next hc => exact scanPlain_spelled h hletter hc hscan
      next => cases hscan

theorem advances_scan : Feed.Advances scan := by
  intro r t r' hscan ht
  exact Nat.lt_of_lt_of_le (scanToken_spelled hscan ht).2 (r.length_skipWhile_le Text.isBlank)

/-- **Names and words in the tokens of a grammar are spelled as such.** -/
theorem spelled_of_scan (s : Text.Source) : ∀ t ∈ (feed s).untilEnd.1, Spelled t :=
  Feed.forall_mem_ofScanner advances_scan (fun _ _ _ hscan ht => (scanToken_spelled hscan ht).1) _

/-! ## 3. What is scanned as one token -/

/-- What follows can not go on with a name or a word. -/
def Ends (rest : List Char) : Prop := Stops (fun c => isNameChar c || isWordChar c) rest

theorem Ends.stops_name (h : Ends rest) : Stops isNameChar rest := by
  intro c hc
  have := h c hc
  rw [Bool.or_eq_false_iff] at this
  exact this.1

theorem Ends.stops_word (h : Ends rest) : Stops isWordChar rest := by
  intro c hc
  have := h c hc
  rw [Bool.or_eq_false_iff] at this
  exact this.2

theorem ends_of_char (h : (isNameChar c || isWordChar c) = false) : Ends (c :: cs) := by
  intro d hd
  cases hd
  exact h

/-- How a text is written between quotes. -/
def quotation (text : String) : List Char := '\x27' :: (text.toList.flatMap quotedChar ++ ['\x27'])

/-- `Scannable s cs value`: the characters `cs` are scanned as a token of the kind `s` with that
value. -/
inductive Scannable : Symbol → List Char → String → Prop
  | assign : Scannable .assign [':', ':', '='] "::="
  | sign {s : Symbol} {c : Char} : Symbol.ofChar? c = some s → Scannable s [c] (String.ofList [c])
  | name {name : String} : isName name = true → Scannable .ident name.toList name
  | plain {text : String} : isPlain text = true → Scannable .word text.toList text
  | quoted (text : String) : Scannable .quoted (quotation text) text

/-- `Quotes body text`: between quotes `body` stands for `text`. -/
inductive Quotes : List Char → List Char → Prop
  | nil : Quotes [] []
  | plain {c : Char} {body text : List Char} :
      isQuote c = false → c ≠ '\\' → Quotes body text → Quotes (c :: body) (c :: text)
  | escaped (c : Char) {body text : List Char} :
      Quotes body text → Quotes ('\\' :: c :: body) (c :: text)

/-- **The closing quote ends a quotation**, whatever comes next. -/
theorem quotedText_of_quotes {body text : List Char} (h : Quotes body text) {s : Text.Source}
    (hs : s.chars = body ++ '\x27' :: rest) :
    ∃ taken after, quotedText s = (taken, some (text, after)) ∧ after.chars = rest := by
  induction h generalizing s with
  | nil =>
    obtain ⟨g, after, rfl, hg, hafter⟩ := List.map_eq_cons_iff.mp hs
    exact ⟨[g], after, by rw [quotedText.eq_def]; simp [hg, isQuote], hafter⟩
  | @plain c body text hquote hescape _ ih =>
    obtain ⟨g, s', rfl, hg, hs'⟩ := List.map_eq_cons_iff.mp hs
    obtain ⟨taken, after, htext, hafter⟩ := ih hs'
    refine ⟨g :: taken, after, ?_, hafter⟩
    rw [quotedText.eq_def]
    simp [htext, hg, hquote, hescape]
  | @escaped c body text _ ih =>
    obtain ⟨g, s', rfl, hg, hs'⟩ := List.map_eq_cons_iff.mp hs
    obtain ⟨escaped, s'', rfl, hescaped, hs''⟩ := List.map_eq_cons_iff.mp hs'
    obtain ⟨taken, after, htext, hafter⟩ := ih hs''
    refine ⟨g :: escaped :: taken, after, ?_, hafter⟩
    rw [quotedText, hg]
    simp only [htext, hescaped, Option.map_some]
    rfl

/-- **Any text can be written between quotes**, quotes and backslashes in it included. -/
theorem quotes_quotedChars (cs : List Char) : Quotes (cs.flatMap quotedChar) cs := by
  induction cs with
  | nil => exact .nil
  | cons c cs ih =>
    rw [List.flatMap_cons]
    by_cases hc : c = '\x27' ∨ c = '\\'
    · have hquoted : quotedChar c = ['\\', c] := by
        rcases hc with rfl | rfl
        · rfl
        · rfl
      rw [hquoted]
      exact .escaped c ih
    · rw [not_or] at hc
      have hquoted : quotedChar c = [c] := by simp [quotedChar, hc]
      rw [hquoted]
      exact .plain (by simp [isQuote, hc.1]) hc.2 ih

theorem scanQuoted_quotation {text : String} (h : r.chars = quotation text ++ rest) :
    ∃ r', scanQuoted r = (.ok ⟨Symbol.quoted.kind, text, r.pos⟩, r') ∧ r'.chars = rest := by
  simp only [quotation, List.cons_append, List.append_assoc, List.nil_append] at h
  obtain ⟨taken, after, htext, hafter⟩ :=
    quotedText_of_quotes (quotes_quotedChars text.toList) (Reader.chars_advance h)
  refine ⟨⟨after, Reader.positionAfter r.advance.pos taken⟩, ?_, hafter⟩
  simp only [scanQuoted, htext, String.ofList_toList]

/-- A run of accepted characters is one token. -/
theorem scanRun_all {s : Symbol} {p : Char → Bool} {text : String}
    (hall : ∀ c ∈ text.toList, p c = true)
    (h : r.chars = text.toList ++ rest) (hstop : Stops p rest) :
    ∃ r', scanRun s p r = (.ok ⟨s.kind, text, r.pos⟩, r') ∧ r'.chars = rest := by
  obtain ⟨r', htake, hr'⟩ := r.takeWhile_append h hall hstop
  exact ⟨r', by simp only [scanRun, htake, String.ofList_toList], hr'⟩

/-- Letters are no signs, quotes, colons or blanks. -/
theorem letter_char (h : Text.isLetter c = true) :
    c ≠ ':' ∧ Symbol.ofChar? c = none ∧ isQuote c = false ∧ Text.isBlank c = false := by
  have hne : ∀ d, Text.isLetter d = false → c ≠ d := by
    rintro d hd rfl
    rw [h] at hd
    cases hd
  have hbar := hne '|' (by decide +kernel)
  have hless := hne '<' (by decide +kernel)
  have hgreater := hne '>' (by decide +kernel)
  refine ⟨hne ':' (by decide +kernel), ?_, ?_, ?_⟩
  · unfold Symbol.ofChar?
    split
    · exact absurd rfl hbar
    · exact absurd rfl hless
    · exact absurd rfl hgreater
    · rfl
  · rw [isQuote, beq_eq_false_iff_ne]
    exact hne '\x27' (by decide +kernel)
  · simp [Text.isBlank, hne ' ' (by decide +kernel), hne '\t' (by decide +kernel),
      hne '\r' (by decide +kernel), hne '\n' (by decide +kernel)]

/-- Nor are the characters of words. -/
theorem word_char (h : isWordChar c = true) :
    c ≠ ':' ∧ Symbol.ofChar? c = none ∧ isQuote c = false ∧ Text.isBlank c = false := by
  simp only [isWordChar, Bool.and_eq_true, Bool.not_eq_true', Bool.or_eq_false_iff, bne_iff_ne,
    Option.isNone_iff_eq_none] at h
  obtain ⟨⟨⟨hblank, hsign⟩, hcolon⟩, hquote⟩ := h
  exact ⟨hcolon, hsign, hquote, hblank.1.1⟩

theorem sign_char {s : Symbol} (h : Symbol.ofChar? c = some s) :
    c ≠ ':' ∧ Text.isBlank c = false ∧ s ≠ .ident ∧ s ≠ .word := by
  unfold Symbol.ofChar? at h
  split at h <;> cases h <;> decide

/-- **A scannable text is one token**, when what follows can not go on with it. -/
theorem scanToken_scannable {s : Symbol} {value : String} (hcs : Scannable s cs value)
    (h : r.chars = cs ++ rest) (hend : s = .ident ∨ s = .word → Ends rest) :
    ∃ r', scanToken r = (.ok ⟨s.kind, value, r.pos⟩, r') ∧ r'.chars = rest := by
  cases hcs with
  | assign =>
    obtain ⟨r', hscan, hr'⟩ := scanExactly_append h
    refine ⟨r', ?_, hr'⟩
    simp only [scanToken, Reader.peek_cons h, beq_self_eq_true, ↓reduceIte, scanAssign, hscan]
  | @sign s c hs =>
    refine ⟨r.advance, ?_, Reader.chars_advance h⟩
    have hcolon : (c == ':') = false := beq_eq_false_iff_ne.mpr (sign_char hs).1
    simp only [scanToken, Reader.peek_cons h, hcolon, hs, Bool.false_eq_true, ↓reduceIte]
  | name hname =>
    obtain ⟨c, cs', hlist, hc, hcs'⟩ := isName_iff.mp hname
    obtain ⟨hcolon, hsign, hquote, -⟩ := letter_char hc
    have hall : ∀ d ∈ value.toList, isNameChar d = true := by
      rw [hlist]
      intro d hd
      rcases List.mem_cons.mp hd with rfl | hd
      · simp [isNameChar, hc]
      · exact hcs' d hd
    obtain ⟨r', hscan, hr'⟩ := scanRun_all (s := .ident) hall h (hend (.inl rfl)).stops_name
    refine ⟨r', ?_, hr'⟩
    rw [hlist] at h
    simp only [scanToken, Reader.peek_cons h, beq_eq_false_iff_ne.mpr hcolon, hsign, hquote, hc,
      Bool.false_eq_true, ↓reduceIte, hscan]
  | plain hplain =>
    obtain ⟨c, cs', hlist, hletter, hcs'⟩ := isPlain_iff.mp hplain
    have hc := hcs' c (by simp)
    obtain ⟨hcolon, hsign, hquote, -⟩ := word_char hc
    rw [← hlist] at hcs'
    obtain ⟨r', hscan, hr'⟩ := scanRun_all (s := .word) hcs' h (hend (.inr rfl)).stops_word
    refine ⟨r', ?_, hr'⟩
    rw [hlist] at h
    simp only [scanToken, Reader.peek_cons h, beq_eq_false_iff_ne.mpr hcolon, hsign, hquote,
      hletter, hc, Bool.false_eq_true, ↓reduceIte, hscan]
  | quoted text =>
    obtain ⟨r', hscan, hr'⟩ := scanQuoted_quotation h
    refine ⟨r', ?_, hr'⟩
    rw [← hscan]
    simp only [scanToken, Reader.peek_cons h]
    rfl

theorem Scannable.exists_head {s : Symbol} {value : String} (hcs : Scannable s cs value) :
    ∃ c cs', cs = c :: cs' ∧ Text.isBlank c = false := by
  cases hcs with
  | assign => exact ⟨':', _, rfl, rfl⟩
  | @sign s c hs => exact ⟨c, [], rfl, (sign_char hs).2.1⟩
  | name hname =>
    obtain ⟨c, cs', hlist, hc, -⟩ := isName_iff.mp hname
    exact ⟨c, cs', hlist, (letter_char hc).2.2.2⟩
  | plain hplain =>
    obtain ⟨c, cs', hlist, -, hcs'⟩ := isPlain_iff.mp hplain
    exact ⟨c, cs', hlist, (word_char (hcs' c (by simp))).2.2.2⟩
  | quoted text => exact ⟨'\x27', _, rfl, rfl⟩

/-- A scannable text with blanks in front of it is scanned as a token. -/
theorem scans_token {s : Symbol} {blanks : List Char} {value : String} (hcs : Scannable s cs value)
    (hblank : ∀ c ∈ blanks, Text.isBlank c = true) (h : r.chars = blanks ++ (cs ++ rest))
    (hend : s = .ident ∨ s = .word → Ends rest) :
    ∃ t r', Feed.Scans scan r [t] r' ∧ t.kind = s.kind ∧ t.value = value ∧ r'.chars = rest := by
  obtain ⟨c, cs', rfl, hc⟩ := hcs.exists_head
  obtain ⟨t, r', hscans, ⟨hkind, hvalue⟩, hr'⟩ :=
    Feed.scans_after_blanks (P := fun t => t.kind = s.kind ∧ t.value = value)
      advances_scan (fun _ => rfl) hblank h hc fun r hr => by
        obtain ⟨r', hscan, hr'⟩ := scanToken_scannable hcs hr hend
        exact ⟨_, r', hscan, not_eof_of_kind rfl, ⟨rfl, rfl⟩, hr'⟩
  exact ⟨t, r', hscans, hkind, hvalue, hr'⟩

/-- Before the end of a text there may be blanks. -/
theorem untilEnd_of_blanks (h : ∀ c ∈ r.chars, Text.isBlank c = true) :
    ∃ e, e.isEOF = true ∧ (Feed.ofScanner scan r).untilEnd = ([], .ok e) :=
  Feed.untilEnd_of_blanks (fun _ => rfl) (fun r hr => by simp only [scanToken, hr]) h

end Formulary.Rules
