import Formulary.Proofs.Arith.Lexing
import Formulary.Proofs.Exactness

/-!
# What the tokens of formulas are made of

The text of a token is what stands in the formula at its place, character by character, and all of
it is ASCII.  An error names the character that it is about, which is the one at which the scanner
stops; the point that is no number is the one exception, for the scanner has passed it then
(`scanToken_taken`). -/

namespace Formulary.Arith

open Text (Source)

/-- The text of the token is that of the characters, and is ASCII. -/
def Lexeme (t : Token) (lexeme : Source) : Prop :=
  t.value = String.ofList lexeme.chars ∧ ∀ c ∈ lexeme.chars, c.toNat < 0x80

variable {r r' : Reader} {c : Char} {cs : List Char}

/-! ## 1. Characters of ASCII -/

theorem ascii_of_isDigit (h : isDigit c = true) : c.toNat < 0x80 := by
  simp only [isDigit, Bool.and_eq_true, decide_eq_true_eq, Char.le_def] at h
  exact Nat.lt_of_le_of_lt (UInt32.le_iff_toNat_le.mp h.2) (by decide)

theorem ascii_of_isLetter (h : isLetter c = true) : c.toNat < 0x80 := by
  simp only [isLetter, Bool.or_eq_true, Bool.and_eq_true, decide_eq_true_eq, beq_iff_eq,
    Char.le_def] at h
  rcases h with (h | h) | rfl
  · exact Nat.lt_of_le_of_lt (UInt32.le_iff_toNat_le.mp h.2) (by decide)
  · exact Nat.lt_of_le_of_lt (UInt32.le_iff_toNat_le.mp h.2) (by decide)
  · decide

theorem ascii_of_isIdentChar (h : isIdentChar c = true) : c.toNat < 0x80 := by
  rw [isIdentChar, Bool.or_eq_true] at h
  exact h.elim ascii_of_isLetter ascii_of_isDigit

theorem ascii_of_sign {s : Symbol} (h : Symbol.ofChar? c = some s) : c.toNat < 0x80 := by
  unfold Symbol.ofChar? at h
  split at h <;> first | decide | cases h

/-- Characters that are there are passed, and they are ASCII. -/
def Passes (r : Reader) (cs : List Char) (r' : Reader) : Prop :=
  r.Reads cs r' ∧ ∀ c ∈ cs, c.toNat < 0x80

namespace Passes

theorem trans {r₁ : Reader} {cs' : List Char} (h : Passes r cs r₁) (h' : Passes r₁ cs' r') :
    Passes r (cs ++ cs') r' := by
  refine ⟨h.1.trans h'.1, fun c hc => ?_⟩
  exact (List.mem_append.mp hc).elim (h.2 c) (h'.2 c)

theorem takeWhile (r : Reader) {p : Char → Bool} (hp : ∀ c, p c = true → c.toNat < 0x80) :
    Passes r (r.takeWhile p).1 (r.takeWhile p).2 := by
  refine ⟨.takeWhile r p, fun c hc => hp c ?_⟩
  rw [Reader.takeWhile_fst] at hc
  exact List.all_eq_true.mp List.all_takeWhile c hc

/-- The next character, if it is one that `p` accepts. -/
theorem advance {p : Char → Bool} (h : r.sees p = true) (hp : ∀ c, p c = true → c.toNat < 0x80) :
    Passes r r.peek.toList r.advance := by
  refine ⟨.advance r, fun c hc => hp c ?_⟩
  obtain ⟨d, hpeek, hd⟩ := (Option.any_eq_true ..).mp h
  rw [hpeek] at hc
  obtain rfl := List.mem_singleton.mp hc
  exact hd

/-- **Characters that are passed make up a token.** -/
theorem taken (h : Passes r cs r') (hcs : cs ≠ []) (s : Symbol) :
    Taken Lexeme r (.ok ⟨s.kind, String.ofList cs, r.pos⟩, r') := by
  obtain ⟨⟨lexeme, hgoes, rfl⟩, hascii⟩ := h
  refine .token hgoes ?_ (not_eof_of_kind rfl) rfl ⟨rfl, hascii⟩
  rintro rfl
  exact hcs rfl

end Passes

/-! ## 2. Numbers and names -/

theorem scanMantissa_passes (r : Reader) : Passes r (scanMantissa r).1 (scanMantissa r).2 := by
  have hwhole : Passes r (r.takeWhile isDigit).1 (r.takeWhile isDigit).2 :=
    .takeWhile r fun _ => ascii_of_isDigit
  simp only [scanMantissa]
  split
  next hpoint =>
    have hpassed : Passes (r.takeWhile isDigit).2 ['.'] (r.takeWhile isDigit).2.advance := by
      refine ⟨.advance_sees hpoint, fun c hc => ?_⟩
      rw [List.mem_singleton.mp hc]
      decide
    exact hwhole.trans (hpassed.trans (.takeWhile _ fun _ => ascii_of_isDigit))
  next => exact hwhole

/-- The sign of an exponent, if there is one. -/
theorem sign_passes (r : Reader) :
    Passes r
      (if r.sees fun c => c == '-' || c == '+' then (r.peek.toList, r.advance) else ([], r)).1
      (if r.sees fun c => c == '-' || c == '+' then (r.peek.toList, r.advance) else ([], r)).2 := by
  split
  next hsign =>
    refine .advance hsign fun c hc => ?_
    rw [Bool.or_eq_true, beq_iff_eq, beq_iff_eq] at hc
    rcases hc with rfl | rfl <;> decide
  next => exact ⟨.refl r, by simp⟩

/-- An exponent is passed, or its digits are missing where the scanner stops. -/
theorem scanExponent_passes (hmark : r.sees (fun c => c == 'e' || c == 'E') = true) :
    (∀ cs r', scanExponent r = (.ok cs, r') → Passes r cs r') ∧
      ∀ e r', scanExponent r = (.error e, r') →
        ∃ passed e', Passes r passed r' ∧ e = .unreadable e' ∧ e'.pos = r'.pos := by
  have hpassed : Passes r r.peek.toList r.advance := by
    refine .advance hmark fun c hc => ?_
    rw [Bool.or_eq_true, beq_iff_eq, beq_iff_eq] at hc
    rcases hc with rfl | rfl <;> decide
  have hsign := hpassed.trans (sign_passes r.advance)
  simp only [scanExponent]
  generalize (if r.advance.sees fun c => c == '-' || c == '+' then
    (r.advance.peek.toList, r.advance.advance) else ([], r.advance)) = signed at hsign ⊢
  split
  · refine ⟨?_, by rintro _ _ ⟨⟩⟩
    rintro _ _ ⟨⟩
    exact hsign.trans (.takeWhile _ fun _ => ascii_of_isDigit)
  · refine ⟨by rintro _ _ ⟨⟩, ?_⟩
    rintro _ _ ⟨⟩
    obtain ⟨e', heq, hpos⟩ := signed.2.exists_invalid "missing exponent"
    exact ⟨_, e', hsign, heq, hpos⟩

theorem scanNumber_taken (h : r.chars = c :: cs) (hc : isDigit c = true ∨ c = '.') :
    Taken Lexeme r (scanNumber r) := by
  have hmantissa := scanMantissa_passes r
  have hne := scanMantissa_ne_nil h hc
  have hrest : r.rest ≠ [] := Reader.rest_ne_nil h
  simp only [scanNumber]
  split
  · -- a point alone: the error names its place, which is passed
    obtain ⟨⟨taken, hgoes, -⟩, -⟩ := hmantissa
    exact .error (.refl r) hgoes rfl hrest
  split
  next hmark =>
    obtain ⟨hok, herror⟩ := scanExponent_passes hmark
    split
    next exponent after heq =>
      exact (hmantissa.trans (hok _ _ heq)).taken (by simp [hne]) .number
    next e after heq =>
      obtain ⟨passed, e', hpassed, rfl, hpos⟩ := herror _ _ heq
      obtain ⟨⟨taken, hgoes, -⟩, -⟩ := hmantissa.trans hpassed
      exact .error hgoes (.refl after) hpos hrest
  next => exact hmantissa.taken hne .number

theorem scanIdent_taken (h : r.chars = c :: cs) (hc : isLetter c = true) :
    Taken Lexeme r (scanIdent r) := by
  obtain ⟨hfst, -⟩ := Reader.takeWhile_cons (p := isIdentChar) h (by simp [isIdentChar, hc])
  have hpasses : Passes r (r.takeWhile isIdentChar).1 (r.takeWhile isIdentChar).2 :=
    .takeWhile r fun _ => ascii_of_isIdentChar
  exact hpasses.taken (by simp [hfst]) .ident

/-! ## 3. Whole scans -/

/-- **A token is made of what stands at its place.** -/
theorem scanToken_taken (r : Reader) : Taken Lexeme r (scanToken r) := by
  unfold scanToken
  split
  next hpeek => exact .eof (by simpa [Reader.peek] using hpeek)
  next c hpeek =>
    obtain ⟨cs, h⟩ := Reader.exists_chars_of_peek hpeek
    split
    next hc =>
      rw [Bool.or_eq_true, beq_iff_eq] at hc
      exact scanNumber_taken h hc
    split
    next hc => exact scanIdent_taken h hc
    split
    next s hs =>
      have hpasses : Passes r [c] r.advance := by
        have hreads := Reader.Reads.advance r
        rw [hpeek] at hreads
        exact ⟨hreads, by simpa using ascii_of_sign hs⟩
      exact hpasses.taken (by simp) s
    next =>
      obtain ⟨e, heq, hpos⟩ := r.exists_invalid "invalid character"
      rw [heq]
      exact .error (.refl r) (.refl r) hpos (Reader.rest_ne_nil h)

theorem scan_scanned (r : Reader) : Scanned Lexeme r (scan r) := (scanToken_taken _).scanned

/-- The bytes of a text, as it is kept in UTF-8. -/
def bytesOf (text : String) : List Nat := text.toByteArray.data.toList.map (·.toNat)

theorem bytesOf_ascii (h : ∀ c ∈ cs, c.toNat < 0x80) :
    bytesOf (String.ofList cs) = cs.map (·.toNat) := by
  rw [bytesOf, String.toByteArray_ofList, List.utf8Encode, List.data_toByteArray]
  induction cs with
  | nil => rfl
  | cons c cs ih =>
    have hc : c.toNat < 0x80 := h c List.mem_cons_self
    have hbyte : String.utf8EncodeChar c = [UInt8.ofNat c.toNat] := if_pos (Nat.le_of_lt_succ hc)
    rw [List.flatMap_cons, List.map_append, ih fun d hd => h d (List.mem_cons_of_mem c hd), hbyte]
    have hcode : (UInt8.ofNat c.toNat).toNat = c.toNat := by
      rw [UInt8.toNat_ofNat']
      exact Nat.mod_eq_of_lt (by omega)
    simp [hcode]

/-- **The positions of formulas are exact**, and the bytes of a token stand at its place. -/
theorem feed_exact (bytes : List Nat) :
    ∃ offset, Feed.Exact (fun t lexeme => bytesOf t.value = lexeme) bytes
      (feed (Source.ofBytes bytes)) offset := by
  refine Feed.exact_of_scanned scan_scanned (fun t lexeme h => ?_) bytes
  obtain ⟨hvalue, hascii⟩ := h
  rw [hvalue, bytesOf_ascii hascii]
  refine (Source.bytes_of_ascii rfl fun g hg => ?_).symm
  exact hascii g.char (List.mem_map_of_mem hg)

end Formulary.Arith
