import Formulary.Proofs.Rules.Lexing
import Formulary.Proofs.Exactness

/-!
# What the tokens of grammars are made of

The text of a token is what stands in the grammar at its place.  A quoted text is the exception: the
quotes around it and the backslashes that take the character behind them as it is do not belong to
it (`Quotes`).  An error names the character at which the scanner stops, but for a quotation that
is not ended: there it names the opening quote, and everything up to the end is passed. -/

namespace Formulary.Rules

open Text (Source)

/-- The token is made of the characters: they are its text, with quotes around it if it is of the
quoted kind. -/
def Lexeme (t : Token) (lexeme : Source) : Prop :=
  ∃ s : Symbol, t.kind = s.kind ∧
    if s = .quoted then
      ∃ body, lexeme.chars = '\x27' :: (body ++ ['\x27']) ∧ Quotes body t.value.toList
    else lexeme.chars = t.value.toList

variable {r r' : Reader} {c : Char} {cs : List Char}

/-- **Characters that are passed make up a token** of any kind but the quoted one. -/
theorem taken_of_reads (h : r.Reads cs r') (hcs : cs ≠ []) {s : Symbol} (hs : s ≠ .quoted) :
    Taken Lexeme r (.ok ⟨s.kind, String.ofList cs, r.pos⟩, r') := by
  obtain ⟨lexeme, hgoes, rfl⟩ := h
  refine .token hgoes ?_ (not_eof_of_kind rfl) rfl ⟨s, rfl, ?_⟩
  · rintro rfl
    exact hcs rfl
  · rw [if_neg hs, String.toList_ofList]

/-- An error at the place where the scanner stops. -/
theorem taken_invalid (h : r.Reads cs r') (hr : r.rest ≠ []) (cause : String) :
    Taken Lexeme r (.error (r'.invalid cause), r') := by
  obtain ⟨passed, hgoes, -⟩ := h
  obtain ⟨e, heq, hpos⟩ := r'.exists_invalid cause
  rw [heq]
  exact .error hgoes (.refl r') hpos hr

/-! ## 1. Assignments and runs -/

/-- The characters asked for are passed, as far as they are there. -/
theorem scanExactly_reads (cs : List Char) (r : Reader) :
    (∃ r', scanExactly cs r = (.ok (), r') ∧ r.Reads cs r') ∨
      ∃ r' passed, scanExactly cs r = (.error (r'.invalid "expected ::="), r') ∧
        r.Reads passed r' := by
  induction cs generalizing r with
  | nil => exact .inl ⟨r, rfl, .refl r⟩
  | cons c cs ih =>
    rw [scanExactly]
    split
    next hc =>
      have hpassed : r.Reads [c] r.advance := .advance_sees hc
      rcases ih r.advance with ⟨r', heq, hreads⟩ | ⟨r', passed, heq, hreads⟩
      · exact .inl ⟨r', heq, hpassed.trans hreads⟩
      · exact .inr ⟨r', _, heq, hpassed.trans hreads⟩
    next => exact .inr ⟨r, [], rfl, .refl r⟩

theorem scanAssign_taken (hr : r.rest ≠ []) : Taken Lexeme r (scanAssign r) := by
  rw [scanAssign]
  rcases scanExactly_reads [':', ':', '='] r with ⟨r', heq, hreads⟩ | ⟨r', passed, heq, hreads⟩
  · rw [heq]
    exact taken_of_reads hreads (by simp) (s := .assign) (by simp)
  · rw [heq]
    exact taken_invalid hreads hr _

theorem scanRun_taken (h : r.chars = c :: cs) {p : Char → Bool} (hc : p c = true) {s : Symbol}
    (hs : s ≠ .quoted) : Taken Lexeme r (scanRun s p r) := by
  obtain ⟨hfst, -⟩ := Reader.takeWhile_cons h hc
  exact taken_of_reads (.takeWhile r p) (by simp [hfst]) hs

/-! ## 2. Quotations -/

/-- **What is taken of a quotation is its body and the closing quote**, or all there is when that is
missing. -/
theorem quotedText_taken (s : Source) :
    (∃ taken cs after body, quotedText s = (taken, some (cs, after)) ∧ s = taken ++ after ∧
      taken.chars = body ++ ['\x27'] ∧ Quotes body cs) ∨ quotedText s = (s, none) := by
  fun_induction quotedText s with
  | case1 => exact .inr rfl
  | case2 g rest hquote =>
    refine .inl ⟨[g], [], rest, [], rfl, rfl, ?_, .nil⟩
    rw [Source.chars, List.map_singleton, eq_of_beq hquote]
    rfl
  | case3 => exact .inr rfl
  | case4 g hquote hescape escaped rest taken result heq ih =>
    rcases ih with ⟨taken', cs, after, body, heq', rfl, hchars, hquotes⟩ | heq'
    · obtain ⟨rfl, rfl⟩ := Prod.mk.inj (heq.symm.trans heq')
      refine .inl ⟨_, _, _, '\\' :: escaped.char :: body, rfl, rfl, ?_, .escaped _ hquotes⟩
      rw [Source.chars, List.map_cons, List.map_cons, eq_of_beq hescape, ← Source.chars, hchars]
      rfl
    · obtain ⟨rfl, rfl⟩ := Prod.mk.inj (heq.symm.trans heq')
      exact .inr rfl
  | case5 g rest hquote hescape taken result heq ih =>
    rcases ih with ⟨taken', cs, after, body, heq', rfl, hchars, hquotes⟩ | heq'
    · obtain ⟨rfl, rfl⟩ := Prod.mk.inj (heq.symm.trans heq')
      refine .inl ⟨_, _, _, g.char :: body, rfl, rfl, ?_,
        .plain (by simpa using hquote) (by simpa using hescape) hquotes⟩
      rw [Source.chars, List.map_cons, ← Source.chars, hchars]
      rfl
    · obtain ⟨rfl, rfl⟩ := Prod.mk.inj (heq.symm.trans heq')
      exact .inr rfl

theorem scanQuoted_taken (h : r.chars = c :: cs) (hc : isQuote c = true) :
    Taken Lexeme r (scanQuoted r) := by
  obtain ⟨g, rest, hrest, hg⟩ : ∃ g rest, r.rest = g :: rest ∧ g.char = c := by
    obtain ⟨g, rest, hrest, hg, -⟩ := List.map_eq_cons_iff.mp h
    exact ⟨g, rest, hrest, hg⟩
  have hopening : r.Goes [g] r.advance := .advance hrest
  have hquote : g.char = '\x27' := hg.trans (eq_of_beq hc)
  simp only [scanQuoted]
  rcases quotedText_taken r.advance.rest with
    ⟨taken, text, after, body, heq, hafter, hchars, hquotes⟩ | heq
  · rw [heq]
    have hgoes : r.advance.Goes taken ⟨after, Reader.positionAfter r.advance.pos taken⟩ :=
      ⟨hafter, rfl⟩
    refine .token (hopening.trans hgoes) (by simp) (not_eof_of_kind rfl) rfl
      ⟨.quoted, rfl, ?_⟩
    rw [if_pos rfl, String.toList_ofList]
    refine ⟨body, ?_, hquotes⟩
    rw [List.singleton_append, Source.chars, List.map_cons, hquote, ← Source.chars, hchars]
  · rw [heq]
    have hgoes : r.advance.Goes r.advance.rest
        ⟨[], Reader.positionAfter r.advance.pos r.advance.rest⟩ := ⟨by simp, rfl⟩
    exact .error (.refl r) (hopening.trans hgoes) rfl (by simp [hrest])

/-! ## 3. Whole scans -/

/-- **A token is made of what stands at its place.** -/
theorem scanToken_taken (r : Reader) : Taken Lexeme r (scanToken r) := by
  unfold scanToken
  split
  next hpeek => exact .eof (by simpa [Reader.peek] using hpeek)
  next c hpeek =>
    obtain ⟨cs, h⟩ := Reader.exists_chars_of_peek hpeek
    have hrest : r.rest ≠ [] := Reader.rest_ne_nil h
    split
    · exact scanAssign_taken hrest
    split
    next s hs =>
      have hreads := Reader.Reads.advance r
      rw [hpeek] at hreads
      refine taken_of_reads hreads (by simp) ?_
      rintro rfl
      unfold Symbol.ofChar? at hs
      split at hs <;> cases hs
    split
    next hquote => exact scanQuoted_taken h hquote
    split
    next hletter => exact scanRun_taken h (by simp [isNameChar, hletter]) (by simp)
    split
    next hword => exact scanRun_taken h hword (by simp)
    next => exact taken_invalid (.refl r) hrest _

theorem scan_scanned (r : Reader) : Scanned Lexeme r (scan r) := (scanToken_taken _).scanned

/-- **The positions of grammars are exact**, and a token is made of the characters at its place. -/
theorem feed_exact (bytes : List Nat) :
    ∃ offset, Feed.Exact (fun t lexeme => Lexeme t (Source.ofBytes lexeme)) bytes
      (feed (Source.ofBytes bytes)) offset :=
  Feed.exact_of_scanned scan_scanned (fun _ _ h => h) bytes

end Formulary.Rules
