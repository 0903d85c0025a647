import Formulary.Proofs.Scanning
import Formulary.Proofs.Text.Decoding

/-!
# Exact positions

A reader carries a position along and changes it by one character at a time.  This module says that
the position is at all times the one that the bytes give: the offset, the lines that end before it,
and the characters behind the last of them (`positionAt`).

A scanner is asked again and again, also after it has failed.  `Scanned` is what one answer may be,
in terms of the characters that are passed; `Called` says the same of the bytes; and `Feed.Exact`
says of all answers what follows from that (`exact_of_scanned`).  Which texts make up the tokens is
left open here. -/

namespace Formulary

open Text (Source isBlank)
open Text.Source (ofBytes ofBytes_cut lastLine size isNewline)

/-! ## 1. Places among bytes -/

/-- The position behind the first `o` bytes: their number, the lines that end in them, and the
characters on the line after those. -/
def positionAt (bytes : List Nat) (o : Nat) : Position :=
  ⟨o, 1 + (bytes.take o).count 10, 1 + (ofBytes (lastLine (bytes.take o))).length⟩

/-- Behind `a`, a new line and a letter of two bytes. -/
example : positionAt [0x61, 0x0a, 0xc3, 0xa9, 0x2b] 4 = ⟨4, 2, 2⟩ := by decide

/-- No character lies around the place. -/
def IsBoundary (bytes : List Nat) (o : Nat) : Prop :=
  ∃ s s' : Source, ofBytes bytes = s ++ s' ∧ size s = o

/-- The `n` bytes from a place on. -/
def slice (bytes : List Nat) (o n : Nat) : List Nat := (bytes.drop o).take n

namespace Reader

theorem positionAfter_append (p : Position) (s s' : Source) :
    positionAfter p (s ++ s') = positionAfter (positionAfter p s) s' := by
  rw [positionAfter, List.foldl_append]
  rfl

/-- **A position counts** the bytes, the lines and the characters of the last line. -/
theorem positionAfter_start (s : Source) : positionAfter .start s
    = ⟨size s, 1 + s.countP isNewline, 1 + (s.rtakeWhile (!isNewline ·)).length⟩ := by
  induction s using List.reverseRecOn with
  | nil => rfl
  | append_singleton s g ih =>
    rw [positionAfter_append, ih, positionAfter, List.foldl_cons, List.foldl_nil]
    by_cases hg : g.char = '\n'
    · have hnew : isNewline g = true := by simp [isNewline, hg]
      rw [List.rtakeWhile_concat_neg _ _ _ (by simp [hnew])]
      simp [Position.advance, hg, hnew]
      omega
    · have hnew : isNewline g = false := by simp [isNewline, hg]
      rw [List.rtakeWhile_concat_pos _ _ _ (by simp [hnew])]
      simp [Position.advance, hg, hnew]
      omega

/-- `r.Goes taken r'`: the reader has passed the characters `taken`, and is `r'` now. -/
structure Goes (r : Reader) (taken : Source) (r' : Reader) : Prop where
  rest : r.rest = taken ++ r'.rest
  pos : r'.pos = positionAfter r.pos taken

namespace Goes

variable {r r₁ r₂ : Reader} {s s' : Source}

theorem refl (r : Reader) : r.Goes [] r := ⟨rfl, rfl⟩

theorem trans (h : r.Goes s r₁) (h' : r₁.Goes s' r₂) : r.Goes (s ++ s') r₂ where
  rest := by rw [h.rest, h'.rest, List.append_assoc]
  pos := by rw [h'.pos, h.pos, positionAfter_append]

/-- Who passes nothing stays. -/
theorem eq_of_nil (h : r.Goes [] r₁) : r₁ = r := by
  obtain ⟨rest, pos⟩ := r
  obtain ⟨rest₁, pos₁⟩ := r₁
  obtain rfl : rest = rest₁ := h.rest
  obtain rfl : pos₁ = pos := h.pos
  rfl

theorem takeWhile (r : Reader) (p : Char → Bool) :
    r.Goes (r.rest.takeWhile (p ·.char)) (r.takeWhile p).2 :=
  ⟨List.takeWhile_append_dropWhile.symm, rfl⟩

theorem advance {g : Text.Glyph} {rest : Source} (h : r.rest = g :: rest) :
    r.Goes [g] r.advance := by
  rw [Reader.advance, h]
  exact ⟨h, rfl⟩

end Goes

/-- `r.Reads cs r'`: the reader has passed the characters `cs`, whatever bytes they were made of. -/
def Reads (r : Reader) (cs : List Char) (r' : Reader) : Prop :=
  ∃ taken, r.Goes taken r' ∧ taken.chars = cs

namespace Reads

variable {r r₁ r₂ : Reader} {cs cs' : List Char}

theorem refl (r : Reader) : r.Reads [] r := ⟨[], .refl r, rfl⟩

theorem trans (h : r.Reads cs r₁) (h' : r₁.Reads cs' r₂) : r.Reads (cs ++ cs') r₂ := by
  obtain ⟨taken, hgoes, rfl⟩ := h
  obtain ⟨taken', hgoes', rfl⟩ := h'
  exact ⟨taken ++ taken', hgoes.trans hgoes', List.map_append⟩

theorem takeWhile (r : Reader) (p : Char → Bool) :
    r.Reads (r.takeWhile p).1 (r.takeWhile p).2 :=
  ⟨_, .takeWhile r p, rfl⟩

/-- A move forward reads the next character, if there is one. -/
theorem advance (r : Reader) : r.Reads r.peek.toList r.advance := by
  cases hrest : r.rest with
  | nil =>
    rw [peek, Reader.advance, hrest]
    exact .refl r
  | cons g rest => exact ⟨[g], .advance hrest, by simp [peek, hrest, Source.chars]⟩

theorem advance_sees {c : Char} (h : r.sees (· == c) = true) : r.Reads [c] r.advance := by
  have hreads := advance r
  rw [sees, Option.any_eq_true] at h
  obtain ⟨d, hpeek, hd⟩ := h
  rw [hpeek, eq_of_beq hd] at hreads
  exact hreads

end Reads

/-- The failure names the position of the reader. -/
theorem exists_invalid (r : Reader) (cause : String) :
    ∃ e, r.invalid cause = .unreadable e ∧ e.pos = r.pos := by
  unfold invalid
  split <;> exact ⟨_, rfl, rfl⟩

/-- The reader stands behind the first `o` bytes. -/
def StandsAt (r : Reader) (bytes : List Nat) (o : Nat) : Prop :=
  ∃ s : Source, ofBytes bytes = s ++ r.rest ∧ r.pos = positionAfter .start s ∧ size s = o

namespace StandsAt

variable {r r' : Reader} {bytes : List Nat} {o : Nat} {s : Source}

theorem start (bytes : List Nat) : (ofSource (ofBytes bytes)).StandsAt bytes 0 :=
  ⟨[], rfl, rfl, rfl⟩

theorem boundary (h : r.StandsAt bytes o) : IsBoundary bytes o := by
  obtain ⟨s, hbytes, -, hsize⟩ := h
  exact ⟨s, _, hbytes, hsize⟩

/-- **The position of a reader is that of its place among the bytes.** -/
theorem pos (h : r.StandsAt bytes o) : r.pos = positionAt bytes o := by
  obtain ⟨s, hbytes, hpos, rfl⟩ := h
  obtain ⟨htake, -⟩ := ofBytes_cut hbytes
  rw [hpos, positionAfter_start, positionAt, Text.Source.count_newline,
    Text.Source.ofBytes_lastLine, htake]

theorem le_length (h : r.StandsAt bytes o) : o ≤ bytes.length := by
  obtain ⟨s, hbytes, -, rfl⟩ := h
  rw [← Text.Source.size_ofBytes, hbytes, Text.Source.size_append]
  exact Nat.le_add_right _ _

/-- What is still to be read are the bytes from there on. -/
theorem ofBytes_drop (h : r.StandsAt bytes o) : ofBytes (bytes.drop o) = r.rest := by
  obtain ⟨s, hbytes, -, rfl⟩ := h
  exact (ofBytes_cut hbytes).2

theorem goes (h : r.StandsAt bytes o) (hgoes : r.Goes s r') :
    r'.StandsAt bytes (o + size s) := by
  obtain ⟨s₀, hbytes, hpos, rfl⟩ := h
  refine ⟨s₀ ++ s, by rw [hbytes, hgoes.rest, List.append_assoc], ?_,
    Text.Source.size_append s₀ s⟩
  rw [hgoes.pos, hpos, positionAfter_append]

/-- **What a reader passes is what the bytes at its place say.** -/
theorem ofBytes_slice (h : r.StandsAt bytes o) (hgoes : r.Goes s r') :
    ofBytes (slice bytes o (size s)) = s := by
  obtain ⟨s₀, hbytes, -, rfl⟩ := h
  obtain ⟨-, hdrop⟩ := ofBytes_cut hbytes
  rw [hgoes.rest] at hdrop
  exact (ofBytes_cut hdrop).1

/-- At the end of the text all bytes are passed. -/
theorem eq_length (h : r.StandsAt bytes o) (hrest : r.rest = []) : o = bytes.length := by
  obtain ⟨s, hbytes, -, rfl⟩ := h
  rw [hrest, List.append_nil] at hbytes
  rw [← Text.Source.size_ofBytes, hbytes]

end StandsAt

/-- A reader stands at one place. -/
theorem StandsAt.unique {r : Reader} {bytes : List Nat} {o o' : Nat} (h : r.StandsAt bytes o)
    (h' : r.StandsAt bytes o') : o = o' := by
  obtain ⟨s, hbytes, -, rfl⟩ := h
  obtain ⟨s', hbytes', -, rfl⟩ := h'
  rw [List.append_cancel_right (hbytes.symm.trans hbytes')]

/-- The reader after `i` scans. -/
def after (scan : Reader → Step × Reader) : Reader → Nat → Reader
  | r, 0 => r
  | r, i + 1 => after scan (scan r).2 i

theorem after_succ (scan : Reader → Step × Reader) (r : Reader) (i : Nat) :
    r.after scan (i + 1) = (scan (r.after scan i)).2 := by
  induction i generalizing r with
  | zero => rfl
  | succ i ih => exact ih (scan r).2

end Reader

/-! ## 2. One answer -/

/-- The position that an answer of a scanner names. -/
def Step.position? : Step → Option Position
  | .ok t => some t.pos
  | .error (.unreadable e) => some e.pos
  | .error _ => none

/-- What a scan from `r` on may answer: behind blanks the end of the input, or a token that is made
of the characters passed; or, if not all is blank, an error at a place that was passed. -/
inductive Scanned (Spells : Token → Source → Prop) (r : Reader) : Step × Reader → Prop
  | eof {blanks : Source} {r₁ : Reader} :
      r.Goes blanks r₁ → (∀ g ∈ blanks, isBlank g.char = true) → r₁.rest = [] →
      Scanned Spells r (.ok (.eofAt r₁.pos), r₁)
  | token {blanks lexeme : Source} {r₁ r₂ : Reader} {t : Token} :
      r.Goes blanks r₁ → (∀ g ∈ blanks, isBlank g.char = true) → r₁.Goes lexeme r₂ →
      lexeme ≠ [] → t.isEOF = false → t.pos = r₁.pos → Spells t lexeme →
      Scanned Spells r (.ok t, r₂)
  | error {before behind : Source} {r₁ r₂ : Reader} {e : TokenizeError} :
      r.Goes before r₁ → r₁.Goes behind r₂ → e.pos = r₁.pos →
      (∃ g ∈ r.rest, isBlank g.char = false) → Scanned Spells r (.error (.unreadable e), r₂)

/-- What may be answered where no blank stands. -/
inductive Taken (Spells : Token → Source → Prop) (r : Reader) : Step × Reader → Prop
  | eof : r.rest = [] → Taken Spells r (.ok (.eofAt r.pos), r)
  | token {lexeme : Source} {r' : Reader} {t : Token} :
      r.Goes lexeme r' → lexeme ≠ [] → t.isEOF = false → t.pos = r.pos → Spells t lexeme →
      Taken Spells r (.ok t, r')
  | error {before behind : Source} {r₁ r' : Reader} {e : TokenizeError} :
      r.Goes before r₁ → r₁.Goes behind r' → e.pos = r₁.pos → r.rest ≠ [] →
      Taken Spells r (.error (.unreadable e), r')

/-- **Blanks in front do not matter.** -/
theorem Taken.scanned {Spells : Token → Source → Prop} {r : Reader} {outcome : Step × Reader}
    (h : Taken Spells (r.skipWhile isBlank) outcome) : Scanned Spells r outcome := by
  have hblanks : r.Goes (r.rest.takeWhile (isBlank ·.char)) (r.skipWhile isBlank) :=
    .takeWhile r isBlank
  have hall : ∀ g ∈ r.rest.takeWhile (isBlank ·.char), isBlank g.char = true := fun g hg =>
    List.all_eq_true.mp List.all_takeWhile g hg
  cases h with
  | eof hrest => exact .eof hblanks hall hrest
  | token hlexeme hne hopen hpos hspells =>
    exact .token hblanks hall hlexeme hne hopen hpos hspells
  | error hbefore hbehind hpos hne =>
    refine .error (hblanks.trans hbefore) hbehind hpos ?_
    have hdrop : r.rest.dropWhile (isBlank ·.char) ≠ [] := hne
    refine ⟨(r.rest.dropWhile (isBlank ·.char)).head hdrop, ?_, ?_⟩
    · exact (List.dropWhile_suffix _).subset (List.head_mem hdrop)
    · exact List.head_dropWhile_not (fun g : Text.Glyph => isBlank g.char) hdrop

/-- What an answer says of the bytes from `q` to `q'` that it was made of: it names the place `o`
among them; before a token stand blanks, and behind it nothing. -/
structure Called (Spells : Token → List Nat → Prop) (bytes : List Nat) (q : Nat) (answer : Step)
    (o q' : Nat) : Prop where
  boundary : IsBoundary bytes o
  position : answer.position? = some (positionAt bytes o)
  before : q ≤ o
  behind : o ≤ q'
  blank : ∀ t, answer = .ok t → ∀ b ∈ slice bytes q (o - q), b ∈ [9, 10, 13, 32]
  token : ∀ t, answer = .ok t → t.isEOF = false → o < q' ∧ Spells t (slice bytes o (q' - o))
  eof : ∀ t, answer = .ok t → t.isEOF = true →
    o = bytes.length ∧ t = .eofAt (positionAt bytes bytes.length)

namespace Scanned

variable {Spells : Token → Source → Prop} {r r' : Reader} {answer : Step}

theorem exists_goes (h : Scanned Spells r (answer, r')) : ∃ taken, r.Goes taken r' := by
  cases h with
  | eof hblanks _ _ => exact ⟨_, hblanks⟩
  | token hblanks _ hlexeme _ _ _ _ => exact ⟨_, hblanks.trans hlexeme⟩
  | error hbefore hbehind _ _ => exact ⟨_, hbefore.trans hbehind⟩

/-- **Behind the end of the input comes the end of the input.** -/
theorem of_rest_nil (h : Scanned Spells r (answer, r')) (hr : r.rest = []) :
    answer = .ok (.eofAt r.pos) ∧ r' = r := by
  have hnil : ∀ {taken : Source} {r₁ : Reader}, r.Goes taken r₁ → taken = [] := fun hgoes => by
    have hrest := hgoes.rest
    rw [hr] at hrest
    exact (List.append_eq_nil_iff.mp hrest.symm).1
  cases h with
  | eof hblanks _ _ =>
    obtain rfl := hnil hblanks
    obtain rfl := hblanks.eq_of_nil
    exact ⟨rfl, rfl⟩
  | token hblanks _ hlexeme hne _ _ _ =>
    exact absurd (List.append_eq_nil_iff.mp (hnil (hblanks.trans hlexeme))).2 hne
  | error _ _ _ hfound =>
    obtain ⟨g, hg, -⟩ := hfound
    rw [hr] at hg
    cases hg

theorem of_eof {t : Token} (h : Scanned Spells r (.ok t, r')) (ht : t.isEOF = true) :
    r'.rest = [] ∧ t = .eofAt r'.pos := by
  cases h with
  | eof _ _ hrest => exact ⟨hrest, rfl⟩
  | token _ _ _ _ hopen _ _ =>
    rw [hopen] at ht
    cases ht

/-- Blanks are bytes of their own. -/
theorem blank_bytes {s : Source} {bytes : List Nat} (h : ofBytes bytes = s)
    (hs : ∀ g ∈ s, isBlank g.char = true) : ∀ b ∈ bytes, b ∈ [9, 10, 13, 32] := by
  have hcode : ∀ g ∈ s, g.char.toNat ∈ [9, 10, 13, 32] := by
    intro g hg
    have hblank := hs g hg
    simp only [isBlank, Bool.or_eq_true, beq_iff_eq] at hblank
    obtain ((hc | hc) | hc) | hc := hblank <;> rw [hc] <;> decide
  have hascii : ∀ g ∈ s, g.char.toNat < 0x80 := by
    intro g hg
    have h := hcode g hg
    simp only [List.mem_cons, List.not_mem_nil, or_false] at h
    omega
  intro b hb
  rw [Text.Source.bytes_of_ascii h hascii] at hb
  obtain ⟨c, hc, rfl⟩ := List.mem_map.mp hb
  obtain ⟨g, hg, rfl⟩ := List.mem_map.mp hc
  exact hcode g hg

theorem size_pos {s : Source} {bytes : List Nat} (h : ofBytes bytes = s) (hs : s ≠ []) :
    0 < size s := by
  rw [← h, Text.Source.size_ofBytes, List.length_pos_iff]
  rintro rfl
  exact hs h.symm

/-- **An answer in terms of bytes.** -/
theorem called {Tells : Token → List Nat → Prop} {bytes : List Nat} {q : Nat}
    (h : Scanned Spells r (answer, r')) (hq : r.StandsAt bytes q)
    (hspells : ∀ t lexeme, Spells t (ofBytes lexeme) → Tells t lexeme) :
    ∃ o q', r'.StandsAt bytes q' ∧ Called Tells bytes q answer o q' := by
  cases h with
  | eof hblanks hall hrest =>
    have hr' := hq.goes hblanks
    have hlength := hr'.eq_length hrest
    refine ⟨_, _, hr', hr'.boundary, congrArg some hr'.pos, by omega, Nat.le_refl _, ?_, ?_, ?_⟩
    · intro t _
      rw [Nat.add_sub_cancel_left]
      exact blank_bytes (hq.ofBytes_slice hblanks) hall
    · rintro t ⟨⟩ hopen
      cases hopen
    · rintro t ⟨⟩ -
      exact ⟨hlength, by rw [← hlength, hr'.pos]⟩
  | token hblanks hall hlexeme hne hopen hpos hspell =>
    have hr₁ := hq.goes hblanks
    have hr' := hr₁.goes hlexeme
    have hslice := hr₁.ofBytes_slice hlexeme
    have hsize := size_pos hslice hne
    refine ⟨_, _, hr', hr₁.boundary, congrArg some (hpos.trans hr₁.pos), by omega, by omega,
      ?_, ?_, ?_⟩
    · intro t _
      rw [Nat.add_sub_cancel_left]
      exact blank_bytes (hq.ofBytes_slice hblanks) hall
    · rintro t ⟨⟩ -
      rw [Nat.add_sub_cancel_left]
      exact ⟨by omega, hspells _ _ (hslice.symm ▸ hspell)⟩
    · rintro t ⟨⟩ heof
      rw [hopen] at heof
      cases heof
  | error hbefore hbehind hpos _ =>
    have hr₁ := hq.goes hbefore
    exact ⟨_, _, hr₁.goes hbehind, hr₁.boundary, congrArg some (hpos.trans hr₁.pos), by omega,
      by omega, by rintro t ⟨⟩, by rintro t ⟨⟩, by rintro t ⟨⟩⟩

end Scanned

/-! ## 3. All answers -/

namespace Feed

/-- The answer to the question asked after `i` others. -/
def answer : Feed → Nat → Step
  | f, 0 => f.next.1
  | f, i + 1 => answer f.next.2 i

/-- **What the answers of a feed say of the bytes.**  `offset` is where they stand. -/
structure Exact (Spells : Token → List Nat → Prop) (bytes : List Nat) (f : Feed)
    (offset : Nat → Nat) : Prop where
  /-- Each answer names the position of a place between two characters. -/
  position : ∀ i, IsBoundary bytes (offset i) ∧
    (f.answer i).position? = some (positionAt bytes (offset i))
  /-- No answer goes back. -/
  ordered : Monotone offset
  /-- A token is made of a character or more at its place, and is passed before the next answer.
  Between it and the next token stand blanks. -/
  token : ∀ i t, f.answer i = .ok t → t.isEOF = false →
    ∃ n, 0 < n ∧ IsBoundary bytes (offset i + n) ∧ offset i + n ≤ offset (i + 1) ∧
      Spells t (slice bytes (offset i) n) ∧
      ∀ t', f.answer (i + 1) = .ok t' →
        ∀ b ∈ slice bytes (offset i + n) (offset (i + 1) - (offset i + n)), b ∈ [9, 10, 13, 32]
  /-- The end of the input stands behind all bytes, and is answered for good. -/
  eof : ∀ i t, f.answer i = .ok t → t.isEOF = true →
    offset i = bytes.length ∧ t = .eofAt (positionAt bytes bytes.length) ∧
      ∀ j, i ≤ j → f.answer j = .ok t

variable {scan : Reader → Step × Reader} {Spells : Token → Source → Prop}

/-- **The answers of a scanner are its scans**, one after another; where it makes no way, it stands
still. -/
theorem answer_ofScanner (hscan : ∀ r, Scanned Spells r (scan r)) (r : Reader) (i : Nat) :
    (ofScanner scan r).answer i = (scan (r.after scan i)).1 := by
  induction i generalizing r with
  | zero =>
    rw [ofScanner]
    dsimp only
    split <;> rfl
  | succ i ih =>
    rw [ofScanner]
    dsimp only
    split
    next hlt => exact ih (scan r).2
    next hle =>
      have hstays : (scan r).2 = r := by
        obtain ⟨taken, hgoes⟩ := (hscan r).exists_goes
        have hrest := congrArg List.length hgoes.rest
        rw [List.length_append] at hrest
        have hnil : taken = [] := List.length_eq_zero_iff.mp (by omega)
        exact (hnil ▸ hgoes).eq_of_nil
      have hsame := ih r
      rw [ofScanner] at hsame
      simp only [hle, ↓reduceDIte] at hsame
      rw [Reader.after, hstays, ← hsame]
      rfl

/-- **The end of the input is answered for good.** -/
theorem answer_of_eof (hscan : ∀ r, Scanned Spells r (scan r)) {r : Reader} {i : Nat} {t : Token}
    (h : (ofScanner scan r).answer i = .ok t) (ht : t.isEOF = true) {j : Nat} (hij : i ≤ j) :
    (ofScanner scan r).answer j = .ok t := by
  suffices hends : (ofScanner scan r).answer j = .ok t ∧ (r.after scan (j + 1)).rest = [] ∧
      t = .eofAt (r.after scan (j + 1)).pos from hends.1
  induction j, hij using Nat.le_induction with
  | base =>
    refine ⟨h, ?_⟩
    rw [answer_ofScanner hscan] at h
    rw [Reader.after_succ]
    have hlast := hscan (r.after scan i)
    rw [← Prod.eta (scan (r.after scan i)), h] at hlast
    exact hlast.of_eof ht
  | succ j _ ih =>
    obtain ⟨-, hrest, hpos⟩ := ih
    obtain ⟨hanswer, hstays⟩ := (hscan (r.after scan (j + 1))).of_rest_nil hrest
    rw [answer_ofScanner hscan, hanswer, ← hpos, Reader.after_succ scan r (j + 1), hstays]
    exact ⟨rfl, hrest, hpos⟩

/-- **Each scan starts at a place among the bytes.** -/
theorem exists_standsAt_after (hscan : ∀ r, Scanned Spells r (scan r)) (bytes : List Nat)
    (i : Nat) : ∃ q, ((Reader.ofSource (ofBytes bytes)).after scan i).StandsAt bytes q := by
  induction i with
  | zero => exact ⟨0, .start bytes⟩
  | succ i ih =>
    obtain ⟨q, hq⟩ := ih
    obtain ⟨taken, hgoes⟩ := (hscan ((Reader.ofSource (ofBytes bytes)).after scan i)).exists_goes
    rw [Reader.after_succ]
    exact ⟨q + size taken, hq.goes hgoes⟩

/-- **A scanner that passes what it answers has exact positions.** -/
theorem exact_of_scanned (hscan : ∀ r, Scanned Spells r (scan r)) {Tells : Token → List Nat → Prop}
    (hspells : ∀ t lexeme, Spells t (ofBytes lexeme) → Tells t lexeme) (bytes : List Nat) :
    ∃ offset, Exact Tells bytes (ofScanner scan (.ofSource (ofBytes bytes))) offset := by
  have hplaces := exists_standsAt_after hscan bytes
  generalize Reader.ofSource (ofBytes bytes) = r at hplaces
  choose place hplace using hplaces
  have hcalls : ∀ i, ∃ o, Called Tells bytes (place i) ((ofScanner scan r).answer i) o
      (place (i + 1)) := by
    intro i
    obtain ⟨o, q', hq', hcalled⟩ := (hscan (r.after scan i)).called (hplace i) hspells
    have hnext := hplace (i + 1)
    rw [Reader.after_succ] at hnext
    rw [answer_ofScanner hscan, hnext.unique hq']
    exact ⟨o, hcalled⟩
  choose offset hoffset using hcalls
  refine ⟨offset, fun i => ⟨(hoffset i).boundary, (hoffset i).position⟩, ?_, fun i t ht hopen => ?_,
    fun i t ht heof => ?_⟩
  · exact monotone_nat_of_le_succ fun i => Nat.le_trans (hoffset i).behind (hoffset (i + 1)).before
  · obtain ⟨hlt, htells⟩ := (hoffset i).token t ht hopen
    have hplace' : offset i + (place (i + 1) - offset i) = place (i + 1) := by omega
    refine ⟨place (i + 1) - offset i, by omega, ?_, ?_, htells, fun t' ht' => ?_⟩
    · rw [hplace']
      exact (hplace (i + 1)).boundary
    · rw [hplace']
      exact (hoffset (i + 1)).before
    · rw [hplace']
      exact (hoffset (i + 1)).blank t' ht'
  · obtain ⟨hlength, htoken⟩ := (hoffset i).eof t ht heof
    exact ⟨hlength, htoken, fun j hij => answer_of_eof hscan ht heof hij⟩

end Feed

end Formulary
