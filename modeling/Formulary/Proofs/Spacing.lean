import Formulary.Proofs.Exactness

/-!
# Blanks between tokens

Where two tokens touch, the scanner has cut between them because of the first character of the
second one.  A blank is a good reason to cut as well, for no token goes on with one outside quotes.
So blanks can be put between any two tokens, and those that are there can be exchanged.  But not all
of them can be left out, for then the first token may go on.

`Steady` is what a scanner needs for that: it takes the same characters for the same token, if what
comes next stops it like what came next before (`StopsToo`).  The texts that are scanned as given
tokens are described by `Laid`; a change of blanks makes another one of them (`laid_of_gap`).  On
bytes a change is a step of `Respaces`, and any number of steps leaves kinds and texts of the tokens
as they are (`Steady.collect_respaced`). -/

namespace Formulary

open Reader (Stops)
open Text (Source isBlank)
open Text.Source (ofBytes size)

/-! ## 1. Tokens without their positions -/

/-- The kind and the text of a token. -/
def Token.content (t : Token) : Kind × String := (t.kind, t.value)

theorem Token.isEOF_content {t t' : Token} (h : t'.content = t.content) : t'.isEOF = t.isEOF := by
  rw [Token.isEOF, Token.isEOF, Token.code, Token.code, (Prod.mk.inj h).1]

/-- From `r` on the scanner gives the tokens, and then the end of the input. -/
inductive Feed.Collects (scan : Reader → Step × Reader) : Reader → List Token → Prop
  | nil {r r' : Reader} {t : Token} :
      scan r = (.ok t, r') → t.isEOF = true → Collects scan r []
  | cons {r r' : Reader} {t : Token} {w : List Token} :
      scan r = (.ok t, r') → t.isEOF = false → Collects scan r' w → Collects scan r (t :: w)

open Feed (Collects ofScanner)

theorem Feed.collect_ofScanner_token {scan : Reader → Step × Reader} {r r' : Reader} {t : Token}
    (h : scan r = (.ok t, r')) (ht : t.isEOF = false) (hlt : r'.rest.length < r.rest.length) :
    (ofScanner scan r).collect
      = (t :: (ofScanner scan r').collect.1, (ofScanner scan r').collect.2) := by
  rw [collect, untilEnd_ofScanner_token h ht hlt, collect]
  rcases (ofScanner scan r').untilEnd with ⟨w, ending⟩
  cases ending with
  | error e => rfl
  | ok e => rfl

/-- **The tokens are collected without a failure** where the scanner gives them up to the end. -/
theorem Feed.collect_ofScanner {scan : Reader → Step × Reader} (hscan : Advances scan) {r : Reader}
    {w : List Token} : (ofScanner scan r).collect = (w, none) ↔ Collects scan r w := by
  constructor
  · intro h
    rcases heq : scan r with ⟨answer, r'⟩
    cases answer with
    | error e =>
      rw [collect, untilEnd_ofScanner_error heq] at h
      cases h
    | ok t =>
      cases ht : t.isEOF with
      | true =>
        rw [collect, untilEnd_ofScanner_eof heq ht] at h
        cases h
        exact .nil heq ht
      | false =>
        have hlt := hscan r t r' heq ht
        rw [collect_ofScanner_token heq ht hlt] at h
        obtain ⟨rfl, hnone⟩ := Prod.mk.inj h
        exact .cons heq ht ((collect_ofScanner hscan).mp (Prod.ext rfl hnone))
  · intro h
    induction h with
    | nil heq ht => rw [collect, untilEnd_ofScanner_eof heq ht]
    | @cons r r' t w heq ht _ ih =>
      rw [collect_ofScanner_token heq ht (hscan r t r' heq ht), ih]
termination_by r.rest.length

/-! ## 2. Texts that are scanned alike -/

/-- Blanks and nothing else. -/
def Blanks (cs : List Char) : Prop := ∀ c ∈ cs, isBlank c = true

theorem Blanks.nil : Blanks [] := by
  rintro c ⟨⟩

/-- What stops in front of `rest`, and in front of any blank, stops in front of `rest'` too. -/
def StopsToo (rest rest' : List Char) : Prop :=
  ∀ p : Char → Bool, (∀ c, isBlank c = true → p c = false) → Stops p rest → Stops p rest'

namespace StopsToo

theorem refl (rest : List Char) : StopsToo rest rest := fun _ _ h => h

/-- At the end everything stops. -/
theorem nil (rest : List Char) : StopsToo rest [] := by
  rintro p - - c ⟨⟩

theorem of_blank {rest : List Char} {c : Char} (hc : isBlank c = true) (rest' : List Char) :
    StopsToo rest (c :: rest') := by
  rintro p hp - d ⟨⟩
  exact hp c hc

/-- The first character decides. -/
theorem of_head (c : Char) (rest rest' : List Char) : StopsToo (c :: rest) (c :: rest') :=
  fun _ _ h d hd => h d hd

/-- **The blanks in front of a text can be exchanged**, if none is left out where one was needed. -/
theorem of_blanks {gap gap' rest : List Char} (hgap' : Blanks gap')
    (hkeep : gap' = [] → gap = [] ∨ rest = []) : StopsToo (gap ++ rest) (gap' ++ rest) := by
  cases gap' with
  | nil =>
    rcases hkeep rfl with rfl | rfl
    · exact .refl rest
    · exact .nil _
  | cons c gap' => exact .of_blank (hgap' c List.mem_cons_self) _

end StopsToo

/-- **A scanner that cuts where it has cut before.**  It leaves out blanks first (`skips`), then it
takes characters that spell a token (`taken`), and it takes the same characters for the same token
wherever they stand, if what comes next stops it too (`again`). -/
structure Steady (Spells : Token → Source → Prop) (scan scanToken : Reader → Step × Reader) :
    Prop where
  skips : ∀ r, scan r = scanToken (r.skipWhile isBlank)
  eof : ∀ r : Reader, r.peek = none → scanToken r = (.ok (.eofAt r.pos), r)
  taken : ∀ r, Taken Spells r (scanToken r)
  again : ∀ {r r' r₁ : Reader} {t : Token} {c : Char} {cs rest' : List Char},
    scanToken r = (.ok t, r₁) → t.isEOF = false → r.chars = c :: cs ++ r₁.chars →
    r'.chars = c :: cs ++ rest' → StopsToo r₁.chars rest' →
    ∃ r₁', scanToken r' = (.ok ⟨t.kind, t.value, r'.pos⟩, r₁') ∧ r₁'.chars = rest'

/-- Behind blanks and in front of what stops the scanner like `rest`, the lexeme is scanned as a
token with this content. -/
def Gives (scan : Reader → Step × Reader) (t : Token) (lexeme rest : List Char) : Prop :=
  ∀ {r : Reader} {gap rest' : List Char}, Blanks gap → r.chars = gap ++ (lexeme ++ rest') →
    StopsToo rest rest' → ∃ t' r', scan r = (.ok t', r') ∧ t'.content = t.content ∧ r'.chars = rest'

/-- `Laid scan w text`: the text consists of lexemes of the tokens `w` with blanks around them, and
in front of each lexeme stands what stops the scanner behind the one before. -/
inductive Laid (scan : Reader → Step × Reader) : List Token → List Char → Prop
  | nil {tail : List Char} : Blanks tail → Laid scan [] tail
  | cons {t : Token} {w : List Token} {gap lexeme rest text : List Char} :
      Blanks gap → t.isEOF = false → Gives scan t lexeme rest → StopsToo rest text →
      Laid scan w text → Laid scan (t :: w) (gap ++ (lexeme ++ text))

theorem Reader.Goes.chars {r r' : Reader} {s : Source} (h : r.Goes s r') :
    r.chars = s.chars ++ r'.chars := by
  rw [Reader.chars, h.rest, Source.chars, List.map_append]
  rfl

/-- The blanks that are left out. -/
theorem Reader.exists_goes_skipWhile (r : Reader) :
    ∃ blanks : Source, r.Goes blanks (r.skipWhile isBlank) ∧
      (∀ g ∈ blanks, isBlank g.char = true) ∧ Stops isBlank (r.skipWhile isBlank).chars := by
  obtain ⟨-, -, hstops⟩ := r.takeWhile_splits isBlank
  exact ⟨_, .takeWhile r isBlank, List.all_eq_true.mp List.all_takeWhile, hstops⟩

theorem exists_blanks (cs : List Char) : ∃ gap, Blanks gap ∧ cs = gap ++ cs.dropWhile isBlank :=
  ⟨cs.takeWhile isBlank, List.all_eq_true.mp List.all_takeWhile,
    List.takeWhile_append_dropWhile.symm⟩

namespace Steady

variable {Spells : Token → Source → Prop} {scan scanToken : Reader → Step × Reader}
  {r r' : Reader} {t : Token} {w : List Token} {u g g' v text : List Char}

theorem scanned (h : Steady Spells scan scanToken) (r : Reader) : Scanned Spells r (scan r) := by
  rw [h.skips]
  exact (h.taken _).scanned

/-- **A token is a lexeme behind blanks**, and the lexeme gives it again. -/
theorem exists_lexeme (h : Steady Spells scan scanToken) (hscan : scan r = (.ok t, r'))
    (ht : t.isEOF = false) : ∃ lexeme : Source, Spells t lexeme ∧ lexeme ≠ [] ∧
      r.chars.dropWhile isBlank = lexeme.chars ++ r'.chars ∧
      Gives scan t lexeme.chars r'.chars := by
  rw [h.skips] at hscan
  have hskip : (r.skipWhile isBlank).chars = r.chars.dropWhile isBlank := r.chars_takeWhile _
  have htaken := h.taken (r.skipWhile isBlank)
  rw [hscan] at htaken
  cases htaken with
  | eof => cases ht
  | @token lexeme _ _ hgoes hne _ _ hspells =>
    have hchars := hgoes.chars
    refine ⟨lexeme, hspells, hne, hskip ▸ hchars, ?_⟩
    intro r₀ gap rest' hgap hr₀ hstops
    obtain ⟨g, s, rfl⟩ := List.exists_cons_of_ne_nil hne
    have hhead : Stops isBlank (Source.chars (g :: s) ++ rest') := by
      obtain ⟨-, -, -, hhead⟩ := r.exists_goes_skipWhile
      rw [hchars] at hhead
      exact hhead
    have hskip₀ : (r₀.skipWhile isBlank).chars = Source.chars (g :: s) ++ rest' :=
      Reader.chars_skipWhile hr₀ hgap hhead
    obtain ⟨r₁', hagain, hr₁'⟩ := h.again hscan ht hchars hskip₀ hstops
    exact ⟨_, r₁', (h.skips r₀).trans hagain, rfl, hr₁'⟩

/-- A token stands behind the blanks. -/
theorem pos_eq (h : Steady Spells scan scanToken) (hscan : scan r = (.ok t, r'))
    (ht : t.isEOF = false) : t.pos = (r.skipWhile isBlank).pos := by
  have htaken := h.taken (r.skipWhile isBlank)
  rw [← h.skips, hscan] at htaken
  cases htaken with
  | eof => cases ht
  | token _ _ _ hpos _ => exact hpos

theorem advances (h : Steady Spells scan scanToken) : Feed.Advances scan := by
  intro r t r' hscan ht
  obtain ⟨lexeme, -, hne, hchars, -⟩ := h.exists_lexeme hscan ht
  have hlength := congrArg List.length hchars
  have hle := List.IsSuffix.length_le (List.dropWhile_suffix isBlank (l := r.chars))
  have hpos : 0 < lexeme.chars.length := by
    rw [Source.chars, List.length_map]
    exact List.length_pos_of_ne_nil hne
  rw [List.length_append] at hlength
  rw [← Reader.length_chars, ← Reader.length_chars]
  omega

/-- At the end of the input there are at most blanks left. -/
theorem blanks_of_eof (h : Steady Spells scan scanToken) (hscan : scan r = (.ok t, r'))
    (ht : t.isEOF = true) : Blanks r.chars := by
  have hscanned := h.scanned r
  rw [hscan] at hscanned
  cases hscanned with
  | eof hblanks hall hrest =>
    rw [hblanks.chars, Reader.chars, hrest]
    intro c hc
    rw [Source.chars, Source.chars, List.map_nil, List.append_nil] at hc
    obtain ⟨g, hg, rfl⟩ := List.mem_map.mp hc
    exact hall g hg
  | token _ _ _ _ hopen _ _ =>
    rw [hopen] at ht
    cases ht

/-- **A text that is laid out of tokens is scanned as them.** -/
theorem collects_of_laid (h : Steady Spells scan scanToken) (hlaid : Laid scan w text)
    (hr : r.chars = text) :
    ∃ w', Collects scan r w' ∧ w'.map Token.content = w.map Token.content := by
  induction hlaid generalizing r with
  | nil htail =>
    have hskip : (r.skipWhile isBlank).chars = [] :=
      Reader.chars_skipWhile (by rw [hr, List.append_nil]) htail (by rintro _ ⟨⟩)
    have heof := h.eof (r.skipWhile isBlank) (by rw [Reader.peek_eq, hskip]; rfl)
    exact ⟨[], .nil ((h.skips r).trans heof) rfl, rfl⟩
  | cons hgap hopen hgives hstops _ ih =>
    obtain ⟨t', r', hscan, hcontent, hr'⟩ := hgives hgap hr hstops
    obtain ⟨w', hcollects, hcontents⟩ := ih hr'
    rw [← Token.isEOF_content hcontent] at hopen
    exact ⟨t' :: w', .cons hscan hopen hcollects, by simp [hcontent, hcontents]⟩

/-- A text is laid out of its tokens. -/
theorem laid_of_collects (h : Steady Spells scan scanToken) (hcollects : Collects scan r w) :
    Laid scan w r.chars := by
  induction hcollects with
  | nil hscan ht => exact .nil (h.blanks_of_eof hscan ht)
  | @cons r r' t w hscan ht _ ih =>
    obtain ⟨lexeme, -, -, hchars, hgives⟩ := h.exists_lexeme hscan ht
    obtain ⟨gap, hgap, hcut⟩ := exists_blanks r.chars
    rw [hcut, hchars]
    exact .cons hgap ht hgives (.refl _) ih

/-- What a reader has left after some scans is an end of its text. -/
theorem exists_chars_after (h : Steady Spells scan scanToken) (r : Reader) (i : Nat) :
    ∃ u, r.chars = u ++ (r.after scan i).chars := by
  induction i with
  | zero => exact ⟨[], rfl⟩
  | succ i ih =>
    obtain ⟨u, hu⟩ := ih
    obtain ⟨taken, hgoes⟩ := (h.scanned (r.after scan i)).exists_goes
    rw [Reader.after_succ]
    exact ⟨u ++ taken.chars, by rw [hu, hgoes.chars, List.append_assoc]⟩

/-- What is passed up to a place behind a token are blanks, the lexeme of the token, and what is
passed from there. -/
theorem exists_passed (h : Steady Spells scan scanToken) (hscan : scan r = (.ok t, r'))
    (ht : t.isEOF = false) {u₁ rest : List Char} (hu : r.chars = u ++ rest)
    (hu₁ : r'.chars = u₁ ++ rest) :
    ∃ gap lexeme, Blanks gap ∧ u = gap ++ (lexeme ++ u₁) ∧ u ≠ [] ∧
      Gives scan t lexeme r'.chars := by
  obtain ⟨lexeme, -, hne, hchars, hgives⟩ := h.exists_lexeme hscan ht
  obtain ⟨gap, hgap, hcut⟩ := exists_blanks r.chars
  have hparts : u = gap ++ (lexeme.chars ++ u₁) := by
    rw [hcut, hchars, hu₁, ← List.append_assoc, ← List.append_assoc] at hu
    rw [← List.append_cancel_right hu, List.append_assoc]
  refine ⟨gap, lexeme.chars, hgap, hparts, ?_, hgives⟩
  rw [hparts]
  simp [Source.chars, hne]

/-- **The blanks between two tokens can be exchanged.**  `u` is what the first `i` scans have
passed, and `g` are the blanks behind it.  By induction on the scans: up to the gap each token keeps
its lexeme, at the gap `StopsToo.of_blanks` applies, and behind it all is as it was. -/
theorem laid_of_gap (h : Steady Spells scan scanToken) {i : Nat} (hcollects : Collects scan r w)
    (hi : i ≤ w.length) (hu : r.chars = u ++ (r.after scan i).chars)
    (hafter : (r.after scan i).chars = g ++ v) (hg : Blanks g) (hv : Stops isBlank v)
    (hg' : Blanks g') (hkeep : g' = [] → g = [] ∨ u = [] ∨ v = []) :
    Laid scan w (u ++ (g' ++ v)) := by
  induction i generalizing r w u with
  | zero =>
    have hu' : u = [] := List.self_eq_append_left.mp hu
    rw [hu', List.nil_append]
    have hr : r.chars = g ++ v := hafter
    cases hcollects with
    | nil hscan ht =>
      have hblank := h.blanks_of_eof hscan ht
      refine .nil ?_
      intro c hc
      rcases List.mem_append.mp hc with hc | hc
      · exact hg' c hc
      · exact hblank c (by simp [hr, hc])
    | @cons r r₁ t w hscan ht hcollects =>
      obtain ⟨lexeme, -, -, hchars, hgives⟩ := h.exists_lexeme hscan ht
      have hrest : v = lexeme.chars ++ r₁.chars := by
        rw [← hchars, ← r.chars_takeWhile]
        exact (Reader.chars_skipWhile hr hg hv).symm
      rw [hrest]
      exact .cons hg' ht hgives (.refl _) (h.laid_of_collects hcollects)
  | succ i ih =>
    cases hcollects with
    | nil => cases hi
    | @cons r r₁ t w hscan ht hcollects =>
      have hnext : r.after scan (i + 1) = r₁.after scan i := by rw [Reader.after, hscan]
      rw [hnext] at hu hafter
      obtain ⟨u₁, hu₁⟩ := h.exists_chars_after r₁ i
      obtain ⟨gap, lexeme, hgap, hparts, hopen, hgives⟩ := h.exists_passed hscan ht hu hu₁
      have hkeep₁ : g' = [] → g = [] ∨ v = [] := fun hnil =>
        (hkeep hnil).imp_right fun hcase => hcase.resolve_left hopen
      have hstops : StopsToo r₁.chars (u₁ ++ (g' ++ v)) := by
        rw [hu₁, hafter]
        cases u₁ with
        | nil => exact .of_blanks hg' hkeep₁
        | cons c u₁ => exact .of_head c _ _
      have hlaid := ih hcollects (Nat.le_of_succ_le_succ hi) hu₁ hafter
        fun hnil => (hkeep₁ hnil).imp_right .inr
      rw [hparts, List.append_assoc, List.append_assoc]
      exact .cons hgap ht hgives hstops hlaid

end Steady

/-! ## 3. Blanks among bytes -/

/-- The bytes of blanks, and nothing else. -/
def BlankBytes (bytes : List Nat) : Prop := ∀ b ∈ bytes, b ∈ [9, 10, 13, 32]

variable {bytes bytes' pre gap gap' post : List Nat}

theorem isBlank_ofNat {b : Nat} (h : b ∈ [9, 10, 13, 32]) : isBlank (Char.ofNat b) = true := by
  simp only [List.mem_cons, List.not_mem_nil, or_false] at h
  rcases h with rfl | rfl | rfl | rfl <;> decide

theorem blank_lt {b : Nat} (h : b ∈ [9, 10, 13, 32]) : b < 0x80 := by
  simp only [List.mem_cons, List.not_mem_nil, or_false] at h
  omega

theorem BlankBytes.ofBytes_append (h : BlankBytes gap) (rest : List Nat) :
    ofBytes (gap ++ rest) = ofBytes gap ++ ofBytes rest := by
  induction gap with
  | nil => rfl
  | cons b gap ih =>
    have hb := blank_lt (h b List.mem_cons_self)
    rw [List.cons_append, Source.ofBytes_cons_ascii hb, Source.ofBytes_cons_ascii hb,
      ih fun b hb => h b (List.mem_cons_of_mem _ hb), List.cons_append]

theorem BlankBytes.blanks (h : BlankBytes gap) : Blanks (ofBytes gap).chars := by
  induction gap with
  | nil => exact .nil
  | cons b gap ih =>
    have hb := h b List.mem_cons_self
    rw [Source.ofBytes_cons_ascii (blank_lt hb)]
    intro c hc
    rcases List.mem_cons.mp hc with rfl | hc
    · exact isBlank_ofNat hb
    · exact ih (fun b hb => h b (List.mem_cons_of_mem _ hb)) c hc

/-- **A blank is a byte of its own**, so where no such byte stands there is none. -/
theorem stops_blank_ofBytes (h : ∀ b ∈ bytes.head?, b ∉ [9, 10, 13, 32]) :
    Stops isBlank (ofBytes bytes).chars := by
  cases bytes with
  | nil => rintro c ⟨⟩
  | cons b rest =>
    have hcons := Source.ofBytes_cons b rest
    rw [hcons]
    rintro c ⟨⟩
    by_contra hblank
    obtain ⟨htake, -⟩ := Source.ofBytes_cut (s := [Source.lead b rest]) hcons
    obtain ⟨n, hn⟩ := Nat.exists_eq_add_of_le' (Source.width_pos b rest)
    rw [Source.size_cons, Source.size_nil, hn, Nat.add_zero, List.take_succ_cons] at htake
    exact h b rfl (Scanned.blank_bytes htake (by simpa using hblank) b List.mem_cons_self)

theorem eq_nil_of_ofBytes (h : ofBytes bytes = []) : bytes = [] := by
  rw [← List.length_eq_zero_iff, ← Source.size_ofBytes, h]
  rfl

/-- `Gap scan bytes i pre gap post`: `pre` are the bytes that the first `i` scans have passed, `gap`
are the blanks behind them, and `post` is what comes then. -/
structure Gap (scan : Reader → Step × Reader) (bytes : List Nat) (i : Nat)
    (pre gap post : List Nat) : Prop where
  bytes_eq : bytes = pre ++ (gap ++ post)
  place : ((Reader.ofSource (ofBytes bytes)).after scan i).StandsAt bytes pre.length
  blank : BlankBytes gap
  ends : ∀ b ∈ post.head?, b ∉ [9, 10, 13, 32]

/-- **One change of blanks**: in a text that is scanned without an error, at the start, at the end
or between two tokens.  Any blanks may stand there afterwards; but where there were some between two
tokens, some have to stay. -/
inductive Respaces (scan : Reader → Step × Reader) (bytes : List Nat) : List Nat → Prop
  | change {tokens : List Token} {i : Nat} {pre gap gap' post : List Nat} :
      (ofScanner scan (.ofSource (ofBytes bytes))).collect = (tokens, none) → i ≤ tokens.length →
      Gap scan bytes i pre gap post → BlankBytes gap' →
      (gap' = [] → gap = [] ∨ pre = [] ∨ post = []) → Respaces scan bytes (pre ++ (gap' ++ post))

/-- The text has a place for blanks in front of each of its tokens and behind the last one, and
however often blanks are changed, the same kinds and texts are scanned. -/
structure Respaceable (scan : Reader → Step × Reader) (bytes : List Nat) (tokens : List Token) :
    Prop where
  gap : ∀ i ≤ tokens.length, ∃ pre gap post, Gap scan bytes i pre gap post ∧
    ∀ t, tokens[i]? = some t → t.pos.offset = ((pre.length + gap.length : Nat) : Int)
  respaced : ∀ bytes', Relation.ReflTransGen (Respaces scan) bytes bytes' →
    ∃ tokens', (ofScanner scan (.ofSource (ofBytes bytes'))).collect = (tokens', none) ∧
      tokens'.map Token.content = tokens.map Token.content

namespace Gap

variable {scan : Reader → Step × Reader} {i : Nat}

/-- The parts of the text on their own. -/
theorem cut (h : Gap scan bytes i pre gap post) :
    ofBytes bytes = ofBytes pre ++ ((Reader.ofSource (ofBytes bytes)).after scan i).rest ∧
      ((Reader.ofSource (ofBytes bytes)).after scan i).rest = ofBytes gap ++ ofBytes post := by
  obtain ⟨s, hs, -, hsize⟩ := h.place
  obtain ⟨htake, hdrop⟩ := Source.ofBytes_cut hs
  rw [hsize, h.bytes_eq, List.take_left] at htake
  rw [hsize] at hdrop
  nth_rewrite 1 [h.bytes_eq] at hdrop
  rw [List.drop_left, h.blank.ofBytes_append] at hdrop
  exact ⟨htake ▸ hs, hdrop.symm⟩

/-- **With other blanks between them the parts stay what they are.** -/
theorem ofBytes_change (h : Gap scan bytes i pre gap post) (hgap' : BlankBytes gap')
    (hkeep : gap' = [] → gap = [] ∨ pre = [] ∨ post = []) :
    ofBytes (pre ++ (gap' ++ post)) = ofBytes pre ++ (ofBytes gap' ++ ofBytes post) := by
  cases gap' with
  | nil =>
    rcases hkeep rfl with rfl | rfl | rfl
    · obtain ⟨hpre, hrest⟩ := h.cut
      rw [hrest] at hpre
      nth_rewrite 1 [h.bytes_eq] at hpre
      exact hpre
    · rfl
    · simp
  | cons b gap' =>
    rw [← hgap'.ofBytes_append, Source.ofBytes_append pre]
    rintro _ ⟨⟩
    exact blank_lt (hgap' b List.mem_cons_self)

end Gap

namespace Steady

variable {Spells : Token → Source → Prop} {scan scanToken : Reader → Step × Reader} {i : Nat}
  {tokens : List Token}

/-- **One change of blanks leaves the tokens.** -/
theorem collect_respaces (h : Steady Spells scan scanToken) (hchange : Respaces scan bytes bytes') :
    ∃ tokens tokens', (ofScanner scan (.ofSource (ofBytes bytes))).collect = (tokens, none) ∧
      (ofScanner scan (.ofSource (ofBytes bytes'))).collect = (tokens', none) ∧
      tokens'.map Token.content = tokens.map Token.content := by
  obtain @⟨tokens, i, pre, gap, gap', post, hcollect, hi, hplace, hgap', hkeep⟩ := hchange
  obtain ⟨hpre, hrest⟩ := hplace.cut
  have hjoin := hplace.ofBytes_change hgap' hkeep
  have hlaid : Laid scan tokens
      ((ofBytes pre).chars ++ ((ofBytes gap').chars ++ (ofBytes post).chars)) := by
    refine h.laid_of_gap ((Feed.collect_ofScanner h.advances).mp hcollect) hi ?_ ?_
      hplace.blank.blanks (stops_blank_ofBytes hplace.ends) hgap'.blanks ?_
    · exact (congrArg Source.chars hpre).trans List.map_append
    · exact (congrArg Source.chars hrest).trans List.map_append
    · intro hnil
      have hgap'_nil : gap' = [] := eq_nil_of_ofBytes (List.map_eq_nil_iff.mp hnil)
      rcases hkeep hgap'_nil with rfl | rfl | rfl
      · exact .inl rfl
      · exact .inr (.inl rfl)
      · exact .inr (.inr rfl)
  obtain ⟨tokens', hcollects, hcontents⟩ := h.collects_of_laid hlaid
    (r := .ofSource (ofBytes (pre ++ (gap' ++ post))))
    (by simp [Reader.chars, Reader.ofSource, hjoin, Source.chars])
  exact ⟨tokens, tokens', hcollect, (Feed.collect_ofScanner h.advances).mpr hcollects, hcontents⟩

/-- **Any number of changes leaves the tokens.** -/
theorem collect_respaced (h : Steady Spells scan scanToken)
    (hcollect : (ofScanner scan (.ofSource (ofBytes bytes))).collect = (tokens, none))
    (hchanges : Relation.ReflTransGen (Respaces scan) bytes bytes') :
    ∃ tokens', (ofScanner scan (.ofSource (ofBytes bytes'))).collect = (tokens', none) ∧
      tokens'.map Token.content = tokens.map Token.content := by
  induction hchanges with
  | refl => exact ⟨tokens, hcollect, rfl⟩
  | tail _ hchange ih =>
    obtain ⟨tokens₁, hcollect₁, hcontents₁⟩ := ih
    obtain ⟨tokens₁', tokens₂, hcollect₁', hcollect₂, hcontents₂⟩ := h.collect_respaces hchange
    obtain ⟨rfl, -⟩ := Prod.mk.inj (hcollect₁.symm.trans hcollect₁')
    exact ⟨tokens₂, hcollect₂, hcontents₂.trans hcontents₁⟩

/-- The token in place `i` is the answer of the scan after `i` others. -/
theorem scan_after_of_collects {r : Reader} (hcollects : Collects scan r tokens) {t : Token}
    (ht : tokens[i]? = some t) : (scan (r.after scan i)).1 = .ok t ∧ t.isEOF = false := by
  induction hcollects generalizing i with
  | nil => cases ht
  | cons hscan hopen _ ih =>
    cases i with
    | zero =>
      cases ht
      exact ⟨congrArg Prod.fst hscan, hopen⟩
    | succ i =>
      rw [Reader.after, hscan]
      exact ih ht

/-- **There is a place for blanks in front of each token and behind the last one**, where the
scanner stands before it goes for the token. -/
theorem exists_gap (h : Steady Spells scan scanToken)
    (hcollect : (ofScanner scan (.ofSource (ofBytes bytes))).collect = (tokens, none)) (i : Nat) :
    ∃ pre gap post, Gap scan bytes i pre gap post ∧
      ∀ t, tokens[i]? = some t → t.pos.offset = ((pre.length + gap.length : Nat) : Int) := by
  obtain ⟨q, hq⟩ := Feed.exists_standsAt_after h.scanned bytes i
  obtain ⟨blanks, hgoes, hblank, hends⟩ :=
    ((Reader.ofSource (ofBytes bytes)).after scan i).exists_goes_skipWhile
  have hskip := hq.goes hgoes
  have hslice := hq.ofBytes_slice hgoes
  have hpre : (bytes.take q).length = q := List.length_take_of_le hq.le_length
  have hgap : (slice bytes q (size blanks)).length = size blanks := by
    rw [← Source.size_ofBytes, hslice]
  have hcut : Gap scan bytes i (bytes.take q) (slice bytes q (size blanks))
      (bytes.drop (q + size blanks)) := by
    refine ⟨?_, by rwa [hpre], Scanned.blank_bytes hslice hblank, ?_⟩
    · rw [slice, ← List.drop_drop, List.take_append_drop, List.take_append_drop]
    · intro b hb hmem
      obtain ⟨rest, hrest⟩ := List.head?_eq_some_iff.mp hb
      have hchars := congrArg Source.chars hskip.ofBytes_drop
      rw [hrest, Source.ofBytes_cons_ascii (blank_lt hmem)] at hchars
      have hstops := hends (Char.ofNat b) (by rw [Reader.chars, ← hchars]; rfl)
      rw [isBlank_ofNat hmem] at hstops
      cases hstops
  refine ⟨_, _, _, hcut, ?_⟩
  intro t ht
  obtain ⟨hanswer, hopen⟩ :=
    scan_after_of_collects ((Feed.collect_ofScanner h.advances).mp hcollect) ht
  rw [hpre, hgap, h.pos_eq (Prod.ext hanswer rfl) hopen, hskip.pos]
  rfl

theorem respaceable (h : Steady Spells scan scanToken)
    (hcollect : (ofScanner scan (.ofSource (ofBytes bytes))).collect = (tokens, none)) :
    Respaceable scan bytes tokens where
  gap := fun i _ => h.exists_gap hcollect i
  respaced := fun _ hchanges => h.collect_respaced hcollect hchanges

end Steady

end Formulary
