import Formulary.Proofs.Chain.Completeness

/-!
# The language of a chain

Whole parses.  Without a limit of depth a parse has as much room as there are tokens, and no
derivation nests deeper than that; with a limit it has just the limit.  So a parser reads exactly
the derivations that nest no deeper than its limit (`Parser.parseAll_sound`,
`Parser.parseAll_complete`).

The main statement, `Parser.parse_exactly_language`, is about parsers without a limit whose
conversion never fails.  What they accept is in the grammar as it is listed, and if no code has two
meanings, all that is in the grammar is accepted.  A text then has one tree: the parser gives one
answer. -/

namespace Formulary.Chain

open Feed (Closes upcoming)

variable {ε α β : Type}

/-! ## 1. Runs on a cursor -/

theorem runOn_eq (c : Cursor) (stage : Stage ε β) :
    runOn c stage = ⟨(exec stage ⟨c, [], []⟩).1, (exec stage ⟨c, [], []⟩).2.cursor,
      (exec stage ⟨c, [], []⟩).2.events.reverse, (exec stage ⟨c, [], []⟩).2.converted.reverse⟩ :=
  rfl

/-- **A run succeeds where the stage yields.** -/
theorem result_runOn {c : Cursor} {stage : Stage ε β} {b : β} :
    (runOn c stage).result = .ok b ↔ ∃ s', Yields stage ⟨c, [], []⟩ b s' := by
  rw [runOn_eq]
  unfold Yields
  constructor
  · intro h
    exact ⟨(exec stage ⟨c, [], []⟩).2, Prod.ext h rfl⟩
  · rintro ⟨s', h⟩
    simp [h]

theorem cursor_runOn {c : Cursor} {stage : Stage ε β} {b : β} {s' : Work ε}
    (h : Yields stage ⟨c, [], []⟩ b s') : (runOn c stage).cursor = s'.cursor := by
  rw [runOn_eq]
  unfold Yields at h
  simp [h]

/-- What a stage consumes, a run on it consumes. -/
theorem Consumes.runOn {c : Cursor} {stage : Stage ε β} {w rest : List Token} {ending : Step}
    {b : β} (h : Consumes stage w rest ending b) (hc : c.ahead = (w ++ rest, ending)) :
    (Chain.runOn c stage).result = .ok b ∧ (Chain.runOn c stage).cursor.ahead = (rest, ending) := by
  obtain ⟨s', hy, hs'⟩ := h ⟨c, [], []⟩ hc
  refine ⟨result_runOn.mpr ⟨s', hy⟩, ?_⟩
  rw [cursor_runOn hy]
  exact hs'

/-- Gives the value if nothing but the end of the input follows. -/
def seeEnd (b : β) : Stage ε β := do
  let w ← get
  let (result, cursor) := w.cursor.look 1
  set { w with cursor }
  match result with
  | .ok t => if t.isEOF then return b else throw (.read (.misplaced (.unexpected t)))
  | .error f => throw (.read f)

theorem exec_seeEnd (b : β) (s : Work ε) :
    exec (seeEnd b : Stage ε β) s = match s.cursor.look 1 with
      | (.error f, c) => (.error (.read f), { s with cursor := c })
      | (.ok e, c) => (if e.isEOF then .ok b else .error (.read (.misplaced (.unexpected e))),
          { s with cursor := c }) := by
  rw [seeEnd, exec_bind, exec_get]
  dsimp only
  rcases s.cursor.look 1 with ⟨r, c⟩
  cases r with
  | error f => rfl
  | ok e => cases he : e.isEOF <;> simp only [he, if_true, if_false, Bool.false_eq_true] <;> rfl

namespace Parser

variable {p : Parser ε α}

/-! ## 2. Parses with and without a limit -/

/-- The nesting is one that the parser allows. -/
def Allows (p : Parser ε α) (n : Nat) : Prop := p.limit = 0 ∨ n ≤ p.limit

theorem exec_parse (s : Work ε) :
    exec p.parse s = exec (p.expression (p.room s.cursor) 0) s := rfl

/-- **A parse reads a derivation that nests as deep as is allowed**, and stops before a token that
is an operator of no level. -/
theorem parse_finds (hp : p.Unsigned) :
    Finds p.parse fun u after t =>
      (∃ n, p.Allows n ∧ Derives p p.innermost (.level 0) n u [t]) ∧ p.StopsAt 0 after := by
  intro s s' w ending t he hs hy
  have hy' : Yields (p.expression (p.room s.cursor) 0) s t s' := by rwa [Yields, exec_parse] at hy
  obtain ⟨u, rest, rfl, hs', ⟨n, hn, hd⟩, hstop⟩ :=
    (expression_finds hp (p.room s.cursor) 0).of_yields he hy' hs
  refine ⟨u, rest, rfl, hs', ⟨n, ?_, hd⟩, hstop⟩
  unfold room at hn
  split at hn
  · next h => exact .inl (by simpa using h)
  · exact .inr hn

/-- **A derivation that nests as deep as is allowed is parsed.** -/
theorem parse_consumes (hp : p.Separated) {ending : Step} (he : Closes ending) {n : Nat}
    {w rest : List Token} {t : Tree α} (hd : Derives p p.innermost (.level 0) n w [t])
    (hn : p.Allows n) (hend : p.EndsAt 0 (upcoming rest ending)) :
    Consumes p.parse w rest ending t := by
  intro s hs
  have hroom : n ≤ p.room s.cursor := by
    unfold room
    split
    · -- without a limit there is room for each token at hand
      have hle := s.cursor.length_ahead_le_pending
      rw [show s.cursor.ahead = (w ++ rest, ending) from hs] at hle
      have hlen := hd.nesting_le_length
      simp only [List.length_append] at hle
      omega
    · next h =>
      rcases hn with h0 | hn
      · simp [h0] at h
      · exact hn
  obtain ⟨s', hy, hs'⟩ := (hd.completes hp he).expression hd.nesting_pos hroom hend s hs
  exact ⟨s', by rwa [Yields, exec_parse], hs'⟩

theorem parseAll_eq (p : Parser ε α) : p.parseAll = p.parse >>= seeEnd := rfl

theorem exec_parseAll (s : Work ε) :
    exec p.parseAll s = match exec p.parse s with
      | (.error e, s₁) => (.error e, s₁)
      | (.ok tree, s₁) =>
        match s₁.cursor.look 1 with
        | (.error f, c) => (.error (.read f), { s₁ with cursor := c })
        | (.ok e, c) => (if e.isEOF then .ok tree else .error (.read (.misplaced (.unexpected e))),
            { s₁ with cursor := c }) := by
  rw [parseAll_eq, exec_bind]
  rcases exec p.parse s with ⟨r, s₁⟩
  cases r with
  | error e => rfl
  | ok tree => exact exec_seeEnd tree s₁

/-- Parsing the whole input is parsing an expression and seeing the end behind it. -/
theorem yields_parseAll {s s' : Work ε} {t : Tree α} :
    Yields p.parseAll s t s' ↔ ∃ s₁ e c, Yields p.parse s t s₁ ∧ s₁.cursor.look 1 = (.ok e, c) ∧
      e.isEOF = true ∧ { s₁ with cursor := c } = s' := by
  unfold Yields
  rw [exec_parseAll]
  constructor
  · intro h
    rcases hparse : exec p.parse s with ⟨r, s₁⟩
    rw [hparse] at h
    cases r with
    | error e => simp at h
    | ok tree =>
      rcases hlook : s₁.cursor.look 1 with ⟨r, c⟩
      cases r with
      | error f => simp [hlook] at h
      | ok e =>
        cases he : e.isEOF with
        | false => simp [hlook, he] at h
        | true =>
          simp only [hlook, he, if_true, Prod.mk.injEq, Except.ok.injEq] at h
          obtain ⟨rfl, hs'⟩ := h
          exact ⟨s₁, e, c, rfl, hlook, he, hs'⟩
  · rintro ⟨s₁, e, c, hparse, hlook, he, rfl⟩
    simp [hparse, hlook, he]

/-- **A whole input that is read is derived.** -/
theorem parseAll_sound (hp : p.Unsigned) {f : Feed} {w : List Token} {ending : Step}
    (hf : f.untilEnd = (w, ending)) (he : Closes ending) {t : Tree α}
    (h : (runOn (.ofFeed f) p.parseAll).result = .ok t) :
    (∃ e, ending = .ok e) ∧ ∃ n, p.Allows n ∧ Derives p p.innermost (.level 0) n w [t] := by
  obtain ⟨s', hy⟩ := result_runOn.mp h
  obtain ⟨s₁, e, c, hparse, hlook, heof, -⟩ := yields_parseAll.mp hy
  have hahead : (⟨.ofFeed f, [], []⟩ : Work ε).ahead = (w, ending) := by
    rw [← hf]
    exact Cursor.ahead_ofFeed f
  obtain ⟨u, rest, rfl, hs₁, ⟨n, hn, hd⟩, -⟩ := (parse_finds hp).of_yields he hparse hahead
  obtain ⟨c', hlook', -⟩ := Cursor.look_one (show s₁.cursor.ahead = (rest, ending) from hs₁) he
  rw [hlook] at hlook'
  have hnext : upcoming rest ending = .ok e := (Prod.mk.inj hlook').1.symm
  cases rest with
  | nil => exact ⟨⟨e, hnext⟩, n, hn, by simpa using hd⟩
  | cons t rest =>
    -- the end of the input is none of the tokens before it
    have ht : t.isEOF = false := by
      refine Cursor.isEOF_of_mem_ahead (c := s₁.cursor) ?_
      rw [show s₁.cursor.ahead = (t :: rest, ending) from hs₁]
      exact List.mem_cons_self
    obtain rfl := Except.ok.inj hnext
    rw [heof] at ht
    exact absurd ht (by simp)

/-- The end of the input is no operator. -/
theorem Unsigned.not_operator_eof (hp : p.Unsigned) {e : Token} (he : e.isEOF = true) (i : Nat) :
    ¬ p.operator i e.code := by
  intro hop
  rw [Token.isEOF_of_code (hp.operator hop)] at he
  simp at he

/-- **A whole input that is derived, and nests as deep as is allowed, is read.** -/
theorem parseAll_complete (hp : p.Unsigned) (hsep : p.Separated) {f : Feed} {w : List Token}
    {e : Token} (hf : f.untilEnd = (w, .ok e)) (he : e.isEOF = true) {n : Nat} {t : Tree α}
    (hd : Derives p p.innermost (.level 0) n w [t]) (hn : p.Allows n) :
    (runOn (.ofFeed f) p.parseAll).result = .ok t := by
  have hclose : Closes (.ok e) := fun t ht => by
    obtain rfl := Except.ok.inj ht
    exact he
  have hend : p.EndsAt 0 (upcoming [] (.ok e)) := ⟨e, rfl, fun i _ => hp.not_operator_eof he i⟩
  have hahead : (⟨.ofFeed f, [], []⟩ : Work ε).ahead = (w ++ [], .ok e) := by
    rw [List.append_nil, ← hf]
    exact Cursor.ahead_ofFeed f
  obtain ⟨s₁, hy, hs₁⟩ := parse_consumes hsep hclose hd hn hend _ hahead
  obtain ⟨c, hlook, -⟩ := Cursor.look_one (show s₁.cursor.ahead = ([], .ok e) from hs₁) hclose
  exact result_runOn.mpr ⟨_, yields_parseAll.mpr ⟨s₁, e, c, hy, hlook, he, rfl⟩⟩

/-! ## 3. The language -/

/-- The tokens are an expression of the grammar as it is listed, and are read as the tree. -/
def Reads (p : Parser ε α) (w : List Token) (t : Tree α) : Prop :=
  ∃ n, Derives p p.operator (.level 0) n w [t]

/-- No operator is listed in two levels. -/
def OneLevelEach (p : Parser ε α) : Prop :=
  ∀ i j code, p.operator i code → p.operator j code → i = j

/-- Listed in one level, an operator is in its innermost one. -/
theorem OneLevelEach.innermost (h : p.OneLevelEach) {i : Nat} {code : Int}
    (hop : p.operator i code) : p.innermost i code := by
  refine ⟨hop, fun j hj hop' => ?_⟩
  have := h i j code hop hop'
  omega

theorem build_eq_ok {g : Grammar} {convert : Token → Role → Except ε α} {p : Parser ε α}
    (h : build g (some convert) = .ok p) : p.limit = 0 ∧ p.convert = convert := by
  unfold build at h
  split at h
  · simp at h
  · next hconv _ _ _ =>
    split at h
    · simp at h
    · obtain rfl := Except.ok.inj h
      obtain rfl := Option.some.inj hconv
      exact ⟨rfl, rfl⟩
  · simp at h

/-- **A chain accepts exactly its grammar and builds the one tree there is.**  The tokens `w` come
before the end `e` of the input.

* What a parse of the whole input gives is derived from `w`.
* What a parse gives is derived from the tokens it has passed over; behind them stands a token that
  is an operator of no level, and it is the next one to be seen.
* If no code has two meanings where the parser chooses, every tree derived from `w` is given by a
  parse of the whole input, every tree derived from a part of `w` with no operator behind it is
  given by a parse, and `w` derives one tree at most. -/
theorem parse_exactly_language {g : Grammar} {convert : Token → Role → α} {p : Parser ε α}
    (hbuild : build g (some fun t role => .ok (convert t role)) = .ok p) (hp : p.Unsigned)
    {f : Feed} {w : List Token} {e : Token} (hf : f.untilEnd = (w, .ok e)) (he : e.isEOF = true) :
    (∀ t, (runOn (.ofFeed f) p.parseAll).result = .ok t → p.Reads w t) ∧
    (∀ t, (runOn (.ofFeed f) p.parse).result = .ok t → ∃ used rest, w = used ++ rest ∧
      p.Reads used t ∧ (runOn (.ofFeed f) p.parse).cursor.ahead = (rest, .ok e) ∧
      ((runOn (.ofFeed f) p.parse).cursor.look 1).1 = .ok (rest.headD e) ∧
      ∀ i, ¬ p.operator i (rest.headD e).code) ∧
    (p.Separated → p.OneLevelEach →
      (∀ t, p.Reads w t → (runOn (.ofFeed f) p.parseAll).result = .ok t) ∧
      (∀ used rest t, w = used ++ rest → p.Reads used t →
        (∀ i, ¬ p.operator i (rest.headD e).code) →
        (runOn (.ofFeed f) p.parse).result = .ok t ∧
          (runOn (.ofFeed f) p.parse).cursor.ahead = (rest, .ok e)) ∧
      ∀ t t', p.Reads w t → p.Reads w t' → t = t') := by
  obtain ⟨hlimit, -⟩ := build_eq_ok hbuild
  have hallows : ∀ n, p.Allows n := fun n => .inl hlimit
  have hclose : Closes (.ok e) := fun t ht => by
    obtain rfl := Except.ok.inj ht
    exact he
  have hahead : (Cursor.ofFeed f).ahead = (w, .ok e) := by rw [Cursor.ahead_ofFeed, hf]
  have hcomplete : p.Separated → p.OneLevelEach → ∀ t, p.Reads w t →
      (runOn (.ofFeed f) p.parseAll).result = .ok t := by
    rintro hsep hone t ⟨n, hd⟩
    exact parseAll_complete hp hsep hf he (hd.mono fun _ _ => hone.innermost) (hallows n)
  refine ⟨fun t h => ?_, fun t h => ?_, fun hsep hone => ⟨hcomplete hsep hone, ?_, ?_⟩⟩
  · obtain ⟨-, n, -, hd⟩ := parseAll_sound hp hf hclose h
    exact ⟨n, hd.mono fun _ _ hop => hop.1⟩
  · obtain ⟨s', hy⟩ := result_runOn.mp h
    obtain ⟨used, rest, rfl, hs', ⟨n, -, hd⟩, hstop⟩ := (parse_finds hp).of_yields hclose hy hahead
    have hnext : upcoming rest (.ok e) = .ok (rest.headD e) := by cases rest <;> rfl
    obtain ⟨c, hlook, -⟩ := Cursor.look_one (show s'.cursor.ahead = (rest, .ok e) from hs') hclose
    refine ⟨used, rest, rfl, ⟨n, hd.mono fun _ _ hop => hop.1⟩, ?_, ?_, ?_⟩
    · rw [cursor_runOn hy]
      exact hs'
    · rw [cursor_runOn hy, hlook, hnext]
    · exact fun i => hstop _ hnext i (Nat.zero_le i)
  · rintro used rest t rfl ⟨n, hd⟩ hnone
    have hend : p.EndsAt 0 (upcoming rest (.ok e)) :=
      ⟨rest.headD e, by cases rest <;> rfl, fun i _ => hnone i⟩
    exact (parse_consumes hsep hclose (hd.mono fun _ _ => hone.innermost) (hallows n) hend).runOn
      hahead
  · intro t t' h h'
    have ht := hcomplete hsep hone t h
    rw [hcomplete hsep hone t' h'] at ht
    exact (Except.ok.inj ht).symm

/-! ## 4. A minus that is a sign, and a function that is a name

The smallest text in which one code has two roles and one name does: `-f - f(a)`. -/

/-- Sums and products of names, with a minus that is an operator and a sign; `f` is a function. -/
def signs : Grammar where
  leftParen := some ⟨9, "("⟩
  rightParen := some ⟨10, ")"⟩
  comma := some ⟨11, ","⟩
  binaries := [[⟨3, "+"⟩, ⟨4, "-"⟩], [⟨5, "*"⟩]]
  unaries := [⟨4, "-"⟩]
  identifiers := [⟨2, "name"⟩]
  isFunction := (· == "f")

/-- A token of `signs` that stands nowhere. -/
def sign (code : Int) (value : String) : Token := ⟨.unnamed code, value, .nowhere⟩

/-- The tokens of `-f - f(a)`. -/
def signed : List Token :=
  [sign 4 "-", sign 2 "f", sign 4 "-", sign 2 "f", sign 9 "(", sign 2 "a", sign 10 ")"]

/-- **`-f - f(a)` is read as a difference** of the negated name `f` and a call of the function
`f`. -/
theorem parse_exactly_language_signs : ∃ p : Parser Unit String,
    build signs (some fun t _ => .ok t.value) = .ok p ∧ p.Unsigned ∧ p.Separated ∧ p.OneLevelEach ∧
      (runOn (.ofFeed (.ofSteps (signed.map .ok))) p.parseAll).result
        = .ok (.node "-" [.node "-" [.leaf "f"], .node "f" [.leaf "a"]]) := by
  let p : Parser Unit String := {
    convert := fun t _ => .ok t.value, leftParen := ⟨9, "("⟩, rightParen := ⟨10, ")"⟩
    comma := ⟨11, ","⟩, levels := [[3, 4], [5]], unaries := [4], identifiers := [2]
    isFunction := (· == "f"), limit := 0 }
  have hbuild : build signs (some fun t _ => .ok t.value) = .ok p := rfl
  have hop : ∀ {i code}, p.operator i code → i = 0 ∧ (code = 3 ∨ code = 4) ∨ i = 1 ∧ code = 5 := by
    rintro i code ⟨ops, hops, hmem⟩
    match i, hops with
    | 0, hops => exact .inl ⟨rfl, by simpa [← Option.some.inj hops] using hmem⟩
    | 1, hops => exact .inr ⟨rfl, by simpa [← Option.some.inj hops] using hmem⟩
    | i + 2, hops => simp [p] at hops
  have hunsigned : p.Unsigned := ⟨by decide, by decide, by decide,
    fun h => by have := hop h; omega, by decide, by decide⟩
  have hsep : p.Separated :=
    ⟨fun i h => by have h : p.operator i 10 := h; have := hop h; omega,
      fun i h => by have h : p.operator i 11 := h; have := hop h; omega,
      by decide, by decide, by decide, by decide⟩
  have hone : p.OneLevelEach := fun i j code hi hj => by
    have := hop hi
    have := hop hj
    omega
  have ha : Derives p p.operator (.level 0) 1 [sign 2 "a"] [.leaf "a"] :=
    .tighter (by decide) (.tighter (by decide) (.operand (.atom (by decide) rfl) (by simp; decide)))
  have hf : Derives p p.operator (.level 0) 2 [sign 4 "-", sign 2 "f"] [.node "-" [.leaf "f"]] :=
    .tighter (by decide) (.tighter (by decide)
      (.operand (.unary (by decide) rfl (.atom (by decide) rfl)) (by simp)))
  have hcall : Derives p p.operator (.level 1) 2
      [sign 2 "f", sign 9 "(", sign 2 "a", sign 10 ")"] [.node "f" [.leaf "a"]] :=
    .tighter (by decide) (.call (by decide) rfl rfl rfl rfl (.last ha))
  have hreads : p.Reads signed (.node "-" [.node "-" [.leaf "f"], .node "f" [.leaf "a"]]) :=
    ⟨_, .binary (o := sign 4 "-") ⟨[3, 4], rfl, by decide⟩ rfl hf hcall⟩
  exact ⟨p, hbuild, hunsigned, hsep, hone,
    ((parse_exactly_language hbuild hunsigned (w := signed) (e := .eof) rfl rfl).2.2 hsep hone).1 _
      hreads⟩

/-- The parser of sums and products of names, in which a minus is an operator and a sign. -/
def signParser : Parser Unit String where
  convert := fun t _ => .ok t.value
  leftParen := ⟨9, "("⟩
  rightParen := ⟨10, ")"⟩
  comma := ⟨11, ","⟩
  levels := [[3, 4], [5]]
  unaries := [4]
  identifiers := [2]
  isFunction := (· == "f")
  limit := 0

theorem signParser_operator {i : Nat} {code : Int} (h : signParser.operator i code) :
    i = 0 ∧ (code = 3 ∨ code = 4) ∨ i = 1 ∧ code = 5 := by
  obtain ⟨ops, hops, hmem⟩ := h
  match i, hops with
  | 0, hops => exact .inl ⟨rfl, by simpa [← Option.some.inj hops] using hmem⟩
  | 1, hops => exact .inr ⟨rfl, by simpa [← Option.some.inj hops] using hmem⟩
  | i + 2, hops => simp [signParser] at hops

theorem signParser_unsigned : signParser.Unsigned :=
  ⟨by decide, by decide, by decide, fun h => by have := signParser_operator h; omega, by decide,
    by decide⟩

theorem signParser_separated : signParser.Separated :=
  ⟨fun i h => by have h : signParser.operator i 10 := h; have := signParser_operator h; omega,
    fun i h => by have h : signParser.operator i 11 := h; have := signParser_operator h; omega,
    by decide, by decide, by decide, by decide⟩

end Parser

end Formulary.Chain
