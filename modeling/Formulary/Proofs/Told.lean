import Formulary.Cursor

/-!
# What a cursor keeps of what its source has told

The tokens that a source has given so far, cut behind the end of the input, which is then repeated
for ever, are what it has told (`told`).  A cursor keeps a buffer of them.  The invariant is
`Cursor.Follows`: what was consumed and what waits in the buffer make up what was told, so no token
is lost or doubled, also where the source fails in the middle of a look far ahead.

Four steps keep the invariant: the source gives a token or fails, the end is met again, a token is
consumed.  The moves of a cursor are put together from them. -/

namespace Formulary

/-! ## 1. What a source has told -/

/-- The tokens among the answers of a source. -/
def tokensOf (answers : List Step) : List Token := answers.filterMap Except.toOption

/-- The token in the place `i`, counted from 0, of the tokens that were given, cut behind the first
end of the input, which is repeated for ever. -/
def told : List Token → Nat → Option Token
  | [], _ => none
  | t :: _, 0 => some t
  | t :: tokens, i + 1 => if t.isEOF then some t else told tokens i

/-- The last token that is not the end of the input, or the end if there is none. -/
def lastOf (tokens : List Token) : Token := (tokens.filter (!·.isEOF)).getLast?.getD .eof

theorem lastOf_append (tokens : List Token) (t : Token) :
    lastOf (tokens ++ [t]) = if t.isEOF then lastOf tokens else t := by
  cases ht : t.isEOF <;> simp [lastOf, ht]

/-- No answer is the end of the input. -/
def Open (answers : List Step) : Prop := ∀ t, .ok t ∈ answers → t.isEOF = false

/-- No answer is a failure. -/
def Smooth (answers : List Step) : Prop := ∀ f, .error f ∉ answers

@[simp] theorem tokensOf_append (given fresh : List Step) :
    tokensOf (given ++ fresh) = tokensOf given ++ tokensOf fresh := by
  simp [tokensOf]

@[simp] theorem tokensOf_ok (t : Token) : tokensOf [.ok t] = [t] := rfl

@[simp] theorem tokensOf_error (f : Failure) : tokensOf [.error f] = [] := rfl

theorem isEOF_of_open {answers : List Step} (h : Open answers) {t : Token}
    (ht : t ∈ tokensOf answers) : t.isEOF = false := by
  simp only [tokensOf, List.mem_filterMap] at ht
  obtain ⟨answer, hmem, hanswer⟩ := ht
  cases answer with
  | error f => simp [Except.toOption] at hanswer
  | ok u =>
    obtain rfl := Option.some.inj hanswer
    exact h u hmem

/-- Before the end, the tokens are told as they were given. -/
theorem told_of_open {tokens : List Token} (h : ∀ t ∈ tokens, t.isEOF = false) (i : Nat) :
    told tokens i = tokens[i]? := by
  induction tokens generalizing i with
  | nil => simp [told]
  | cons t tokens ih =>
    cases i with
    | zero => rfl
    | succ i =>
      simp only [told, h t List.mem_cons_self, Bool.false_eq_true, if_false,
        List.getElem?_cons_succ]
      exact ih (fun u hu => h u (List.mem_cons_of_mem t hu)) i

/-- **The end is told for ever.** -/
theorem told_of_ended {tokens : List Token} {e : Token} (h : ∀ t ∈ tokens, t.isEOF = false)
    (he : e.isEOF = true) (i : Nat) :
    told (tokens ++ [e]) i = some (tokens[i]?.getD e) := by
  induction tokens generalizing i with
  | nil => cases i <;> simp [told, he]
  | cons t tokens ih =>
    cases i with
    | zero => rfl
    | succ i =>
      simp only [List.cons_append, told, h t List.mem_cons_self, Bool.false_eq_true, if_false,
        List.getElem?_cons_succ]
      exact ih (fun u hu => h u (List.mem_cons_of_mem t hu)) i

/-- A list is what is told in its places. -/
theorem filterMap_range {tokens : List Token} {tell : Nat → Option Token}
    (h : ∀ i t, tokens[i]? = some t → tell i = some t) :
    (List.range tokens.length).filterMap tell = tokens := by
  induction tokens generalizing tell with
  | nil => rfl
  | cons t tokens ih =>
    have htail : (List.range tokens.length).filterMap (fun i => tell (i + 1)) = tokens :=
      ih fun i u hu => h (i + 1) u (by simpa using hu)
    rw [List.length_cons, List.range_succ_eq_map, List.filterMap_cons, h 0 t rfl,
      List.filterMap_map]
    exact congrArg (t :: ·) htail

/-! ## 2. What a cursor keeps -/

namespace Cursor

/-- Of the answers of a source, `given` have been asked for, and of the tokens told, `passed` have
been consumed. -/
structure Follows (answers given : List Step) (passed : List Token) (c : Cursor) : Prop where
  answers : answers = given ++ c.feed.steps
  /-- Before the end all tokens given are consumed or wait. -/
  waiting : c.ended = none → Open given ∧ tokensOf given = passed ++ c.buffer
  /-- The end is the last answer, and has been met once or more. -/
  closed : ∀ e, c.ended = some e → e.isEOF = true ∧ ∃ start extra, given = start ++ [.ok e] ∧
    Open start ∧ passed ++ c.buffer = tokensOf start ++ List.replicate (extra + 1) e
  last : c.last = lastOf passed

namespace Follows

variable {answers given : List Step} {passed : List Token} {c : Cursor}

theorem ofFeed (steps : List Step) (final : Step) :
    Follows steps [] [] (Cursor.ofFeed ⟨steps, final⟩) where
  answers := rfl
  waiting := fun _ => ⟨by simp [Open], rfl⟩
  closed := by simp [Cursor.ofFeed]
  last := rfl

/-- **What was consumed and what waits is what was told.** -/
theorem told_eq (h : Follows answers given passed c) {i : Nat} {t : Token}
    (ht : (passed ++ c.buffer)[i]? = some t) : told (tokensOf given) i = some t := by
  cases hend : c.ended with
  | none =>
    obtain ⟨hopen, htokens⟩ := h.waiting hend
    rw [told_of_open fun u hu => isEOF_of_open hopen hu, htokens, ht]
  | some e =>
    obtain ⟨he, start, extra, rfl, hopen, htokens⟩ := h.closed e hend
    rw [tokensOf_append, tokensOf_ok, told_of_ended (fun u hu => isEOF_of_open hopen hu) he]
    rw [htokens, List.getElem?_append] at ht
    split at ht
    · next hi => rw [ht, Option.getD_some]
    · next hi =>
      rw [List.getElem?_eq_none (Nat.le_of_not_lt hi), Option.getD_none]
      rw [List.eq_of_mem_replicate (List.mem_of_getElem? ht)]

/-! One step of a cursor, of four kinds. -/

/-- The end is met again. -/
theorem again (h : Follows answers given passed c) {e : Token} (hend : c.ended = some e) :
    Follows answers given passed { c with buffer := c.buffer ++ [e] } where
  answers := h.answers
  waiting := by simp [hend]
  closed := by
    intro e' hend'
    obtain rfl : e = e' := Option.some.inj (hend.symm.trans hend')
    obtain ⟨he, start, extra, hgiven, hopen, htokens⟩ := h.closed e hend
    refine ⟨he, start, extra + 1, hgiven, hopen, ?_⟩
    rw [← List.append_assoc, htokens, List.append_assoc, ← List.replicate_succ']
  last := h.last

/-- The source fails. -/
theorem error (h : Follows answers given passed c) (hend : c.ended = none) {f : Failure}
    {rest : List Step} (hsteps : c.feed.steps = .error f :: rest) :
    Follows answers (given ++ [.error f]) passed
      { c with feed := { c.feed with steps := rest } } where
  answers := by simp [h.answers, hsteps]
  waiting := by
    intro _
    obtain ⟨hopen, htokens⟩ := h.waiting hend
    refine ⟨fun t ht => hopen t (by simpa using ht), ?_⟩
    simpa using htokens
  closed := by simp [hend]
  last := h.last

/-- The source gives a token. -/
theorem token (h : Follows answers given passed c) (hend : c.ended = none) {t : Token}
    {rest : List Step} (hsteps : c.feed.steps = .ok t :: rest) :
    Follows answers (given ++ [.ok t]) passed { c with
      feed := { c.feed with steps := rest }, buffer := c.buffer ++ [t],
      ended := if t.isEOF then some t else none } := by
  obtain ⟨hopen, htokens⟩ := h.waiting hend
  refine ⟨by simp [h.answers, hsteps], fun hnone => ⟨?_, ?_⟩, fun e he => ?_, h.last⟩
  · intro u hu
    rcases List.mem_append.mp hu with hu | hu
    · exact hopen u hu
    · obtain rfl : u = t := by simpa using hu
      simpa using hnone
  · simp [htokens]
  · have ht : t.isEOF = true ∧ t = e := by simpa using he
    obtain ⟨ht, rfl⟩ := ht
    exact ⟨ht, given, 0, rfl, hopen, by simp [htokens]⟩

/-- A token that waits is consumed. -/
theorem pass (h : Follows answers given passed c) {t : Token} {buffer : List Token}
    (hbuffer : c.buffer = t :: buffer) :
    Follows answers given (passed ++ [t])
      { c with buffer, last := if t.isEOF then c.last else t } where
  answers := h.answers
  waiting := fun hend => by simpa [hbuffer] using h.waiting hend
  closed := fun e hend => by simpa [hbuffer] using h.closed e hend
  last := by
    dsimp only
    rw [lastOf_append, h.last]

end Follows

/-- The answers to one request for tokens: all are tokens but the last one, if the request fails. -/
def Settles {α : Type} (fresh : List Step) : Except Failure α → Prop
  | .ok _ => Smooth fresh
  | .error f => ∃ good, fresh = good ++ [.error f] ∧ Smooth good

theorem settles_nil {α : Type} (a : α) : Settles [] (.ok a) := by simp [Settles, Smooth]

/-- A token before the answers to a request changes nothing about them. -/
theorem Settles.cons {α : Type} {fresh : List Step} {r : Except Failure α} (h : Settles fresh r)
    (t : Token) : Settles (.ok t :: fresh) r := by
  cases r with
  | ok a =>
    intro f hf
    exact h f (by simpa using hf)
  | error f =>
    obtain ⟨good, rfl, hgood⟩ := h
    exact ⟨.ok t :: good, rfl, fun g hg => hgood g (by simpa using hg)⟩

theorem Settles.mem {α : Type} {fresh : List Step} {f : Failure}
    (h : Settles fresh (.error f : Except Failure α)) : .error f ∈ fresh := by
  obtain ⟨good, rfl, -⟩ := h
  simp

/-- **Fetching keeps what was told**, also where it fails half way. -/
theorem Follows.fetch {answers given : List Step} {passed : List Token} {c : Cursor}
    (h : Follows answers given passed c) {missing : Nat} (hroom : missing ≤ c.feed.steps.length)
    {r : Except Failure Unit} {c' : Cursor} (hfetch : fetch missing c = (r, c')) :
    ∃ fresh, fresh.length ≤ missing ∧ Settles fresh r ∧ Follows answers (given ++ fresh) passed c' ∧
      (r = .ok () → c'.buffer.length = c.buffer.length + missing) := by
  induction missing generalizing c given with
  | zero =>
    obtain ⟨rfl, rfl⟩ := Prod.mk.inj hfetch
    exact ⟨[], Nat.le_refl 0, settles_nil (), by simpa using h, fun _ => rfl⟩
  | succ missing ih =>
    cases hend : c.ended with
    | some e =>
      simp only [Cursor.fetch, hend] at hfetch
      obtain ⟨fresh, hlength, hsettles, hfollows, hbuffer⟩ :=
        ih (h.again hend) (by simp only; omega) (by simpa only [hend] using hfetch)
      refine ⟨fresh, by omega, hsettles, hfollows, fun hr => ?_⟩
      rw [hbuffer hr, List.length_append, List.length_singleton]
      omega
    | none =>
      cases hsteps : c.feed.steps with
      | nil =>
        rw [hsteps] at hroom
        simp at hroom
      | cons answer rest =>
        rw [hsteps, List.length_cons] at hroom
        cases answer with
        | error f =>
          simp only [Cursor.fetch, hend, Feed.next, hsteps, Prod.mk.injEq] at hfetch
          obtain ⟨rfl, rfl⟩ := hfetch
          refine ⟨[.error f], by simp, ⟨[], rfl, by simp [Smooth]⟩, ?_, by simp⟩
          simpa only [hend] using h.error hend hsteps
        | ok t =>
          simp only [Cursor.fetch, hend, Feed.next, hsteps] at hfetch
          obtain ⟨fresh, hlength, hsettles, hfollows, hbuffer⟩ :=
            ih (h.token hend hsteps) (by simp only; omega) hfetch
          refine ⟨.ok t :: fresh, by simp only [List.length_cons]; omega, hsettles.cons t, ?_, ?_⟩
          · simpa using hfollows
          · intro hr
            rw [hbuffer hr, List.length_append, List.length_singleton]
            omega

/-! ## 3. Looking and moving -/

namespace Follows

variable {answers given : List Step} {passed : List Token} {c c' : Cursor}

/-- What waits in the buffer is told behind what was consumed. -/
theorem told_buffer (h : Follows answers given passed c) {i : Nat} {t : Token}
    (ht : c.buffer[i]? = some t) : told (tokensOf given) (passed.length + i) = some t := by
  refine h.told_eq ?_
  rw [List.getElem?_append_right (Nat.le_add_right _ _), Nat.add_sub_cancel_left]
  exact ht

/-- What was consumed is the beginning of what was told. -/
theorem told_passed (h : Follows answers given passed c) :
    (List.range passed.length).filterMap (told (tokensOf given)) = passed := by
  refine filterMap_range fun i t ht => h.told_eq ?_
  have hi : i < passed.length := (List.getElem?_eq_some_iff.mp ht).1
  rw [List.getElem?_append_left hi]
  exact ht

/-- The end of the input is the last answer, if it was given. -/
theorem ended (h : Follows answers given passed c) {t : Token} (ht : .ok t ∈ given)
    (hend : t.isEOF = true) : ∃ start, given = start ++ [.ok t] ∧ Open start := by
  cases hended : c.ended with
  | none =>
    rw [(h.waiting hended).1 t ht] at hend
    simp at hend
  | some e =>
    obtain ⟨-, start, extra, rfl, hopen, -⟩ := h.closed e hended
    rcases List.mem_append.mp ht with ht | ht
    · rw [hopen t ht] at hend
      simp at hend
    · obtain rfl : t = e := by simpa using ht
      exact ⟨start, rfl, hopen⟩

theorem fill (h : Follows answers given passed c) {k : Nat} (hroom : k ≤ c.feed.steps.length)
    {r : Except Failure Unit} (hfill : c.fill k = (r, c')) :
    ∃ fresh, fresh.length ≤ k ∧ Settles fresh r ∧ Follows answers (given ++ fresh) passed c' ∧
      (r = .ok () → k ≤ c'.buffer.length) := by
  obtain ⟨fresh, hlength, hsettles, hfollows, hbuffer⟩ := h.fetch (by omega) hfill
  exact ⟨fresh, by omega, hsettles, hfollows, fun hr => by rw [hbuffer hr]; omega⟩

/-- **A look answers with the token told in that place**, and moves nothing. -/
theorem look (h : Follows answers given passed c) {k : Int} (hroom : k.toNat ≤ c.feed.steps.length)
    {r : Except Failure Token} (hlook : c.look k = (r, c')) :
    ∃ fresh, fresh.length ≤ k.toNat ∧ Follows answers (given ++ fresh) passed c' ∧
      (k < 1 ∧ r = .error (.lookahead k) ∧ fresh = [] ∨
        1 ≤ k ∧ Settles fresh r ∧ ∀ t, r = .ok t → c'.buffer[k.toNat - 1]? = some t) := by
  unfold Cursor.look at hlook
  split at hlook
  · next hk =>
    obtain ⟨rfl, rfl⟩ := Prod.mk.inj hlook
    exact ⟨[], by simp, by simpa using h, .inl ⟨hk, rfl, rfl⟩⟩
  · next hk =>
    rcases hfill : c.fill k.toNat with ⟨filled, c₁⟩
    obtain ⟨fresh, hlength, hsettles, hfollows, hbuffer⟩ := h.fill hroom hfill
    rw [hfill] at hlook
    cases filled with
    | error f =>
      obtain ⟨rfl, rfl⟩ := Prod.mk.inj hlook
      exact ⟨fresh, hlength, hfollows, .inr ⟨by omega, hsettles, by simp⟩⟩
    | ok _ =>
      obtain ⟨rfl, rfl⟩ := Prod.mk.inj hlook
      refine ⟨fresh, hlength, hfollows, .inr ⟨by omega, hsettles, fun t ht => ?_⟩⟩
      have hlt : k.toNat - 1 < c₁.buffer.length := by
        have := hbuffer rfl
        omega
      rw [← Except.ok.inj ht, List.getD_eq_getElem?_getD, List.getElem?_eq_getElem hlt]
      rfl

/-- A token that waits is consumed without a question. -/
theorem consume_of_buffer {t : Token} {buffer : List Token} (hbuffer : c.buffer = t :: buffer) :
    c.consume = (.ok (), { c with buffer, last := if t.isEOF then c.last else t }) := by
  simp [Cursor.consume, Cursor.fill, Cursor.fetch, hbuffer]

/-- **Consuming moves along what was told**, by one token if the source does not fail. -/
theorem consume (h : Follows answers given passed c) (hroom : 1 ≤ c.feed.steps.length)
    {r : Except Failure Unit} (hconsume : c.consume = (r, c')) :
    ∃ fresh, fresh.length ≤ 1 ∧ Settles fresh r ∧
      ((∃ f, r = .error f) ∧ Follows answers (given ++ fresh) passed c' ∨
        r = .ok () ∧ ∃ t, told (tokensOf (given ++ fresh)) passed.length = some t ∧
          Follows answers (given ++ fresh) (passed ++ [t]) c') := by
  rcases hfill : c.fill 1 with ⟨filled, c₁⟩
  obtain ⟨fresh, hlength, hsettles, hfollows, hbuffer⟩ := h.fill hroom hfill
  cases filled with
  | error f =>
    simp only [Cursor.consume, hfill, Prod.mk.injEq] at hconsume
    obtain ⟨rfl, rfl⟩ := hconsume
    exact ⟨fresh, hlength, hsettles, .inl ⟨⟨f, rfl⟩, hfollows⟩⟩
  | ok _ =>
    obtain ⟨t, buffer, hb⟩ : ∃ t buffer, c₁.buffer = t :: buffer :=
      List.exists_cons_of_length_pos (hbuffer rfl)
    have hfirst : c₁.buffer[0]? = some t := by simp [hb]
    simp only [Cursor.consume, hfill, hb, Prod.mk.injEq] at hconsume
    obtain ⟨rfl, rfl⟩ := hconsume
    exact ⟨fresh, hlength, hsettles, .inr ⟨rfl, t, hfollows.told_buffer hfirst, hfollows.pass hb⟩⟩

/-- **Requiring a kind moves past the token told next**, if it has that kind. -/
theorem expect (h : Follows answers given passed c) (hroom : 1 ≤ c.feed.steps.length) {kind : Kind}
    {r : Except Failure Token} (hexpect : c.expect kind = (r, c')) :
    ∃ fresh, fresh.length ≤ 1 ∧
      ((∃ f, r = .error f) ∧ Settles fresh r ∧ Follows answers (given ++ fresh) passed c' ∨
        Smooth fresh ∧ ∃ t, told (tokensOf (given ++ fresh)) passed.length = some t ∧
          (t.code = kind.code ∧ r = .ok t ∧ Follows answers (given ++ fresh) (passed ++ [t]) c' ∨
            t.code ≠ kind.code ∧ r = .error (.misplaced (.wanted kind t)) ∧
              Follows answers (given ++ fresh) passed c')) := by
  rcases hlook : c.look 1 with ⟨looked, c₁⟩
  obtain ⟨fresh, hlength, hfollows, ⟨hk, -⟩ | ⟨-, hsettles, hbuffer⟩⟩ :=
    h.look (show (1 : Int).toNat ≤ _ from hroom) hlook
  · omega
  · refine ⟨fresh, hlength, ?_⟩
    cases looked with
    | error f =>
      simp only [Cursor.expect, hlook, Prod.mk.injEq] at hexpect
      obtain ⟨rfl, rfl⟩ := hexpect
      exact .inl ⟨⟨f, rfl⟩, hsettles, hfollows⟩
    | ok t =>
      have hfirst : c₁.buffer[0]? = some t := hbuffer t rfl
      obtain ⟨buffer, hb⟩ : ∃ buffer, c₁.buffer = t :: buffer := by
        cases hb : c₁.buffer with
        | nil => simp [hb] at hfirst
        | cons u buffer =>
          obtain rfl : u = t := by simpa [hb] using hfirst
          exact ⟨buffer, rfl⟩
      refine .inr ⟨hsettles, t, hfollows.told_buffer hfirst, ?_⟩
      by_cases hcode : t.code = kind.code
      · simp only [Cursor.expect, hlook, hcode, beq_self_eq_true, if_true, consume_of_buffer hb,
          Prod.mk.injEq] at hexpect
        obtain ⟨rfl, rfl⟩ := hexpect
        exact .inl ⟨hcode, rfl, hfollows.pass hb⟩
      · simp only [Cursor.expect, hlook, beq_iff_eq, hcode, if_false, Prod.mk.injEq] at hexpect
        obtain ⟨rfl, rfl⟩ := hexpect
        exact .inr ⟨hcode, rfl, hfollows⟩

end Follows

end Cursor

end Formulary
