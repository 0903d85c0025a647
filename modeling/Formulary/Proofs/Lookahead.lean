import Formulary.Cursor

/-!
# What lies ahead of a cursor

A cursor keeps a buffer, a feed and the end of the input once it was met.  All that a reader of
tokens can tell from it is the list of tokens still to come and the answer that ends them.  This
module defines that view, `Cursor.ahead`, and says what the three moves of a cursor do to it:
looking at the next token changes nothing, consuming takes one token off, and requiring a kind does
both.

The statements are for inputs that end in the end of the input or in a failure (`Feed.Closes`).  A
feed that repeats a plain token for ever has no end, and nothing is said about it.
-/

namespace Formulary

/-! ## 1. Inputs that end -/

/-- The code of the end of the input is negative. -/
theorem Token.isEOF_of_code {t : Token} (ht : 0 ≤ t.code) : t.isEOF = false := by
  simp only [Token.isEOF, beq_eq_false_iff_ne]
  omega

namespace Feed

/-- The answer can end an input: it is a failure or the end token. -/
def Closes (ending : Step) : Prop := ∀ t, ending = .ok t → t.isEOF = true

theorem closes_eof : Closes (.ok .eof) := by
  rintro t ht
  obtain rfl := Except.ok.inj ht
  rfl

/-- The answer to the next question, when the tokens `w` are to come before `ending`. -/
def upcoming (w : List Token) (ending : Step) : Step :=
  match w with
  | [] => ending
  | t :: _ => .ok t

@[simp] theorem upcoming_nil (ending : Step) : upcoming [] ending = ending := rfl

@[simp] theorem upcoming_cons (t : Token) (w : List Token) (ending : Step) :
    upcoming (t :: w) ending = .ok t := rfl

@[simp] theorem untilEndFrom_nil (final : Step) : untilEndFrom final [] = ([], final) := rfl

@[simp] theorem untilEndFrom_error (final : Step) (f : Failure) (steps : List Step) :
    untilEndFrom final (.error f :: steps) = ([], .error f) := rfl

theorem untilEndFrom_eof {t : Token} (ht : t.isEOF = true) (final : Step) (steps : List Step) :
    untilEndFrom final (.ok t :: steps) = ([], .ok t) := by
  simp [untilEndFrom, ht]

theorem untilEndFrom_token {t : Token} (ht : t.isEOF = false) (final : Step) (steps : List Step) :
    untilEndFrom final (.ok t :: steps)
      = (t :: (untilEndFrom final steps).1, (untilEndFrom final steps).2) := by
  simp [untilEndFrom, ht]

/-- **No token before the end is the end token.** -/
theorem isEOF_of_mem_untilEndFrom (final : Step) :
    ∀ (steps : List Step) (t : Token), t ∈ (untilEndFrom final steps).1 → t.isEOF = false
  | [], t, h => by simp at h
  | .error f :: steps, t, h => by simp at h
  | .ok u :: steps, t, h => by
    cases hu : u.isEOF with
    | true => simp [untilEndFrom_eof hu] at h
    | false =>
      rw [untilEndFrom_token hu] at h
      rcases List.mem_cons.mp h with rfl | ht
      · exact hu
      · exact isEOF_of_mem_untilEndFrom final steps t ht

/-- There are at most as many tokens as answers. -/
theorem length_untilEndFrom_le (final : Step) :
    ∀ steps : List Step, (untilEndFrom final steps).1.length ≤ steps.length
  | [] => by simp
  | .error f :: steps => by simp
  | .ok u :: steps => by
    have ih := length_untilEndFrom_le final steps
    cases hu : u.isEOF with
    | true => simp [untilEndFrom_eof hu]
    | false =>
      rw [untilEndFrom_token hu]
      simp only [List.length_cons]
      omega

/-- **One answer of a feed takes one token off**, unless it ends the input. -/
theorem untilEnd_next {f : Feed} (he : Closes f.untilEnd.2) :
    f.untilEnd = match f.next with
      | (.error e, _) => ([], .error e)
      | (.ok t, after) =>
        if t.isEOF then ([], .ok t) else (t :: after.untilEnd.1, after.untilEnd.2) := by
  rcases f with ⟨_ | ⟨answer, steps⟩, final⟩
  · cases final with
    | error e => rfl
    | ok t => simp [untilEnd, next, show t.isEOF = true from he t rfl]
  · cases answer with
    | error e => rfl
    | ok t =>
      cases ht : t.isEOF with
      | true => simp [untilEnd, next, untilEndFrom_eof ht, ht]
      | false => simp [untilEnd, next, untilEndFrom_token ht, ht]

/-- A feed of tokens gives them and then ends. -/
theorem untilEnd_ofSteps {w : List Token} (hw : ∀ t ∈ w, t.isEOF = false) :
    (ofSteps (w.map .ok)).untilEnd = (w, .ok .eof) := by
  induction w with
  | nil => rfl
  | cons t w ih =>
    have htail := ih fun u hu => hw u (List.mem_cons_of_mem t hu)
    simp only [untilEnd, ofSteps] at htail
    simp [untilEnd, ofSteps, untilEndFrom_token (hw t List.mem_cons_self), htail]

end Feed

/-! ## 2. The view of a cursor -/

namespace Cursor

open Feed (Closes upcoming untilEndFrom)

/-- The tokens that a cursor has before it, and the answer that ends them. -/
def ahead (c : Cursor) : List Token × Step :=
  match c.ended with
  | some t => untilEndFrom (.ok t) (c.buffer.map .ok)
  | none => untilEndFrom c.feed.final (c.buffer.map .ok ++ c.feed.steps)

/-- A new cursor has all of its feed before it. -/
theorem ahead_ofFeed (f : Feed) : (ofFeed f).ahead = f.untilEnd := by
  simp [ahead, ofFeed, Feed.untilEnd]

/-- **The allowance covers the tokens to come.** -/
theorem length_ahead_le_pending (c : Cursor) : c.ahead.1.length ≤ c.pending := by
  unfold ahead pending
  split
  · have := Feed.length_untilEndFrom_le (.ok ‹Token›) (c.buffer.map .ok)
    simp only [List.length_map] at this
    omega
  · have := Feed.length_untilEndFrom_le c.feed.final (c.buffer.map .ok ++ c.feed.steps)
    simp only [List.length_append, List.length_map] at this
    omega

theorem isEOF_of_mem_ahead {c : Cursor} {t : Token} (h : t ∈ c.ahead.1) : t.isEOF = false := by
  unfold ahead at h
  split at h
  · exact Feed.isEOF_of_mem_untilEndFrom _ _ t h
  · exact Feed.isEOF_of_mem_untilEndFrom _ _ t h

/-- What lies ahead starts with the token in front of the buffer. -/
theorem ahead_of_buffer {c : Cursor} {t : Token} {buffer : List Token}
    (hb : c.buffer = t :: buffer) :
    c.ahead = if t.isEOF then ([], .ok t)
      else (t :: ({ c with buffer } : Cursor).ahead.1, ({ c with buffer } : Cursor).ahead.2) := by
  unfold ahead
  cases he : c.ended <;> cases ht : t.isEOF <;>
    simp [hb, Feed.untilEndFrom_eof, Feed.untilEndFrom_token, ht]

/-- The last token consumed has no part in what lies ahead. -/
theorem ahead_last (c : Cursor) (buffer : List Token) (last : Token) :
    ({ c with buffer, last } : Cursor).ahead = ({ c with buffer } : Cursor).ahead := rfl

/-! ## 3. The moves -/

/-- A token waits already, and it is the one that comes next. -/
theorem fill_one_of_buffer {c : Cursor} {t : Token} {buffer : List Token}
    (hb : c.buffer = t :: buffer) :
    upcoming c.ahead.1 c.ahead.2 = .ok t ∧ c.fill 1 = (.ok (), c) := by
  refine ⟨?_, by simp [fill, hb, fetch]⟩
  rw [ahead_of_buffer hb]
  split
  · rfl
  · rfl

/-- The end was met before; it is answered again. -/
theorem fill_one_of_ended {c : Cursor} {t : Token} (hb : c.buffer = []) (hend : c.ended = some t) :
    c.ahead = ([], .ok t) ∧ c.fill 1 = (.ok (), { c with buffer := [t] }) := by
  constructor
  · simp [ahead, hend, hb]
  · simp [fill, hb, fetch, hend]

/-- Fetching one token shows it and moves nothing, when the feed has to be asked. -/
theorem fill_one_of_feed {c : Cursor} (hb : c.buffer = []) (hend : c.ended = none)
    (he : Closes c.ahead.2) :
    ∃ c', c.fill 1 = ((upcoming c.ahead.1 c.ahead.2).map fun _ => (), c') ∧
      ∀ t, upcoming c.ahead.1 c.ahead.2 = .ok t → c'.ahead = c.ahead ∧ c'.buffer = [t] := by
  have hahead : c.ahead = c.feed.untilEnd := by simp [ahead, hend, hb, Feed.untilEnd]
  rw [hahead] at he ⊢
  rw [Feed.untilEnd_next he]
  rcases hnext : c.feed.next with ⟨answer, after⟩
  cases answer with
  | error e =>
    exact ⟨{ c with feed := after }, by simp [fill, hb, fetch, hend, hnext, Except.map], by simp⟩
  | ok t =>
    cases ht : t.isEOF with
    | true =>
      simp only [ht, ↓reduceIte]
      refine ⟨{ c with feed := after, buffer := [t], ended := some t },
        by simp [fill, hb, fetch, hend, hnext, ht, Except.map], ?_⟩
      intro u hu
      obtain rfl := Except.ok.inj hu
      exact ⟨by simp [ahead, Feed.untilEndFrom_eof ht], rfl⟩
    | false =>
      simp only [ht, Bool.false_eq_true, ↓reduceIte]
      refine ⟨{ c with feed := after, buffer := [t], ended := none },
        by simp [fill, hb, fetch, hend, hnext, ht, Except.map], ?_⟩
      intro u hu
      obtain rfl := Except.ok.inj hu
      exact ⟨by simp [ahead, Feed.untilEndFrom_token ht, Feed.untilEnd], rfl⟩

/-- **Fetching one token shows it and moves nothing.** -/
theorem fill_one {c : Cursor} {w : List Token} {ending : Step} (h : c.ahead = (w, ending))
    (he : Closes ending) :
    ∃ c', c.fill 1 = ((upcoming w ending).map fun _ => (), c') ∧
      ∀ t, upcoming w ending = .ok t →
        c'.ahead = (w, ending) ∧ ∃ buffer, c'.buffer = t :: buffer := by
  cases hb : c.buffer with
  | cons t buffer =>
    obtain ⟨hnext, hfill⟩ := fill_one_of_buffer hb
    rw [h] at hnext
    refine ⟨c, by simp [hfill, hnext, Except.map], fun u hu => ?_⟩
    obtain rfl := Except.ok.inj (hnext.symm.trans hu)
    exact ⟨h, buffer, hb⟩
  | nil =>
    cases hend : c.ended with
    | some t =>
      obtain ⟨hahead, hfill⟩ := fill_one_of_ended hb hend
      obtain ⟨rfl, rfl⟩ := Prod.mk.inj (hahead.symm.trans h)
      refine ⟨{ c with buffer := [t] }, by simp [hfill, Except.map], fun u hu => ?_⟩
      obtain rfl := Except.ok.inj hu
      exact ⟨by simp [ahead, hend, Feed.untilEndFrom_eof (he _ rfl)], [], rfl⟩
    | none =>
      obtain ⟨c', hfill, hc'⟩ := fill_one_of_feed hb hend (by rw [h]; exact he)
      rw [h] at hfill hc'
      refine ⟨c', hfill, fun t ht => ?_⟩
      obtain ⟨hahead, hbuffer⟩ := hc' t ht
      exact ⟨hahead, [], hbuffer⟩

/-- **Looking at the next token answers with it and moves nothing.** -/
theorem look_one {c : Cursor} {w : List Token} {ending : Step} (h : c.ahead = (w, ending))
    (he : Closes ending) :
    ∃ c', c.look 1 = (upcoming w ending, c') ∧
      ∀ t, upcoming w ending = .ok t → c'.ahead = (w, ending) := by
  obtain ⟨c', hfill, hnext⟩ := fill_one h he
  refine ⟨c', ?_, fun t ht => (hnext t ht).1⟩
  cases hu : upcoming w ending with
  | error f => simp [look, hfill, hu, Except.map]
  | ok t =>
    obtain ⟨-, buffer, hbuf⟩ := hnext t hu
    simp [look, hfill, hu, Except.map, hbuf]

/-- **Consuming takes the next token off.** -/
theorem consume_cons {c : Cursor} {t : Token} {w : List Token} {ending : Step}
    (h : c.ahead = (t :: w, ending)) (he : Closes ending) :
    ∃ c', c.consume = (.ok (), c') ∧ c'.ahead = (w, ending) := by
  obtain ⟨c', hfill, hnext⟩ := fill_one h he
  obtain ⟨hahead, buffer, hbuf⟩ := hnext t rfl
  have ht : t.isEOF = false := isEOF_of_mem_ahead (c := c) (by rw [h]; exact List.mem_cons_self)
  refine ⟨{ c' with buffer, last := t }, by simp [consume, hfill, Except.map, hbuf, ht], ?_⟩
  rw [ahead_last]
  rw [ahead_of_buffer hbuf, ht] at hahead
  simp only [Bool.false_eq_true, if_false, Prod.mk.injEq, List.cons.injEq, true_and] at hahead
  exact Prod.ext hahead.1 hahead.2

/-- **Requiring the kind of the next token takes it off.** -/
theorem expect_cons {c : Cursor} {t : Token} {w : List Token} {ending : Step} {k : Kind}
    (h : c.ahead = (t :: w, ending)) (he : Closes ending) (hk : t.code = k.code) :
    ∃ c', c.expect k = (.ok t, c') ∧ c'.ahead = (w, ending) := by
  obtain ⟨c₁, hlook, hnext⟩ := look_one h he
  obtain ⟨c₂, hconsume, hahead⟩ := consume_cons (hnext t rfl) he
  exact ⟨c₂, by simp [expect, hlook, hk, hconsume], hahead⟩

/-- Where the source fails, requiring a kind fails with it. -/
theorem expect_failed {c : Cursor} {w : List Token} {ending : Step} {f : Failure} (k : Kind)
    (h : c.ahead = (w, ending)) (he : Closes ending) (hf : upcoming w ending = .error f) :
    ∃ c', c.expect k = (.error f, c') := by
  obtain ⟨c₁, hlook, -⟩ := look_one h he
  exact ⟨c₁, by simp [expect, hlook, hf]⟩

/-- A token of another kind than the one required is refused. -/
theorem expect_refused {c : Cursor} {w : List Token} {ending : Step} {k : Kind} {t : Token}
    (h : c.ahead = (w, ending)) (he : Closes ending) (ht : upcoming w ending = .ok t)
    (hk : t.code ≠ k.code) : ∃ c', c.expect k = (.error (.misplaced (.wanted k t)), c') := by
  obtain ⟨c₁, hlook, -⟩ := look_one h he
  exact ⟨c₁, by simp [expect, hlook, ht, hk]⟩

/-- Another kind than that of the next token is refused. -/
theorem expect_ne {c : Cursor} {w : List Token} {ending : Step} {k : Kind}
    (h : c.ahead = (w, ending)) (he : Closes ending)
    (hk : ∀ t, upcoming w ending = .ok t → t.code ≠ k.code) :
    ∃ f c', c.expect k = (.error f, c') := by
  cases hu : upcoming w ending with
  | error f => exact ⟨f, expect_failed k h he hu⟩
  | ok t => exact ⟨_, expect_refused h he hu (hk t hu)⟩

end Cursor

end Formulary
