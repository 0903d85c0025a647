import Mathlib.Algebra.GroupWithZero.Nat
import Formulary.Proofs.Told

/-!
# A cursor and its callers

A caller of a cursor sees replies only.  This module says what they amount to, for every source of
tokens and every sequence of calls: what the source has told is what the calls look at and move
along, and each of its failures is the reply of one call.

`Cursor.Follows.served` is the statement for one call.  It hands on the invariant of the cursor, so
it carries over to a sequence of calls, and in the end the questions that the source was asked are
counted. -/

namespace Formulary

/-! ## 1. Calls and replies -/

/-- A call of a cursor. -/
inductive Call where
  | look (k : Int)
  | lookCode (k : Int)
  | expect (kind : Kind)
  | consume
  | last
  deriving Repr, DecidableEq

/-- What a caller gets back. -/
inductive Reply where
  | token (t : Token)
  | code (code : Int)
  | moved
  | failed (f : Failure)
  deriving Repr, DecidableEq

/-- The reply for a result. -/
def Reply.of {α : Type} (ok : α → Reply) : Except Failure α → Reply
  | .ok a => ok a
  | .error f => failed f

namespace Call

/-- How often a call can ask the source. -/
def reach : Call → Nat
  | look k => k.toNat
  | lookCode k => k.toNat
  | expect _ => 1
  | consume => 1
  | last => 0

/-- The reply says that a token was consumed. -/
def consumes : Call → Reply → Bool
  | expect _, .token _ => true
  | consume, .moved => true
  | _, _ => false

end Call

namespace Cursor

/-- The reply of a cursor to a call, and the cursor after it. -/
def reply (c : Cursor) : Call → Reply × Cursor
  | .look k => ((c.look k).1 |> .of .token, (c.look k).2)
  | .lookCode k => ((c.lookCode k).1 |> .of .code, (c.lookCode k).2)
  | .expect kind => ((c.expect kind).1 |> .of .token, (c.expect kind).2)
  | .consume => (c.consume.1 |> .of fun _ => .moved, c.consume.2)
  | .last => (.token c.last, c)

/-- The cursor after a sequence of calls. -/
def after (c : Cursor) (calls : List Call) : Cursor :=
  calls.foldl (fun c call => (c.reply call).2) c

/-- The number of tokens that a sequence of calls consumes. -/
def consumed : Cursor → List Call → Nat
  | _, [] => 0
  | c, call :: calls =>
    (if call.consumes (c.reply call).1 then 1 else 0) + consumed (c.reply call).2 calls

/-- A cursor over a source whose answers are `next 0`, `next 1` and so on, good for asking it `n`
times. -/
def ofAnswers (next : Nat → Step) (n : Nat) : Cursor := ofFeed ⟨(List.range n).map next, next n⟩

/-- How often the source of such a cursor has been asked. -/
def asked (n : Nat) (c : Cursor) : Nat := n - c.feed.steps.length

/-- The answers of a source from the `i`-th to the `j`-th, which is left out. -/
def heard (next : Nat → Step) (i j : Nat) : List Step := (List.range' i (j - i)).map next

end Cursor

/-- The reply to a call fits what the source has told.  It has given the answers `given` before the
call and `fresh` during it, and `m` tokens were consumed before. -/
def Call.Fits (given fresh : List Step) (m : Nat) : Call → Reply → Prop
  | look k, .token t => 1 ≤ k ∧ told (tokensOf (given ++ fresh)) (m + (k.toNat - 1)) = some t
  | lookCode k, .code code =>
    1 ≤ k ∧ ∃ t, told (tokensOf (given ++ fresh)) (m + (k.toNat - 1)) = some t ∧ t.code = code
  | expect kind, .token t =>
    told (tokensOf (given ++ fresh)) m = some t ∧ t.code = kind.code
  | consume, .moved => ∃ t, told (tokensOf (given ++ fresh)) m = some t
  | last, .token t => t = lastOf ((List.range m).filterMap (told (tokensOf (given ++ fresh))))
  | look k, .failed f => k < 1 ∧ f = .lookahead k ∨ .error f ∈ fresh
  | lookCode k, .failed f => k < 1 ∧ f = .lookahead k ∨ .error f ∈ fresh
  | expect kind, .failed f =>
    .error f ∈ fresh ∨ ∃ t, told (tokensOf (given ++ fresh)) m = some t ∧ t.code ≠ kind.code ∧
      f = .misplaced (.wanted kind t)
  | consume, .failed f => .error f ∈ fresh
  | _, _ => False

/-- A call is faithful to the source of the tokens. -/
structure Call.Faithful (given fresh : List Step) (m : Nat) (call : Call) (r : Reply) : Prop where
  fits : call.Fits given fresh m r
  /-- A failure of the source ends the call and is its reply. -/
  failure : ∀ f, .error f ∈ fresh → r = .failed f ∧
    ∃ good, fresh = good ++ [.error f] ∧ Smooth good
  /-- The source is not asked again behind the end of the input. -/
  ended : ∀ t, .ok t ∈ given ++ fresh → t.isEOF = true →
    ∃ start, given ++ fresh = start ++ [.ok t] ∧ Open start

/-! ## 2. One call -/

namespace Cursor

/-- A failure among the answers to a request is that of the request. -/
theorem Settles.failed {α : Type} {fresh : List Step} {r : Except Failure α} (h : Settles fresh r)
    (ok : α → Reply) (f : Failure) (hf : .error f ∈ fresh) :
    Reply.of ok r = .failed f ∧ ∃ good, fresh = good ++ [.error f] ∧ Smooth good := by
  cases r with
  | ok a => exact absurd hf (h f)
  | error g =>
    obtain ⟨good, rfl, hgood⟩ := h
    rcases List.mem_append.mp hf with hf | hf
    · exact absurd hf (hgood f)
    · obtain rfl : f = g := by simpa using hf
      exact ⟨rfl, good, rfl, hgood⟩

theorem lookCode_eq (c : Cursor) (k : Int) :
    c.lookCode k = ((c.look k).1.map Token.code, (c.look k).2) := by
  unfold lookCode
  rcases c.look k with ⟨r, c'⟩
  cases r <;> rfl

/-- The call is faithful, its reply is `r`, and the cursor `c'` goes on from there. -/
def Served (answers given : List Step) (passed : List Token) (call : Call) (r : Reply)
    (c' : Cursor) : Prop :=
  ∃ fresh taken, fresh.length ≤ call.reach ∧
    Follows answers (given ++ fresh) (passed ++ taken) c' ∧
    taken.length = (if call.consumes r then 1 else 0) ∧
    call.Faithful given fresh passed.length r

namespace Follows

variable {answers given : List Step} {passed : List Token} {c c' : Cursor} {r : Reply}

/-- A look, told by its result. -/
theorem look_says (h : Follows answers given passed c) {k : Int}
    (hroom : k.toNat ≤ c.feed.steps.length) {looked : Except Failure Token}
    (hlook : c.look k = (looked, c')) :
    ∃ fresh, fresh.length ≤ k.toNat ∧ Follows answers (given ++ fresh) passed c' ∧
      (∀ t, looked = .ok t →
        1 ≤ k ∧ told (tokensOf (given ++ fresh)) (passed.length + (k.toNat - 1)) = some t) ∧
      (∀ f, looked = .error f → k < 1 ∧ f = .lookahead k ∨ .error f ∈ fresh) ∧
      ∀ ok f, .error f ∈ fresh → Reply.of ok looked = .failed f ∧
        ∃ good, fresh = good ++ [.error f] ∧ Smooth good := by
  obtain ⟨fresh, hlength, hfollows, ⟨hk, rfl, rfl⟩ | ⟨hk, hsettles, hbuffer⟩⟩ := h.look hroom hlook
  · refine ⟨[], hlength, hfollows, by simp, fun f hf => .inl ⟨hk, (Except.error.inj hf).symm⟩, ?_⟩
    simp
  · refine ⟨fresh, hlength, hfollows, fun t ht => ⟨hk, hfollows.told_buffer (hbuffer t ht)⟩, ?_,
      hsettles.failed⟩
    rintro f rfl
    exact .inr hsettles.mem

theorem served_look (h : Follows answers given passed c) {k : Int}
    (hroom : k.toNat ≤ c.feed.steps.length) (hreply : c.reply (.look k) = (r, c')) :
    Served answers given passed (.look k) r c' := by
  rcases hlook : c.look k with ⟨looked, c₁⟩
  simp only [Cursor.reply, hlook, Prod.mk.injEq] at hreply
  obtain ⟨rfl, rfl⟩ := hreply
  obtain ⟨fresh, hlength, hfollows, hok, herror, hfailed⟩ := h.look_says hroom hlook
  refine ⟨fresh, [], hlength, by simpa using hfollows, by cases looked <;> rfl, ?_, hfailed _,
    fun _ => hfollows.ended⟩
  cases looked with
  | ok t => exact hok t rfl
  | error f => exact herror f rfl

theorem served_lookCode (h : Follows answers given passed c) {k : Int}
    (hroom : k.toNat ≤ c.feed.steps.length) (hreply : c.reply (.lookCode k) = (r, c')) :
    Served answers given passed (.lookCode k) r c' := by
  rcases hlook : c.look k with ⟨looked, c₁⟩
  simp only [Cursor.reply, lookCode_eq, hlook, Prod.mk.injEq] at hreply
  obtain ⟨rfl, rfl⟩ := hreply
  obtain ⟨fresh, hlength, hfollows, hok, herror, hfailed⟩ := h.look_says hroom hlook
  refine ⟨fresh, [], hlength, by simpa using hfollows, by cases looked <;> rfl, ?_, fun f hf => ?_,
    fun _ => hfollows.ended⟩
  · cases looked with
    | ok t => exact ⟨(hok t rfl).1, t, (hok t rfl).2, rfl⟩
    | error f => exact herror f rfl
  · have hfail := hfailed (fun t => .code t.code) f hf
    cases looked with
    | ok t => exact hfail
    | error g => exact hfail

theorem served_expect (h : Follows answers given passed c) {kind : Kind}
    (hroom : 1 ≤ c.feed.steps.length) (hreply : c.reply (.expect kind) = (r, c')) :
    Served answers given passed (.expect kind) r c' := by
  rcases hexpect : c.expect kind with ⟨result, c₁⟩
  simp only [Cursor.reply, hexpect, Prod.mk.injEq] at hreply
  obtain ⟨rfl, rfl⟩ := hreply
  obtain ⟨fresh, hlength, ⟨⟨f, rfl⟩, hsettles, hfollows⟩ | ⟨hsmooth, t, htold,
    ⟨hcode, rfl, hfollows⟩ | ⟨hcode, rfl, hfollows⟩⟩⟩ := h.expect hroom hexpect
  · exact ⟨fresh, [], hlength, by simpa using hfollows, rfl, .inl hsettles.mem, hsettles.failed _,
      fun _ => hfollows.ended⟩
  · exact ⟨fresh, [t], hlength, hfollows, rfl, ⟨htold, hcode⟩, fun f hf => absurd hf (hsmooth f),
      fun _ => hfollows.ended⟩
  · exact ⟨fresh, [], hlength, by simpa using hfollows, rfl, .inr ⟨t, htold, hcode, rfl⟩,
      fun f hf => absurd hf (hsmooth f), fun _ => hfollows.ended⟩

theorem served_consume (h : Follows answers given passed c) (hroom : 1 ≤ c.feed.steps.length)
    (hreply : c.reply .consume = (r, c')) : Served answers given passed .consume r c' := by
  rcases hconsume : c.consume with ⟨result, c₁⟩
  simp only [Cursor.reply, hconsume, Prod.mk.injEq] at hreply
  obtain ⟨rfl, rfl⟩ := hreply
  obtain ⟨fresh, hlength, hsettles, ⟨⟨f, rfl⟩, hfollows⟩ | ⟨rfl, t, htold, hfollows⟩⟩ :=
    h.consume hroom hconsume
  · exact ⟨fresh, [], hlength, by simpa using hfollows, rfl, hsettles.mem, hsettles.failed _,
      fun _ => hfollows.ended⟩
  · exact ⟨fresh, [t], hlength, hfollows, rfl, ⟨t, htold⟩, hsettles.failed _,
      fun _ => hfollows.ended⟩

theorem served_last (h : Follows answers given passed c) :
    Served answers given passed .last (.token c.last) c := by
  refine ⟨[], [], by simp, by simpa using h, rfl, ?_, by simp, fun t ht he => ?_⟩
  · show c.last = _
    rw [List.append_nil, h.told_passed, h.last]
  · simpa using h.ended (by simpa using ht) he

/-- **Every call is faithful**, and keeps what the next one needs. -/
theorem served (h : Follows answers given passed c) {call : Call}
    (hroom : call.reach ≤ c.feed.steps.length) (hreply : c.reply call = (r, c')) :
    Served answers given passed call r c' := by
  cases call with
  | look k => exact h.served_look hroom hreply
  | lookCode k => exact h.served_lookCode hroom hreply
  | expect kind => exact h.served_expect hroom hreply
  | consume => exact h.served_consume hroom hreply
  | last =>
    obtain ⟨rfl, rfl⟩ := Prod.mk.inj hreply
    exact h.served_last

/-- **So are all calls of a sequence.** -/
theorem after (h : Follows answers given passed c) (calls : List Call) {room : Nat}
    (hroom : (calls.map Call.reach).sum + room ≤ c.feed.steps.length) :
    ∃ given' passed', Follows answers given' passed' (c.after calls) ∧
      passed'.length = passed.length + c.consumed calls ∧
      room ≤ (c.after calls).feed.steps.length := by
  induction calls generalizing c given passed with
  | nil => exact ⟨given, passed, h, rfl, by simpa [Cursor.after] using hroom⟩
  | cons call calls ih =>
    simp only [List.map_cons, List.sum_cons] at hroom
    rcases hreply : c.reply call with ⟨r, c'⟩
    obtain ⟨fresh, taken, hlength, hfollows, htaken, -⟩ := h.served (by omega) hreply
    have hsteps : c.feed.steps.length = fresh.length + c'.feed.steps.length := by
      have hanswers := h.answers.symm.trans hfollows.answers
      rw [List.append_assoc, List.append_cancel_left_eq] at hanswers
      rw [hanswers, List.length_append]
    obtain ⟨given', passed', hafter, hpassed, hleft⟩ := ih hfollows (by omega)
    refine ⟨given', passed', ?_, ?_, ?_⟩
    · simpa [Cursor.after, hreply] using hafter
    · rw [hpassed, List.length_append, htaken, Cursor.consumed, hreply, Nat.add_assoc]
    · simpa [Cursor.after, hreply] using hleft

end Follows

/-! ## 3. Whole conversations -/

variable {next : Nat → Step} {n : Nat}

theorem heard_append {i j k : Nat} (hij : i ≤ j) (hjk : j ≤ k) :
    heard next i j ++ heard next j k = heard next i k := by
  have hj : j = i + (j - i) := by omega
  have hk : k - i = (j - i) + (k - j) := by omega
  rw [heard, heard, heard, ← List.map_append, hk, ← List.range'_append_1, ← hj]

theorem mem_heard (next : Nat → Step) {i j k : Nat} (hi : i ≤ k) (hj : k < j) :
    next k ∈ heard next i j :=
  List.mem_map_of_mem (List.mem_range'_1.mpr ⟨hi, by omega⟩)

theorem heard_succ {i j : Nat} (h : i ≤ j) :
    heard next i (j + 1) = heard next i j ++ [next j] := by
  rw [← heard_append h (Nat.le_succ j)]
  simp [heard]

/-- Behind a failure that is the only one there are no more answers. -/
theorem eq_of_only_failure {i j k : Nat} {f g : Failure} {good : List Step}
    (hheard : heard next i j = good ++ [.error f]) (hgood : Smooth good) (hi : i ≤ k) (hj : k < j)
    (hk : next k = .error g) : k + 1 = j := by
  obtain ⟨j, rfl⟩ : ∃ j', j = j' + 1 := ⟨j - 1, by omega⟩
  rw [heard_succ (by omega)] at hheard
  rcases Nat.lt_or_ge k j with hlt | hge
  · obtain ⟨rfl, -⟩ := List.append_inj' hheard rfl
    exact absurd (hk ▸ mem_heard next hi hlt) (hgood g)
  · omega

/-- The answers given are those that were asked for. -/
theorem Follows.given_eq {given : List Step} {passed : List Token} {c : Cursor}
    (h : Follows ((List.range n).map next) given passed c) :
    given = heard next 0 (asked n c) ∧ given.length = asked n c := by
  have hlength : given.length = asked n c := by
    have hsum := congrArg List.length h.answers
    simp only [List.length_map, List.length_range, List.length_append] at hsum
    rw [asked, hsum, Nat.add_sub_cancel]
  have hle : given.length ≤ n := hlength ▸ Nat.sub_le n _
  have htake := congrArg (List.take given.length) h.answers
  rw [List.take_left, ← List.map_take, List.take_range, Nat.min_eq_left hle] at htake
  refine ⟨?_, hlength⟩
  rw [← htake, hlength, heard, Nat.sub_zero, List.range_eq_range']

theorem after_append (c : Cursor) (calls more : List Call) :
    c.after (calls ++ more) = (c.after calls).after more := List.foldl_append

theorem consumed_append (c : Cursor) (calls more : List Call) :
    c.consumed (calls ++ more) = c.consumed calls + (c.after calls).consumed more := by
  induction calls generalizing c with
  | nil => simp [consumed, after]
  | cons call calls ih =>
    rw [List.cons_append, consumed, consumed, ih, Nat.add_assoc]
    rfl

/-- A question that was asked was asked during one of the calls. -/
theorem exists_call_of_asked {c : Cursor} {calls : List Call} {i : Nat} (hlow : asked n c ≤ i)
    (hhigh : i < asked n (c.after calls)) :
    ∃ before call rest, calls = before ++ call :: rest ∧ asked n (c.after before) ≤ i ∧
      i < asked n (c.after (before ++ [call])) := by
  induction calls generalizing c with
  | nil => exact absurd hhigh (Nat.not_lt.mpr hlow)
  | cons call calls ih =>
    rcases Nat.lt_or_ge i (asked n (c.after [call])) with hlt | hge
    · exact ⟨[], call, calls, rfl, hlow, hlt⟩
    · obtain ⟨before, one, rest, rfl, hlow', hhigh'⟩ := ih hge hhigh
      exact ⟨call :: before, one, rest, rfl, hlow', hhigh'⟩

/-- One call behind others. -/
theorem ofAnswers_served {before : List Call} {call : Call}
    (hn : ((before ++ [call]).map Call.reach).sum ≤ n) {c c' : Cursor} {r : Reply}
    (hc : (ofAnswers next n).after before = c) (hreply : c.reply call = (r, c')) :
    asked n c ≤ asked n c' ∧
      call.Faithful (heard next 0 (asked n c)) (heard next (asked n c) (asked n c'))
        ((ofAnswers next n).consumed before) r := by
  simp only [List.map_append, List.sum_append, List.map_cons, List.map_nil, List.sum_cons,
    List.sum_nil, Nat.add_zero] at hn
  have hstart : Follows ((List.range n).map next) [] [] (ofAnswers next n) := Follows.ofFeed _ _
  obtain ⟨given, passed, hfollows, hpassed, hroom⟩ :=
    hstart.after before (show _ + call.reach ≤ _ by simpa [ofAnswers, ofFeed] using hn)
  rw [hc] at hfollows hroom
  obtain ⟨fresh, taken, -, hfollows', -, hfaithful⟩ := hfollows.served hroom hreply
  obtain ⟨hgiven, hlength⟩ := hfollows.given_eq
  obtain ⟨hgiven', hlength'⟩ := hfollows'.given_eq
  rw [List.length_append] at hlength'
  have hle : asked n c ≤ asked n c' := by omega
  have hfresh : fresh = heard next (asked n c) (asked n c') := by
    rw [hgiven, ← heard_append (Nat.zero_le _) hle, List.append_cancel_left_eq] at hgiven'
    exact hgiven'
  have hm : passed.length = (ofAnswers next n).consumed before := by simpa using hpassed
  rw [hgiven, hfresh, hm] at hfaithful
  exact ⟨hle, hfaithful⟩

/-- **A cursor is faithful to the source of its tokens.**  The source gives the answers `next 0`,
`next 1` and so on, and a cursor over it has been called with `before`, and then with `call`.

* What `call` replies fits what the source has told: a look gives the token that stands so many
  places behind those consumed, a failure is a place that is none, another kind than required, or
  the failure that the source has just given.
* A call that fails consumes nothing.
* The source is not asked again behind the end of the input.
* Each failure that the source has given was the reply of the call during which it was asked for,
  which asked for nothing more.  The answers that a call asks for follow those asked for before. -/
theorem faithful_to_source {before : List Call} {call : Call}
    (hn : ((before ++ [call]).map Call.reach).sum ≤ n) {c c' : Cursor} {r : Reply}
    (hc : (ofAnswers next n).after before = c) (hreply : c.reply call = (r, c')) :
    asked n c ≤ asked n c' ∧
    call.Faithful (heard next 0 (asked n c)) (heard next (asked n c) (asked n c'))
      ((ofAnswers next n).consumed before) r ∧
    (∀ f, r = .failed f →
      (ofAnswers next n).consumed (before ++ [call]) = (ofAnswers next n).consumed before) ∧
    ∀ i f, i < asked n c' → next i = .error f →
      ∃ earlier one later, before ++ [call] = earlier ++ one :: later ∧
        asked n ((ofAnswers next n).after earlier) ≤ i ∧
        i + 1 = asked n ((ofAnswers next n).after (earlier ++ [one])) ∧
        (((ofAnswers next n).after earlier).reply one).1 = .failed f := by
  obtain ⟨hle, hfaithful⟩ := ofAnswers_served hn hc hreply
  refine ⟨hle, hfaithful, ?_, ?_⟩
  · rintro f rfl
    rw [consumed_append, hc, consumed, hreply]
    cases call <;> rfl
  · intro i f hi hf
    have hafter : (ofAnswers next n).after (before ++ [call]) = c' := by
      rw [after_append, hc]
      simp [after, hreply]
    obtain ⟨earlier, one, later, hsplit, hlow, hhigh⟩ :=
      exists_call_of_asked (n := n) (c := ofAnswers next n) (i := i)
        (by simp [asked, ofAnswers, ofFeed]) (by rw [hafter]; exact hi)
    have hn' : ((earlier ++ [one]).map Call.reach).sum ≤ n := by
      rw [hsplit, List.append_cons, List.map_append, List.sum_append] at hn
      omega
    have hbehind : (ofAnswers next n).after (earlier ++ [one])
        = (((ofAnswers next n).after earlier).reply one).2 := by
      rw [after_append]
      rfl
    rw [hbehind] at hhigh
    obtain ⟨-, -, hfailure, -⟩ := ofAnswers_served hn' rfl rfl
    have hmem := mem_heard next hlow hhigh
    rw [hf] at hmem
    obtain ⟨hreply', good, hheard, hgood⟩ := hfailure f hmem
    refine ⟨earlier, one, later, hsplit, hlow, ?_, hreply'⟩
    rw [hbehind]
    exact eq_of_only_failure hheard hgood hlow hhigh hf

/-- A source that fails between its only token and its end. -/
def faltering : Nat → Step
  | 0 => .ok ⟨.unnamed 1, "a", .nowhere⟩
  | 1 => .error (.source "late")
  | _ => .ok .eof

/-- **A look that fails half way keeps the token it has fetched**: the next look as far ahead asks
for one more, and finds the end in the second place. -/
theorem faithful_to_source_faltering :
    (([Call.look 2] ++ [Call.look 2]).map Call.reach).sum ≤ 4 ∧
      ((ofAnswers faltering 4).reply (.look 2)).1 = .failed (.source "late") ∧
      (((ofAnswers faltering 4).after [.look 2]).reply (.look 2)).1 = .token .eof ∧
      (Call.look 2).Faithful [.ok ⟨.unnamed 1, "a", .nowhere⟩, .error (.source "late")] [.ok .eof] 0
        (.token .eof) := by
  have hn : (([Call.look 2] ++ [Call.look 2]).map Call.reach).sum ≤ 4 := by decide
  refine ⟨hn, rfl, rfl, ?_⟩
  have hfaithful : (Call.look 2).Faithful (heard faltering 0 2) (heard faltering 2 3) 0
      (.token .eof) := (faithful_to_source hn rfl rfl).2.1
  exact hfaithful

end Cursor

end Formulary
