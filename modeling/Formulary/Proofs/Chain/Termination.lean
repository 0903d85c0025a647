import Formulary.Proofs.Calls
import Formulary.Proofs.Chain.Conversion
import Formulary.Proofs.Chain.Tracing
import Formulary.Proofs.Chain.Unbounded

/-!
# Parses end

Where the source of the tokens ends or fails some time, and no code of the grammar is that of the
end of the input, the chain without allowances has an outcome, and it is that of the parser
(`Parser.parse_terminates`).  So a parse ends, it is never stopped by an allowance, and it leaves
the end of the input where it is.  It asks the source for the tokens it is given and at most once
more.

`Ends` is the statement about a stage.  It goes with the stage through its failures too, because the
source may fail at any question.  A parse is underway as long as the source has not failed; then
there is an answer left (`Underway.room`).  A failure of the source is the last that is asked for.

1. A parse on the way, and after it.
2. Stages that end.
3. The stages of the chain.
4. Whole parses.
-/

namespace Formulary.Chain

open Cursor (Follows Shows asked heard)
open Feed (Closes)
open Unbounded (Reaches unrolled)

variable {ε α β γ : Type}

/-! ## 1. A parse on the way, and after it -/

section

variable {answers earlier : List Step} {passed : List Token} {c c' : Cursor}

/-- Of the answers behind `earlier`, one ends the input, and it is not the last. -/
def Stocked (answers earlier : List Step) : Prop :=
  ∃ i a, earlier.length ≤ i ∧ answers[i]? = some a ∧ Closes a ∧ i + 1 < answers.length

/-- The cursor follows the source, which has not failed since it gave the answers `earlier`. -/
def Underway (answers earlier : List Step) (c : Cursor) : Prop :=
  ∃ fresh passed, Follows answers (earlier ++ fresh) passed c ∧ Smooth fresh

/-- The cursor follows the source, whose last answer may be the first failure since `earlier`. -/
def Finished (answers earlier : List Step) (c : Cursor) : Prop :=
  ∃ fresh passed, Follows answers (earlier ++ fresh) passed c ∧
    (Smooth fresh ∨ ∃ good f, fresh = good ++ [.error f] ∧ Smooth good)

theorem Underway.start (h : Follows answers earlier passed c) : Underway answers earlier c :=
  ⟨[], passed, by rwa [List.append_nil], by simp [Smooth]⟩

theorem Underway.finished (h : Underway answers earlier c) : Finished answers earlier c := by
  obtain ⟨fresh, passed, hfollows, hsmooth⟩ := h
  exact ⟨fresh, passed, hfollows, .inl hsmooth⟩

/-- **There is an answer left**: the one that ends the input is not followed by another question,
and it is not the last. -/
theorem Underway.room (h : Underway answers earlier c) (hs : Stocked answers earlier) :
    1 ≤ c.feed.steps.length := by
  obtain ⟨fresh, passed, hfollows, hsmooth⟩ := h
  obtain ⟨i, a, hi, ha, hclose, hlt⟩ := hs
  by_contra hnone
  have hsteps : c.feed.steps = [] := List.length_eq_zero_iff.mp (by omega)
  have hall : answers = earlier ++ fresh := by rw [hfollows.answers, hsteps, List.append_nil]
  have hfresh : a ∈ fresh := by
    rw [hall, List.getElem?_append_right hi] at ha
    exact List.mem_of_getElem? ha
  cases a with
  | error f => exact hsmooth f hfresh
  | ok t =>
    obtain ⟨start, hstart, hopen⟩ :=
      hfollows.ended (List.mem_append_right earlier hfresh) (hclose t rfl)
    have hmem : Except.ok t ∈ start := by
      rw [hall, hstart, List.length_append, List.length_singleton] at hlt
      rw [hall, hstart, List.getElem?_append_left (by omega)] at ha
      exact List.mem_of_getElem? ha
    have hend := hclose t rfl
    rw [hopen t hmem] at hend
    simp at hend

/-- What one request with the result `r` leaves behind: a parse that is underway, or one that the
source has finished by failing. -/
structure Settled (answers earlier : List Step) (r : Except Failure β) (c : Cursor) : Prop where
  finished : Finished answers earlier c
  underway : ∀ b, r = .ok b → Underway answers earlier c

theorem Underway.settled (h : Underway answers earlier c) (r : Except Failure β) :
    Settled answers earlier r c :=
  ⟨h.finished, fun _ _ => h⟩

/-- The answers `fresh` to one request keep a parse underway, or finish it. -/
theorem settled_of_settles {good fresh : List Step} {r : Except Failure β}
    (hfollows : Follows answers (earlier ++ good ++ fresh) passed c) (hgood : Smooth good)
    (hsettles : Cursor.Settles fresh r) : Settled answers earlier r c := by
  rw [List.append_assoc] at hfollows
  have happend : ∀ more, Smooth more → Smooth (good ++ more) := fun more hmore f hf =>
    (List.mem_append.mp hf).elim (hgood f) (hmore f)
  cases r with
  | ok b => exact Underway.settled ⟨_, _, hfollows, happend fresh hsettles⟩ _
  | error f =>
    obtain ⟨more, rfl, hmore⟩ := hsettles
    refine ⟨⟨_, _, hfollows, .inr ⟨good ++ more, f, ?_, happend more hmore⟩⟩, by simp⟩
    rw [List.append_assoc]

theorem Underway.look (h : Underway answers earlier c) (hs : Stocked answers earlier)
    {r : Except Failure Token} (hlook : c.look 1 = (r, c')) : Settled answers earlier r c' := by
  have hroom := h.room hs
  obtain ⟨good, passed, hfollows, hgood⟩ := h
  obtain ⟨fresh, -, hfollows', ⟨hk, -⟩ | ⟨-, hsettles, -⟩⟩ :=
    hfollows.look (show (1 : Int).toNat ≤ _ from hroom) hlook
  · omega
  · exact settled_of_settles hfollows' hgood hsettles

theorem Underway.consume (h : Underway answers earlier c) (hs : Stocked answers earlier)
    {r : Except Failure Unit} (hconsume : c.consume = (r, c')) : Settled answers earlier r c' := by
  have hroom := h.room hs
  obtain ⟨good, passed, hfollows, hgood⟩ := h
  obtain ⟨fresh, -, hsettles, ⟨-, hfollows'⟩ | ⟨-, t, -, hfollows'⟩⟩ :=
    hfollows.consume hroom hconsume
  · exact settled_of_settles hfollows' hgood hsettles
  · exact settled_of_settles hfollows' hgood hsettles

theorem Underway.expect (h : Underway answers earlier c) (hs : Stocked answers earlier)
    {kind : Kind} {r : Except Failure Token} (hexpect : c.expect kind = (r, c')) :
    Settled answers earlier r c' := by
  have hroom := h.room hs
  obtain ⟨good, passed, hfollows, hgood⟩ := h
  obtain ⟨fresh, -, ⟨-, hsettles, hfollows'⟩ | ⟨hsmooth, t, -,
    ⟨-, -, hfollows'⟩ | ⟨-, rfl, hfollows'⟩⟩⟩ := hfollows.expect hroom hexpect
  · exact settled_of_settles hfollows' hgood hsettles
  · have hfound := settled_of_settles (r := .ok t) hfollows' hgood hsmooth
    exact (hfound.underway t rfl).settled r
  · have hother := settled_of_settles (r := .ok t) hfollows' hgood hsmooth
    exact ⟨hother.finished, by simp⟩

/-- The tokens among some answers that are not the end of the input. -/
def plainTokens (answers : List Step) : List Token := (tokensOf answers).filter (!·.isEOF)

theorem length_plainTokens {good : List Step} (hsmooth : Smooth good) (hopen : Open good) :
    (plainTokens good).length = good.length := by
  induction good with
  | nil => rfl
  | cons a good ih =>
    have ih := ih (fun f hf => hsmooth f (List.mem_cons_of_mem a hf))
      fun t ht => hopen t (List.mem_cons_of_mem a ht)
    cases a with
    | error f => exact absurd List.mem_cons_self (hsmooth f)
    | ok t =>
      have ht : t.isEOF = false := hopen t List.mem_cons_self
      simpa [plainTokens, tokensOf, ht, Except.toOption] using ih

/-- **All answers but one are tokens before the end**: where the last answer is a failure or the
end, the others are none. -/
theorem length_le_plainTokens {fresh : List Step}
    (h : Follows answers (earlier ++ fresh) passed c)
    (hfresh : Smooth fresh ∨ ∃ good f, fresh = good ++ [.error f] ∧ Smooth good) :
    fresh.length ≤ (plainTokens fresh).length + 1 := by
  rcases List.eq_nil_or_concat fresh with rfl | ⟨good, a, rfl⟩
  · simp
  · rw [List.concat_eq_append] at h hfresh ⊢
    have hsmooth : Smooth good := by
      rcases hfresh with hall | ⟨good', f, heq, hgood⟩
      · exact fun f hf => hall f (List.mem_append_left [a] hf)
      · obtain ⟨rfl, -⟩ := List.append_inj' heq rfl
        exact hgood
    have hopen : Open good := by
      intro t ht
      by_contra hend
      have hmem : Except.ok t ∈ earlier ++ (good ++ [a]) := by simp [ht]
      obtain ⟨start, hstart, hopen⟩ := h.ended hmem (by simpa using hend)
      rw [← List.append_assoc] at hstart
      obtain ⟨rfl, -⟩ := List.append_inj' hstart rfl
      exact hend (hopen t (List.mem_append_right earlier ht))
    have hlength := length_plainTokens hsmooth hopen
    have hprefix : (plainTokens (good ++ [a])).length
        = (plainTokens good).length + (plainTokens [a]).length := by
      simp [plainTokens]
    rw [List.length_append, List.length_singleton]
    omega

end

/-! ## 2. Stages that end -/

/-- Started with `pre` on the way, the stage `x` leaves a parse underway or finished, with `Q` of
its value and the cursor; and unless an allowance is what stops it, `y` has its outcome. -/
def Ends (answers earlier : List Step) (pre : Cursor → Prop) (x : Stage ε β)
    (y : Nat → Unbounded ε β) (Q : β → Cursor → Prop) : Prop :=
  ∀ k, Underway answers earlier k.cursor → pre k.cursor →
    ((exec x k).1 ≠ .error .endless → Reaches y k (exec x k)) ∧
      Finished answers earlier (exec x k).2.cursor ∧
      ∀ b, (exec x k).1 = .ok b →
        Underway answers earlier (exec x k).2.cursor ∧ Q b (exec x k).2.cursor

namespace Ends

variable {answers earlier : List Step} {pre : Cursor → Prop} {rule : Rule}
  {Q : β → Cursor → Prop} {R : γ → Cursor → Prop} {x : Stage ε β}
  {y : Nat → Unbounded ε β} {p : Parser ε α} {t : Token}

theorem pure {b : β} (h : ∀ c, pre c → Q b c) :
    Ends answers earlier pre (pure b : Stage ε β) (fun _ => Pure.pure b) Q := by
  intro k hk hpre
  refine ⟨fun _ => Unbounded.reaches_once (Pure.pure b) k, hk.finished, fun b' hb => ?_⟩
  obtain rfl : b = b' := Except.ok.inj hb
  exact ⟨hk, h _ hpre⟩

theorem imp {pre' : Cursor → Prop} (h : Ends answers earlier pre x y Q)
    (hpre : ∀ c, pre' c → pre c) : Ends answers earlier pre' x y Q :=
  fun k hk hk' => h k hk (hpre _ hk')

/-- **Steps that end make up a stage that ends.** -/
theorem bind {f : β → Stage ε γ} {g : Nat → β → Unbounded ε γ} (hx : Ends answers earlier pre x y Q)
    (hf : ∀ b, Ends answers earlier (Q b) (f b) (fun n => g n b) R) :
    Ends answers earlier pre (x >>= f) (fun n => y n >>= g n) R := by
  intro k hk hpre
  obtain ⟨hrun, hfinished, hok⟩ := hx k hk hpre
  simp only [exec_bind, Reaches, Unbounded.run_bind]
  rcases hexec : exec x k with ⟨r, k'⟩
  rw [hexec] at hrun hfinished hok
  cases r with
  | error e =>
    refine ⟨fun he => ?_, hfinished, fun c hc => nomatch hc⟩
    have hreaches := hrun fun h => he (by rw [Except.error.inj h])
    exact hreaches.mono fun n hn => by rw [hn]
  | ok b =>
    obtain ⟨hk', hQ⟩ := hok b rfl
    obtain ⟨hrun', hfinished', hok'⟩ := hf b k' hk' hQ
    refine ⟨fun hne => ?_, hfinished', hok'⟩
    -- The depth that is enough for both steps is enough for the first and then the second.
    exact ((hrun (by simp)).and (hrun' hne)).mono fun n hn => by rw [hn.1]; exact hn.2

theorem within {depth : Nat} (h : Ends answers earlier pre x y Q) :
    Ends answers earlier pre (within rule depth x) (fun n => Unbounded.within rule depth (y n))
      Q := by
  intro k hk hpre
  obtain ⟨hrun, hfinished, hok⟩ := h { k with events := .enter rule depth :: k.events } hk hpre
  rw [exec_within]
  refine ⟨fun hne => (hrun hne).mono fun n hn => ?_, hfinished, hok⟩
  show ((y n).run.run { k with events := .enter rule depth :: k.events }).map _ = _
  rw [hn]
  rfl

theorem ite {c : Prop} [Decidable c] {x' : Stage ε β} {y' : Nat → Unbounded ε β}
    (h : c → Ends answers earlier pre x y Q) (h' : ¬ c → Ends answers earlier pre x' y' Q) :
    Ends answers earlier pre (if c then x else x') (fun n => if c then y n else y' n) Q := by
  by_cases hc : c
  · simpa only [if_pos hc] using h hc
  · simpa only [if_neg hc] using h' hc

/-- A call ends if its function does, with the calls that this makes. -/
theorem unroll (q : Unbounded.Call α) {x : Stage ε q.Value} {Q : q.Value → Cursor → Prop}
    (h : Ends answers earlier pre x (fun n => Unbounded.body p (unrolled p n) q) Q) :
    Ends answers earlier pre x (fun n => unrolled p n q) Q := by
  intro k hk hpre
  rw [Unbounded.reaches_unrolled]
  exact h k hk hpre

/-- An allowance is not needed where there is none. -/
theorem pending {f : Nat → Stage ε β} (hf : ∀ n, Ends answers earlier pre (f n) y Q) :
    Ends answers earlier pre (Chain.pending >>= f) y Q := by
  intro k hk hpre
  rw [exec_bind, exec_pending]
  exact hf k.cursor.pending k hk hpre

/-- An allowance that runs out says nothing about the chain without it. -/
theorem endless : Ends answers earlier pre (failIn rule .endless) y Q :=
  fun _ hk _ => ⟨fun h => absurd rfl h, hk.finished, fun _ hb => nomatch hb⟩

theorem failIn {e : ParseError ε} :
    Ends answers earlier pre (failIn rule e) (fun _ => Unbounded.once (failIn rule e)) Q :=
  fun k hk _ => ⟨fun _ => Unbounded.reaches_once _ k, hk.finished, fun _ hb => nomatch hb⟩

theorem valueOf {role : Role} :
    Ends answers earlier pre (p.valueOf rule t role)
      (fun _ => Unbounded.once (p.valueOf rule t role)) fun _ => anywhere := by
  intro k hk _
  refine ⟨fun _ => Unbounded.reaches_once _ k, ?_⟩
  rw [exec_valueOf]
  cases p.convert t role with
  | ok v => exact ⟨hk.finished, fun _ _ => ⟨hk, trivial⟩⟩
  | error e => exact ⟨hk.finished, fun _ hb => nomatch hb⟩

/-- A move of the cursor that keeps a parse underway. -/
theorem onCursor {move : Cursor → Except Failure β × Cursor}
    (hmove : ∀ c, Underway answers earlier c → pre c →
      Settled answers earlier (move c).1 (move c).2 ∧ ∀ b, (move c).1 = .ok b → Q b (move c).2) :
    Ends answers earlier pre (onCursor rule move : Stage ε β)
      (fun _ => Unbounded.once (onCursor rule move)) Q := by
  intro k hk hpre
  obtain ⟨hsettled, hok⟩ := hmove k.cursor hk hpre
  refine ⟨fun _ => Unbounded.reaches_once _ k, ?_⟩
  rw [exec_onCursor]
  rcases hexec : move k.cursor with ⟨r, c⟩
  rw [hexec] at hsettled hok
  cases r with
  | error f => exact ⟨hsettled.finished, fun _ hb => nomatch hb⟩
  | ok b =>
    refine ⟨hsettled.finished, fun b' hb => ?_⟩
    obtain rfl := Except.ok.inj hb
    exact ⟨hsettled.underway b rfl, hok b rfl⟩

/-- The token seen waits afterwards. -/
theorem peek (hs : Stocked answers earlier) :
    Ends answers earlier pre (peek rule : Stage ε Token)
      (fun _ => Unbounded.once (peek rule)) fun t c => c.Shows t := by
  refine onCursor fun c hc _ => ?_
  rcases hlook : c.look 1 with ⟨r, c'⟩
  refine ⟨hc.look hs hlook, fun t ht => ?_⟩
  obtain rfl : r = .ok t := ht
  exact Cursor.shows_of_look hlook

/-- A token that waits is seen again; so a call knows the token its caller has looked at. -/
theorem peek_again {f : Token → Stage ε β} {g : Nat → Token → Unbounded ε β}
    (hf : Ends answers earlier (·.Shows t) (f t) (fun n => g n t) Q) :
    Ends answers earlier (·.Shows t) (Chain.peek rule >>= f)
      (fun n => Unbounded.once (Chain.peek rule) >>= g n) Q := by
  intro k hk hpre
  have hexec : exec (Chain.peek rule) k = (.ok t, k) := by
    rw [Chain.peek, exec_onCursor, hpre.look]
  have hrun : (Unbounded.once (Chain.peek rule : Stage ε Token)).run.run k = some (.ok t, k) :=
    congrArg some hexec
  simp only [exec_bind, hexec, Reaches, Unbounded.run_bind, hrun]
  exact hf k hk hpre

/-- A token before the end is passed. -/
theorem move (hs : Stocked answers earlier) (ht : 0 ≤ t.code) :
    Ends answers earlier (·.Shows t) (skip rule)
      (fun _ => (Unbounded.move rule : Unbounded ε Unit)) fun _ => anywhere := by
  intro k hk hpre
  have hskip : Ends answers earlier (·.Shows t) (skip rule : Stage ε Unit)
      (fun _ => Unbounded.once (skip rule)) fun _ => anywhere := by
    refine onCursor fun c hc _ => ?_
    rcases hconsume : c.consume with ⟨r, c'⟩
    exact ⟨hc.consume hs hconsume, fun _ _ => trivial⟩
  refine ⟨fun _ => .of_forall fun _ => Unbounded.run_guarded fun u hu hend => ?_,
    (hskip k hk hpre).2⟩
  have hlook : (k.cursor.look 1).1 = .ok t := by rw [hpre.look]
  obtain rfl : t = u := Except.ok.inj (hlook.symm.trans hu)
  rw [Token.isEOF_of_code ht] at hend
  simp at hend

/-- A kind that is required is not that of the end. -/
theorem demand (hs : Stocked answers earlier) {kind : Kind} (hkind : 0 ≤ kind.code) :
    Ends answers earlier pre (require rule kind)
      (fun _ => (Unbounded.demand rule kind : Unbounded ε Unit)) fun _ => anywhere := by
  intro k hk hpre
  refine ⟨fun _ => .of_forall fun _ => Unbounded.run_guarded fun u hu hend => ?_, ?_⟩
  · rw [beq_eq_false_iff_ne]
    intro hcode
    rw [Token.isEOF_of_code (hcode ▸ hkind)] at hend
    simp at hend
  · rw [exec_require]
    rcases hexpect : k.cursor.expect kind with ⟨r, c⟩
    obtain ⟨hfinished, hunderway⟩ := hk.expect hs hexpect
    cases r with
    | error f => exact ⟨hfinished, fun _ hb => nomatch hb⟩
    | ok t => exact ⟨hfinished, fun _ _ => ⟨hunderway t rfl, trivial⟩⟩

/-- A parse that nests too deep has looked at the next token, or has not been able to. -/
theorem exec_tooDeep_of_limit (hlimit : p.limit ≠ 0) (rule : Rule) (k : Work ε) :
    exec (p.tooDeep rule : Stage ε β) k
      = exec (Chain.failIn rule (.nested p.limit
          ((k.cursor.look 1).1.toOption.elim .nowhere Token.pos)))
        { k with cursor := (k.cursor.look 1).2 } := by
  unfold Parser.tooDeep
  rw [if_neg (by simpa using hlimit), exec_bind, peekPosition, exec_bind, exec_get]
  dsimp only
  rcases k.cursor.look 1 with ⟨r, c⟩
  cases r <;> rfl

/-- Where there is no room left, the depth is one too deep, or an allowance has run out. -/
theorem tooDeep (hs : Stocked answers earlier) {g : Nat → Unit → Unbounded ε β} {depth : Nat}
    (hroom : p.limit ≠ 0 → 0 + depth = p.limit) :
    Ends answers earlier pre (p.tooDeep rule)
      (fun n => Unbounded.once (Unbounded.descend p rule depth) >>= g n) Q := by
  by_cases hlimit : p.limit = 0
  · have hendless : (p.tooDeep rule : Stage ε β) = Chain.failIn rule .endless := by
      simp [Parser.tooDeep, hlimit]
    rw [hendless]
    exact endless
  · intro k hk _
    obtain ⟨hfinished, -⟩ := hk.look hs (Prod.eta (k.cursor.look 1)).symm
    have hrun : (Unbounded.once (p.tooDeep rule) : Unbounded ε Unit).run.run k
        = some (exec (p.tooDeep rule) k) := rfl
    simp only [Unbounded.descend_of_limit hroom hlimit, Reaches, Unbounded.run_bind, hrun,
      exec_tooDeep_of_limit hlimit]
    refine ⟨fun _ => .of_forall fun _ => rfl, hfinished, fun b hb => ?_⟩
    simp [exec_failIn] at hb

end Ends

/-! ## 3. The stages of the chain -/

namespace Parser

variable {answers earlier : List Step} {p : Parser ε α}

/-- The stage of the parser ends, and so does the one without allowances. -/
abbrev EndsAlike (answers earlier : List Step) (x : Stage ε β) (y : Nat → Unbounded ε β) : Prop :=
  Ends answers earlier anywhere x y fun _ => anywhere

theorem atom_ends (hp : p.Unsigned) (hs : Stocked answers earlier) :
    EndsAlike answers earlier p.atom fun _ => Unbounded.atom p := by
  unfold atom Unbounded.atom
  refine .bind (.peek hs) fun t => .ite (fun hid => ?_) fun _ => .failIn
  have hid : t.code ∈ p.identifiers := by simpa using hid
  refine .bind (.move hs (hp.identifiers _ hid)) fun _ => .bind .valueOf fun v => ?_
  exact .pure fun _ _ => trivial

theorem unary_ends (hp : p.Unsigned) (hs : Stocked answers earlier) {room depth : Nat}
    (hroom : p.limit ≠ 0 → room + depth = p.limit) :
    EndsAlike answers earlier (p.unary room depth) fun n => unrolled p n (.unary depth) := by
  induction room generalizing depth with
  | zero =>
    refine .unroll (.unary depth) ?_
    unfold unary Unbounded.body Unbounded.unary
    refine .bind (.peek hs) fun t => .ite (fun _ => .within (.tooDeep hs hroom)) fun _ => ?_
    exact (atom_ends hp hs).imp fun _ _ => trivial
  | succ room ih =>
    refine .unroll (.unary depth) ?_
    unfold unary Unbounded.body Unbounded.unary
    refine .bind (.peek hs) fun t => .ite (fun hun => .within ?_) fun _ =>
      (atom_ends hp hs).imp fun _ _ => trivial
    have hun : t.code ∈ p.unaries := by simpa using hun
    have hroom' : p.limit ≠ 0 → room + (depth + 1) = p.limit := by omega
    simp only [Unbounded.descend_of_room hroom, Unbounded.once_pure_bind]
    refine .bind (.move hs (hp.unaries _ hun)) fun _ => .bind .valueOf fun v => ?_
    exact .bind (ih hroom') fun operand => .pure fun _ _ => trivial

section

variable {depth : Nat} {inner : Stage ε (Tree α)}

theorem arguments_ends (hp : p.Unsigned) (hs : Stocked answers earlier)
    (hinner : EndsAlike answers earlier inner fun n => unrolled p n (.expression depth))
    (rounds : Nat) :
    EndsAlike answers earlier (p.arguments inner rounds)
      fun n => unrolled p n (.arguments depth) := by
  induction rounds with
  | zero => exact .endless
  | succ rounds ih =>
    refine .unroll (.arguments depth) ?_
    unfold arguments Unbounded.body Unbounded.arguments
    refine .bind hinner fun first => .bind (.peek hs) fun t => .ite (fun hcomma => ?_) fun _ =>
      .pure fun _ _ => trivial
    have hcomma : t.code = p.comma.code := by simpa using hcomma
    refine .bind (.move hs (hcomma ▸ hp.comma)) fun _ => .bind ih fun others => ?_
    exact .pure fun _ _ => trivial

theorem terminal_ends (hp : p.Unsigned) (hs : Stocked answers earlier) {room : Nat}
    (hroom : p.limit ≠ 0 → room + depth = p.limit)
    (hinner : EndsAlike answers earlier inner fun n => unrolled p n (.expression depth)) :
    EndsAlike answers earlier (p.terminal inner room depth)
      fun n => unrolled p n (.terminal depth) := by
  refine .unroll (.terminal depth) ?_
  unfold terminal Unbounded.body Unbounded.terminal
  refine .bind (.peek hs) fun t => .ite (fun hcall => .within ?_) fun _ =>
    .ite (fun hparen => .within ?_) fun _ => (unary_ends hp hs hroom).imp fun _ _ => trivial
  · simp only [Bool.and_eq_true, List.contains_iff_mem] at hcall
    refine .peek_again (.bind (.move hs (hp.identifiers _ hcall.1)) fun _ => ?_)
    refine .bind .valueOf fun v => .bind (.demand hs hp.leftParen) fun _ => ?_
    refine .pending fun rounds => .bind (arguments_ends hp hs hinner _) fun args => ?_
    exact .bind (.demand hs hp.rightParen) fun _ => .pure fun _ _ => trivial
  · have hparen : t.code = p.leftParen.code := by simpa using hparen
    refine .bind (.move hs (hparen ▸ hp.leftParen)) fun _ => .bind hinner fun tree => ?_
    exact .bind (.demand hs hp.rightParen) fun _ => .pure fun _ _ => trivial

end

section

variable {depth : Nat} {operand : Stage ε (Tree α)}

theorem climb_ends (hs : Stocked answers earlier) {index : Nat} {ops : List Int}
    {others : List (List Int)} (hops : ∀ code ∈ ops, 0 ≤ code) {next : Stage ε (Tree α)}
    (hnext : EndsAlike answers earlier next fun n => unrolled p n (.level depth (index + 1) others))
    (rounds : Nat) (left : Tree α) :
    EndsAlike answers earlier (p.climb (.level index) ops next rounds left)
      fun n => unrolled p n (.climb depth index ops others left) := by
  induction rounds generalizing left with
  | zero => exact .endless
  | succ rounds ih =>
    refine .unroll (.climb depth index ops others left) ?_
    unfold climb Unbounded.body Unbounded.climb
    refine .bind (.peek hs) fun t => .ite (fun hop => ?_) fun _ => .pure fun _ _ => trivial
    have hop : t.code ∈ ops := by simpa using hop
    refine .bind (.move hs (hops _ hop)) fun _ => .bind .valueOf fun v => ?_
    exact .bind hnext fun right => ih (.node v [left, right])

/-- By induction on the levels: none of them calls an earlier one but through the operand. -/
theorem level_ends (hs : Stocked answers earlier)
    (hoperand : EndsAlike answers earlier operand fun n => unrolled p n (.terminal depth))
    (index : Nat) (levels : List (List Int)) (hlevels : ∀ ops ∈ levels, ∀ code ∈ ops, 0 ≤ code) :
    EndsAlike answers earlier (p.level operand depth index levels)
      fun n => unrolled p n (.level depth index levels) := by
  induction levels generalizing index with
  | nil => exact .unroll (.level depth index []) hoperand
  | cons ops others ih =>
    obtain ⟨hops, hothers⟩ := List.forall_mem_cons.mp hlevels
    refine .unroll (.level depth index (ops :: others)) (.within ?_)
    refine .bind (ih (index + 1) hothers) fun left => .pending fun rounds => ?_
    exact climb_ends hs hops (ih (index + 1) hothers) _ left

end

theorem expression_ends (hp : p.Unsigned) (hs : Stocked answers earlier) {room depth : Nat}
    (hroom : p.limit ≠ 0 → room + depth = p.limit) :
    EndsAlike answers earlier (p.expression room depth)
      fun n => unrolled p n (.expression depth) := by
  induction room generalizing depth with
  | zero => exact .unroll (.expression depth) (.tooDeep hs hroom)
  | succ room ih =>
    have hroom' : p.limit ≠ 0 → room + (depth + 1) = p.limit := by omega
    have hlevels : ∀ ops ∈ p.levels, ∀ code ∈ ops, 0 ≤ code := by
      intro ops hops code hcode
      obtain ⟨i, hi⟩ := List.getElem?_of_mem hops
      exact hp.operator ⟨ops, hi, hcode⟩
    refine .unroll (.expression depth) ?_
    unfold expression Unbounded.body Unbounded.expression
    simp only [Unbounded.descend_of_room hroom, Unbounded.once_pure_bind]
    exact level_ends hs (terminal_ends hp hs hroom' (ih hroom')) 0 p.levels hlevels

/-! ## 4. Whole parses -/

theorem parse_endsAlike (hp : p.Unsigned) (hs : Stocked answers earlier) :
    EndsAlike answers earlier p.parse (Unbounded.parse p) := by
  intro k hk hpre
  have hroom : p.limit ≠ 0 → p.room k.cursor + 0 = p.limit := fun hlimit => by
    simp [room, hlimit]
  exact expression_ends hp hs hroom k hk hpre

theorem seeEnd_ends (hs : Stocked answers earlier) (b : β) :
    EndsAlike answers earlier (seeEnd b : Stage ε β) fun _ => Unbounded.once (seeEnd b) := by
  intro k hk _
  refine ⟨fun _ => Unbounded.reaches_once _ k, ?_⟩
  rw [exec_seeEnd]
  rcases hlook : k.cursor.look 1 with ⟨r, c⟩
  obtain ⟨hfinished, hunderway⟩ := hk.look hs hlook
  cases r with
  | error f => exact ⟨hfinished, fun _ hb => nomatch hb⟩
  | ok t => exact ⟨hfinished, fun _ _ => ⟨hunderway t rfl, trivial⟩⟩

theorem parseAll_endsAlike (hp : p.Unsigned) (hs : Stocked answers earlier) :
    EndsAlike answers earlier p.parseAll (Unbounded.parseAll p) := by
  rw [parseAll_eq]
  exact .bind (parse_endsAlike hp hs) fun tree => seeEnd_ends hs tree

end Parser

/-- An input that one of its answers can end is ended. -/
theorem closes_untilEndFrom {final a : Step} {steps : List Step} (ha : a ∈ steps ++ [final])
    (hclose : Closes a) : Closes (Feed.untilEndFrom final steps).2 := by
  induction steps with
  | nil => exact List.mem_singleton.mp ha ▸ hclose
  | cons first steps ih =>
    cases first with
    | error f => exact fun t ht => nomatch ht
    | ok t =>
      cases hend : t.isEOF with
      | true =>
        rw [Feed.untilEndFrom_eof hend]
        exact fun u hu => Except.ok.inj hu ▸ hend
      | false =>
        rw [Feed.untilEndFrom_token hend]
        refine ih ((List.mem_cons.mp ha).resolve_left fun heq => ?_)
        rw [hclose t heq] at hend
        simp at hend

/-- What lies ahead of a parse underway has an end. -/
theorem Underway.closes {answers earlier : List Step} {c : Cursor}
    (h : Underway answers earlier c) (hs : Stocked answers earlier) : Closes c.ahead.2 := by
  obtain ⟨fresh, passed, hfollows, hsmooth⟩ := h
  obtain ⟨i, a, hi, ha, hclose, -⟩ := hs
  unfold Cursor.ahead
  cases hended : c.ended with
  | some e =>
    obtain ⟨he, -⟩ := hfollows.closed e hended
    exact closes_untilEndFrom (by simp) fun t ht => Except.ok.inj ht ▸ he
  | none =>
    have hmem : a ∈ c.feed.steps := by
      rw [hfollows.answers, List.append_assoc, List.getElem?_append_right hi] at ha
      refine (List.mem_append.mp (List.mem_of_getElem? ha)).resolve_left fun hfresh => ?_
      cases a with
      | error f => exact hsmooth f hfresh
      | ok t =>
        have hopen := (hfollows.waiting hended).1 t (List.mem_append_right earlier hfresh)
        rw [hclose t rfl] at hopen
        simp at hopen
    exact closes_untilEndFrom (List.mem_append_left _ (List.mem_append_right _ hmem)) hclose

/-- A parse ends: it is what the chain without allowances makes of the cursor, and of the tokens it
asks for at most one is not given or is the end of the input. -/
structure Terminates (next : Nat → Step) (n : Nat) (c : Cursor) (x : Stage ε β)
    (y : Nat → Unbounded ε β) : Prop where
  unbounded : Reaches y ⟨c, [], []⟩ (exec x ⟨c, [], []⟩)
  allowed : (runOn c x).result ≠ .error .endless
  asked : asked n (runOn c x).cursor ≤ asked n c
    + (plainTokens (heard next (asked n c) (asked n (runOn c x).cursor))).length + 1

/-- A stage that ends and is not stopped by an allowance terminates. -/
theorem Ends.terminates {next : Nat → Step} {n : Nat} {given : List Step} {passed : List Token}
    {c : Cursor} (hc : Follows ((List.range n).map next) given passed c) {x : Stage ε β}
    {y : Nat → Unbounded ε β} (h : Parser.EndsAlike ((List.range n).map next) given x y)
    (hne : (runOn c x).result ≠ .error .endless) : Terminates next n c x y := by
  obtain ⟨hrun, ⟨fresh, passed', hfollows, hfresh⟩, -⟩ := h ⟨c, [], []⟩ (.start hc) trivial
  refine ⟨hrun hne, hne, ?_⟩
  obtain ⟨hbefore, hlength⟩ := hc.given_eq
  obtain ⟨hafter, hlength'⟩ := hfollows.given_eq
  rw [List.length_append, hlength] at hlength'
  have hle : asked n c ≤ asked n (runOn c x).cursor := Nat.le.intro hlength'
  have hheard : fresh = heard next (asked n c) (asked n (runOn c x).cursor) := by
    have hboth : given ++ heard next (asked n c) (asked n (runOn c x).cursor)
        = given ++ fresh := by
      rw [hafter]
      nth_rewrite 1 [hbefore]
      exact Cursor.heard_append (Nat.zero_le _) hle
    exact (List.append_cancel_left hboth).symm
  have hcount := length_le_plainTokens hfollows hfresh
  rw [← hheard, ← show asked n c + fresh.length = asked n (runOn c x).cursor from hlength']
  omega

namespace Parser

variable {p : Parser ε α}

/-- Seeing the end of the input takes no allowance. -/
theorem parseAll_ne_endless {k : Work ε} (h : (exec p.parse k).1 ≠ .error .endless) :
    (exec p.parseAll k).1 ≠ .error .endless := by
  rw [parseAll_eq, exec_bind]
  rcases hexec : exec p.parse k with ⟨r, k'⟩
  rw [hexec] at h
  cases r with
  | error e => exact h
  | ok tree =>
    dsimp only
    rw [exec_seeEnd]
    rcases k'.cursor.look 1 with ⟨r, c⟩
    cases r with
    | error f => simp
    | ok t => cases ht : t.isEOF <;> simp [ht]

/-- **A parse ends.**  The codes of the grammar are not negative; the source of the tokens has given
the answers `given`, of which the tokens `passed` were consumed, and sooner or later it answers with
the end or fails.  Then both parses have an outcome, whatever the levels, the functions, the
conversion and the limit: it is that of the chain without allowances, which never passes the end of
the input.  Of the answers that they ask for at most one is not a token before the end. -/
theorem parse_terminates (hp : p.Unsigned) {next : Nat → Step} {n N : Nat} {given : List Step}
    {passed : List Token} {c : Cursor} (hc : Follows ((List.range n).map next) given passed c)
    (hN : asked n c ≤ N) (hend : Closes (next N)) (hn : N + 1 < n) :
    Terminates next n c p.parse (Unbounded.parse p) ∧
      Terminates next n c p.parseAll (Unbounded.parseAll p) := by
  have hs : Stocked ((List.range n).map next) given := by
    refine ⟨N, next N, by rwa [hc.given_eq.2], ?_, hend, by simpa using hn⟩
    simp [List.getElem?_range (show N < n by omega)]
  have hne := result_ne_endless hp ((Underway.start hc).closes hs)
  exact ⟨(parse_endsAlike hp hs).terminates hc hne,
    (parseAll_endsAlike hp hs).terminates hc (parseAll_ne_endless hne)⟩

/-- A source that gives `a -` and then fails. -/
def interrupted : Nat → Step
  | 0 => .ok (sign 2 "a")
  | 1 => .ok (sign 4 "-")
  | 2 => .error (.source "lost")
  | _ => .ok .eof

/-- **A parse that fails with its source has asked it three times**, for two tokens. -/
theorem parse_terminates_interrupted :
    signParser.Unsigned ∧ Closes (interrupted 2) ∧
      Terminates interrupted 4 (.ofAnswers interrupted 4) signParser.parseAll
        (Unbounded.parseAll signParser) ∧
      (runOn (.ofAnswers interrupted 4) signParser.parseAll).result
        = .error (.read (.source "lost")) ∧
      asked 4 (runOn (.ofAnswers interrupted 4) signParser.parseAll).cursor = 3 := by
  have hclose : Closes (interrupted 2) := fun t ht => nomatch ht
  have hfollows : Follows ((List.range 4).map interrupted) [] [] (.ofAnswers interrupted 4) :=
    Follows.ofFeed _ _
  refine ⟨signParser_unsigned, hclose, ?_, by cbv, by cbv⟩
  exact (parse_terminates signParser_unsigned hfollows (by decide) hclose (by decide)).2

/-- Where the end of the input is a sign, there is no end to the signs. -/
example : (runOn (.ofFeed (.ofSteps [])) { signParser with unaries := [-1] }.parse).result
    = .error .endless := by cbv

end Parser

end Formulary.Chain
