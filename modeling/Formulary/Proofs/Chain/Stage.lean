import Mathlib
import Formulary.Chain.Parser
import Formulary.Proofs.Lookahead

/-!
# Stages that succeed

A stage of a parse takes the work done so far and gives a value or an error, with the work after it.
`Yields stage s b s'` says that it gives the value `b`.  This module takes stages apart: a stage in
two steps yields if both steps do, and each step that touches the cursor is described by what it
does to the tokens ahead.

`Consumes stage w rest ending b` turns that around and says what a stage does with an input:
wherever `w` and then `rest` lie ahead, it yields `b` and leaves `rest`.
-/

namespace Formulary.Chain

open Feed (Closes upcoming)

variable {ε α β γ : Type}

/-- The tokens before the cursor, and the answer that ends them. -/
def Work.ahead (s : Work ε) : List Token × Step := s.cursor.ahead

/-- What a stage makes of the work done before it: its result, and the work after it. -/
def exec (stage : Stage ε β) (s : Work ε) : Except (ParseError ε) β × Work ε := stage.run s

/-- The stage succeeds from `s` with the value `b` and leaves `s'`. -/
def Yields (stage : Stage ε β) (s : Work ε) (b : β) (s' : Work ε) : Prop :=
  exec stage s = (.ok b, s')

/-! ## 1. Stages taken apart -/

/-- **A step after another runs on what the first one left**, and not at all if that failed. -/
theorem exec_bind (x : Stage ε β) (f : β → Stage ε γ) (s : Work ε) :
    exec (x >>= f) s = match exec x s with
      | (.ok b, s') => exec (f b) s'
      | (.error e, s') => (.error e, s') := by
  show (ExceptT.bind x f).run s = _
  simp only [exec, ExceptT.bind, ExceptT.run, ExceptT.mk, bind, StateT.bind]
  rcases x s with ⟨r, s'⟩
  cases r <;> rfl

theorem exec_pure (b : β) (s : Work ε) : exec (pure b : Stage ε β) s = (.ok b, s) := rfl

theorem exec_get (s : Work ε) : exec (get : Stage ε (Work ε)) s = (.ok s, s) := rfl

theorem exec_failIn (rule : Rule) (e : ParseError ε) (s : Work ε) :
    exec (failIn rule e : Stage ε β) s
      = (.error e, { s with events := .failed rule e :: s.events }) := rfl

/-- The events around a stage change nothing but the events. -/
theorem exec_within (rule : Rule) (depth : Nat) (body : Stage ε β) (s : Work ε) :
    exec (within rule depth body) s
      = let done := exec body { s with events := .enter rule depth :: s.events }
        (done.1, { done.2 with events := .leave rule depth :: done.2.events }) := by
  unfold within
  rw [exec_bind]
  show exec (ExceptT.lift body.run >>= _) { s with events := .enter rule depth :: s.events } = _
  rw [exec_bind]
  have hlift : exec (ExceptT.lift body.run : Stage ε (Except (ParseError ε) β))
      { s with events := .enter rule depth :: s.events }
      = (.ok (exec body { s with events := .enter rule depth :: s.events }).1,
        (exec body { s with events := .enter rule depth :: s.events }).2) := rfl
  rw [hlift]
  rcases exec body { s with events := .enter rule depth :: s.events } with ⟨r, s'⟩
  cases r <;> rfl

theorem exec_onCursor (rule : Rule) (move : Cursor → Except Failure β × Cursor) (s : Work ε) :
    exec (onCursor rule move) s = match move s.cursor with
      | (.ok b, c) => (.ok b, { s with cursor := c })
      | (.error f, c) => exec (failIn rule (.read f)) { s with cursor := c } := by
  rw [onCursor, exec_bind, exec_get]
  dsimp only
  rcases move s.cursor with ⟨r, c⟩
  cases r <;> rfl

theorem exec_require (rule : Rule) (kind : Kind) (s : Work ε) :
    exec (require rule kind) s = match s.cursor.expect kind with
      | (.ok _, c) => (.ok (), { s with cursor := c })
      | (.error f, c) => exec (failIn rule (.read f)) { s with cursor := c } := by
  rw [require, exec_bind, exec_onCursor]
  rcases s.cursor.expect kind with ⟨r, c⟩
  cases r <;> rfl

theorem exec_valueOf (p : Parser ε α) (rule : Rule) (t : Token) (role : Role) (s : Work ε) :
    exec (p.valueOf rule t role) s = match p.convert t role with
      | .ok v => (.ok v, { s with converted := (t, role) :: s.converted })
      | .error e => exec (failIn rule (.convert t e))
          { s with converted := (t, role) :: s.converted } := by
  have h : exec (p.valueOf rule t role) s
      = exec (match p.convert t role with
        | .ok v => (pure v : Stage ε α)
        | .error e => failIn rule (.convert t e))
          { s with converted := (t, role) :: s.converted } := rfl
  rw [h]
  cases p.convert t role <;> rfl

theorem exec_pending (s : Work ε) :
    exec (pending : Stage ε Nat) s = (.ok s.cursor.pending, s) := rfl

/-- **A stage in two steps succeeds where both steps do.** -/
theorem yields_bind {x : Stage ε β} {f : β → Stage ε γ} {s s'' : Work ε} {c : γ} :
    Yields (x >>= f) s c s'' ↔ ∃ b s', Yields x s b s' ∧ Yields (f b) s' c s'' := by
  unfold Yields
  rw [exec_bind]
  rcases exec x s with ⟨r, s'⟩
  cases r with
  | error e => simp
  | ok b =>
    constructor
    · exact fun h => ⟨b, s', rfl, h⟩
    · rintro ⟨b', s₁, hx, hf⟩
      obtain ⟨hb, rfl⟩ := Prod.mk.inj hx
      obtain rfl := Except.ok.inj hb
      exact hf

@[simp] theorem yields_pure {b c : β} {s s' : Work ε} :
    Yields (pure b : Stage ε β) s c s' ↔ b = c ∧ s = s' := by
  simp [Yields, exec_pure]

theorem not_yields_failIn {rule : Rule} {e : ParseError ε} {s s' : Work ε} {b : β} :
    ¬ Yields (failIn rule e) s b s' := by
  simp [Yields, exec_failIn]

/-- The events around a stage do not change what it yields. -/
theorem yields_within {rule : Rule} {depth : Nat} {body : Stage ε β} {s s' : Work ε} {b : β} :
    Yields (within rule depth body) s b s' ↔
      ∃ s₁, Yields body { s with events := .enter rule depth :: s.events } b s₁ ∧
        { s₁ with events := .leave rule depth :: s₁.events } = s' := by
  unfold Yields
  rw [exec_within]
  rcases exec body { s with events := .enter rule depth :: s.events } with ⟨r, s₁⟩
  simp [Prod.ext_iff, and_assoc]

/-- A move of the cursor succeeds where the cursor does. -/
theorem yields_onCursor {rule : Rule} {move : Cursor → Except Failure β × Cursor} {s s' : Work ε}
    {b : β} :
    Yields (onCursor rule move) s b s' ↔
      ∃ c, move s.cursor = (.ok b, c) ∧ { s with cursor := c } = s' := by
  unfold Yields
  rw [exec_onCursor]
  rcases move s.cursor with ⟨r, c⟩
  cases r with
  | error f => simp [exec_failIn]
  | ok b₁ => simp [Prod.ext_iff, and_assoc]

/-- Converting a token moves nothing. -/
theorem yields_valueOf {p : Parser ε α} {rule : Rule} {t : Token} {role : Role} {s s' : Work ε}
    {v : α} :
    Yields (p.valueOf rule t role) s v s' ↔
      p.convert t role = .ok v ∧ { s with converted := (t, role) :: s.converted } = s' := by
  unfold Yields
  rw [exec_valueOf]
  cases p.convert t role with
  | error e => simp [exec_failIn]
  | ok v₁ => simp

theorem yields_pending {s s' : Work ε} {n : Nat} :
    Yields (pending : Stage ε Nat) s n s' ↔ s.cursor.pending = n ∧ s = s' := by
  simp [Yields, exec_pending]

/-! ## 2. Steps that succeed, in terms of the tokens ahead -/

section Inversion

variable {s s' : Work ε} {w : List Token} {ending : Step} {rule : Rule}

/-- A token with a code that is not negative is not the end of the input. -/
theorem exists_cons_of_upcoming {w : List Token} {ending : Step} {t : Token}
    (h : upcoming w ending = .ok t) (he : Closes ending) (ht : 0 ≤ t.code) :
    ∃ rest, w = t :: rest := by
  cases w with
  | nil =>
    have hend : t.isEOF = true := he t h
    rw [Token.isEOF_of_code ht] at hend
    simp at hend
  | cons u rest =>
    obtain rfl := Except.ok.inj h
    exact ⟨rest, rfl⟩

/-- The token seen is the next one. -/
theorem Yields.peek {t : Token} (h : Yields (peek rule) s t s') (hs : s.ahead = (w, ending))
    (he : Closes ending) : upcoming w ending = .ok t ∧ s'.ahead = (w, ending) := by
  obtain ⟨c, hm, rfl⟩ := yields_onCursor.mp h
  obtain ⟨c', hlook, hnext⟩ := Cursor.look_one hs he
  rw [hlook] at hm
  obtain ⟨ht, rfl⟩ := Prod.mk.inj hm
  exact ⟨ht, hnext t ht⟩

/-- Passing over the next token, which is not the end, takes it off. -/
theorem Yields.skip {t : Token} {u : Unit} (h : Yields (skip rule) s u s')
    (hs : s.ahead = (t :: w, ending))
    (he : Closes ending) : s'.ahead = (w, ending) := by
  obtain ⟨c, hm, rfl⟩ := yields_onCursor.mp h
  obtain ⟨c', hconsume, hahead⟩ := Cursor.consume_cons hs he
  rw [hconsume] at hm
  obtain ⟨-, rfl⟩ := Prod.mk.inj hm
  exact hahead

/-- A kind that is required and is not that of the end was that of the next token. -/
theorem Yields.require {k : Kind} {u : Unit} (h : Yields (require rule k) s u s')
    (hs : s.ahead = (w, ending)) (he : Closes ending) (hk : 0 ≤ k.code) :
    ∃ t rest, w = t :: rest ∧ t.code = k.code ∧ s'.ahead = (rest, ending) := by
  obtain ⟨t, s₁, h₁, h₂⟩ := yields_bind.mp h
  obtain ⟨-, rfl⟩ := yields_pure.mp h₂
  obtain ⟨c, hm, rfl⟩ := yields_onCursor.mp h₁
  by_cases hcode : ∃ t, upcoming w ending = .ok t ∧ t.code = k.code
  · obtain ⟨u, hu, huk⟩ := hcode
    obtain ⟨rest, rfl⟩ := exists_cons_of_upcoming hu he (huk ▸ hk)
    obtain ⟨c', hexpect, hahead⟩ := Cursor.expect_cons hs he huk
    rw [hexpect] at hm
    obtain ⟨-, rfl⟩ := Prod.mk.inj hm
    exact ⟨u, rest, rfl, huk, hahead⟩
  · obtain ⟨f, c', hexpect⟩ := Cursor.expect_ne (k := k) hs he fun t ht hk => hcode ⟨t, ht, hk⟩
    rw [hexpect] at hm
    simp at hm

end Inversion

/-! ## 3. Stages as readers of an input -/

/-- Wherever the tokens `w` and then `rest` lie ahead, up to `ending`, the stage yields `b` and
leaves `rest`. -/
def Consumes (stage : Stage ε β) (w rest : List Token) (ending : Step) (b : β) : Prop :=
  ∀ s : Work ε, s.ahead = (w ++ rest, ending) →
    ∃ s', Yields stage s b s' ∧ s'.ahead = (rest, ending)

namespace Consumes

variable {ending : Step} {rule : Rule} {rest : List Token}

theorem pure (b : β) : Consumes (pure b : Stage ε β) [] rest ending b :=
  fun s hs => ⟨s, yields_pure.mpr ⟨rfl, rfl⟩, hs⟩

/-- **One stage after another reads one text after another.** -/
theorem bind {x : Stage ε β} {f : β → Stage ε γ} {u w : List Token} {b : β} {c : γ}
    (hx : Consumes x u (w ++ rest) ending b) (hf : Consumes (f b) w rest ending c) :
    Consumes (x >>= f) (u ++ w) rest ending c := by
  intro s hs
  obtain ⟨s₁, h₁, hs₁⟩ := hx s (by rw [hs, List.append_assoc])
  obtain ⟨s₂, h₂, hs₂⟩ := hf s₁ hs₁
  exact ⟨s₂, yields_bind.mpr ⟨b, s₁, h₁, h₂⟩, hs₂⟩

/-- A last stage that takes nothing. -/
theorem bind_nil {x : Stage ε β} {f : β → Stage ε γ} {w : List Token} {b : β} {c : γ}
    (hx : Consumes x w rest ending b) (hf : Consumes (f b) [] rest ending c) :
    Consumes (x >>= f) w rest ending c := by
  have h := hx.bind (w := []) hf
  rwa [List.append_nil] at h

/-- A look at the next token takes nothing. -/
theorem peek {t : Token} {w : List Token} {f : Token → Stage ε β} {b : β} (he : Closes ending)
    (ht : upcoming (w ++ rest) ending = .ok t) (hf : Consumes (f t) w rest ending b) :
    Consumes (Chain.peek rule >>= f) w rest ending b := by
  intro s hs
  obtain ⟨c, hlook, hnext⟩ := Cursor.look_one hs he
  obtain ⟨s₂, h₂, hs₂⟩ := hf { s with cursor := c } (hnext t ht)
  refine ⟨s₂, yields_bind.mpr ⟨t, _, yields_onCursor.mpr ⟨c, ?_, rfl⟩, h₂⟩, hs₂⟩
  rw [hlook, ht]

theorem skip {t : Token} {w : List Token} {f : Unit → Stage ε β} {b : β} (he : Closes ending)
    (hf : Consumes (f ()) w rest ending b) :
    Consumes (Chain.skip rule >>= f) (t :: w) rest ending b := by
  intro s hs
  obtain ⟨c, hconsume, hahead⟩ := Cursor.consume_cons hs he
  obtain ⟨s₂, h₂, hs₂⟩ := hf { s with cursor := c } hahead
  exact ⟨s₂, yields_bind.mpr ⟨(), _, yields_onCursor.mpr ⟨c, hconsume, rfl⟩, h₂⟩, hs₂⟩

theorem require {k : Kind} {t : Token} {w : List Token} {f : Unit → Stage ε β} {b : β}
    (he : Closes ending) (hk : t.code = k.code) (hf : Consumes (f ()) w rest ending b) :
    Consumes (Chain.require rule k >>= f) (t :: w) rest ending b := by
  intro s hs
  obtain ⟨c, hexpect, hahead⟩ := Cursor.expect_cons hs he hk
  obtain ⟨s₂, h₂, hs₂⟩ := hf { s with cursor := c } hahead
  refine ⟨s₂, yields_bind.mpr ⟨(), _, ?_, h₂⟩, hs₂⟩
  exact yields_bind.mpr ⟨t, _, yields_onCursor.mpr ⟨c, hexpect, rfl⟩, yields_pure.mpr ⟨rfl, rfl⟩⟩

theorem valueOf {p : Parser ε α} {t : Token} {role : Role} {v : α} {w : List Token}
    {f : α → Stage ε β} {b : β} (hv : p.convert t role = .ok v)
    (hf : Consumes (f v) w rest ending b) :
    Consumes (p.valueOf rule t role >>= f) w rest ending b := by
  intro s hs
  obtain ⟨s₂, h₂, hs₂⟩ := hf { s with converted := (t, role) :: s.converted } hs
  exact ⟨s₂, yields_bind.mpr ⟨v, _, yields_valueOf.mpr ⟨hv, rfl⟩, h₂⟩, hs₂⟩

theorem within {depth : Nat} {body : Stage ε β} {w : List Token} {b : β}
    (h : Consumes body w rest ending b) :
    Consumes (Chain.within rule depth body) w rest ending b := by
  intro s hs
  obtain ⟨s₁, h₁, hs₁⟩ := h { s with events := .enter rule depth :: s.events } hs
  exact ⟨_, yields_within.mpr ⟨s₁, h₁, rfl⟩, hs₁⟩

/-- **The allowance of a loop is more than the tokens it can take.** -/
theorem pending {f : Nat → Stage ε β} {w : List Token} {b : β}
    (hf : ∀ n, (w ++ rest).length ≤ n → Consumes (f n) w rest ending b) :
    Consumes (Chain.pending >>= f) w rest ending b := by
  intro s hs
  have hle : (w ++ rest).length ≤ s.cursor.pending := by
    have h := s.cursor.length_ahead_le_pending
    rwa [show s.cursor.ahead = (w ++ rest, ending) from hs] at h
  obtain ⟨s₂, h₂, hs₂⟩ := hf s.cursor.pending hle s hs
  exact ⟨s₂, yields_bind.mpr ⟨_, s, yields_pending.mpr ⟨rfl, rfl⟩, h₂⟩, hs₂⟩

end Consumes

end Formulary.Chain
