import Formulary.Proofs.Chain.Derivation
import Formulary.Proofs.Chain.Stage

/-!
# What a chain reads is in its grammar

Every stage of the parser that succeeds has passed over tokens that the grammar derives the result
from (`Parser.expression_finds`).  Two facts come with it.  The nesting of the derivation is at most
the room that the stage was given.  And the token that follows is an operator of no level, or the
loop of that level would have taken it; this is why the operators of the derivation all belong to
the innermost level that lists them.

The parser must not give the end of the input a part to play: its codes are not negative
(`Parser.Unsigned`).
-/

namespace Formulary.Chain

open Feed (Closes upcoming)

variable {ε α β γ : Type}

/-! ## 1. Stages that find something -/

/-- No code of the parser is negative, so none is that of the end of the input. -/
structure Parser.Unsigned (p : Parser ε α) : Prop where
  leftParen : 0 ≤ p.leftParen.code
  rightParen : 0 ≤ p.rightParen.code
  comma : 0 ≤ p.comma.code
  operator : ∀ {i code}, p.operator i code → 0 ≤ code
  unaries : ∀ code ∈ p.unaries, 0 ≤ code
  identifiers : ∀ code ∈ p.identifiers, 0 ≤ code

/-- `Finds stage Q`: where the stage yields `b`, it has passed over tokens `u` with the answer
`next` after them such that `Q u next b` holds. -/
def Finds (stage : Stage ε β) (Q : List Token → Step → β → Prop) : Prop :=
  ∀ (s s' : Work ε) (w : List Token) (ending : Step) (b : β),
    Closes ending → s.ahead = (w, ending) → Yields stage s b s' →
      ∃ u rest, w = u ++ rest ∧ s'.ahead = (rest, ending) ∧ Q u (upcoming rest ending) b

theorem Finds.of_yields {stage : Stage ε β} {Q : List Token → Step → β → Prop} (h : Finds stage Q)
    {s s' : Work ε} {w : List Token} {ending : Step} {b : β} (he : Closes ending)
    (hy : Yields stage s b s') (hs : s.ahead = (w, ending)) :
    ∃ u rest, w = u ++ rest ∧ s'.ahead = (rest, ending) ∧ Q u (upcoming rest ending) b :=
  h s s' w ending b he hs hy

theorem Finds.imp {stage : Stage ε β} {Q Q' : List Token → Step → β → Prop} (h : Finds stage Q)
    (hQ : ∀ u next b, Q u next b → Q' u next b) : Finds stage Q' := by
  intro s s' w ending b he hs hy
  obtain ⟨u, rest, hw, hs', hu⟩ := h s s' w ending b he hs hy
  exact ⟨u, rest, hw, hs', hQ _ _ _ hu⟩

theorem Finds.within {rule : Rule} {depth : Nat} {body : Stage ε β}
    {Q : List Token → Step → β → Prop} (h : Finds body Q) : Finds (within rule depth body) Q := by
  intro s s' w ending b he hs hy
  obtain ⟨s₁, hb, rfl⟩ := yields_within.mp hy
  obtain ⟨u, rest, hw, hs', hu⟩ := h.of_yields he hb hs
  exact ⟨u, rest, hw, hs', hu⟩

namespace Parser

variable {p : Parser ε α}

/-! ## 2. Operands -/

theorem atom_finds (hp : p.Unsigned) (room : Nat) :
    Finds p.atom fun u _ t => ∃ n ≤ room + 1, Derives p p.innermost .operand n u [t] := by
  intro s s' w ending t he hs hy
  obtain ⟨a, s₁, h₁, hy⟩ := yields_bind.mp hy
  obtain ⟨ha, hs₁⟩ := h₁.peek hs he
  split at hy
  · next hid =>
    have hid : a.code ∈ p.identifiers := by simpa using hid
    obtain ⟨rest, rfl⟩ := exists_cons_of_upcoming ha he (hp.identifiers _ hid)
    obtain ⟨_, s₂, h₂, hy⟩ := yields_bind.mp hy
    have hs₂ := h₂.skip hs₁ he
    obtain ⟨v, s₃, h₃, hy⟩ := yields_bind.mp hy
    obtain ⟨hv, rfl⟩ := yields_valueOf.mp h₃
    obtain ⟨rfl, rfl⟩ := yields_pure.mp hy
    exact ⟨[a], rest, rfl, hs₂, 1, by omega, .atom hid hv⟩
  · exact absurd hy not_yields_failIn

/-- A parse that nests too deep yields nothing. -/
theorem not_yields_tooDeep {rule : Rule} {s s' : Work ε} {b : β} :
    ¬ Yields (p.tooDeep rule) s b s' := by
  intro hy
  unfold tooDeep at hy
  split at hy
  · exact not_yields_failIn hy
  · obtain ⟨pos, s₁, -, hy⟩ := yields_bind.mp hy
    exact not_yields_failIn hy

/-- Each unary operator takes one of the levels of depth there is room for. -/
theorem unary_finds (hp : p.Unsigned) (room depth : Nat) :
    Finds (p.unary room depth) fun u _ t =>
      ∃ n ≤ room + 1, Derives p p.innermost .operand n u [t] := by
  induction room generalizing depth with
  | zero =>
    intro s s' w ending t he hs hy
    rw [unary] at hy
    obtain ⟨o, s₁, h₁, hy⟩ := yields_bind.mp hy
    obtain ⟨ho, hs₁⟩ := h₁.peek hs he
    split at hy
    · obtain ⟨s₂, hy, -⟩ := yields_within.mp hy
      exact absurd hy not_yields_tooDeep
    · exact (atom_finds hp 0).of_yields he hy hs₁
  | succ room ih =>
    intro s s' w ending t he hs hy
    rw [unary] at hy
    obtain ⟨o, s₁, h₁, hy⟩ := yields_bind.mp hy
    obtain ⟨ho, hs₁⟩ := h₁.peek hs he
    split at hy
    · next hun =>
      have hun : o.code ∈ p.unaries := by simpa using hun
      obtain ⟨rest, rfl⟩ := exists_cons_of_upcoming ho he (hp.unaries _ hun)
      obtain ⟨s₂, hb, rfl⟩ := yields_within.mp hy
      obtain ⟨_, s₃, h₃, hb⟩ := yields_bind.mp hb
      have hs₃ := h₃.skip (s := { s₁ with events := _ }) hs₁ he
      obtain ⟨v, s₄, h₄, hb⟩ := yields_bind.mp hb
      obtain ⟨hv, rfl⟩ := yields_valueOf.mp h₄
      obtain ⟨t', s₅, h₅, hb⟩ := yields_bind.mp hb
      obtain ⟨rfl, rfl⟩ := yields_pure.mp hb
      obtain ⟨u, rest', rfl, hs₅, n, hn, hd⟩ := (ih (depth + 1)).of_yields he h₅ hs₃
      exact ⟨o :: u, rest', rfl, hs₅, n + 1, by omega, .unary hun hv hd⟩
    · exact (atom_finds hp (room + 1)).of_yields he hy hs₁

theorem arguments_finds (hp : p.Unsigned) {room : Nat} {argument : Stage ε (Tree α)}
    (hargument : Finds argument fun u _ t =>
      ∃ n ≤ room, Derives p p.innermost (.level 0) n u [t]) (rounds : Nat) :
    Finds (p.arguments argument rounds) fun u _ ts =>
      ∃ n ≤ room, Derives p p.innermost .arguments n u ts := by
  induction rounds with
  | zero =>
    intro s s' w ending ts he hs hy
    exact absurd hy not_yields_failIn
  | succ rounds ih =>
    intro s s' w ending ts he hs hy
    obtain ⟨t, s₁, h₁, hy⟩ := yields_bind.mp hy
    obtain ⟨u, w', rfl, hs₁, m, hm, hd⟩ := hargument.of_yields he h₁ hs
    obtain ⟨c, s₂, h₂, hy⟩ := yields_bind.mp hy
    obtain ⟨hc, hs₂⟩ := h₂.peek hs₁ he
    split at hy
    · next hcomma =>
      have hcomma : c.code = p.comma.code := by simpa using hcomma
      obtain ⟨rest, rfl⟩ := exists_cons_of_upcoming hc he (hcomma ▸ hp.comma)
      obtain ⟨_, s₃, h₃, hy⟩ := yields_bind.mp hy
      have hs₃ := h₃.skip hs₂ he
      obtain ⟨ts', s₄, h₄, hy⟩ := yields_bind.mp hy
      obtain ⟨rfl, rfl⟩ := yields_pure.mp hy
      obtain ⟨u', rest', rfl, hs₄, n, hn, hd'⟩ := ih.of_yields he h₄ hs₃
      exact ⟨u ++ c :: u', rest', by simp, hs₄, max m n, by omega, .more hcomma hd hd'⟩
    · obtain ⟨rfl, rfl⟩ := yields_pure.mp hy
      exact ⟨u, w', rfl, hs₂, m, hm, .last hd⟩

/-- The next token was seen to be the name of a function before `call` is entered. -/
theorem call_finds (hp : p.Unsigned) {room : Nat} {argument : Stage ε (Tree α)}
    (hargument : Finds argument fun u _ t =>
      ∃ n ≤ room, Derives p p.innermost (.level 0) n u [t])
    {depth : Nat} {s s' : Work ε} {w : List Token} {ending : Step} {t : Tree α} {f : Token}
    (he : Closes ending) (hs : s.ahead = (w, ending)) (hf : upcoming w ending = .ok f)
    (hid : f.code ∈ p.identifiers) (hfun : p.isFunction f.value = true)
    (hy : Yields (p.call argument depth) s t s') :
    ∃ u rest, w = u ++ rest ∧ s'.ahead = (rest, ending) ∧
      ∃ n ≤ room + 1, Derives p p.innermost (.level p.levels.length) n u [t] := by
  obtain ⟨rest, rfl⟩ := exists_cons_of_upcoming hf he (hp.identifiers _ hid)
  obtain ⟨s₁, hb, rfl⟩ := yields_within.mp hy
  obtain ⟨f', s₂, h₂, hb⟩ := yields_bind.mp hb
  obtain ⟨hf', hs₂⟩ := h₂.peek (s := { s with events := _ }) hs he
  obtain rfl := Except.ok.inj hf'
  obtain ⟨_, s₃, h₃, hb⟩ := yields_bind.mp hb
  have hs₃ := h₃.skip hs₂ he
  obtain ⟨v, s₄, h₄, hb⟩ := yields_bind.mp hb
  obtain ⟨hv, rfl⟩ := yields_valueOf.mp h₄
  obtain ⟨_, s₅, h₅, hb⟩ := yields_bind.mp hb
  obtain ⟨opening, w₅, rfl, hopening, hs₅⟩ :=
    h₅.require (s := { s₃ with converted := _ }) hs₃ he hp.leftParen
  obtain ⟨rounds, s₆, h₆, hb⟩ := yields_bind.mp hb
  obtain ⟨-, rfl⟩ := yields_pending.mp h₆
  obtain ⟨args, s₇, h₇, hb⟩ := yields_bind.mp hb
  obtain ⟨u, w₇, rfl, hs₇, n, hn, hd⟩ :=
    (arguments_finds hp hargument (rounds + 1)).of_yields he h₇ hs₅
  obtain ⟨_, s₈, h₈, hb⟩ := yields_bind.mp hb
  obtain ⟨closing, w₈, rfl, hclosing, hs₈⟩ := h₈.require hs₇ he hp.rightParen
  obtain ⟨rfl, rfl⟩ := yields_pure.mp hb
  exact ⟨f :: opening :: (u ++ [closing]), w₈, by simp, hs₈, n + 1, by omega,
    .call hid hfun hv hopening hclosing hd⟩

/-- The next token was seen to be an opening parenthesis before `group` is entered. -/
theorem group_finds (hp : p.Unsigned) {room : Nat} {inner : Stage ε (Tree α)}
    (hinner : Finds inner fun u _ t => ∃ n ≤ room, Derives p p.innermost (.level 0) n u [t])
    {depth : Nat} {s s' : Work ε} {w : List Token} {ending : Step} {t : Tree α} {opening : Token}
    (he : Closes ending) (hs : s.ahead = (w, ending)) (hnext : upcoming w ending = .ok opening)
    (hopening : opening.code = p.leftParen.code) (hy : Yields (p.group inner depth) s t s') :
    ∃ u rest, w = u ++ rest ∧ s'.ahead = (rest, ending) ∧
      ∃ n ≤ room + 1, Derives p p.innermost (.level p.levels.length) n u [t] := by
  obtain ⟨rest, rfl⟩ := exists_cons_of_upcoming hnext he (hopening ▸ hp.leftParen)
  obtain ⟨s₁, hb, rfl⟩ := yields_within.mp hy
  obtain ⟨_, s₂, h₂, hb⟩ := yields_bind.mp hb
  have hs₂ := h₂.skip (s := { s with events := _ }) hs he
  obtain ⟨t', s₃, h₃, hb⟩ := yields_bind.mp hb
  obtain ⟨u, w₃, rfl, hs₃, n, hn, hd⟩ := hinner.of_yields he h₃ hs₂
  obtain ⟨_, s₄, h₄, hb⟩ := yields_bind.mp hb
  obtain ⟨closing, w₄, rfl, hclosing, hs₄⟩ := h₄.require hs₃ he hp.rightParen
  obtain ⟨rfl, rfl⟩ := yields_pure.mp hb
  exact ⟨opening :: (u ++ [closing]), w₄, by simp, hs₄, n + 1, by omega,
    .group hopening hclosing hd⟩

/-- **Behind the last level stand calls, groups and operands.** -/
theorem terminal_finds (hp : p.Unsigned) {room depth : Nat} {inner : Stage ε (Tree α)}
    (hinner : Finds inner fun u _ t => ∃ n ≤ room, Derives p p.innermost (.level 0) n u [t]) :
    Finds (p.terminal inner room depth) fun u _ t =>
      ∃ n ≤ room + 1, Derives p p.innermost (.level p.levels.length) n u [t] := by
  intro s s' w ending t he hs hy
  obtain ⟨f, s₁, h₁, hy⟩ := yields_bind.mp hy
  obtain ⟨hf, hs₁⟩ := h₁.peek hs he
  split at hy
  · next hcall =>
    simp only [Bool.and_eq_true, List.contains_iff_mem] at hcall
    exact call_finds hp hinner he hs₁ hf hcall.1 hcall.2 hy
  · next hcall =>
    split at hy
    · next hparen => exact group_finds hp hinner he hs₁ hf (by simpa using hparen) hy
    · obtain ⟨u, rest, rfl, hs', n, hn, hd⟩ := (unary_finds hp room depth).of_yields he hy hs₁
      refine ⟨u, rest, rfl, hs', n, hn, .operand hd ?_⟩
      -- an operand of one token is an identifier, and the test for a call has failed on it
      rintro a rfl
      obtain ⟨a', ha', hid⟩ | ⟨o, w', ho, hw', -⟩ := hd.operand_cases
      · obtain rfl : a = a' := by simpa using ha'
        obtain rfl : a = f := by simpa using hf
        simpa [hid] using hcall
      · simp only [List.cons.injEq] at ho
        exact absurd ho.2.symm hw'

/-! ## 3. Levels -/

/-- The token is an operator of no level from `i` on. -/
def StopsAt (p : Parser ε α) (i : Nat) (next : Step) : Prop :=
  ∀ t, next = .ok t → ∀ j, i ≤ j → ¬ p.operator j t.code

/-- **The loop of a level extends what was read to its left**, and stops before a token that is an
operator neither of its level nor of a tighter one. -/
theorem climb_finds (hp : p.Unsigned) {R i : Nat} {ops : List Int} (hops : p.levels[i]? = some ops)
    {rule : Rule} {next : Stage ε (Tree α)}
    (hnext : Finds next fun u after t =>
      (∃ n ≤ R, Derives p p.innermost (.level (i + 1)) n u [t]) ∧ p.StopsAt (i + 1) after)
    (rounds : Nat) {s s' : Work ε} {u w : List Token} {ending : Step} {left t : Tree α} {m : Nat}
    (he : Closes ending) (hs : s.ahead = (w, ending)) (hm : m ≤ R)
    (hleft : Derives p p.innermost (.level i) m u [left])
    (hstop : p.StopsAt (i + 1) (upcoming w ending))
    (hy : Yields (p.climb rule ops next rounds left) s t s') :
    ∃ u' rest, w = u' ++ rest ∧ s'.ahead = (rest, ending) ∧
      (∃ n ≤ R, Derives p p.innermost (.level i) n (u ++ u') [t]) ∧
        p.StopsAt i (upcoming rest ending) := by
  induction rounds generalizing s u w left m with
  | zero => exact absurd hy not_yields_failIn
  | succ rounds ih =>
    obtain ⟨o, s₁, h₁, hy⟩ := yields_bind.mp hy
    obtain ⟨ho, hs₁⟩ := h₁.peek hs he
    split at hy
    · next hmem =>
      have hop : p.operator i o.code := ⟨ops, hops, by simpa using hmem⟩
      obtain ⟨rest, rfl⟩ := exists_cons_of_upcoming ho he (hp.operator hop)
      obtain ⟨_, s₂, h₂, hy⟩ := yields_bind.mp hy
      have hs₂ := h₂.skip hs₁ he
      obtain ⟨v, s₃, h₃, hy⟩ := yields_bind.mp hy
      obtain ⟨hv, rfl⟩ := yields_valueOf.mp h₃
      obtain ⟨right, s₄, h₄, hy⟩ := yields_bind.mp hy
      obtain ⟨u₄, w₄, rfl, hs₄, ⟨n, hn, hright⟩, hstop₄⟩ :=
        hnext.of_yields he h₄ hs₂
      -- the operator was left over by the tighter levels, so this is its innermost one
      have hinner : p.innermost i o.code := ⟨hop, fun j hj => hstop o rfl j hj⟩
      obtain ⟨u', rest', rfl, hs', hd, hstop'⟩ :=
        ih hs₄ (by omega) (.binary hinner hv hleft hright) hstop₄ hy
      exact ⟨o :: (u₄ ++ u'), rest', by simp, hs', by simpa using hd, hstop'⟩
    · next hmem =>
      obtain ⟨rfl, rfl⟩ := yields_pure.mp hy
      refine ⟨[], w, rfl, hs₁, ⟨m, hm, by simpa using hleft⟩, ?_⟩
      intro o' ho' j hj hop
      rcases Nat.lt_or_eq_of_le hj with hlt | rfl
      · exact hstop o' ho' j hlt hop
      · obtain rfl := Except.ok.inj (ho.symm.trans ho')
        obtain ⟨ops', hops', hin⟩ := hop
        obtain rfl := Option.some.inj (hops.symm.trans hops')
        exact hmem (by simpa using hin)

/-- The levels left over from `i` on start with the level `i`. -/
theorem exists_of_drop_eq_cons {levels others : List (List Int)} {ops : List Int} {i : Nat}
    (h : levels.drop i = ops :: others) :
    i < levels.length ∧ levels[i]? = some ops ∧ levels.drop (i + 1) = others := by
  have hlt : i < levels.length := by
    rcases Nat.lt_or_ge i levels.length with hlt | hge
    · exact hlt
    · simp [List.drop_eq_nil_of_le hge] at h
  rw [List.drop_eq_getElem_cons hlt] at h
  obtain ⟨hget, hrest⟩ := List.cons.inj h
  exact ⟨hlt, by rw [List.getElem?_eq_getElem hlt, hget], hrest⟩

/-- **A level and those behind it.**  By induction on the levels left over; `operand` is what stands
behind the last one. -/
theorem level_finds (hp : p.Unsigned) {R depth : Nat} {operand : Stage ε (Tree α)}
    (hoperand : Finds operand fun u _ t =>
      ∃ n ≤ R, Derives p p.innermost (.level p.levels.length) n u [t]) :
    ∀ (levels : List (List Int)) (i : Nat), i ≤ p.levels.length → p.levels.drop i = levels →
      Finds (p.level operand depth i levels) fun u after t =>
        (∃ n ≤ R, Derives p p.innermost (.level i) n u [t]) ∧ p.StopsAt i after := by
  intro levels
  induction levels with
  | nil =>
    intro i hi hdrop
    have hlen : i = p.levels.length := Nat.le_antisymm hi (List.drop_eq_nil_iff.mp hdrop)
    subst hlen
    refine hoperand.imp fun u after t h => ⟨h, ?_⟩
    intro t' _ j hj hop
    have := hop.lt
    omega
  | cons ops others ih =>
    intro i hi hdrop
    obtain ⟨hlt, hops, hrest⟩ := exists_of_drop_eq_cons hdrop
    refine Finds.within ?_
    intro s s' w ending t he hs hy
    obtain ⟨left, s₁, h₁, hy⟩ := yields_bind.mp hy
    obtain ⟨u, w₁, rfl, hs₁, ⟨n, hn, hd⟩, hstop⟩ :=
      (ih (i + 1) hlt hrest).of_yields he h₁ hs
    obtain ⟨rounds, s₂, h₂, hy⟩ := yields_bind.mp hy
    obtain ⟨-, rfl⟩ := yields_pending.mp h₂
    obtain ⟨u', rest, rfl, hs', hd', hstop'⟩ :=
      climb_finds hp hops (ih (i + 1) hlt hrest) (rounds + 1) he hs₁ hn (.tighter hlt hd) hstop hy
    exact ⟨u ++ u', rest, by simp, hs', hd', hstop'⟩

/-- **What an expression reads is derived from the loosest level**, nests no deeper than there is
room for, and is followed by no operator. -/
theorem expression_finds (hp : p.Unsigned) (room depth : Nat) :
    Finds (p.expression room depth) fun u after t =>
      (∃ n ≤ room, Derives p p.innermost (.level 0) n u [t]) ∧ p.StopsAt 0 after := by
  induction room generalizing depth with
  | zero =>
    intro s s' w ending t he hs hy
    exact absurd hy not_yields_tooDeep
  | succ room ih =>
    exact level_finds hp (terminal_finds hp ((ih (depth + 1)).imp fun _ _ _ h => h.1))
      p.levels 0 (Nat.zero_le _) rfl

end Parser

end Formulary.Chain
