import Formulary.Proofs.Chain.Course

/-!
# Limits of depth

A parser with a limit gives the answer of the parser without one, or it says that the expression is
nested too deep.  It says so exactly for the expressions that nest deeper than the limit.

The first part needs two runs side by side.  Room is all that a limit takes away, so it is enough to
compare a stage that has less room with one that has more: they do the same until the first one
runs out of it (`Parser.expression_mimics`).  Without a limit the room never runs out, because a
walk is at most as deep as it is long.

The second part needs the walks of both runs.  What a run passes over it passes over at stands that
it has room for, and where it runs out of room it has reached a stand that is too deep. -/

namespace Formulary.Chain

open Feed (Closes upcoming)

variable {ε α β γ : Type}

/-! ## 1. Less room and more -/

/-- The stage `x` does what `y` does, or it fails with an error that `bad` holds of. -/
def Mimics (bad : ParseError ε → Prop) (x y : Stage ε β) : Prop :=
  ∀ k, exec x k = exec y k ∨ ∃ e, bad e ∧ (exec x k).1 = .error e

namespace Mimics

variable {bad : ParseError ε → Prop} {x y : Stage ε β}

theorem refl (x : Stage ε β) : Mimics bad x x := fun _ => .inl rfl

/-- **What is mimicked step by step is mimicked as a whole.** -/
theorem bind {f g : β → Stage ε γ} (hx : Mimics bad x y) (hf : ∀ b, Mimics bad (f b) (g b)) :
    Mimics bad (x >>= f) (y >>= g) := by
  intro k
  rw [exec_bind, exec_bind]
  rcases hx k with heq | ⟨e, he, hfail⟩
  · rw [heq]
    rcases exec y k with ⟨r, k'⟩
    cases r with
    | error e => exact .inl rfl
    | ok b => exact hf b k'
  · rcases hexec : exec x k with ⟨r, k'⟩
    rw [hexec] at hfail
    obtain rfl : r = .error e := hfail
    exact .inr ⟨e, he, rfl⟩

theorem within {rule : Rule} {depth : Nat} (h : Mimics bad x y) :
    Mimics bad (Chain.within rule depth x) (Chain.within rule depth y) := by
  intro k
  rw [exec_within, exec_within]
  rcases h { k with events := .enter rule depth :: k.events } with heq | ⟨e, he, hfail⟩
  · exact .inl (by rw [heq])
  · exact .inr ⟨e, he, hfail⟩

end Mimics

namespace Parser

variable {p : Parser ε α} {limit : Nat}

/-- A stage without room fails, whatever is mimicked. -/
theorem tooDeep_mimics {rule : Rule} (y : Stage ε β) :
    Mimics p.Exhausted (p.tooDeep rule) y := by
  intro k
  obtain ⟨e, k', he, hexec⟩ := p.exec_tooDeep (β := β) rule k
  exact .inr ⟨e, he, by rw [hexec]⟩

/-- `q` is the parser `p` with another limit. -/
abbrev limited (p : Parser ε α) (limit : Nat) : Parser ε α := { p with limit }

theorem unary_mimics {a b : Nat} (hab : a ≤ b) (depth : Nat) :
    Mimics (p.limited limit).Exhausted ((p.limited limit).unary a depth) (p.unary b depth) := by
  induction a generalizing b depth with
  | zero =>
    unfold unary
    refine .bind (.refl _) fun t => ?_
    dsimp only
    split
    · exact .within (tooDeep_mimics _)
    · exact .refl _
  | succ a ih =>
    obtain ⟨b, rfl⟩ : ∃ b', b = b' + 1 := ⟨b - 1, by omega⟩
    unfold unary
    refine .bind (.refl _) fun t => ?_
    dsimp only
    split
    · refine .within (.bind (.refl _) fun _ => .bind (.refl _) fun v => ?_)
      exact .bind (ih (by omega) (depth + 1)) fun _ => .refl _
    · exact .refl _

section

variable {bad : ParseError ε → Prop} {x y : Stage ε (Tree α)}

theorem arguments_mimics (h : Mimics bad x y) (rounds : Nat) :
    Mimics bad ((p.limited limit).arguments x rounds) (p.arguments y rounds) := by
  induction rounds with
  | zero => exact .refl _
  | succ rounds ih =>
    rw [arguments, arguments]
    refine .bind h fun first => .bind (.refl _) fun t => ?_
    dsimp only
    split
    · exact .bind (.refl _) fun _ => .bind ih fun _ => .refl _
    · exact .refl _

theorem call_mimics (h : Mimics bad x y) (depth : Nat) :
    Mimics bad ((p.limited limit).call x depth) (p.call y depth) := by
  unfold call
  refine .within (.bind (.refl _) fun t => .bind (.refl _) fun _ => .bind (.refl _) fun v => ?_)
  refine .bind (.refl _) fun _ => .bind (.refl _) fun rounds => ?_
  exact .bind (arguments_mimics h (rounds + 1)) fun _ => .refl _

theorem group_mimics (h : Mimics bad x y) (depth : Nat) :
    Mimics bad ((p.limited limit).group x depth) (p.group y depth) :=
  .within (.bind (.refl _) fun _ => .bind h fun _ => .refl _)

theorem climb_mimics (h : Mimics bad x y) {rule : Rule} {ops : List Int} (rounds : Nat)
    (left : Tree α) :
    Mimics bad ((p.limited limit).climb rule ops x rounds left)
      (p.climb rule ops y rounds left) := by
  induction rounds generalizing left with
  | zero => exact .refl _
  | succ rounds ih =>
    rw [climb, climb]
    refine .bind (.refl _) fun t => ?_
    split
    · refine .bind (.refl _) fun _ => .bind (.refl _) fun v => .bind h fun right => ?_
      exact ih _
    · exact .refl _

theorem level_mimics (h : Mimics bad x y) (depth index : Nat) (levels : List (List Int)) :
    Mimics bad ((p.limited limit).level x depth index levels) (p.level y depth index levels) := by
  induction levels generalizing index with
  | nil => exact h
  | cons ops others ih =>
    rw [level, level]
    refine .within (.bind (ih (index + 1)) fun left => .bind (.refl _) fun rounds => ?_)
    exact climb_mimics (ih (index + 1)) (rounds + 1) left

end

/-- **With less room an expression is read in the same way, until the room runs out.** -/
theorem expression_mimics (limit : Nat) {a b : Nat} (hab : a ≤ b) (depth : Nat) :
    Mimics (p.limited limit).Exhausted ((p.limited limit).expression a depth)
      (p.expression b depth) := by
  induction a generalizing b depth with
  | zero => exact tooDeep_mimics _
  | succ a ih =>
    obtain ⟨b, rfl⟩ : ∃ b', b = b' + 1 := ⟨b - 1, by omega⟩
    rw [expression, expression]
    refine level_mimics ?_ (depth + 1) 0 p.levels
    have hinner := ih (b := b) (by omega) (depth + 1)
    unfold terminal
    refine .bind (.refl _) fun t => ?_
    dsimp only
    split
    · exact call_mimics hinner (depth + 1)
    · split
      · exact group_mimics hinner (depth + 1)
      · exact unary_mimics (by omega) (depth + 1)

/-! ## 2. Parses with a limit -/

/-- A limit has no part in the nesting of tokens. -/
theorem deepest_limited (s : Stand) (w : List Token) :
    (p.limited limit).deepest s w = p.deepest s w := by
  induction w generalizing s with
  | nil => rfl
  | cons t w ih =>
    have hstep : (p.limited limit).step s t = p.step s t := rfl
    simp only [deepest, hstep, ih]

variable {c : Cursor} {n : Nat}

/-- The parse fails because the expression is nested deeper than the limit. -/
def TooNested (p : Parser ε α) (c : Cursor) : Prop :=
  ∃ pos, (runOn c p.parse).result = .error (.nested p.limit pos)

theorem runOn_parse_eq {q : Parser ε α} (h : exec p.parse ⟨c, [], []⟩ = exec q.parse ⟨c, [], []⟩) :
    runOn c p.parse = runOn c q.parse := by
  rw [runOn_eq, runOn_eq, h]

/-- **A limit below the room of a parser changes nothing but to make a parse fail.** -/
theorem runOn_limited_or (hn : 0 < n) (hroom : n ≤ p.room c) :
    runOn c (p.limited n).parse = runOn c p.parse ∨ (p.limited n).TooNested c := by
  have hn0 : n ≠ 0 := Nat.ne_of_gt hn
  have hlimited : (p.limited n).room c = n := by simp [room, hn0]
  rcases p.expression_mimics n hroom 0 ⟨c, [], []⟩ with heq | ⟨e, he, hfail⟩
  · refine .inl (runOn_parse_eq ?_)
    rw [exec_parse, exec_parse, hlimited]
    exact heq
  · obtain ⟨hzero, -⟩ | ⟨-, pos, rfl⟩ := he
    · exact absurd hzero hn0
    · refine .inr ⟨pos, ?_⟩
      rw [runOn_eq, exec_parse, hlimited]
      exact hfail

/-- **Without a limit a parse ends**: the room it has is never used up. -/
theorem not_endless (hp : p.Unsigned) (hlimit : p.limit = 0) {k : Work ε}
    (he : Closes k.ahead.2) : (exec p.parse k).1 ≠ .error .endless := by
  intro hend
  have harrives := parse_arrives (k := k) hp he rfl
  rcases hexec : exec p.parse k with ⟨r, k'⟩
  rw [hexec] at hend harrives
  obtain rfl : r = .error .endless := hend
  obtain ⟨u, rest, s, hw, hwalk, hfault⟩ := harrives
  cases hfault with
  | endless hdeep =>
    have hle := depth_le_room hlimit (show k.ahead = (k.ahead.1, k.ahead.2) from rfl) hw hwalk
    omega

/-- **A limit changes nothing but to make a parse fail**, also where it is more than the room of
the parser without one. -/
theorem runOn_limited_or_free (hp : p.Unsigned) (hlimit : p.limit = 0) (hc : Closes c.ahead.2)
    (hn : 0 < n) :
    runOn c (p.limited n).parse = runOn c p.parse ∨ (p.limited n).TooNested c := by
  rcases Nat.le_total n (p.room c) with hle | hle
  · exact runOn_limited_or hn hle
  · -- now it is the parse without a limit that has less room, and it does not run out of it
    refine .inl (runOn_parse_eq (Eq.symm ?_))
    have hroom : (p.limited n).room c = n := by simp [room, Nat.ne_of_gt hn]
    have hself : (p.limited n).limited 0 = p := by rw [← hlimit]
    have hmimics := (p.limited n).expression_mimics 0 hle 0 ⟨c, [], []⟩
    rw [hself] at hmimics
    rcases hmimics with heq | ⟨e, he, hfail⟩
    · rw [exec_parse, exec_parse, hroom]
      exact heq
    · obtain ⟨-, rfl⟩ | ⟨hzero, -⟩ := he
      · exact absurd hfail (not_endless (k := ⟨c, [], []⟩) hp hlimit hc)
      · exact absurd hlimit hzero

/-- What a parse that succeeds has passed over: a walk that can not go on. -/
theorem walks_of_parse (hp : p.Unsigned) (hc : Closes c.ahead.2) {t : Tree α}
    (h : (runOn c p.parse).result = .ok t) :
    ∃ used rest, c.ahead.1 = used ++ rest ∧
      (runOn c p.parse).cursor.ahead = (rest, c.ahead.2) ∧
      p.Walks (p.room c) .start used .done ∧ p.StopsAt 0 (upcoming rest c.ahead.2) := by
  obtain ⟨k, hy⟩ := result_runOn.mp h
  have harrives := parse_arrives (k := ⟨c, [], []⟩) hp hc rfl
  rw [show exec p.parse ⟨c, [], []⟩ = (.ok t, k) from hy] at harrives
  obtain ⟨used, rest, s, hw, hk, hwalk, rfl, -, hstop⟩ := harrives
  refine ⟨used, rest, hw, ?_, hwalk, hstop⟩
  rw [cursor_runOn hy]
  exact hk

/-- A parse that fails for its limit has reached a stand deeper than that. -/
theorem walk_of_tooNested (hp : p.Unsigned) (hc : Closes c.ahead.2) (h : p.TooNested c) :
    ∃ u rest s, c.ahead.1 = u ++ rest ∧ p.walk .start u = some s ∧ p.room c < s.depth := by
  obtain ⟨pos, hresult⟩ := h
  have harrives := parse_arrives (k := ⟨c, [], []⟩) hp hc rfl
  rw [runOn_eq] at hresult
  rcases hexec : exec p.parse ⟨c, [], []⟩ with ⟨r, k⟩
  rw [hexec] at hresult harrives
  obtain rfl : r = .error (.nested p.limit pos) := hresult
  obtain ⟨u, rest, s, hw, hwalk, hfault⟩ := harrives
  cases hfault with
  | nested hdeep => exact ⟨u, rest, s, hw, hwalk, hdeep⟩

/-- **Where a walk has come to its end, no walk over the same tokens goes further**, so none gets
deeper. -/
theorem depth_le_nesting {w used rest u rest' : List Token} {ending : Step} {s : Stand}
    (hused : w = used ++ rest) (hwalk : p.walk .start used = some .done)
    (hstop : p.StopsAt 0 (upcoming rest ending)) (hw : w = u ++ rest')
    (hu : p.walk .start u = some s) : s.depth ≤ p.nesting used := by
  rcases List.append_eq_append_iff.mp (hused.symm.trans hw) with ⟨v, rfl, hrest⟩ | ⟨v, rfl, -⟩
  · cases v with
    | nil =>
      rw [List.append_nil] at hu
      have hle := depth_le_deepest_of_walk hu []
      rwa [List.append_nil] at hle
    | cons t v =>
      rw [hrest] at hstop
      have hnone : p.step .done t = none :=
        step_done (isOperator_false fun i => hstop t rfl i (Nat.zero_le i))
      rw [walk_append, hwalk] at hu
      simp [walk_cons, hnone] at hu
  · exact depth_le_deepest_of_walk hu v

/-- **A limit of depth turns a result into a failure exactly when the nesting exceeds it.**  A parse
with the limit `n` is compared with one without a limit, on the same cursor.

* Either both have the same outcome, the tokens left over included, or the one with the limit fails
  for the nesting.
* When the parse without a limit succeeds, the other one fails if and only if the tokens that were
  consumed nest deeper than `n`.  The nesting is that of the grammar if no code has two meanings.
* What is read with the limit `n` is read in the same way with every greater one. -/
theorem parse_within_limit (hp : p.Unsigned) (hlimit : p.limit = 0) (hc : Closes c.ahead.2)
    (hn : 0 < n) :
    (runOn c (p.withLimit n).parse = runOn c p.parse ∨ (p.withLimit n).TooNested c) ∧
    (∀ t, (runOn c p.parse).result = .ok t → ∃ used rest, c.ahead.1 = used ++ rest ∧
      (runOn c p.parse).cursor.ahead = (rest, c.ahead.2) ∧
      ((p.withLimit n).TooNested c ↔ n < p.nesting used) ∧
      (p.Separated → Derives p p.innermost (.level 0) (p.nesting used) used [t])) ∧
    ∀ m t, n ≤ m → (runOn c (p.withLimit n).parse).result = .ok t →
      runOn c (p.withLimit m).parse = runOn c (p.withLimit n).parse := by
  have hor := runOn_limited_or_free hp hlimit hc hn
  have hroom : (p.limited n).room c = n := by simp [room, Nat.ne_of_gt hn]
  have hlimited : (p.limited n).Unsigned :=
    ⟨hp.leftParen, hp.rightParen, hp.comma, hp.operator, hp.unaries, hp.identifiers⟩
  refine ⟨hor, fun t ht => ?_, fun m t hnm ht => ?_⟩
  · obtain ⟨used, rest, hw, hcursor, hwalk, hstop⟩ := walks_of_parse hp hc ht
    refine ⟨used, rest, hw, hcursor, ⟨fun hdeep => ?_, fun hdeep => ?_⟩, fun hsep => ?_⟩
    · obtain ⟨u, rest', s, hw', hu, hs⟩ := walk_of_tooNested hlimited hc hdeep
      rw [hroom] at hs
      exact Nat.lt_of_lt_of_le hs (depth_le_nesting hw hwalk.walk hstop hw' hu)
    · -- the same outcome would be a walk over the same tokens, within the limit
      rcases hor with heq | hor
      · have ht' : (runOn c (p.limited n).parse).result = .ok t := by rw [heq, ht]
        obtain ⟨used', rest', hw', hcursor', hwalk', -⟩ := walks_of_parse hlimited hc ht'
        rw [heq, hcursor] at hcursor'
        obtain rfl : rest = rest' := (Prod.mk.inj hcursor').1
        obtain rfl : used = used' := List.append_cancel_right (hw.symm.trans hw')
        rw [hroom] at hwalk'
        have hle := hwalk'.deepest_le hn
        rw [deepest_limited] at hle
        exact absurd hdeep (Nat.not_lt.mpr hle)
      · exact hor
    · obtain ⟨k, hy⟩ := result_runOn.mp ht
      obtain ⟨u, rest', hw', hk, ⟨d, -, hd⟩, -⟩ := (parse_finds hp).of_yields hc hy rfl
      rw [cursor_runOn hy] at hcursor
      obtain rfl : rest = rest' := (Prod.mk.inj (hcursor.symm.trans hk)).1
      obtain rfl : used = u := List.append_cancel_right (hw.symm.trans hw')
      rwa [hd.nesting_eq hsep]
  · have hm : (p.limited m).room c = m := by simp [room, Nat.ne_of_gt (Nat.lt_of_lt_of_le hn hnm)]
    rcases runOn_limited_or (p := p.limited m) (c := c) hn (by rwa [hm]) with heq | ⟨pos, hfail⟩
    · exact heq.symm
    · rw [show (runOn c (p.limited n).parse).result = .ok t from ht] at hfail
      simp at hfail

/-- **`-f - f(a)` nests two deep**: with a limit of 1 it is refused. -/
theorem parse_within_limit_signs :
    signParser.Unsigned ∧ signParser.limit = 0 ∧
      Closes (Cursor.ofFeed (.ofSteps (signed.map .ok))).ahead.2 ∧
      signParser.nesting signed = 2 ∧
      (signParser.withLimit 1).TooNested (.ofFeed (.ofSteps (signed.map .ok))) := by
  have hclose : Closes (Cursor.ofFeed (.ofSteps (signed.map .ok))).ahead.2 := Feed.closes_eof
  have hread : (runOn (.ofFeed (.ofSteps (signed.map .ok))) signParser.parse).result
      = .ok (.node "-" [.node "-" [.leaf "f"], .node "f" [.leaf "a"]]) := by cbv
  have hleft : (runOn (.ofFeed (.ofSteps (signed.map .ok))) signParser.parse).cursor.ahead
      = ([], .ok .eof) := by cbv
  have hlimit := parse_within_limit signParser_unsigned rfl hclose (Nat.one_pos)
  obtain ⟨used, rest, hw, hcursor, hiff, -⟩ := hlimit.2.1 _ hread
  obtain rfl : [] = rest := (Prod.mk.inj (hleft.symm.trans hcursor)).1
  obtain rfl : signed = used := by rw [List.append_nil] at hw; exact hw
  exact ⟨signParser_unsigned, rfl, hclose, by decide, hiff.mpr (by decide)⟩

end Parser

end Formulary.Chain
