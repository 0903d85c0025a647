import Formulary.Proofs.Chain.Language
import Formulary.Proofs.Chain.Walk

/-!
# The course of a parse

Soundness and completeness speak of parses that succeed.  This module follows every parse, whatever
comes of it: as long as it goes on, it walks over the tokens, and where it fails, the stand it has
reached tells why (`Parser.Fault`).  Either the source of the tokens fails right there, or the next
token can not follow, or the stand is deeper than the parser allows, or a token can not be
converted.

`Runs` is the statement about a stage and an input, with one rule for each way to build a stage.
The procedures of the parser follow in their order, up to `Parser.expression_runs`. -/

namespace Formulary

/-- The error speaks of the token. -/
def SyntaxError.About (e : SyntaxError) (t : Token) : Prop := e.actual = t.text ∧ e.pos = t.pos

theorem SyntaxError.about_unexpected (t : Token) : (unexpected t).About t := ⟨rfl, rfl⟩

theorem SyntaxError.about_wanted (k : Kind) (t : Token) : (wanted k t).About t := ⟨rfl, rfl⟩

namespace Chain

open Feed (Closes upcoming)

variable {ε α β γ : Type}

/-! ## 1. Why a parse fails -/

namespace Parser

/-- The token can not follow: no step takes it, and an input may not end here if it is the end. -/
def Refuses (p : Parser ε α) (s : Stand) (t : Token) : Prop :=
  p.step s t = none ∧ (s = .done → t.isEOF = false)

/-- Why a parse fails at the stand `s` before the tokens `rest`, when it allows a depth of `n`. -/
inductive Fault (p : Parser ε α) (n : Nat) (ending : Step) (s : Stand) (rest : List Token) :
    ParseError ε → Prop
  | source {f : Failure} : upcoming rest ending = .error f → Fault p n ending s rest (.read f)
  | token {t : Token} {e : SyntaxError} :
      upcoming rest ending = .ok t → p.Refuses s t → e.About t →
      Fault p n ending s rest (.read (.misplaced e))
  | nested {limit : Nat} {pos : Position} :
      n < s.depth → Fault p n ending s rest (.nested limit pos)
  | endless : n < s.depth → Fault p n ending s rest .endless
  | convert {t : Token} {role : Role} {reason : ε} :
      p.convert t role = .error reason → Fault p n ending s rest (.convert t reason)

/-- A walk from `s` over the tokens `w` ends in the fault `e`. -/
def Fails (p : Parser ε α) (n : Nat) (ending : Step) (s : Stand) (w : List Token)
    (e : ParseError ε) : Prop :=
  ∃ u rest s', w = u ++ rest ∧ p.walk s u = some s' ∧ p.Fault n ending s' rest e

variable {p : Parser ε α} {n : Nat} {ending : Step} {s s' : Stand} {w rest : List Token}
  {e : ParseError ε}

/-- A fault that is met at once. -/
theorem Fault.fails (h : p.Fault n ending s w e) : p.Fails n ending s w e :=
  ⟨[], w, s, rfl, rfl, h⟩

/-- A fault that is met later on. -/
theorem Fails.after {u : List Token} (h : p.Fails n ending s' rest e) (hu : p.walk s u = some s') :
    p.Fails n ending s (u ++ rest) e := by
  obtain ⟨v, rest', s'', rfl, hv, hfault⟩ := h
  refine ⟨u ++ v, rest', s'', by simp, ?_, hfault⟩
  rw [walk_append, hu]
  exact hv

end Parser

/-- The error of a parser whose room has run out. -/
def Parser.Exhausted (p : Parser ε α) (e : ParseError ε) : Prop :=
  p.limit = 0 ∧ e = .endless ∨ p.limit ≠ 0 ∧ ∃ pos, e = .nested p.limit pos

theorem Parser.exec_tooDeep (p : Parser ε α) (rule : Rule) (k : Work ε) :
    ∃ e k', p.Exhausted e ∧ exec (p.tooDeep rule : Stage ε β) k = (.error e, k') := by
  unfold tooDeep
  split
  · next h => exact ⟨_, _, .inl ⟨by simpa using h, rfl⟩, rfl⟩
  · next h =>
    rw [exec_bind, peekPosition, exec_bind, exec_get]
    dsimp only
    rcases k.cursor.look 1 with ⟨r, c⟩
    cases r <;> exact ⟨_, _, .inr ⟨by simpa using h, _, rfl⟩, rfl⟩

/-! ## 2. Stages that walk -/

/-- What a stage that was to walk from the stand `s` over the tokens `w` has come to: a value, a
stand and tokens left over that `Q` holds of, or a fault of the walk. -/
def Arrives (p : Parser ε α) (n : Nat) (ending : Step) (s : Stand) (w : List Token)
    (Q : β → Stand → List Token → Prop) : Except (ParseError ε) β × Work ε → Prop
  | (.ok b, k) => ∃ u rest s', w = u ++ rest ∧ k.ahead = (rest, ending) ∧ p.Walks n s u s' ∧
      Q b s' rest
  | (.error e, _) => p.Fails n ending s w e

/-- Wherever the tokens `w` lie ahead, up to `ending`, the stage walks over them from the stand `s`
as far as it comes. -/
def Runs (p : Parser ε α) (n : Nat) (ending : Step) (stage : Stage ε β) (s : Stand)
    (w : List Token) (Q : β → Stand → List Token → Prop) : Prop :=
  ∀ k : Work ε, k.ahead = (w, ending) → Arrives p n ending s w Q (exec stage k)

/-- What starts where a walk ends goes on with that walk. -/
theorem Arrives.after {p : Parser ε α} {n : Nat} {ending : Step} {s s' : Stand}
    {u rest : List Token} {Q : β → Stand → List Token → Prop}
    {x : Except (ParseError ε) β × Work ε} (h : Arrives p n ending s' rest Q x)
    (hwalk : p.Walks n s u s') : Arrives p n ending s (u ++ rest) Q x := by
  obtain ⟨r, k⟩ := x
  cases r with
  | error e => exact Parser.Fails.after h hwalk.walk
  | ok b =>
    obtain ⟨v, rest', s'', rfl, hk, hwalk', hb⟩ := h
    exact ⟨u ++ v, rest', s'', by simp, hk, hwalk.trans hwalk', hb⟩

namespace Runs

variable {p : Parser ε α} {n : Nat} {ending : Step} {s s' : Stand} {w : List Token} {rule : Rule}
  {Q : β → Stand → List Token → Prop}

theorem pure {b : β} (h : Q b s w) : Runs p n ending (pure b : Stage ε β) s w Q :=
  fun _ hk => ⟨[], w, s, rfl, hk, .stay s, h⟩

theorem imp {stage : Stage ε β} {Q' : β → Stand → List Token → Prop}
    (h : Runs p n ending stage s w Q) (hQ : ∀ b s' rest, Q b s' rest → Q' b s' rest) :
    Runs p n ending stage s w Q' := by
  intro k hk
  have hrun := h k hk
  rcases hexec : exec stage k with ⟨r, k'⟩
  rw [hexec] at hrun
  cases r with
  | error e => exact hrun
  | ok b =>
    obtain ⟨u, rest, s', hw, hk', hwalk, hb⟩ := hrun
    exact ⟨u, rest, s', hw, hk', hwalk, hQ _ _ _ hb⟩

/-- **One stage after another**: the second one starts where the first one has come to. -/
theorem bind {x : Stage ε β} {f : β → Stage ε γ} {Q' : γ → Stand → List Token → Prop}
    (hx : Runs p n ending x s w Q)
    (hf : ∀ b u s' rest, w = u ++ rest → Q b s' rest → Runs p n ending (f b) s' rest Q') :
    Runs p n ending (x >>= f) s w Q' := by
  intro k hk
  rw [exec_bind]
  have hrun := hx k hk
  rcases hexec : exec x k with ⟨r, k₁⟩
  rw [hexec] at hrun
  cases r with
  | error e => exact hrun
  | ok b =>
    obtain ⟨u, rest, s₁, rfl, hk₁, hwalk, hb⟩ := hrun
    exact (hf b u s₁ rest rfl hb k₁ hk₁).after hwalk

/-- The events around a stage have no part in its course. -/
theorem within {depth : Nat} {body : Stage ε β} (h : Runs p n ending body s w Q) :
    Runs p n ending (Chain.within rule depth body) s w Q := by
  intro k hk
  rw [exec_within]
  have hrun := h { k with events := .enter rule depth :: k.events } hk
  dsimp only
  rcases hexec : exec body { k with events := .enter rule depth :: k.events } with ⟨r, k'⟩
  rw [hexec] at hrun
  cases r with
  | error e => exact hrun
  | ok b => exact hrun

/-- A look at the next token, which the source may fail to give. -/
theorem peek {f : Token → Stage ε β} (he : Closes ending)
    (hf : ∀ t, upcoming w ending = .ok t → Runs p n ending (f t) s w Q) :
    Runs p n ending (Chain.peek rule >>= f) s w Q := by
  intro k hk
  obtain ⟨c, hlook, hahead⟩ := Cursor.look_one hk he
  rw [exec_bind, Chain.peek, exec_onCursor, hlook]
  cases hu : upcoming w ending with
  | error g => exact (Parser.Fault.source hu).fails
  | ok t => exact hf t hu { k with cursor := c } (hahead t hu)

/-- A token is passed over, and the walk takes it. -/
theorem skip {t : Token} {f : Unit → Stage ε β} (he : Closes ending) (hdepth : s.depth ≤ n)
    (hstep : p.step s t = some s') (hf : Runs p n ending (f ()) s' w Q) :
    Runs p n ending (Chain.skip rule >>= f) s (t :: w) Q := by
  intro k hk
  obtain ⟨c, hconsume, hahead⟩ := Cursor.consume_cons hk he
  rw [exec_bind, Chain.skip, exec_onCursor, hconsume]
  exact (hf { k with cursor := c } hahead).after (.step hdepth hstep (.stay s'))

/-- A token of a given kind is passed over, and is the only one that the walk takes. -/
theorem require {kind : Kind} {f : Unit → Stage ε β} (he : Closes ending) (hkind : 0 ≤ kind.code)
    (hdepth : s.depth ≤ n) (hs : s ≠ .done)
    (hstep : ∀ t, upcoming w ending = .ok t →
      p.step s t = if t.code = kind.code then some s' else none)
    (hf : ∀ t rest, w = t :: rest → Runs p n ending (f ()) s' rest Q) :
    Runs p n ending (Chain.require rule kind >>= f) s w Q := by
  intro k hk
  rw [exec_bind, exec_require]
  cases hu : upcoming w ending with
  | error g =>
    obtain ⟨c, hexpect⟩ := Cursor.expect_failed kind hk he hu
    rw [hexpect]
    exact (Parser.Fault.source hu).fails
  | ok t =>
    by_cases hcode : t.code = kind.code
    · obtain ⟨rest, rfl⟩ := exists_cons_of_upcoming hu he (hcode ▸ hkind)
      obtain ⟨c, hexpect, hahead⟩ := Cursor.expect_cons hk he hcode
      rw [hexpect]
      have htaken : p.step s t = some s' := by rw [hstep t hu, if_pos hcode]
      exact (hf t rest rfl { k with cursor := c } hahead).after (.step hdepth htaken (.stay s'))
    · obtain ⟨c, hexpect⟩ := Cursor.expect_refused hk he hu hcode
      rw [hexpect]
      have hrefuses : p.Refuses s t := ⟨by rw [hstep t hu, if_neg hcode], fun h => absurd h hs⟩
      exact (Parser.Fault.token hu hrefuses (SyntaxError.about_wanted kind t)).fails

/-- The value of a token, which the conversion may fail to give. -/
theorem valueOf {t : Token} {role : Role} {f : α → Stage ε β}
    (hf : ∀ v, Runs p n ending (f v) s w Q) :
    Runs p n ending (p.valueOf rule t role >>= f) s w Q := by
  intro k hk
  rw [exec_bind, exec_valueOf]
  cases hv : p.convert t role with
  | error reason => exact (Parser.Fault.convert hv).fails
  | ok v => exact hf v { k with converted := (t, role) :: k.converted } hk

/-- The allowance of a loop covers the tokens ahead. -/
theorem pending {f : Nat → Stage ε β}
    (hf : ∀ m, w.length ≤ m → Runs p n ending (f m) s w Q) :
    Runs p n ending (Chain.pending >>= f) s w Q := by
  intro k hk
  have hle := k.cursor.length_ahead_le_pending
  rw [show k.cursor.ahead = (w, ending) from hk] at hle
  rw [exec_bind, exec_pending]
  exact hf k.cursor.pending hle k hk

/-- The next token is refused. -/
theorem unexpected {t : Token} (ht : upcoming w ending = .ok t) (hrefuses : p.Refuses s t) :
    Runs p n ending (failIn rule (.read (.misplaced (.unexpected t))) : Stage ε β) s w Q := by
  intro k _
  rw [exec_failIn]
  exact (Parser.Fault.token ht hrefuses (SyntaxError.about_unexpected t)).fails

/-- **A stand that is too deep is reached**, here or behind the tokens `u`. -/
theorem tooDeep {u rest : List Token} (hw : w = u ++ rest) (hu : p.walk s u = some s')
    (hdeep : n < s'.depth) : Runs p n ending (p.tooDeep rule : Stage ε β) s w Q := by
  intro k _
  obtain ⟨e, k', he, hexec⟩ := p.exec_tooDeep (β := β) rule k
  rw [hexec]
  refine ⟨u, rest, s', hw, hu, ?_⟩
  rcases he with ⟨-, rfl⟩ | ⟨-, pos, rfl⟩
  · exact .endless hdeep
  · exact .nested hdeep

end Runs

/-! ## 3. Operands -/

namespace Parser

variable {p : Parser ε α} {n : Nat} {ending : Step} {bs : List Bracket} {w : List Token}

/-- An operand has been passed. -/
def Passed (bs : List Bracket) (_ : β) (s : Stand) (_ : List Token) : Prop := s = ⟨.operator, bs⟩

/-- An expression of the level `i` has been passed, and no operator of that level or a tighter one
stands behind it. -/
def Ended (p : Parser ε α) (n : Nat) (ending : Step) (bs : List Bracket) (i : Nat) (_ : Tree α)
    (s : Stand) (rest : List Token) : Prop :=
  s = ⟨.operator, bs⟩ ∧ bs.length < n ∧ p.StopsAt i (upcoming rest ending)

theorem atom_runs (hp : p.Unsigned) (he : Closes ending) {signs : Nat}
    (hdepth : bs.length + signs < n)
    (hplain : ∀ t, upcoming w ending = .ok t → p.Plain signs t ∧ t.code ∉ p.unaries) :
    Runs p n ending p.atom ⟨.operand signs, bs⟩ w (Passed bs) := by
  unfold atom
  refine Runs.peek he fun t ht => ?_
  obtain ⟨ht', hun⟩ := hplain t ht
  have hstep := step_plain ht' bs
  rw [if_neg (by simpa using hun)] at hstep
  split
  · next hid =>
    have hid : t.code ∈ p.identifiers := by simpa using hid
    obtain ⟨rest, rfl⟩ := exists_cons_of_upcoming ht he (hp.identifiers _ hid)
    rw [if_pos (by simpa using hid)] at hstep
    exact .skip he hdepth hstep (.valueOf fun v => .pure rfl)
  · next hid =>
    rw [if_neg hid] at hstep
    exact .unexpected ht ⟨hstep, by simp [Stand.done]⟩

/-- **Each unary operator takes one of the levels of depth there is room for.** -/
theorem unary_runs (hp : p.Unsigned) (he : Closes ending) {room signs : Nat}
    (hroom : bs.length + signs + 1 + room = n)
    (hplain : ∀ t, upcoming w ending = .ok t → p.Plain signs t) (depth : Nat) :
    Runs p n ending (p.unary room depth) ⟨.operand signs, bs⟩ w (Passed bs) := by
  induction room using Nat.strongRecOn generalizing signs w depth with
  | ind room ih =>
    unfold unary
    refine Runs.peek he fun t ht => ?_
    have hstep := step_plain (hplain t ht) bs
    split
    · next hun =>
      obtain ⟨rest, rfl⟩ := exists_cons_of_upcoming ht he (hp.unaries _ (by simpa using hun))
      rw [if_pos hun] at hstep
      refine .within ?_
      cases room with
      | zero =>
        -- the operator is seen and not taken, but its operand would stand too deep
        have hwalk : p.walk ⟨.operand signs, bs⟩ [t] = some ⟨.operand (signs + 1), bs⟩ := by
          rw [walk_cons, hstep]
          rfl
        refine .tooDeep (show t :: rest = [t] ++ rest from rfl) hwalk ?_
        simp only [Stand.depth_operand]
        omega
      | succ room =>
        have hdepth : Stand.depth ⟨.operand signs, bs⟩ ≤ n := by
          simp only [Stand.depth_operand]
          omega
        refine .skip he hdepth hstep (.valueOf fun v => ?_)
        refine (ih room (by omega) (by omega) (fun _ _ => plain_succ) (depth + 1)).bind ?_
        rintro operand u s rest' - hs
        exact .pure hs
    · next hun =>
      refine atom_runs hp he (by omega) fun t' ht' => ?_
      obtain rfl := Except.ok.inj (ht.symm.trans ht')
      exact ⟨hplain t ht, by simpa using hun⟩

/-- **The arguments of a call**, up to a token that is no operator and no comma.  Each round takes
a comma, so the allowance lasts. -/
theorem arguments_runs (hp : p.Unsigned) (he : Closes ending) {argument : Stage ε (Tree α)}
    (hargument : ∀ w, Runs p n ending argument ⟨.operand 0, .call :: bs⟩ w
      (p.Ended n ending (.call :: bs) 0)) {rounds : Nat} (hrounds : w.length < rounds) :
    Runs p n ending (p.arguments argument rounds) ⟨.operand 0, .call :: bs⟩ w
      fun _ s rest => s = ⟨.operator, .call :: bs⟩ ∧ bs.length + 1 < n ∧
        ∀ t, upcoming rest ending = .ok t →
          p.isOperator t.code = false ∧ t.code ≠ p.comma.code := by
  induction rounds generalizing w with
  | zero => omega
  | succ rounds ih =>
    rw [arguments]
    refine (hargument w).bind ?_
    rintro t u s rest rfl ⟨rfl, hdepth, hstop⟩
    refine Runs.peek he fun c hc => ?_
    split
    · next hcomma =>
      have hcomma : c.code = p.comma.code := by simpa using hcomma
      obtain ⟨rest, rfl⟩ := exists_cons_of_upcoming hc he (hcomma ▸ hp.comma)
      refine .skip he hdepth (step_comma hcomma) ?_
      simp only [List.length_append, List.length_cons] at hrounds
      refine (ih (by omega)).bind ?_
      rintro ts u' s' rest' - hs'
      exact .pure hs'
    · next hcomma =>
      refine .pure ⟨rfl, hdepth, fun c' hc' => ?_⟩
      obtain rfl := Except.ok.inj (hc.symm.trans hc')
      exact ⟨isOperator_false fun i => hstop c hc i (Nat.zero_le i), by simpa using hcomma⟩

/-- The next token was seen to be the name of a function. -/
theorem call_runs (hp : p.Unsigned) (he : Closes ending) {argument : Stage ε (Tree α)}
    (hargument : ∀ w, Runs p n ending argument ⟨.operand 0, .call :: bs⟩ w
      (p.Ended n ending (.call :: bs) 0)) (hdepth : bs.length < n) {f : Token}
    (hf : upcoming w ending = .ok f) (hfun : p.namesFunction f = true) (depth : Nat) :
    Runs p n ending (p.call argument depth) ⟨.operand 0, bs⟩ w (Passed bs) := by
  have hid : f.code ∈ p.identifiers := by
    simp only [namesFunction, Bool.and_eq_true, List.contains_iff_mem] at hfun
    exact hfun.1
  obtain ⟨rest, rfl⟩ := exists_cons_of_upcoming hf he (hp.identifiers _ hid)
  unfold call
  refine .within (Runs.peek he fun f' hf' => ?_)
  refine .skip he hdepth (step_function hfun) (.valueOf fun v => ?_)
  refine .require he hp.leftParen hdepth (by simp [Stand.done]) (fun t _ => step_opening) ?_
  rintro opening w₁ rfl
  refine .pending fun m hm => ?_
  refine (arguments_runs hp he hargument (by omega : w₁.length < m + 1)).bind ?_
  rintro args u s rest' - ⟨rfl, hdepth', hnext⟩
  refine .require he hp.rightParen hdepth' (by simp [Stand.done])
    (fun t ht => step_closing (hnext t ht).1 fun _ => (hnext t ht).2) ?_
  rintro closing w₂ -
  exact .pure rfl

/-- The next token was seen to be an opening parenthesis. -/
theorem group_runs (hp : p.Unsigned) (he : Closes ending) {inner : Stage ε (Tree α)}
    (hinner : ∀ w, Runs p n ending inner ⟨.operand 0, .group :: bs⟩ w
      (p.Ended n ending (.group :: bs) 0)) (hdepth : bs.length < n) {t : Token}
    (ht : upcoming w ending = .ok t) (hfun : p.namesFunction t = false)
    (hparen : t.code = p.leftParen.code) (depth : Nat) :
    Runs p n ending (p.group inner depth) ⟨.operand 0, bs⟩ w (Passed bs) := by
  obtain ⟨rest, rfl⟩ := exists_cons_of_upcoming ht he (hparen ▸ hp.leftParen)
  unfold group
  refine .within (.skip he hdepth (step_leftParen hfun hparen) ?_)
  refine (hinner rest).bind ?_
  rintro tree u s rest' - ⟨rfl, hdepth', hstop⟩
  refine .require he hp.rightParen hdepth' (by simp [Stand.done])
    (fun c hc => step_closing (isOperator_false fun i => hstop c hc i (Nat.zero_le i)) (by simp)) ?_
  rintro closing w₁ -
  exact .pure rfl

/-- **Behind the last level** one token tells calls, groups and operands apart. -/
theorem terminal_runs (hp : p.Unsigned) (he : Closes ending) {inner : Stage ε (Tree α)}
    (hinner : ∀ b w, Runs p n ending inner ⟨.operand 0, b :: bs⟩ w (p.Ended n ending (b :: bs) 0))
    {room : Nat} (hroom : bs.length + 1 + room = n) (depth : Nat) (w : List Token) :
    Runs p n ending (p.terminal inner room depth) ⟨.operand 0, bs⟩ w (Passed bs) := by
  unfold terminal
  refine Runs.peek he fun t ht => ?_
  split
  · next hfun => exact call_runs hp he (hinner .call) (by omega) ht hfun depth
  · next hfun =>
    have hfun : p.namesFunction t = false := by simpa [namesFunction] using hfun
    split
    · next hparen =>
      exact group_runs hp he (hinner .group) (by omega) ht hfun (by simpa using hparen) depth
    · next hparen =>
      refine unary_runs hp he (by omega) (fun t' ht' _ => ?_) depth
      obtain rfl := Except.ok.inj (ht.symm.trans ht')
      exact ⟨hfun, by simpa using hparen⟩

/-! ## 4. Levels -/

/-- **The loop of a level** takes the operators of that level, each with an operand behind it. -/
theorem climb_runs (hp : p.Unsigned) (he : Closes ending) {i : Nat} {ops : List Int}
    (hops : p.levels[i]? = some ops) {rule : Rule} {operand : Stage ε (Tree α)}
    (hoperand : ∀ w, Runs p n ending operand ⟨.operand 0, bs⟩ w (p.Ended n ending bs (i + 1)))
    (hdepth : bs.length < n) {rounds : Nat} (hrounds : w.length < rounds)
    (hstop : p.StopsAt (i + 1) (upcoming w ending)) (left : Tree α) :
    Runs p n ending (p.climb rule ops operand rounds left) ⟨.operator, bs⟩ w
      (p.Ended n ending bs i) := by
  induction rounds generalizing w left with
  | zero => omega
  | succ rounds ih =>
    rw [climb]
    refine Runs.peek he fun o ho => ?_
    split
    · next hmem =>
      have hop : p.operator i o.code := ⟨ops, hops, by simpa using hmem⟩
      obtain ⟨rest, rfl⟩ := exists_cons_of_upcoming ho he (hp.operator hop)
      refine .skip he hdepth (step_operator (isOperator_iff.mpr ⟨i, hop⟩)) (.valueOf fun v => ?_)
      refine (hoperand rest).bind ?_
      rintro right u s rest' rfl ⟨rfl, -, hstop'⟩
      simp only [List.length_cons, List.length_append] at hrounds
      exact ih (by omega) hstop' (.node v [left, right])
    · next hmem =>
      refine .pure ⟨rfl, hdepth, fun o' ho' j hj hop => ?_⟩
      rcases Nat.lt_or_eq_of_le hj with hlt | rfl
      · exact hstop o' ho' j hlt hop
      · obtain rfl := Except.ok.inj (ho.symm.trans ho')
        obtain ⟨ops', hops', hin⟩ := hop
        obtain rfl := Option.some.inj (hops.symm.trans hops')
        exact hmem (by simpa using hin)

/-- **A level and those behind it**, by induction on the levels left over. -/
theorem level_runs (hp : p.Unsigned) (he : Closes ending) (hdepth : bs.length < n) {depth : Nat}
    {operand : Stage ε (Tree α)}
    (hoperand : ∀ w, Runs p n ending operand ⟨.operand 0, bs⟩ w (Passed bs)) :
    ∀ (levels : List (List Int)) (i : Nat), i ≤ p.levels.length → p.levels.drop i = levels →
      ∀ w, Runs p n ending (p.level operand depth i levels) ⟨.operand 0, bs⟩ w
        (p.Ended n ending bs i) := by
  intro levels
  induction levels with
  | nil =>
    intro i hi hdrop w
    refine (hoperand w).imp fun t s rest hs => ⟨hs, hdepth, fun t' _ j hj hop => ?_⟩
    have hlen := List.drop_eq_nil_iff.mp hdrop
    have hlt := hop.lt
    omega
  | cons ops others ih =>
    intro i hi hdrop w
    obtain ⟨hlt, hops, hrest⟩ := exists_of_drop_eq_cons hdrop
    refine .within ((ih (i + 1) hlt hrest w).bind ?_)
    rintro left u s rest - ⟨rfl, -, hstop⟩
    refine .pending fun m hm => ?_
    exact climb_runs hp he hops (ih (i + 1) hlt hrest) hdepth (by omega) hstop left

/-- **An expression is walked over, or the walk shows why not.**  There is room for `room` levels of
depth within the parentheses `bs`. -/
theorem expression_runs (hp : p.Unsigned) (he : Closes ending) {room : Nat}
    (hroom : bs.length + room = n) (depth : Nat) (w : List Token) :
    Runs p n ending (p.expression room depth) ⟨.operand 0, bs⟩ w (p.Ended n ending bs 0) := by
  induction room generalizing bs depth w with
  | zero =>
    refine .tooDeep (u := []) rfl (walk_nil _) ?_
    simp only [Stand.depth_operand]
    omega
  | succ room ih =>
    rw [expression]
    refine level_runs hp he (by omega) (terminal_runs hp he (fun b w => ?_) (by omega) (depth + 1))
      p.levels 0 (Nat.zero_le _) rfl w
    exact ih (by simp only [List.length_cons]; omega) (depth + 1) w

/-! ## 5. Whole parses -/

variable {k : Work ε}

/-- **Every parse is a walk from the start**, as deep as the parser has room for. -/
theorem parse_arrives (hp : p.Unsigned) (he : Closes ending) (hk : k.ahead = (w, ending)) :
    Arrives p (p.room k.cursor) ending .start w (p.Ended (p.room k.cursor) ending [] 0)
      (exec p.parse k) :=
  expression_runs hp he (show ([] : List Bracket).length + _ = _ from Nat.zero_add _) 0 w k hk

/-- Without a limit there is room for all that can be walked over. -/
theorem depth_le_room (hlimit : p.limit = 0) (hk : k.ahead = (w, ending)) {u rest : List Token}
    (hw : w = u ++ rest) {s : Stand} (hu : p.walk .start u = some s) :
    s.depth ≤ p.room k.cursor := by
  have hle := k.cursor.length_ahead_le_pending
  rw [show k.cursor.ahead = (w, ending) from hk, hw] at hle
  have hdepth := depth_walk hu
  simp only [room, hlimit, Stand.start, Stand.depth_operand, List.length_append, List.length_nil,
    beq_self_eq_true, if_true] at hle hdepth ⊢
  omega

end Parser

end Chain

end Formulary
