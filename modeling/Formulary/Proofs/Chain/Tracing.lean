import Formulary.Proofs.Chain.Limit

/-!
# The trace of a parse

While it parses, a chain reports the rules that it enters and leaves, and the rule at which it
fails.  This module says what such a report looks like, whatever comes of the parse: entering and
leaving are nested, no depth is beyond the limit, and a failure is reported once, where it arises,
with nothing behind it but the rules that are left on the way out.

What carries the proof is that a stage only adds events and that those it adds fit its result
(`Fits`).  Reports are made in two places, `within` and `failIn`; a failure that comes up from a
stage inside is passed on and not reported again.  `Traces` is the statement about a stage, with one
rule for each way to build a stage, and the procedures of the parser follow in their order. -/

namespace Formulary.Chain

open Feed (Closes)

variable {ε α β γ : Type}

/-! ## 1. Events in order -/

namespace Event

/-- The depth that an event of entering or leaving names. -/
def depth? : Event ε → Option Nat
  | enter _ depth => some depth
  | leave _ depth => some depth
  | failed _ _ => none

def isLeave : Event ε → Bool
  | leave _ _ => true
  | _ => false

def isFailure : Event ε → Bool
  | failed _ _ => true
  | _ => false

end Event

/-- The events are nested: each rule that is entered is left again, at the depth at which it was
entered, and what is entered between is left before. -/
inductive Nested : List (Event ε) → Prop
  | nil : Nested []
  | failed (rule : Rule) (e : ParseError ε) : Nested [.failed rule e]
  | within {events : List (Event ε)} (rule : Rule) (depth : Nat) :
      Nested events → Nested (.enter rule depth :: (events ++ [.leave rule depth]))
  | append {events events' : List (Event ε)} :
      Nested events → Nested events' → Nested (events ++ events')

/-- The failures among the events are those of the result `r`: none for a value, and for an error
that error once, behind which rules are left and nothing else is done. -/
def Reports : Except (ParseError ε) β → List (Event ε) → Prop
  | .ok _, events => ∀ event ∈ events, event.isFailure = false
  | .error e, events => ∃ before rule after, events = before ++ .failed rule e :: after ∧
      (∀ event ∈ before, event.isFailure = false) ∧ ∀ event ∈ after, event.isLeave = true

/-- Events as they fit a stage that has come to the result `r`, where the depths are to be `ok`. -/
structure Fits (ok : Nat → Prop) (r : Except (ParseError ε) β) (events : List (Event ε)) :
    Prop where
  nested : Nested events
  depths : ∀ event ∈ events, ∀ depth, event.depth? = some depth → ok depth
  reports : Reports r events

namespace Fits

variable {ok : Nat → Prop} {r : Except (ParseError ε) β} {events events' : List (Event ε)}

theorem nil (b : β) : Fits ok (.ok b) ([] : List (Event ε)) :=
  ⟨.nil, by simp, fun _ h => by cases h⟩

theorem failed (rule : Rule) (e : ParseError ε) :
    Fits ok (.error e : Except (ParseError ε) β) [.failed rule e] where
  nested := .failed rule e
  depths := by simp [Event.depth?]
  reports := ⟨[], rule, [], rfl, by simp, by simp⟩

/-- **What is done after a success** leaves its own result. -/
theorem append {c : γ} (h : Fits ok (.ok c) events) (h' : Fits ok r events') :
    Fits ok r (events ++ events') where
  nested := h.nested.append h'.nested
  depths := by
    intro event hevent
    rcases List.mem_append.mp hevent with hevent | hevent
    · exact h.depths event hevent
    · exact h'.depths event hevent
  reports := by
    have hreports := h'.reports
    cases r with
    | ok b =>
      intro event hevent
      rcases List.mem_append.mp hevent with hevent | hevent
      · exact h.reports event hevent
      · exact hreports event hevent
    | error e =>
      obtain ⟨before, rule, after, rfl, hbefore, hafter⟩ := hreports
      refine ⟨events ++ before, rule, after, by simp, fun event hevent => ?_, hafter⟩
      rcases List.mem_append.mp hevent with hevent | hevent
      · exact h.reports event hevent
      · exact hbefore event hevent

/-- **The events around a stage** are of its result too: entering stands before a failure, and
leaving may stand behind it. -/
theorem within (h : Fits ok r events) (rule : Rule) {depth : Nat} (hdepth : ok depth) :
    Fits ok r (.enter rule depth :: (events ++ [.leave rule depth])) where
  nested := h.nested.within rule depth
  depths := by
    intro event hevent d hd
    simp only [List.mem_cons, List.mem_append, List.not_mem_nil, or_false] at hevent
    rcases hevent with rfl | hevent | rfl
    · rwa [← Option.some.inj hd]
    · exact h.depths event hevent d hd
    · rwa [← Option.some.inj hd]
  reports := by
    have hreports := h.reports
    cases r with
    | ok b =>
      intro event hevent
      simp only [List.mem_cons, List.mem_append, List.not_mem_nil, or_false] at hevent
      rcases hevent with rfl | hevent | rfl
      · rfl
      · exact hreports event hevent
      · rfl
    | error e =>
      obtain ⟨before, rule', after, rfl, hbefore, hafter⟩ := hreports
      refine ⟨.enter rule depth :: before, rule', after ++ [.leave rule depth], by simp, ?_, ?_⟩
      · intro event hevent
        rcases List.mem_cons.mp hevent with rfl | hevent
        · rfl
        · exact hbefore event hevent
      · intro event hevent
        rcases List.mem_append.mp hevent with hevent | hevent
        · exact hafter event hevent
        · rw [List.mem_singleton.mp hevent]
          rfl

/-- A failure is passed on as it is. -/
theorem passed {e : ParseError ε} (h : Fits ok (.error e : Except (ParseError ε) β) events) :
    Fits ok (.error e : Except (ParseError ε) γ) events :=
  ⟨h.nested, h.depths, h.reports⟩

end Fits

/-! ## 2. Stages that report -/

/-- Wherever the stage starts, it adds events that fit its result. -/
def Traces (ok : Nat → Prop) (stage : Stage ε β) : Prop :=
  ∀ k : Work ε, ∃ events, (exec stage k).2.events = events.reverse ++ k.events ∧
    Fits ok (exec stage k).1 events

namespace Traces

variable {ok : Nat → Prop} {rule : Rule}

theorem pure (b : β) : Traces ok (pure b : Stage ε β) := fun _ => ⟨[], rfl, .nil b⟩

theorem failIn (e : ParseError ε) : Traces ok (failIn rule e : Stage ε β) :=
  fun _ => ⟨[.failed rule e], rfl, .failed rule e⟩

/-- **One stage after another** reports what the first one reports and, unless that failed, what the
second one does. -/
theorem bind {x : Stage ε β} {f : β → Stage ε γ} (hx : Traces ok x) (hf : ∀ b, Traces ok (f b)) :
    Traces ok (x >>= f) := by
  intro k
  rw [exec_bind]
  obtain ⟨events, hevents, hfits⟩ := hx k
  rcases hexec : exec x k with ⟨r, k'⟩
  rw [hexec] at hevents hfits
  cases r with
  | error e => exact ⟨events, hevents, hfits.passed⟩
  | ok b =>
    obtain ⟨events', hevents', hfits'⟩ := hf b k'
    refine ⟨events ++ events', ?_, hfits.append hfits'⟩
    rw [hevents', hevents, List.reverse_append, List.append_assoc]

theorem within {depth : Nat} {body : Stage ε β} (hdepth : ok depth) (h : Traces ok body) :
    Traces ok (Chain.within rule depth body) := by
  intro k
  rw [exec_within]
  obtain ⟨events, hevents, hfits⟩ := h { k with events := .enter rule depth :: k.events }
  refine ⟨_, ?_, hfits.within rule hdepth⟩
  simp only [hevents]
  simp

/-- A move of the cursor reports its failure and nothing else. -/
theorem onCursor (move : Cursor → Except Failure β × Cursor) :
    Traces ok (Chain.onCursor rule move : Stage ε β) := by
  intro k
  rw [exec_onCursor]
  rcases move k.cursor with ⟨r, c⟩
  cases r with
  | ok b => exact pure b { k with cursor := c }
  | error f => exact failIn (.read f) { k with cursor := c }

theorem peek : Traces ok (Chain.peek rule : Stage ε Token) := onCursor _

theorem skip : Traces ok (Chain.skip rule : Stage ε Unit) := onCursor _

theorem require (kind : Kind) : Traces ok (Chain.require rule kind : Stage ε Unit) :=
  (onCursor _).bind fun _ => pure ()

theorem pending : Traces ok (Chain.pending : Stage ε Nat) := fun k => pure k.cursor.pending k

theorem valueOf (p : Parser ε α) (t : Token) (role : Role) : Traces ok (p.valueOf rule t role) := by
  intro k
  rw [exec_valueOf]
  cases p.convert t role with
  | ok v => exact pure v { k with converted := (t, role) :: k.converted }
  | error e => exact failIn (.convert t e) { k with converted := (t, role) :: k.converted }

theorem peekPosition : Traces ok (Chain.peekPosition : Stage ε Position) := by
  intro k
  rw [Chain.peekPosition, exec_bind, exec_get]
  dsimp only
  rcases k.cursor.look 1 with ⟨r, c⟩
  cases r with
  | ok t => exact pure t.pos { k with cursor := c }
  | error f => exact pure Position.nowhere { k with cursor := c }

theorem tooDeep (p : Parser ε α) : Traces ok (p.tooDeep rule : Stage ε β) := by
  unfold Parser.tooDeep
  split
  · exact failIn _
  · exact peekPosition.bind fun _ => failIn _

end Traces

/-! ## 3. The procedures of the parser -/

namespace Parser

/-- Depths are counted from 1, up to the limit if there is one. -/
def InRange (p : Parser ε α) (depth : Nat) : Prop := 1 ≤ depth ∧ p.Allows depth

variable {p : Parser ε α}

theorem allows_of_le {m n : Nat} (h : p.Allows n) (hle : m ≤ n) : p.Allows m :=
  h.imp_right (Nat.le_trans hle)

theorem atom_traces {ok : Nat → Prop} : Traces ok p.atom := by
  unfold atom
  refine .bind .peek fun t => ?_
  split
  · exact .bind .skip fun _ => .bind (.valueOf p t .atom) fun v => .pure _
  · exact .failIn _

/-- A unary operator is reported at the depth of the expression around it, and looks for its operand
one deeper, as long as there is room. -/
theorem unary_traces {room depth : Nat} (hdepth : 1 ≤ depth)
    (hroom : p.Allows (depth + room)) : Traces p.InRange (p.unary room depth) := by
  induction room generalizing depth with
  | zero =>
    unfold unary
    refine .bind .peek fun t => ?_
    dsimp only
    split
    · exact .within ⟨hdepth, hroom⟩ (.tooDeep p)
    · exact atom_traces
  | succ room ih =>
    unfold unary
    refine .bind .peek fun t => ?_
    dsimp only
    split
    · refine .within ⟨hdepth, allows_of_le hroom (Nat.le_add_right _ _)⟩ ?_
      refine .bind .skip fun _ => .bind (.valueOf p t .unaryOperator) fun v => ?_
      have hoperand := ih (Nat.le_succ_of_le hdepth) (allows_of_le hroom (by omega))
      exact .bind hoperand fun operand => .pure _
    · exact atom_traces

section

variable {ok : Nat → Prop} {inner : Stage ε (Tree α)} {depth : Nat}

theorem arguments_traces (hinner : Traces ok inner) (rounds : Nat) :
    Traces ok (p.arguments inner rounds) := by
  induction rounds with
  | zero => exact .failIn _
  | succ rounds ih =>
    rw [arguments]
    refine .bind hinner fun first => .bind .peek fun t => ?_
    split
    · exact .bind .skip fun _ => .bind ih fun others => .pure _
    · exact .pure _

theorem call_traces (hdepth : ok depth) (hinner : Traces ok inner) :
    Traces ok (p.call inner depth) := by
  unfold call
  refine .within hdepth (.bind .peek fun t => .bind .skip fun _ => ?_)
  refine .bind (.valueOf p t .function) fun v => .bind (.require _) fun _ => ?_
  refine .bind .pending fun rounds => .bind (arguments_traces hinner (rounds + 1)) fun args => ?_
  exact .bind (.require _) fun _ => .pure _

theorem group_traces (hdepth : ok depth) (hinner : Traces ok inner) :
    Traces ok (p.group inner depth) := by
  unfold group
  refine .within hdepth (.bind .skip fun _ => .bind hinner fun t => ?_)
  exact .bind (.require _) fun _ => .pure t

theorem climb_traces {rule : Rule} {ops : List Int} (hinner : Traces ok inner) (rounds : Nat)
    (left : Tree α) : Traces ok (p.climb rule ops inner rounds left) := by
  induction rounds generalizing left with
  | zero => exact .failIn _
  | succ rounds ih =>
    rw [climb]
    refine .bind .peek fun t => ?_
    split
    · refine .bind .skip fun _ => .bind (.valueOf p t .binaryOperator) fun v => ?_
      exact .bind hinner fun right => ih (.node v [left, right])
    · exact .pure left

/-- All levels report at the depth of the expression. -/
theorem level_traces (hdepth : ok depth) (hinner : Traces ok inner) (index : Nat)
    (levels : List (List Int)) : Traces ok (p.level inner depth index levels) := by
  induction levels generalizing index with
  | nil => exact hinner
  | cons ops others ih =>
    rw [level]
    refine .within hdepth (.bind (ih (index + 1)) fun left => .bind .pending fun rounds => ?_)
    exact climb_traces (ih (index + 1)) (rounds + 1) left

end

/-- **The depth and the room left of an expression add up to the limit**, so no rule within it is
entered at a depth beyond that. -/
theorem expression_traces {room depth : Nat} (hroom : p.Allows (depth + room)) :
    Traces p.InRange (p.expression room depth) := by
  induction room generalizing depth with
  | zero => exact .tooDeep p
  | succ room ih =>
    have hinner : p.Allows (depth + 1 + room) := allows_of_le hroom (by omega)
    have hdepth : p.InRange (depth + 1) := ⟨by omega, allows_of_le hinner (Nat.le_add_right _ _)⟩
    rw [expression]
    refine level_traces hdepth ?_ 0 p.levels
    unfold terminal
    refine .bind .peek fun t => ?_
    split
    · exact call_traces hdepth (ih hinner)
    · split
      · exact group_traces hdepth (ih hinner)
      · exact unary_traces hdepth.1 hinner

/-! ## 4. Whole parses -/

theorem parse_traces (p : Parser ε α) : Traces p.InRange p.parse := by
  intro k
  rw [exec_parse]
  refine expression_traces ?_ k
  by_cases hlimit : p.limit = 0
  · exact .inl hlimit
  · exact .inr (by simp [room, hlimit])

theorem Unsigned.withLimit (hp : p.Unsigned) (limit : Int) : (p.withLimit limit).Unsigned :=
  ⟨hp.leftParen, hp.rightParen, hp.comma, hp.operator, hp.unaries, hp.identifiers⟩

variable {c : Cursor}

/-- **A parse ends**, with a limit or without one. -/
theorem result_ne_endless (hp : p.Unsigned) (hc : Closes c.ahead.2) :
    (runOn c p.parse).result ≠ .error .endless := by
  have hfree : ∀ {q : Parser ε α}, q.Unsigned → q.limit = 0 →
      (runOn c q.parse).result ≠ .error .endless := fun hq hlimit => by
    rw [runOn_eq]
    exact not_endless (k := ⟨c, [], []⟩) hq hlimit hc
  by_cases hlimit : p.limit = 0
  · exact hfree hp hlimit
  · -- compared with the parser without the limit, a parse can only fail for its depth
    have hq : (p.limited 0).Unsigned := hp.withLimit 0
    have hself : p = (p.limited 0).limited p.limit := rfl
    rcases runOn_limited_or_free hq rfl hc (Nat.pos_of_ne_zero hlimit) with heq | ⟨pos, hdeep⟩
    · rw [hself, heq]
      exact hfree hq rfl
    · rw [hself, hdeep]
      simp

/-- **The trace of a parse is nested and tells its failure once.**  Where no code of the grammar is
that of the end of the input, and the source of the tokens comes to an end or fails, it holds of
every limit and every conversion, whether the parse succeeds or not:

* the events are nested, each rule being left at the depth at which it was entered;
* every depth is 1 at least, and the limit at most if there is one;
* a parse that succeeds reports no failure; one that fails reports its error once, and from there on
  rules are only left;
* the parse comes to an end. -/
theorem trace_nested (hp : p.Unsigned) (hc : Closes c.ahead.2) :
    Nested (runOn c p.parse).events ∧
    (∀ event ∈ (runOn c p.parse).events, ∀ depth, event.depth? = some depth →
      1 ≤ depth ∧ (0 < p.limit → depth ≤ p.limit)) ∧
    Reports (runOn c p.parse).result (runOn c p.parse).events ∧
    (runOn c p.parse).result ≠ .error .endless := by
  obtain ⟨events, hevents, hfits⟩ := parse_traces p ⟨c, [], []⟩
  have htrace : (runOn c p.parse).events = events := by
    rw [runOn_eq]
    simp [hevents]
  rw [htrace]
  refine ⟨hfits.nested, fun event hevent depth hdepth => ?_, by rw [runOn_eq]; exact hfits.reports,
    result_ne_endless hp hc⟩
  obtain ⟨hpos, hzero | hle⟩ := hfits.depths event hevent depth hdepth
  · exact ⟨hpos, fun hlimit => absurd hzero (Nat.ne_of_gt hlimit)⟩
  · exact ⟨hpos, fun _ => hle⟩

/-- What is reported when `-f - f(a)` is parsed with a limit of 1. -/
def signsTrace : List (Event Unit) :=
  [.enter (.level 0) 1, .enter (.level 1) 1, .enter .unary 1,
    .failed .unary (.nested 1 .nowhere), .leave .unary 1, .leave (.level 1) 1, .leave (.level 0) 1]

/-- **The first sign of `-f - f(a)` is one too deep for a limit of 1**: that is reported in it, and
then the three rules around it are left. -/
theorem trace_nested_signs :
    (signParser.withLimit 1).Unsigned ∧
      Closes (Cursor.ofFeed (.ofSteps (signed.map .ok))).ahead.2 ∧
      (runOn (.ofFeed (.ofSteps (signed.map .ok))) (signParser.withLimit 1).parse).events
        = signsTrace ∧
      Nested signsTrace ∧
      Reports (.error (.nested 1 .nowhere) : Except (ParseError Unit) (Tree String))
        signsTrace := by
  have hclose : Closes (Cursor.ofFeed (.ofSteps (signed.map .ok))).ahead.2 := Feed.closes_eof
  have hp : (signParser.withLimit 1).Unsigned := signParser_unsigned.withLimit 1
  have hevents : (runOn (.ofFeed (.ofSteps (signed.map .ok))) (signParser.withLimit 1).parse).events
      = signsTrace := by cbv
  have hresult : (runOn (.ofFeed (.ofSteps (signed.map .ok))) (signParser.withLimit 1).parse).result
      = .error (.nested 1 .nowhere) := by cbv
  obtain ⟨hnested, -, hreports, -⟩ := trace_nested hp hclose
  rw [hevents] at hnested hreports
  rw [hresult] at hreports
  exact ⟨hp, hclose, hevents, hnested, hreports⟩

end Parser

end Formulary.Chain
