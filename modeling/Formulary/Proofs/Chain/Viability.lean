import Formulary.Proofs.Chain.Course

/-!
# The first impossible token

A parse of a whole input reports an error at the first token that no accepted input has in that
place, no earlier and no later.

The course of a parse gives four ends that it can come to, each with the walk that led there
(`Parser.Verdict`).  So an input is accepted if it can be walked over to the end of an expression.
And every stand that a walk comes to can be completed: an identifier is given where an operand is
due, and then the open parentheses are closed (`Parser.Predictive.exists_completion`).  Hence a list
of tokens is the beginning of an accepted input just if it can be walked over
(`Parser.viable_iff`), and a token that no step takes is one that nothing can save. -/

namespace Formulary

/-- The text of a token that is not the end is not that of the end. -/
theorem Token.text_ne_eof {t : Token} (ht : t.isEOF = false) : t.text ≠ "<eof>" := by
  intro h
  have htext : t.text = t.kind.name ++ "(" ++ t.value ++ ")" := by simp [Token.text, ht]; rfl
  have hlast : t.text.toList.getLast? = some ')' := by
    rw [htext, String.toList_append, List.getLast?_append]
    rfl
  rw [h] at hlast
  exact absurd hlast (by decide)

/-- **An error tells the end of the input from its tokens.** -/
theorem SyntaxError.About.isEOF_eq {e : SyntaxError} {t : Token} (h : e.About t) :
    e.isEOF = t.isEOF := by
  rw [SyntaxError.isEOF, h.1]
  cases ht : t.isEOF with
  | true => simp [Token.text, ht]
  | false => simpa using Token.text_ne_eof ht

namespace Chain

open Feed (Closes closes_eof upcoming)

variable {ε α : Type}

namespace Parser

variable {p : Parser ε α} {w : List Token} {ending : Step}

/-! ## 1. The ends of a parse -/

/-- What a parse of a whole input, with the tokens `w` up to `ending`, can come to. -/
inductive Verdict (p : Parser ε α) (w : List Token) (ending : Step) :
    Except (ParseError ε) (Tree α) → Prop
  /-- The tokens are an expression, and the input ends behind them. -/
  | accepted {tree : Tree α} {last : Token} :
      ending = .ok last → p.walk .start w = some .done → Verdict p w ending (.ok tree)
  /-- All tokens can follow, and then the source fails. -/
  | source {s : Stand} {f : Failure} :
      ending = .error f → p.walk .start w = some s → Verdict p w ending (.error (.read f))
  /-- A token can not follow. -/
  | refused {u rest : List Token} {s : Stand} {t : Token} {e : SyntaxError} :
      w = u ++ t :: rest → p.walk .start u = some s → p.step s t = none → e.About t →
      Verdict p w ending (.error (.read (.misplaced e)))
  /-- All tokens can follow, and then the input ends too early. -/
  | early {s : Stand} {last : Token} {e : SyntaxError} :
      ending = .ok last → p.walk .start w = some s → s ≠ .done → e.About last →
      Verdict p w ending (.error (.read (.misplaced e)))

/-- A fault of an input that lies wholly ahead, met where it can not be one of depth or of
conversion. -/
theorem Fault.verdict (hconv : ∀ t role, ∃ v, p.convert t role = .ok v) {n : Nat}
    {u rest : List Token} {s : Stand} {e : ParseError ε} (hs : s.depth ≤ n) (he : Closes ending)
    (hwalk : p.walk .start u = some s) (h : p.Fault n ending s rest e) :
    p.Verdict (u ++ rest) ending (.error e) := by
  cases h with
  | source hf =>
    cases rest with
    | nil => exact .source hf (by simpa using hwalk)
    | cons t rest => simp at hf
  | @token t e ht hrefuses habout =>
    cases rest with
    | nil =>
      refine .early ht (by simpa using hwalk) (fun hdone => ?_) habout
      have hopen := hrefuses.2 hdone
      rw [he t ht] at hopen
      simp at hopen
    | cons t' rest =>
      obtain rfl := Except.ok.inj ht
      exact .refused rfl hwalk hrefuses.1 habout
  | nested hdeep => omega
  | endless hdeep => omega
  | @convert t role reason hv =>
    obtain ⟨v, hv'⟩ := hconv t role
    rw [hv] at hv'
    simp at hv'

/-- **Every parse of a whole input comes to one of the four ends.** -/
theorem parseAll_verdict (hp : p.Unsigned) (hlimit : p.limit = 0)
    (hconv : ∀ t role, ∃ v, p.convert t role = .ok v) (he : Closes ending) {c : Cursor}
    (hc : c.ahead = (w, ending)) : p.Verdict w ending (runOn c p.parseAll).result := by
  rw [runOn_eq, exec_parseAll]
  have harrives := parse_arrives (k := ⟨c, [], []⟩) hp he hc
  rcases hexec : exec p.parse ⟨c, [], []⟩ with ⟨r, k⟩
  rw [hexec] at harrives
  cases r with
  | error e =>
    obtain ⟨u, rest, s, rfl, hwalk, hfault⟩ := harrives
    exact hfault.verdict hconv (depth_le_room (k := ⟨c, [], []⟩) hlimit hc rfl hwalk) he hwalk
  | ok tree =>
    obtain ⟨u, rest, s, rfl, hk, hwalks, rfl, -, hstop⟩ := harrives
    have hwalk : p.walk .start u = some .done := hwalks.walk
    obtain ⟨c', hlook, -⟩ := Cursor.look_one (show k.cursor.ahead = (rest, ending) from hk) he
    dsimp only
    rw [hlook]
    cases rest with
    | cons t rest =>
      have ht : t.isEOF = false :=
        Cursor.isEOF_of_mem_ahead (c := c) (by rw [hc]; simp)
      have hop : p.isOperator t.code = false :=
        isOperator_false fun i => hstop t rfl i (Nat.zero_le i)
      simp only [Feed.upcoming_cons, ht, Bool.false_eq_true, if_false]
      exact .refused rfl hwalk (step_done hop) (SyntaxError.about_unexpected t)
    | nil =>
      cases hend : ending with
      | error f => exact .source rfl (by simpa using hwalk)
      | ok last =>
        simp only [Feed.upcoming_nil, he last hend, if_true]
        exact .accepted rfl (by simpa using hwalk)

/-! ## 2. Accepted inputs and their beginnings -/

/-- A whole input of the tokens `w` is accepted. -/
def Accepts (p : Parser ε α) (w : List Token) : Prop :=
  (∀ t ∈ w, t.isEOF = false) ∧
    ∃ tree, (runOn (.ofFeed (.ofSteps (w.map .ok))) p.parseAll).result = .ok tree

/-- The tokens are the beginning of an input that is accepted. -/
def Viable (p : Parser ε α) (w : List Token) : Prop := ∃ more, p.Accepts (w ++ more)

/-- What the statements below ask of a parser: it has no limit, converts every token, tells its
codes apart, and has a name that is not that of a function. -/
structure Predictive (p : Parser ε α) : Prop where
  unsigned : p.Unsigned
  separated : p.Separated
  unlimited : p.limit = 0
  converts : ∀ t role, ∃ v, p.convert t role = .ok v
  atom : ∃ a : Token, a.code ∈ p.identifiers ∧ p.isFunction a.value = false

/-- **The accepted inputs are those that can be walked over to the end of an expression.** -/
theorem accepts_iff_walk (hp : p.Predictive) (hw : ∀ t ∈ w, t.isEOF = false) :
    p.Accepts w ↔ p.walk .start w = some .done := by
  have hahead : (Cursor.ofFeed (.ofSteps (w.map .ok))).ahead = (w, .ok .eof) := by
    rw [Cursor.ahead_ofFeed, Feed.untilEnd_ofSteps hw]
  have hverdict := parseAll_verdict hp.unsigned hp.unlimited hp.converts closes_eof hahead
  constructor
  · rintro ⟨-, tree, htree⟩
    rw [htree] at hverdict
    cases hverdict with
    | accepted _ hwalk => exact hwalk
  · intro hdone
    refine ⟨hw, ?_⟩
    generalize (runOn _ p.parseAll).result = result at hverdict
    cases hverdict with
    | accepted => exact ⟨_, rfl⟩
    | source hend => simp at hend
    | refused hsplit hwalk hstep =>
      rw [hsplit, walk_append, hwalk] at hdone
      simp [walk_cons, hstep] at hdone
    | early _ hwalk hs => exact absurd (Option.some.inj (hwalk.symm.trans hdone)) hs

/-- Closing parentheses lead out of everything that is open. -/
theorem Separated.walk_closing (hp : p.Separated) (closing : Token)
    (hclosing : closing.code = p.rightParen.code) (bs : List Bracket) :
    p.walk ⟨.operator, bs⟩ (List.replicate bs.length closing) = some .done := by
  induction bs with
  | nil => rfl
  | cons b bs ih =>
    rw [List.length_cons, List.replicate_succ, walk_cons, hp.step_rightParen b hclosing]
    exact ih

/-- **Every stand can be completed.** -/
theorem Predictive.exists_completion (hp : p.Predictive) (s : Stand) :
    ∃ more, (∀ t ∈ more, t.isEOF = false) ∧ p.walk s more = some .done := by
  obtain ⟨a, ha, hfun⟩ := hp.atom
  let opening : Token := ⟨p.leftParen, "", .nowhere⟩
  let closing : Token := ⟨p.rightParen, "", .nowhere⟩
  have hopening : opening.isEOF = false := Token.isEOF_of_code hp.unsigned.leftParen
  have hclosing : closing.isEOF = false := Token.isEOF_of_code hp.unsigned.rightParen
  have hatom : a.isEOF = false := Token.isEOF_of_code (hp.unsigned.identifiers _ ha)
  have hout := fun bs => hp.separated.walk_closing closing rfl bs
  obtain ⟨due, bs⟩ := s
  cases due with
  | operand signs =>
    refine ⟨a :: List.replicate bs.length closing, ?_, ?_⟩
    · simp only [List.mem_cons, List.mem_replicate]
      rintro t (rfl | ⟨-, rfl⟩)
      · exact hatom
      · exact hclosing
    · rw [walk_cons, hp.separated.step_atom ha fun _ => hfun]
      exact hout bs
  | opening =>
    refine ⟨opening :: a :: List.replicate (bs.length + 1) closing, ?_, ?_⟩
    · simp only [List.mem_cons, List.mem_replicate]
      rintro t (rfl | rfl | ⟨-, rfl⟩)
      · exact hopening
      · exact hatom
      · exact hclosing
    · have hstep : p.step ⟨.opening, bs⟩ opening = some ⟨.operand 0, .call :: bs⟩ :=
        step_opening.trans (if_pos rfl)
      rw [walk_cons, hstep, Option.bind_some, walk_cons,
        hp.separated.step_atom ha fun _ => hfun]
      exact hout (.call :: bs)
  | operator =>
    refine ⟨List.replicate bs.length closing, ?_, hout bs⟩
    simp only [List.mem_replicate]
    rintro t ⟨-, rfl⟩
    exact hclosing

/-- **The beginnings of accepted inputs are the lists that can be walked over.** -/
theorem viable_iff (hp : p.Predictive) (hw : ∀ t ∈ w, t.isEOF = false) :
    p.Viable w ↔ ∃ s, p.walk .start w = some s := by
  constructor
  · rintro ⟨more, haccepts⟩
    obtain ⟨s, hwalk, -⟩ := exists_walk_of_append ((accepts_iff_walk hp haccepts.1).mp haccepts)
    exact ⟨s, hwalk⟩
  · rintro ⟨s, hwalk⟩
    obtain ⟨more, hmore, hdone⟩ := hp.exists_completion s
    have hall : ∀ t ∈ w ++ more, t.isEOF = false := by
      intro t ht
      rcases List.mem_append.mp ht with ht | ht
      · exact hw t ht
      · exact hmore t ht
    refine ⟨more, (accepts_iff_walk hp hall).mpr ?_⟩
    rw [walk_append, hwalk]
    exact hdone

/-- The beginning of a beginning is one. -/
theorem Viable.of_append {u v : List Token} (h : p.Viable (u ++ v)) : p.Viable u := by
  obtain ⟨more, haccepts⟩ := h
  exact ⟨v ++ more, by rwa [← List.append_assoc]⟩

/-! ## 3. Where the error is -/

section

variable (hp : p.Predictive) (hw : ∀ t ∈ w, t.isEOF = false)
include hp hw

/-- **A token that no step takes is one that nothing can save.** -/
theorem viable_of_refused {u rest : List Token} {s : Stand} {t : Token}
    (hsplit : w = u ++ t :: rest) (hwalk : p.walk .start u = some s) (hstep : p.step s t = none) :
    p.Viable u ∧ ¬ p.Viable (u ++ [t]) := by
  subst hsplit
  have hu : ∀ v ∈ u, v.isEOF = false := fun v hv => hw v (List.mem_append_left _ hv)
  have hut : ∀ v ∈ u ++ [t], v.isEOF = false := fun v hv => by
    rw [List.append_cons] at hw
    exact hw v (List.mem_append_left rest hv)
  refine ⟨(viable_iff hp hu).mpr ⟨s, hwalk⟩, fun hviable => ?_⟩
  obtain ⟨s', hs'⟩ := (viable_iff hp hut).mp hviable
  rw [walk_append, hwalk] at hs'
  simp [walk_cons, hstep] at hs'

theorem not_viable_of_refused {u rest : List Token} {s : Stand} {t : Token}
    (hsplit : w = u ++ t :: rest) (hwalk : p.walk .start u = some s) (hstep : p.step s t = none) :
    ¬ p.Viable w := by
  intro hviable
  rw [hsplit, List.append_cons] at hviable
  exact (viable_of_refused hp hw hsplit hwalk hstep).2 hviable.of_append

namespace Verdict

/-- An error at a token blames the first one that is impossible. -/
theorem impossible {e : SyntaxError} (h : p.Verdict w ending (.error (.read (.misplaced e))))
    (he : Closes ending) (htoken : e.isEOF = false) (hown : ending ≠ .error (.misplaced e)) :
    ∃ u t rest, w = u ++ t :: rest ∧ e.About t ∧ p.Viable u ∧ ¬ p.Viable (u ++ [t]) := by
  cases h with
  | source hend => exact absurd hend hown
  | refused hsplit hwalk hstep habout =>
    exact ⟨_, _, _, hsplit, habout, viable_of_refused hp hw hsplit hwalk hstep⟩
  | early hend _ _ habout =>
    rw [habout.isEOF_eq, he _ hend] at htoken
    simp at htoken

/-- Where a token is impossible, there is an error at a token. -/
theorem error_of_impossible {result : Except (ParseError ε) (Tree α)}
    (h : p.Verdict w ending result) (hviable : ¬ p.Viable w) :
    ∃ e, result = .error (.read (.misplaced e)) ∧ e.isEOF = false := by
  cases h with
  | accepted _ hwalk => exact absurd ((viable_iff hp hw).mpr ⟨_, hwalk⟩) hviable
  | source _ hwalk => exact absurd ((viable_iff hp hw).mpr ⟨_, hwalk⟩) hviable
  | refused hsplit _ _ habout =>
    exact ⟨_, rfl, habout.isEOF_eq.trans (hw _ (by simp [hsplit]))⟩
  | early _ hwalk => exact absurd ((viable_iff hp hw).mpr ⟨_, hwalk⟩) hviable

/-- An error at the end is one of an input that stops too early. -/
theorem stops_early {e : SyntaxError} (h : p.Verdict w ending (.error (.read (.misplaced e))))
    (hend : e.isEOF = true) (hown : ending ≠ .error (.misplaced e)) :
    (∃ last, ending = .ok last) ∧ p.Viable w ∧ ¬ p.Accepts w := by
  cases h with
  | source hend => exact absurd hend hown
  | refused hsplit _ _ habout =>
    rw [habout.isEOF_eq, hw _ (by simp [hsplit])] at hend
    simp at hend
  | early hlast hwalk hs =>
    refine ⟨⟨_, hlast⟩, (viable_iff hp hw).mpr ⟨_, hwalk⟩, fun haccepts => hs ?_⟩
    exact Option.some.inj (hwalk.symm.trans ((accepts_iff_walk hp hw).mp haccepts))

/-- An input that stops too early has an error at its end. -/
theorem error_of_early {last : Token} {result : Except (ParseError ε) (Tree α)}
    (h : p.Verdict w (.ok last) result) (hlast : last.isEOF = true) (hviable : p.Viable w)
    (haccepts : ¬ p.Accepts w) : ∃ e, result = .error (.read (.misplaced e)) ∧ e.isEOF = true := by
  cases h with
  | accepted _ hwalk => exact absurd ((accepts_iff_walk hp hw).mpr hwalk) haccepts
  | source hend => simp at hend
  | refused hsplit hwalk hstep =>
    exact absurd hviable (not_viable_of_refused hp hw hsplit hwalk hstep)
  | early hend _ _ habout =>
    obtain rfl := Except.ok.inj hend
    exact ⟨_, rfl, habout.isEOF_eq.trans hlast⟩

/-- Behind possible tokens the failure of the source is met. -/
theorem error_of_source {g : Failure} {result : Except (ParseError ε) (Tree α)}
    (h : p.Verdict w (.error g) result) (hviable : p.Viable w) : result = .error (.read g) := by
  cases h with
  | accepted hend => simp at hend
  | source hend => rw [Except.error.inj hend]
  | refused hsplit hwalk hstep =>
    exact absurd hviable (not_viable_of_refused hp hw hsplit hwalk hstep)
  | early hend => simp at hend

/-- A failure that can not be an error about one of the tokens is that of the source. -/
theorem source_fails {g : Failure} (h : p.Verdict w ending (.error (.read g)))
    (hown : ∀ e, g = .misplaced e → ending = .error g ∧ ∀ t ∈ w, ¬ e.About t) :
    ending = .error g ∧ p.Viable w := by
  cases h with
  | source hend hwalk => exact ⟨hend, (viable_iff hp hw).mpr ⟨_, hwalk⟩⟩
  | refused hsplit _ _ habout => exact absurd habout ((hown _ rfl).2 _ (by simp [hsplit]))
  | early hend =>
    rw [(hown _ rfl).1] at hend
    simp at hend

end Verdict

end

/-- **Errors are reported at the first impossible token.**  The source `f` gives the tokens `w` up
to `ending`, which is the end of the input or a failure.

* An error at a token that is not the end is about the first token that no accepted input has
  behind the ones before it, and there is one if there is such a token.
* There is an error at the end exactly if the source ends, the tokens are the beginning of an
  accepted input, and they are not accepted themselves.
* The failure of the source is given exactly if the tokens before it are the beginning of an
  accepted input.

A source may fail with a syntax error of its own.  Where the answer alone does not tell such a
failure from an error of the parser, it is set apart by name. -/
theorem error_at_first_impossible (hp : p.Predictive) {f : Feed} (hf : f.untilEnd = (w, ending))
    (he : Closes ending) {result : Except (ParseError ε) (Tree α)}
    (hresult : (runOn (.ofFeed f) p.parseAll).result = result) :
    (∀ e, result = .error (.read (.misplaced e)) → e.isEOF = false →
      ending ≠ .error (.misplaced e) →
      ∃ u t rest, w = u ++ t :: rest ∧ e.About t ∧ p.Viable u ∧ ¬ p.Viable (u ++ [t])) ∧
    (¬ p.Viable w → ∃ e, result = .error (.read (.misplaced e)) ∧ e.isEOF = false) ∧
    ((∃ e, result = .error (.read (.misplaced e)) ∧ e.isEOF = true ∧
        ending ≠ .error (.misplaced e)) ↔
      (∃ last, ending = .ok last) ∧ p.Viable w ∧ ¬ p.Accepts w) ∧
    (∀ g, ending = .error g → p.Viable w → result = .error (.read g)) ∧
    ∀ g, (∀ e, g = .misplaced e → ending = .error g ∧ ∀ t ∈ w, ¬ e.About t) →
      result = .error (.read g) → ending = .error g ∧ p.Viable w := by
  have hahead : (Cursor.ofFeed f).ahead = (w, ending) := by rw [Cursor.ahead_ofFeed, hf]
  have hw : ∀ t ∈ w, t.isEOF = false := fun t ht =>
    Cursor.isEOF_of_mem_ahead (c := .ofFeed f) (by rw [hahead]; exact ht)
  have hverdict := parseAll_verdict hp.unsigned hp.unlimited hp.converts he hahead
  rw [hresult] at hverdict
  refine ⟨?_, hverdict.error_of_impossible hp hw, ⟨?_, ?_⟩, ?_, ?_⟩
  · rintro e rfl htoken hown
    exact hverdict.impossible hp hw he htoken hown
  · rintro ⟨e, rfl, hend, hown⟩
    exact hverdict.stops_early hp hw hend hown
  · rintro ⟨⟨last, rfl⟩, hviable, haccepts⟩
    obtain ⟨e, hresult, hend⟩ := hverdict.error_of_early hp hw (he _ rfl) hviable haccepts
    exact ⟨e, hresult, hend, by simp⟩
  · rintro g rfl hviable
    exact hverdict.error_of_source hp hw hviable
  · rintro g hown rfl
    exact hverdict.source_fails hp hw hown

/-- **Behind the name of a function a name is impossible**, and that is where the error is. -/
theorem error_at_first_impossible_name :
    signParser.Predictive ∧ (Feed.ofSteps ([sign 2 "f", sign 2 "a"].map .ok)).untilEnd
        = ([sign 2 "f", sign 2 "a"], .ok .eof) ∧ Closes (.ok .eof) ∧
      (runOn (.ofFeed (.ofSteps ([sign 2 "f", sign 2 "a"].map .ok))) signParser.parseAll).result
        = .error (.read (.misplaced (.wanted ⟨9, "("⟩ (sign 2 "a")))) ∧
      signParser.Viable [sign 2 "f"] ∧ ¬ signParser.Viable [sign 2 "f", sign 2 "a"] := by
  have hp : signParser.Predictive :=
    ⟨signParser_unsigned, signParser_separated, rfl, fun t _ => ⟨t.value, rfl⟩,
      ⟨sign 2 "a", by decide, by decide⟩⟩
  have hresult : (runOn (.ofFeed (.ofSteps ([sign 2 "f", sign 2 "a"].map .ok)))
      signParser.parseAll).result
        = .error (.read (.misplaced (.wanted ⟨9, "("⟩ (sign 2 "a")))) := by cbv
  have hfeed : (Feed.ofSteps ([sign 2 "f", sign 2 "a"].map .ok)).untilEnd
      = ([sign 2 "f", sign 2 "a"], .ok .eof) := rfl
  obtain ⟨u, t, rest, hw, habout, hu, hut⟩ :=
    (error_at_first_impossible hp hfeed closes_eof hresult).1 _ rfl (by decide) (by simp)
  refine ⟨hp, hfeed, closes_eof, hresult, ?_⟩
  rcases u with _ | ⟨v, _ | ⟨v', u⟩⟩
  · obtain rfl : sign 2 "f" = t := (List.cons.inj hw).1
    exact absurd habout.1 (by decide)
  · simp only [List.cons_append, List.nil_append, List.cons.injEq] at hw
    obtain ⟨rfl, rfl, -⟩ := hw
    exact ⟨hu, hut⟩
  · simp at hw

end Parser

end Chain

end Formulary
