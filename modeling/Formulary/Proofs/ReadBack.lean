import Formulary.Proofs.Arith.RoundTrip
import Formulary.Proofs.Session

/-!
# Reading a variable back

An assignment accepts whatever is scanned as a single name.  As a formula, a single name is a
variable only if it is that of no function (`Arith.parse_word_iff`); what follows the name of a
function has to be a parenthesis.  So a session can give a value to a name which it then does not
read (`Command.Dialogue.read_back`).

1. A name as a formula.
2. A name as a line.
3. The line after an assignment.
-/

namespace Formulary

/-! ## 1. Formulas -/

namespace Arith

variable {p : Profile} {d : Dialect} {name : String}

/-- A name is scanned as one token. -/
theorem untilEnd_word (hname : isWord name = true) :
    ∃ a e, (feed (.ofString name)).untilEnd = ([a], .ok e) ∧ a.value = name := by
  have hr : (Reader.ofSource (.ofString name)).chars = [] ++ (name.toList ++ []) := by
    rw [Reader.chars_ofString, List.append_nil, List.nil_append]
  obtain ⟨a, r', hscans, -, hvalue, hr'⟩ :=
    scans_token (.word hname) (by simp) hr fun _ c hc => by cases hc
  obtain ⟨e, -, hend⟩ := untilEnd_of_nil hr'
  refine ⟨a, e, ?_, by rw [hvalue, String.ofList_toList]⟩
  rw [feed, hscans.untilEnd, hend, List.append_nil]

/-- **A name alone is a formula exactly if it is that of no function**, and then it is a
variable. -/
theorem parse_word_iff (h : Compiled p d) (hname : isWord name = true) {t : Formula} :
    d.parse (.ofString name) = .ok t ↔ name ∉ p.functions ∧ t = .leaf (.var name) := by
  have hword : name ∉ p.functions → d.parse (.ofString name) = .ok (.leaf (.var name)) := by
    intro hfun
    have hallows : d.parser.Allows 1 := by
      unfold Chain.Parser.Allows
      omega
    exact parse_of_prints h
      ((Prints.word_level h hname hfun).loosen (Nat.le_refl _) (Nat.zero_le _)) hallows
  constructor
  · intro ht
    obtain ⟨n, -, hderives⟩ := derives_of_parse h ht
    obtain ⟨a, e, huntil, rfl⟩ := untilEnd_word hname
    rw [tokens, huntil] at hderives
    have hfun := hderives.operand_of_single.2
    rw [h.isFunction, List.contains_eq_mem, decide_eq_false_iff_not] at hfun
    rw [hword hfun] at ht
    exact ⟨hfun, (Except.ok.inj ht).symm⟩
  · rintro ⟨hfun, rfl⟩
    exact hword hfun

end Arith

/-! ## 2. Lines -/

namespace Text

theorem cutAt_eq_none {c : Char} {s : String} (h : c ∉ s.toList) : cutAt c s = none := by
  have hall : ∀ x ∈ s.toList, (x != c) = true := by
    rintro x hx
    rw [bne_iff_ne]
    rintro rfl
    exact h hx
  rw [cutAt, List.span_eq_takeWhile_dropWhile, List.dropWhile_eq_nil_iff.mpr hall]

end Text

namespace Session

open Arith (Dialect isWord)

variable {s s' : Session} {line name out : String}

/-- **A name is a formula**: it neither starts a command nor assigns anything. -/
theorem exec_word (hname : isWord name = true) :
    s.exec name = (s.value name).map fun v => (s, Number.write v ++ "\n") := by
  obtain ⟨c, cs, hlist, hc, hcs⟩ := Arith.isWord_iff.mp hname
  have hcolon : ∀ text, name.toList ≠ ':' :: text := by
    rintro text htext
    obtain ⟨rfl, -⟩ := List.cons.inj (hlist.symm.trans htext)
    exact absurd hc (by decide)
  have hequals : Text.cutAt '=' name = none := by
    refine Text.cutAt_eq_none fun hmem => ?_
    rw [hlist] at hmem
    rcases List.mem_cons.mp hmem with rfl | hmem
    · exact absurd hc (by decide)
    · exact absurd (hcs _ hmem) (by decide)
  unfold exec
  split
  next text htext => exact absurd htext (hcolon text)
  next => rw [hequals]

theorem dialect_start {similar : Text.Similarity} {d : Dialect} (h : start similar d = .ok s) :
    s.dialect = d := by
  cases h
  rfl

/-- A line leaves the dialect of a session as it is. -/
theorem dialect_exec (h : s.exec line = .ok (s', out)) : s'.dialect = s.dialect := by
  cases hline : assignment? line with
  | none => rw [exec_of_no_assignment hline h]
  | some sides =>
    obtain ⟨-, v, env, -, -, rfl, -⟩ := exec_of_assignment hline h
    rfl

end Session

/-! ## 3. After an assignment -/

namespace Command.Dialogue

open Arith (Dialect Profile exists_of_toOption)

theorem dialect_run (d : Dialogue) (lines : List String) :
    (lines.foldl enter d).session.dialect = d.session.dialect := by
  induction lines generalizing d with
  | nil => rfl
  | cons line lines ih =>
    rw [List.foldl_cons, ih]
    cases hexec : d.session.exec line with
    | error e => rw [(enter_error hexec).1]
    | ok result => rw [(enter_ok hexec).1, Session.dialect_exec hexec]

variable {p : Profile} {similar : Text.Similarity} {dialect : Dialect}

/-- A session that starts has assigned nothing yet. -/
theorem Remembers.start {s : Session} (h : Session.start similar dialect = .ok s) :
    Remembers dialect [] s := by
  cases h
  exact ⟨⟨[], rfl, fun _ => rfl⟩, by simp⟩

/-- **What is assigned can be read back unless it has the name of a function.**  After a line that
assigns a value to a name, the name has that value.  Entered on a line of its own the name gives
the same output again and leaves the session as it is; but the name of a function that the profile
lists can not be parsed. -/
theorem read_back (hd : Dialect.compile p = .ok dialect) (start : Dialogue)
    (hstart : Session.start similar dialect = .ok start.session) (lines : List String)
    {line name text out : String} {s : Session}
    (hline : Session.assignment? line = some (name, text))
    (hexec : (lines.foldl enter start).session.exec line = .ok (s, out)) :
    (∃ v, out = Number.write v ++ "\n" ∧ s.env.resolve name = .ok v) ∧
      (name ∉ p.functions → s.exec name = .ok (s, out)) ∧
      (name ∈ p.functions → ∃ e, s.exec name = .error (.formula e)) := by
  have h := Arith.Dialect.compiled hd
  have hdialect : s.dialect = dialect := by
    rw [Session.dialect_exec hexec, dialect_run, Session.dialect_start hstart]
  -- what the name stands for is known of any run; whether it can be asked for is up to the parser
  obtain ⟨-, -, v, hout, hresolve, -⟩ :=
    (((Remembers.start hstart).run lines).confined line).bound name text s out hline hexec
  obtain ⟨hname, -⟩ := Session.exec_of_assignment hline hexec
  refine ⟨⟨v, hout, hresolve⟩, fun hfun => ?_, fun hfun => ?_⟩
  · have hparse := (Arith.parse_word_iff h hname).mpr ⟨hfun, rfl⟩
    have hvalue : s.value name = .ok v := by
      simp only [Session.value, Session.parse, hdialect, hparse, Except.mapError, bind, Except.bind,
        Tree.leaf, Arith.eval, Arith.evalVar, hresolve]
    rw [Session.exec_word hname, hvalue, hout]
    rfl
  · cases hparse : dialect.parse (.ofString name) with
    | ok t => exact absurd hfun ((Arith.parse_word_iff h hname).mp hparse).1
    | error e =>
      refine ⟨e, ?_⟩
      rw [Session.exec_word hname, Session.value, Session.parse, hdialect, hparse]
      rfl

/-- **In the standard profile `x` has the value of `2 * 3` once it was assigned.** -/
theorem read_back_product : ∃ d s₀ s, Dialect.compile .standard = .ok d ∧
    Session.start Text.similar d = .ok s₀ ∧ s₀.exec "x = 2 * 3" = .ok (s, "6\n") ∧
    s.exec "x" = .ok (s, "6\n") := by
  obtain ⟨d, hd⟩ : ∃ d, Dialect.compile .standard = .ok d := ⟨_, rfl⟩
  obtain ⟨s₀, hs₀⟩ : ∃ s₀, Session.start Text.similar d = .ok s₀ := ⟨_, rfl⟩
  have hout : (s₀.exec "x = 2 * 3").toOption.map (·.2) = some "6\n" := by
    cases hd
    cases hs₀
    decide +kernel
  obtain ⟨⟨s, _⟩, hexec, rfl⟩ := exists_of_toOption hout
  have hline : Session.assignment? "x = 2 * 3" = some ("x", " 2 * 3") := by decide
  have hread := (read_back hd ⟨s₀, [], "", ""⟩ hs₀ [] hline hexec).2.1
  exact ⟨d, s₀, s, hd, hs₀, hexec, hread (by decide)⟩

/-- **In the standard profile `min` can be given a value, which the line `min` does not read.** -/
theorem min_not_read_back : ∃ d s₀ s e, Dialect.compile .standard = .ok d ∧
    Session.start Text.similar d = .ok s₀ ∧ Session.assignment? "min = 3" = some ("min", " 3") ∧
    s₀.exec "min = 3" = .ok (s, "3\n") ∧ s.exec "min" = .error e ∧
    e.message = "1:4: unexpected end of input: want LPAREN but got <eof>" := by
  obtain ⟨d, hd⟩ : ∃ d, Dialect.compile .standard = .ok d := ⟨_, rfl⟩
  obtain ⟨s₀, hs₀⟩ : ∃ s₀, Session.start Text.similar d = .ok s₀ := ⟨_, rfl⟩
  have hout : (s₀.exec "min = 3").toOption.map
      (fun r => (r.2, match r.1.exec "min" with | .error e => e.message | .ok _ => ""))
        = some ("3\n", "1:4: unexpected end of input: want LPAREN but got <eof>") := by
    cases hd
    cases hs₀
    decide +kernel
  obtain ⟨⟨s, out⟩, hexec, hpair⟩ := exists_of_toOption hout
  obtain ⟨rfl, hmessage⟩ := Prod.mk.inj hpair
  refine ⟨d, s₀, s, ?_⟩
  split at hmessage
  next e herror => exact ⟨e, hd, hs₀, by decide, hexec, herror, hmessage⟩
  next => exact absurd hmessage (by decide)

end Command.Dialogue

end Formulary
