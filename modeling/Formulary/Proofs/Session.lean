import Formulary.Command.Interactive
import Formulary.Proofs.Arith.Lexing
import Formulary.Proofs.Scope
import Mathlib.Data.List.DropRight

/-!
# What a session remembers

A session is run on lines; each is a command, a formula or an assignment, and may fail in many
ways.  All that a run leaves behind are the assignments that succeeded: what a name stands for after
it follows from the constants and from these (`Command.Dialogue.session_of_assignments`).

The store of a session has two scopes only, the read-only constants and the variables within them
(`Environment.ofVariables`).  One line either leaves the variables as they are or binds one name,
which has the shape of a name and is no constant (`Session.exec_of_no_assignment`,
`Session.exec_of_assignment`); a run repeats this.

1. Trimmed texts, and the names that are accepted.
2. The store of a session.
3. One line.
4. A run.
-/

namespace Formulary

/-! ## 1. Names -/

namespace Text

/-- White space at neither end is left. -/
theorem trim_ends (s : String) :
    (∀ c ∈ (trim s).toList.head?, isSpace c = false) ∧
      ∀ c ∈ (trim s).toList.getLast?, isSpace c = false := by
  have htrim : (trim s).toList = (s.toList.dropWhile isSpace).rdropWhile isSpace := by
    rw [trim, String.toList_ofList]
    rfl
  rw [htrim]
  constructor
  · intro c hc
    obtain ⟨rest, hrest⟩ := List.head?_eq_some_iff.mp hc
    obtain ⟨behind, hbehind⟩ := List.rdropWhile_prefix isSpace (l := s.toList.dropWhile isSpace)
    rw [hrest, List.cons_append] at hbehind
    have hhead := List.head?_dropWhile_not isSpace s.toList
    rw [← hbehind] at hhead
    exact hhead
  · intro c hc
    have hne : (s.toList.dropWhile isSpace).rdropWhile isSpace ≠ [] := by
      rintro hnil
      rw [hnil] at hc
      cases hc
    rw [List.getLast?_eq_some_getLast hne] at hc
    cases hc
    simpa using List.rdropWhile_last_not isSpace (s.toList.dropWhile isSpace) hne

/-- Blanks are white space. -/
theorem isSpace_of_isBlank {c : Char} (h : isBlank c = true) : isSpace c = true := by
  simp only [isBlank, Bool.or_eq_true, beq_iff_eq] at h
  rcases h with ((rfl | rfl) | rfl) | rfl <;> decide

theorem isBlank_of_not_space {c : Char} (h : isSpace c = false) : isBlank c = false := by
  rw [Bool.eq_false_iff]
  intro hblank
  rw [isSpace_of_isBlank hblank] at h
  cases h

end Text

namespace Arith

variable {r r' : Reader} {t : Token}

/-- Nothing is left at the end of the input; a name is taken off the front of the text. -/
theorem scanToken_cases (hscan : scanToken r = (.ok t, r')) :
    r.chars = [] ∧ t.isEOF = true ∨ ∃ s : Symbol, t.kind = s.kind ∧
      (s = .ident → r.chars = t.value.toList ++ r'.chars) := by
  unfold scanToken at hscan
  split at hscan
  next hpeek =>
    cases hscan
    rw [Reader.peek_eq] at hpeek
    exact .inl ⟨List.head?_eq_none_iff.mp hpeek, rfl⟩
  refine .inr ?_
  split at hscan
  · refine ⟨.number, ?_, by simp⟩
    simp only [scanNumber] at hscan
    split at hscan
    · cases hscan
    split at hscan
    · split at hscan <;> cases hscan
      rfl
    · cases hscan
      rfl
  split at hscan
  · simp only [scanIdent, Prod.mk.injEq, Except.ok.injEq] at hscan
    obtain ⟨rfl, rfl⟩ := hscan
    refine ⟨.ident, rfl, fun _ => ?_⟩
    rw [String.toList_ofList, Reader.takeWhile_fst, Reader.chars_takeWhile,
      List.takeWhile_append_dropWhile]
  split at hscan
  next s hs =>
    cases hscan
    exact ⟨s, rfl, fun hident => absurd hident (sign_char hs).2.2.2.2.2⟩
  next => cases hscan

/-- The end of the input is found behind blanks only. -/
theorem blanks_of_scan_eof (hscan : scan r = (.ok t, r')) (ht : t.isEOF = true) :
    ∀ c ∈ r.chars, Text.isBlank c = true := by
  rcases scanToken_cases hscan with ⟨hend, -⟩ | ⟨s, hkind, -⟩
  · rw [Reader.skipWhile, Reader.chars_takeWhile] at hend
    exact List.dropWhile_eq_nil_iff.mp hend
  · rw [not_eof_of_kind hkind] at ht
    cases ht

/-- A name is found behind blanks. -/
theorem chars_scan_ident (hscan : scan r = (.ok t, r')) (ht : t.code = Symbol.ident.kind.code) :
    ∃ blanks, (∀ c ∈ blanks, Text.isBlank c = true) ∧
      r.chars = blanks ++ (t.value.toList ++ r'.chars) := by
  rcases scanToken_cases hscan with ⟨-, heof⟩ | ⟨s, hkind, hident⟩
  · rw [Token.isEOF, ht] at heof
    cases heof
  · have hs : s = .ident := by
      apply Symbol.code_inj
      rw [Token.code, hkind] at ht
      exact ht
    have hchars := hident hs
    rw [Reader.skipWhile, Reader.chars_takeWhile] at hchars
    refine ⟨r.chars.takeWhile Text.isBlank, ?_, ?_⟩
    · exact fun c hc => List.all_eq_true.mp List.all_takeWhile c hc
    · rw [← hchars, List.takeWhile_append_dropWhile]

/-- **A text whose only token is a name** is that name, with blanks around it. -/
theorem chars_of_single_ident {e : Token} (huntil : (Feed.ofScanner scan r).untilEnd = ([t], .ok e))
    (ht : t.code = Symbol.ident.kind.code) :
    ∃ before after, (∀ c ∈ before, Text.isBlank c = true) ∧ (∀ c ∈ after, Text.isBlank c = true) ∧
      r.chars = before ++ (t.value.toList ++ after) := by
  rcases Feed.ofScanner_cases advances_scan r with ⟨ending, hnil, -⟩ | ⟨t', r', hscan, -, -, hcons⟩
  · rw [hnil] at huntil
    cases huntil
  rw [hcons] at huntil
  obtain ⟨hlist, hending⟩ := Prod.mk.inj huntil
  obtain ⟨rfl, hrest⟩ := List.cons.inj hlist
  obtain ⟨before, hbefore, htext⟩ := chars_scan_ident hscan ht
  -- the second answer of the scanner is neither a failure nor another token
  have hafter : ∀ c ∈ r'.chars, Text.isBlank c = true := by
    rcases hscan' : scan r' with ⟨_ | t₂, r₂⟩
    · rw [Feed.untilEnd_ofScanner_error hscan'] at hending
      cases hending
    · cases heof : t₂.isEOF with
      | true => exact blanks_of_scan_eof hscan' heof
      | false =>
        rw [Feed.untilEnd_ofScanner_token hscan' heof (advances_scan _ _ _ hscan' heof)] at hrest
        cases hrest
  exact ⟨before, r'.chars, hbefore, hafter, htext⟩

end Arith

/-- A list without blanks at either end has none in front of or behind what else it holds. -/
theorem Text.eq_of_no_blanks {before cs after l : List Char} (h : l = before ++ (cs ++ after))
    (hbefore : ∀ c ∈ before, isBlank c = true) (hafter : ∀ c ∈ after, isBlank c = true)
    (hhead : ∀ c ∈ l.head?, isBlank c = false) (hlast : ∀ c ∈ l.getLast?, isBlank c = false) :
    l = cs := by
  have hnone : before = [] := by
    cases before with
    | nil => rfl
    | cons c before =>
      have hc := hhead c (by rw [h]; rfl)
      rw [hbefore c (by simp)] at hc
      cases hc
  have hnone' : after = [] := by
    cases hafter' : after.getLast? with
    | none => exact List.getLast?_eq_none_iff.mp hafter'
    | some c =>
      have hc := hlast c (by rw [h, List.getLast?_append, List.getLast?_append, hafter']; rfl)
      rw [hafter c (List.mem_of_getLast? hafter')] at hc
      cases hc
  rw [h, hnone, hnone', List.nil_append, List.append_nil]

namespace Session

/-- **A trimmed text that is accepted as a name has the shape of one.** -/
theorem isWord_of_isName {text : String} (h : isName (Text.trim text) = true) :
    Arith.isWord (Text.trim text) = true := by
  obtain ⟨hhead, hlast⟩ := Text.trim_ends text
  generalize Text.trim text = name at h hhead hlast
  unfold isName at h
  split at h
  next t hcollect =>
    have hcode : t.code = Arith.Symbol.ident.kind.code := by simpa using h
    obtain ⟨e, huntil⟩ : ∃ e, (Arith.feed (.ofString name)).untilEnd = ([t], .ok e) := by
      unfold Feed.collect at hcollect
      split at hcollect
      next w e heq =>
        cases hcollect
        exact ⟨e, heq⟩
      next => cases hcollect
    have hspelled := Arith.spelled_of_scan (.ofString name) t (by rw [huntil]; simp)
    obtain ⟨before, after, hbefore, hafter, htext⟩ := Arith.chars_of_single_ident huntil hcode
    rw [Reader.chars_ofString] at htext
    have hvalue := Text.eq_of_no_blanks htext hbefore hafter
      (fun c hc => Text.isBlank_of_not_space (hhead c hc))
      (fun c hc => Text.isBlank_of_not_space (hlast c hc))
    rw [show name = t.value from String.toList_injective hvalue]
    exact hspelled.symbol hcode
  next => cases h

end Session

/-! ## 2. The store of a session -/

namespace Environment

variable {α : Type}

/-- Variables within read-only constants. -/
def ofVariables (constants vars : Bindings α) : Environment α :=
  ⟨⟨[.scope ⟨constants, none, true⟩, .scope ⟨vars, some 0, false⟩]⟩, 1⟩

variable {constants vars : Bindings α} {name : String}

/-- **A variable hides nothing**, since it is looked for first and is no constant. -/
theorem resolve_ofVariables (constants vars : Bindings α) (name : String) :
    (ofVariables constants vars).resolve name = match vars.find? name, constants.find? name with
      | some v, _ => .ok v
      | none, some c => .ok c
      | none, none => .error (.undefined name) := by
  cases hvars : vars.find? name <;> cases hconstants : constants.find? name <;>
    simp [ofVariables, resolve, Scopes.resolve, Scopes.chain, Scopes.chainFrom, hvars, hconstants]

/-- **Any name but that of a constant can be defined.** -/
theorem define_ofVariables (constants vars : Bindings α) (name : String) (v : α) :
    (ofVariables constants vars).define name v =
      if constants.holds name then .error (.readOnly name)
      else .ok (ofVariables constants (vars.insert name v)) := by
  have hfixed : (ofVariables constants vars).scopes.isFixed ⟨vars, some 0, false⟩ name
      = constants.holds name := by
    simp [ofVariables, Scopes.isFixed, Scopes.openChainFrom]
  have hvariables : (ofVariables constants vars).scopes.scope? 1 = some ⟨vars, some 0, false⟩ := rfl
  have hdefine := Scopes.define_eq hvariables name v
  rw [hfixed] at hdefine
  rw [define, show (ofVariables constants vars).place = 1 from rfl, hdefine]
  split <;> rfl

end Environment

/-! ## 3. One line -/

namespace Session

open Arith (Dialect)

/-- The name and the formula of a line that is an assignment. -/
def assignment? (line : String) : Option (String × String) :=
  match line.toList with
  | ':' :: _ => none
  | _ => (Text.cutAt '=' line).map fun (name, text) => (Text.trim name, text)

/-- The name and the value that a line binds, if it is an assignment and succeeds. -/
def assigned? (s : Session) (line : String) : Option (String × Float) :=
  match assignment? line, s.exec line with
  | some (name, text), .ok _ => (s.value text).toOption.map (name, ·)
  | _, _ => none

variable {s s' : Session} {line name text out : String} {v : Float}

/-- **What an assignment does.** -/
theorem assign_eq_ok (h : s.assign name text = .ok (s', out)) :
    isName (Text.trim name) = true ∧ ∃ v env, s.value text = .ok v ∧
      s.env.define (Text.trim name) v = .ok env ∧ s' = { s with env } ∧
      out = Number.write v ++ "\n" := by
  unfold assign at h
  simp only at h
  split at h
  next hname =>
    refine ⟨hname, ?_⟩
    cases hvalue : s.value text with
    | error e => simp [hvalue, bind, Except.bind] at h
    | ok v =>
      cases hdefine : s.env.define (Text.trim name) v with
      | error e => simp [hvalue, hdefine, bind, Except.bind, Except.mapError] at h
      | ok env =>
        simp only [hvalue, hdefine, bind, Except.bind, Except.mapError, pure, Except.pure,
          Except.ok.injEq, Prod.mk.injEq] at h
        exact ⟨v, env, rfl, hdefine, h.1.symm, h.2.symm⟩
  next => cases h

/-- **A command or a formula leaves the session as it is.** -/
theorem exec_of_no_assignment (hline : assignment? line = none)
    (h : s.exec line = .ok (s', out)) : s' = s := by
  unfold assignment? at hline
  unfold exec at h
  split at h
  next text htext =>
    cases hcommand : s.command (String.ofList text) <;> simp [hcommand, Except.map] at h
    exact h.1.symm
  next hno =>
    split at hline
    next text htext => exact absurd htext (hno text)
    next =>
      rw [Option.map_eq_none_iff] at hline
      simp only [hline] at h
      cases hvalue : s.value line <;> simp [hvalue, Except.map] at h
      exact h.1.symm

/-- **An assignment that succeeds** has a name on its left, and binds it to the value it writes. -/
theorem exec_of_assignment (hline : assignment? line = some (name, text))
    (h : s.exec line = .ok (s', out)) :
    Arith.isWord name = true ∧ ∃ v env, s.value text = .ok v ∧ s.env.define name v = .ok env ∧
      s' = { s with env } ∧ out = Number.write v ++ "\n" := by
  unfold assignment? at hline
  split at hline
  · cases hline
  next hno =>
    obtain ⟨⟨left, right⟩, hcut, hpair⟩ := Option.map_eq_some_iff.mp hline
    cases hpair
    unfold exec at h
    split at h
    next text htext => exact absurd htext (hno text)
    next =>
      simp only [hcut] at h
      obtain ⟨hname, hdefine⟩ := assign_eq_ok h
      exact ⟨isWord_of_isName hname, hdefine⟩

theorem assigned?_of_error {e : SessionError} (h : s.exec line = .error e) :
    s.assigned? line = none := by
  unfold assigned?
  split
  next hok =>
    rw [h] at hok
    cases hok
  next => rfl

theorem assigned?_of_no_assignment (hline : assignment? line = none) :
    s.assigned? line = none := by
  simp [assigned?, hline]

theorem assigned?_of_ok (hline : assignment? line = some (name, text))
    (h : s.exec line = .ok (s', out)) (hvalue : s.value text = .ok v) :
    s.assigned? line = some (name, v) := by
  simp [assigned?, hline, h, hvalue, Except.toOption]

end Session

/-! ## 4. A run -/

open Arith (Dialect)

namespace Command.Dialogue

/-- The names and values that are bound when the lines are entered, the first one first. -/
def assignments (d : Dialogue) : List String → List (String × Float)
  | [] => []
  | line :: lines => (d.session.assigned? line).toList ++ assignments (d.enter line) lines

/-- `s` has the constants of the dialect `d`, and besides what the assignments `past` left. -/
structure Remembers (d : Dialect) (past : List (String × Float)) (s : Session) : Prop where
  env : ∃ vars, s.env = .ofVariables d.profile.constants vars ∧
    ∀ name, vars.find? name = past.reverse.lookup name
  /-- What is assigned has a proper name, which is that of no constant. -/
  names : ∀ a ∈ past, Arith.isWord a.1 = true ∧ d.profile.constants.find? a.1 = none

/-- What entering a line can change. -/
structure Confined (d : Dialogue) (line : String) : Prop where
  failed : ∀ e, d.session.exec line = .error e →
    (d.enter line).session = d.session ∧ (d.enter line).out = d.out
  kept : Session.assignment? line = none → (d.enter line).session = d.session
  bound : ∀ name text s' out, Session.assignment? line = some (name, text) →
    d.session.exec line = .ok (s', out) → (d.enter line).session = s' ∧
      (d.enter line).out = d.out ++ out ∧
      ∃ v, out = Number.write v ++ "\n" ∧ s'.env.resolve name = .ok v ∧
        ∀ other, other ≠ name → s'.env.resolve other = d.session.env.resolve other

variable {d : Dialogue} {dialect : Dialect} {past : List (String × Float)} {line : String}

theorem enter_ok {s' : Session} {out : String} (h : d.session.exec line = .ok (s', out)) :
    (d.enter line).session = s' ∧ (d.enter line).out = d.out ++ out := by
  rw [enter, h]
  exact ⟨rfl, rfl⟩

theorem enter_error {e : SessionError} (h : d.session.exec line = .error e) :
    (d.enter line).session = d.session ∧ (d.enter line).out = d.out := by
  rw [enter, h]
  exact ⟨rfl, rfl⟩

theorem enter_of_no_assignment (hline : Session.assignment? line = none) :
    (d.enter line).session = d.session := by
  cases h : d.session.exec line with
  | error e => exact (enter_error h).1
  | ok result => exact (enter_ok h).1.trans (Session.exec_of_no_assignment hline h)

/-- **One line adds its assignment to what is remembered.** -/
theorem Remembers.enter (h : Remembers dialect past d.session) :
    Remembers dialect (past ++ (d.session.assigned? line).toList) (d.enter line).session := by
  cases hexec : d.session.exec line with
  | error e =>
    rw [(enter_error hexec).1, Session.assigned?_of_error hexec, Option.toList_none,
      List.append_nil]
    exact h
  | ok result =>
    obtain ⟨s', out⟩ := result
    cases hline : Session.assignment? line with
    | none =>
      rw [enter_of_no_assignment hline, Session.assigned?_of_no_assignment hline,
        Option.toList_none, List.append_nil]
      exact h
    | some sides =>
      obtain ⟨name, text⟩ := sides
      obtain ⟨hword, v, env, hvalue, hdefine, rfl, -⟩ := Session.exec_of_assignment hline hexec
      rw [(enter_ok hexec).1, Session.assigned?_of_ok hline hexec hvalue, Option.toList_some]
      obtain ⟨vars, henv, hvars⟩ := h.env
      rw [henv, Environment.define_ofVariables] at hdefine
      split at hdefine
      · cases hdefine
      next hfree =>
        cases hdefine
        refine ⟨⟨_, rfl, fun other => ?_⟩, fun a ha => ?_⟩
        · rw [List.reverse_append, List.reverse_singleton, List.singleton_append,
            List.lookup_cons]
          by_cases hother : other = name
          · rw [hother, Bindings.find?_insert_self, beq_self_eq_true]
          · rw [Bindings.find?_insert_of_ne hother, beq_eq_false_iff_ne.mpr hother, hvars]
        · rcases List.mem_append.mp ha with ha | ha
          · exact h.names a ha
          · rw [List.mem_singleton.mp ha]
            exact ⟨hword, Bindings.holds_eq_false.mp (by simpa using hfree)⟩

/-- **A run adds its assignments**, one after another. -/
theorem Remembers.run (h : Remembers dialect past d.session) (lines : List String) :
    Remembers dialect (past ++ d.assignments lines) (lines.foldl Dialogue.enter d).session := by
  induction lines generalizing d past with
  | nil =>
    rw [assignments, List.append_nil]
    exact h
  | cons line lines ih =>
    rw [assignments, ← List.append_assoc]
    exact ih h.enter

/-- **A constant keeps its value**, and any other name has the value assigned to it last. -/
theorem Remembers.resolve_eq {s : Session} (h : Remembers dialect past s) (name : String) :
    s.env.resolve name = match dialect.profile.constants.find? name, past.reverse.lookup name with
      | some c, _ => .ok c
      | none, some v => .ok v
      | none, none => .error (.undefined name) := by
  obtain ⟨vars, henv, hvars⟩ := h.env
  rw [henv, Environment.resolve_ofVariables, hvars]
  cases hpast : past.reverse.lookup name with
  | none => cases dialect.profile.constants.find? name <;> rfl
  | some v =>
    obtain ⟨l₁, l₂, hsplit, -⟩ := List.lookup_eq_some_iff.mp hpast
    have hmem : (name, v) ∈ past := by
      rw [← List.mem_reverse, hsplit]
      simp
    rw [(h.names _ hmem).2]

/-- **What a line can change**, in a session with constants and variables. -/
theorem Remembers.confined (h : Remembers dialect past d.session) (line : String) :
    d.Confined line where
  failed := fun e herror => enter_error herror
  kept := enter_of_no_assignment
  bound := by
    intro name text s' out hline hexec
    refine ⟨(enter_ok hexec).1, (enter_ok hexec).2, ?_⟩
    obtain ⟨-, v, env, -, hdefine, rfl, hout⟩ := Session.exec_of_assignment hline hexec
    obtain ⟨vars, henv, -⟩ := h.env
    rw [henv, Environment.define_ofVariables] at hdefine
    split at hdefine
    · cases hdefine
    · cases hdefine
      refine ⟨v, hout, ?_, fun other hother => ?_⟩
      · simp [Environment.resolve_ofVariables, Bindings.find?_insert_self]
      · rw [henv, Environment.resolve_ofVariables, Environment.resolve_ofVariables,
          Bindings.find?_insert_of_ne hother]

/-- **What a session holds is a function of its successful assignments.**  A session always starts.
Whatever lines are entered, from then on:

* a line that fails changes no binding and writes nothing, a command or a formula changes no
  binding, and an assignment binds its name to the value that it writes, and no other name;
* a constant has the value it has in the profile; any other name that was assigned has the value of
  its latest assignment; and no other name has a value;
* all that is assigned are proper names that are no constants. -/
theorem session_of_assignments (similar : Text.Similarity) (dialect : Dialect) :
    ∃ s₀, Session.start similar dialect = .ok s₀ ∧
      ∀ (start : Dialogue) (lines : List String), start.session = s₀ →
        (∀ line, (lines.foldl Dialogue.enter start).Confined line) ∧
        (∀ name, (lines.foldl Dialogue.enter start).session.env.resolve name =
          match dialect.profile.constants.find? name,
            (start.assignments lines).reverse.lookup name with
          | some c, _ => .ok c
          | none, some v => .ok v
          | none, none => .error (.undefined name)) ∧
        ∀ a ∈ start.assignments lines,
          Arith.isWord a.1 = true ∧ dialect.profile.constants.find? a.1 = none := by
  refine ⟨⟨dialect, .ofVariables dialect.profile.constants [], similar⟩, rfl, ?_⟩
  intro start lines hstart
  have hempty : Remembers dialect [] start.session := by
    rw [hstart]
    exact ⟨⟨[], rfl, fun _ => rfl⟩, by simp⟩
  have hnow := hempty.run lines
  exact ⟨hnow.confined, hnow.resolve_eq, hnow.names⟩

/-- Assignments that succeed, and between them an assignment to a constant, one whose formula has no
value, one to what is no name, and a command. -/
def mixedLines : List String :=
  ["a = 2", "pi = a", "b = a * a * a", "a = 1 / 0", "2a = 1", ":fmt a", "a = b"]

/-- **What is left of `mixedLines`**: the assignments to `a`, `b` and `a`. -/
theorem session_of_assignments_mixedLines : ∃ d s, Dialect.compile .standard = .ok d ∧
    Session.start Text.similar d = .ok s ∧
    ((Dialogue.mk s [] "" "").assignments mixedLines).map (fun a => (a.1, Number.write a.2))
      = [("a", "2"), ("b", "8"), ("a", "8")] ∧
    (mixedLines.foldl Dialogue.enter ⟨s, [], "", ""⟩).out = "2\n8\na\n8\n" ∧
    (mixedLines.foldl Dialogue.enter ⟨s, [], "", ""⟩).session.env.resolve "pi"
      = .ok 3.141592653589793 ∧
    (mixedLines.foldl Dialogue.enter ⟨s, [], "", ""⟩).Confined "a = 1 / 0" := by
  obtain ⟨s, hs, hrun⟩ := session_of_assignments Text.similar _
  obtain ⟨hconfined, hresolve, -⟩ := hrun ⟨s, [], "", ""⟩ mixedLines rfl
  refine ⟨_, s, rfl, hs, ?_, ?_, hresolve "pi", hconfined "a = 1 / 0"⟩
  · cases hs
    decide +kernel
  · cases hs
    decide +kernel

end Command.Dialogue

end Formulary
