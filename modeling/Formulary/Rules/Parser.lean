import Formulary.Rules.Grammar
import Formulary.Rules.Scan

/-!
# Reading grammars

A grammar is written as a list of definitions without a mark between them: a definition ends where
the next one starts, at a reference with an assignment behind it.

The readers work on the tokens before the end of the input and are given the answer that ends them,
which is either the end itself or a failure.
-/

namespace Formulary.Rules

inductive RulesError where
  | read (failure : Failure)
  | emptyAlternative (error : SyntaxError)
  | noRule
  deriving Repr, DecidableEq

def RulesError.message : RulesError → String
  | read f => f.message
  | emptyAlternative e => s!"empty alternative: {e.message}"
  | noRule => "grammar has no rule"

/-- Whether the token is of the kind `s`. -/
def isA (s : Symbol) (t : Token) : Bool := t.code == s.kind.code

/-- The next token, or the failure that ends the input. -/
def nextOf (ending : Step) (w : List Token) : Except RulesError Token :=
  match w, ending with
  | t :: _, _ => .ok t
  | [], .ok t => .ok t
  | [], .error f => .error (.read f)

/-- Takes one token of the kind `s`. -/
def takeKind (ending : Step) (s : Symbol) (w : List Token) :
    Except RulesError (Token × List Token) :=
  match w with
  | t :: rest => if isA s t then .ok (t, rest) else .error (.read (.misplaced (.wanted s.kind t)))
  | [] =>
    match ending with
    | .ok t => .error (.read (.misplaced (.wanted s.kind t)))
    | .error f => .error (.read f)

theorem takeKind_eq_cons {ending : Step} {s : Symbol} {w rest : List Token} {t : Token}
    (h : takeKind ending s w = .ok (t, rest)) : w = t :: rest := by
  cases w with
  | nil => cases ending <;> simp [takeKind] at h
  | cons u us =>
    simp only [takeKind] at h
    split at h <;> simp_all

/-- Takes a reference to a rule (`parseName`). -/
def takeReference (ending : Step) (w : List Token) : Except RulesError (String × List Token) :=
  match takeKind ending .less w with
  | .error e => .error e
  | .ok (_, w) =>
    match takeKind ending .ident w with
    | .error e => .error e
    | .ok (t, w) =>
      match takeKind ending .greater w with
      | .error e => .error e
      | .ok (_, rest) => .ok (t.value, rest)

theorem takeReference_length {ending : Step} {w rest : List Token} {name : String}
    (h : takeReference ending w = .ok (name, rest)) : w.length = rest.length + 3 := by
  unfold takeReference at h
  split at h
  · simp at h
  · next h₁ =>
    split at h
    · simp at h
    · next h₂ =>
      split at h
      · simp at h
      · next h₃ =>
        have e₁ := takeKind_eq_cons h₁
        have e₂ := takeKind_eq_cons h₂
        have e₃ := takeKind_eq_cons h₃
        simp at h
        simp [e₁, e₂, e₃, h.2]

/-- Whether a definition starts here (`startOfRule`). -/
def startsDefinition : List Token → Bool
  | a :: b :: c :: d :: _ => isA .less a && isA .ident b && isA .greater c && isA .assign d
  | _ => false

/-- The terminal that a token is (`parseSymbol`). -/
def terminalOf? (t : Token) : Option Item :=
  if isA .ident t || isA .word t then some (.word t.value)
  else if isA .quoted t then some (.quoted t.value)
  else none

/-- The items up to a bar, the next definition or the end of the input. -/
def takeItems (ending : Step) (w : List Token) : Except RulesError (Alternative × List Token) :=
  match w with
  | [] => (nextOf ending []).map fun _ => ([], [])
  | t :: rest =>
    if isA .bar t || startsDefinition (t :: rest) then .ok ([], t :: rest)
    else
      match terminalOf? t with
      | some item => (takeItems ending rest).map fun (items, after) => (item :: items, after)
      | none =>
        if isA .less t then
          match _h : takeReference ending (t :: rest) with
          | .error e => .error e
          | .ok (name, after) =>
            (takeItems ending after).map fun (items, after) => (.rule name :: items, after)
        else .error (.read (.misplaced (.unexpected t)))
termination_by w.length
decreasing_by
  · simp
  · have := takeReference_length _h
    omega

theorem takeItems_length {ending : Step} {w rest : List Token} {items : Alternative}
    (h : takeItems ending w = .ok (items, rest)) : rest.length ≤ w.length := by
  fun_induction takeItems ending w generalizing items rest with
  | case1 => cases ending <;> simp_all [nextOf, Except.map]
  | case2 => simp_all
  | case3 t w _ item _ ih =>
    cases hr : takeItems ending w with
    | error e => simp [hr, Except.map] at h
    | ok r =>
      have := ih hr
      simp only [hr, Except.map, Except.ok.injEq, Prod.mk.injEq] at h
      rw [← h.2, List.length_cons]
      omega
  | case4 => simp at h
  | case5 t w _ _ _ name after h₁ ih =>
    cases hr : takeItems ending after with
    | error e => simp [hr, Except.map] at h
    | ok r =>
      have := ih hr
      have := takeReference_length h₁
      simp only [hr, Except.map, Except.ok.injEq, Prod.mk.injEq] at h
      rw [← h.2]
      omega
  | case6 => simp at h

/-- One alternative, which has at least one item (`parseAlternative`). -/
def takeAlternative (ending : Step) (w : List Token) :
    Except RulesError (Alternative × List Token) :=
  match takeItems ending w with
  | .error e => .error e
  | .ok ([], rest) =>
    match nextOf ending rest with
    | .ok t => .error (.emptyAlternative (.unexpected t))
    | .error e => .error e
  | .ok (item :: items, rest) => .ok (item :: items, rest)

theorem takeAlternative_length {ending : Step} {w rest : List Token} {a : Alternative}
    (h : takeAlternative ending w = .ok (a, rest)) : rest.length ≤ w.length := by
  unfold takeAlternative at h
  split at h
  · simp at h
  · split at h <;> simp at h
  · next hi =>
    have := takeItems_length hi
    simp only [Except.ok.injEq, Prod.mk.injEq] at h
    rw [← h.2]
    exact this

/-- Alternatives with bars between them. -/
def takeAlternatives (ending : Step) (w : List Token) :
    Except RulesError (List Alternative × List Token) :=
  match _h : takeAlternative ending w with
  | .error e => .error e
  | .ok (first, rest) =>
    match rest with
    | [] => .ok ([first], [])
    | t :: after =>
      if isA .bar t then
        (takeAlternatives ending after).map fun (others, rest) => (first :: others, rest)
      else .ok ([first], t :: after)
termination_by w.length
decreasing_by
  have := takeAlternative_length _h
  simp only [List.length_cons] at this
  omega

theorem takeAlternatives_length {ending : Step} {w rest : List Token} {as : List Alternative}
    (h : takeAlternatives ending w = .ok (as, rest)) : rest.length ≤ w.length := by
  fun_induction takeAlternatives ending w generalizing as rest with
  | case1 => simp at h
  | case2 => simp_all
  | case3 w first t after h₁ _ _ ih =>
    cases hr : takeAlternatives ending after with
    | error e => simp [hr, Except.map] at h
    | ok r =>
      have := ih hr
      have := takeAlternative_length h₁
      simp only [hr, Except.map, Except.ok.injEq, Prod.mk.injEq] at h
      simp only [List.length_cons] at this
      rw [← h.2]
      omega
  | case4 w first t after h₁ _ =>
    have := takeAlternative_length h₁
    simp only [Except.ok.injEq, Prod.mk.injEq] at h
    rw [← h.2]
    exact this

/-- One definition (`parseRule`). -/
def takeDefinition (ending : Step) (w : List Token) : Except RulesError (Rule × List Token) :=
  match takeReference ending w with
  | .error e => .error e
  | .ok (name, w) =>
    match takeKind ending .assign w with
    | .error e => .error e
    | .ok (_, w) => (takeAlternatives ending w).map fun (as, rest) => (⟨name, as⟩, rest)

theorem takeDefinition_length {ending : Step} {w rest : List Token} {r : Rule}
    (h : takeDefinition ending w = .ok (r, rest)) : rest.length < w.length := by
  unfold takeDefinition at h
  split at h
  · simp at h
  · next h₁ =>
    split at h
    · simp at h
    · next w₂ h₂ =>
      have l₁ := takeReference_length h₁
      have l₂ := congrArg List.length (takeKind_eq_cons h₂)
      cases hr : takeAlternatives ending w₂ with
      | error e => simp [hr, Except.map] at h
      | ok p =>
        have l₃ := takeAlternatives_length hr
        simp only [hr, Except.map, Except.ok.injEq, Prod.mk.injEq] at h
        simp only [List.length_cons] at l₂
        rw [← h.2]
        omega

/-- The definitions up to the end of the input. -/
def takeDefinitions (ending : Step) (w : List Token) : Except RulesError (List Rule) :=
  match w with
  | [] => (nextOf ending []).map fun _ => []
  | t :: rest =>
    match _h : takeDefinition ending (t :: rest) with
    | .error e => .error e
    | .ok (r, after) => (takeDefinitions ending after).map (r :: ·)
termination_by w.length
decreasing_by exact takeDefinition_length _h

/-- The grammar that the tokens define. -/
def parseTokens (ending : Step) (w : List Token) : Except RulesError Grammar :=
  match takeDefinitions ending w with
  | .error e => .error e
  | .ok [] => .error .noRule
  | .ok (r :: rs) => .ok (.ofDefinitions (r :: rs))

/-- Reads a grammar (`ParseString`). -/
def parse (s : Text.Source) : Except RulesError Grammar :=
  let (tokens, ending) := (feed s).untilEnd
  parseTokens ending tokens

end Formulary.Rules
