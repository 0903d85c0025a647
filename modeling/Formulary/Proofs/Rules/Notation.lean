import Formulary.Proofs.Rules.Lexing
import Formulary.Rules.Parser

/-!
# The notation of rules

Which tokens denote a grammar, given as a relation of its own, and that the parser reads exactly
these tokens.

Nothing marks the end of a definition.  The readers look four tokens ahead for the start of the next
one, and this is enough: an assignment stands nowhere but behind the name that is defined
(`not_assign_next`), so a reference is never taken for the start of a definition.

1. Phrases and the tokens that denote them.
2. What is read is denoted by the tokens taken (`parseTokens_sound`).
3. What is denoted is read (`parseTokens_complete`).
-/

namespace Formulary.Rules

/-! ## 1. Phrases -/

/-- The parts that a grammar is written with. -/
inductive Phrase where
  | reference (name : String)
  | item (i : Item)
  | items (a : Alternative)
  | alternatives (as : List Alternative)
  | definition (r : Rule)
  | definitions (rs : List Rule)

/-- `Denotes w x`: the tokens `w` are those of the phrase `x`. -/
inductive Denotes : List Token → Phrase → Prop
  | reference {less name greater : Token} :
      isA .less less = true → isA .ident name = true → isA .greater greater = true →
      Denotes [less, name, greater] (.reference name.value)
  | rule {w : List Token} {name : String} :
      Denotes w (.reference name) → Denotes w (.item (.rule name))
  | terminal {t : Token} {i : Item} : terminalOf? t = some i → Denotes [t] (.item i)
  | noItem : Denotes [] (.items [])
  | itemThen {u w : List Token} {i : Item} {a : Alternative} :
      Denotes u (.item i) → Denotes w (.items a) → Denotes (u ++ w) (.items (i :: a))
  | last {w : List Token} {a : Alternative} :
      a ≠ [] → Denotes w (.items a) → Denotes w (.alternatives [a])
  | more {u w : List Token} {bar : Token} {a : Alternative} {as : List Alternative} :
      a ≠ [] → Denotes u (.items a) → isA .bar bar = true → Denotes w (.alternatives as) →
      Denotes (u ++ bar :: w) (.alternatives (a :: as))
  | definition {u w : List Token} {assign : Token} {name : String} {as : List Alternative} :
      Denotes u (.reference name) → isA .assign assign = true → Denotes w (.alternatives as) →
      Denotes (u ++ assign :: w) (.definition ⟨name, as⟩)
  | noDefinition : Denotes [] (.definitions [])
  | definitionThen {u w : List Token} {r : Rule} {rs : List Rule} :
      Denotes u (.definition r) → Denotes w (.definitions rs) →
      Denotes (u ++ w) (.definitions (r :: rs))

/-- A token is of one kind only. -/
theorem isA_false {s : Symbol} {t : Token} (h : isA s t = true) (s' : Symbol) (hne : s ≠ s') :
    isA s' t = false := by
  rw [isA, beq_iff_eq] at h
  rw [isA, beq_eq_false_iff_ne, h]
  exact fun heq => hne (Symbol.code_inj heq)

theorem isA_of_kind {s : Symbol} {t : Token} (h : t.kind = s.kind) : isA s t = true := by
  rw [isA, beq_iff_eq, Token.code, h]

/-- A terminal is a name, a word or a quoted text. -/
theorem terminalOf?_eq_some {t : Token} {i : Item} (h : terminalOf? t = some i) :
    ∃ s : Symbol, (s = .ident ∨ s = .word ∨ s = .quoted) ∧ isA s t = true := by
  unfold terminalOf? at h
  split at h
  next hname =>
    rcases Bool.or_eq_true_iff.mp hname with hname | hname
    · exact ⟨.ident, by simp, hname⟩
    · exact ⟨.word, by simp, hname⟩
  split at h
  next hquoted => exact ⟨.quoted, by simp, hquoted⟩
  next => cases h

theorem terminal_not {t : Token} {i : Item} (h : terminalOf? t = some i) {s : Symbol}
    (hs : s = .assign ∨ s = .bar ∨ s = .greater ∨ s = .less) : isA s t = false := by
  obtain ⟨s', hs', ht⟩ := terminalOf?_eq_some h
  refine isA_false ht s ?_
  rintro rfl
  rcases hs with rfl | rfl | rfl | rfl <;> simp at hs'

theorem terminalOf?_less {t : Token} (h : isA .less t = true) : terminalOf? t = none := by
  simp [terminalOf?, isA_false h .ident (by decide), isA_false h .word (by decide),
    isA_false h .quoted (by decide)]

/-! ## 2. What is read -/

variable {ending : Step} {w rest : List Token}

/-- The items of an alternative end here. -/
def EndsItems (ending : Step) : List Token → Prop
  | [] => ∃ e, ending = .ok e
  | t :: w => isA .bar t = true ∨ startsDefinition (t :: w) = true

/-- A definition ends here. -/
def EndsDefinition (ending : Step) : List Token → Prop
  | [] => ∃ e, ending = .ok e
  | t :: w => startsDefinition (t :: w) = true

/-- One token is taken exactly if it is there and of the kind asked for. -/
theorem takeKind_eq_ok {s : Symbol} {t : Token} :
    takeKind ending s w = .ok (t, rest) ↔ w = t :: rest ∧ isA s t = true := by
  cases w with
  | nil => cases ending <;> simp [takeKind]
  | cons u us =>
    simp only [takeKind]
    split
    next h =>
      constructor
      · intro heq
        cases heq
        exact ⟨rfl, h⟩
      · rintro ⟨heq, -⟩
        cases heq
        rfl
    next h =>
      constructor
      · intro heq
        cases heq
      · rintro ⟨heq, ht⟩
        cases heq
        exact absurd ht h

theorem takeReference_sound {name : String} (h : takeReference ending w = .ok (name, rest)) :
    ∃ u, w = u ++ rest ∧ Denotes u (.reference name) := by
  unfold takeReference at h
  split at h
  · cases h
  next less w₁ h₁ =>
    split at h
    · cases h
    next t w₂ h₂ =>
      split at h
      · cases h
      next greater w₃ h₃ =>
        cases h
        obtain ⟨rfl, hless⟩ := takeKind_eq_ok.mp h₁
        obtain ⟨rfl, hname⟩ := takeKind_eq_ok.mp h₂
        obtain ⟨rfl, hgreater⟩ := takeKind_eq_ok.mp h₃
        exact ⟨[less, t, greater], rfl, .reference hless hname hgreater⟩

/-- What is mapped over a result that is there. -/
theorem map_eq_ok {ε α β : Type} {x : Except ε α} {f : α → β} {b : β} (h : x.map f = .ok b) :
    ∃ a, x = .ok a ∧ f a = b := by
  cases x with
  | error e => cases h
  | ok a => exact ⟨a, rfl, Except.ok.inj h⟩

/-- **The items that are taken stand before a place where items end.** -/
theorem takeItems_sound {a : Alternative} (h : takeItems ending w = .ok (a, rest)) :
    ∃ u, w = u ++ rest ∧ Denotes u (.items a) ∧ EndsItems ending rest := by
  fun_induction takeItems ending w generalizing a rest with
  | case1 =>
    obtain ⟨e, hnext, hpair⟩ := map_eq_ok h
    cases hpair
    refine ⟨[], rfl, .noItem, ?_⟩
    cases ending with
    | ok e => exact ⟨e, rfl⟩
    | error f => cases hnext
  | case2 t w hend =>
    cases h
    exact ⟨[], rfl, .noItem, Bool.or_eq_true_iff.mp hend⟩
  | case3 t w _ item hitem ih =>
    obtain ⟨⟨items, after⟩, hitems, hpair⟩ := map_eq_ok h
    cases hpair
    obtain ⟨u, rfl, hu, hends⟩ := ih hitems
    exact ⟨t :: u, rfl, .itemThen (.terminal hitem) hu, hends⟩
  | case4 => cases h
  | case5 t w _ _ _ name after href ih =>
    obtain ⟨⟨items, after'⟩, hitems, hpair⟩ := map_eq_ok h
    cases hpair
    obtain ⟨v, hv, hname⟩ := takeReference_sound href
    obtain ⟨u, rfl, hu, hends⟩ := ih hitems
    exact ⟨v ++ u, by rw [hv, List.append_assoc], .itemThen (.rule hname) hu, hends⟩
  | case6 => cases h

/-- An alternative that is taken has an item. -/
theorem takeAlternative_sound {a : Alternative} (h : takeAlternative ending w = .ok (a, rest)) :
    ∃ u, w = u ++ rest ∧ a ≠ [] ∧ Denotes u (.items a) ∧ EndsItems ending rest := by
  unfold takeAlternative at h
  split at h
  · cases h
  · split at h <;> cases h
  next item items rest' hitems =>
    cases h
    obtain ⟨u, rfl, hu, hends⟩ := takeItems_sound hitems
    exact ⟨u, rfl, by simp, hu, hends⟩

/-- **The alternatives that are taken stand before the end of a definition**: no bar is left behind
them. -/
theorem takeAlternatives_sound {as : List Alternative}
    (h : takeAlternatives ending w = .ok (as, rest)) :
    ∃ u, w = u ++ rest ∧ Denotes u (.alternatives as) ∧ EndsDefinition ending rest := by
  fun_induction takeAlternatives ending w generalizing as rest with
  | case1 => cases h
  | case2 w a ha =>
    cases h
    obtain ⟨u, rfl, hne, hu, hends⟩ := takeAlternative_sound ha
    exact ⟨u, rfl, .last hne hu, hends⟩
  | case3 w a t after ha hbar _ ih =>
    obtain ⟨⟨others, rest'⟩, hothers, hpair⟩ := map_eq_ok h
    cases hpair
    obtain ⟨u, rfl, hne, hu, -⟩ := takeAlternative_sound ha
    obtain ⟨v, rfl, hv, hends⟩ := ih hothers
    exact ⟨u ++ t :: v, by simp, .more hne hu hbar hv, hends⟩
  | case4 w a t after ha hbar =>
    cases h
    obtain ⟨u, rfl, hne, hu, hends⟩ := takeAlternative_sound ha
    exact ⟨u, rfl, .last hne hu, hends.resolve_left hbar⟩

theorem takeDefinition_sound {r : Rule} (h : takeDefinition ending w = .ok (r, rest)) :
    ∃ u, w = u ++ rest ∧ Denotes u (.definition r) ∧ EndsDefinition ending rest := by
  unfold takeDefinition at h
  split at h
  · cases h
  next name w₁ href =>
    split at h
    · cases h
    next assign w₂ hassign =>
      obtain ⟨⟨as, rest'⟩, halternatives, hpair⟩ := map_eq_ok h
      cases hpair
      obtain ⟨u, rfl, hu⟩ := takeReference_sound href
      obtain ⟨rfl, ht⟩ := takeKind_eq_ok.mp hassign
      obtain ⟨v, rfl, hv, hends⟩ := takeAlternatives_sound halternatives
      exact ⟨u ++ assign :: v, by simp, .definition hu ht hv, hends⟩

/-- The definitions that are taken leave nothing of the tokens. -/
theorem takeDefinitions_sound {rs : List Rule} (h : takeDefinitions ending w = .ok rs) :
    Denotes w (.definitions rs) ∧ ∃ e, ending = .ok e := by
  fun_induction takeDefinitions ending w generalizing rs with
  | case1 =>
    obtain ⟨e, hnext, rfl⟩ := map_eq_ok h
    refine ⟨.noDefinition, ?_⟩
    cases ending with
    | ok e => exact ⟨e, rfl⟩
    | error f => cases hnext
  | case2 => cases h
  | case3 t w r after hr ih =>
    obtain ⟨others, hothers, rfl⟩ := map_eq_ok h
    obtain ⟨u, hu, hdef, -⟩ := takeDefinition_sound hr
    obtain ⟨hrest, hend⟩ := ih hothers
    rw [hu]
    exact ⟨.definitionThen hdef hrest, hend⟩

/-- **A grammar that is read is denoted by the tokens**, definition by definition. -/
theorem parseTokens_sound {g : Grammar} (h : parseTokens ending w = .ok g) :
    ∃ rs, rs ≠ [] ∧ Denotes w (.definitions rs) ∧ (∃ e, ending = .ok e)
      ∧ g = .ofDefinitions rs := by
  unfold parseTokens at h
  split at h
  · cases h
  · cases h
  next r rs hrs =>
    cases h
    obtain ⟨hw, hend⟩ := takeDefinitions_sound hrs
    exact ⟨r :: rs, by simp, hw, hend, rfl⟩

/-! ## 3. What is denoted -/

variable {u : List Token}

theorem takeReference_complete {name : String} (h : Denotes u (.reference name)) :
    takeReference ending (u ++ rest) = .ok (name, rest) := by
  cases h with
  | reference hless hname hgreater => simp [takeReference, takeKind, hless, hname, hgreater]

theorem isA_less_of_startsDefinition {t : Token} (h : startsDefinition (t :: w) = true) :
    isA .less t = true := by
  unfold startsDefinition at h
  split at h
  next a b c d w' heq =>
    cases heq
    simp only [Bool.and_eq_true] at h
    exact h.1.1.1
  next => cases h

/-- **No assignment stands behind a reference within an alternative.** -/
theorem not_assign_next {a : Alternative} (h : Denotes u (.items a))
    (hends : EndsItems ending rest) : ∀ t ∈ (u ++ rest).head?, isA .assign t = false := by
  intro t ht
  cases h with
  | noItem =>
    cases rest with
    | nil => cases ht
    | cons t' w =>
      cases ht
      rcases hends with hbar | hstart
      · exact isA_false hbar _ (by decide)
      · exact isA_false (isA_less_of_startsDefinition hstart) _ (by decide)
  | itemThen hitem _ =>
    cases hitem with
    | rule href =>
      cases href with
      | reference hless _ _ =>
        cases ht
        exact isA_false hless _ (by decide)
    | terminal hterminal =>
      cases ht
      exact terminal_not hterminal (.inl rfl)

/-- So a reference in an alternative is never the start of a definition. -/
theorem startsDefinition_reference {less name greater : Token}
    (h : ∀ t ∈ w.head?, isA .assign t = false) :
    startsDefinition (less :: name :: greater :: w) = false := by
  cases w with
  | nil => rfl
  | cons t w => simp [startsDefinition, h t rfl]

theorem startsDefinition_terminal {t : Token} (h : isA .less t = false) :
    startsDefinition (t :: w) = false := by
  unfold startsDefinition
  split
  next heq =>
    cases heq
    simp [h]
  next => rfl

/-- **Items are taken up to where they end**, by induction on them. -/
theorem takeItems_complete {a : Alternative} (h : Denotes u (.items a))
    (hends : EndsItems ending rest) : takeItems ending (u ++ rest) = .ok (a, rest) := by
  induction a generalizing u with
  | nil =>
    cases h
    cases rest with
    | nil =>
      obtain ⟨e, rfl⟩ := hends
      rw [List.append_nil, takeItems]
      rfl
    | cons t w =>
      rw [List.nil_append, takeItems, if_pos (Bool.or_eq_true_iff.mpr hends)]
  | cons i a ih =>
    cases h with
    | @itemThen v w _ _ hitem hitems =>
      have hread := ih hitems
      cases hitem with
      | terminal hterminal =>
        have hless := terminal_not hterminal (s := .less) (by simp)
        have hbar := terminal_not hterminal (s := .bar) (by simp)
        simp only [List.cons_append, List.nil_append]
        rw [takeItems]
        simp only [hbar, startsDefinition_terminal hless, Bool.or_self, Bool.false_eq_true,
          ↓reduceIte, hterminal, hread]
        rfl
      | rule href =>
        have htake : takeReference ending (v ++ (w ++ rest)) = .ok (_, w ++ rest) :=
          takeReference_complete href
        cases href with
        | @reference less name greater hless hname hgreater =>
          -- the look ahead does not take the reference for the start of a definition
          have hstart : startsDefinition (less :: name :: greater :: (w ++ rest)) = false :=
            startsDefinition_reference (not_assign_next hitems hends)
          simp only [List.cons_append, List.nil_append] at htake ⊢
          rw [takeItems]
          simp only [isA_false hless .bar (by decide), hstart, Bool.or_self, Bool.false_eq_true,
            ↓reduceIte, terminalOf?_less hless, hless]
          split
          next e herror =>
            rw [htake] at herror
            cases herror
          next name' after hok =>
            rw [htake] at hok
            cases hok
            rw [hread]
            rfl

theorem EndsDefinition.endsItems (h : EndsDefinition ending rest) : EndsItems ending rest := by
  cases rest with
  | nil => exact h
  | cons t w => exact .inr h

theorem takeAlternative_complete {a : Alternative} (hne : a ≠ []) (h : Denotes u (.items a))
    (hends : EndsItems ending rest) : takeAlternative ending (u ++ rest) = .ok (a, rest) := by
  obtain ⟨i, a, rfl⟩ := List.exists_cons_of_ne_nil hne
  rw [takeAlternative, takeItems_complete h hends]

/-- The alternatives behind one that is taken. -/
theorem takeAlternatives_of_take {a : Alternative} (h : takeAlternative ending w = .ok (a, rest)) :
    takeAlternatives ending w = match rest with
      | [] => .ok ([a], [])
      | t :: after =>
        if isA .bar t then
          (takeAlternatives ending after).map fun (others, rest) => (a :: others, rest)
        else .ok ([a], t :: after) := by
  rw [takeAlternatives]
  split
  next e herror =>
    rw [h] at herror
    cases herror
  next a' rest' hok =>
    rw [h] at hok
    cases hok
    cases rest <;> rfl

/-- **Alternatives are taken up to the end of the definition.** -/
theorem takeAlternatives_complete {as : List Alternative} (h : Denotes u (.alternatives as))
    (hends : EndsDefinition ending rest) :
    takeAlternatives ending (u ++ rest) = .ok (as, rest) := by
  induction as generalizing u with
  | nil => cases h
  | cons a as ih =>
    cases h with
    | last hne hitems =>
      rw [takeAlternatives_of_take (takeAlternative_complete hne hitems hends.endsItems)]
      cases rest with
      | nil => rfl
      | cons t w =>
        have hless := isA_less_of_startsDefinition hends
        simp only [isA_false hless .bar (by decide), Bool.false_eq_true, ↓reduceIte]
    | @more v w bar _ _ hne hitems hbar hothers =>
      have htake : takeAlternative ending (v ++ bar :: (w ++ rest)) = .ok (a, bar :: (w ++ rest)) :=
        takeAlternative_complete hne hitems (.inl hbar)
      rw [List.append_assoc, List.cons_append, takeAlternatives_of_take htake]
      simp only [hbar, ↓reduceIte, ih hothers]
      rfl

theorem takeDefinition_complete {r : Rule} (h : Denotes u (.definition r))
    (hends : EndsDefinition ending rest) : takeDefinition ending (u ++ rest) = .ok (r, rest) := by
  cases h with
  | @definition v w assign name as href hassign halternatives =>
    rw [List.append_assoc, List.cons_append, takeDefinition, takeReference_complete href]
    simp only [takeKind_eq_ok.mpr ⟨rfl, hassign⟩, takeAlternatives_complete halternatives hends]
    rfl

/-- A definition is seen by the look ahead. -/
theorem startsDefinition_of_denotes {r : Rule} (h : Denotes u (.definition r)) (rest : List Token) :
    startsDefinition (u ++ rest) = true := by
  cases h with
  | definition href hassign _ =>
    cases href with
    | reference hless hname hgreater => simp [startsDefinition, hless, hname, hgreater, hassign]

theorem takeDefinitions_complete {rs : List Rule} {e : Token} (h : Denotes w (.definitions rs)) :
    takeDefinitions (.ok e) w = .ok rs := by
  induction rs generalizing w with
  | nil =>
    cases h
    rw [takeDefinitions]
    rfl
  | cons r rs ih =>
    cases h with
    | @definitionThen u v _ _ hdef hothers =>
      have hends : EndsDefinition (.ok e) v := by
        cases hothers with
        | noDefinition => exact ⟨e, rfl⟩
        | @definitionThen u' v' _ _ hnext _ =>
          have hstart := startsDefinition_of_denotes hnext v'
          cases hlist : u' ++ v' with
          | nil => exact ⟨e, rfl⟩
          | cons t v'' =>
            rw [hlist] at hstart
            exact hstart
      have htake := takeDefinition_complete hdef hends
      have hne : u ++ v ≠ [] := by
        intro hnil
        have hstart := startsDefinition_of_denotes hdef v
        rw [hnil] at hstart
        cases hstart
      obtain ⟨t, w, hlist⟩ := List.exists_cons_of_ne_nil hne
      rw [hlist] at htake ⊢
      rw [takeDefinitions]
      split
      next f herror =>
        rw [htake] at herror
        cases herror
      next r' after hok =>
        rw [htake] at hok
        cases hok
        rw [ih hothers]
        rfl

/-- **What the tokens denote is read**, if they end with the end of the input. -/
theorem parseTokens_complete {rs : List Rule} {e : Token} (hne : rs ≠ [])
    (h : Denotes w (.definitions rs)) : parseTokens (.ok e) w = .ok (.ofDefinitions rs) := by
  obtain ⟨r, rs, rfl⟩ := List.exists_cons_of_ne_nil hne
  rw [parseTokens, takeDefinitions_complete h]

end Formulary.Rules
