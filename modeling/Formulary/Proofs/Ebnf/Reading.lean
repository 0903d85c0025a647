import Formulary.Ebnf.Checker
import Formulary.Proofs.Ebnf.Lexing

/-!
# Reading productions

The checker reads productions from their words (`checker_reads`): its lexemes are the words of the
text, words are read as the productions that are written with them (`productionsFrom_words`), and
productions with distinct names are all kept (`declare_of_nodup`).
-/

namespace Formulary.Ebnf

variable {l u rest : List Spot} {s ending : Spot} {t : Term} {a terms : List Term}
  {as : List (List Term)} {ps qs : List Production}

/-! ## 1. Words -/

theorem lexeme_of_name {name : String} (h : s.lexeme.word? = some (.name name)) :
    s.lexeme = .name name := by
  unfold Lexeme.word? at h
  split at h
  next heq => simp_all
  next => simp at h
  all_goals cases h

theorem lexeme_of_sign {c : Char} (h : s.lexeme.word? = some (.sign c)) : s.lexeme = .char c := by
  unfold Lexeme.word? at h
  split at h
  next => cases h
  next => simp at h
  next heq => simp_all
  next => cases h

/-- **A term is read from its word.** -/
theorem termOf?_word (h : s.lexeme.word? = some t.word) :
    ∃ t', termOf? s = some t' ∧ t'.bare = t.bare := by
  cases t with
  | name text pos => exact ⟨.name text s.pos, by rw [termOf?, lexeme_of_name h], rfl⟩
  | literal text =>
    refine ⟨.literal text, ?_, rfl⟩
    unfold Lexeme.word? at h
    split at h
    next => cases h
    next raw heq =>
      obtain ⟨value, hvalue, htext⟩ := Option.map_eq_some_iff.mp h
      cases htext
      simp [termOf?, heq, hvalue]
    all_goals cases h

theorem termOf?_char {c : Char} (h : s.lexeme = .char c) : termOf? s = none := by
  rw [termOf?, h]

/-- Alternatives start with a term. -/
theorem alternativesWords_head (hne : as ≠ []) (hterms : ∀ a ∈ as, a ≠ []) :
    ∃ (t : Term) (ws : List Word), alternativesWords as = t.word :: ws := by
  obtain ⟨a, as, rfl⟩ := List.exists_cons_of_ne_nil hne
  obtain ⟨t, a, rfl⟩ := List.exists_cons_of_ne_nil (hterms a (by simp))
  cases as with
  | nil => exact ⟨t, a.map Term.word, rfl⟩
  | cons a' as => exact ⟨t, _, rfl⟩

/-! ## 2. Reading -/

/-- The terms of a sequence are read one after the other. -/
theorem alternativesFrom_terms (ending : Spot) (terms : List Term) (l : List Spot)
    (h : u.map (·.lexeme.word?) = (a.map Term.word).map some) :
    ∃ a' : List Term, a'.map Term.bare = a.map Term.bare ∧
      alternativesFrom ending terms (u ++ l) = alternativesFrom ending (a'.reverse ++ terms) l := by
  induction a generalizing u terms with
  | nil =>
    obtain rfl := List.map_eq_nil_iff.mp h
    exact ⟨[], rfl, rfl⟩
  | cons t a ih =>
    obtain ⟨s, u, rfl, hs, hu⟩ := List.map_eq_cons_iff.mp h
    obtain ⟨t', hread, ht'⟩ := termOf?_word hs
    obtain ⟨a', ha', hothers⟩ := ih (t' :: terms) hu
    refine ⟨t' :: a', by simp [ht', ha'], ?_⟩
    rw [List.cons_append, alternativesFrom, hread]
    simp only [hothers, List.reverse_cons, List.append_assoc, List.singleton_append]

/-- **Alternatives are read up to the full stop**, none of which is empty. -/
theorem alternativesFrom_words (ending : Spot) (l : List Spot) (hne : as ≠ [])
    (hterms : ∀ a ∈ as, a ≠ []) (h : u.map (·.lexeme.word?) = (alternativesWords as).map some)
    (hs : s.lexeme = .char '.') :
    ∃ as' : List (List Term), as'.map (·.map Term.bare) = as.map (·.map Term.bare) ∧
      alternativesFrom ending [] (u ++ s :: l) = ⟨as', [], s :: l⟩ := by
  have hfilled : ∀ {a a' : List Term}, a ≠ [] → a'.map Term.bare = a.map Term.bare → a' ≠ [] := by
    rintro a _ hne hbare rfl
    exact hne (List.map_eq_nil_iff.mp hbare.symm)
  induction as generalizing u with
  | nil => exact absurd rfl hne
  | cons a as ih =>
    have hnone := hterms a (by simp)
    cases as with
    | nil =>
      obtain ⟨a', ha', hread⟩ := alternativesFrom_terms (a := a) ending [] (s :: l) h
      refine ⟨[a'], by simp [ha'], ?_⟩
      rw [hread, alternativesFrom, termOf?_char hs]
      simp [hs, sequenceEnd, hfilled hnone ha']
    | cons a₂ as =>
      rw [alternativesWords, List.map_append, List.map_cons] at h
      obtain ⟨u₁, u₂, rfl, hu₁, hu₂⟩ := List.map_eq_append_iff.mp h
      obtain ⟨bar, u₃, rfl, hbar, hu₃⟩ := List.map_eq_cons_iff.mp hu₂
      obtain ⟨a', ha', hread⟩ := alternativesFrom_terms ending [] (bar :: (u₃ ++ s :: l)) hu₁
      obtain ⟨as', has', hothers⟩ := ih (by simp) (fun a ha => hterms a (by simp [ha])) hu₃
      refine ⟨a' :: as', by simp [ha', has'], ?_⟩
      have hbar' := lexeme_of_sign hbar
      rw [List.append_assoc, List.cons_append, hread, alternativesFrom, termOf?_char hbar']
      simp [hbar', sequenceEnd, hfilled hnone ha', hothers]

/-- **Productions are read from their words.** -/
theorem productionsFrom_words (ending : Spot)
    (hps : ∀ p ∈ ps, p.alternatives ≠ [] ∧ ∀ a ∈ p.alternatives, a ≠ [])
    (h : l.map (·.lexeme.word?) = (ps.flatMap Production.words).map some) :
    ∃ qs, productionsFrom ending l = (qs, []) ∧
      qs.map Production.bare = ps.map Production.bare := by
  induction ps generalizing l with
  | nil =>
    obtain rfl := List.map_eq_nil_iff.mp h
    exact ⟨[], by rw [productionsFrom], rfl⟩
  | cons p ps ih =>
    obtain ⟨hne, hterms⟩ := hps p (by simp)
    simp only [List.flatMap_cons, Production.words, List.append_assoc, List.cons_append,
      List.nil_append, List.map_cons, List.map_append] at h
    obtain ⟨first, l₁, rfl, hname, h₁⟩ := List.map_eq_cons_iff.mp h
    obtain ⟨equals, l₂, rfl, hequals, h₂⟩ := List.map_eq_cons_iff.mp h₁
    obtain ⟨u, l₃, rfl, hu, h₃⟩ := List.map_eq_append_iff.mp h₂
    obtain ⟨stop, rest, rfl, hstop, hrest⟩ := List.map_eq_cons_iff.mp h₃
    have hfirst := lexeme_of_name hname
    have hequals := lexeme_of_sign hequals
    have hstop := lexeme_of_sign hstop
    obtain ⟨as', has', hread⟩ := alternativesFrom_words ending rest hne hterms hu hstop
    obtain ⟨qs, hothers, hqs⟩ := ih (fun p hp => hps p (by simp [hp])) hrest
    have hbody : definiens ending (u ++ stop :: rest) = ⟨as', [], stop :: rest⟩ := by
      obtain ⟨t, ws, hws⟩ := alternativesWords_head hne hterms
      rw [hws] at hu
      obtain ⟨s, u', rfl, hs, -⟩ := List.map_eq_cons_iff.mp hu
      have hsign : s.lexeme ≠ .char '.' := by
        intro hsign
        obtain ⟨t', ht', -⟩ := termOf?_word hs
        rw [termOf?_char hsign] at ht'
        cases ht'
      have hterm : ((nextSpot ending (s :: u' ++ stop :: rest)).lexeme == .char '.') = false := by
        simp [nextSpot, hsign]
      rw [definiens, hterm, if_neg Bool.false_ne_true, hread]
    refine ⟨⟨p.name, first.pos, as'⟩ :: qs, ?_, by simp [hqs, has', Production.bare]⟩
    rw [productionsFrom]
    simp only [List.tail_cons, hbody, hothers, hfirst, checkName, checkChar, nextSpot,
      List.headD_cons, hequals, hstop, Lexeme.text]
    simp

/-- **Productions with distinct names are all kept.** -/
theorem declare_of_nodup (h : ((qs ++ ps).map (·.name)).Nodup) :
    declare qs ps = (qs ++ ps, []) := by
  induction ps generalizing qs with
  | nil => simp [declare]
  | cons p ps ih =>
    have hnew : qs.any (·.name == p.name) = false := by
      rw [List.any_eq_false]
      intro q hq heq
      rw [List.map_append, List.nodup_append] at h
      exact h.2.2 q.name (List.mem_map_of_mem hq) p.name (by simp) (beq_iff_eq.mp heq)
    rw [declare, hnew, if_neg (by simp), ih (by simpa using h), List.append_assoc]
    rfl

/-- **The checker reads productions from their words**, without a problem. -/
theorem checker_reads : checker.Reads := by
  intro text ps hspells hps hdistinct
  have hspots := spots_of_spells hspells (show ∀ c ∈ [], Text.isBlank c = true by simp)
    (Reader.chars_ofString text)
  obtain ⟨qs, hread, hqs⟩ :=
    productionsFrom_words (spots (.ofSource (.ofString text))).2 hps hspots
  have hnames : qs.map (·.name) = ps.map (·.name) := by
    have hbare := congrArg (List.map (·.name)) hqs
    simpa [Production.bare, Function.comp_def] using hbare
  have hkept : declare [] qs = (qs, []) := declare_of_nodup (by simpa [hnames] using hdistinct)
  refine ⟨qs, ?_, hqs⟩
  simp only [checker, read, hread, hkept, List.append_nil]

end Formulary.Ebnf
