import Formulary.Proofs.Rules.Notation

/-!
# Reading a printed grammar

Reading and printing are inverse on the grammars of the notation.

1. The grammars that can be written down (`Grammar.WellFormed`); every grammar that is read is one.
2. The text of a well-formed grammar is scanned as tokens that denote its rules.
3. Rules with distinct names are put together as they are, so the text is read as the grammar.
-/

namespace Formulary.Rules

/-! ## 1. Well-formed grammars -/

/-- References name a rule; words are names or plain; between quotes anything may stand. -/
def Item.WellFormed : Item → Prop
  | .rule name => isName name = true
  | .word text => isName text = true ∨ isPlain text = true
  | .quoted _ => True

instance : DecidablePred Item.WellFormed
  | .rule name => inferInstanceAs (Decidable (isName name = true))
  | .word text => inferInstanceAs (Decidable (isName text = true ∨ isPlain text = true))
  | .quoted _ => inferInstanceAs (Decidable True)

structure Rule.WellFormed (r : Rule) : Prop where
  name : isName r.name = true
  nonempty : r.alternatives ≠ []
  items : ∀ a ∈ r.alternatives, a ≠ [] ∧ ∀ i ∈ a, i.WellFormed

structure Grammar.WellFormed (g : Grammar) : Prop where
  nonempty : g.rules ≠ []
  distinct : g.names.Nodup
  rules : ∀ r ∈ g.rules, r.WellFormed

instance : DecidablePred Rule.WellFormed := fun r =>
  decidable_of_iff (isName r.name = true ∧ r.alternatives ≠ [] ∧
      ∀ a ∈ r.alternatives, a ≠ [] ∧ ∀ i ∈ a, i.WellFormed)
    ⟨fun ⟨hname, hne, hitems⟩ => ⟨hname, hne, hitems⟩, fun h => ⟨h.name, h.nonempty, h.items⟩⟩

instance : DecidablePred Grammar.WellFormed := fun g =>
  decidable_of_iff (g.rules ≠ [] ∧ g.names.Nodup ∧ ∀ r ∈ g.rules, r.WellFormed)
    ⟨fun ⟨hne, hdistinct, hrules⟩ => ⟨hne, hdistinct, hrules⟩,
      fun h => ⟨h.nonempty, h.distinct, h.rules⟩⟩

/-- What the readers put together. -/
def Phrase.WellFormed : Phrase → Prop
  | .reference name => isName name = true
  | .item i => i.WellFormed
  | .items a => ∀ i ∈ a, i.WellFormed
  | .alternatives as => as ≠ [] ∧ ∀ a ∈ as, a ≠ [] ∧ ∀ i ∈ a, i.WellFormed
  | .definition r => r.WellFormed
  | .definitions rs => ∀ r ∈ rs, r.WellFormed

theorem Spelled.spells {t : Token} (ht : Spelled t) {s : Symbol} (hs : isA s t = true) :
    s.Spells t.value := by
  obtain ⟨s', hkind, hspell⟩ := ht
  obtain rfl : s' = s := by
    apply Symbol.code_inj
    rw [isA, beq_iff_eq, Token.code, hkind] at hs
    exact hs
  exact hspell

theorem wellFormed_terminal {t : Token} {i : Item} (ht : Spelled t) (h : terminalOf? t = some i) :
    i.WellFormed := by
  unfold terminalOf? at h
  split at h
  next hname =>
    cases h
    rcases Bool.or_eq_true_iff.mp hname with hname | hname
    · exact .inl (ht.spells hname)
    · exact .inr (ht.spells hname)
  split at h
  · cases h
    trivial
  · cases h

/-- **What tokens of a text denote is well formed.** -/
theorem wellFormed_of_denotes {w : List Token} {x : Phrase} (h : Denotes w x)
    (hw : ∀ t ∈ w, Spelled t) : x.WellFormed := by
  induction h with
  | reference _ hname _ => exact (hw _ (by simp)).spells hname
  | rule _ ih => exact ih hw
  | terminal hterminal => exact wellFormed_terminal (hw _ (by simp)) hterminal
  | noItem => exact fun i hi => absurd hi List.not_mem_nil
  | itemThen _ _ ihi iha =>
    intro i hi
    rcases List.mem_cons.mp hi with rfl | hi
    · exact ihi fun t ht => hw t (by simp [ht])
    · exact iha (fun t ht => hw t (by simp [ht])) i hi
  | last hne _ ih =>
    refine ⟨by simp, fun a ha => ?_⟩
    obtain rfl := List.mem_singleton.mp ha
    exact ⟨hne, ih hw⟩
  | more hne _ _ _ iha ihas =>
    refine ⟨by simp, fun a ha => ?_⟩
    rcases List.mem_cons.mp ha with rfl | ha
    · exact ⟨hne, iha fun t ht => hw t (by simp [ht])⟩
    · exact (ihas fun t ht => hw t (by simp [ht])).2 a ha
  | definition _ _ _ ihname ihas =>
    obtain ⟨hne, hitems⟩ := ihas fun t ht => hw t (by simp [ht])
    exact ⟨ihname fun t ht => hw t (by simp [ht]), hne, hitems⟩
  | noDefinition => exact fun r hr => absurd hr List.not_mem_nil
  | definitionThen _ _ ihr ihrs =>
    intro r hr
    rcases List.mem_cons.mp hr with rfl | hr
    · exact ihr fun t ht => hw t (by simp [ht])
    · exact ihrs (fun t ht => hw t (by simp [ht])) r hr

namespace Grammar

variable {r : Rule} {rs : List Rule}

theorem addTo_ne_nil (r : Rule) (rs : List Rule) : addTo r rs ≠ [] := by
  cases rs with
  | nil => simp [addTo]
  | cons first others =>
    rw [addTo]
    split <;> simp

/-- A new name comes last, a known one adds nothing. -/
theorem names_addTo (r : Rule) (rs : List Rule) :
    (addTo r rs).map (·.name) = if r.name ∈ rs.map (·.name) then rs.map (·.name)
      else rs.map (·.name) ++ [r.name] := by
  induction rs with
  | nil => simp [addTo]
  | cons first others ih =>
    rw [addTo]
    by_cases hname : first.name = r.name
    · simp [hname]
    · rw [if_neg (by simpa using hname), List.map_cons, ih]
      by_cases hmem : r.name ∈ others.map (·.name)
      · simp [hmem]
      · simp [hmem, Ne.symm hname]

theorem nodup_addTo (h : (rs.map (·.name)).Nodup) : ((addTo r rs).map (·.name)).Nodup := by
  rw [names_addTo]
  split
  · exact h
  next hmem =>
    refine List.nodup_append.mpr ⟨h, by simp, ?_⟩
    intro a ha b hb heq
    rw [List.mem_singleton.mp hb] at heq
    exact hmem (heq ▸ ha)

theorem wellFormed_addTo (hr : r.WellFormed) (h : ∀ r ∈ rs, r.WellFormed) :
    ∀ r' ∈ addTo r rs, r'.WellFormed := by
  induction rs with
  | nil =>
    intro r' hr'
    rw [List.mem_singleton.mp hr']
    exact hr
  | cons first others ih =>
    have hfirst := h first (by simp)
    rw [addTo]
    split
    · intro r' hr'
      rcases List.mem_cons.mp hr' with rfl | hr'
      · refine ⟨hfirst.name, by simp [hfirst.nonempty], fun a ha => ?_⟩
        rcases List.mem_append.mp ha with ha | ha
        · exact hfirst.items a ha
        · exact hr.items a ha
      · exact h r' (by simp [hr'])
    · intro r' hr'
      rcases List.mem_cons.mp hr' with rfl | hr'
      · exact hfirst
      · exact ih (fun r hr => h r (by simp [hr])) r' hr'

/-- The rules that are already there stay well formed and distinct with each definition. -/
theorem wellFormed_foldl_addTo (hrs : ∀ r ∈ rs, r.WellFormed) {rules : List Rule}
    (h : (Grammar.mk rules).WellFormed) :
    (Grammar.mk (rs.foldl (fun rules r => addTo r rules) rules)).WellFormed := by
  induction rs generalizing rules with
  | nil => exact h
  | cons r rs ih =>
    refine ih (fun r hr => hrs r (by simp [hr])) ⟨addTo_ne_nil r rules, nodup_addTo h.distinct, ?_⟩
    exact wellFormed_addTo (hrs r (by simp)) h.rules

/-- **Definitions make up a well-formed grammar**, those of one name a single rule. -/
theorem wellFormed_ofDefinitions (hne : rs ≠ []) (hrs : ∀ r ∈ rs, r.WellFormed) :
    (ofDefinitions rs).WellFormed := by
  obtain ⟨r, rs, rfl⟩ := List.exists_cons_of_ne_nil hne
  have hfirst : (Grammar.mk (addTo r [])).WellFormed :=
    ⟨addTo_ne_nil r [], nodup_addTo List.nodup_nil, wellFormed_addTo (hrs r (by simp)) (by simp)⟩
  rw [ofDefinitions, List.foldl_cons]
  exact wellFormed_foldl_addTo (fun r hr => hrs r (by simp [hr])) hfirst

end Grammar

/-- **Every grammar that is read is well formed.** -/
theorem wellFormed_of_parse {s : Text.Source} {g : Grammar} (h : parse s = .ok g) :
    g.WellFormed := by
  obtain ⟨rs, hne, hdenotes, -, rfl⟩ := parseTokens_sound h
  exact Grammar.wellFormed_ofDefinitions hne (wellFormed_of_denotes hdenotes (spelled_of_scan s))

/-! ## 2. The text of a grammar -/

/-- `Prints text x`: the text, with blanks in front of it and something behind it that can not go on
with it, is scanned as tokens that denote `x`. -/
def Prints (text : List Char) (x : Phrase) : Prop :=
  ∀ (blanks : List Char) (r : Reader) (rest : List Char), (∀ c ∈ blanks, Text.isBlank c = true) →
    r.chars = blanks ++ (text ++ rest) → Ends rest →
    ∃ w r', Feed.Scans scan r w r' ∧ Denotes w x ∧ r'.chars = rest

theorem ends_space (cs : List Char) : Ends (' ' :: cs) := ends_of_char (by decide +kernel)

theorem ends_newline (cs : List Char) : Ends ('\n' :: cs) := ends_of_char (by decide +kernel)

theorem ends_greater (cs : List Char) : Ends ('>' :: cs) := ends_of_char (by decide +kernel)

theorem prints_reference {name : String} (hname : isName name = true) :
    Prints (reference name).toList (.reference name) := by
  intro blanks r rest hblank h hend
  have htext : (reference name).toList = '<' :: (name.toList ++ ['>']) := by simp [reference]
  rw [htext, List.cons_append, List.append_assoc] at h
  obtain ⟨less, r₁, hless, hkind₁, -, h₁⟩ := scans_token (.sign (c := '<') rfl) hblank h (by simp)
  obtain ⟨t, r₂, ht, hkind₂, rfl, h₂⟩ := scans_token (.name hname) (by simp)
    (show r₁.chars = [] ++ (name.toList ++ '>' :: rest) from h₁) fun _ => ends_greater rest
  obtain ⟨greater, r₃, hgreater, hkind₃, -, h₃⟩ := scans_token (.sign (c := '>') rfl) (by simp)
    (show r₂.chars = [] ++ (['>'] ++ rest) from h₂) (by simp)
  exact ⟨[less, t, greater], r₃, hless.append (ht.append hgreater),
    .reference (isA_of_kind hkind₁) (isA_of_kind hkind₂) (isA_of_kind hkind₃), h₃⟩

/-- A text that is scanned as one terminal. -/
theorem prints_terminal {s : Symbol} {cs : List Char} {value : String} {i : Item}
    (hcs : Scannable s cs value)
    (hi : ∀ t : Token, isA s t = true → t.value = value → terminalOf? t = some i) :
    Prints cs (.item i) := by
  intro blanks r rest hblank h hend
  obtain ⟨t, r', ht, hkind, hvalue, hr'⟩ := scans_token hcs hblank h fun _ => hend
  exact ⟨[t], r', ht, .terminal (hi t (isA_of_kind hkind) hvalue), hr'⟩

/-- **An item.** -/
theorem prints_item {i : Item} (hi : i.WellFormed) : Prints i.text.toList (.item i) := by
  cases i with
  | rule name =>
    intro blanks r rest hblank h hend
    obtain ⟨w, r', hscans, hw, hr'⟩ := prints_reference hi blanks r rest hblank h hend
    exact ⟨w, r', hscans, .rule hw, hr'⟩
  | word text =>
    rcases hi with hname | hplain
    · refine prints_terminal (.name hname) fun t ht hvalue => ?_
      simp [terminalOf?, ht, hvalue, Item.text]
    · refine prints_terminal (.plain hplain) fun t ht hvalue => ?_
      simp [terminalOf?, ht, hvalue, Item.text]
  | quoted text =>
    have htext : (Item.quoted text).text.toList = quotation text := by simp [Item.text, quotation]
    rw [htext]
    refine prints_terminal (.quoted text) fun t ht hvalue => ?_
    simp [terminalOf?, isA_false ht .ident (by decide), isA_false ht .word (by decide), ht,
      hvalue]

/-- **The items of an alternative**, with blanks between them. -/
theorem prints_items {a : Alternative} (hne : a ≠ []) (ha : ∀ i ∈ a, i.WellFormed) :
    Prints (alternativeText a).toList (.items a) := by
  induction a with
  | nil => exact absurd rfl hne
  | cons i a ih =>
    have hitem := prints_item (ha i (by simp))
    cases a with
    | nil =>
      intro blanks r rest hblank h hend
      have htext : (alternativeText [i]).toList = i.text.toList := by simp [alternativeText]
      rw [htext] at h
      obtain ⟨w, r', hscans, hw, hr'⟩ := hitem blanks r rest hblank h hend
      refine ⟨w, r', hscans, ?_, hr'⟩
      rw [← List.append_nil w]
      exact .itemThen hw .noItem
    | cons i' a =>
      intro blanks r rest hblank h hend
      have htext : (alternativeText (i :: i' :: a)).toList
          = i.text.toList ++ ' ' :: (alternativeText (i' :: a)).toList := by
        simp [alternativeText, String.intercalate_cons_cons]
      rw [htext, List.append_assoc] at h
      obtain ⟨u, r₁, hu, hdenotes, h₁⟩ := hitem blanks r _ hblank h (ends_space _)
      obtain ⟨w, r₂, hw, hdenotes', h₂⟩ :=
        ih (by simp) (fun i hi => ha i (by simp [hi])) [' '] r₁ rest
        (Text.isBlank_single rfl) h₁ hend
      exact ⟨u ++ w, r₂, hu.append hw, .itemThen hdenotes hdenotes', h₂⟩

/-- **Alternatives**, with bars between them. -/
theorem prints_alternatives {as : List Alternative} (hne : as ≠ [])
    (has : ∀ a ∈ as, a ≠ [] ∧ ∀ i ∈ a, i.WellFormed) :
    Prints (" | ".intercalate (as.map alternativeText)).toList (.alternatives as) := by
  induction as with
  | nil => exact absurd rfl hne
  | cons a as ih =>
    obtain ⟨hfirst, hitems⟩ := has a (by simp)
    have hprints := prints_items hfirst hitems
    cases as with
    | nil =>
      intro blanks r rest hblank h hend
      have htext : (" | ".intercalate ([a].map alternativeText)).toList
          = (alternativeText a).toList := by
        simp
      rw [htext] at h
      obtain ⟨w, r', hscans, hw, hr'⟩ := hprints blanks r rest hblank h hend
      exact ⟨w, r', hscans, .last hfirst hw, hr'⟩
    | cons a' as =>
      intro blanks r rest hblank h hend
      have htext : (" | ".intercalate ((a :: a' :: as).map alternativeText)).toList
          = (alternativeText a).toList
            ++ ' ' :: '|' :: ' '
              :: (" | ".intercalate ((a' :: as).map alternativeText)).toList := by
        simp [String.intercalate_cons_cons]
      rw [htext, List.append_assoc] at h
      obtain ⟨u, r₁, hu, hdenotes, h₁⟩ := hprints blanks r _ hblank h (ends_space _)
      obtain ⟨bar, r₂, hbar, hkind, -, h₂⟩ := scans_token (.sign (c := '|') rfl)
        (Text.isBlank_single rfl) h₁ (by simp)
      obtain ⟨w, r₃, hw, hdenotes', h₃⟩ :=
        ih (by simp) (fun a ha => has a (by simp [ha])) [' '] r₂ rest
        (Text.isBlank_single rfl) h₂ hend
      exact ⟨u ++ bar :: w, r₃, hu.append (hbar.append hw),
        .more hfirst hdenotes (isA_of_kind hkind) hdenotes', h₃⟩

/-- **A rule.** -/
theorem prints_rule {rule : Rule} (hrule : rule.WellFormed) :
    Prints rule.text.toList (.definition rule) := by
  intro blanks r rest hblank h hend
  have htext : rule.text.toList = (reference rule.name).toList ++ ' ' :: ([':', ':', '='] ++ ' ' ::
      (" | ".intercalate (rule.alternatives.map alternativeText)).toList) := by
    simp [Rule.text]
  rw [htext, List.append_assoc] at h
  obtain ⟨u, r₁, hu, hdenotes, h₁⟩ := prints_reference hrule.name blanks r _ hblank h (ends_space _)
  obtain ⟨assign, r₂, hassign, hkind, -, h₂⟩ := scans_token .assign
    (Text.isBlank_single rfl) h₁ (by simp)
  obtain ⟨w, r₃, hw, hdenotes', h₃⟩ := prints_alternatives hrule.nonempty hrule.items [' '] r₂ rest
    (Text.isBlank_single rfl) h₂ hend
  exact ⟨u ++ assign :: w, r₃, hu.append (hassign.append hw),
    .definition hdenotes (isA_of_kind hkind) hdenotes', h₃⟩

/-- **Rules, one a line.**  What is left of the text is the end of the last line. -/
theorem scans_rules {rs : List Rule} (hrs : ∀ r ∈ rs, r.WellFormed) {blanks : List Char}
    {r : Reader} (hblank : ∀ c ∈ blanks, Text.isBlank c = true)
    (h : r.chars = blanks ++ (Grammar.mk rs).text.toList) :
    ∃ w r', Feed.Scans scan r w r' ∧ Denotes w (.definitions rs) ∧
      ∀ c ∈ r'.chars, Text.isBlank c = true := by
  induction rs generalizing blanks r with
  | nil =>
    refine ⟨[], r, .nil r, .noDefinition, ?_⟩
    rw [h]
    simpa [Grammar.text] using hblank
  | cons rule rs ih =>
    have htext : (Grammar.mk (rule :: rs)).text.toList
        = rule.text.toList ++ '\n' :: (Grammar.mk rs).text.toList := by
      simp [Grammar.text]
    rw [htext] at h
    obtain ⟨u, r₁, hu, hdenotes, h₁⟩ := prints_rule (hrs rule (by simp)) blanks r _ hblank h
      (ends_newline _)
    obtain ⟨w, r₂, hw, hdenotes', h₂⟩ := ih (fun r hr => hrs r (by simp [hr]))
      (Text.isBlank_single (c := '\n') rfl) h₁
    exact ⟨u ++ w, r₂, hu.append hw, .definitionThen hdenotes hdenotes', h₂⟩

/-! ## 3. Reading the text -/

namespace Grammar

theorem addTo_new {r : Rule} {rs : List Rule} (h : r.name ∉ rs.map (·.name)) :
    addTo r rs = rs ++ [r] := by
  induction rs with
  | nil => rfl
  | cons first others ih =>
    rw [List.map_cons, List.mem_cons, not_or] at h
    rw [addTo, if_neg (by simpa using Ne.symm h.1), ih h.2]
    rfl

/-- Definitions of new names are put behind the rules that are already there. -/
theorem foldl_addTo_of_nodup {rs rules : List Rule} (h : ((rules ++ rs).map (·.name)).Nodup) :
    rs.foldl (fun rules r => addTo r rules) rules = rules ++ rs := by
  induction rs generalizing rules with
  | nil => exact (List.append_nil rules).symm
  | cons r rs ih =>
    have hnew : r.name ∉ rules.map (·.name) := by
      intro hmem
      rw [List.map_append, List.nodup_append] at h
      exact h.2.2 r.name hmem r.name (by simp) rfl
    rw [List.foldl_cons, addTo_new hnew, ih (by simpa using h), List.append_assoc]
    rfl

/-- **Rules with distinct names are put together as they are.** -/
theorem ofDefinitions_of_nodup {rs : List Rule} (h : (rs.map (·.name)).Nodup) :
    ofDefinitions rs = ⟨rs⟩ := by
  rw [ofDefinitions, foldl_addTo_of_nodup (by simpa using h), List.nil_append]

end Grammar

/-- **Reading and printing are inverse on the grammars of the notation.**  Every grammar that is
read, from whatever bytes, is well formed, and the text of every well-formed grammar is read as that
grammar. -/
theorem parse_text_inverse :
    (∀ s g, parse s = .ok g → g.WellFormed) ∧
    (∀ g : Grammar, g.WellFormed → parse (.ofString g.text) = .ok g) := by
  refine ⟨fun s g => wellFormed_of_parse, fun g hg => ?_⟩
  obtain ⟨w, r', hscans, hdenotes, hrest⟩ :=
    scans_rules hg.rules (r := .ofSource (.ofString g.text))
    (show ∀ c ∈ [], Text.isBlank c = true by simp) (Reader.chars_ofString g.text)
  obtain ⟨e, -, hend⟩ := untilEnd_of_blanks hrest
  have huntil : (feed (.ofString g.text)).untilEnd = (w, .ok e) := by
    rw [feed, hscans.untilEnd, hend, List.append_nil]
  rw [parse, huntil]
  show parseTokens (.ok e) w = .ok g
  rw [parseTokens_complete hg.nonempty hdenotes, Grammar.ofDefinitions_of_nodup hg.distinct]

/-- A grammar with every kind of item; a quote, a backslash and the end of a line stand in one. -/
def signedNumbers : Grammar where
  rules := [
    ⟨"number", [[.rule "sign-1", .word "digits"], [.word "0x", .word "hex-2"]]⟩,
    ⟨"sign-1", [[.quoted ""], [.quoted "\x27\\\n"], [.word "-"]]⟩]

/-- **The text of `signedNumbers` is read as it**, and what is read is well formed. -/
theorem parse_text_inverse_signedNumbers :
    signedNumbers.text = "<number> ::= <sign-1> digits | 0x hex-2\n"
        ++ "<sign-1> ::= \x27\x27 | \x27\\\x27\\\\\n\x27 | -\n"
      ∧ parse (.ofString signedNumbers.text) = .ok signedNumbers ∧ signedNumbers.WellFormed := by
  have hread := parse_text_inverse.2 signedNumbers (by decide +kernel)
  exact ⟨by decide +kernel, hread, parse_text_inverse.1 _ _ hread⟩

end Formulary.Rules
