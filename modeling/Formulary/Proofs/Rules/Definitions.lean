import Formulary.Proofs.Rules.RoundTrip
import Mathlib.Data.List.Induction

/-!
# Lists of definitions

The tokens of a grammar fall apart into definitions in one way only, and the parser reads exactly
the lists of tokens that do (`parse_exactly_definitions`).  The parts are written out here token by
token, as a `Definition` and its `Piece`s, so that it is the tokens that are shared out and not just
what they mean.

That the parser accepts these lists was shown for the relation `Denotes`; here it is said what the
grammar is that the definitions of one name make up, that the parts are unique, and which error
there is otherwise.  The parts are unique because the parser gives the rules they mean, and the
rules tell how many tokens each part has.

1. Pieces and definitions.
2. The parts are unique.
3. Definitions of one name.
4. Errors.
-/

namespace Formulary.Rules

/-! ## 1. Pieces and definitions -/

/-- The tokens of one item: a reference to a rule, or a terminal. -/
inductive Piece where
  | reference (less name greater : Token)
  | terminal (t : Token)

namespace Piece

def tokens : Piece → List Token
  | reference less name greater => [less, name, greater]
  | terminal t => [t]

/-- The tokens are of the kinds they have to be. -/
def Fits : Piece → Prop
  | reference less name greater =>
    isA .less less = true ∧ isA .ident name = true ∧ isA .greater greater = true
  | terminal t => isA .ident t = true ∨ isA .word t = true ∨ isA .quoted t = true

instance : DecidablePred Fits
  | reference less name greater => inferInstanceAs (Decidable
      (isA .less less = true ∧ isA .ident name = true ∧ isA .greater greater = true))
  | terminal t => inferInstanceAs (Decidable
      (isA .ident t = true ∨ isA .word t = true ∨ isA .quoted t = true))

def item : Piece → Item
  | reference _ name _ => .rule name.value
  | terminal t => if isA .quoted t then .quoted t.value else .word t.value

end Piece

/-- The tokens of one definition: its name, an assignment, and alternatives with a bar in front of
each but the first. -/
structure Definition where
  less : Token
  name : Token
  greater : Token
  assign : Token
  first : List Piece
  others : List (Token × List Piece)

namespace Definition

/-- The tokens of an alternative that is not the first. -/
def behindBar (other : Token × List Piece) : List Token := other.1 :: other.2.flatMap Piece.tokens

def tokens (d : Definition) : List Token :=
  [d.less, d.name, d.greater, d.assign] ++
    (d.first.flatMap Piece.tokens ++ d.others.flatMap behindBar)

/-- The tokens are of the kinds they have to be, and no alternative is empty. -/
structure Fits (d : Definition) : Prop where
  less : isA .less d.less = true
  name : isA .ident d.name = true
  greater : isA .greater d.greater = true
  assign : isA .assign d.assign = true
  first : d.first ≠ [] ∧ ∀ p ∈ d.first, p.Fits
  others : ∀ other ∈ d.others, isA .bar other.1 = true ∧ other.2 ≠ [] ∧ ∀ p ∈ other.2, p.Fits

instance : DecidablePred Fits := fun d =>
  decidable_of_iff (isA .less d.less = true ∧ isA .ident d.name = true
      ∧ isA .greater d.greater = true ∧ isA .assign d.assign = true
      ∧ (d.first ≠ [] ∧ ∀ p ∈ d.first, p.Fits)
      ∧ ∀ other ∈ d.others, isA .bar other.1 = true ∧ other.2 ≠ [] ∧ ∀ p ∈ other.2, p.Fits)
    ⟨fun ⟨hless, hname, hgreater, hassign, hfirst, hothers⟩ =>
        ⟨hless, hname, hgreater, hassign, hfirst, hothers⟩,
      fun h => ⟨h.less, h.name, h.greater, h.assign, h.first, h.others⟩⟩

/-- The rule that is defined. -/
def rule (d : Definition) : Rule :=
  ⟨d.name.value, d.first.map Piece.item :: d.others.map fun other => other.2.map Piece.item⟩

end Definition

variable {w u rest rest' : List Token} {e : Token} {d d' : Definition} {ds ds' : List Definition}

theorem terminalOf?_of_fits {t : Token} (h : (Piece.terminal t).Fits) :
    terminalOf? t = some (Piece.terminal t).item := by
  rcases h with hident | hword | hquoted
  · simp [terminalOf?, Piece.item, hident, isA_false hident .quoted (by decide)]
  · simp [terminalOf?, Piece.item, hword, isA_false hword .quoted (by decide)]
  · simp [terminalOf?, Piece.item, hquoted, isA_false hquoted .ident (by decide),
      isA_false hquoted .word (by decide)]

/-- A piece denotes its item. -/
theorem Piece.Fits.denotes {p : Piece} (h : p.Fits) : Denotes p.tokens (.item p.item) := by
  cases p with
  | reference less name greater => exact .rule (.reference h.1 h.2.1 h.2.2)
  | terminal t => exact .terminal (terminalOf?_of_fits h)

theorem exists_piece {i : Item} (h : Denotes u (.item i)) :
    ∃ p : Piece, p.Fits ∧ p.tokens = u ∧ p.item = i := by
  cases h with
  | rule href =>
    cases href with
    | @reference less name greater hless hname hgreater =>
      exact ⟨.reference less name greater, ⟨hless, hname, hgreater⟩, rfl, rfl⟩
  | @terminal t _ hterminal =>
    obtain ⟨s, hs, ht⟩ := terminalOf?_eq_some hterminal
    have hfits : (Piece.terminal t).Fits := by
      rcases hs with rfl | rfl | rfl
      · exact .inl ht
      · exact .inr (.inl ht)
      · exact .inr (.inr ht)
    exact ⟨.terminal t, hfits, rfl,
      Option.some.inj ((terminalOf?_of_fits hfits).symm.trans hterminal)⟩

theorem denotes_items {ps : List Piece} (h : ∀ p ∈ ps, p.Fits) :
    Denotes (ps.flatMap Piece.tokens) (.items (ps.map Piece.item)) := by
  induction ps with
  | nil => exact .noItem
  | cons p ps ih =>
    exact .itemThen (h p List.mem_cons_self).denotes
      (ih fun p hp => h p (List.mem_cons_of_mem _ hp))

theorem exists_pieces {a : Alternative} (h : Denotes u (.items a)) :
    ∃ ps : List Piece, (∀ p ∈ ps, p.Fits) ∧ ps.flatMap Piece.tokens = u ∧
      ps.map Piece.item = a := by
  induction a generalizing u with
  | nil =>
    cases h
    exact ⟨[], by simp, rfl, rfl⟩
  | cons i a ih =>
    cases h with
    | itemThen hitem hitems =>
      obtain ⟨p, hp, rfl, rfl⟩ := exists_piece hitem
      obtain ⟨ps, hps, rfl, rfl⟩ := ih hitems
      exact ⟨p :: ps, List.forall_mem_cons.mpr ⟨hp, hps⟩, rfl, rfl⟩

theorem denotes_alternatives {first : List Piece} {others : List (Token × List Piece)}
    (hfirst : first ≠ [] ∧ ∀ p ∈ first, p.Fits)
    (hothers : ∀ other ∈ others, isA .bar other.1 = true ∧ other.2 ≠ [] ∧ ∀ p ∈ other.2, p.Fits) :
    Denotes (first.flatMap Piece.tokens ++ others.flatMap Definition.behindBar)
      (.alternatives (first.map Piece.item :: others.map fun other => other.2.map Piece.item)) := by
  induction others generalizing first with
  | nil =>
    rw [List.flatMap_nil, List.append_nil]
    exact .last (by simpa using hfirst.1) (denotes_items hfirst.2)
  | cons other others ih =>
    obtain ⟨hbar, hother⟩ := hothers other List.mem_cons_self
    exact .more (by simpa using hfirst.1) (denotes_items hfirst.2) hbar
      (ih hother fun other h => hothers other (List.mem_cons_of_mem _ h))

theorem exists_alternatives {as : List Alternative} (h : Denotes u (.alternatives as)) :
    ∃ (first : List Piece) (others : List (Token × List Piece)),
      (first ≠ [] ∧ ∀ p ∈ first, p.Fits) ∧
      (∀ other ∈ others, isA .bar other.1 = true ∧ other.2 ≠ [] ∧ ∀ p ∈ other.2, p.Fits) ∧
      first.flatMap Piece.tokens ++ others.flatMap Definition.behindBar = u ∧
      first.map Piece.item :: others.map (fun other => other.2.map Piece.item) = as := by
  induction as generalizing u with
  | nil => cases h
  | cons a as ih =>
    cases h with
    | last hne hitems =>
      obtain ⟨ps, hps, rfl, rfl⟩ := exists_pieces hitems
      exact ⟨ps, [], ⟨by simpa using hne, hps⟩, by simp, by simp, rfl⟩
    | @more v w' bar _ _ hne hitems hbar hothers =>
      obtain ⟨ps, hps, rfl, rfl⟩ := exists_pieces hitems
      obtain ⟨first, others, hfirst, hrest, rfl, rfl⟩ := ih hothers
      exact ⟨ps, (bar, first) :: others, ⟨by simpa using hne, hps⟩,
        List.forall_mem_cons.mpr ⟨⟨hbar, hfirst⟩, hrest⟩, rfl, rfl⟩

/-- **A definition denotes its rule.** -/
theorem Definition.Fits.denotes (h : d.Fits) : Denotes d.tokens (.definition d.rule) :=
  .definition (.reference h.less h.name h.greater) h.assign (denotes_alternatives h.first h.others)

/-- **Whatever denotes a rule is a definition.** -/
theorem exists_definition {r : Rule} (h : Denotes u (.definition r)) :
    ∃ d : Definition, d.Fits ∧ d.tokens = u ∧ d.rule = r := by
  cases h with
  | @definition _ _ assign _ _ href hassign halternatives =>
    cases href with
    | @reference less name greater hless hname hgreater =>
      obtain ⟨first, others, hfirst, hothers, rfl, rfl⟩ := exists_alternatives halternatives
      exact ⟨⟨less, name, greater, assign, first, others⟩,
        ⟨hless, hname, hgreater, hassign, hfirst, hothers⟩, rfl, rfl⟩

theorem denotes_definitions (h : ∀ d ∈ ds, d.Fits) :
    Denotes (ds.flatMap Definition.tokens) (.definitions (ds.map Definition.rule)) := by
  induction ds with
  | nil => exact .noDefinition
  | cons d ds ih =>
    exact .definitionThen (h d List.mem_cons_self).denotes
      (ih fun d hd => h d (List.mem_cons_of_mem _ hd))

theorem exists_definitions {rs : List Rule} (h : Denotes u (.definitions rs)) :
    ∃ ds : List Definition, (∀ d ∈ ds, d.Fits) ∧ ds.flatMap Definition.tokens = u ∧
      ds.map Definition.rule = rs := by
  induction rs generalizing u with
  | nil =>
    cases h
    exact ⟨[], by simp, rfl, rfl⟩
  | cons r rs ih =>
    cases h with
    | definitionThen hdef hdefs =>
      obtain ⟨d, hd, rfl, rfl⟩ := exists_definition hdef
      obtain ⟨ds, hds, rfl, rfl⟩ := ih hdefs
      exact ⟨d :: ds, List.forall_mem_cons.mpr ⟨hd, hds⟩, rfl, rfl⟩

/-! ## 2. The parts are unique -/

/-- Pieces that mean the same items have the same tokens at the start of the same tokens. -/
theorem pieces_unique {ps ps' : List Piece} (hitems : ps.map Piece.item = ps'.map Piece.item)
    (h : ps.flatMap Piece.tokens ++ rest = ps'.flatMap Piece.tokens ++ rest') :
    ps = ps' ∧ rest = rest' := by
  induction ps generalizing ps' with
  | nil =>
    obtain rfl : ps' = [] := List.map_eq_nil_iff.mp hitems.symm
    exact ⟨rfl, h⟩
  | cons p ps ih =>
    obtain ⟨p', ps', rfl, hitem, hitems'⟩ := List.map_eq_cons_iff.mp hitems.symm
    rw [List.flatMap_cons, List.flatMap_cons, List.append_assoc, List.append_assoc] at h
    have hpiece : p = p' ∧ ps.flatMap Piece.tokens ++ rest = ps'.flatMap Piece.tokens ++ rest' := by
      cases p with
      | reference less name greater =>
        cases p' with
        | reference less' name' greater' => simpa [Piece.tokens, and_assoc] using h
        | terminal t' =>
          simp only [Piece.item] at hitem
          split at hitem <;> cases hitem
      | terminal t =>
        cases p' with
        | reference less' name' greater' =>
          simp only [Piece.item] at hitem
          split at hitem <;> cases hitem
        | terminal t' => simpa [Piece.tokens] using h
    obtain ⟨rfl, htail⟩ := hpiece
    obtain ⟨rfl, hrest⟩ := ih hitems'.symm htail
    exact ⟨rfl, hrest⟩

theorem alternatives_unique {others others' : List (Token × List Piece)}
    (hitems : others.map (fun other => other.2.map Piece.item)
      = others'.map (fun other => other.2.map Piece.item))
    (h : others.flatMap Definition.behindBar ++ rest
      = others'.flatMap Definition.behindBar ++ rest') :
    others = others' ∧ rest = rest' := by
  induction others generalizing others' with
  | nil =>
    obtain rfl : others' = [] := List.map_eq_nil_iff.mp hitems.symm
    exact ⟨rfl, h⟩
  | cons other others ih =>
    obtain ⟨other', others', rfl, hitem, hitems'⟩ := List.map_eq_cons_iff.mp hitems.symm
    simp only [List.flatMap_cons, Definition.behindBar, List.cons_append, List.append_assoc,
      List.cons.injEq] at h
    obtain ⟨hpieces, htail⟩ := pieces_unique hitem.symm h.2
    obtain ⟨rfl, hrest⟩ := ih hitems'.symm htail
    exact ⟨by rw [Prod.ext h.1 hpieces], hrest⟩

/-- **The rule of a definition tells how many tokens each part has.** -/
theorem definition_unique (hrule : d.rule = d'.rule) (h : d.tokens ++ rest = d'.tokens ++ rest') :
    d = d' ∧ rest = rest' := by
  obtain ⟨less, name, greater, assign, first, others⟩ := d
  obtain ⟨less', name', greater', assign', first', others'⟩ := d'
  simp only [Definition.rule, Rule.mk.injEq, List.cons.injEq] at hrule
  obtain ⟨-, hfirst, hothers⟩ := hrule
  simp only [Definition.tokens, List.cons_append, List.nil_append, List.append_assoc,
    List.cons.injEq] at h
  obtain ⟨rfl, rfl, rfl, rfl, htail⟩ := h
  obtain ⟨rfl, htail'⟩ := pieces_unique hfirst htail
  obtain ⟨rfl, hrest⟩ := alternatives_unique hothers htail'
  exact ⟨rfl, hrest⟩

/-- **Tokens fall apart into definitions in one way.** -/
theorem definitions_unique (h : ∀ d ∈ ds, d.Fits) (h' : ∀ d ∈ ds', d.Fits)
    (heq : ds.flatMap Definition.tokens = ds'.flatMap Definition.tokens) : ds = ds' := by
  have hrules : ds.map Definition.rule = ds'.map Definition.rule := by
    have hread := takeDefinitions_complete (e := .eof) (denotes_definitions h)
    rw [heq, takeDefinitions_complete (denotes_definitions h')] at hread
    exact (Except.ok.inj hread).symm
  clear h h'
  induction ds generalizing ds' with
  | nil => exact (List.map_eq_nil_iff.mp hrules.symm).symm
  | cons d ds ih =>
    obtain ⟨d', ds', rfl, hrule, hrules'⟩ := List.map_eq_cons_iff.mp hrules.symm
    obtain ⟨rfl, htail⟩ := definition_unique hrule.symm heq
    rw [ih htail hrules'.symm]

/-! ## 3. Definitions of one name -/

namespace Grammar

/-- The rule that the definitions of a name make up: all their alternatives, in order. -/
def definedAs (rs : List Rule) (name : String) : Rule :=
  ⟨name, (rs.filter (·.name == name)).flatMap (·.alternatives)⟩

/-- One rule for each name, in the order of the first definitions. -/
def gathered (rs : List Rule) : Grammar :=
  ⟨(rs.map (·.name)).eraseDups.map (definedAs rs)⟩

theorem definedAs_append (rs : List Rule) (r : Rule) (name : String) :
    definedAs (rs ++ [r]) name = ⟨name, (definedAs rs name).alternatives
      ++ if r.name = name then r.alternatives else []⟩ := by
  by_cases h : r.name = name <;> simp [definedAs, h]

theorem eraseDups_append_singleton (names : List String) (name : String) :
    (names ++ [name]).eraseDups
      = if name ∈ names then names.eraseDups else names.eraseDups ++ [name] := by
  by_cases h : name ∈ names <;> simp [List.eraseDups_append, List.removeAll, List.eraseDups_cons, h]

theorem nodup_eraseDups (names : List String) : names.eraseDups.Nodup := by
  induction names using List.reverseRecOn with
  | nil => simp
  | append_singleton names name ih =>
    rw [eraseDups_append_singleton]
    split
    · exact ih
    next h => simpa [List.nodup_append, ih] using fun a ha (heq : a = name) => h (heq ▸ ha)

/-- A definition of a known name goes behind the alternatives that the rule already has. -/
theorem addTo_definedAs {rs : List Rule} {r : Rule} {names : List String} (hnodup : names.Nodup)
    (h : r.name ∈ names) :
    addTo r (names.map (definedAs rs)) = names.map (definedAs (rs ++ [r])) := by
  induction names with
  | nil => cases h
  | cons name names ih =>
    rw [List.map_cons, addTo, List.map_cons]
    obtain ⟨hnew, hnodup'⟩ := List.nodup_cons.mp hnodup
    by_cases hname : r.name = name
    · have hothers : names.map (definedAs rs) = names.map (definedAs (rs ++ [r])) := by
        refine List.map_congr_left fun n hn => ?_
        have hne : r.name ≠ n := fun heq => hnew (hname ▸ heq ▸ hn)
        rw [definedAs_append, if_neg hne, List.append_nil]
        rfl
      rw [if_pos (by simp [definedAs, hname]), definedAs_append, if_pos hname, hothers]
      rfl
    · have hmem : r.name ∈ names := (List.mem_cons.mp h).resolve_left hname
      rw [if_neg (by simpa [definedAs] using Ne.symm hname), ih hnodup' hmem, definedAs_append,
        if_neg hname, List.append_nil]
      rfl

/-- What one more definition does to the rules gathered so far. -/
theorem gathered_append (rs : List Rule) (r : Rule) :
    (gathered (rs ++ [r])).rules = addTo r (gathered rs).rules := by
  simp only [gathered, List.map_append, List.map_cons, List.map_nil, eraseDups_append_singleton]
  split
  next h => exact (addTo_definedAs (nodup_eraseDups _) (List.mem_eraseDups.mpr h)).symm
  next h =>
    have hnone : rs.filter (·.name == r.name) = [] := by
      simpa [List.filter_eq_nil_iff] using h
    have hnames : ((rs.map (·.name)).eraseDups.map (definedAs rs)).map (·.name)
        = (rs.map (·.name)).eraseDups := by
      simp [definedAs, Function.comp_def]
    rw [addTo_new (by rwa [hnames, List.mem_eraseDups]), List.map_append]
    congr 1
    · refine List.map_congr_left fun n hn => ?_
      have hne : r.name ≠ n := fun heq => h (heq ▸ List.mem_eraseDups.mp hn)
      rw [definedAs_append, if_neg hne, List.append_nil]
      rfl
    · simp [definedAs, hnone]

/-- **Definitions make up rules by their names.** -/
theorem ofDefinitions_eq_gathered (rs : List Rule) : ofDefinitions rs = gathered rs := by
  induction rs using List.reverseRecOn with
  | nil => rfl
  | append_singleton rs r ih =>
    have hrules := gathered_append rs r
    rw [← ih] at hrules
    rw [ofDefinitions, List.foldl_append, List.foldl_cons, List.foldl_nil]
    exact congrArg Grammar.mk hrules.symm

end Grammar

/-! ## 4. Errors -/

/-- The error is about a token that can not stand where it stands. -/
def RulesError.IsSyntax : RulesError → Prop
  | .read (.misplaced _) => True
  | .emptyAlternative _ => True
  | _ => False

variable {x : RulesError}

theorem map_eq_error {ε α β : Type} {x : Except ε α} {f : α → β} {e : ε}
    (h : x.map f = .error e) : x = .error e := by
  cases x with
  | error e' => exact congrArg Except.error (Except.error.inj h)
  | ok a => cases h

theorem takeKind_error {s : Symbol} (h : takeKind (.ok e) s w = .error x) : x.IsSyntax := by
  cases w with
  | nil =>
    cases h
    trivial
  | cons t w =>
    simp only [takeKind] at h
    split at h <;> cases h
    trivial

theorem takeReference_error (h : takeReference (.ok e) w = .error x) : x.IsSyntax := by
  unfold takeReference at h
  split at h
  next hless =>
    cases h
    exact takeKind_error hless
  split at h
  next hname =>
    cases h
    exact takeKind_error hname
  split at h
  next hgreater =>
    cases h
    exact takeKind_error hgreater
  cases h

theorem takeItems_error (h : takeItems (.ok e) w = .error x) : x.IsSyntax := by
  generalize hending : (Except.ok e : Step) = ending at h
  fun_induction takeItems ending w with
  | case1 =>
    subst hending
    cases h
  | case2 => cases h
  | case3 _ _ _ _ _ ih => exact ih (map_eq_error h)
  | case4 _ _ _ _ _ _ href =>
    cases h
    subst hending
    exact takeReference_error href
  | case5 _ _ _ _ _ _ _ _ ih => exact ih (map_eq_error h)
  | case6 =>
    cases h
    trivial

theorem takeAlternative_error (h : takeAlternative (.ok e) w = .error x) : x.IsSyntax := by
  unfold takeAlternative at h
  split at h
  next hitems =>
    cases h
    exact takeItems_error hitems
  next rest _ =>
    -- the token that stands in the place of the first item is there, at least as the end
    cases rest <;> cases h <;> trivial
  next => cases h

theorem takeAlternatives_error (h : takeAlternatives (.ok e) w = .error x) : x.IsSyntax := by
  generalize hending : (Except.ok e : Step) = ending at h
  fun_induction takeAlternatives ending w with
  | case1 _ _ hfirst =>
    cases h
    subst hending
    exact takeAlternative_error hfirst
  | case2 => cases h
  | case3 _ _ _ _ _ _ _ ih => exact ih (map_eq_error h)
  | case4 => cases h

theorem takeDefinition_error (h : takeDefinition (.ok e) w = .error x) : x.IsSyntax := by
  unfold takeDefinition at h
  split at h
  next href =>
    cases h
    exact takeReference_error href
  split at h
  next hassign =>
    cases h
    exact takeKind_error hassign
  exact takeAlternatives_error (map_eq_error h)

theorem takeDefinitions_error (h : takeDefinitions (.ok e) w = .error x) : x.IsSyntax := by
  generalize hending : (Except.ok e : Step) = ending at h
  fun_induction takeDefinitions ending w with
  | case1 =>
    subst hending
    cases h
  | case2 _ _ _ hdef =>
    cases h
    subst hending
    exact takeDefinition_error hdef
  | case3 _ _ _ _ _ ih => exact ih (map_eq_error h)

/-- Tokens are rejected as a grammar without rules if there are none, and for their syntax
otherwise. -/
theorem parseTokens_error (h : parseTokens (.ok e) w = .error x) :
    (w = [] ∧ x = .noRule) ∨ (w ≠ [] ∧ x.IsSyntax) := by
  unfold parseTokens at h
  split at h
  next herror =>
    cases h
    refine .inr ⟨?_, takeDefinitions_error herror⟩
    rintro rfl
    rw [takeDefinitions] at herror
    cases herror
  next hnone =>
    cases h
    obtain ⟨hdenotes, -⟩ := takeDefinitions_sound hnone
    cases hdenotes
    exact .inl ⟨rfl, rfl⟩
  next => cases h

/-- **The parser reads exactly the lists of definitions, and loses no alternative.**  Tokens are
read if and only if they fall apart into definitions, at least one; they do so in one way only, and
the grammar has one rule for each name, with all alternatives in order.  Other tokens are rejected,
none at all as a grammar without rules and the rest for their syntax, and nothing is read from an
input that fails before its end. -/
theorem parse_exactly_definitions (w : List Token) :
    (∀ e g, parseTokens (.ok e) w = .ok g ↔
      ∃ ds : List Definition, ds ≠ [] ∧ (∀ d ∈ ds, d.Fits) ∧ w = ds.flatMap Definition.tokens ∧
        g = Grammar.gathered (ds.map Definition.rule)) ∧
    (∀ ds ds' : List Definition, (∀ d ∈ ds, d.Fits) → (∀ d ∈ ds', d.Fits) →
      w = ds.flatMap Definition.tokens → w = ds'.flatMap Definition.tokens → ds = ds') ∧
    (∀ e, parseTokens (.ok e) [] = .error .noRule) ∧
    (∀ e, w ≠ [] →
      (¬∃ ds : List Definition, (∀ d ∈ ds, d.Fits) ∧ w = ds.flatMap Definition.tokens) →
      ∃ x, parseTokens (.ok e) w = .error x ∧ x.IsSyntax) ∧
    (∀ f, ∃ x, parseTokens (.error f) w = .error x) := by
  have hiff : ∀ e g, parseTokens (.ok e) w = .ok g ↔
      ∃ ds : List Definition, ds ≠ [] ∧ (∀ d ∈ ds, d.Fits) ∧ w = ds.flatMap Definition.tokens ∧
        g = Grammar.gathered (ds.map Definition.rule) := by
    intro e g
    constructor
    · intro h
      obtain ⟨rs, hne, hdenotes, -, rfl⟩ := parseTokens_sound h
      obtain ⟨ds, hds, rfl, rfl⟩ := exists_definitions hdenotes
      exact ⟨ds, by simpa using hne, hds, rfl, Grammar.ofDefinitions_eq_gathered _⟩
    · rintro ⟨ds, hne, hds, rfl, rfl⟩
      rw [parseTokens_complete (by simpa using hne) (denotes_definitions hds),
        Grammar.ofDefinitions_eq_gathered]
  refine ⟨hiff, fun ds ds' h h' hw hw' => definitions_unique h h' (hw ▸ hw'), ?_, ?_, ?_⟩
  · intro e
    simp [parseTokens, takeDefinitions, nextOf, Except.map]
  · intro e hne hnone
    cases hread : parseTokens (.ok e) w with
    | ok g =>
      obtain ⟨ds, -, hds, hw, -⟩ := (hiff e g).mp hread
      exact absurd ⟨ds, hds, hw⟩ hnone
    | error x =>
      rcases parseTokens_error hread with ⟨hnil, -⟩ | ⟨-, hx⟩
      · exact absurd hnil hne
      · exact ⟨x, rfl, hx⟩
  · intro f
    cases hread : parseTokens (.error f) w with
    | ok g =>
      obtain ⟨rs, -, -, ⟨e, hend⟩, -⟩ := parseTokens_sound hread
      cases hend
    | error x => exact ⟨x, rfl⟩

/-- `<a> ::= <b> <b> ::= x <a> ::= 'y' | z`; the reference to `b` ends the first definition. -/
def threeDefinitions : List Definition :=
  let token (s : Symbol) (value : String) : Token := ⟨s.kind, value, .nowhere⟩
  let less := token .less "<"
  let greater := token .greater ">"
  let assign := token .assign "::="
  let a := token .ident "a"
  let b := token .ident "b"
  [⟨less, a, greater, assign, [.reference less b greater], []⟩,
    ⟨less, b, greater, assign, [.terminal (token .ident "x")], []⟩,
    ⟨less, a, greater, assign, [.terminal (token .quoted "y")],
      [(token .bar "|", [.terminal (token .ident "z")])]⟩]

/-- **The tokens of `threeDefinitions` are read as two rules**; without the last token they end
behind a bar and are rejected. -/
theorem parse_exactly_definitions_threeDefinitions :
    parseTokens (.ok .eof) (threeDefinitions.flatMap Definition.tokens)
        = .ok ⟨[⟨"a", [[.rule "b"], [.quoted "y"], [.word "z"]]⟩, ⟨"b", [[.word "x"]]⟩]⟩ ∧
      ∃ x, parseTokens (.ok .eof) (threeDefinitions.flatMap Definition.tokens).dropLast = .error x
        ∧ x.IsSyntax := by
  refine ⟨((parse_exactly_definitions _).1 .eof _).mpr
    ⟨threeDefinitions, by decide, by decide, rfl, by decide⟩, ?_⟩
  refine (parse_exactly_definitions _).2.2.2.1 .eof (by decide) ?_
  rintro ⟨ds, hds, hw⟩
  have hne : ds ≠ [] := by
    rintro rfl
    revert hw
    decide
  have hread := ((parse_exactly_definitions _).1 .eof _).mpr ⟨ds, hne, hds, hw, rfl⟩
  have hrejected : (parseTokens (.ok .eof)
      (threeDefinitions.flatMap Definition.tokens).dropLast).isOk = false := by decide +kernel
  rw [hread] at hrejected
  cases hrejected

end Formulary.Rules
