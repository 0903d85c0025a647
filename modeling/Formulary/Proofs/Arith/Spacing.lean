import Formulary.Proofs.Arith.Lexemes
import Formulary.Proofs.Spacing

/-!
# Blanks in formulas

No token of a formula goes on with a blank, so the scanner cuts before a blank wherever it cuts
(`steady`).  Numbers are what there is to prove.  Once a number is scanned to its end, it depends on
one character whether it ends there (`NumberAt.stopsToo`), and a literal that ends can not be
scanned in another way (`scanNumber_again`).  As the lexeme of a token is its text, a formula can be
written anew as the texts of its tokens with a space between them (`collect_joined`). -/

namespace Formulary.Arith

open Reader (Stops)
open Text (Source isBlank)

variable {r r' r₁ : Reader} {t : Token} {c : Char} {m cs rest rest' lexeme : List Char}

/-! ## 1. Numbers and names -/

theorem not_isDigit_blank (h : isBlank c = true) : isDigit c = false := by
  by_contra hdigit
  rw [Bool.not_eq_false] at hdigit
  have hident : isIdentChar c = true := by simp [isIdentChar, hdigit]
  rw [not_blank_of_isIdentChar hident] at h
  cases h

theorem not_isIdentChar_blank (h : isBlank c = true) : isIdentChar c = false := by
  by_contra hident
  rw [Bool.not_eq_false] at hident
  rw [not_blank_of_isIdentChar hident] at h
  cases h

theorem not_isMark_blank (h : isBlank c = true) : isMark c = false := by
  by_contra hmark
  rw [Bool.not_eq_false] at hmark
  rcases isMark_iff.mp hmark with rfl | rfl <;> cases h

theorem not_point_blank (h : isBlank c = true) : (c == '.') = false := by
  rw [beq_eq_false_iff_ne]
  rintro rfl
  cases h

theorem MantissaAt.stopsToo (h : MantissaAt m rest) (hstops : StopsToo rest rest') :
    MantissaAt m rest' := by
  cases h with
  | whole hds hdigit hpoint =>
    exact .whole hds (hstops _ (fun _ => not_isDigit_blank) hdigit)
      (hstops _ (fun _ => not_point_blank) hpoint)
  | point hds hfs hdigit => exact .point hds hfs (hstops _ (fun _ => not_isDigit_blank) hdigit)

/-- **A number ends where a blank comes next**, if it ends at all there. -/
theorem NumberAt.stopsToo (h : NumberAt cs rest) (hstops : StopsToo rest rest') :
    NumberAt cs rest' := by
  cases h with
  | plain hm hat hmark =>
    exact .plain hm (hat.stopsToo hstops) (hstops _ (fun _ => not_isMark_blank) hmark)
  | exponent hm hat hmark hsigned hne hds hdigit =>
    have hsigned' : Signed _ (_ ++ rest') := .of_digits hsigned.mem hne hds
    exact .exponent hm (hat.stopsToo (.of_head _ _ _)) hmark hsigned' hne hds
      (hstops _ (fun _ => not_isDigit_blank) hdigit)

theorem scanIdent_ends (r : Reader) :
    ∃ name r', scanIdent r = (.ok ⟨Symbol.ident.kind, String.ofList name, r.pos⟩, r') ∧
      r.chars = name ++ r'.chars ∧ (∀ c ∈ name, isIdentChar c = true) ∧
      Stops isIdentChar r'.chars :=
  ⟨_, _, rfl, r.takeWhile_splits isIdentChar⟩

/-! ## 2. All tokens -/

/-- **The scanner takes the same characters for the same token.** -/
theorem scanToken_again (h : scanToken r = (.ok t, r₁)) (hr : r.chars = c :: cs ++ r₁.chars)
    (hr' : r'.chars = c :: cs ++ rest') (hstops : StopsToo r₁.chars rest') :
    ∃ r₁', scanToken r' = (.ok ⟨t.kind, t.value, r'.pos⟩, r₁') ∧ r₁'.chars = rest' := by
  unfold scanToken at h ⊢
  rw [Reader.peek_cons hr] at h
  rw [Reader.peek_cons hr']
  dsimp only at h ⊢
  split at h
  next hnumber =>
    have hc : isDigit c = true ∨ c = '.' := by simpa using hnumber
    rw [if_pos hnumber]
    rcases scanNumber_ends hr hc with ⟨lexeme, r₂, heq, hchars, hat⟩ | ⟨⟨e, r₂, heq⟩, -⟩
    · obtain ⟨ht, rfl⟩ := Prod.mk.inj (heq.symm.trans h)
      obtain rfl := Except.ok.inj ht
      obtain rfl := List.append_cancel_right (hr.symm.trans hchars)
      exact scanNumber_again (hat.stopsToo hstops) hr'
    · rw [heq] at h
      cases h
  next hnumber =>
    rw [if_neg hnumber]
    split at h
    next hletter =>
      rw [if_pos hletter]
      obtain ⟨name, r₂, heq, hchars, hname, hend⟩ := scanIdent_ends r
      obtain ⟨ht, rfl⟩ := Prod.mk.inj (heq.symm.trans h)
      obtain rfl := Except.ok.inj ht
      obtain rfl := List.append_cancel_right (hr.symm.trans hchars)
      exact scanIdent_again hname (hstops _ (fun _ => not_isIdentChar_blank) hend) hr'
    next hletter =>
      rw [if_neg hletter]
      split at h
      next s hs =>
        cases h
        obtain rfl : cs = [] := List.self_eq_append_left.mp (Reader.chars_advance hr)
        exact ⟨r'.advance, rfl, Reader.chars_advance hr'⟩
      next => cases h

theorem steady : Steady Lexeme scan scanToken where
  skips := fun _ => rfl
  eof := fun r hr => by simp only [scanToken, hr]
  taken := scanToken_taken
  again := fun h _ hr hr' hstops => scanToken_again h hr hr' hstops

/-! ## 3. Texts with a space between them -/

/-- The texts of the tokens with a space in front of each. -/
def spaced (w : List Token) : List Char := w.flatMap fun t => ' ' :: t.value.toList

/-- Each text but the first has its space already. -/
theorem toList_joined (tokens : List Token) :
    (" ".intercalate (tokens.map (·.value))).toList = (spaced tokens).tail := by
  cases tokens with
  | nil => rfl
  | cons t w =>
    induction w generalizing t with
    | nil => simp [spaced]
    | cons u w ih =>
      have hrest := ih u
      rw [List.map_cons] at hrest
      rw [List.map_cons, List.map_cons, String.intercalate_cons_cons, String.toList_append,
        String.toList_append, hrest]
      simp [spaced]

/-- A space stops everything. -/
theorem stopsToo_spaced (rest : List Char) (w : List Token) : StopsToo rest (spaced w) := by
  cases w with
  | nil => exact .nil rest
  | cons t w => exact .of_blank rfl _

/-- **A token can be written as its text.** -/
theorem gives_text {r r' : Reader} {t : Token} (h : scan r = (.ok t, r')) (ht : t.isEOF = false) :
    Gives scan t t.value.toList r'.chars := by
  obtain ⟨lexeme, ⟨hvalue, -⟩, -, -, hgives⟩ := steady.exists_lexeme h ht
  rw [hvalue, String.toList_ofList]
  exact hgives

theorem laid_spaced {r : Reader} {w : List Token} (h : Feed.Collects scan r w) :
    Laid scan w (spaced w) := by
  induction h with
  | nil => exact .nil .nil
  | cons hscan ht _ ih =>
    have hspace : Blanks [' '] := Text.isBlank_single rfl
    exact .cons hspace ht (gives_text hscan ht) (stopsToo_spaced _ _) ih

/-- **The texts of the tokens, joined by single spaces, are scanned as the same tokens.** -/
theorem collect_joined {s : Source} {tokens : List Token}
    (h : (feed s).collect = (tokens, none)) :
    ∃ tokens', (feed (.ofString (" ".intercalate (tokens.map (·.value))))).collect
        = (tokens', none) ∧
      tokens'.map Token.content = tokens.map Token.content := by
  have hcollects := (Feed.collect_ofScanner advances_scan).mp h
  have hlaid : Laid scan tokens (spaced tokens).tail := by
    cases hcollects with
    | nil => exact .nil .nil
    | cons hscan ht hcollects =>
      exact .cons .nil ht (gives_text hscan ht) (stopsToo_spaced _ _)
        (laid_spaced hcollects)
  obtain ⟨tokens', hcollects', hcontents⟩ :=
    steady.collects_of_laid hlaid ((Reader.chars_ofString _).trans (toList_joined tokens))
  exact ⟨tokens', (Feed.collect_ofScanner advances_scan).mpr hcollects', hcontents⟩

end Formulary.Arith
