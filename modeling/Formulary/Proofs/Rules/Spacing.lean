import Formulary.Proofs.Rules.Lexemes
import Formulary.Proofs.Spacing

/-!
# Blanks in grammars

A name and a word go on for as long as their characters do, and no blank is one of them.  An
assignment, a sign and a quoted text end with a character of their own: for them it does not matter
at all what comes next (`steady`). -/

namespace Formulary.Rules

open Reader (Stops)
open Text (Source isBlank)

variable {r r' r₁ : Reader} {t : Token} {c : Char} {cs rest rest' : List Char}

theorem not_isNameChar_blank (h : isBlank c = true) : isNameChar c = false := by
  simp only [isBlank, Bool.or_eq_true, beq_iff_eq] at h
  obtain ((rfl | rfl) | rfl) | rfl := h <;> decide +kernel

theorem not_isWordChar_blank (h : isBlank c = true) : isWordChar c = false := by
  by_contra hword
  rw [Bool.not_eq_false] at hword
  rw [(word_char hword).2.2.2] at h
  cases h

/-! ## 1. Tokens that end with a character of their own -/

theorem scanAssign_again (h : scanAssign r = (.ok t, r₁)) (hr : r.chars = cs ++ r₁.chars)
    (hr' : r'.chars = cs ++ rest') :
    ∃ r₁', scanAssign r' = (.ok ⟨t.kind, t.value, r'.pos⟩, r₁') ∧ r₁'.chars = rest' := by
  unfold scanAssign at h
  rcases scanExactly_reads [':', ':', '='] r with
    ⟨r₂, heq, taken, hgoes, htaken⟩ | ⟨r₂, passed, heq, -⟩
  · rw [heq] at h
    cases h
    have hchars := hgoes.chars
    rw [htaken] at hchars
    obtain rfl := List.append_cancel_right (hr.symm.trans hchars)
    obtain ⟨r₁', heq', hr₁'⟩ := scanExactly_append hr'
    exact ⟨r₁', by rw [scanAssign, heq'], hr₁'⟩
  · rw [heq] at h
    cases h

theorem scanQuoted_again (h : scanQuoted r = (.ok t, r₁)) (hr : r.chars = c :: cs ++ r₁.chars)
    (hr' : r'.chars = c :: cs ++ rest') :
    ∃ r₁', scanQuoted r' = (.ok ⟨t.kind, t.value, r'.pos⟩, r₁') ∧ r₁'.chars = rest' := by
  simp only [scanQuoted] at h ⊢
  rcases quotedText_taken r.advance.rest with
    ⟨taken, text, after, body, heq, hafter, hchars, hquotes⟩ | heq
  · rw [heq] at h
    cases h
    have hinside : r.advance.chars = taken.chars ++ Source.chars after := by
      rw [Reader.chars, hafter, Source.chars, List.map_append]
      rfl
    rw [Reader.chars_advance hr] at hinside
    obtain rfl := List.append_cancel_right hinside
    have hs : r'.advance.chars = body ++ '\x27' :: rest' := by
      have hadvance := Reader.chars_advance hr'
      rw [hchars] at hadvance
      simpa using hadvance
    obtain ⟨taken', after', heq', hafter'⟩ := quotedText_of_quotes hquotes hs
    rw [heq']
    exact ⟨_, rfl, hafter'⟩
  · rw [heq] at h
    cases h

/-! ## 2. All tokens -/

theorem scanRun_again {s : Symbol} {p : Char → Bool} (h : scanRun s p r = (.ok t, r₁))
    (hr : r.chars = cs ++ r₁.chars) (hr' : r'.chars = cs ++ rest')
    (hp : ∀ c, isBlank c = true → p c = false) (hstops : StopsToo r₁.chars rest') :
    ∃ r₁', scanRun s p r' = (.ok ⟨t.kind, t.value, r'.pos⟩, r₁') ∧ r₁'.chars = rest' := by
  obtain ⟨hchars, hall, hend⟩ := r.takeWhile_splits p
  simp only [scanRun] at h ⊢
  cases h
  obtain rfl := List.append_cancel_right (hr.symm.trans hchars)
  obtain ⟨r₁', htake, hr₁'⟩ := r'.takeWhile_append hr' hall (hstops p hp hend)
  exact ⟨r₁', by rw [htake], hr₁'⟩

/-- **The scanner takes the same characters for the same token.** -/
theorem scanToken_again (h : scanToken r = (.ok t, r₁)) (hr : r.chars = c :: cs ++ r₁.chars)
    (hr' : r'.chars = c :: cs ++ rest') (hstops : StopsToo r₁.chars rest') :
    ∃ r₁', scanToken r' = (.ok ⟨t.kind, t.value, r'.pos⟩, r₁') ∧ r₁'.chars = rest' := by
  unfold scanToken at h ⊢
  rw [Reader.peek_cons hr] at h
  rw [Reader.peek_cons hr']
  dsimp only at h ⊢
  split at h
  next hcolon =>
    rw [if_pos hcolon]
    exact scanAssign_again h hr hr'
  next hcolon =>
    rw [if_neg hcolon]
    split at h
    next s hs =>
      cases h
      obtain rfl : cs = [] := List.self_eq_append_left.mp (Reader.chars_advance hr)
      exact ⟨r'.advance, rfl, Reader.chars_advance hr'⟩
    next =>
      split at h
      next hquote =>
        rw [if_pos hquote]
        exact scanQuoted_again h hr hr'
      next hquote =>
        rw [if_neg hquote]
        split at h
        next hletter =>
          rw [if_pos hletter]
          exact scanRun_again h hr hr' (fun _ => not_isNameChar_blank) hstops
        next hletter =>
          rw [if_neg hletter]
          split at h
          next hword =>
            rw [if_pos hword]
            exact scanRun_again h hr hr' (fun _ => not_isWordChar_blank) hstops
          next => cases h

theorem steady : Steady Lexeme scan scanToken where
  skips := fun _ => rfl
  eof := fun r hr => by simp only [scanToken, hr]
  taken := scanToken_taken
  again := fun h _ hr hr' hstops => scanToken_again h hr hr' hstops

end Formulary.Rules
