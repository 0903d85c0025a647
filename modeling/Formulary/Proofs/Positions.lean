import Formulary.Proofs.Arith.Lexemes
import Formulary.Proofs.Rules.Lexemes

/-!
# Positions in formulas and in grammars

Both scanners count the offset, the line and the column while they read, and both count right,
whatever the bytes are and however often they are asked.  The scanners share how they read and where
blanks may stand (`Feed.Exact`), and differ in what their tokens are made of: the text of a token of
a formula is the bytes at its place, that of a grammar the characters there, once quotes are taken
off. -/

namespace Formulary

open Text.Source (ofBytes)

variable {bytes lexeme : List Nat} {o n : Nat}

/-- As many bytes as were found are found again. -/
theorem slice_length (h : lexeme = slice bytes o n) : slice bytes o lexeme.length = lexeme := by
  rw [h]
  exact (List.prefix_iff_eq_take.mp (List.take_prefix n (bytes.drop o))).symm

/-- **Positions are exact in both scanners.**  For any bytes, those included that belong to no
character, and any number of calls, those included that follow a failure: each answer is a token,
the end of the input or an error with the position of a place between two characters, counted from
the bytes before it; no answer goes back, a token passes a character at least, and the end of the
input stands behind all bytes and is answered for good (`Feed.Exact`).  The bytes of a token of a
formula stand at its place, and between two tokens in a row there are only blanks. -/
theorem positions_exact (bytes : List Nat) :
    (∃ offset, Feed.Exact (fun t lexeme => Arith.bytesOf t.value = lexeme) bytes
        (Arith.feed (ofBytes bytes)) offset ∧
      ∀ i t, (Arith.feed (ofBytes bytes)).answer i = .ok t →
        slice bytes (offset i) (Arith.bytesOf t.value).length = Arith.bytesOf t.value) ∧
    ∃ offset, Feed.Exact (fun t lexeme => Rules.Lexeme t (ofBytes lexeme)) bytes
      (Rules.feed (ofBytes bytes)) offset := by
  refine ⟨?_, Rules.feed_exact bytes⟩
  obtain ⟨offset, hexact⟩ := Arith.feed_exact bytes
  refine ⟨offset, hexact, fun i t ht => ?_⟩
  cases hend : t.isEOF with
  | true =>
    obtain ⟨-, rfl, -⟩ := hexact.eof i t ht hend
    rfl
  | false =>
    obtain ⟨n, -, -, -, hlexeme, -⟩ := hexact.token i t ht hend
    exact slice_length hlexeme

end Formulary
