import Formulary.Proofs.Arith.Spacing
import Formulary.Proofs.Rules.Spacing

/-!
# Blanks in formulas and in grammars

What is written between the tokens of a formula or a grammar is for the reader: as long as a text
can be scanned, its blanks can be changed in any way that leaves apart what was apart.  Both
scanners cut at blanks wherever they cut at all, each for reasons of its own (`Arith.steady`,
`Rules.steady`); the rest is common to them (`Steady.respaceable`). -/

namespace Formulary

open Text.Source (ofBytes)

/-- **Blanks never change the tokens.**  For any bytes that are scanned without an error, as a
formula or as a grammar:

* there is a place for blanks before the first token, between any two tokens in a row and behind the
  last one, and it reaches up to where the next token stands;
* any blanks can be put there, but that some have to stay between tokens that were apart; the text
  is then scanned without an error and has tokens of the same kinds and with the same texts, and so
  it goes on for any number of such changes (`Respaceable`).

The texts of the tokens of a formula with a single space between them make up such a formula too. -/
theorem blanks_never_change_tokens (bytes : List Nat) :
    (∀ tokens, (Arith.feed (ofBytes bytes)).collect = (tokens, none) →
      Respaceable Arith.scan bytes tokens ∧
      ∃ tokens', (Arith.feed (.ofString (" ".intercalate (tokens.map (·.value))))).collect
          = (tokens', none) ∧
        tokens'.map Token.content = tokens.map Token.content) ∧
    ∀ tokens, (Rules.feed (ofBytes bytes)).collect = (tokens, none) →
      Respaceable Rules.scan bytes tokens := by
  constructor
  · intro tokens hcollect
    exact ⟨Arith.steady.respaceable hcollect, Arith.collect_joined hcollect⟩
  · intro tokens hcollect
    exact Rules.steady.respaceable hcollect

/-- Where `1.2` and `.3` touch, any blanks can be put; but between `1.2` and `3` some have to
stay. -/
example : let texts := fun s => (Arith.feed (.ofString s)).collect.1.map (·.value)
    texts "1.2.3" = ["1.2", ".3"] ∧ texts " 1.2\t\n .3\r" = ["1.2", ".3"] ∧
      texts "1.2 3" = ["1.2", "3"] ∧ texts "1.23" = ["1.23"] := by cbv

end Formulary
