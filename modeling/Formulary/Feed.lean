import Formulary.Reader

/-!
# Token feeds

A feed (`Tokenizer`) answers the question for the next token again and again, each time with a token
or with a failure.  It has finitely many answers of its own; once they are given, the last one is
repeated.  A scanner is such a feed: it either moves on in its source or has stopped for good, at
the end of the source or at a character it cannot pass.
-/

namespace Formulary

/-- One answer of a feed. -/
abbrev Step := Except Failure Token

structure Feed where
  /-- The answers still to be given. -/
  steps : List Step
  /-- What is answered ever after. -/
  final : Step

namespace Feed

/-- The next answer, and the feed after it (`Next`). -/
def next (f : Feed) : Step × Feed :=
  match f.steps with
  | [] => (f.final, f)
  | s :: rest => (s, { f with steps := rest })

/-- The given answers, then the end of the input (`Tokens`). -/
def ofSteps (steps : List Step) : Feed := ⟨steps, .ok .eof⟩

/-- The answers of a scanner from the reader `r` on.  `scan` gives one answer and the reader after
it; an answer that leaves nothing less to read is repeated for ever. -/
def ofScanner (scan : Reader → Step × Reader) (r : Reader) : Feed :=
  let answer := scan r
  if _h : answer.2.rest.length < r.rest.length then
    let feed := ofScanner scan answer.2
    { feed with steps := answer.1 :: feed.steps }
  else ⟨[], answer.1⟩
termination_by r.rest.length

/-- The tokens before the end of the input or the first failure, and the answer that ends them. -/
def untilEndFrom (final : Step) : List Step → List Token × Step
  | [] => ([], final)
  | .error e :: _ => ([], .error e)
  | .ok t :: rest =>
    if t.isEOF then ([], .ok t)
    else
      let (tokens, ending) := untilEndFrom final rest
      (t :: tokens, ending)

def untilEnd (f : Feed) : List Token × Step := untilEndFrom f.final f.steps

/-- The tokens up to the end of the input or the first failure, and that failure (`Collect`). -/
def collect (f : Feed) : List Token × Option Failure :=
  match f.untilEnd with
  | (tokens, .ok _) => (tokens, none)
  | (tokens, .error e) => (tokens, some e)

end Feed

end Formulary
