import Formulary.Feed

/-!
# The cursor

A cursor (`Parser`) stands before the next token of a feed and may look ahead of it.  Tokens that
were looked at and not consumed wait in a buffer; the end of the input, once met, is remembered, and
the feed is not asked again.
-/

namespace Formulary

structure Cursor where
  feed : Feed
  /-- Tokens fetched and not consumed. -/
  buffer : List Token
  /-- The last token consumed that was not the end of the input. -/
  last : Token
  /-- The end of the input, if it was met. -/
  ended : Option Token

namespace Cursor

def ofFeed (f : Feed) : Cursor := ⟨f, [], .eof, none⟩

/-- A bound on the tokens before the end of the input that can still be consumed. -/
def pending (c : Cursor) : Nat := c.buffer.length + c.feed.steps.length

/-- Fetches `missing` more tokens into the buffer.  A failure of the feed leaves those fetched
before it in the buffer. -/
def fetch : (missing : Nat) → Cursor → Except Failure Unit × Cursor
  | 0, c => (.ok (), c)
  | missing + 1, c =>
    match c.ended with
    | some t => fetch missing { c with buffer := c.buffer ++ [t] }
    | none =>
      match c.feed.next with
      | (.error e, feed) => (.error e, { c with feed })
      | (.ok t, feed) =>
        fetch missing
          { c with feed, buffer := c.buffer ++ [t], ended := if t.isEOF then some t else none }

/-- Makes at least `k` tokens wait in the buffer. -/
def fill (c : Cursor) (k : Nat) : Except Failure Unit × Cursor := fetch (k - c.buffer.length) c

/-- The token `k` places ahead (`LT`); the next one is one place ahead. -/
def look (c : Cursor) (k : Int) : Except Failure Token × Cursor :=
  if k < 1 then (.error (.lookahead k), c)
  else
    match c.fill k.toNat with
    | (.error e, c) => (.error e, c)
    | (.ok (), c) => (.ok (c.buffer.getD (k.toNat - 1) .eof), c)

/-- The code of the token `k` places ahead (`LA`). -/
def lookCode (c : Cursor) (k : Int) : Except Failure Int × Cursor :=
  match c.look k with
  | (.error e, c) => (.error e, c)
  | (.ok t, c) => (.ok t.code, c)

/-- Moves past the next token (`Consume`). -/
def consume (c : Cursor) : Except Failure Unit × Cursor :=
  match c.fill 1 with
  | (.error e, c) => (.error e, c)
  | (.ok (), c) =>
    match c.buffer with
    | [] => (.ok (), c)
    | t :: buffer => (.ok (), { c with buffer, last := if t.isEOF then c.last else t })

/-- Consumes the next token if it is of the kind `k` (`Match`). -/
def expect (c : Cursor) (k : Kind) : Except Failure Token × Cursor :=
  match c.look 1 with
  | (.error e, c) => (.error e, c)
  | (.ok t, c) =>
    if t.code == k.code then
      match c.consume with
      | (.error e, c) => (.error e, c)
      | (.ok (), c) => (.ok t, c)
    else (.error (.misplaced (.wanted k t)), c)

end Cursor

end Formulary
