import Formulary.Text.Blank
import Formulary.Text.Hex
import Formulary.Toml.Scalar

/-!
# TOML documents

A document is read statement by statement.  A reader takes what it reads off the front of the
characters, or refuses them.  No control character stands in a document but tabs and line ends, and
a carriage return only before a line feed.
-/

namespace Formulary.Toml

open Text (isSpacing)

/-- A reader of values of type `α`. -/
abbrev Reads (α : Type) := List Char → Option (α × List Char)

/-! ## Blanks and comments -/

def skipSpacing (cs : List Char) : List Char := cs.dropWhile isSpacing

/-- The characters that stand nowhere in a line. -/
def isForbidden (c : Char) : Bool := (c.toNat < 0x20 && c != '\t') || c.toNat == 0x7f

/-- Whether all characters may stand in a document. -/
def isClean : List Char → Bool
  | [] => true
  | '\r' :: '\n' :: rest => isClean rest
  | '\n' :: rest => isClean rest
  | c :: rest => !isForbidden c && isClean rest

/-- The characters after a comment, if one starts here; its line end is left. -/
def skipComment? (cs : List Char) : Option (List Char) :=
  match cs with
  | '#' :: rest =>
    let (comment, after) := rest.span fun c => c != '\n' && c != '\r'
    if comment.any isForbidden then none else some after
  | _ => some cs

/-- The characters after the end of a line. -/
def lineEnd? : List Char → Option (List Char)
  | '\n' :: rest => some rest
  | '\r' :: '\n' :: rest => some rest
  | _ => none

/-- The characters after the rest of a line, which holds no more than a comment. -/
def finishLine? (cs : List Char) : Option (List Char) := do
  let cs ← skipComment? (skipSpacing cs)
  match cs with
  | [] => some []
  | _ => lineEnd? cs

/-- Skips blanks, line ends and comments, at most `rounds` times. -/
def skipLines : (rounds : Nat) → List Char → Option (List Char)
  | 0, cs => some cs
  | rounds + 1, cs => do
    let cs ← skipComment? (skipSpacing cs)
    match lineEnd? cs with
    | some rest => skipLines rounds rest
    | none => some cs

def skipAll? (cs : List Char) : Option (List Char) := skipLines (cs.length + 1) cs

/-! ## Texts -/

/-- The character that a short escape stands for. -/
def escaped? : Char → Option Char
  | 'b' => some '\x08'
  | 't' => some '\t'
  | 'n' => some '\n'
  | 'f' => some '\x0c'
  | 'r' => some '\r'
  | '\x22' => some '\x22'
  | '\\' => some '\\'
  | _ => none

/-- Reads up to the closing double quote. -/
def basicText : Reads (List Char)
  | '\x22' :: rest => some ([], rest)
  | '\\' :: 'u' :: a :: b :: c :: d :: rest => do
    let ch ← Text.charOfHex? [a, b, c, d]
    (basicText rest).map fun (cs, after) => (ch :: cs, after)
  | '\\' :: 'U' :: a :: b :: c :: d :: e :: f :: g :: h :: rest => do
    let ch ← Text.charOfHex? [a, b, c, d, e, f, g, h]
    (basicText rest).map fun (cs, after) => (ch :: cs, after)
  | '\\' :: c :: rest => do
    let ch ← escaped? c
    (basicText rest).map fun (cs, after) => (ch :: cs, after)
  | c :: rest =>
    if isForbidden c then none else (basicText rest).map fun (cs, after) => (c :: cs, after)
  | [] => none

/-- Reads up to the closing single quote. -/
def literalText (cs : List Char) : Option (List Char × List Char) :=
  match cs.span (· != '\x27') with
  | (inner, _ :: after) => if inner.any isForbidden then none else some (inner, after)
  | (_, []) => none

/-- Whether only blanks are left on the line. -/
def lineIsOver (cs : List Char) : Bool := (lineEnd? (skipSpacing cs)).isSome

/-- Whether three quotes after `seen`, the last character first, do not end a text that goes on with
another quote, although two quotes were seen: after a backslash the count starts anew. -/
def mayGoOn (quote : Char) (seen : List Char) : Bool :=
  match seen with
  | a :: b :: c :: _ => !(a == quote && b == quote) || (quote == '\x22' && c == '\\')
  | [a, b] => !(a == quote && b == quote)
  | _ => true

/-- Reads up to three double quotes.  `seen` is what was read, the last character first; `skipping`
tells that a backslash ended the line, so that blanks and line ends are left out up to the next
other character.  Up to two more quotes may stand before the closing ones. -/
def basicLines : (seen : List Char) → (skipping : Bool) → Reads (List Char)
  | seen, _, '\x22' :: '\x22' :: '\x22' :: '\x22' :: rest =>
    if mayGoOn '\x22' seen then
      (basicLines ('\x22' :: seen) false ('\x22' :: '\x22' :: '\x22' :: rest)).map
        fun (cs, after) => ('\x22' :: cs, after)
    else none
  | _, _, '\x22' :: '\x22' :: '\x22' :: rest => some ([], rest)
  | seen, _, '\\' :: 'u' :: a :: b :: c :: d :: rest => do
    let ch ← Text.charOfHex? [a, b, c, d]
    (basicLines (d :: seen) false rest).map fun (cs, after) => (ch :: cs, after)
  | seen, _, '\\' :: 'U' :: a :: b :: c :: d :: e :: f :: g :: h :: rest => do
    let ch ← Text.charOfHex? [a, b, c, d, e, f, g, h]
    (basicLines (h :: seen) false rest).map fun (cs, after) => (ch :: cs, after)
  | seen, _, '\\' :: c :: rest =>
    match escaped? c with
    | some ch =>
      (basicLines (c :: '\\' :: seen) false rest).map fun (cs, after) => (ch :: cs, after)
    | none => if lineIsOver (c :: rest) then basicLines (c :: seen) true rest else none
  | seen, skipping, c :: rest =>
    if skipping && (isSpacing c || c == '\n' || c == '\r') then basicLines (c :: seen) true rest
    else (basicLines (c :: seen) false rest).map fun (cs, after) => (c :: cs, after)
  | _, _, [] => none
termination_by _ _ cs => cs.length

/-- Reads up to three single quotes. -/
def literalLines : (seen : List Char) → Reads (List Char)
  | seen, '\x27' :: '\x27' :: '\x27' :: '\x27' :: rest =>
    if mayGoOn '\x27' seen then
      (literalLines ('\x27' :: seen) ('\x27' :: '\x27' :: '\x27' :: rest)).map fun (cs, after) =>
        ('\x27' :: cs, after)
    else none
  | _, '\x27' :: '\x27' :: '\x27' :: rest => some ([], rest)
  | seen, c :: rest => (literalLines (c :: seen) rest).map fun (cs, after) => (c :: cs, after)
  | _, [] => none
termination_by _ cs => cs.length

/-- The text without a line end right after the opening quotes. -/
def dropFirstLineEnd (cs : List Char) : List Char := (lineEnd? cs).getD cs

/-! ## Keys -/

def isBareChar (c : Char) : Bool :=
  c.isAlpha || Number.isDecimalDigit c || c == '_' || c == '-'

/-- One part of a key. -/
def keyPart : Reads String
  | '\x22' :: rest => (basicText rest).map fun (cs, after) => (String.ofList cs, after)
  | '\x27' :: rest => (literalText rest).map fun (cs, after) => (String.ofList cs, after)
  | cs =>
    match cs.span isBareChar with
    | ([], _) => none
    | (part, after) => some (String.ofList part, after)

/-- A key of at most `rounds` more parts. -/
def keyParts : (rounds : Nat) → Reads (List String)
  | 0, _ => none
  | rounds + 1, cs => do
    let (part, after) ← keyPart (skipSpacing cs)
    match skipSpacing after with
    | '.' :: rest =>
      let (parts, after) ← keyParts rounds rest
      return (part :: parts, after)
    | after => return ([part], after)

/-- A key: parts with dots between them.  The path of a table stands in front of the last one. -/
def key (cs : List Char) : Option ((List String × String) × List Char) := do
  let (parts, after) ← keyParts cs.length cs
  let last ← parts.getLast?
  return ((parts.dropLast, last), after)

/-! ## Values -/

/-- The characters that end a word. -/
def endsWord (c : Char) : Bool :=
  isSpacing c || c == '\n' || c == '\r' || c == ',' || c == ']' || c == '\x7d' || c == '#'

/-- A word.  Between a date and a time there may be a blank. -/
def word (cs : List Char) : List Char × List Char :=
  let (first, after) := cs.span (!endsWord ·)
  match isDate first, after with
  | true, ' ' :: rest =>
    let (second, afterSecond) := rest.span (!endsWord ·)
    if second.head?.any Number.isDecimalDigit then (first ++ ' ' :: second, afterSecond)
    else (first, after)
  | _, _ => (first, after)

/-- A text that takes one of the four kinds of quotes. -/
def quotedText? : List Char → Option (List Char × List Char)
  | '\x22' :: '\x22' :: '\x22' :: rest => basicLines [] false (dropFirstLineEnd rest)
  | '\x22' :: rest => basicText rest
  | '\x27' :: '\x27' :: '\x27' :: rest => literalLines [] (dropFirstLineEnd rest)
  | '\x27' :: rest => literalText rest
  | _ => none

/-- A reader of values that are noted in a book: it is given the book and the characters. -/
abbrev Notes (α : Type) := Book → List Char → Option (α × Book × List Char)

/-- The items of a list up to its closing bracket. -/
def listItems (item : Notes Value) : (rounds : Nat) → Notes (List Value)
  | 0, _, _ => none
  | rounds + 1, b, cs => do
    match ← skipAll? cs with
    | ']' :: rest => return ([], b, rest)
    | cs =>
      let (v, b, after) ← item b cs
      match ← skipAll? after with
      | ',' :: rest =>
        let (items, b, after) ← listItems item rounds b rest
        return (v :: items, b, after)
      | ']' :: rest => return ([v], b, rest)
      | _ => none

/-- A reader of the value of a name in a table.  The flag tells whether the value is an item of the
list that the name is given. -/
abbrev ValueReader := (table : Path) → (name : String) → (inList : Bool) → Notes Value

/-- One entry `key = value` of a table: the path of the key below the table, its name and value. -/
def entry (read : ValueReader) (table : Path) : Notes (Path × String × Value) := fun b cs => do
  let ((path, name), after) ← key cs
  match after with
  | '=' :: rest =>
    let b ← b.passThrough? table path
    let inner := table ++ path
    let (v, b, after) ← read inner name false b (skipSpacing rest)
    let b ← b.put? inner name v
    return ((path, name, v), b.noteKind inner name v.isList, after)
  | _ => none

/-- The entries of an inline table up to its closing brace, the first of which has to be there;
those before it are `es`. -/
def inlineEntries (read : ValueReader) (table : Path) : (rounds : Nat) → Entries → Notes Entries
  | 0, _, _, _ => none
  | rounds + 1, es, b, cs => do
    let ((path, name, v), b, after) ← entry read table b (skipSpacing cs)
    let es ← es.place? name v path
    match skipSpacing after with
    | ',' :: rest => inlineEntries read table rounds es b rest
    | '\x7d' :: rest => return (es, b, rest)
    | _ => none

/-- An inline table, from behind its opening brace on.  It is noted like a table of its own. -/
def inlineTable (read : ValueReader) (table : Path) (name : String) (inList : Bool) : Notes Value :=
  fun b cs => do
    let path := table ++ [name]
    let b ← (b.markImplicit path).define? table name inList
    match skipSpacing cs with
    | '\x7d' :: after => return (.table [], b, after)
    | cs =>
      let (es, b, after) ← inlineEntries read path cs.length [] b cs
      return (.table es, b, after)

/-- A value that is nested `steps` deep at most. -/
def value : (steps : Nat) → ValueReader
  | 0, _, _, _, _, _ => none
  | steps + 1, table, name, inList, b, cs =>
    match cs with
    | '[' :: rest => do
      let b := b.noteKind table name true
      let (items, b, after) ← listItems (value steps table name true) cs.length b rest
      return (.list items, b, after)
    | '\x7b' :: rest => inlineTable (value steps) table name inList b rest
    | _ =>
      if cs.head?.any fun c => c == '\x22' || c == '\x27' then do
        let (text, after) ← quotedText? cs
        return (.text (String.ofList text), b, after)
      else do
        let (w, after) := word cs
        return (← scalarOf? w, b, after)

/-! ## Statements -/

/-- What has been read, and the path of the table that entries are added to. -/
structure State where
  book : Book
  table : Path

/-- The table that a header names. -/
def header (s : State) (path : Path) (name : String) (row : Bool) : Option State := do
  let table := path ++ [name]
  let book ← s.book.define? path name row
  return ⟨book.noteKind table "" false, table⟩

/-- Reads one statement, which starts with no blank. -/
def statement (s : State) : Reads State
  | '[' :: '[' :: rest => do
    let ((path, name), after) ← key rest
    match after with
    | ']' :: ']' :: rest => return (← header s path name true, rest)
    | _ => none
  | '[' :: rest => do
    let ((path, name), after) ← key rest
    match after with
    | ']' :: rest => return (← header s path name false, rest)
    | _ => none
  | cs => do
    let (_, book, after) ← entry (value (cs.length + 1)) s.table s.book cs
    return ({ s with book }, after)

/-- Reads at most `rounds` statements. -/
def statements : (rounds : Nat) → State → List Char → Option Entries
  | 0, _, _ => none
  | rounds + 1, s, cs => do
    match ← skipAll? cs with
    | [] => return s.book.root
    | cs =>
      let (s, after) ← statement s cs
      statements rounds s (← finishLine? after)

/-- Reads a document. -/
def parse? (text : String) : Option Entries :=
  let cs := match text.toList with
    | '\uFEFF' :: rest => rest
    | cs => cs
  if isClean cs then statements (cs.length + 1) ⟨.empty, []⟩ cs else none

end Formulary.Toml
