import Formulary.Text.Hex
import Formulary.Text.Source
import Formulary.Yaml.Spot

/-!
# YAML tokens

The signs, names, tags and scalars of a document.  Where lists and maps written by layout start and
end is told by tokens of their own.
-/

namespace Formulary.Yaml

open Text (isSpacing)

inductive Token where
  | streamStart
  | streamEnd
  /-- The version that a document is said to be written in. -/
  | version (major minor : Nat)
  /-- What the handle of a tag stands for. -/
  | tagHandle (handle meaning : String)
  | documentStart
  | documentEnd
  | listByLayout
  | mapByLayout
  | endOfLayout
  | listOpen
  | listClose
  | mapOpen
  | mapClose
  /-- The sign of an item of a list by layout. -/
  | item
  | comma
  | key
  | value
  /-- A node used again under its name. -/
  | reference (name : String)
  /-- The name given to a node. -/
  | anchor (name : String)
  | tag (handle suffix : String)
  | scalar (text : String) (plain : Bool)
  deriving Repr, DecidableEq

/-! ## Names -/

/-- The signs that may follow a name directly. -/
def endsName (cs : List Char) : Bool :=
  atBlank cs || cs.head?.any fun c => "?:,]\x7d%@\x60".toList.contains c

/-- The name of an anchor or of a reference to one. -/
def name? (cs : List Char) : Option (String × List Char) :=
  match cs.span isNameChar with
  | ([], _) => none
  | (name, after) => if endsName after then some (String.ofList name, after) else none

/-! ## Tags -/

/-- The characters of tags. -/
def isTagChar (c : Char) : Bool := isNameChar c || ";/?:@&=+$,.!~*'()[]%".toList.contains c

/-- The number of bytes of the character that starts with the given one. -/
def width? (byte : Nat) : Option Nat :=
  if byte < 0x80 then some 1
  else if byte / 0x20 == 6 then some 2
  else if byte / 0x10 == 14 then some 3
  else if byte / 8 == 30 then some 4
  else none

/-- The bytes that the characters of a tag stand for.  A byte may be written as its number in base
sixteen behind a percent sign; all bytes of a character are then, and `due` of them are missing. -/
def tagBytes? : (due : Nat) → List Char → Option (List Nat)
  | 0, [] => some []
  | _ + 1, [] => none
  | due, '%' :: a :: b :: rest => do
    let byte := (← Text.hexValue? a) * 16 + (← Text.hexValue? b)
    match due with
    | 0 => return byte :: (← tagBytes? ((← width? byte) - 1) rest)
    | due + 1 => if byte / 0x40 == 2 then return byte :: (← tagBytes? due rest) else none
  | 0, c :: rest => if c == '%' then none else (tagBytes? 0 rest).map (c.toNat :: ·)
  | _ + 1, _ :: _ => none

/-- The text of a tag, which may be empty. -/
def tagText? (cs : List Char) : Option (List Char × List Char) := do
  let (raw, after) := cs.span isTagChar
  return ((Text.Source.ofBytes (← tagBytes? 0 raw)).chars, after)

/-- The text of a tag, which is not empty. -/
def someTagText? (cs : List Char) : Option (List Char × List Char) :=
  (tagText? cs).filter fun (text, _) => !text.isEmpty

/-- The handle of a tag from behind its first sign on, if a second sign ends it. -/
def handle? (cs : List Char) : Option (String × List Char) :=
  match cs.span isNameChar with
  | (name, '!' :: after) => some (String.ofList ('!' :: name ++ ['!']), after)
  | _ => none

/-- A tag from behind its sign on: written out between angles, with a handle, or short.  The sign
alone is a tag, too. -/
def tagParts? (cs : List Char) : Option ((String × String) × List Char) := do
  match cs with
  | '<' :: rest =>
    match ← someTagText? rest with
    | (text, '>' :: after) => return (("", String.ofList text), after)
    | _ => none
  | _ =>
    match handle? cs with
    | some (handle, after) =>
      let (text, after) ← someTagText? after
      return ((handle, String.ofList text), after)
    | none =>
      let (text, after) ← tagText? cs
      return (if text.isEmpty then ("", "!") else ("!", String.ofList text), after)

/-- The token of a tag; a blank follows it. -/
def tag? (cs : List Char) : Option (Token × List Char) := do
  let ((handle, suffix), after) ← tagParts? cs
  if atBlank after then some (.tag handle suffix, after) else none

/-! ## Directives -/

/-- A number of one or two digits. -/
def shortNumber? (cs : List Char) : Option (Nat × List Char) :=
  let (ds, after) := cs.span Number.isDecimalDigit
  if 1 ≤ ds.length && ds.length ≤ 2 then
    some (ds.foldl (fun n c => n * 10 + (c.toNat - 0x30)) 0, after)
  else none

/-- The version that a directive tells. -/
def version? (cs : List Char) : Option (Token × List Char) := do
  let (major, cs) ← shortNumber? cs
  match cs with
  | '.' :: cs =>
    let (minor, cs) ← shortNumber? cs
    return (.version major minor, cs)
  | _ => none

/-- The handle of tags that a directive tells, and what it stands for. -/
def tagHandle? (cs : List Char) : Option (Token × List Char) := do
  let (handle, cs) ← match cs with
    | '!' :: cs => some ((handle? cs).getD ("!", cs))
    | _ => none
  if !cs.head?.any isSpacing then none
  let (meaning, cs) ← someTagText? (cs.dropWhile isSpacing)
  if atBlank cs then some (.tagHandle handle (String.ofList meaning), cs) else none

/-- A directive from behind its sign on, with the end of its line. -/
def directive? (cs : List Char) : Option (Token × List Char) := do
  let (name, cs) := cs.span isNameChar
  if !atBlank cs then none
  let cs := cs.dropWhile isSpacing
  let (token, cs) ← match String.ofList name with
    | "YAML" => version? cs
    | "TAG" => tagHandle? cs
    | _ => none
  let cs := cs.dropWhile isSpacing
  let cs := if cs.head? == some '#' then cs.dropWhile (!isBreak ·) else cs
  match cs with
  | [] => return (token, [])
  | c :: rest => if isBreak c then return (token, rest) else none

end Formulary.Yaml
