import Formulary.Yaml.Node
import Formulary.Yaml.Tokens

/-!
# YAML documents

A document is put together from the tokens of a text.  Lists and maps are written with brackets, or
by their layout.  Of several documents in a text the first is read, and what follows it is not
looked at.

A reader is given what is left of the tokens and gives back a node and what is left then, or
refuses.
-/

namespace Formulary.Yaml

/-- What is known while a document is read. -/
structure Reading where
  tokens : List Token
  /-- What the handles of tags stand for. -/
  handles : List (String × String)
  /-- The names of nodes with their numbers, the latest first. -/
  names : List (String × Nat)
  /-- The nodes with a name that are read to their end, by their numbers. -/
  nodes : List (Nat × Node)

/-- A reader of values of type `α`. -/
abbrev Reads (α : Type) := Reading → Option (α × Reading)

namespace Reading

/-- After the next token. -/
def next (r : Reading) : Reading := { r with tokens := r.tokens.tail }

/-- Whether the next token is one of those given; refused if the tokens have ended. -/
def sees? (r : Reading) (ts : List Token) : Option Bool := r.tokens.head?.map ts.contains

/-- Starts a node of the given name. -/
def declare (r : Reading) : (name : Option String) → Reading
  | some name => { r with names := (name, r.names.length) :: r.names }
  | none => r

/-- Ends the node that was started after `before`. -/
def complete (r before : Reading) (name : Option String) (n : Node) : Reading :=
  if name.isSome then { r with nodes := (before.names.length, n) :: r.nodes } else r

/-- The tag with its handle replaced. -/
def tag? (r : Reading) (handle suffix : String) : Option String :=
  if handle == "" then some suffix else (r.handles.lookup handle).map (· ++ suffix)

end Reading

/-! ## Names and tags of nodes -/

/-- What may stand in front of a node: a name and a tag. -/
structure Properties where
  name : Option String
  tag : Option String

def Properties.isEmpty (p : Properties) : Bool := p.name.isNone && p.tag.isNone

def readName (r : Reading) : Option String × Reading :=
  match r.tokens with
  | .anchor name :: _ => (some name, r.next)
  | _ => (none, r)

def readTag : Reads (Option String) := fun r =>
  match r.tokens with
  | .tag handle suffix :: _ => (r.tag? handle suffix).map fun tag => (some tag, r.next)
  | _ => some (none, r)

/-- The name and the tag in front of a node, in one order or the other. -/
def properties : Reads Properties := fun r => do
  match readName r with
  | (some name, r) =>
    let (tag, r) ← readTag r
    return (⟨some name, tag⟩, r)
  | (none, r) =>
    match ← readTag r with
    | (some tag, r) =>
      let (name, r) := readName r
      return (⟨name, some tag⟩, r)
    | (none, r) => return (⟨none, none⟩, r)

/-! ## Lists and maps -/

/-- Reads a node; `block` tells whether it may be written by layout, and `bare` whether it may be a
list whose items stand as far left as the map around it. -/
abbrev NodeReader := (block bare : Bool) → Reads Node

/-- A node unless one of the given tokens comes next: then nothing is written for it. -/
def nodeUnless (ends : List Token) (node : Reads Node) : Reads Node := fun r => do
  if ← r.sees? ends then return (.missing, r) else node r

/-- The entry of a map that is a single item of a list within brackets, from behind the sign of its
key on.  A token that comes in place of the key is passed over. -/
def flowPair (node : NodeReader) : Reads Node := fun r => do
  let (k, r) ←
    if ← r.sees? [.value, .comma, .listClose] then pure (Node.missing, r.next)
    else node false false r
  let (v, r) ←
    if ← r.sees? [.value] then nodeUnless [.comma, .listClose] (node false false) r.next
    else pure (.missing, r)
  return (.map [(k, v)], r)

/-- The items of a list within brackets, at most `rounds` of them. -/
def flowItems (node : NodeReader) : (rounds : Nat) → (first : Bool) → Reads (List Node)
  | 0, _, _ => none
  | rounds + 1, first, r => do
    if ← r.sees? [.listClose] then return ([], r.next)
    let r ← if first then pure r else if ← r.sees? [.comma] then pure r.next else none
    if ← r.sees? [.listClose] then return ([], r.next)
    let (item, r) ← if ← r.sees? [.key] then flowPair node r.next else node false false r
    let (items, r) ← flowItems node rounds false r
    return (item :: items, r)

/-- An entry of a map within brackets.  Without a sign of a key nothing is written for its value. -/
def flowEntry (node : NodeReader) : Reads (Node × Node) := fun r => do
  if ← r.sees? [.key] then
    let (k, r) ← nodeUnless [.value, .comma, .mapClose] (node false false) r.next
    let (v, r) ←
      if ← r.sees? [.value] then nodeUnless [.comma, .mapClose] (node false false) r.next
      else pure (.missing, r)
    return ((k, v), r)
  else
    let (k, r) ← node false false r
    return ((k, .missing), r)

/-- The entries of a map within brackets, at most `rounds` of them. -/
def flowEntries (node : NodeReader) : (rounds : Nat) → (first : Bool) → Reads (List (Node × Node))
  | 0, _, _ => none
  | rounds + 1, first, r => do
    if ← r.sees? [.mapClose] then return ([], r.next)
    let r ← if first then pure r else if ← r.sees? [.comma] then pure r.next else none
    if ← r.sees? [.mapClose] then return ([], r.next)
    let (e, r) ← flowEntry node r
    let (es, r) ← flowEntries node rounds false r
    return (e :: es, r)

/-- The items of a list by layout, at most `rounds` of them. -/
def layoutItems (node : NodeReader) : (rounds : Nat) → Reads (List Node)
  | 0, _ => none
  | rounds + 1, r => do
    if ← r.sees? [.endOfLayout] then return ([], r.next)
    else if ← r.sees? [.item] then
      let (item, r) ← nodeUnless [.item, .endOfLayout] (node true false) r.next
      let (items, r) ← layoutItems node rounds r
      return (item :: items, r)
    else none

/-- The items of a list as far left as the map around it, at most `rounds` of them. -/
def bareItems (node : NodeReader) : (rounds : Nat) → Reads (List Node)
  | 0, _ => none
  | rounds + 1, r => do
    if ← r.sees? [.item] then
      let (item, r) ← nodeUnless [.item, .key, .value, .endOfLayout] (node true false) r.next
      let (items, r) ← bareItems node rounds r
      return (item :: items, r)
    else return ([], r)

/-- The entries of a map by layout, at most `rounds` of them. -/
def layoutEntries (node : NodeReader) : (rounds : Nat) → Reads (List (Node × Node))
  | 0, _ => none
  | rounds + 1, r => do
    if ← r.sees? [.endOfLayout] then return ([], r.next)
    else if ← r.sees? [.key] then
      let part := nodeUnless [.key, .value, .endOfLayout] (node true true)
      let (k, r) ← part r.next
      let (v, r) ← if ← r.sees? [.value] then part r.next else pure (.missing, r)
      let (es, r) ← layoutEntries node rounds r
      return ((k, v) :: es, r)
    else none

/-! ## Nodes -/

/-- What a node consists of, behind its name and its tag. -/
def content (node : NodeReader) (p : Properties) : NodeReader := fun block bare r =>
  let rounds := r.tokens.length + 1
  match r.tokens with
  | [] => none
  | .scalar text plain :: _ => some (.ofScalar text plain (p.tag.getD ""), r.next)
  | .listOpen :: _ => (flowItems node rounds true r.next).map fun (l, r) => (.list l, r)
  | .mapOpen :: _ => (flowEntries node rounds true r.next).map fun (l, r) => (.map l, r)
  | t :: _ =>
    if bare && t == .item then (bareItems node rounds r).map fun (l, r) => (.list l, r)
    else if block && t == .listByLayout then
      (layoutItems node rounds r.next).map fun (l, r) => (.list l, r)
    else if block && t == .mapByLayout then
      (layoutEntries node rounds r.next).map fun (l, r) => (.map l, r)
    else if p.isEmpty then none
    else some (.ofScalar "" true (p.tag.getD ""), r)

/-- A node that is nested `steps` deep at most. -/
def node : (steps : Nat) → NodeReader
  | 0, _, _, _ => none
  | steps + 1, block, bare, r =>
    match r.tokens with
    | .reference name :: _ => do
      let number ← r.names.lookup name
      return (.reference name (r.nodes.lookup number), r.next)
    | _ => do
      let (p, before) ← properties r
      let (n, after) ← content (node steps) p block bare (before.declare p.name)
      return (n, after.complete before p.name n)

/-! ## Documents -/

/-- The handles of tags that need not be told. -/
def commonHandles : List (String × String) := [("!", "!"), ("!!", Node.tagRoot)]

/-- The handles that the directives in front of a document tell, and the tokens after them.  The
version is told once at most, and only one is known; so is each handle. -/
def directives? : (versioned : Bool) → (handles : List (String × String)) → List Token →
    Option (List (String × String) × List Token)
  | versioned, handles, .version major minor :: rest =>
    if versioned || major != 1 || minor != 1 then none else directives? true handles rest
  | versioned, handles, .tagHandle handle meaning :: rest =>
    if (handles.lookup handle).isSome then none
    else directives? versioned (handles ++ [(handle, meaning)]) rest
  | _, handles, rest => some (handles, rest)

/-- Whether a token cannot be part of a document. -/
def Token.isOutside : Token → Bool
  | version .. | tagHandle .. | documentStart | documentEnd | streamEnd => true
  | _ => false

/-- The root of a document; more tokens have to follow. -/
def root? (handles : List (String × String)) (ts : List Token) : Option Node := do
  let (n, r) ← node (ts.length + 1) true false ⟨ts, handles ++ commonHandles, [], []⟩
  if r.tokens.isEmpty then none else some n

/-- The document that tokens make. -/
def documentOf? : List Token → Option Node
  | .streamStart :: .streamEnd :: _ => some .missing
  | .streamStart :: t :: rest =>
    if t.isOutside && t != .documentEnd then do
      let (handles, ts) ← directives? false [] (t :: rest)
      match ts with
      | .documentStart :: t :: rest =>
        if t.isOutside then some .missing else root? handles (t :: rest)
      | _ => none
    else root? [] (t :: rest)
  | _ => none

/-- The document in a text.  Nothing written is the null document. -/
def parse? (text : String) : Option Node := documentOf? (tokensOf text)

end Formulary.Yaml
