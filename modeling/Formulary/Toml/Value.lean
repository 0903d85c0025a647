/-!
# TOML values

A document is a table of named values.  A value is a scalar, a list, a table or a row of tables.
-/

namespace Formulary.Toml

inductive Value where
  | text (s : String)
  | whole (n : Int)
  | decimal (x : Float)
  | flag (b : Bool)
  /-- A date, a time or both, which no setting makes use of. -/
  | moment (s : String)
  | list (items : List Value)
  | table (entries : List (String × Value))
  | tables (rows : List (List (String × Value)))
  deriving Repr

def Value.isList : Value → Bool
  | list _ => true
  | _ => false

/-- The entries of a table, in the order in which they were written. -/
abbrev Entries := List (String × Value)

/-- The names that lead to a value. -/
abbrev Path := List String

namespace Entries

/-- The entries with a value for a name, in the place of an older one. -/
def insert (es : Entries) (name : String) (v : Value) : Entries :=
  if (es.lookup name).isSome then es.map fun (k, old) => (k, if k == name then v else old)
  else es ++ [(name, v)]

/-- The entries of the table at the end of a path; of a row of tables the last one is meant. -/
def at? : Path → Entries → Option Entries
  | [], es => some es
  | name :: path, es =>
    match es.lookup name with
    | some (.table inner) => at? path inner
    | some (.tables rows) => rows.getLast?.bind (at? path)
    | _ => none

/-- Changes the table at the end of a path. -/
def changeAt (change : Entries → Entries) : Path → Entries → Entries
  | [], es => change es
  | name :: path, es =>
    match es.lookup name with
    | some (.table inner) => es.insert name (.table (changeAt change path inner))
    | some (.tables rows) =>
      match rows.getLast? with
      | some last => es.insert name (.tables (rows.dropLast ++ [changeAt change path last]))
      | none => es
    | _ => es

/-- Puts a value at the end of a path; tables missing on the way are made.  Refused where something
else than a table is in the way. -/
def place? (name : String) (v : Value) : Path → Entries → Option Entries
  | [], es => some (es.insert name v)
  | step :: path, es =>
    match es.lookup step with
    | none => do return es.insert step (.table (← place? name v path []))
    | some (.table inner) => do return es.insert step (.table (← place? name v path inner))
    | some _ => none

end Entries

/-! ## Books

What is known while a document is read.  A table that only stands on the way to something else is
implicit; it may be defined once, which leaves what it holds.  A name that was last given a list may
be given anything else. -/

structure Book where
  root : Entries
  /-- The paths of implicit tables. -/
  implicit : List Path
  /-- The paths of lists. -/
  lists : List Path

namespace Book

def empty : Book := ⟨[], [], []⟩

/-- Marks a path as that of an implicit table. -/
def markImplicit (b : Book) (p : Path) : Book :=
  if b.implicit.contains p then b else { b with implicit := p :: b.implicit }

/-- Remembers whether a name was given a list.  A name that is empty stands for the table itself. -/
def noteKind (b : Book) (table : Path) (name : String) (isList : Bool) : Book :=
  let path := if name == "" then table else table ++ [name]
  let path := if path.isEmpty then [""] else path
  let others := b.lists.filter (· != path)
  { b with lists := if isList then path :: others else others }

/-- Gives a name in a table a value. -/
def put? (b : Book) (table : Path) (name : String) (v : Value) : Option Book := do
  let es ← b.root.at? table
  let path := table ++ [name]
  let put : Book := { b with root := b.root.changeAt (·.insert name v) table }
  if (es.lookup name).isNone then some put
  else if b.lists.contains path then some { put with implicit := b.implicit.erase path }
  else if b.implicit.contains path then some { b with implicit := b.implicit.erase path }
  else none

/-- Makes the tables missing on the way to the end of a path, below the path `done`. -/
def openPath? (done : Path) : Path → Book → Option Book
  | [], b => some b
  | name :: path, b => do
    let es ← b.root.at? done
    let b := if (es.lookup name).isSome then b
      else
        let root := b.root.changeAt (·.insert name (.table [])) done
        { b with root }.markImplicit (done ++ [name])
    let _ ← b.root.at? (done ++ [name])
    openPath? (done ++ [name]) path b

/-- Adds a table to a row of tables. -/
def addRow? (b : Book) (table : Path) (name : String) : Option Book := do
  let es ← b.root.at? table
  let rows ← match es.lookup name with
    | none => some []
    | some (.tables rows) => some rows
    | some _ => none
  return { b with root := b.root.changeAt (·.insert name (.tables (rows ++ [[]]))) table }

/-- Defines the table of the given name, or one more of a row of tables. -/
def define? (b : Book) (table : Path) (name : String) (row : Bool) : Option Book := do
  let b ← openPath? [] table b
  if row then b.addRow? table name else b.put? table name (.table [])

/-- Goes through the tables of `steps` one by one, from the path `table` on. -/
def passThrough? (table : Path) : (steps : Path) → Book → Option Book
  | [], b => some b
  | name :: steps, b => do
    let b ← (b.markImplicit (table ++ [name])).define? table name false
    passThrough? (table ++ [name]) steps b

end Book

end Formulary.Toml
