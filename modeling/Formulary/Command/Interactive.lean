import Formulary.Command.Formula
import Formulary.Explorer

/-!
# Interactive commands

`repl` runs a session on the lines of the standard input and keeps what was entered, `explore` shows
a formula while it is typed.
-/

namespace Formulary.Command

open Arith (Dialect)

variable {m : Type → Type} [Monad m]

def profileFlags : List (Flag ProfileOptions) := [configFlag fun o config => { o with config }]

/-! ## Lines and history -/

/-- The lines of a text; the last one may have no line end. -/
def linesOf (text : String) : List String :=
  let lines := text.splitOn "\n"
  if lines.getLast? == some "" then lines.dropLast else lines

/-- The number of lines that are kept. -/
def historyLimit : Nat := 1000

/-- The lines entered, the first one first. -/
abbrev History := List String

namespace History

/-- No more than the last lines. -/
def bounded (h : History) : History := h.drop (h.length - historyLimit)

/-- The lines kept in a text. -/
def ofText (text : String) : History := bounded (linesOf text)

/-- One more line; one that repeats the line before is not kept. -/
def add (h : History) (line : String) : History :=
  if h.getLast? == some line then h else bounded (h ++ [line])

def text (h : History) : String := String.join (h.map (· ++ "\n"))

end History

/-! ## repl -/

/-- The state of a session with what it wrote. -/
structure Dialogue where
  session : Session
  history : History
  out : String
  err : String

def prompt : String := "exprs> "

namespace Dialogue

/-- Runs one line. -/
def enter (d : Dialogue) (line : String) : Dialogue :=
  match d.session.exec line with
  | .ok (session, out) => { d with session, out := d.out ++ out }
  | .error e => { d with err := d.err ++ e.explained ++ "\n" }

/-- Runs the lines up to the end or the line that quits. -/
def run (d : Dialogue) : List String → Dialogue
  | [] => { d with out := d.out ++ prompt ++ "\n" }
  | line :: lines =>
    let d := { d with out := d.out ++ prompt }
    let line := Text.trim line
    if line.isEmpty then run d lines
    else
      let d := { d with history := d.history.add line }
      if line == ":quit" then d else run (d.enter line) lines

def report (d : Dialogue) : Report := ⟨0, d.out, d.err, some d.history.text⟩

end Dialogue

/-- A session on the lines of a text. -/
def replReport (similar : Text.Similarity) (d : Dialect) (history : Option String)
    (input : String) : Report :=
  match Session.start similar d with
  | .error e => .failed e.message
  | .ok session =>
    let start : Dialogue := ⟨session, .ofText (history.getD ""), "", ""⟩
    (start.run (linesOf input)).report

def replCommand (kit : Toolkit) : Subcommand m :=
  .ofFlags "repl" [] "evaluate formulas interactively" profileFlags .preset fun host o _ => do
    match ← o.dialect host with
    | .error message => pure (.failed message)
    | .ok d => return replReport kit.similar d (← host.history) (← host.input)

/-! ## explore -/

/-- The first screen of the explorer. -/
def exploreReport (kit : Toolkit) (d : Dialect) (text : String) : Report :=
  match d.environment [] with
  | .error e => .failed e.message
  | .ok env =>
    let x := Explorer.start kit.field kit.similar d env text
    .wrote (x.view (Explorer.prompt ++ x.input))

def exploreCommand (kit : Toolkit) : Subcommand m :=
  .ofFlags "explore" [] "show the tree of a formula while typing it" profileFlags .preset
    fun host o operands => do
      match ← o.dialect host with
      | .error message => pure (.failed message)
      | .ok d => return exploreReport kit d (" ".intercalate operands)

end Formulary.Command
