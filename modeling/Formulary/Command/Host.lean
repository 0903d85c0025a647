import Formulary.Command.Flag
import Formulary.Files
import Formulary.Text.Blank

/-!
# Commands and their surroundings

A command asks its host for files and for the standard input, and gives a report of what it wrote.
-/

namespace Formulary.Command

/-- What surrounds a command. -/
structure Host (m : Type → Type) where
  /-- The whole standard input. -/
  input : m String
  /-- The content of a file. -/
  read : String → m (Except FileError String)
  /-- The lines entered in earlier sessions, if they were kept. -/
  history : m (Option String)

/-- The host that has the given files and input. -/
def Host.ofFiles (files : Files) (input : String) : Host Id where
  input := input
  read name := files.read name
  history := (files.read ".exprs_history").toOption

/-- What a command did. -/
structure Report where
  exit : Nat
  out : String
  err : String
  /-- The lines entered, when they are to be kept. -/
  history : Option String
  deriving Repr, DecidableEq

namespace Report

/-- The command wrote `out`. -/
def wrote (out : String) : Report := ⟨0, out, "", none⟩

/-- The command failed with a message. -/
def failed (message : String) : Report := ⟨1, "", message ++ "\n", none⟩

/-- The report with `text` written to the error stream before all else. -/
def warned (r : Report) (text : String) : Report := { r with err := text ++ r.err }

/-- The report of a computation that either fails with a message or writes something. -/
def ofResult : Except String String → Report
  | .ok out => wrote out
  | .error message => failed message

end Report

structure Subcommand (m : Type → Type) where
  name : String
  aliases : List String
  summary : String
  run : Host m → List String → m Report

section

variable {m : Type → Type} [Monad m] {σ : Type}

/-- The report of flags that could not be read. -/
def flagReport (name summary : String) (flags : List (Flag σ)) : FlagError → Report
  | .help =>
    ⟨0, "", usage name flags ++ summary ++ "\n\navailable sub command(s)\n", none⟩
  | .wrong message => (Report.failed message).warned (message ++ "\n" ++ usage name flags)

/-- A command with flags. -/
def Subcommand.ofFlags (name : String) (aliases : List String) (summary : String)
    (flags : List (Flag σ)) (preset : σ) (body : Host m → σ → List String → m Report) :
    Subcommand m where
  name := name
  aliases := aliases
  summary := summary
  run host args :=
    match readFlags flags preset args with
    | (.error e, _) => pure (flagReport name summary flags e)
    | (.ok options, operands) => body host options operands

/-- The operands joined by blanks or, without operands, the standard input (`readInput`). -/
def inputText (host : Host m) (operands : List String) : m String :=
  match operands with
  | [] => do return Text.trim (← host.input)
  | _ => pure (" ".intercalate operands)

end

end Formulary.Command
