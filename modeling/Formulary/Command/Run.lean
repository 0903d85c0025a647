import Formulary.Command.Interactive
import Formulary.Command.Text

/-!
# The command line

The first argument names a command, the others are its own.
-/

namespace Formulary.Command

variable {m : Type → Type} [Monad m]

def commands (kit : Toolkit) : List (Subcommand m) :=
  [parseCommand, evalCommand kit, tokensCommand, grammarCommand kit, replCommand kit,
    exploreCommand kit]

/-- The names under which commands are suggested. -/
def commandNames : List String := ["parse", "eval", "tokens", "grammar", "repl", "explore"]

/-- The command with the given name. -/
def command? (kit : Toolkit) (name : String) : Option (Subcommand m) :=
  (commands kit).find? fun c => c.name == name || c.aliases.contains name

/-- The report of a name that no command has.  Names that look like it are listed. -/
def unknownReport (kit : Toolkit) (name : String) : Report :=
  let similar := nameList "similar command(s)" (kit.similar name commandNames)
  (Report.failed s!"{name}: unknown sub command").warned similar

/-- Runs the command that the first argument names.  Without arguments there is nothing to do. -/
def execute (kit : Toolkit) (host : Host m) : List String → m Report
  | [] => pure ⟨2, "", "", none⟩
  | name :: args =>
    match command? kit name with
    | some c => c.run host args
    | none => pure (unknownReport kit name)

/-- Runs the program.  It has no flags of its own: one before the name of the command is reported
and passed over. -/
def run (kit : Toolkit) (host : Host m) (args : List String) : m Report :=
  match readFlags ([] : List (Flag Unit)) () args with
  | (.ok (), args) => execute kit host args
  | (.error .help, _) => pure ⟨2, "", "", none⟩
  | (.error (.wrong message), args) => do
    let report ← execute kit host args
    return report.warned (message ++ "\n" ++ usage "exprs" ([] : List (Flag Unit)))

end Formulary.Command
