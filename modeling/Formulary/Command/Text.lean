import Formulary.Arith.Scan
import Formulary.Command.Host
import Formulary.Command.Toolkit
import Formulary.Rules.Parser
import Formulary.Rules.Production
import Formulary.Text.Padding

/-!
# Commands on texts

`tokens` prints the tokens of a formula or a grammar, `grammar` reads a grammar from a file, checks
it and prints it.
-/

namespace Formulary.Command

variable {m : Type → Type} [Monad m]

/-! ## tokens -/

def tokenLine (t : Token) : String := Text.padRight 8 t.pos.text ++ " " ++ t.text ++ "\n"

/-- Prints the tokens of a feed.  A failure is reported after the tokens before it. -/
def tokensReport (f : Feed) : Report :=
  let (tokens, ending) := f.untilEnd
  let out := String.join (tokens.map tokenLine)
  match ending with
  | .ok t => .wrote (out ++ tokenLine t)
  | .error e => { Report.failed e.message with out }

/-- The scanner of the language of the given name. -/
def scannerOf? (lang : String) : Option (Text.Source → Feed) :=
  match lang with
  | "math" | "" => some Arith.feed
  | "bnf" => some Rules.feed
  | _ => none

/-- The content of the file that the only operand names or, if there is none, the operands
(`readSource`). -/
def sourceText (host : Host m) (operands : List String) : m String :=
  match operands with
  | [name] => do
    match ← host.read name with
    | .ok content => pure content
    | .error _ => inputText host operands
  | _ => inputText host operands

def tokensCommand : Subcommand m :=
  .ofFlags "tokens" ["scan"] "print the tokens of a formula or of a grammar"
    [.text "lang" "language of the input: math or bnf" (some "math") fun _ lang => lang]
    "math" fun host lang operands => do
      let text ← sourceText host operands
      match scannerOf? lang with
      | some scanner => return tokensReport (scanner (.ofString text))
      | none => return .failed s!"{lang}: unsupported language"

/-! ## grammar -/

structure GrammarOptions where
  ebnf : Bool
  terminals : Bool
  verify : Bool

def grammarFlags : List (Flag GrammarOptions) := [
  .switch "ebnf" "write the grammar in ebnf notation" fun o ebnf => { o with ebnf },
  .switch "terminals" "print the terminals of the grammar" fun o terminals => { o with terminals },
  .switch "verify" "check that all rules are defined and reachable from the start rule"
    fun o verify => { o with verify }]

/-- The lines that list names under a title, if there are any. -/
def nameList (title : String) (names : List String) : String :=
  if names.isEmpty then ""
  else title ++ "\n" ++ String.join (names.map fun n => "- " ++ n ++ "\n")

/-- The report of a grammar that was refused, with the rules that look like a missing one
(`reportGrammar`). -/
def refusedReport (e : Rules.GrammarError) : Report :=
  let similar := match e with
    | .undefined use => nameList "similar rule(s)" use.others
    | _ => ""
  ⟨1, "", e.message ++ "\n" ++ similar, none⟩

/-- The grammar in the notation that the options ask for. -/
def grammarText (o : GrammarOptions) (g : Rules.Grammar) : String :=
  if o.terminals then String.join (g.terminals.map (· ++ "\n"))
  else if o.ebnf then g.ebnf
  else g.text

/-- The grammar in a file.  A directory is opened like a file, and its first character can not be
read. -/
def readGrammar : Except FileError String → Except String Rules.Grammar
  | .ok content => (Rules.parse (.ofString content)).mapError (·.message)
  | .error (.missing name) => .error (FileError.missing name).message
  | .error (.directory _) =>
    .error (Failure.unreadable ⟨0, "invalid character", .start⟩).message

def grammarReport (kit : Toolkit) (o : GrammarOptions) (g : Rules.Grammar) : Report :=
  match if o.verify then g.verify kit.similar kit.productions else g.validate kit.similar with
  | .ok () => .wrote (grammarText o g)
  | .error e => refusedReport e

def grammarCommand (kit : Toolkit) : Subcommand m :=
  .ofFlags "grammar" [] "parse and check a bnf grammar" grammarFlags
    ⟨false, false, false⟩ fun host o operands => do
      match readGrammar (← host.read (operands.headD "")) with
      | .ok g => return grammarReport kit o g
      | .error message => return .failed message

end Formulary.Command
