import Formulary.Position
import Formulary.Text.Case
import Formulary.Text.Digit
import Formulary.Text.Letter
import Formulary.Text.Source

/-!
# Productions

`Name = Term Term | Term .` defines a name by alternatives, each a sequence of names and literal
texts.  Texts of productions are read and verified by a package (`Ebnf.Package`), of which only the
results are seen here.
-/

namespace Formulary.Ebnf

/-- What a text of productions is blamed for, and where. -/
structure Problem where
  pos : Position
  text : String
  deriving Repr, DecidableEq

/-- The problem as it is reported for the file of the given name. -/
def Problem.message (file : String) (p : Problem) : String :=
  let place := if file == "" then "<input>" else file
  if p.pos.line == 0 then s!"<input>: {p.text}" else s!"{place}:{p.pos.text}: {p.text}"

inductive Term where
  | name (text : String) (pos : Position)
  | literal (text : String)
  deriving Repr, DecidableEq

structure Production where
  name : String
  pos : Position
  alternatives : List (List Term)
  deriving Repr, DecidableEq

/-- The names that a production refers to, with their positions. -/
def Production.references (p : Production) : List (String × Position) :=
  p.alternatives.flatten.filterMap fun
    | .name text pos => some (text, pos)
    | .literal _ => none

/-! ## Names -/

def startsName (c : Char) : Bool := Text.isLetter c || c == '_'

def continuesName (c : Char) : Bool := startsName c || Text.isDigit c

/-- Names that start with a capital are those of non-lexical productions. -/
def isLexical (name : String) : Bool := !(name.toList.head?.any Text.isUpper)

/-! ## The package -/

/-- What reads and verifies texts of productions. -/
structure Package where
  /-- The productions of a text, in the order in which they stand there, and what is wrong with
  it (`Parse`). -/
  read : Text.Source → List Production × List Problem
  /-- What is wrong with productions of which the one of the given name is the start (`Verify`). -/
  verify : List Production → String → List Problem

end Formulary.Ebnf
