import Formulary.Session
import Formulary.Text.Padding
import Formulary.TextField

/-!
# The explorer

A field in which a formula is typed, with the tree of the formula and its value below.  Tree, value
and failure are those of the text in the field, whatever was done before and whatever kind of field
it is.
-/

namespace Formulary

open Arith (Dialect FormulaError formulaMessage)

/-- What is shown for a text. -/
structure Finding where
  tree : String
  value : String
  failure : Option FormulaError

namespace Finding

/-- Nothing is shown for an empty text. -/
def nothing : Finding := ⟨"", "", none⟩

/-- The text without line ends at its end. -/
def dropLastLineEnds (s : String) : String :=
  String.ofList (s.toList.reverse.dropWhile (· == '\n')).reverse

/-- What is shown for a text.  A formula without a value shows why it has none. -/
def ofText (similar : Text.Similarity) (d : Dialect) (env : Environment Float) (text : String) :
    Finding :=
  let text := Text.trim text
  if text.isEmpty then nothing
  else
    match d.parse (.ofString text) with
    | .error e => ⟨"", "", some e⟩
    | .ok t =>
      let value := match Arith.eval similar env t with
        | .ok v => Number.write v
        | .error e => e.message
      ⟨dropLastLineEnds (t.outline (·.label)), value, none⟩

end Finding

structure Explorer (k : TextField) where
  dialect : Dialect
  env : Environment Float
  /-- Tells which names look like one that is not known. -/
  similar : Text.Similarity
  field : k.State
  width : Int
  finding : Finding

namespace Explorer

variable {k : TextField}

/-- The text in the field. -/
def input (x : Explorer k) : String := k.text x.field

/-- Looks at the text in the field again (`refresh`). -/
def refresh (x : Explorer k) : Explorer k :=
  { x with finding := .ofText x.similar x.dialect x.env x.input }

/-- An explorer with a text in its field (`newExplorer`). -/
def start (k : TextField) (similar : Text.Similarity) (d : Dialect) (env : Environment Float)
    (text : String) : Explorer k :=
  refresh ⟨d, env, similar, k.put k.blank text, 0, .nothing⟩

def prompt : String := "formula> "

/-- The room for the text on a screen of the given width. -/
def roomOn (width : Int) : Int := max (width - prompt.length - 2) 10

/-- The explorer after something happened (`Update`).  Quitting does not reach the field. -/
def update (x : Explorer k) (m : Happening) : Explorer k :=
  match m with
  | .quit => x
  | .resized width =>
    refresh { x with width, field := k.handle (k.resize x.field (roomOn width)) m }
  | .typed _ | .backspace => refresh { x with field := k.handle x.field m }

/-! ## The screen -/

/-- The lines in a frame with round corners, and a blank on both sides. -/
def framed (text : String) : String :=
  let lines := text.splitOn "\n"
  let width := lines.foldl (fun w l => max w l.length) 0
  let bar := String.ofList (List.replicate (width + 2) '─')
  "╭" ++ bar ++ "╮\n"
    ++ String.join (lines.map fun l => "│ " ++ Text.padRight width l ++ " │\n")
    ++ "╰" ++ bar ++ "╯"

/-- What stands below the field. -/
def body (f : Finding) : String :=
  match f.failure with
  | some e => formulaMessage e
  | none => if f.tree.isEmpty then "" else framed f.tree ++ "\n= " ++ f.value

/-- The screen, on which the field is drawn as `field`. -/
def view (x : Explorer k) (field : String) : String :=
  "exprs explorer\n\n" ++ field ++ "\n\n" ++ body x.finding ++ "\n\nesc/ctrl+c: quit\n"

end Explorer

end Formulary
