import Formulary.Text.Quoted
import Formulary.Tree

/-!
# Trees as text

Four notations: nested lists in parentheses, the compact call notation, an outline with one node a
line, and a directed graph for drawing.  A label function turns values into text.
-/

namespace Formulary.Tree

variable {α : Type}

/-! ## Lists and calls -/

mutual

/-- The list notation `(+ 1 (* 2 3))` (`Lisp`). -/
def lisp (label : α → String) : Tree α → String
  | node v [] => label v
  | node v (t :: ts) => "(" ++ label v ++ lispList label (t :: ts) ++ ")"

def lispList (label : α → String) : List (Tree α) → String
  | [] => ""
  | t :: ts => " " ++ lisp label t ++ lispList label ts

end

mutual

/-- The call notation `+(1,*(2,3))` (`Parentheses`). -/
def parens (label : α → String) : Tree α → String
  | node v [] => label v
  | node v (t :: ts) => label v ++ "(" ++ parens label t ++ parensList label ts ++ ")"

def parensList (label : α → String) : List (Tree α) → String
  | [] => ""
  | t :: ts => "," ++ parens label t ++ parensList label ts

end

/-! ## Outlines -/

/-- What stands in front of a node and in front of the lines below it, for a node that has siblings
after it and for the last one. -/
def branch (last : Bool) : String := if last then "└── " else "├── "

def indent (last : Bool) : String := if last then "    " else "│   "

mutual

/-- The lines of a node below the margin `margin`. -/
def outlineNode (label : α → String) (margin : String) (last : Bool) : Tree α → String
  | node v ts =>
    margin ++ branch last ++ label v ++ "\n" ++ outlineList label (margin ++ indent last) ts

def outlineList (label : α → String) (margin : String) : List (Tree α) → String
  | [] => ""
  | t :: ts => outlineNode label margin ts.isEmpty t ++ outlineList label margin ts

end

/-- One node a line, the children drawn below their parent (`Tree`). -/
def outline (label : α → String) : Tree α → String
  | node v ts => label v ++ "\n" ++ outlineList label "" ts

/-! ## Graphs -/

/-- A line of a drawn graph. -/
inductive GraphLine where
  | node (id : Nat) (label : String)
  | edge (parent child : Nat)
  deriving Repr, DecidableEq

def GraphLine.text : GraphLine → String
  | .node id label => s!"\tnode{id} [label={Text.quote label}];\n"
  | .edge parent child => s!"\tnode{parent} -> node{child};\n"

mutual

/-- The lines of a tree whose nodes are numbered from `id` on, and the first number left. -/
def graphNode (label : α → String) (id : Nat) : Tree α → List GraphLine × Nat
  | node v ts =>
    let (below, next) := graphList label id (id + 1) ts
    (.node id (label v) :: below, next)

/-- Each subtree is followed by the edge from its parent. -/
def graphList (label : α → String) (parent next : Nat) : List (Tree α) → List GraphLine × Nat
  | [] => ([], next)
  | t :: ts =>
    let (own, afterOwn) := graphNode label next t
    let (others, afterAll) := graphList label parent afterOwn ts
    (own ++ .edge parent next :: others, afterAll)

end

/-- The lines of the graph of a tree. -/
def graphLines (label : α → String) (t : Tree α) : List GraphLine := (graphNode label 0 t).1

/-- The tree as a directed graph (`Dot`).  A graph without a name is called `tree`. -/
def graph (label : α → String) (name : String) (t : Tree α) : String :=
  "digraph " ++ Text.quote (if name == "" then "tree" else name) ++ " \x7b\n"
    ++ String.join ((graphLines label t).map (·.text)) ++ "\x7d\n"

end Formulary.Tree
