import Formulary.Ebnf.Lexeme
import Formulary.Text.Quoted

/-!
# A checker of productions

The package that the program reads and verifies productions with.  Reading goes on after a fault,
so that all faults of a text are reported, in the order in which they are met.
-/

namespace Formulary.Ebnf

/-! ## Reading -/

/-- Something else was expected at a place. -/
def expected (what : String) (s : Spot) : Problem :=
  ⟨s.pos, s!"expected \"{what}\", found {s.lexeme.shown}"⟩

/-- The next lexeme; `ending` is the end of the text. -/
def nextSpot (ending : Spot) (l : List Spot) : Spot := l.headD ending

/-- A problem unless the next lexeme is the character `c`. -/
def checkChar (ending : Spot) (c : Char) (l : List Spot) : List Problem :=
  let s := nextSpot ending l
  if s.lexeme == .char c then [] else [expected (Text.quote (String.singleton c)) s]

/-- The term that a lexeme is. -/
def termOf? (s : Spot) : Option Term :=
  match s.lexeme with
  | .name text => some (.name text s.pos)
  | .literal text => some (.literal (String.ofList ((Text.unquote? text.toList).getD [])))
  | _ => none

/-- The outcome of reading alternatives. -/
structure Alternatives where
  list : List (List Term)
  problems : List Problem
  rest : List Spot

/-- Ends the sequence `terms`, its last term first, at the place `s`. -/
def sequenceEnd (terms : List Term) (s : Spot) : List Problem :=
  if terms.isEmpty then [expected "term" s] else []

/-- Reads alternatives; `terms` are the terms read of the first of them, the last one first. -/
def alternativesFrom (ending : Spot) (terms : List Term) : List Spot → Alternatives
  | [] => ⟨[terms.reverse], sequenceEnd terms ending, []⟩
  | s :: rest =>
    match termOf? s with
    | some t => alternativesFrom ending (t :: terms) rest
    | none =>
      if s.lexeme == .char '|' then
        let others := alternativesFrom ending [] rest
        ⟨terms.reverse :: others.list, sequenceEnd terms s ++ others.problems, others.rest⟩
      else ⟨[terms.reverse], sequenceEnd terms s, s :: rest⟩

theorem alternativesFrom_length (ending : Spot) (terms : List Term) (l : List Spot) :
    (alternativesFrom ending terms l).rest.length ≤ l.length := by
  induction l generalizing terms with
  | nil => simp [alternativesFrom]
  | cons s rest ih =>
    simp only [alternativesFrom]
    split
    · have := ih (‹Term› :: terms)
      simp only [List.length_cons]
      omega
    · split
      · have := ih []
        simp only [List.length_cons]
        omega
      · simp

/-- Reads what stands between the equals sign and the full stop, which may be nothing. -/
def definiens (ending : Spot) (l : List Spot) : Alternatives :=
  if (nextSpot ending l).lexeme == .char '.' then ⟨[], [], l⟩ else alternativesFrom ending [] l

theorem definiens_length (ending : Spot) (l : List Spot) :
    (definiens ending l).rest.length ≤ l.length := by
  unfold definiens
  split
  · simp
  · exact alternativesFrom_length ending [] l

/-- The problem of a name that is none. -/
def checkName (s : Spot) : List Problem :=
  match s.lexeme with
  | .name _ => []
  | _ => [expected "Ident" s]

/-- Reads productions up to the end of the text.  Each one starts with the lexeme after the full
stop of the one before, or what stood in its place. -/
def productionsFrom (ending : Spot) : List Spot → List Production × List Problem
  | [] => ([], [])
  | first :: l =>
    let body := definiens ending l.tail
    let own := checkName first ++ checkChar ending '=' l ++ body.problems
      ++ checkChar ending '.' body.rest
    let (others, problems) := productionsFrom ending body.rest.tail
    (⟨first.lexeme.text, first.pos, body.list⟩ :: others, own ++ problems)
termination_by l => l.length
decreasing_by
  have := definiens_length ending l.tail
  simp only [List.length_tail, List.length_cons] at this ⊢
  omega

/-- Keeps the first production of each name; a later one is a problem. -/
def declare (seen : List Production) : List Production → List Production × List Problem
  | [] => (seen, [])
  | p :: ps =>
    if seen.any (·.name == p.name) then
      let (all, problems) := declare seen ps
      (all, ⟨p.pos, s!"{p.name} declared already"⟩ :: problems)
    else declare (seen ++ [p]) ps

/-- Reads a text of productions. -/
def read (s : Text.Source) : List Production × List Problem :=
  let (l, ending) := spots (.ofSource s)
  let (productions, problems) := productionsFrom ending l
  let (declared, repeated) := declare [] productions
  (declared, problems ++ repeated)

/-! ## Verification -/

/-- The state of the search for the productions in use. -/
structure Search where
  /-- Productions met and not looked at, the latest first. -/
  waiting : List Production
  /-- The names of the productions met. -/
  reached : List String
  problems : List Problem

/-- Notes a production as met, unless it was met before. -/
def Search.push (s : Search) (p : Production) : Search :=
  if s.reached.contains p.name then s
  else { s with waiting := p :: s.waiting, reached := p.name :: s.reached }

/-- Follows a reference from a production, a lexical one or not. -/
def Search.follow (all : List Production) (lexical : Bool) (s : Search)
    (reference : String × Position) : Search :=
  let (name, pos) := reference
  let s := match all.find? (·.name == name) with
    | some p => s.push p
    | none => { s with problems := s.problems ++ [⟨pos, s!"missing production {name}"⟩] }
  if lexical && !isLexical name then
    { s with problems := s.problems ++ [⟨pos, s!"reference to non-lexical production {name}"⟩] }
  else s

/-- Looks at `rounds` productions at most. -/
def Search.run (all : List Production) : (rounds : Nat) → Search → Search
  | 0, s => s
  | rounds + 1, s =>
    match s.waiting with
    | [] => s
    | p :: waiting =>
      run all rounds (p.references.foldl (follow all (isLexical p.name)) { s with waiting })

/-- The problems of the productions, of which the one named `start` is the start: references to
missing productions and to non-lexical ones from lexical ones, and productions not in use.  Each
production is looked at once. -/
def verify (all : List Production) (start : String) : List Problem :=
  match all.find? (·.name == start) with
  | none => [⟨.nowhere, s!"no start production {start}"⟩]
  | some p =>
    let s := Search.run all all.length ((Search.mk [] [] []).push p)
    let unused := all.filter fun p => !s.reached.contains p.name
    s.problems ++ unused.map fun p => ⟨p.pos, s!"{p.name} is unreachable"⟩

/-- The reader and the verification above as a package. -/
def checker : Package := ⟨read, verify⟩

end Formulary.Ebnf
