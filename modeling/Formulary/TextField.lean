import Formulary.Text.Blank

/-!
# Fields for text

A field holds one line of text that is edited by what happens to it.  What is shown beside a field
looks only at its text, so any kind of field will do (`TextField`).  The one of the program takes
what is typed at the end of its text (`TextField.line`).
-/

namespace Formulary

/-- What can happen to a screen with a field on it. -/
inductive Happening where
  | typed (text : String)
  | backspace
  | quit
  | resized (width : Int)
  deriving Repr, DecidableEq

/-- What typed text stands for: the names of keys are the keys. -/
def Happening.ofTyped (text : String) : Happening :=
  match text with
  | "esc" | "ctrl+c" => .quit
  | "backspace" => .backspace
  | _ => .typed text

/-- A kind of field. -/
structure TextField where
  /-- The fields of this kind, with all that they keep. -/
  State : Type
  /-- A new field. -/
  blank : State
  /-- The field with another text (`SetValue`). -/
  put : State → String → State
  /-- The field with room for the given number of characters. -/
  resize : State → Int → State
  /-- The field after something happened (`Update`). -/
  handle : State → Happening → State
  /-- The text in the field (`Value`). -/
  text : State → String

/-! ## Lines -/

namespace Line

/-- The characters that a line takes for a typed one: blanks for tabs and line ends, and none for
other control characters and for what could not be read. -/
def chars (c : Char) : List Char :=
  if c == '\t' || c == '\n' || c == '\r' then [' ']
  else if Text.isControl c || c == '\uFFFD' then []
  else [c]

/-- The text as a line takes it. -/
def taken (s : String) : String := String.ofList (s.toList.flatMap chars)

/-- A line takes the text as it is. -/
def Held (text : String) : Prop := ∀ c ∈ text.toList, chars c = [c]

variable {text other : String}

/-- **What a line takes for a character, it takes as it is.** -/
theorem chars_of_mem {c d : Char} (h : d ∈ chars c) : chars d = [d] := by
  unfold chars at h
  split at h
  · obtain rfl := List.mem_singleton.mp h
    decide
  next hblank =>
    split at h
    · cases h
    next hplain =>
      obtain rfl := List.mem_singleton.mp h
      rw [chars, if_neg hblank, if_neg hplain]

theorem held_taken (text : String) : Held (taken text) := by
  intro d hd
  rw [taken, String.toList_ofList] at hd
  obtain ⟨c, -, hc⟩ := List.mem_flatMap.mp hd
  exact chars_of_mem hc

theorem Held.append (h : Held text) (h' : Held other) : Held (text ++ other) := by
  intro c hc
  rw [String.toList_append] at hc
  exact (List.mem_append.mp hc).elim (h c) (h' c)

theorem Held.dropLast (h : Held text) : Held (String.ofList text.toList.dropLast) := by
  intro c hc
  rw [String.toList_ofList] at hc
  exact h c ((List.dropLast_sublist _).subset hc)

end Line

/-- A line of text and the room for it. -/
structure Line where
  text : String
  width : Int
  held : Line.Held text

namespace Line

/-- The empty line, of which nothing is known about the room. -/
def blank : Line := ⟨"", 0, by simp [Held]⟩

def put (l : Line) (text : String) : Line := ⟨taken text, l.width, held_taken text⟩

/-- What is typed goes to the end, and the last character is taken away there. -/
def handle (l : Line) : Happening → Line
  | .typed text => ⟨l.text ++ taken text, l.width, l.held.append (held_taken text)⟩
  | .backspace => ⟨String.ofList l.text.toList.dropLast, l.width, l.held.dropLast⟩
  | .quit | .resized _ => l

end Line

/-- Lines as a kind of field. -/
def TextField.line : TextField where
  State := Line
  blank := .blank
  put := Line.put
  resize l width := { l with width }
  handle := Line.handle
  text := Line.text

end Formulary
