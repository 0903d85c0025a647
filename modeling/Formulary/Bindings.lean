/-!
# Bindings

Names with values.  A name stands once; the order is that of the first bindings.
-/

namespace Formulary

/-- Names with their values.  A name stands once. -/
abbrev Bindings (α : Type) := List (String × α)

namespace Bindings

variable {α : Type}

def find? (b : Bindings α) (name : String) : Option α := b.lookup name

def holds (b : Bindings α) (name : String) : Bool := (b.find? name).isSome

/-- Binds the name; a value it had before is replaced. -/
def insert (b : Bindings α) (name : String) (v : α) : Bindings α :=
  match b with
  | [] => [(name, v)]
  | (k, w) :: rest => if k == name then (k, v) :: rest else (k, w) :: insert rest name v

def names (b : Bindings α) : List String := b.map (·.1)

end Bindings

end Formulary
