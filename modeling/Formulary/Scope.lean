import Formulary.Bindings

/-!
# Scopes

A scope binds names to values and may be enclosed by another one, in which names are looked for that
it does not bind itself.  Scopes live in a store and are shared: what is defined in one is seen from
all that it encloses.  A read-only scope takes no definitions, and its names can not be defined
again in a scope it encloses.

A delegate stands for another scope without giving its nature away: everything asked of it is asked
of that scope, but the check for read-only names does not look past it.
-/

namespace Formulary

inductive ScopeError where
  | undefined (name : String)
  | readOnly (name : String)
  deriving Repr, DecidableEq

def ScopeError.message : ScopeError → String
  | undefined name => s!"{name}: undefined identifier"
  | readOnly name => s!"{name}: read only identifier"

structure Scope (α : Type) where
  bindings : Bindings α
  /-- The place in the store of the enclosing scope. -/
  parent : Option Nat
  readOnly : Bool
  deriving Repr

inductive ScopeEntry (α : Type) where
  | scope (s : Scope α)
  | delegate (target : Nat)
  deriving Repr

/-- A store of scopes; a scope is named by its place.  Scopes refer to earlier places only. -/
structure Scopes (α : Type) where
  entries : List (ScopeEntry α)
  deriving Repr

namespace Scopes

variable {α : Type}

def empty : Scopes α := ⟨[]⟩

/-- Adds an entry, and says at which place. -/
def add (s : Scopes α) (e : ScopeEntry α) : Scopes α × Nat :=
  (⟨s.entries ++ [e]⟩, s.entries.length)

/-- The scope at a place together with that place; a delegate is followed. -/
def scopeAt (s : Scopes α) : (steps : Nat) → (place : Nat) → Option (Nat × Scope α)
  | 0, _ => none
  | steps + 1, place =>
    match s.entries[place]? with
    | some (.scope sc) => some (place, sc)
    | some (.delegate target) => scopeAt s steps target
    | none => none

/-- The scopes seen from a place, the innermost first. -/
def chainFrom (s : Scopes α) : (steps : Nat) → (place : Nat) → List (Nat × Scope α)
  | 0, _ => []
  | steps + 1, place =>
    match s.entries[place]? with
    | some (.scope sc) =>
      (place, sc) :: (match sc.parent with
        | some outer => chainFrom s steps outer
        | none => [])
    | some (.delegate target) => chainFrom s steps target
    | none => []

/-- The scopes seen from a place.  No chain is longer than the store. -/
def chain (s : Scopes α) (place : Nat) : List (Nat × Scope α) := s.chainFrom s.entries.length place

/-- The scopes met from a place outwards before the first delegate. -/
def openChainFrom (s : Scopes α) : (steps : Nat) → (place : Option Nat) → List (Scope α)
  | 0, _ => []
  | _, none => []
  | steps + 1, some place =>
    match s.entries[place]? with
    | some (.scope sc) => sc :: openChainFrom s steps sc.parent
    | _ => []

/-- The value that a name has, seen from a place (`Resolve`). -/
def resolve (s : Scopes α) (place : Nat) (name : String) : Except ScopeError α :=
  match (s.chain place).findSome? fun (_, sc) => sc.bindings.find? name with
  | some v => .ok v
  | none => .error (.undefined name)

/-- Whether the scope must not define the name (`isReadOnly`). -/
def isFixed (s : Scopes α) (sc : Scope α) (name : String) : Bool :=
  sc.readOnly ||
    (s.openChainFrom s.entries.length sc.parent).any fun p => p.readOnly && p.bindings.holds name

/-- Binds a name in the scope at a place (`Define`). -/
def define (s : Scopes α) (place : Nat) (name : String) (v : α) : Except ScopeError (Scopes α) :=
  match s.scopeAt s.entries.length place with
  | none => .error (.undefined name)
  | some (place, sc) =>
    if s.isFixed sc name then .error (.readOnly name)
    else
      let sc := { sc with bindings := sc.bindings.insert name v }
      .ok ⟨s.entries.set place (.scope sc)⟩

/-- The names seen from a place, sorted (`Names`). -/
def names (s : Scopes α) (place : Nat) : List String :=
  ((s.chain place).flatMap fun (_, sc) => sc.bindings.names).mergeSort
    (fun a b => !(decide (b < a))) |>.eraseReps

/-- The number of names bound in the scope at a place itself (`Len`). -/
def count (s : Scopes α) (place : Nat) : Nat :=
  ((s.scopeAt s.entries.length place).map fun (_, sc) => sc.bindings.length).getD 0

/-- The place of the enclosing scope (`Unwrap`); a scope without one is its own. -/
def unwrap (s : Scopes α) (place : Nat) : Nat :=
  match s.entries[place]? with
  | some (.scope sc) => sc.parent.getD place
  | _ => place

end Scopes

/-- A place in a store: all that can be asked and defined from one scope. -/
structure Environment (α : Type) where
  scopes : Scopes α
  place : Nat

namespace Environment

variable {α : Type}

/-- A scope of its own with the given bindings. -/
def ofBindings (b : Bindings α) : Environment α := ⟨⟨[.scope ⟨b, none, false⟩]⟩, 0⟩

def empty : Environment α := ofBindings []

/-- An empty scope enclosed by a read-only one with the given bindings. -/
def within (constants : Bindings α) : Environment α :=
  ⟨⟨[.scope ⟨constants, none, true⟩, .scope ⟨[], some 0, false⟩]⟩, 1⟩

def resolve (e : Environment α) (name : String) : Except ScopeError α :=
  e.scopes.resolve e.place name

def define (e : Environment α) (name : String) (v : α) : Except ScopeError (Environment α) :=
  (e.scopes.define e.place name v).map fun scopes => { e with scopes }

def names (e : Environment α) : List String := e.scopes.names e.place

/-- Defines the names one by one, up to the first that can not be. -/
def defineAll (e : Environment α) (b : Bindings α) : Except ScopeError (Environment α) :=
  b.foldlM (fun e (name, v) => e.define name v) e

end Environment

end Formulary
