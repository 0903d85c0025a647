import Formulary.Number.Integer

/-!
# Flags

The flags of a command stand before its operands: `-name value`, `-name=value`, or only `-name` for
a switch, with one hyphen or two.  The first argument that is no flag ends them, and so does `--`,
which is dropped.
-/

namespace Formulary.Command

/-- A flag that changes options of type `σ`. -/
structure Flag (σ : Type) where
  name : String
  /-- The word for its value in the usage; a switch has none. -/
  operand : Option String
  usage : String
  /-- The value shown as the default, if there is one to show. -/
  preset : Option String
  /-- Takes a value, or says why not. -/
  accept : σ → String → Except String σ

inductive FlagError where
  | help
  | wrong (message : String)
  deriving Repr, DecidableEq

/-! ## Kinds of flags -/

section

variable {σ : Type}

/-- A flag that takes any text. -/
def Flag.text (name usage : String) (preset : Option String) (set : σ → String → σ) : Flag σ :=
  ⟨name, some "string", usage, preset, fun s v => .ok (set s v)⟩

/-- A flag that takes a whole number. -/
def Flag.whole (name usage : String) (set : σ → Int → σ) : Flag σ :=
  ⟨name, some "int", usage, none, fun s v =>
    match Number.readInteger v with
    | .ok n => .ok (set s n)
    | .error .malformed => .error "parse error"
    | .error .outOfRange => .error "value out of range"⟩

/-- The truth value that a text stands for. -/
def truthValue? (s : String) : Option Bool :=
  if ["1", "t", "T", "true", "TRUE", "True"].contains s then some true
  else if ["0", "f", "F", "false", "FALSE", "False"].contains s then some false
  else none

/-- A switch. -/
def Flag.switch (name usage : String) (set : σ → Bool → σ) : Flag σ :=
  ⟨name, none, usage, none, fun s v =>
    match truthValue? v with
    | some b => .ok (set s b)
    | none => .error "parse error"⟩

/-! ## Usage -/

def Flag.usageText (f : Flag σ) : String :=
  let operand := match f.operand with
    | some word => " " ++ word
    | none => ""
  let preset := match f.preset with
    | some v => " (default " ++ Text.quote v ++ ")"
    | none => ""
  "  -" ++ f.name ++ operand ++ "\n    \t" ++ f.usage ++ preset ++ "\n"

/-- The usage of a command.  Its flags are listed in the order in which they are given. -/
def usage (command : String) (flags : List (Flag σ)) : String :=
  "Usage of " ++ command ++ ":\n" ++ String.join (flags.map Flag.usageText)

/-! ## Reading -/

/-- What an argument is. -/
inductive Argument where
  | operand
  /-- The mark that ends the flags. -/
  | terminator
  | malformed
  | flag (name : String) (value : Option String)
  deriving Repr, DecidableEq

/-- The name and value of a flag without its hyphens. -/
def flagOf (cs : List Char) : Argument :=
  match cs with
  | [] => .malformed
  | c :: rest =>
    if c == '-' || c == '=' then .malformed
    else
      match rest.span (· != '=') with
      | (name, []) => .flag (String.ofList (c :: name)) none
      | (name, _ :: value) => .flag (String.ofList (c :: name)) (some (String.ofList value))

def argumentOf (s : String) : Argument :=
  match s.toList with
  | ['-', '-'] => .terminator
  | '-' :: '-' :: rest => flagOf rest
  | '-' :: c :: rest => flagOf (c :: rest)
  | _ => .operand

/-- The error of a value that a flag does not take. -/
def refusal (f : Flag σ) (value reason : String) : FlagError :=
  if f.operand.isNone then
    .wrong s!"invalid boolean value {Text.quote value} for -{f.name}: {reason}"
  else .wrong s!"invalid value {Text.quote value} for flag -{f.name}: {reason}"

/-- The options with a value given to a flag. -/
def Flag.set (f : Flag σ) (s : σ) (value : String) : Except FlagError σ :=
  (f.accept s value).mapError (refusal f value)

/-- The error of a flag that there is not. -/
def unknownFlag (name : String) : FlagError :=
  if name == "help" || name == "h" then .help
  else .wrong s!"flag provided but not defined: -{name}"

/-- Reads the flags at the front of the arguments.  Those left are given back in any case. -/
def readFlags (flags : List (Flag σ)) (s : σ) : List String → Except FlagError σ × List String
  | [] => (.ok s, [])
  | a :: args =>
    match argumentOf a with
    | .operand => (.ok s, a :: args)
    | .terminator => (.ok s, args)
    | .malformed => (.error (.wrong s!"bad flag syntax: {a}"), a :: args)
    | .flag name value =>
      match flags.find? (·.name == name) with
      | none => (.error (unknownFlag name), args)
      | some f =>
        match f.operand, value, args with
        | none, value, args =>
          match f.set s (value.getD "true") with
          | .ok s => readFlags flags s args
          | .error e => (.error e, args)
        | some _, some value, args =>
          match f.set s value with
          | .ok s => readFlags flags s args
          | .error e => (.error e, args)
        | some _, none, value :: args =>
          match f.set s value with
          | .ok s => readFlags flags s args
          | .error e => (.error e, args)
        | some _, none, [] => (.error (.wrong s!"flag needs an argument: -{name}"), [])

end

end Formulary.Command
