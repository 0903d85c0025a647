import Formulary.Chain.Parser

/-!
# The grammar of a chain

What a chain of precedence levels is meant to read, said without its parser.  With the levels
`0 … n-1` an expression of level `i < n` is one of level `i + 1`, or an expression of level `i`, an
operator of that level and an expression of level `i + 1`.  Behind the last level stand the calls,
the groups in parentheses and the operands; an operand is an identifier or a unary operator before
another operand.

`Derives` is that grammar as a relation between a list of tokens, the tree it is read as and its
nesting: an identifier has nesting 1, and a group, the arguments of a call and a unary operator nest
what they enclose one deeper.

Which operators belong to a level is a parameter of the relation.  `Parser.operator` takes the
levels as they are listed.  `Parser.innermost` gives an operator that is listed in several levels
to the last of them only; that is the grammar the parser follows, because the inner level sees a
token first. -/

namespace Formulary.Chain

variable {ε α : Type}

/-! ## 1. Operators by level -/

/-- The level with the given index lists the code. -/
def Parser.operator (p : Parser ε α) (level : Nat) (code : Int) : Prop :=
  ∃ ops, p.levels[level]? = some ops ∧ code ∈ ops

/-- The level is the last one that lists the code. -/
def Parser.innermost (p : Parser ε α) (level : Nat) (code : Int) : Prop :=
  p.operator level code ∧ ∀ other, level < other → ¬ p.operator other code

/-- Only levels of the chain have operators. -/
theorem Parser.operator.lt {p : Parser ε α} {level : Nat} {code : Int} (h : p.operator level code) :
    level < p.levels.length := by
  obtain ⟨ops, hops, -⟩ := h
  exact (List.getElem?_eq_some_iff.mp hops).1

/-! ## 2. Derivations -/

/-- The forms that the grammar describes. -/
inductive Form where
  /-- An expression of a level; the one after the last stands for calls, groups and operands. -/
  | level (index : Nat)
  /-- Unary operators before an identifier. -/
  | operand
  /-- Expressions with commas between them. -/
  | arguments

/-- `Derives p op form n w ts`: the tokens `w` are of the given form, nest `n` deep and are read as
the trees `ts`, of which there is one unless the form is that of arguments.  `op` tells the
operators of the levels. -/
inductive Derives (p : Parser ε α) (op : Nat → Int → Prop) :
    Form → Nat → List Token → List (Tree α) → Prop
  | tighter {i n : Nat} {w : List Token} {t : Tree α} :
      i < p.levels.length → Derives p op (.level (i + 1)) n w [t] → Derives p op (.level i) n w [t]
  | binary {i m n : Nat} {u w : List Token} {o : Token} {v : α} {left right : Tree α} :
      op i o.code → p.convert o .binaryOperator = .ok v →
      Derives p op (.level i) m u [left] → Derives p op (.level (i + 1)) n w [right] →
      Derives p op (.level i) (max m n) (u ++ o :: w) [.node v [left, right]]
  | call {n : Nat} {f opening closing : Token} {w : List Token} {v : α} {args : List (Tree α)} :
      f.code ∈ p.identifiers → p.isFunction f.value = true → p.convert f .function = .ok v →
      opening.code = p.leftParen.code → closing.code = p.rightParen.code →
      Derives p op .arguments n w args →
      Derives p op (.level p.levels.length) (n + 1) (f :: opening :: (w ++ [closing]))
        [.node v args]
  | group {n : Nat} {opening closing : Token} {w : List Token} {t : Tree α} :
      opening.code = p.leftParen.code → closing.code = p.rightParen.code →
      Derives p op (.level 0) n w [t] →
      Derives p op (.level p.levels.length) (n + 1) (opening :: (w ++ [closing])) [t]
  | operand {n : Nat} {w : List Token} {t : Tree α} :
      Derives p op .operand n w [t] → (∀ a, w = [a] → p.isFunction a.value = false) →
      Derives p op (.level p.levels.length) n w [t]
  | unary {n : Nat} {o : Token} {w : List Token} {v : α} {t : Tree α} :
      o.code ∈ p.unaries → p.convert o .unaryOperator = .ok v → Derives p op .operand n w [t] →
      Derives p op .operand (n + 1) (o :: w) [.node v [t]]
  | atom {a : Token} {v : α} :
      a.code ∈ p.identifiers → p.convert a .atom = .ok v → Derives p op .operand 1 [a] [.leaf v]
  | last {n : Nat} {w : List Token} {t : Tree α} :
      Derives p op (.level 0) n w [t] → Derives p op .arguments n w [t]
  | more {m n : Nat} {u w : List Token} {comma : Token} {t : Tree α} {ts : List (Tree α)} :
      comma.code = p.comma.code → Derives p op (.level 0) m u [t] → Derives p op .arguments n w ts →
      Derives p op .arguments (max m n) (u ++ comma :: w) (t :: ts)

namespace Derives

variable {p : Parser ε α} {op : Nat → Int → Prop} {form : Form} {n : Nat} {w : List Token}
  {ts : List (Tree α)}

/-- More operators allow more derivations. -/
theorem mono {op' : Nat → Int → Prop} (hop : ∀ i code, op i code → op' i code)
    (h : Derives p op form n w ts) : Derives p op' form n w ts := by
  induction h with
  | tighter hi _ ih => exact .tighter hi ih
  | binary ho hv _ _ ihl ihr => exact .binary (hop _ _ ho) hv ihl ihr
  | call hf hfun hv hl hr _ ih => exact .call hf hfun hv hl hr ih
  | group hl hr _ ih => exact .group hl hr ih
  | operand _ hfun ih => exact .operand ih hfun
  | unary ho hv _ ih => exact .unary ho hv ih
  | atom ha hv => exact .atom ha hv
  | last _ ih => exact .last ih
  | more hc _ _ ihu ihw => exact .more hc ihu ihw

/-- **Each nesting takes a token**, and the innermost operand takes one more. -/
theorem nesting_le_length (h : Derives p op form n w ts) : n ≤ w.length := by
  induction h with
  | tighter _ _ ih => exact ih
  | binary _ _ _ _ ihl ihr =>
    simp only [List.length_append, List.length_cons]
    omega
  | call _ _ _ _ _ _ ih =>
    simp only [List.length_append, List.length_cons]
    omega
  | group _ _ _ ih =>
    simp only [List.length_append, List.length_cons]
    omega
  | operand _ _ ih => exact ih
  | unary _ _ _ ih =>
    simp only [List.length_cons]
    omega
  | atom _ _ => simp
  | last _ ih => exact ih
  | more _ _ _ ihu ihw =>
    simp only [List.length_append, List.length_cons]
    omega

/-- A nesting is at least 1. -/
theorem nesting_pos (h : Derives p op form n w ts) : 0 < n := by
  induction h with
  | tighter _ _ ih => exact ih
  | binary _ _ _ _ ihl ihr => omega
  | call _ _ _ _ _ _ ih => omega
  | group _ _ _ ih => omega
  | operand _ _ ih => exact ih
  | unary _ _ _ ih => omega
  | atom _ _ => omega
  | last _ ih => exact ih
  | more _ _ _ ihu ihw => omega

/-- Nothing is derived from no token. -/
theorem ne_nil (h : Derives p op form n w ts) : w ≠ [] := by
  have hpos := h.nesting_pos
  have hle := h.nesting_le_length
  rintro rfl
  simp only [List.length_nil] at hle
  omega

/-- An expression of a level is one of each looser level. -/
theorem loosen {i j : Nat} {t : Tree α} (hj : j ≤ p.levels.length) (hij : i ≤ j)
    (h : Derives p op (.level j) n w [t]) : Derives p op (.level i) n w [t] := by
  induction hij with
  | refl => exact h
  | step hij ih => exact ih (by omega) (.tighter (by omega) h)

/-- **An operand is an identifier or starts with a unary operator.** -/
theorem operand_cases {n : Nat} {w : List Token} {ts : List (Tree α)}
    (h : Derives p op .operand n w ts) :
    (∃ a, w = [a] ∧ a.code ∈ p.identifiers) ∨
      ∃ o w', w = o :: w' ∧ w' ≠ [] ∧ o.code ∈ p.unaries := by
  cases h with
  | unary ho _ h' => exact .inr ⟨_, _, rfl, h'.ne_nil, ho⟩
  | atom ha _ => exact .inl ⟨_, rfl, ha⟩

/-- An operand of one token has no children. -/
theorem children_of_single {a : Token} {t : Tree α} (h : Derives p op .operand n [a] [t]) :
    t.children = [] := by
  cases h with
  | unary _ _ h' => exact absurd rfl h'.ne_nil
  | atom _ _ => rfl

/-- **An expression of one token is an operand**, and not the name of a function: any other rule
takes more tokens. -/
theorem operand_of_single {a : Token} {i : Nat} (h : Derives p op (.level i) n [a] ts) :
    Derives p op .operand n [a] ts ∧ p.isFunction a.value = false := by
  -- the chain is gone down level by level, so this is by induction and not by cases
  generalize hform : Form.level i = form, hw : [a] = w at h
  induction h generalizing i with
  | tighter _ _ ih => exact ih rfl hw
  | binary _ _ hleft _ _ _ =>
    obtain ⟨hnil, -⟩ | ⟨-, hnil⟩ := List.singleton_eq_append_iff.mp hw
    · exact absurd hnil hleft.ne_nil
    · cases hnil
  | call _ _ _ _ _ _ _ => simp at hw
  | group _ _ _ _ => simp at hw
  | operand h' hfun _ =>
    subst hw
    exact ⟨h', hfun a rfl⟩
  | unary _ _ _ _ => cases hform
  | atom _ _ => cases hform
  | last _ _ => cases hform
  | more _ _ _ _ _ => cases hform

end Derives

end Formulary.Chain
