import Formulary.Proofs.Arith.WellFormed
import Formulary.Proofs.Chain.Marks

/-!
# The level of an operator and the level that reads it

The level that a node stores and the level that has read it come from different tables: the one is
the last level of the profile that lists the name, the other the innermost level of the parser that
knows the code.  They agree on every profile, also where it lists an operator more than once
(`Dialect.level_eq_stage`).

So a tree that is parsed has a looser operator below a tighter one only where the text has a group.
-/

namespace Formulary

/-! ## 1. The trees within a tree -/

namespace Tree

variable {α : Type}

mutual

/-- A tree and all that is below it, as trees. -/
def subtrees : Tree α → List (Tree α)
  | node v ts => node v ts :: subtreesList ts

def subtreesList : List (Tree α) → List (Tree α)
  | [] => []
  | t :: ts => subtrees t ++ subtreesList ts

end

theorem mem_subtreesList {u : Tree α} {ts : List (Tree α)} (h : u ∈ subtreesList ts) :
    ∃ t ∈ ts, u ∈ t.subtrees := by
  induction ts with
  | nil => nomatch h
  | cons t ts ih =>
    rcases List.mem_append.mp h with hfirst | hothers
    · exact ⟨t, List.mem_cons_self, hfirst⟩
    · obtain ⟨t', ht', hu⟩ := ih hothers
      exact ⟨t', List.mem_cons_of_mem t ht', hu⟩

end Tree

namespace Chain

variable {ε α : Type} {p : Parser ε α} {P : Token → Prop}

/-- Marks that are faithful are so all the way down. -/
theorem Faithful.of_mem_subtrees {t u : Tree (α × Mark)} (h : Faithful p P t)
    (hu : u ∈ t.subtrees) : Faithful p P u := by
  induction h with
  | joined ho hop hv hleft hright hl hr ihl ihr =>
    rcases List.mem_cons.mp hu with rfl | hu
    · exact .joined ho hop hv hleft hright hl hr
    · obtain ⟨t, ht, hu'⟩ := Tree.mem_subtreesList hu
      simp only [List.mem_cons, List.not_mem_nil, or_false] at ht
      rcases ht with rfl | rfl
      · exact ihl hu'
      · exact ihr hu'
  | operand hrole hv hts ih =>
    rcases List.mem_cons.mp hu with rfl | hu
    · exact .operand hrole hv hts
    · obtain ⟨t, ht, hu'⟩ := Tree.mem_subtreesList hu
      exact ih t ht hu'

end Chain

namespace Arith

open Chain (Faithful Mark Role Tight plain)

variable {p : Profile} {d : Dialect}

/-! ## 2. Levels of nodes -/

/-- The level that a node stores; only binary operators have one. -/
def Op.level? : Op → Option Int
  | binary _ level => some level
  | _ => none

/-- Only what is converted as a binary operator has a level. -/
theorem level?_of_convert {t : Token} {role : Role} {v : Op} (hrole : role ≠ .binaryOperator)
    (hv : p.convert t role = .ok v) : v.level? = none := by
  cases role with
  | binaryOperator => exact absurd rfl hrole
  | unaryOperator => obtain rfl := Except.ok.inj hv; rfl
  | function => obtain rfl := Except.ok.inj hv; rfl
  | atom =>
    simp only [Profile.convert] at hv
    split at hv
    · cases hread : Number.read t.value with
      | error e => rw [hread] at hv; cases hv
      | ok x =>
        rw [hread] at hv
        obtain rfl := Except.ok.inj hv
        rfl
    · obtain rfl := Except.ok.inj hv
      rfl

/-- **The last level that lists an operator is the level whose loop takes it.** -/
theorem convert_innermost (h : Compiled p d) {o : Token} (ho : Spelled o) {i : Nat}
    (hop : d.parser.innermost i o.code) {v : Op}
    (hv : d.parser.convert o .binaryOperator = .ok v) :
    v = .binary o.value i ∧ p.ListsLast i o.value := by
  obtain ⟨name, -, hcode⟩ := h.operator_iff.mp hop.1
  have hlast : p.ListsLast i o.value := by
    rw [ho.value_eq hcode]
    exact (h.innermost_iff hcode).mp hop
  rw [h.convert] at hv
  obtain rfl := Except.ok.inj hv
  exact ⟨by rw [hlast.levelOf_eq], hlast⟩

/-- The level of a node is the stage that its token was taken at. -/
theorem level?_eq_stage (h : Compiled p d) {t : Tree (Op × Mark)}
    (ht : Faithful d.parser Spelled t) :
    t.value.1.level? = t.value.2.stage.map Nat.cast := by
  cases ht with
  | joined ho hop hv _ _ _ _ =>
    obtain ⟨rfl, -⟩ := convert_innermost h ho hop hv
    rfl
  | operand hrole hv _ =>
    rw [h.convert] at hv
    exact level?_of_convert hrole hv

/-- A tree that is tight enough for a level and stores a looser one stands in a group. -/
theorem enclosed_of_level? (h : Compiled p d) {i : Nat} {t : Tree (Op × Mark)}
    (ht : Faithful d.parser Spelled t) (htight : Tight i t) {level : Int}
    (hlevel : t.value.1.level? = some level) (hlt : level < i) : t.value.2.enclosed = true := by
  rcases htight with henclosed | hstage
  · exact henclosed
  · rw [level?_eq_stage h ht] at hlevel
    obtain ⟨j, hj, rfl⟩ := Option.map_eq_some_iff.mp hlevel
    have hle := hstage j hj
    omega

/-- What is said of a node with two subtrees: those that are looser than their places allow stand
in groups. -/
def Grouped (level : Int) (left right : Tree (Op × Mark)) : Prop :=
  (∀ inner, left.value.1.level? = some inner → inner < level → left.value.2.enclosed = true) ∧
    ∀ inner, right.value.1.level? = some inner → inner ≤ level → right.value.2.enclosed = true

/-- **A binary operator was taken at its level**, the last one that lists it, and what is looser to
its left, or no tighter to its right, stands in a group. -/
theorem grouped_of_faithful (h : Compiled p d) {t : Tree (Op × Mark)}
    (ht : Faithful d.parser Spelled t) {i : Nat} (hstage : t.value.2.stage = some i) :
    p.ListsLast i t.value.1.label ∧
      ∃ left right, t.children = [left, right] ∧ Grouped i left right := by
  cases ht with
  | @joined j o v enclosed left right ho hop hv hleft hright hl hr =>
    obtain rfl := Option.some.inj hstage
    obtain ⟨rfl, hlast⟩ := convert_innermost h ho hop hv
    refine ⟨hlast, left, right, rfl, fun inner hinner hlt => ?_, fun inner hinner hle => ?_⟩
    · exact enclosed_of_level? h hleft hl hinner hlt
    · exact enclosed_of_level? h hright hr hinner (by push_cast; omega)
  | operand _ _ _ => cases hstage

/-! ## 3. Formulas -/

/-- A parse of a formula that marks each node with the level that has read it. -/
def Dialect.markedTrace (d : Dialect) (s : Text.Source) :
    Chain.Outcome Number.NumberError (Tree (Op × Mark)) :=
  Chain.runOn (.ofFeed (feed s)) d.parser.markedParseAll

/-- **The level stored in a node is the level that has read it**, on every profile and every text.
A parse is the parse with marks without its marks.  Each node of a formula that is parsed stores the
level whose loop took its token; that is the last one to list the operator, and what is looser to
its left, or no tighter to its right, was read as a group. -/
theorem Dialect.level_eq_stage (h : Dialect.compile p = .ok d) (s : Text.Source) :
    d.trace s = { d.markedTrace s with result := (d.markedTrace s).result.map plain } ∧
      ∀ f, d.parse s = .ok f → ∃ t, (d.markedTrace s).result = .ok t ∧ plain t = f ∧
        ∀ u ∈ t.subtrees, u.value.1.level? = u.value.2.stage.map Nat.cast ∧
          ∀ i, u.value.2.stage = some i → p.ListsLast i u.value.1.label ∧
            ∃ left right, u.children = [left, right] ∧ Grouped i left right := by
  have hcompiled := Dialect.compiled h
  have htrace := (Chain.Parser.parseAll_projects d.parser).runOn (.ofFeed (feed s))
  refine ⟨htrace, fun f hf => ?_⟩
  rw [Dialect.parse, Dialect.trace, htrace] at hf
  obtain ⟨t, ht, hplain⟩ : ∃ t, (d.markedTrace s).result = .ok t ∧ plain t = f := by
    rw [Dialect.markedTrace]
    cases hresult : (Chain.runOn (.ofFeed (feed s)) d.parser.markedParseAll).result with
    | error e => rw [hresult] at hf; cases hf
    | ok t =>
      rw [hresult] at hf
      exact ⟨t, rfl, Except.ok.inj hf⟩
  refine ⟨t, ht, hplain, fun u hu => ?_⟩
  have hahead : (Cursor.ofFeed (feed s)).ahead = (feed s).untilEnd := Cursor.ahead_ofFeed _
  have hfaithful : Faithful d.parser Spelled t := by
    refine Chain.Parser.parseAll_faithful hcompiled.unsigned ?_ ?_ ht
    · rw [hahead]
      exact Feed.closes_ofScanner advances_scan _
    · rw [hahead]
      exact spelled_of_scan s
  have hu := hfaithful.of_mem_subtrees hu
  exact ⟨level?_eq_stage hcompiled hu, fun i hi => grouped_of_faithful hcompiled hu hi⟩

/-- A profile with operators in several levels, and several times in one. -/
def overlapping : Profile :=
  { Profile.bare with levels := [["+", "*"], ["*", "-", "*"], ["^", "+"]] }

/-- The marks of `a+b*(c-d)`, a product of a sum and a group. -/
theorem level_eq_stage_overlapping : ∃ d f t, Dialect.compile overlapping = .ok d ∧
    d.parse (.ofString "a+b*(c-d)") = .ok f ∧
      (d.markedTrace (.ofString "a+b*(c-d)")).result = .ok t ∧ plain t = f ∧
      (t.downward.map fun (op, m) => (op.label, m.stage, m.enclosed)) =
        [("*", some 1, false), ("+", some 2, false), ("a", none, false), ("b", none, false),
          ("-", some 1, true), ("c", none, false), ("d", none, false)] ∧
      ∀ u ∈ t.subtrees, u.value.1.level? = u.value.2.stage.map Nat.cast := by
  obtain ⟨d, hd⟩ : ∃ d, Dialect.compile overlapping = .ok d := ⟨_, rfl⟩
  have hmarks : (d.markedTrace (.ofString "a+b*(c-d)")).result.toOption.map
      (fun t => t.downward.map fun (op, m) => (op.label, m.stage, m.enclosed)) = some
        [("*", some 1, false), ("+", some 2, false), ("a", none, false), ("b", none, false),
          ("-", some 1, true), ("c", none, false), ("d", none, false)] := by
    obtain rfl := Except.ok.inj hd
    decide +kernel
  obtain ⟨t, ht, hmarks⟩ := exists_of_toOption hmarks
  obtain ⟨htrace, hparsed⟩ := Dialect.level_eq_stage hd (.ofString "a+b*(c-d)")
  have hparse : d.parse (.ofString "a+b*(c-d)") = .ok (plain t) := by
    rw [Dialect.parse, htrace, ht]
    rfl
  obtain ⟨t', ht', -, hlevels⟩ := hparsed _ hparse
  obtain rfl : t = t' := Except.ok.inj (ht.symm.trans ht')
  exact ⟨d, plain t, t, hd, hparse, ht, rfl, hmarks, fun u hu => (hlevels u hu).1⟩

end Arith

end Formulary
