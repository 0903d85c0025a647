import Formulary.Arith.Profile
import Formulary.Proofs.Arith.Lexing
import Formulary.Proofs.Chain.Language

/-!
# Compiled profiles

A profile names operators and functions, its parser knows codes.  `Compiled` says how the one is
made of the other, and the rest of the module draws what the theorems about formulas need: the
parser is one that soundness and completeness of chains apply to, and the level of an operator is
the last one that lists its name.
-/

namespace Formulary.Arith

open Chain (Grammar Parser)

/-! ## 1. Operators by name -/

theorem ofOperator?_eq_some {name : String} {s : Symbol} :
    Symbol.ofOperator? name = some s ↔
      ∃ c, name = String.ofList [c] ∧ Symbol.ofChar? c = some s ∧ s.isOperator = true := by
  unfold Symbol.ofOperator?
  constructor
  · intro h
    split at h
    next c hc =>
      rw [Option.filter_eq_some_iff] at h
      exact ⟨c, by rw [← hc, String.ofList_toList], h.1, h.2⟩
    next => cases h
  · rintro ⟨c, rfl, hc, hs⟩
    simp [hc, hs]

theorem ofChar?_inj {c c' : Char} {s : Symbol} (h : Symbol.ofChar? c = some s)
    (h' : Symbol.ofChar? c' = some s) : c = c' := by
  unfold Symbol.ofChar? at h h'
  split at h <;> cases h <;> split at h' <;> cases h' <;> rfl

/-- The level with the given index lists the operator. -/
def Profile.Lists (p : Profile) (level : Nat) (name : String) : Prop :=
  ∃ ops, p.levels[level]? = some ops ∧ name ∈ ops

/-- The level is the last one that lists the operator. -/
def Profile.ListsLast (p : Profile) (level : Nat) (name : String) : Prop :=
  p.Lists level name ∧ ∀ other, level < other → ¬ p.Lists other name

namespace Profile

theorem lastLevel_of_none {name : String} {levels : List (List String)}
    (h : ∀ ops ∈ levels, name ∉ ops) (found index : Nat) :
    lastLevel name found index levels = found := by
  induction levels generalizing found index with
  | nil => rfl
  | cons ops levels ih =>
    have hops : ops.contains name = false := by
      rw [List.contains_eq_mem, decide_eq_false_iff_not]
      exact h ops (by simp)
    rw [lastLevel, hops]
    exact ih (fun ops' h' => h ops' (by simp [h'])) _ _

theorem lastLevel_of_last {name : String} {levels : List (List String)} {i : Nat}
    {ops : List String} (hi : levels[i]? = some ops) (hmem : name ∈ ops)
    (hlast : ∀ j ops, i < j → levels[j]? = some ops → name ∉ ops) (found index : Nat) :
    lastLevel name found index levels = index + i := by
  induction levels generalizing i found index with
  | nil => cases hi
  | cons first levels ih =>
    rw [lastLevel]
    cases i with
    | zero =>
      obtain rfl := Option.some.inj hi
      rw [List.contains_eq_mem, decide_eq_true hmem, lastLevel_of_none]
      · rfl
      · intro ops' h'
        obtain ⟨j, hj⟩ := List.getElem?_of_mem h'
        exact hlast (j + 1) ops' (by omega) hj
    | succ i =>
      rw [ih hi (fun j ops hj h => hlast (j + 1) ops (by omega) h)]
      omega

/-- **The level of an operator is the last one that lists it.** -/
theorem ListsLast.levelOf_eq {p : Profile} {name : String} {i : Nat} (h : p.ListsLast i name) :
    p.levelOf name = i := by
  obtain ⟨⟨ops, hops, hmem⟩, hlast⟩ := h
  rw [levelOf, lastLevel_of_last hops hmem fun j ops' hj h' hm => hlast j hj ⟨ops', h', hm⟩]
  omega

/-- A level that lists the operator is the last one if none of those behind it does. -/
theorem ListsLast.of_drop {p : Profile} {name : String} {i : Nat} {ops : List String}
    (hops : p.levels[i]? = some ops) (hmem : name ∈ ops)
    (hlater : ∀ later ∈ p.levels.drop (i + 1), name ∉ later) : p.ListsLast i name := by
  refine ⟨⟨ops, hops, hmem⟩, ?_⟩
  rintro j hj ⟨later, hj', hname⟩
  refine hlater later (List.mem_iff_getElem?.mpr ⟨j - (i + 1), ?_⟩) hname
  rw [List.getElem?_drop, Nat.add_sub_cancel' hj]
  exact hj'

/-! ## 2. The parser of a profile -/

/-- The code is that of the operator with the given name. -/
def CodeOf (name : String) (code : Int) : Prop :=
  ∃ s, Symbol.ofOperator? name = some s ∧ code = s.code

theorem bind_eq_ok {α β ε : Type} {x : Except ε α} {f : α → Except ε β} {b : β} :
    x >>= f = .ok b ↔ ∃ a, x = .ok a ∧ f a = .ok b := by
  constructor
  · intro h
    cases x with
    | error e => cases h
    | ok a => exact ⟨a, rfl, h⟩
  · rintro ⟨a, rfl, h⟩
    exact h

theorem forall₂_of_mapM {α β ε : Type} {f : α → Except ε β} {xs : List α} {ys : List β}
    (h : xs.mapM f = .ok ys) : List.Forall₂ (fun x y => f x = .ok y) xs ys := by
  induction xs generalizing ys with
  | nil =>
    obtain rfl := Except.ok.inj h
    exact .nil
  | cons x xs ih =>
    rw [List.mapM_cons] at h
    obtain ⟨y, hy, h⟩ := bind_eq_ok.mp h
    obtain ⟨zs, hzs, h⟩ := bind_eq_ok.mp h
    obtain rfl := Except.ok.inj h
    exact .cons hy (ih hzs)

theorem forall₂_codes {f : String → Except Chain.ConfigError Kind} {ops : List String}
    {kinds : List Kind} (h : ops.mapM f = .ok kinds)
    (hf : ∀ op k, f op = .ok k → CodeOf op k.code) :
    List.Forall₂ CodeOf ops (Chain.codes kinds) := by
  have hforall := forall₂_of_mapM h
  clear h
  induction hforall with
  | nil => exact .nil
  | cons hk _ ih => exact .cons (hf _ _ hk) ih

theorem codeOf_levelKinds {index : Nat} {ops : List String} {kinds : List Kind}
    (h : levelKinds index ops = .ok kinds) : List.Forall₂ CodeOf ops (Chain.codes kinds) := by
  refine forall₂_codes h fun op k hk => ?_
  split at hk
  next s hs =>
    obtain rfl := Except.ok.inj hk
    exact ⟨s, hs, rfl⟩
  next => cases hk

theorem codeOf_unaryKinds {ops : List String} {kinds : List Kind}
    (h : unaryKinds ops = .ok kinds) : List.Forall₂ CodeOf ops (Chain.codes kinds) := by
  refine forall₂_codes h fun op k hk => ?_
  split at hk
  next s hs =>
    obtain rfl := Except.ok.inj hk
    exact ⟨s, hs, rfl⟩
  next => cases hk

theorem codeOf_binaryKinds {index : Nat} {levels : List (List String)} {binaries : List (List Kind)}
    (h : binaryKinds index levels = .ok binaries) :
    List.Forall₂ (List.Forall₂ CodeOf) levels (binaries.map Chain.codes) := by
  induction levels generalizing index binaries with
  | nil =>
    obtain rfl := Except.ok.inj h
    exact .nil
  | cons ops levels ih =>
    obtain ⟨kinds, hkinds, h⟩ := bind_eq_ok.mp h
    obtain ⟨others, hothers, h⟩ := bind_eq_ok.mp h
    obtain rfl := Except.ok.inj h
    exact .cons (codeOf_levelKinds hkinds) (ih hothers)

end Profile

/-- What is computed from a result is computed from the value in it. -/
theorem exists_of_toOption {ε α β : Type} {x : Except ε α} {f : α → β} {b : β}
    (h : x.toOption.map f = some b) : ∃ a, x = .ok a ∧ f a = b := by
  cases x with
  | error e => cases h
  | ok a => exact ⟨a, rfl, Option.some.inj h⟩

/-- How the parser of a compiled profile is made of it. -/
structure Compiled (p : Profile) (d : Dialect) : Prop where
  convert : d.parser.convert = p.convert
  leftParen : d.parser.leftParen = Symbol.leftParen.kind
  rightParen : d.parser.rightParen = Symbol.rightParen.kind
  comma : d.parser.comma = Symbol.comma.kind
  levels : List.Forall₂ (List.Forall₂ Profile.CodeOf) p.levels d.parser.levels
  unaries : List.Forall₂ Profile.CodeOf p.unary d.parser.unaries
  identifiers : d.parser.identifiers = [(Symbol.number.code : Int), (Symbol.ident.code : Int)]
  isFunction : d.parser.isFunction = p.functions.contains
  limit : d.parser.limit = p.maxDepth.toNat
  functions : ∀ name ∈ p.functions, (function? name).isSome = true

theorem function?_of_checkFunctions {names : List String} {u : Unit}
    (h : Profile.checkFunctions names = .ok u) :
    ∀ name ∈ names, (function? name).isSome = true := by
  intro name hname
  unfold Profile.checkFunctions at h
  split at h
  · cases h
  next hnone =>
    have hsome := List.find?_eq_none.mp hnone name hname
    rw [Option.isNone_iff_eq_none] at hsome
    exact Option.isSome_iff_ne_none.mpr hsome

/-- **Compiling a profile gives such a parser.** -/
theorem Dialect.compiled {p : Profile} {d : Dialect} (h : Dialect.compile p = .ok d) :
    Compiled p d := by
  obtain ⟨g, hg, h⟩ := Profile.bind_eq_ok.mp h
  obtain ⟨parser, hparser, h⟩ := Profile.bind_eq_ok.mp h
  obtain rfl := Except.ok.inj h
  obtain ⟨binaries, hbinaries, hg⟩ := Profile.bind_eq_ok.mp hg
  obtain ⟨unaries, hunaries, hg⟩ := Profile.bind_eq_ok.mp hg
  obtain ⟨u, hfunctions, hg⟩ := Profile.bind_eq_ok.mp hg
  obtain rfl := Except.ok.inj hg
  simp only [Parser.build] at hparser
  split at hparser
  · cases hparser
  · obtain rfl := Except.ok.inj hparser
    exact ⟨rfl, rfl, rfl, rfl, Profile.codeOf_binaryKinds hbinaries,
      Profile.codeOf_unaryKinds hunaries,
      rfl, rfl, rfl, function?_of_checkFunctions hfunctions⟩

/-! ## 3. Operators and codes -/

theorem forall₂_getElem? {α β : Type} {R : α → β → Prop} {xs : List α} {ys : List β}
    (h : List.Forall₂ R xs ys) (i : Nat) :
    (∀ x, xs[i]? = some x → ∃ y, ys[i]? = some y ∧ R x y) ∧
      ∀ y, ys[i]? = some y → ∃ x, xs[i]? = some x ∧ R x y := by
  induction h generalizing i with
  | nil => simp
  | cons hxy _ ih =>
    cases i with
    | zero => simpa using hxy
    | succ i => simpa using ih i

theorem forall₂_mem {α β : Type} {R : α → β → Prop} {xs : List α} {ys : List β}
    (h : List.Forall₂ R xs ys) : (∀ x ∈ xs, ∃ y ∈ ys, R x y) ∧ ∀ y ∈ ys, ∃ x ∈ xs, R x y := by
  constructor
  · intro x hx
    obtain ⟨i, hi⟩ := List.getElem?_of_mem hx
    obtain ⟨y, hy, hxy⟩ := (forall₂_getElem? h i).1 x hi
    exact ⟨y, List.mem_of_getElem? hy, hxy⟩
  · intro y hy
    obtain ⟨i, hi⟩ := List.getElem?_of_mem hy
    obtain ⟨x, hx, hxy⟩ := (forall₂_getElem? h i).2 y hi
    exact ⟨x, List.mem_of_getElem? hx, hxy⟩

/-- The codes of operators are those of the six operator signs. -/
theorem Profile.CodeOf.bounds {name : String} {code : Int} (h : CodeOf name code) :
    3 ≤ code ∧ code ≤ 8 := by
  obtain ⟨s, hs, rfl⟩ := h
  obtain ⟨c, -, -, hop⟩ := ofOperator?_eq_some.mp hs
  revert hop
  cases s <;> decide

/-- Operators of the same code have the same name. -/
theorem Profile.CodeOf.inj {name name' : String} {code : Int} (h : CodeOf name code)
    (h' : CodeOf name' code) : name = name' := by
  obtain ⟨s, hs, rfl⟩ := h
  obtain ⟨s', hs', hcode⟩ := h'
  obtain rfl := Symbol.code_inj hcode
  obtain ⟨c, rfl, hc, -⟩ := ofOperator?_eq_some.mp hs
  obtain ⟨c', rfl, hc', -⟩ := ofOperator?_eq_some.mp hs'
  rw [ofChar?_inj hc hc']

/-- A scanned token with the code of an operator has its name as text. -/
theorem Spelled.value_eq {t : Token} (ht : Spelled t) {name : String}
    (h : Profile.CodeOf name t.code) : t.value = name := by
  obtain ⟨s, hs, hcode⟩ := h
  obtain ⟨c, rfl, hc, hop⟩ := ofOperator?_eq_some.mp hs
  have hspell := ht.symbol hcode
  have hsign : ∃ d, t.value = String.ofList [d] ∧ Symbol.ofChar? d = some s := by
    cases s
    case number => cases hop
    case ident => cases hop
    all_goals exact hspell
  obtain ⟨d, hd, hds⟩ := hsign
  rw [hd, ofChar?_inj hds hc]

namespace Compiled

variable {p : Profile} {d : Dialect}

theorem length_levels (h : Compiled p d) : d.parser.levels.length = p.levels.length :=
  h.levels.length_eq.symm

/-- A level of the parser has the codes of the operators that the level of the profile lists. -/
theorem operator_iff (h : Compiled p d) {i : Nat} {code : Int} :
    d.parser.operator i code ↔ ∃ name, p.Lists i name ∧ Profile.CodeOf name code := by
  constructor
  · rintro ⟨codes, hcodes, hmem⟩
    obtain ⟨ops, hops, hall⟩ := (forall₂_getElem? h.levels i).2 codes hcodes
    obtain ⟨name, hname, hcode⟩ := (forall₂_mem hall).2 code hmem
    exact ⟨name, ⟨ops, hops, hname⟩, hcode⟩
  · rintro ⟨name, ⟨ops, hops, hname⟩, s, hs, rfl⟩
    obtain ⟨codes, hcodes, hall⟩ := (forall₂_getElem? h.levels i).1 ops hops
    obtain ⟨code, hmem, s', hs', rfl⟩ := (forall₂_mem hall).1 name hname
    rw [hs] at hs'
    obtain rfl := Option.some.inj hs'
    exact ⟨codes, hcodes, hmem⟩

theorem codeOf_of_lists (h : Compiled p d) {i : Nat} {name : String} (hname : p.Lists i name) :
    ∃ code, Profile.CodeOf name code := by
  obtain ⟨ops, hops, hmem⟩ := hname
  obtain ⟨codes, -, hall⟩ := (forall₂_getElem? h.levels i).1 ops hops
  obtain ⟨code, -, hcode⟩ := (forall₂_mem hall).1 name hmem
  exact ⟨code, hcode⟩

theorem unary_iff (h : Compiled p d) {code : Int} :
    code ∈ d.parser.unaries ↔ ∃ name ∈ p.unary, Profile.CodeOf name code := by
  constructor
  · intro hmem
    exact (forall₂_mem h.unaries).2 code hmem
  · rintro ⟨name, hname, s, hs, rfl⟩
    obtain ⟨code, hmem, s', hs', rfl⟩ := (forall₂_mem h.unaries).1 name hname
    rw [hs] at hs'
    obtain rfl := Option.some.inj hs'
    exact hmem

/-- The last level that lists an operator is the innermost one that has its code. -/
theorem innermost_iff (h : Compiled p d) {name : String} {code : Int}
    (hcode : Profile.CodeOf name code)
    {i : Nat} : d.parser.innermost i code ↔ p.ListsLast i name := by
  have hop : ∀ j, d.parser.operator j code ↔ p.Lists j name := by
    intro j
    rw [h.operator_iff]
    constructor
    · rintro ⟨name', hname', hcode'⟩
      rwa [hcode.inj hcode']
    · exact fun hname => ⟨name, hname, hcode⟩
  simp only [Parser.innermost, Profile.ListsLast, hop]

/-- **The parser has no negative code.** -/
theorem unsigned (h : Compiled p d) : d.parser.Unsigned where
  leftParen := by rw [h.leftParen]; decide
  rightParen := by rw [h.rightParen]; decide
  comma := by rw [h.comma]; decide
  operator := by
    intro i code hop
    obtain ⟨name, -, hcode⟩ := h.operator_iff.mp hop
    have := hcode.bounds
    omega
  unaries := by
    intro code hmem
    obtain ⟨name, -, hcode⟩ := h.unary_iff.mp hmem
    have := hcode.bounds
    omega
  identifiers := by rw [h.identifiers]; decide

/-- **No code has two meanings where the parser chooses.** -/
theorem separated (h : Compiled p d) : d.parser.Separated := by
  have hop : ∀ i code, d.parser.operator i code → 3 ≤ code ∧ code ≤ 8 := by
    intro i code hop
    obtain ⟨name, -, hcode⟩ := h.operator_iff.mp hop
    exact hcode.bounds
  have hunary : ∀ code ∈ d.parser.unaries, 3 ≤ code ∧ code ≤ 8 := by
    intro code hmem
    obtain ⟨name, -, hcode⟩ := h.unary_iff.mp hmem
    exact hcode.bounds
  have hleft : d.parser.leftParen.code = 9 := by rw [h.leftParen]; rfl
  have hright : d.parser.rightParen.code = 10 := by rw [h.rightParen]; rfl
  have hcomma : d.parser.comma.code = 11 := by rw [h.comma]; rfl
  have hident : ∀ code, code ∈ d.parser.identifiers ↔ code = 1 ∨ code = 2 := by
    intro code
    rw [h.identifiers]
    simp [Symbol.code]
  refine ⟨fun i hi => ?_, fun i hi => ?_, ?_, fun hmem => ?_, fun hmem => ?_,
    fun code hmem hmem' => ?_⟩
  · have := hop i _ hi
    omega
  · have := hop i _ hi
    omega
  · omega
  · have := hunary _ hmem
    omega
  · have := (hident _).mp hmem
    omega
  · have := hunary _ hmem
    have := (hident _).mp hmem'
    omega

end Compiled

/-- Every known function has a name of the shape of words. -/
theorem isWord_of_function? {name : String} (h : (function? name).isSome = true) :
    isWord name = true := by
  have hwords : functionNames.all isWord = true := by decide
  obtain ⟨f, hf, hname⟩ := List.lookup_isSome_iff.mp h
  rw [beq_iff_eq.mp hname]
  exact List.all_eq_true.mp hwords f.1 (List.mem_map_of_mem hf)

end Formulary.Arith
