import Formulary.Proofs.Arith.Compiled
import Formulary.Proofs.Tree.Walks

/-!
# The trees of a profile

Which trees formulas of a profile can stand for, said without the parser (`WellFormed`), and that
the parser gives no others (`wellFormed_of_parse`).  A name of a function is an ordinary variable
only as the operand of a unary operator, because after a unary operator no call is looked for; for
the same reason such an operand is never a call and never a binary operation.
-/

namespace Formulary.Arith

open Chain (Derives Form Parser)

/-! ## 1. Well-formed trees -/

/-- The trees of a profile.  `below` tells whether the tree is the operand of a unary operator,
where only constants, variables and unary operations stand. -/
inductive WellFormed (p : Profile) : (below : Bool) → Formula → Prop
  | const {below : Bool} {v : Float} : Number.Unsigned v → WellFormed p below (.leaf (.const v))
  | var {below : Bool} {name : String} : isWord name = true →
      (below = false → name ∉ p.functions) → WellFormed p below (.leaf (.var name))
  | unary {below : Bool} {name : String} {operand : Formula} : name ∈ p.unary →
      WellFormed p true operand → WellFormed p below (.node (.unary name) [operand])
  | binary {name : String} {level : Nat} {left right : Formula} : p.ListsLast level name →
      WellFormed p false left → WellFormed p false right →
      WellFormed p false (.node (.binary name level) [left, right])
  | call {name : String} {args : List Formula} : name ∈ p.functions → args ≠ [] →
      (∀ t ∈ args, WellFormed p false t) → WellFormed p false (.node (.call name) args)

variable {p : Profile} {d : Dialect}

/-- **A well-formed tree is the same as itself**; a tree with a constant that is no number is
not. -/
theorem WellFormed.same_self {below : Bool} {t : Formula} (h : WellFormed p below t) :
    Formula.same t t = true := by
  unfold Formula.same
  induction h with
  | const hv =>
    rw [Tree.leaf, Tree.sameBy, Op.same, hv.beq_self]
    rfl
  | var _ _ => simp [Tree.leaf, Tree.sameBy, Op.same, Tree.sameByList]
  | unary _ _ ih => simp [Tree.sameBy, Op.same, Tree.sameByList, ih]
  | binary _ _ _ ihl ihr => simp [Tree.sameBy, Op.same, Tree.sameByList, ihl, ihr]
  | call _ _ _ ih => simp [Tree.sameBy, Op.same, Tree.sameByList_self ih]

/-! ## 2. What the parser gives is well formed -/

/-- What the trees read in a form are.  A single name is well formed anywhere unless it is that of a
function. -/
def Shapes (p : Profile) : Form → List Token → List Formula → Prop
  | .level _, _, ts => ∀ t ∈ ts, WellFormed p false t
  | .operand, w, ts => ∀ t ∈ ts, WellFormed p true t
      ∧ ((∀ a, w = [a] → a.value ∉ p.functions) → WellFormed p false t)
  | .arguments, _, ts => ts ≠ [] ∧ ∀ t ∈ ts, WellFormed p false t

/-- A scanned identifier stands for a constant or a variable. -/
theorem convert_atom {a : Token} {v : Op} (ha : Spelled a)
    (hcode : a.code ∈ [(Symbol.number.code : Int), (Symbol.ident.code : Int)])
    (hv : p.convert a .atom = .ok v) :
    (∃ x, v = .const x ∧ Number.Unsigned x) ∨ v = .var a.value ∧ isWord a.value = true := by
  simp only [List.mem_cons, List.not_mem_nil, or_false] at hcode
  rcases hcode with hcode | hcode
  · obtain ⟨c, cs, hvalue, hc⟩ := ha.symbol hcode
    have hnumber : (a.code == Symbol.number.kind.code) = true := by rw [hcode]; rfl
    simp only [Profile.convert, hnumber, ↓reduceIte] at hv
    cases hread : Number.read a.value with
    | error e => rw [hread] at hv; cases hv
    | ok x =>
      rw [hread] at hv
      obtain rfl := Except.ok.inj hv
      exact .inl ⟨x, rfl, Number.unsigned_of_read hc (hvalue ▸ hread)⟩
  · have hnumber : (a.code == Symbol.number.kind.code) = false := by rw [hcode]; rfl
    simp only [Profile.convert, hnumber, Bool.false_eq_true, ↓reduceIte] at hv
    obtain rfl := Except.ok.inj hv
    exact .inr ⟨rfl, ha.symbol hcode⟩

/-- **Trees derived from scanned tokens are well formed.** -/
theorem shapes_of_derives (h : Compiled p d) {form : Form} {n : Nat} {w : List Token}
    {ts : List Formula}
    (hd : Derives d.parser d.parser.innermost form n w ts) (hw : ∀ t ∈ w, Spelled t) :
    Shapes p form w ts := by
  induction hd with
  | tighter _ _ ih => exact ih hw
  | @binary i m n u w o v left right ho hv _ _ ihl ihr =>
    have hspelled : Spelled o := hw o (by simp)
    obtain ⟨name, -, hcode⟩ := h.operator_iff.mp ho.1
    have hlast : p.ListsLast i o.value := by
      rw [hspelled.value_eq hcode]
      exact (h.innermost_iff hcode).mp ho
    rw [h.convert] at hv
    obtain rfl := Except.ok.inj hv
    intro t ht
    obtain rfl := List.mem_singleton.mp ht
    rw [hlast.levelOf_eq]
    exact .binary hlast (ihl (fun t ht => hw t (by simp [ht])) left (by simp))
      (ihr (fun t ht => hw t (by simp [ht])) right (by simp))
  | call _ hfun hv _ _ _ ih =>
    rw [h.isFunction, List.contains_eq_mem, decide_eq_true_eq] at hfun
    rw [h.convert] at hv
    obtain rfl := Except.ok.inj hv
    obtain ⟨hne, hargs⟩ := ih fun t ht => hw t (by simp [ht])
    intro t ht
    obtain rfl := List.mem_singleton.mp ht
    exact .call hfun hne hargs
  | group _ _ _ ih => exact ih fun t ht => hw t (by simp [ht])
  | operand _ hfun ih =>
    intro t ht
    refine (ih hw t ht).2 fun a ha => ?_
    have := hfun a ha
    rwa [h.isFunction, List.contains_eq_mem, decide_eq_false_iff_not] at this
  | @unary n o w v t ho hv _ ih =>
    obtain ⟨name, hname, hcode⟩ := h.unary_iff.mp ho
    rw [h.convert] at hv
    obtain rfl := Except.ok.inj hv
    have hmem : o.value ∈ p.unary := by
      rw [(hw o (by simp)).value_eq hcode]
      exact hname
    have hoperand := (ih (fun t ht => hw t (by simp [ht])) t (by simp)).1
    intro t ht
    obtain rfl := List.mem_singleton.mp ht
    exact ⟨.unary hmem hoperand, fun _ => .unary hmem hoperand⟩
  | @atom a v ha hv =>
    rw [h.identifiers] at ha
    rw [h.convert] at hv
    intro t ht
    obtain rfl := List.mem_singleton.mp ht
    rcases convert_atom (hw a (by simp)) ha hv with ⟨x, rfl, hx⟩ | ⟨rfl, hword⟩
    · exact ⟨.const hx, fun _ => .const hx⟩
    · exact ⟨.var hword (by simp), fun hfun => .var hword fun _ => hfun a rfl⟩
  | last _ ih => exact ⟨by simp, ih hw⟩
  | more _ _ _ ihu ihw =>
    refine ⟨by simp, fun t ht => ?_⟩
    rcases List.mem_cons.mp ht with rfl | ht
    · exact ihu (fun t ht => hw t (by simp [ht])) t (by simp)
    · exact (ihw fun t ht => hw t (by simp [ht])).2 t ht

/-- The tokens of a formula. -/
def tokens (s : Text.Source) : List Token := (feed s).untilEnd.1

/-- **A tree that is parsed is derived from the tokens of the text**, as deep as is allowed. -/
theorem derives_of_parse (h : Compiled p d) {s : Text.Source} {t : Formula}
    (ht : d.parse s = .ok t) :
    ∃ n, d.parser.Allows n ∧ Derives d.parser d.parser.innermost (.level 0) n (tokens s) [t] :=
  (Parser.parseAll_sound h.unsigned (f := feed s) rfl (Feed.closes_ofScanner advances_scan _) ht).2

/-- **What the parser gives is well formed.** -/
theorem wellFormed_of_parse (h : Compiled p d) {s : Text.Source} {t : Formula}
    (ht : d.parse s = .ok t) : WellFormed p false t := by
  obtain ⟨n, -, hd⟩ := derives_of_parse h ht
  exact shapes_of_derives h hd (spelled_of_scan s) t (by simp)

end Formulary.Arith
