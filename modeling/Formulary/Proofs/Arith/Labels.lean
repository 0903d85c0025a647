import Formulary.Proofs.Arith.WellFormed
import Formulary.Proofs.Tree.Notations

/-!
# Formulas are told by their lists

Two trees that are written alike are alike, in each of the three notations (`written_alike`).  For
formulas the labels say more than they show: of two formulas of one profile with the same labels,
each node has the same kind, and a binary operator the same level (`WellFormed.eq_of_labels`).  The
kind is seen from the first character of the label and the number of children: numbers start with a
digit, words with a letter, and operators are single signs, unary ones with one operand and binary
ones with two.
-/

namespace Formulary.Arith

open Number (Numeral)
open Formulary.Tree (IsAtom IsCallName IsLine)

variable {p : Profile} {d : Dialect}

/-! ## 1. Labels -/

/-- **Numbers are written differently**, except those with a sign. -/
theorem write_inj {x y : Float} (hx : Number.Unsigned x) (hy : Number.Unsigned y)
    (h : Number.write x = Number.write y) : x = y := by
  obtain ⟨n, hwrite, hread⟩ := Number.exists_numeral_write hx
  obtain ⟨m, hwrite', hread'⟩ := Number.exists_numeral_write hy
  rw [hwrite, hwrite'] at h
  rw [h, hread'] at hread
  exact (Except.ok.inj hread).symm

/-- No word is a number. -/
theorem write_ne_word {x : Float} {name : String} (hx : Number.Unsigned x)
    (hname : isWord name = true) : Number.write x ≠ name := by
  intro heq
  obtain ⟨n, hwrite, -⟩ := Number.exists_numeral_write hx
  obtain ⟨c, cs, htext, hdigit⟩ := n.exists_head
  obtain ⟨c', cs', hword, hletter, -⟩ := isWord_iff.mp hname
  rw [← heq, hwrite, String.toList_ofList, htext] at hword
  obtain ⟨rfl, -⟩ := List.cons.inj hword
  have hfalse := isDigit_false_of_isLetter hletter
  rw [show isDigit c = true from hdigit] at hfalse
  cases hfalse

/-- No word is an operator. -/
theorem operator_ne_word {name : String} {code : Int} (hop : Profile.CodeOf name code) :
    isWord name = false := by
  obtain ⟨s, hs, -⟩ := hop
  obtain ⟨c, rfl, hc, -⟩ := ofOperator?_eq_some.mp hs
  unfold Symbol.ofChar? at hc
  split at hc <;> first | rfl | cases hc

theorem isAtom_number {x : Float} (hx : Number.Unsigned x) : IsAtom (Number.write x) := by
  obtain ⟨n, hwrite, -⟩ := Number.exists_numeral_write hx
  obtain ⟨c, cs, htext, -⟩ := n.exists_head
  have hlist : (Number.write x).toList = n.text := by rw [hwrite, String.toList_ofList]
  refine ⟨fun hempty => ?_, ?_⟩
  · rw [hempty, htext] at hlist
    cases hlist
  · rw [hlist]
    exact ⟨Numeral.not_mem_text (by decide) (by decide),
      Numeral.not_mem_text (by decide) (by decide), Numeral.not_mem_text (by decide) (by decide)⟩

theorem isAtom_word {name : String} (hname : isWord name = true) : IsAtom name := by
  obtain ⟨c, cs, hlist, hletter, hcs⟩ := isWord_iff.mp hname
  have hident : ∀ x, isIdentChar x = false → x ∉ name.toList := by
    intro x hx hmem
    rw [hlist] at hmem
    rcases List.mem_cons.mp hmem with rfl | hmem
    · rw [isIdentChar, hletter] at hx
      cases hx
    · rw [hcs x hmem] at hx
      cases hx
  refine ⟨fun hempty => ?_, hident _ (by decide), hident _ (by decide), hident _ (by decide)⟩
  rw [hempty] at hname
  cases hname

theorem isAtom_operator {name : String} {code : Int} (hop : Profile.CodeOf name code) :
    IsAtom name := by
  obtain ⟨s, hs, -⟩ := hop
  obtain ⟨c, rfl, hc, hoperator⟩ := ofOperator?_eq_some.mp hs
  have hsign : ∀ x ∈ [' ', '(', ')'], (Symbol.ofChar? x).filter Symbol.isOperator = none := by
    simp [Symbol.ofChar?, Symbol.isOperator]
  have hne : ∀ x ∈ [' ', '(', ')'], x ∉ (String.ofList [c]).toList := by
    intro x hx hmem
    rw [String.toList_ofList, List.mem_singleton] at hmem
    have hnone := hsign x hx
    rw [hmem, hc, Option.filter_some, hoperator] at hnone
    cases hnone
  exact ⟨by simp, hne _ (by decide), hne _ (by decide), hne _ (by decide)⟩

/-- **The labels of a formula are fit for the list notation.** -/
theorem WellFormed.isAtom (h : Compiled p d) {below : Bool} {t : Formula}
    (ht : WellFormed p below t) : ∀ o ∈ t.downward, IsAtom o.label := by
  induction ht with
  | const hx => exact List.forall_mem_singleton.mpr (isAtom_number hx)
  | var hword _ => exact List.forall_mem_singleton.mpr (isAtom_word hword)
  | unary hname _ ih =>
    obtain ⟨code, -, hop⟩ := (forall₂_mem h.unaries).1 _ hname
    exact Tree.forall_downward.mpr ⟨isAtom_operator hop, List.forall_mem_singleton.mpr ih⟩
  | binary hlast _ _ ihl ihr =>
    obtain ⟨code, hop⟩ := h.codeOf_of_lists hlast.1
    exact Tree.forall_downward.mpr
      ⟨isAtom_operator hop, List.forall_mem_cons.mpr ⟨ihl, List.forall_mem_singleton.mpr ihr⟩⟩
  | call hname _ _ ih =>
    have hword := isWord_of_function? (h.functions _ hname)
    exact Tree.forall_downward.mpr ⟨isAtom_word hword, ih⟩

/-! ## 2. Formulas with the same labels -/

/-- No operator is a function. -/
theorem not_function (h : Compiled p d) {name : String} {code : Int}
    (hop : Profile.CodeOf name code) : name ∉ p.functions := by
  intro hname
  have hword := isWord_of_function? (h.functions name hname)
  rw [operator_ne_word hop] at hword
  cases hword

/-- **A formula is told by its labels.** -/
theorem WellFormed.eq_of_labels (h : Compiled p d) {below below' : Bool} {t u : Formula}
    (ht : WellFormed p below t) (hu : WellFormed p below' u)
    (heq : t.map Op.label = u.map Op.label) : t = u := by
  induction ht generalizing u below' with
  | const hx =>
    cases hu with
    | const hy => rw [write_inj hx hy (Tree.map_node_inj heq).1]
    | var hword _ => exact absurd (Tree.map_node_inj heq).1 (write_ne_word hx hword)
    | unary _ _ => cases (Tree.map_node_inj heq).2
    | binary _ _ _ => cases (Tree.map_node_inj heq).2
    | call _ hne _ => exact absurd (List.map_eq_nil_iff.mp (Tree.map_node_inj heq).2.symm) hne
  | @var _ name hword _ =>
    cases hu with
    | const hy => exact absurd (Tree.map_node_inj heq).1.symm (write_ne_word hy hword)
    | var _ _ =>
      obtain rfl : name = _ := (Tree.map_node_inj heq).1
      rfl
    | unary _ _ => cases (Tree.map_node_inj heq).2
    | binary _ _ _ => cases (Tree.map_node_inj heq).2
    | call _ hne _ => exact absurd (List.map_eq_nil_iff.mp (Tree.map_node_inj heq).2.symm) hne
  | @unary _ name operand hname _ ih =>
    obtain ⟨code, -, hop⟩ := (forall₂_mem h.unaries).1 _ hname
    cases hu with
    | const _ => cases (Tree.map_node_inj heq).2
    | var _ _ => cases (Tree.map_node_inj heq).2
    | unary _ hoperand =>
      obtain ⟨hlabel, hoperands⟩ := Tree.map_node_inj heq
      obtain rfl : name = _ := hlabel
      rw [ih hoperand (List.cons.inj hoperands).1]
    | binary _ _ _ => cases (List.cons.inj (Tree.map_node_inj heq).2).2
    | call hfun _ _ =>
      obtain rfl : name = _ := (Tree.map_node_inj heq).1
      exact absurd hfun (not_function h hop)
  | @binary name level left right hlast _ _ ihl ihr =>
    obtain ⟨code, hop⟩ := h.codeOf_of_lists hlast.1
    cases hu with
    | const _ => cases (Tree.map_node_inj heq).2
    | var _ _ => cases (Tree.map_node_inj heq).2
    | unary _ _ => cases (List.cons.inj (Tree.map_node_inj heq).2).2
    | binary hlast' hleft hright =>
      obtain ⟨hlabel, hoperands⟩ := Tree.map_node_inj heq
      obtain rfl : name = _ := hlabel
      obtain ⟨hlefts, hrights⟩ := List.cons.inj hoperands
      rw [ihl hleft hlefts, ihr hright (List.cons.inj hrights).1, ← hlast.levelOf_eq,
        ← hlast'.levelOf_eq]
    | call hfun _ _ =>
      obtain rfl : name = _ := (Tree.map_node_inj heq).1
      exact absurd hfun (not_function h hop)
  | @call name args hfun hne hargs ih =>
    cases hu with
    | const _ => exact absurd (List.map_eq_nil_iff.mp (Tree.map_node_inj heq).2) hne
    | var _ _ => exact absurd (List.map_eq_nil_iff.mp (Tree.map_node_inj heq).2) hne
    | unary hname _ =>
      obtain ⟨code, -, hop⟩ := (forall₂_mem h.unaries).1 _ hname
      obtain rfl : name = _ := (Tree.map_node_inj heq).1
      exact absurd hfun (not_function h hop)
    | binary hlast _ _ =>
      obtain ⟨code, hop⟩ := h.codeOf_of_lists hlast.1
      obtain rfl : name = _ := (Tree.map_node_inj heq).1
      exact absurd hfun (not_function h hop)
    | call _ _ hargs' =>
      obtain ⟨hlabel, hmaps⟩ := Tree.map_node_inj heq
      obtain rfl : name = _ := hlabel
      congr 1
      refine List.ext_getElem (by simpa using congrArg List.length hmaps) fun i hi hi' => ?_
      refine ih _ (List.getElem_mem hi) (hargs' _ (List.getElem_mem hi')) ?_
      have hplace := List.getElem_of_eq hmaps (i := i) (by simpa using hi)
      rwa [List.getElem_map, List.getElem_map] at hplace

/-! ## 3. Trees and formulas -/

/-- **Trees that are written alike are alike.**  Two trees have the same shape and the same labels

* if their lists are the same, and no label is empty or has a space or a parenthesis in it;
* if their calls are the same, and no label has a comma or a parenthesis in it;
* if their outlines are the same, and no label has an end of line in it.

Two formulas that one parser reads are the same if their lists are, whatever the texts were. -/
theorem written_alike {α β : Type} (label : α → String) (label' : β → String) (t : Tree α)
    (u : Tree β) (hd : Dialect.compile p = .ok d) :
    ((∀ v ∈ t.downward, IsAtom (label v)) → (∀ v ∈ u.downward, IsAtom (label' v)) →
      t.lisp label = u.lisp label' → t.map label = u.map label') ∧
    ((∀ v ∈ t.downward, IsCallName (label v)) → (∀ v ∈ u.downward, IsCallName (label' v)) →
      t.parens label = u.parens label' → t.map label = u.map label') ∧
    ((∀ v ∈ t.downward, IsLine (label v)) → (∀ v ∈ u.downward, IsLine (label' v)) →
      t.outline label = u.outline label' → t.map label = u.map label') ∧
    ∀ (s s' : Text.Source) (a b : Formula), d.parse s = .ok a → d.parse s' = .ok b →
      a.lisp Op.label = b.lisp Op.label → a = b ∧ Formula.same a b = true := by
  have h := Dialect.compiled hd
  refine ⟨Tree.lisp_inj, Tree.parens_inj, Tree.outline_inj, fun s s' a b ha hb hlists => ?_⟩
  have hwell := wellFormed_of_parse h ha
  have hwell' := wellFormed_of_parse h hb
  have hlabels := Tree.lisp_inj (hwell.isAtom h) (hwell'.isAtom h) hlists
  obtain rfl := hwell.eq_of_labels h hwell' hlabels
  exact ⟨rfl, hwell.same_self⟩

/-- Labels that look like what an outline draws: a node and its child, and the child `│   └── b` of
a node. -/
def drawn : Tree String := .node "├── a" [.node "└── " [.leaf "│   └── b"], .leaf "    "]

/-- Numbers in the place of the labels of `drawn`. -/
def numbered : Tree Nat := .node 0 [.node 1 [.leaf 2], .leaf 3]

def drawnLabel (n : Nat) : String := drawn.downward.getD n ""

/-- **Two trees with the outline of `drawn`**, and two texts of one formula. -/
theorem written_alike_drawn : ∃ d t u, Dialect.compile .standard = .ok d ∧
    drawn.outline id = numbered.outline drawnLabel ∧ drawn.map id = numbered.map drawnLabel ∧
    d.parse (.ofString "a - (b - -sin)") = .ok t ∧ d.parse (.ofString "(a)-((b- -sin))") = .ok u ∧
    Formula.same t u = true := by
  obtain ⟨d, hd⟩ : ∃ d, Dialect.compile .standard = .ok d := ⟨_, rfl⟩
  have hfirst : (d.parse (.ofString "a - (b - -sin)")).toOption.map (Tree.lisp Op.label)
      = some "(- a (- b (- sin)))" := by
    cases hd
    decide +kernel
  have hsecond : (d.parse (.ofString "(a)-((b- -sin))")).toOption.map (Tree.lisp Op.label)
      = some "(- a (- b (- sin)))" := by
    cases hd
    decide +kernel
  obtain ⟨t, ht, hlist⟩ := exists_of_toOption hfirst
  obtain ⟨u, hu, hlist'⟩ := exists_of_toOption hsecond
  obtain ⟨-, -, houtline, hformula⟩ := written_alike id drawnLabel drawn numbered hd
  have hdrawn : drawn.outline id = numbered.outline drawnLabel := by decide
  exact ⟨d, t, u, hd, hdrawn, houtline (by decide) (by decide) hdrawn, ht, hu,
    (hformula _ _ t u ht hu (hlist.trans hlist'.symm)).2⟩

end Formulary.Arith
