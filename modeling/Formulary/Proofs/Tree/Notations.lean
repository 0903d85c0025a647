import Formulary.Proofs.Scanning
import Formulary.Proofs.Tree.Walks
import Formulary.Tree.Render

/-!
# Trees are told by their notations

The list notation, the call notation and the outline can each be read in one way only: two trees
that are written alike have the same shape and the same labels (`lisp_inj`, `parens_inj`,
`outline_inj`).  A label may have any characters but the few that the notation needs for itself; in
an outline this is the end of a line alone, so labels may look like the lines that are drawn.

Each proof compares two written trees together with the texts behind them, and finds both the trees
and these texts equal.  The text behind has to show that the tree ends there: for an outline it must
not go on below the margin of the tree (`Leaves`), which is why the depth of a node can be read from
the front of its line.

1. Labels in place of values.
2. Lists.
3. Calls.
4. Outlines.
-/

namespace Formulary.Tree

open Reader (Stops stops_cons)

variable {α β : Type}

/-! ## 1. Labels -/

mutual

theorem lisp_map (label : α → String) : ∀ t : Tree α, lisp label t = lisp id (t.map label)
  | node v [] => rfl
  | node v (t :: ts) => by
    rw [lisp, lispList_map label (t :: ts)]
    rfl

theorem lispList_map (label : α → String) :
    ∀ ts : List (Tree α), lispList label ts = lispList id (mapList label ts)
  | [] => rfl
  | t :: ts => by rw [lispList, mapList, lispList, lisp_map label t, lispList_map label ts]

end

mutual

theorem parens_map (label : α → String) : ∀ t : Tree α, parens label t = parens id (t.map label)
  | node v [] => rfl
  | node v (t :: ts) => by
    rw [parens, parens_map label t, parensList_map label ts]
    rfl

theorem parensList_map (label : α → String) :
    ∀ ts : List (Tree α), parensList label ts = parensList id (mapList label ts)
  | [] => rfl
  | t :: ts => by
    rw [parensList, mapList, parensList, parens_map label t, parensList_map label ts]

end

mutual

theorem outlineNode_map (label : α → String) (margin : String) (last : Bool) :
    ∀ t : Tree α, outlineNode label margin last t = outlineNode id margin last (t.map label)
  | node v ts => by
    rw [outlineNode, outlineList_map label _ ts]
    rfl

theorem outlineList_map (label : α → String) (margin : String) :
    ∀ ts : List (Tree α), outlineList label margin ts = outlineList id margin (mapList label ts)
  | [] => rfl
  | t :: ts => by
    have hlast : (mapList label ts).isEmpty = ts.isEmpty := by cases ts <;> rfl
    rw [outlineList, mapList, outlineList, outlineNode_map label _ _ t,
      outlineList_map label _ ts, hlast]

end

theorem outline_map (label : α → String) : ∀ t : Tree α, outline label t = outline id (t.map label)
  | node v ts => by
    rw [outline, outlineList_map label _ ts]
    rfl

/-- What is asked of the labels of a tree is asked of the values of the tree of its labels. -/
theorem labels_of_values {label : α → String} {P : String → Prop} {t : Tree α}
    (h : ∀ v ∈ t.downward, P (label v)) : ∀ l ∈ (t.map label).downward, P l := by
  rw [downward_map]
  exact List.forall_mem_map.mpr h

/-! ## 2. Lists -/

/-- A label for the list notation: not empty, and without spaces and parentheses. -/
def IsAtom (label : String) : Prop :=
  label ≠ "" ∧ ' ' ∉ label.toList ∧ '(' ∉ label.toList ∧ ')' ∉ label.toList

instance (label : String) : Decidable (IsAtom label) :=
  inferInstanceAs (Decidable (_ ∧ _ ∧ _ ∧ _))

def isAtomChar (c : Char) : Bool := !(c == ' ' || c == '(' || c == ')')

theorem IsAtom.chars {label : String} (h : IsAtom label) :
    ∀ c ∈ label.toList, isAtomChar c = true := by
  obtain ⟨-, hspace, hopening, hclosing⟩ := h
  intro c hc
  have hne : c ≠ ' ' ∧ c ≠ '(' ∧ c ≠ ')' :=
    ⟨fun heq => hspace (heq ▸ hc), fun heq => hopening (heq ▸ hc), fun heq => hclosing (heq ▸ hc)⟩
  simpa [isAtomChar, and_assoc] using hne

/-- No label starts like a list. -/
theorem IsAtom.ne_opening {label : String} (h : IsAtom label) {rest rest' : List Char} :
    label.toList ++ rest ≠ '(' :: rest' := by
  intro heq
  obtain ⟨c, cs, hlabel⟩ := List.exists_cons_of_ne_nil (mt String.toList_eq_nil_iff.mp h.1)
  rw [hlabel] at heq
  obtain ⟨rfl, -⟩ := List.cons.inj heq
  exact h.2.2.1 (by rw [hlabel]; exact List.mem_cons_self)

theorem stops_lispList (ts : List (Tree String)) (rest : List Char) :
    Stops isAtomChar ((lispList id ts).toList ++ ')' :: rest) := by
  cases ts with
  | nil => exact stops_cons rfl _
  | cons t ts =>
    rw [lispList, String.append_assoc, String.toList_append]
    exact stops_cons rfl _

mutual

/-- **A tree is told by its list**, and so is what follows. -/
theorem lisp_append_inj : ∀ t u : Tree String, (∀ l ∈ t.downward, IsAtom l) →
    (∀ l ∈ u.downward, IsAtom l) → ∀ {r r' : List Char}, Stops isAtomChar r →
    Stops isAtomChar r' → (lisp id t).toList ++ r = (lisp id u).toList ++ r' → t = u ∧ r = r'
  | node v [], node w [], ht, hu, r, r', hr, hr', h => by
    have hv := ht v List.mem_cons_self
    have hw := hu w List.mem_cons_self
    rw [lisp, lisp] at h
    obtain ⟨hlabels, hrest⟩ := Stops.append_inj h hv.chars hw.chars hr hr'
    obtain rfl := String.toList_inj.mp hlabels
    exact ⟨rfl, hrest⟩
  | node v [], node w (u :: us), ht, _, r, r', _, _, h => by
    have hv := ht v List.mem_cons_self
    rw [lisp, lisp] at h
    exact (hv.ne_opening (by simpa using h)).elim
  | node v (t :: ts), node w [], _, hu, r, r', _, _, h => by
    have hw := hu w List.mem_cons_self
    rw [lisp, lisp] at h
    exact (hw.ne_opening (by simpa using h.symm)).elim
  | node v (t :: ts), node w (u :: us), ht, hu, r, r', _, _, h => by
    have hv := ht v List.mem_cons_self
    have hw := hu w List.mem_cons_self
    rw [lisp, lisp] at h
    have hinner : v.toList ++ ((lispList id (t :: ts)).toList ++ ')' :: r)
        = w.toList ++ ((lispList id (u :: us)).toList ++ ')' :: r') := by simpa using h
    obtain ⟨hlabels, hlists⟩ :=
      Stops.append_inj hinner hv.chars hw.chars (stops_lispList _ _) (stops_lispList _ _)
    obtain rfl := String.toList_inj.mp hlabels
    obtain ⟨htrees, hrest⟩ := lispList_append_inj (t :: ts) (u :: us)
      (fun l hl => ht l (List.mem_cons_of_mem v hl)) (fun l hl => hu l (List.mem_cons_of_mem v hl))
      hlists
    rw [htrees]
    exact ⟨rfl, hrest⟩

theorem lispList_append_inj : ∀ ts us : List (Tree String), (∀ l ∈ downwardList ts, IsAtom l) →
    (∀ l ∈ downwardList us, IsAtom l) → ∀ {r r' : List Char},
    (lispList id ts).toList ++ ')' :: r = (lispList id us).toList ++ ')' :: r' → ts = us ∧ r = r'
  | [], [], _, _, _, _, h => ⟨rfl, (List.cons.inj h).2⟩
  | [], u :: us, _, _, _, _, h => by simp [lispList] at h
  | t :: ts, [], _, _, _, _, h => by simp [lispList] at h
  | t :: ts, u :: us, ht, hu, r, r', h => by
    obtain ⟨ht, hts⟩ := List.forall_mem_append.mp ht
    obtain ⟨hu, hus⟩ := List.forall_mem_append.mp hu
    rw [lispList, lispList] at h
    have hfirst : (lisp id t).toList ++ ((lispList id ts).toList ++ ')' :: r)
        = (lisp id u).toList ++ ((lispList id us).toList ++ ')' :: r') := by simpa using h
    obtain ⟨rfl, hothers⟩ :=
      lisp_append_inj t u ht hu (stops_lispList ts r) (stops_lispList us r') hfirst
    obtain ⟨rfl, hrest⟩ := lispList_append_inj ts us hts hus hothers
    exact ⟨rfl, hrest⟩

end

/-- **The list notation tells trees apart.** -/
theorem lisp_inj {label : α → String} {label' : β → String} {t : Tree α} {u : Tree β}
    (ht : ∀ v ∈ t.downward, IsAtom (label v)) (hu : ∀ v ∈ u.downward, IsAtom (label' v))
    (h : lisp label t = lisp label' u) : t.map label = u.map label' := by
  rw [lisp_map label, lisp_map label'] at h
  have hend : Stops isAtomChar [] := by
    intro c hc
    cases hc
  exact (lisp_append_inj _ _ (labels_of_values ht) (labels_of_values hu) hend hend
    (congrArg (·.toList ++ []) h)).1

/-! ## 3. Calls -/

/-- A label for the call notation: without commas and parentheses, perhaps empty. -/
def IsCallName (label : String) : Prop :=
  ',' ∉ label.toList ∧ '(' ∉ label.toList ∧ ')' ∉ label.toList

instance (label : String) : Decidable (IsCallName label) :=
  inferInstanceAs (Decidable (_ ∧ _ ∧ _))

def isCallChar (c : Char) : Bool := !(c == ',' || c == '(' || c == ')')

theorem IsCallName.chars {label : String} (h : IsCallName label) :
    ∀ c ∈ label.toList, isCallChar c = true := by
  obtain ⟨hcomma, hopening, hclosing⟩ := h
  intro c hc
  have hne : c ≠ ',' ∧ c ≠ '(' ∧ c ≠ ')' :=
    ⟨fun heq => hcomma (heq ▸ hc), fun heq => hopening (heq ▸ hc), fun heq => hclosing (heq ▸ hc)⟩
  simpa [isCallChar, and_assoc] using hne

/-- The text does not go on with the label before it, nor with arguments. -/
def EndsCall (rest : List Char) : Prop := Stops isCallChar rest ∧ ∀ rest', rest ≠ '(' :: rest'

theorem endsCall_parensList (ts : List (Tree String)) (rest : List Char) :
    EndsCall ((parensList id ts).toList ++ ')' :: rest) := by
  cases ts with
  | nil => exact ⟨stops_cons rfl _, by simp [parensList]⟩
  | cons t ts =>
    rw [parensList, String.append_assoc, String.toList_append]
    exact ⟨stops_cons rfl _, by simp⟩

mutual

/-- **A tree is told by its call**, and so is what follows. -/
theorem parens_append_inj : ∀ t u : Tree String, (∀ l ∈ t.downward, IsCallName l) →
    (∀ l ∈ u.downward, IsCallName l) → ∀ {r r' : List Char}, EndsCall r → EndsCall r' →
    (parens id t).toList ++ r = (parens id u).toList ++ r' → t = u ∧ r = r'
  | node v [], node w [], ht, hu, r, r', hr, hr', h => by
    have hv := ht v List.mem_cons_self
    have hw := hu w List.mem_cons_self
    rw [parens, parens] at h
    obtain ⟨hlabels, hrest⟩ := Stops.append_inj h hv.chars hw.chars hr.1 hr'.1
    obtain rfl := String.toList_inj.mp hlabels
    exact ⟨rfl, hrest⟩
  | node v [], node w (u :: us), ht, hu, r, r', hr, _, h => by
    have hv := ht v List.mem_cons_self
    have hw := hu w List.mem_cons_self
    rw [parens, parens] at h
    simp only [String.toList_append, List.append_assoc] at h
    exact absurd (Stops.append_inj h hv.chars hw.chars hr.1 (stops_cons rfl _)).2 (hr.2 _)
  | node v (t :: ts), node w [], ht, hu, r, r', _, hr', h => by
    have hv := ht v List.mem_cons_self
    have hw := hu w List.mem_cons_self
    rw [parens, parens] at h
    simp only [String.toList_append, List.append_assoc] at h
    exact absurd (Stops.append_inj h hv.chars hw.chars (stops_cons rfl _) hr'.1).2.symm (hr'.2 _)
  | node v (t :: ts), node w (u :: us), ht, hu, r, r', _, _, h => by
    obtain ⟨hv, hbelow⟩ := List.forall_mem_cons.mp ht
    obtain ⟨hw, hbelow'⟩ := List.forall_mem_cons.mp hu
    obtain ⟨hfirst, hts⟩ := List.forall_mem_append.mp hbelow
    obtain ⟨hfirst', hus⟩ := List.forall_mem_append.mp hbelow'
    rw [parens, parens] at h
    simp only [String.toList_append, List.append_assoc] at h
    obtain ⟨hlabels, harguments⟩ :=
      Stops.append_inj h hv.chars hw.chars (stops_cons rfl _) (stops_cons rfl _)
    obtain rfl := String.toList_inj.mp hlabels
    obtain ⟨rfl, hothers⟩ := parens_append_inj t u hfirst hfirst' (endsCall_parensList ts r)
      (endsCall_parensList us r') (List.cons.inj harguments).2
    obtain ⟨rfl, hrest⟩ := parensList_append_inj ts us hts hus hothers
    exact ⟨rfl, hrest⟩

theorem parensList_append_inj : ∀ ts us : List (Tree String),
    (∀ l ∈ downwardList ts, IsCallName l) → (∀ l ∈ downwardList us, IsCallName l) →
    ∀ {r r' : List Char},
    (parensList id ts).toList ++ ')' :: r = (parensList id us).toList ++ ')' :: r' →
    ts = us ∧ r = r'
  | [], [], _, _, _, _, h => ⟨rfl, (List.cons.inj h).2⟩
  | [], u :: us, _, _, _, _, h => by simp [parensList] at h
  | t :: ts, [], _, _, _, _, h => by simp [parensList] at h
  | t :: ts, u :: us, ht, hu, r, r', h => by
    obtain ⟨ht, hts⟩ := List.forall_mem_append.mp ht
    obtain ⟨hu, hus⟩ := List.forall_mem_append.mp hu
    rw [parensList, parensList] at h
    simp only [String.toList_append, List.append_assoc] at h
    obtain ⟨rfl, hothers⟩ := parens_append_inj t u ht hu (endsCall_parensList ts r)
      (endsCall_parensList us r') (List.append_cancel_left h)
    obtain ⟨rfl, hrest⟩ := parensList_append_inj ts us hts hus hothers
    exact ⟨rfl, hrest⟩

end

/-- **The call notation tells trees apart.** -/
theorem parens_inj {label : α → String} {label' : β → String} {t : Tree α} {u : Tree β}
    (ht : ∀ v ∈ t.downward, IsCallName (label v)) (hu : ∀ v ∈ u.downward, IsCallName (label' v))
    (h : parens label t = parens label' u) : t.map label = u.map label' := by
  rw [parens_map label, parens_map label'] at h
  have hend : EndsCall [] := by
    refine ⟨fun c hc => ?_, by simp⟩
    cases hc
  exact (parens_append_inj _ _ (labels_of_values ht) (labels_of_values hu) hend hend
    (congrArg (·.toList ++ []) h)).1

/-! ## 4. Outlines -/

/-- A label for an outline: without ends of lines. -/
def IsLine (label : String) : Prop := '\n' ∉ label.toList

instance (label : String) : Decidable (IsLine label) := inferInstanceAs (Decidable (¬_))

def isLineChar (c : Char) : Bool := !(c == '\n')

theorem IsLine.chars {label : String} (h : IsLine label) :
    ∀ c ∈ label.toList, isLineChar c = true := by
  intro c hc
  have hne : c ≠ '\n' := fun heq => h (heq ▸ hc)
  simpa [isLineChar] using hne

/-- The characters that the parts of a margin and the branches start with. -/
def marks : List Char := ['├', '└', '│', ' ']

/-- The text does not start with the margin and one part more. -/
def Leaves (margin rest : List Char) : Prop := ∀ c ∈ marks, ¬ margin ++ [c] <+: rest

theorem branch_append_inj {last last' : Bool} {r r' : List Char}
    (h : (branch last).toList ++ r = (branch last').toList ++ r') : last = last' ∧ r = r' := by
  cases last <;> cases last' <;> simp_all [branch]

theorem outlineList_nil (margin : String) : (outlineList id margin []).toList = [] := rfl

/-- The line of the first node, the lines below it, and those of the others. -/
theorem outlineList_cons (margin v : String) (ts us : List (Tree String)) :
    (outlineList id margin (node v ts :: us)).toList
      = margin.toList ++ ((branch us.isEmpty).toList ++ (v.toList ++ '\n' ::
          ((outlineList id (margin ++ indent us.isEmpty) ts).toList
            ++ (outlineList id margin us).toList))) := by
  rw [outlineList, outlineNode]
  simp

/-- The lines of nodes do not leave their margin. -/
theorem not_leaves {margin : String} {t : Tree String} {ts : List (Tree String)} {r : List Char} :
    ¬ Leaves margin.toList ((outlineList id margin (t :: ts)).toList ++ r) := by
  obtain ⟨v, us⟩ := t
  have hbranch : ∃ c ∈ marks, ∃ cs, (branch ts.isEmpty).toList = c :: cs := by
    cases ts.isEmpty
    · exact ⟨'├', by decide, _, rfl⟩
    · exact ⟨'└', by decide, _, rfl⟩
  obtain ⟨c, hc, cs, hbranch⟩ := hbranch
  intro hleaves
  refine hleaves c hc ?_
  rw [outlineList_cons, hbranch]
  simp

/-- **What follows the nodes below a node leaves their margin.**  Below the last node the margin
goes on with spaces, and so would what leaves the margin of that node; below any other node it goes
on with a line, where the next node has a branch. -/
theorem Leaves.below {margin : String} {ts : List (Tree String)} {r : List Char}
    (h : Leaves margin.toList r) :
    Leaves (margin ++ indent ts.isEmpty).toList ((outlineList id margin ts).toList ++ r) := by
  intro c _ hprefix
  rw [String.toList_append] at hprefix
  cases ts with
  | nil =>
    have hspace : margin.toList ++ [' '] <+: r := by
      refine List.IsPrefix.trans ?_ hprefix
      simp [indent]
    exact h ' ' (by decide) hspace
  | cons t ts =>
    obtain ⟨v, us⟩ := t
    rw [outlineList_cons] at hprefix
    simp only [List.append_assoc, List.prefix_append_right_inj] at hprefix
    cases hts : ts.isEmpty <;> simp [indent, branch, hts] at hprefix

/-- **Trees are told by their lines** below a margin, and so is what follows. -/
theorem outlineList_append_inj : ∀ ts us : List (Tree String),
    (∀ l ∈ downwardList ts, IsLine l) → (∀ l ∈ downwardList us, IsLine l) →
    ∀ (margin : String) {r r' : List Char}, Leaves margin.toList r → Leaves margin.toList r' →
    (outlineList id margin ts).toList ++ r = (outlineList id margin us).toList ++ r' →
    ts = us ∧ r = r'
  | [], [], _, _, _, _, _, _, _, h => ⟨rfl, h⟩
  | [], u :: us, _, _, _, _, _, hr, _, h => by
    rw [outlineList_nil, List.nil_append] at h
    exact absurd (h ▸ hr) not_leaves
  | t :: ts, [], _, _, _, _, _, _, hr', h => by
    rw [outlineList_nil, List.nil_append] at h
    exact absurd (h ▸ hr') not_leaves
  | node v ts :: us, node w ts' :: us', ht, hu, margin, r, r', hr, hr', h => by
    obtain ⟨ht, hus⟩ := List.forall_mem_append.mp ht
    obtain ⟨hu, hus'⟩ := List.forall_mem_append.mp hu
    obtain ⟨hv, hts⟩ := List.forall_mem_cons.mp ht
    obtain ⟨hw, hts'⟩ := List.forall_mem_cons.mp hu
    rw [outlineList_cons, outlineList_cons] at h
    simp only [List.append_assoc, List.append_cancel_left_eq, List.cons_append] at h
    obtain ⟨hlast, hline⟩ := branch_append_inj h
    obtain ⟨hlabels, hlines⟩ :=
      Stops.append_inj hline hv.chars hw.chars (stops_cons rfl _) (stops_cons rfl _)
    obtain rfl := String.toList_inj.mp hlabels
    rw [hlast] at hlines
    obtain ⟨rfl, hothers⟩ := outlineList_append_inj ts ts' hts hts' _ (hlast ▸ hr.below) hr'.below
      (List.cons.inj hlines).2
    obtain ⟨rfl, hrest⟩ := outlineList_append_inj us us' hus hus' margin hr hr' hothers
    exact ⟨rfl, hrest⟩

/-- **The outline tells trees apart.** -/
theorem outline_inj {label : α → String} {label' : β → String} {t : Tree α} {u : Tree β}
    (ht : ∀ v ∈ t.downward, IsLine (label v)) (hu : ∀ v ∈ u.downward, IsLine (label' v))
    (h : outline label t = outline label' u) : t.map label = u.map label' := by
  rw [outline_map label, outline_map label'] at h
  have ht' := labels_of_values ht
  have hu' := labels_of_values hu
  generalize t.map label = t at ht' h
  generalize u.map label' = u at hu' h
  obtain ⟨v, ts⟩ := t
  obtain ⟨w, us⟩ := u
  obtain ⟨hv, hts⟩ := List.forall_mem_cons.mp ht'
  obtain ⟨hw, hus⟩ := List.forall_mem_cons.mp hu'
  have hlines : v.toList ++ '\n' :: ((outlineList id "" ts).toList ++ [])
      = w.toList ++ '\n' :: ((outlineList id "" us).toList ++ []) := by
    simpa [outline] using congrArg String.toList h
  have hend : Leaves "".toList [] := by simp [Leaves]
  obtain ⟨hlabels, hbelow⟩ :=
    Stops.append_inj hlines hv.chars hw.chars (stops_cons rfl _) (stops_cons rfl _)
  obtain rfl := String.toList_inj.mp hlabels
  obtain ⟨rfl, -⟩ := outlineList_append_inj ts us hts hus "" hend hend (List.cons.inj hbelow).2
  rfl

end Formulary.Tree
