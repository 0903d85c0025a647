import Formulary.Tree
import Mathlib.Data.List.Basic

/-!
# Walks through a tree

A walk shows the values of a tree one by one to a visitor, which may end it.  Both walks come down
to a list of values: what they do with any visitor is what showing it that list does
(`walkDown_eq`, `walkUp_eq`), so a walk that is ended early has shown the front of the list and
nothing behind it.

What is said of the values of a tree is carried to its copies: a copy has the values that are made
of them (`downward_map`), and copies of trees that are the same are the same (`sameBy_map`). -/

namespace Formulary.Tree

variable {α σ : Type}

/-! ## 1. Lists of values -/

mutual

/-- The values, each before those below it. -/
def downward : Tree α → List α
  | node v ts => v :: downwardList ts

def downwardList : List (Tree α) → List α
  | [] => []
  | t :: ts => downward t ++ downwardList ts

end

mutual

/-- The values, each after those below it. -/
def upward : Tree α → List α
  | node v ts => upwardList ts ++ [v]

def upwardList : List (Tree α) → List α
  | [] => []
  | t :: ts => upward t ++ upwardList ts

end

theorem downwardList_eq (ts : List (Tree α)) : downwardList ts = ts.flatMap downward := by
  induction ts with
  | nil => rfl
  | cons t ts ih => rw [downwardList, ih, List.flatMap_cons]

theorem upwardList_eq (ts : List (Tree α)) : upwardList ts = ts.flatMap upward := by
  induction ts with
  | nil => rfl
  | cons t ts ih => rw [upwardList, ih, List.flatMap_cons]

mutual

/-- There are as many values as nodes. -/
theorem length_downward : ∀ t : Tree α, t.downward.length = t.size
  | node v ts => by rw [downward, size, List.length_cons, length_downwardList ts]

theorem length_downwardList : ∀ ts : List (Tree α), (downwardList ts).length = sizeList ts
  | [] => rfl
  | t :: ts => by
    rw [downwardList, sizeList, List.length_append, length_downward t, length_downwardList ts]

end

mutual

theorem length_upward : ∀ t : Tree α, t.upward.length = t.size
  | node v ts => by rw [upward, size, List.length_append, length_upwardList ts]; rfl

theorem length_upwardList : ∀ ts : List (Tree α), (upwardList ts).length = sizeList ts
  | [] => rfl
  | t :: ts => by
    rw [upwardList, sizeList, List.length_append, length_upward t, length_upwardList ts]

end

/-- What holds of all values holds of the first one and of all below it. -/
theorem forall_downward {P : α → Prop} {v : α} {ts : List (Tree α)} :
    (∀ x ∈ (node v ts).downward, P x) ↔ P v ∧ ∀ t ∈ ts, ∀ x ∈ t.downward, P x := by
  rw [downward, List.forall_mem_cons, downwardList_eq, List.forall_mem_flatMap]

theorem mapList_eq {β : Type} (f : α → β) (ts : List (Tree α)) :
    mapList f ts = ts.map (map f) := by
  induction ts with
  | nil => rfl
  | cons t ts ih => rw [mapList, ih, List.map_cons]

theorem map_node_inj {β γ : Type} {f : α → γ} {g : β → γ} {v : α} {w : β} {ts : List (Tree α)}
    {us : List (Tree β)} (h : (node v ts).map f = (node w us).map g) :
    f v = g w ∧ ts.map (map f) = us.map (map g) := by
  rw [map, map, mapList_eq, mapList_eq] at h
  exact node.inj h

mutual

/-- A function is applied to each value where it stands. -/
theorem downward_map {β : Type} (f : α → β) : ∀ t : Tree α, (t.map f).downward = t.downward.map f
  | node v ts => by rw [map, downward, downward, List.map_cons, downwardList_map f ts]

theorem downwardList_map {β : Type} (f : α → β) :
    ∀ ts : List (Tree α), downwardList (mapList f ts) = (downwardList ts).map f
  | [] => rfl
  | t :: ts => by
    rw [mapList, downwardList, downwardList, List.map_append, downward_map f t,
      downwardList_map f ts]

end

/-! ## 2. Visitors -/

/-- Shows the values of a list, up to the first after which the visitor wants no more. -/
def showAll (visit : σ → α → σ × Bool) (s : σ) : List α → σ × Bool
  | [] => (s, true)
  | v :: vs =>
    match visit s v with
    | (s, true) => showAll visit s vs
    | (s, false) => (s, false)

/-- The second list is shown if more is wanted after the first. -/
theorem showAll_append (visit : σ → α → σ × Bool) (s : σ) (l l' : List α) :
    showAll visit s (l ++ l') =
      match showAll visit s l with
      | (s, true) => showAll visit s l'
      | (s, false) => (s, false) := by
  induction l generalizing s with
  | nil => rfl
  | cons v l ih =>
    rw [List.cons_append, showAll, showAll]
    rcases visit s v with ⟨s', _ | _⟩
    · rfl
    · exact ih s'

theorem showAll_singleton (visit : σ → α → σ × Bool) (s : σ) (v : α) :
    showAll visit s [v] = visit s v := by
  rw [showAll]
  rcases visit s v with ⟨s', _ | _⟩ <;> rfl

mutual

/-- **A walk down shows the values in the order of `downward`**, whoever visits. -/
theorem walkDown_eq (visit : σ → α → σ × Bool) (s : σ) :
    ∀ t : Tree α, walkDown visit s t = showAll visit s t.downward
  | node v ts => by
    rw [walkDown, downward, showAll]
    rcases visit s v with ⟨s', _ | _⟩
    · rfl
    · exact walkDownList_eq visit s' ts

theorem walkDownList_eq (visit : σ → α → σ × Bool) (s : σ) :
    ∀ ts : List (Tree α), walkDownList visit s ts = showAll visit s (downwardList ts)
  | [] => rfl
  | t :: ts => by
    rw [walkDownList, downwardList, showAll_append, walkDown_eq visit s t]
    rcases showAll visit s t.downward with ⟨s', _ | _⟩
    · rfl
    · exact walkDownList_eq visit s' ts

end

mutual

/-- **A walk up shows the values in the order of `upward`**, whoever visits. -/
theorem walkUp_eq (visit : σ → α → σ × Bool) (s : σ) :
    ∀ t : Tree α, walkUp visit s t = showAll visit s t.upward
  | node v ts => by
    rw [walkUp, upward, showAll_append, walkUpList_eq visit s ts]
    rcases showAll visit s (upwardList ts) with ⟨s', _ | _⟩
    · rfl
    · exact (showAll_singleton visit s' v).symm

theorem walkUpList_eq (visit : σ → α → σ × Bool) (s : σ) :
    ∀ ts : List (Tree α), walkUpList visit s ts = showAll visit s (upwardList ts)
  | [] => rfl
  | t :: ts => by
    rw [walkUpList, upwardList, showAll_append, walkUp_eq visit s t]
    rcases showAll visit s t.upward with ⟨s', _ | _⟩
    · rfl
    · exact walkUpList_eq visit s' ts

end

/-! ## 3. Taking notes -/

/-- A visitor without a limit notes all it is shown. -/
theorem showAll_note_none (seen l : List α) :
    showAll (note none) seen l = (l.reverse ++ seen, true) := by
  induction l generalizing seen with
  | nil => rfl
  | cons v l ih =>
    rw [showAll, List.reverse_cons, List.append_assoc]
    exact ih (v :: seen)

/-- **A visitor with a limit is shown no more values than that.** -/
theorem showAll_note_some {k : Nat} {seen : List α} (hseen : seen.length ≤ k) (l : List α) :
    (showAll (note (some (k + 1))) seen l).1 = (l.take (k + 1 - seen.length)).reverse ++ seen := by
  induction l generalizing seen with
  | nil => simp [showAll]
  | cons v l ih =>
    rw [Nat.succ_sub hseen, List.take_succ_cons, List.reverse_cons, List.append_assoc]
    by_cases hmore : seen.length < k
    · have hnote : note (some (k + 1)) seen v = (v :: seen, true) := by simp [note, hmore]
      have hrest := @ih (v :: seen) hmore
      rw [List.length_cons, Nat.add_sub_add_right] at hrest
      simp only [showAll, hnote]
      exact hrest
    · have hnote : note (some (k + 1)) seen v = (v :: seen, false) := by simp [note, hmore]
      have hlast : k - seen.length = 0 := by omega
      simp only [showAll, hnote, hlast, List.take_zero]
      rfl

theorem preorder_none (t : Tree α) : t.preorder none = t.downward := by
  rw [preorder, walkDown_eq, showAll_note_none]
  simp

theorem postorder_none (t : Tree α) : t.postorder none = t.upward := by
  rw [postorder, walkUp_eq, showAll_note_none]
  simp

theorem preorder_some (k : Nat) (t : Tree α) :
    t.preorder (some (k + 1)) = t.downward.take (k + 1) := by
  rw [preorder, walkDown_eq, showAll_note_some (Nat.zero_le k)]
  simp

theorem postorder_some (k : Nat) (t : Tree α) :
    t.postorder (some (k + 1)) = t.upward.take (k + 1) := by
  rw [postorder, walkUp_eq, showAll_note_some (Nat.zero_le k)]
  simp

/-! ## 4. Height -/

theorem height_lt_heightList {t : Tree α} {ts : List (Tree α)} (h : t ∈ ts) :
    t.height + 1 ≤ heightList ts := by
  induction ts with
  | nil => cases h
  | cons u ts ih =>
    rw [heightList]
    rcases List.mem_cons.mp h with rfl | h
    · exact Nat.le_max_left _ _
    · exact Nat.le_trans (ih h) (Nat.le_max_right _ _)

/-- A tree of some height has a subtree that is as high, but for one edge. -/
theorem exists_height {ts : List (Tree α)} (h : heightList ts ≠ 0) :
    ∃ t ∈ ts, heightList ts = t.height + 1 := by
  induction ts with
  | nil => exact absurd rfl h
  | cons u ts ih =>
    rw [heightList] at h ⊢
    by_cases hle : heightList ts ≤ u.height + 1
    · exact ⟨u, List.mem_cons_self, Nat.max_eq_left hle⟩
    · obtain ⟨t, ht, heq⟩ := ih (by omega)
      exact ⟨t, List.mem_cons_of_mem u ht, by omega⟩

/-! ## 5. Copies and comparison -/

theorem map_map {β γ : Type} (f : α → β) (g : β → γ) (t : Tree α) :
    (t.map f).map g = t.map (g ∘ f) := by
  induction t using Tree.induction with
  | node v ts ih =>
    rw [map, map, map, mapList_eq, mapList_eq, mapList_eq, List.map_map]
    exact congrArg _ (List.map_congr_left ih)

theorem map_id (t : Tree α) : t.map id = t := by
  induction t using Tree.induction with
  | node v ts ih =>
    rw [map, mapList_eq]
    exact congrArg _ ((List.map_congr_left ih).trans (List.map_id ts))

mutual

/-- A copy is as high as the tree. -/
theorem height_map {β : Type} (f : α → β) : ∀ t : Tree α, (t.map f).height = t.height
  | node v ts => by rw [map, height, height, heightList_map f ts]

theorem heightList_map {β : Type} (f : α → β) :
    ∀ ts : List (Tree α), heightList (mapList f ts) = heightList ts
  | [] => rfl
  | t :: ts => by rw [mapList, heightList, heightList, height_map f t, heightList_map f ts]

end

theorem sameByList_self {eq : α → α → Bool} {ts : List (Tree α)}
    (h : ∀ t ∈ ts, sameBy eq t t = true) : sameByList eq ts ts = true := by
  induction ts with
  | nil => rfl
  | cons t ts ih =>
    rw [sameByList, h t (by simp), ih fun u hu => h u (by simp [hu])]
    rfl

/-- A tree is the same as itself if its values are. -/
theorem sameBy_self {eq : α → α → Bool} {t : Tree α} (h : ∀ v ∈ t.downward, eq v v = true) :
    sameBy eq t t = true := by
  induction t using Tree.induction with
  | node v ts ih =>
    obtain ⟨hv, hts⟩ := forall_downward.mp h
    rw [sameBy, hv, sameByList_self fun t ht => ih t ht (hts t ht)]
    rfl

mutual

/-- **Copies of trees that are the same are the same**, if that is kept for values. -/
theorem sameBy_map {β : Type} {eq : α → α → Bool} {eq' : β → β → Bool} {f : α → β}
    (h : ∀ v w, eq v w = true → eq' (f v) (f w) = true) : ∀ {t u : Tree α},
    sameBy eq t u = true → sameBy eq' (t.map f) (u.map f) = true
  | node v ts, node w us, hsame => by
    obtain ⟨hvalue, hbelow⟩ := (Bool.and_eq_true _ _).mp hsame
    rw [map, map, sameBy, h v w hvalue, sameByList_map h hbelow]
    rfl

theorem sameByList_map {β : Type} {eq : α → α → Bool} {eq' : β → β → Bool} {f : α → β}
    (h : ∀ v w, eq v w = true → eq' (f v) (f w) = true) : ∀ {ts us : List (Tree α)},
    sameByList eq ts us = true → sameByList eq' (mapList f ts) (mapList f us) = true
  | [], [], _ => rfl
  | t :: ts, u :: us, hsame => by
    obtain ⟨hfirst, hothers⟩ := (Bool.and_eq_true _ _).mp hsame
    rw [mapList, mapList, sameByList, sameBy_map h hfirst, sameByList_map h hothers]
    rfl
  | [], _ :: _, hsame => by cases hsame
  | _ :: _, [], hsame => by cases hsame

end

end Formulary.Tree
