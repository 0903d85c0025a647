import Formulary.Bindings
import Mathlib.Data.List.Basic

/-!
# Finding what is bound

A name is found with the value that it was bound to last, and no other name is touched.
-/

namespace Formulary

variable {α : Type}

namespace Bindings

variable {b : Bindings α} {name other : String} {v : α}

@[simp] theorem find?_nil : find? ([] : Bindings α) name = none := rfl

theorem find?_insert_self : (b.insert name v).find? name = some v := by
  induction b with
  | nil => simp [insert, find?]
  | cons entry rest ih =>
    obtain ⟨k, w⟩ := entry
    rw [insert]
    by_cases hk : k = name
    · simp [hk, find?]
    · have hne : (name == k) = false := by simpa using Ne.symm hk
      rw [if_neg (by simpa using hk), find?, List.lookup_cons, hne]
      exact ih

theorem find?_insert_of_ne (h : other ≠ name) : (b.insert name v).find? other = b.find? other := by
  induction b with
  | nil => simp [insert, find?, h]
  | cons entry rest ih =>
    obtain ⟨k, w⟩ := entry
    rw [insert]
    by_cases hk : k = name
    · have hne : (other == name) = false := by simpa using h
      simp [hk, find?, List.lookup_cons, hne]
    · rw [if_neg (by simpa using hk), find?, find?, List.lookup_cons, List.lookup_cons]
      cases other == k with
      | true => rfl
      | false => exact ih

theorem holds_iff : b.holds name = true ↔ ∃ v, b.find? name = some v :=
  Option.isSome_iff_exists

theorem holds_eq_false : b.holds name = false ↔ b.find? name = none := by
  simp [holds]

theorem mem_of_find? (h : b.find? name = some v) : (name, v) ∈ b := by
  obtain ⟨before, after, rfl, -⟩ := List.lookup_eq_some_iff.mp h
  simp

theorem mem_insert {entry : String × α} (h : entry ∈ b.insert name v) :
    entry = (name, v) ∨ entry ∈ b := by
  induction b with
  | nil => exact .inl (List.mem_singleton.mp h)
  | cons first rest ih =>
    obtain ⟨k, w⟩ := first
    rw [insert] at h
    split at h
    next hk =>
      rw [eq_of_beq hk] at h
      exact (List.mem_cons.mp h).imp_right (List.mem_cons_of_mem _)
    next =>
      rcases List.mem_cons.mp h with rfl | h
      · exact .inr List.mem_cons_self
      · exact (ih h).imp_right (List.mem_cons_of_mem _)

/-! ## Many bindings at once -/

variable {entries : List (String × α)}

/-- What is bound is one of the entries, or was bound before. -/
theorem mem_insertAll {entry : String × α}
    (h : entry ∈ entries.foldl (fun b entry => b.insert entry.1 entry.2) b) :
    entry ∈ entries ∨ entry ∈ b := by
  induction entries generalizing b with
  | nil => exact .inr h
  | cons first entries ih =>
    rcases ih h with h | h
    · exact .inl (List.mem_cons_of_mem _ h)
    · rcases mem_insert h with rfl | h
      · exact .inl List.mem_cons_self
      · exact .inr h

theorem find?_insertAll_of_not_mem (h : name ∉ entries.map (·.1)) :
    (entries.foldl (fun b entry => b.insert entry.1 entry.2) b).find? name = b.find? name := by
  induction entries generalizing b with
  | nil => rfl
  | cons entry entries ih =>
    rw [List.map_cons, List.mem_cons, not_or] at h
    rw [List.foldl_cons, ih h.2, find?_insert_of_ne h.1]

/-- **Every entry is found**, if no name stands twice. -/
theorem find?_insertAll (hnodup : (entries.map (·.1)).Nodup) (h : (name, v) ∈ entries) :
    (entries.foldl (fun b entry => b.insert entry.1 entry.2) b).find? name = some v := by
  induction entries generalizing b with
  | nil => cases h
  | cons entry entries ih =>
    obtain ⟨hnew, hnodup'⟩ := List.nodup_cons.mp hnodup
    rw [List.foldl_cons]
    rcases List.mem_cons.mp h with rfl | h
    · rw [find?_insertAll_of_not_mem hnew, find?_insert_self]
    · exact ih hnodup' h

end Bindings

end Formulary
