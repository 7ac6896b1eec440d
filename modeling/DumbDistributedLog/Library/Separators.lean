import Mathlib.Tactic.Common

/-! # Splitting at a separator

A list is split at its first separator, or at every one. What was joined by a separator comes apart
again exactly if there is none in its first part, or in any part.
-/

namespace Separators

variable {α : Type*} [DecidableEq α] {x : α} {l front back : List α}

/-- What stands before the first separator and what stands after it. -/
def splitFirst (x : α) (l : List α) : Option (List α × List α) :=
  (l.findIdx? (· == x)).map fun pos => (l.take pos, l.drop (pos + 1))

theorem splitFirst_append (h : x ∉ front) :
    splitFirst x (front ++ x :: back) = some (front, back) := by
  have hpos : (front ++ x :: back).findIdx? (· == x) = some front.length := by
    induction front with
    | nil => simp [List.findIdx?_cons]
    | cons a front ih =>
      obtain ⟨ha, hfront⟩ : x ≠ a ∧ x ∉ front := by simpa using h
      simp [List.findIdx?_cons, Ne.symm ha, ih hfront]
  simp [splitFirst, hpos]

theorem splitFirst_eq_none : splitFirst x l = none ↔ x ∉ l := by
  constructor
  · intro hnone hmem
    obtain ⟨front, back, rfl, hfront⟩ := List.eq_append_cons_of_mem hmem
    rw [splitFirst_append hfront] at hnone
    cases hnone
  · intro hmem
    have hpos : l.findIdx? (· == x) = none := by
      simp only [List.findIdx?_eq_none_iff, beq_eq_false_iff_ne]
      exact fun a ha heq => hmem (heq ▸ ha)
    simp [splitFirst, hpos]

theorem splitFirst_eq_some :
    splitFirst x l = some (front, back) ↔ l = front ++ x :: back ∧ x ∉ front := by
  constructor
  · intro hsome
    by_cases hmem : x ∈ l
    · obtain ⟨front', back', rfl, hfront⟩ := List.eq_append_cons_of_mem hmem
      rw [splitFirst_append hfront] at hsome
      cases hsome
      exact ⟨rfl, hfront⟩
    · rw [splitFirst_eq_none.mpr hmem] at hsome
      cases hsome
  · rintro ⟨rfl, hfront⟩
    exact splitFirst_append hfront

theorem splitOn_eq_singleton_iff : l.splitOn x = [front] ↔ l = front ∧ x ∉ l := by
  constructor
  · intro hsplit
    by_cases hmem : x ∈ l
    · obtain ⟨front', back', rfl, hfront⟩ := List.eq_append_cons_of_mem hmem
      rw [List.splitOn_append_cons_self_of_not_mem hfront] at hsplit
      exact absurd (List.cons.inj hsplit).2 (List.splitOn_ne_nil x back')
    · rw [List.splitOn_eq_singleton hmem] at hsplit
      exact ⟨(List.cons.inj hsplit).1, hmem⟩
  · rintro ⟨rfl, hmem⟩
    exact List.splitOn_eq_singleton hmem

theorem splitOn_eq_pair_iff :
    l.splitOn x = [front, back] ↔ l = front ++ x :: back ∧ x ∉ front ∧ x ∉ back := by
  constructor
  · intro hsplit
    by_cases hmem : x ∈ l
    · obtain ⟨front', back', rfl, hfront⟩ := List.eq_append_cons_of_mem hmem
      rw [List.splitOn_append_cons_self_of_not_mem hfront] at hsplit
      obtain ⟨rfl, hrest⟩ := List.cons.inj hsplit
      obtain ⟨rfl, hback⟩ := splitOn_eq_singleton_iff.mp hrest
      exact ⟨rfl, hfront, hback⟩
    · rw [List.splitOn_eq_singleton hmem] at hsplit
      cases hsplit
  · rintro ⟨rfl, hfront, hback⟩
    rw [List.splitOn_append_cons_self_of_not_mem hfront, List.splitOn_eq_singleton hback]

theorem not_mem_of_mem_splitOn {part : List α} (h : part ∈ l.splitOn x) : x ∉ part := by
  induction hlen : l.length using Nat.strongRecOn generalizing l with
  | ind n ih =>
    by_cases hmem : x ∈ l
    · obtain ⟨front, back, rfl, hfront⟩ := List.eq_append_cons_of_mem hmem
      rw [List.splitOn_append_cons_self_of_not_mem hfront, List.mem_cons] at h
      rcases h with rfl | hback
      · exact hfront
      · exact ih back.length (by simp only [← hlen, List.length_append, List.length_cons]; omega)
          hback rfl
    · rw [List.splitOn_eq_singleton hmem, List.mem_singleton] at h
      rwa [h]

end Separators
