import Mathlib.Data.List.Sort

/-! # Ranks

The element at a place of a sorted list has so many elements below or equal to it, and the others
above or equal to it. Lists of the same elements are sorted to the same list.
-/

namespace Ranks

variable {α : Type*} [LinearOrder α] {l l' : List α} {k : ℕ}

theorem mergeSort_eq_of_perm (h : l.Perm l') :
    l.mergeSort (· ≤ ·) = l'.mergeSort (· ≤ ·) := by
  refine List.Perm.eq_of_pairwise (fun a b _ _ => le_antisymm)
    List.sortedLE_mergeSort.pairwise List.sortedLE_mergeSort.pairwise ?_
  exact (List.mergeSort_perm l _).trans (h.trans (List.mergeSort_perm l' _).symm)

theorem rank_of_pairwise (hs : l.Pairwise (· ≤ ·)) (hk : k < l.length) :
    k + 1 ≤ l.countP (· ≤ l[k]) ∧ l.length - k ≤ l.countP (l[k] ≤ ·) := by
  have hle := List.pairwise_iff_getElem.mp hs
  constructor
  · have hfront : (l.take (k + 1)).countP (· ≤ l[k]) = (l.take (k + 1)).length := by
      refine List.countP_eq_length.mpr fun a ha => ?_
      obtain ⟨i, hi, rfl⟩ := List.mem_iff_getElem.mp ha
      rw [List.length_take] at hi
      rw [List.getElem_take, decide_eq_true_eq]
      rcases Nat.lt_or_ge i k with hlt | hge
      · exact hle i k (by omega) hk hlt
      · obtain rfl : i = k := by omega
        exact le_rfl
    have hsub : _ ≤ l.countP (· ≤ l[k]) := (List.take_sublist (k + 1) l).countP_le
    rw [hfront, List.length_take] at hsub
    omega
  · have hback : (l.drop k).countP (l[k] ≤ ·) = (l.drop k).length := by
      refine List.countP_eq_length.mpr fun a ha => ?_
      obtain ⟨i, hi, rfl⟩ := List.mem_iff_getElem.mp ha
      rw [List.length_drop] at hi
      rw [List.getElem_drop, decide_eq_true_eq]
      rcases Nat.eq_zero_or_pos i with rfl | hpos
      · exact le_rfl
      · exact hle k (k + i) hk (by omega) (by omega)
    have hsub : _ ≤ l.countP (l[k] ≤ ·) := (List.drop_sublist k l).countP_le
    rwa [hback, List.length_drop] at hsub

omit [LinearOrder α] in
theorem foldl_sup_eq {β : Type*} [SemilatticeSup β] {g : α → β} {b : β} {v : α}
    (hmax : ∀ w ∈ l, g w ≤ g v) (hb : b ≤ g v) (hv : v ∈ l ∨ b = g v) :
    l.foldl (fun m w => m ⊔ g w) b = g v := by
  induction l generalizing b with
  | nil => exact hv.resolve_left List.not_mem_nil
  | cons w l ih =>
    obtain ⟨hw, hl⟩ := List.forall_mem_cons.mp hmax
    refine ih hl (sup_le hb hw) ?_
    rcases hv with hv | rfl
    · rcases List.mem_cons.mp hv with rfl | hv
      · exact .inr (sup_eq_right.mpr hb)
      · exact .inl hv
    · exact .inr (sup_eq_left.mpr hw)

theorem rank_mergeSort (hk : k < l.length) :
    ∃ v ∈ l, (l.mergeSort (· ≤ ·))[k]? = some v ∧
      k + 1 ≤ l.countP (· ≤ v) ∧ l.length - k ≤ l.countP (v ≤ ·) := by
  have hperm := List.mergeSort_perm l (· ≤ ·)
  have hk' : k < (l.mergeSort (· ≤ ·)).length := by rwa [List.length_mergeSort]
  obtain ⟨hbelow, habove⟩ := rank_of_pairwise List.sortedLE_mergeSort.pairwise hk'
  refine ⟨_, hperm.mem_iff.mp (List.getElem_mem hk'), List.getElem?_eq_getElem hk', ?_, ?_⟩
  · rwa [hperm.countP_eq] at hbelow
  · rwa [hperm.countP_eq, List.length_mergeSort] at habove

end Ranks
