import Mathlib.Data.List.Basic

/-! # Calls in progress

Concurrent calls are a list of phases. A new call is added at the end, and a call that goes on
changes its phase at its place.
-/

namespace Calls

variable {φ : Type*} {calls : List φ} {c i : ℕ} {old new : φ}

theorem get_append : (calls ++ [new])[i]? = if calls.length = i then some new else calls[i]? := by
  rcases Nat.lt_trichotomy i calls.length with hlt | rfl | hgt
  · rw [List.getElem?_append_left hlt, if_neg (Nat.ne_of_gt hlt)]
  · rw [List.getElem?_concat_length, if_pos rfl]
  · rw [List.getElem?_eq_none (by rw [List.length_append, List.length_singleton]; omega),
      if_neg (Nat.ne_of_lt hgt), List.getElem?_eq_none (Nat.le_of_lt hgt)]

theorem get_append_of_some (h : calls[i]? = some old) : (calls ++ [new])[i]? = some old := by
  rw [List.getElem?_append_left (List.getElem?_eq_some_iff.mp h).1, h]

theorem get_set (h : calls[c]? = some old) :
    (calls.set c new)[i]? = if c = i then some new else calls[i]? := by
  have hlt : c < calls.length := (List.getElem?_eq_some_iff.mp h).1
  rw [List.getElem?_set, if_pos hlt]

theorem set_self (h : calls[c]? = some old) : calls.set c old = calls := by
  ext1 i
  rw [get_set h]
  split_ifs with hi
  · rw [← hi, h]
  · rfl

theorem map_set {β : Type*} {f : φ → β} (h : calls[c]? = some old) (hf : f new = f old) :
    (calls.set c new).map f = calls.map f := by
  ext1 i
  rw [List.getElem?_map, List.getElem?_map, get_set h]
  split_ifs with hi
  · rw [← hi, h, Option.map_some, Option.map_some, hf]
  · rfl

theorem length_le_countP {p : φ → Bool} {is : List ℕ} (hnodup : is.Nodup)
    (h : ∀ i ∈ is, ∃ phase, calls[i]? = some phase ∧ p phase = true) :
    is.length ≤ calls.countP p := by
  have hsub : is ⊆ (calls.zipIdx.filter fun x => p x.1).map Prod.snd := by
    intro i hi
    obtain ⟨phase, hphase, hp⟩ := h i hi
    refine List.mem_map.mpr ⟨(phase, i), List.mem_filter.mpr ⟨?_, hp⟩, rfl⟩
    exact List.mem_zipIdx_iff_getElem?.mpr hphase
  calc is.length ≤ ((calls.zipIdx.filter fun x => p x.1).map Prod.snd).length :=
        hnodup.length_le_of_subset hsub
    _ = calls.zipIdx.countP (p ∘ Prod.fst) := by
        rw [List.length_map, List.countP_eq_length_filter]
        rfl
    _ = calls.countP p := by rw [← List.countP_map, List.zipIdx_map_fst]

end Calls
