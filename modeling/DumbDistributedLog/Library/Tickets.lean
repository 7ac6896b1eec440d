import Mathlib.Data.List.Perm.Subperm
import Mathlib.Data.List.Range

/-! # A counter that is read before it is raised

Takers read a counter, take so many positions from there on, and then raise the counter by their
number. Between the two others may have raised it. The positions that have been passed are then
taken once each exactly if every taker has found the counter as it read it.
-/

namespace Tickets

/-- What was read, how many positions were taken from there on, and what was found when the counter
was raised. -/
structure Take where
  read : ℕ
  count : ℕ
  found : ℕ
  deriving DecidableEq, Repr

def positions (takes : List Take) : List ℕ := takes.flatMap fun t => List.range' t.read t.count

/-- The counter is raised from nothing by one take after the other, and none of them has read more
than it finds. -/
inductive Raised : List Take → Prop where
  | nil : Raised []
  | snoc {takes : List Take} {t : Take} (h : Raised takes) (hread : t.read ≤ t.found)
      (hfound : t.found = (positions takes).length) : Raised (takes ++ [t])

variable {takes : List Take} {t : Take}

theorem positions_snoc :
    positions (takes ++ [t]) = positions takes ++ List.range' t.read t.count := by
  simp [positions]

theorem length_positions_snoc :
    (positions (takes ++ [t])).length = (positions takes).length + t.count := by
  rw [positions_snoc, List.length_append, List.length_range']

theorem Raised.lt_length (h : Raised takes) :
    ∀ position ∈ positions takes, position < (positions takes).length := by
  induction h with
  | nil => simp [positions]
  | snoc h hread hfound ih =>
    intro position hmem
    rw [length_positions_snoc]
    rw [positions_snoc] at hmem
    rcases List.mem_append.mp hmem with hbefore | hlast
    · exact Nat.lt_add_right _ (ih position hbefore)
    · obtain ⟨-, hlt⟩ := List.mem_range'_1.mp hlast
      omega

theorem Raised.positions_eq_range (h : Raised takes)
    (hfresh : ∀ t ∈ takes, t.count ≠ 0 → t.found = t.read) :
    positions takes = List.range (positions takes).length := by
  induction h with
  | nil => rfl
  | @snoc takes t h hread hfound ih =>
    have hbefore := ih fun t' ht' => hfresh t' (List.mem_append_left _ ht')
    have hlast : List.range' t.read t.count = List.range' (positions takes).length t.count := by
      by_cases hcount : t.count = 0
      · rw [hcount, List.range'_zero, List.range'_zero]
      · rw [← hfound, hfresh t (by simp) hcount]
    rw [length_positions_snoc, positions_snoc, hlast, hbefore, List.length_range,
      List.range_eq_range', List.range_eq_range']
    simpa using List.range'_append_1 (s := 0) (m := (positions takes).length) (n := t.count)

theorem Raised.nodup_iff (h : Raised takes) :
    (positions takes).Nodup ↔ ∀ t ∈ takes, t.count ≠ 0 → t.found = t.read := by
  constructor
  · intro hnodup
    induction h with
    | nil => simp
    | @snoc takes t h hread hfound ih =>
      have hbefore : (positions takes).Nodup := by
        rw [positions_snoc] at hnodup
        exact (List.nodup_append.mp hnodup).1
      intro t' ht' hcount
      rcases List.mem_append.mp ht' with ht' | ht'
      · exact ih hbefore t' ht' hcount
      · obtain rfl := List.mem_singleton.mp ht'
        -- a take that has read less leaves too little room for all the positions
        by_contra hstale
        have hsub : positions (takes ++ [t']) ⊆
            List.range ((positions takes).length + t'.count - 1) := by
          intro position hmem
          rw [positions_snoc] at hmem
          rw [List.mem_range]
          rcases List.mem_append.mp hmem with hmem | hmem
          · have hlt := h.lt_length position hmem
            omega
          · obtain ⟨-, hlt⟩ := List.mem_range'_1.mp hmem
            omega
        have hroom := (hnodup.subperm hsub).length_le
        rw [length_positions_snoc, List.length_range] at hroom
        omega
  · intro hfresh
    rw [h.positions_eq_range hfresh]
    exact List.nodup_range

theorem Raised.nodup_iff_forall_mem (h : Raised takes) :
    (positions takes).Nodup ↔
      ∀ position < (positions takes).length, position ∈ positions takes := by
  constructor
  · intro hnodup position hlt
    rw [h.positions_eq_range (h.nodup_iff.mp hnodup)]
    exact List.mem_range.mpr hlt
  · intro hall
    have hsub : (List.range (positions takes).length).Subperm (positions takes) :=
      List.nodup_range.subperm fun position hmem => hall position (List.mem_range.mp hmem)
    exact (hsub.perm_of_length_le (by simp)).nodup List.nodup_range

end Tickets
