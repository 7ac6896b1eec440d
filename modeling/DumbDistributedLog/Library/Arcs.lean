import Mathlib.Data.List.Basic
import Mathlib.Logic.Function.Iterate
import Mathlib.Tactic.Common

/-! # Shared values

A value is shared by counted references and is dropped when the last of them goes. References are
the positions of the values in a heap. References that are cloned and released again leave the heap
as it was, as long as somebody else keeps the values.
-/

structure Arc (α : Type*) where
  strong : ℕ
  value : α
  deriving DecidableEq, Repr

namespace Arc

variable {α : Type*} {drop : α → α} {heap : List (Arc α)} {a : Arc α} {i : ℕ}

def clone (a : Arc α) : Arc α := { a with strong := a.strong + 1 }

def release (drop : α → α) (a : Arc α) : Arc α :=
  ⟨a.strong - 1, if a.strong = 1 then drop a.value else a.value⟩

def update (f : α → α) (a : Arc α) : Arc α := { a with value := f a.value }

def modifyEach (f : Arc α → Arc α) (heap : List (Arc α)) (refs : List ℕ) : List (Arc α) :=
  refs.foldl (fun heap i => heap.modify i f) heap

theorem get_modifyEach (f : Arc α → Arc α) (heap : List (Arc α)) (refs : List ℕ) (i : ℕ) :
    (modifyEach f heap refs)[i]? = heap[i]?.map f^[refs.count i] := by
  induction refs generalizing heap with
  | nil => simp [modifyEach]
  | cons j refs ih =>
    rw [modifyEach, List.foldl_cons, ← modifyEach, ih, List.getElem?_modify]
    by_cases hji : j = i
    · subst hji
      simp [Function.iterate_succ]
    · simp [hji]

theorem map_value_modify {f : Arc α → Arc α} (h : ∀ a, heap[i]? = some a → (f a).value = a.value) :
    (heap.modify i f).map value = heap.map value := by
  ext1 j
  rw [List.getElem?_map, List.getElem?_map, List.getElem?_modify]
  cases hget : heap[j]? with
  | none => rfl
  | some a =>
    by_cases hij : i = j
    · subst hij
      simp [h a hget]
    · simp [hij]

theorem map_value_update (f : α → α) (heap : List (Arc α)) (i : ℕ) :
    (heap.modify i (update f)).map value = (heap.map value).modify i f := by
  ext1 j
  rw [List.getElem?_map, List.getElem?_modify, List.getElem?_modify, List.getElem?_map]
  cases heap[j]? with
  | none => rfl
  | some a => by_cases hij : i = j <;> simp [hij, update]

theorem iterate_clone (n : ℕ) (a : Arc α) : clone^[n] a = { a with strong := a.strong + n } := by
  induction n generalizing a with
  | zero => rfl
  | succ n ih =>
    rw [Function.iterate_succ_apply, ih, clone, Nat.add_right_comm]
    rfl

theorem iterate_release_of_lt {n : ℕ} (h : n < a.strong) :
    (release drop)^[n] a = { a with strong := a.strong - n } := by
  induction n with
  | zero => rfl
  | succ n ih =>
    rw [Function.iterate_succ_apply', ih (by omega), release, if_neg (by simp only; omega)]
    simp only [Nat.sub_sub]

theorem iterate_release_strong (h : 0 < a.strong) :
    (release drop)^[a.strong] a = ⟨0, drop a.value⟩ := by
  obtain ⟨n, hn⟩ := Nat.exists_eq_add_one.mpr h
  rw [hn, Function.iterate_succ_apply', iterate_release_of_lt (by omega), release,
    if_pos (by simp only; omega)]
  simp only [hn, Nat.add_sub_cancel_left]

theorem release_clone_each (drop : α → α) (refs : List ℕ) (h : ∀ a ∈ heap, 0 < a.strong) :
    modifyEach (release drop) (modifyEach clone heap refs) refs = heap := by
  ext1 i
  rw [get_modifyEach, get_modifyEach]
  cases hget : heap[i]? with
  | none => rfl
  | some a =>
    have hpos := h a (List.mem_of_getElem? hget)
    simp only [Option.map_some, iterate_clone]
    rw [iterate_release_of_lt (by simp only; omega), Nat.add_sub_cancel]

end Arc
