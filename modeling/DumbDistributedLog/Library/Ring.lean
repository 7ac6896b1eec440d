import Mathlib.Tactic.Common

/-! # Ring buffers

A log only grows, and its entries before an acknowledged position may be given up. A
buffer of `n` slots, of which each position uses the one of its residue, holds the last
`n` entries. A log that stays within a window of `n` after the acknowledged position is
therefore held where it matters.
-/

/-- A log with the position up to which it has been acknowledged. -/
structure Retained (α : Type*) where
  log : List α
  acked : ℕ

namespace Retained

variable {α : Type*} {n : ℕ} {w : Retained α}

def push (w : Retained α) (a : α) : Retained α := { w with log := w.log ++ [a] }

/-- Acknowledging never goes back. -/
def ack (w : Retained α) (i : ℕ) : Retained α := { w with acked := max w.acked i }

/-- Nothing is acknowledged before it is written, and at most `n` entries are not. -/
structure Within (n : ℕ) (w : Retained α) : Prop where
  acked_le : w.acked ≤ w.log.length
  length_le : w.log.length ≤ w.acked + n

theorem Within.push (h : w.Within n) (a : α) (hroom : w.log.length < w.acked + n) :
    (w.push a).Within n := by
  obtain ⟨hacked, -⟩ := h
  constructor
  · simp only [Retained.push, List.length_append, List.length_singleton]
    omega
  · simp only [Retained.push, List.length_append, List.length_singleton]
    omega

theorem Within.ack (h : w.Within n) {i : ℕ} (hi : i ≤ w.log.length) : (w.ack i).Within n := by
  obtain ⟨hacked, hlength⟩ := h
  constructor
  · simp only [Retained.ack]
    omega
  · simp only [Retained.ack]
    omega

end Retained

namespace Ring

variable {α : Type*} {n i m : ℕ} {slots : List (Option α)} {log : List α} {a : α}

/-- The last `n` entries are in the slots of their positions. -/
def Holds (n : ℕ) (slots : List (Option α)) (log : List α) : Prop :=
  ∀ (i : ℕ) (a : α), log[i]? = some a → log.length ≤ i + n → slots[i % n]? = some (some a)

theorem getElem?_concat_eq_some {b : α} :
    (log ++ [a])[i]? = some b ↔ log[i]? = some b ∨ i = log.length ∧ a = b := by
  rcases Nat.lt_trichotomy i log.length with hlt | rfl | hgt
  · rw [List.getElem?_append_left hlt]
    simp [Nat.ne_of_lt hlt]
  · simp
  · rw [List.getElem?_eq_none (by simp; omega), List.getElem?_eq_none (by omega)]
    simp [Nat.ne_of_gt hgt]

theorem holds_nil : Holds n slots [] := by
  intro i a h
  simp at h

theorem mod_ne_mod (hlt : i < m) (hm : m < i + n) : i % n ≠ m % n := by
  intro heq
  have hdvd : n ∣ m - i := Nat.dvd_of_mod_eq_zero (Nat.sub_mod_eq_zero_of_mod_eq heq.symm)
  have hle := Nat.le_of_dvd (by omega) hdvd
  omega

theorem exists_mod_eq (hn : 0 < n) (hm : i + n < m) :
    ∃ j, i < j ∧ j < m ∧ m ≤ j + n ∧ j % n = i % n := by
  have hdiv := Nat.div_add_mod (m - 1 - i) n
  have hmod := Nat.mod_lt (m - 1 - i) hn
  have hle : n ≤ n * ((m - 1 - i) / n) :=
    Nat.le_mul_of_pos_right n (Nat.div_pos (by omega) hn)
  refine ⟨i + n * ((m - 1 - i) / n), ?_, ?_, ?_, Nat.add_mul_mod_self_left _ _ _⟩
  · omega
  · omega
  · omega

theorem Holds.push (h : Holds n slots log) (hn : log.length % n < slots.length) (a : α) :
    Holds n (slots.set (log.length % n) (some a)) (log ++ [a]) := by
  intro i b hb hi
  rw [List.length_append, List.length_singleton] at hi
  rcases getElem?_concat_eq_some.mp hb with hold | ⟨rfl, rfl⟩
  · obtain ⟨hlt, -⟩ := List.getElem?_eq_some_iff.mp hold
    rw [List.getElem?_set_ne (mod_ne_mod hlt (by omega)).symm]
    exact h i b hold (by omega)
  · rw [List.getElem?_set_self hn]

end Ring
