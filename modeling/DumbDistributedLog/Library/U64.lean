import Mathlib.Algebra.Group.Nat.Defs
import Mathlib.Order.Lattice
import Mathlib.Tactic.Common

/-! # Unsigned 64-bit arithmetic

Words of 64 bits in their numerical order, with the saturating addition and
multiplication of the standard library of the source language. Plain addition
wraps around.
-/

instance U64.linearOrder : LinearOrder UInt64 where
  le_refl := UInt64.le_refl
  le_trans _ _ _ := UInt64.le_trans
  lt_iff_le_not_ge _ _ :=
    ⟨fun h => ⟨UInt64.le_of_lt h, UInt64.not_le.mpr h⟩, fun h => UInt64.not_le.mp h.2⟩
  le_antisymm _ _ := UInt64.le_antisymm
  le_total := UInt64.le_total
  toDecidableLE := inferInstance
  toDecidableLT := inferInstance
  toDecidableEq := inferInstance
  min_def _ _ := rfl
  max_def _ _ := rfl
  compare_eq_compareOfLessAndEq _ _ := rfl

namespace U64

def maxValue : UInt64 := 18446744073709551615

def saturatingAdd (a b : UInt64) : UInt64 :=
  if a.toNat + b.toNat < UInt64.size then a + b else maxValue

theorem toNat_saturatingAdd (a b : UInt64) :
    (saturatingAdd a b).toNat = min (a.toNat + b.toNat) maxValue.toNat := by
  have hmax : maxValue.toNat = UInt64.size - 1 := rfl
  unfold saturatingAdd
  split
  · rename_i h
    rw [UInt64.toNat_add, Nat.mod_eq_of_lt h]
    omega
  · omega

theorem le_saturatingAdd (a b : UInt64) : a ≤ saturatingAdd a b := by
  have hmax : maxValue.toNat = UInt64.size - 1 := rfl
  have ha := a.toNat_lt_size
  rw [UInt64.le_iff_toNat_le, toNat_saturatingAdd]
  omega

theorem one_le_saturatingAdd_one (a : UInt64) : 1 ≤ saturatingAdd a 1 := by
  have hmax : maxValue.toNat = 18446744073709551615 := rfl
  rw [UInt64.le_iff_toNat_le, toNat_saturatingAdd, UInt64.toNat_one]
  omega

theorem lt_saturatingAdd_one {a b : UInt64} (h : a < maxValue) :
    a < saturatingAdd b 1 ↔ a ≤ b := by
  rw [UInt64.lt_iff_toNat_lt] at h
  rw [UInt64.lt_iff_toNat_lt, toNat_saturatingAdd, UInt64.le_iff_toNat_le, UInt64.toNat_one]
  omega

def saturatingSub (a b : UInt64) : UInt64 := if b ≤ a then a - b else 0

theorem toNat_saturatingSub (a b : UInt64) : (saturatingSub a b).toNat = a.toNat - b.toNat := by
  unfold saturatingSub
  split
  · rename_i h
    exact UInt64.toNat_sub_of_le _ _ h
  · rename_i h
    rw [UInt64.le_iff_toNat_le] at h
    rw [UInt64.toNat_zero]
    omega

theorem saturatingSub_self (a : UInt64) : saturatingSub a a = 0 := by
  simp [saturatingSub]

theorem saturatingSub_le_saturatingSub_left {a b c : UInt64} (h : b ≤ c) :
    saturatingSub a c ≤ saturatingSub a b := by
  rw [UInt64.le_iff_toNat_le] at h
  rw [UInt64.le_iff_toNat_le, toNat_saturatingSub, toNat_saturatingSub]
  omega

theorem toNat_min (a b : UInt64) : (min a b).toNat = min a.toNat b.toNat := by
  rcases le_total a b with h | h
  · rw [min_eq_left h, Nat.min_eq_left (UInt64.le_iff_toNat_le.mp h)]
  · rw [min_eq_right h, Nat.min_eq_right (UInt64.le_iff_toNat_le.mp h)]

def saturatingMul (a b : UInt64) : UInt64 :=
  if a.toNat * b.toNat < UInt64.size then a * b else maxValue

theorem toNat_saturatingMul (a b : UInt64) :
    (saturatingMul a b).toNat = min (a.toNat * b.toNat) maxValue.toNat := by
  have hmax : maxValue.toNat = UInt64.size - 1 := rfl
  unfold saturatingMul
  split
  · rename_i h
    rw [UInt64.toNat_mul, Nat.mod_eq_of_lt h]
    omega
  · omega

theorem toNat_add_one_lt_iff {w : UInt64} : w.toNat + 1 < 2 ^ 64 ↔ w ≠ maxValue := by
  have hmax : maxValue.toNat = 18446744073709551615 := rfl
  have hw := w.toNat_lt
  rw [Ne, ← UInt64.toNat_inj, hmax]
  omega

theorem toNat_add_one {w : UInt64} (h : w ≠ maxValue) : (w + 1).toNat = w.toNat + 1 := by
  rw [UInt64.toNat_add, UInt64.toNat_one, Nat.mod_eq_of_lt (toNat_add_one_lt_iff.mpr h)]

/-- Decide a property of the word in an option by looking at that word. The instance
that runs through all words would not come to an end. -/
def decidableForallMem {P : UInt64 → Prop} [DecidablePred P] :
    ∀ o : Option UInt64, Decidable (∀ a ∈ o, P a)
  | none => .isTrue (by simp)
  | some a => decidable_of_iff (P a) (by simp)

end U64
