import DumbDistributedLog.Library.Separators
import Mathlib.Algebra.Field.Rat
import Mathlib.Data.List.Induction
import Mathlib.Tactic.Ring

/-! # Decimal numerals

Numbers are written in decimal digits, perhaps with zeros in front, and a fraction is written as
its whole part, a point and the digits after it. A minus sign stands for the whole of a number.
-/

namespace Decimals

open Separators

def value (digits : List Char) : ℕ := digits.foldl (fun n c => 10 * n + (c.toNat - 48)) 0

/-- The digits of a number with zeros in front of them up to a width. -/
def padded (width n : ℕ) : List Char := n.repr.toList.leftpad width '0'

def number? (s : List Char) : Option ℕ :=
  if s ≠ [] ∧ s.all Char.isDigit then some (value s) else none

/-- A number with digits before and after a point. -/
def unsigned? (s : List Char) : Option ℚ :=
  (splitFirst '.' s).bind fun parts => (number? parts.1).bind fun whole =>
    (number? parts.2).map fun part : ℕ => (whole : ℚ) + part / 10 ^ parts.2.length

/-- The same with a minus sign in front of it or none. -/
def signed? (s : List Char) : Option ℚ :=
  if s.head? = some '-' then (unsigned? s.tail).map fun q => -q else unsigned? s

variable {s t : List Char} {n whole part : ℕ}

theorem value_append : value (s ++ t) = 10 ^ t.length * value s + value t := by
  induction t using List.reverseRecOn with
  | nil => simp [value]
  | append_singleton t c ih =>
    have hsnoc : ∀ l : List Char, value (l ++ [c]) = 10 * value l + (c.toNat - 48) := by
      intro l
      simp [value]
    rw [← List.append_assoc, hsnoc, ih, hsnoc, List.length_append, List.length_singleton]
    ring

theorem value_repr (n : ℕ) : value n.repr.toList = n := by
  have hdigit : ∀ d < 10, value [Nat.digitChar d] = d := by decide
  rw [Nat.repr_eq_ofList_toDigits, String.toList_ofList]
  induction n using Nat.strongRecOn with
  | ind n ih =>
    by_cases hn : n < 10
    · rw [Nat.toDigits_of_lt_base hn, hdigit n hn]
    · rw [Nat.toDigits_of_base_le (by decide) (Nat.le_of_not_lt hn), value_append,
        ih (n / 10) (by omega), hdigit (n % 10) (Nat.mod_lt n (by decide)), List.length_singleton]
      omega

theorem value_replicate_zero (k : ℕ) : value (List.replicate k '0') = 0 := by
  induction k with
  | zero => rfl
  | succ k ih =>
    rw [List.replicate_succ', value_append, ih]
    rfl

theorem isDigit_of_mem_repr {c : Char} (h : c ∈ n.repr.toList) : c.isDigit = true := by
  rw [Nat.repr_eq_ofList_toDigits, String.toList_ofList] at h
  exact Nat.isDigit_of_mem_toDigits (by decide) (by decide) h

theorem repr_ne_nil : n.repr.toList ≠ [] := by
  rw [Nat.repr_eq_ofList_toDigits, String.toList_ofList]
  exact Nat.toDigits_ne_nil

theorem isDigit_of_mem_padded {width : ℕ} {c : Char} (h : c ∈ padded width n) :
    c.isDigit = true := by
  rcases List.mem_append.mp h with hzero | hdigit
  · rw [List.eq_of_mem_replicate hzero]
    rfl
  · exact isDigit_of_mem_repr hdigit

theorem value_padded {width : ℕ} : value (padded width n) = n := by
  rw [padded, List.leftpad, value_append, value_replicate_zero, value_repr, Nat.mul_zero,
    Nat.zero_add]

theorem number?_of_digits (hne : s ≠ []) (h : ∀ c ∈ s, c.isDigit = true) :
    number? s = some (value s) :=
  if_pos ⟨hne, List.all_eq_true.mpr h⟩

theorem number?_repr (n : ℕ) : number? n.repr.toList = some n := by
  rw [number?_of_digits repr_ne_nil fun c hc => isDigit_of_mem_repr hc, value_repr]

theorem number?_padded (width n : ℕ) : number? (padded width n) = some n := by
  have hne : padded width n ≠ [] := List.append_ne_nil_of_right_ne_nil _ repr_ne_nil
  rw [number?_of_digits hne fun c hc => isDigit_of_mem_padded hc, value_padded]

theorem not_mem_of_digits {c : Char} (h : ∀ d ∈ s, d.isDigit = true) (hc : c.isDigit = false) :
    c ∉ s := by
  intro hmem
  rw [h c hmem] at hc
  cases hc

theorem unsigned?_join (width whole part : ℕ) :
    unsigned? (whole.repr.toList ++ '.' :: padded width part) =
      some ((whole : ℚ) + part / 10 ^ (padded width part).length) := by
  have hpoint : '.' ∉ whole.repr.toList :=
    not_mem_of_digits (fun c hc => isDigit_of_mem_repr hc) (by decide)
  rw [unsigned?, splitFirst_append hpoint]
  simp only [Option.bind_some, number?_repr, number?_padded, Option.map_some]

theorem signed?_neg : signed? ('-' :: s) = (unsigned? s).map fun q => -q := rfl

theorem signed?_digits (hne : s ≠ []) (h : ∀ c ∈ s, c.isDigit = true) :
    signed? (s ++ t) = unsigned? (s ++ t) := by
  cases s with
  | nil => exact absurd rfl hne
  | cons c s =>
    refine if_neg fun hhead => ?_
    obtain rfl : c = '-' := Option.some.inj hhead
    exact absurd (h '-' List.mem_cons_self) (by decide)

end Decimals
