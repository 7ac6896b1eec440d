import DumbDistributedLog.Library.Decimals
import Mathlib.Data.Rat.Floor
import Mathlib.Tactic.Linarith
import Mathlib.Tactic.NormNum

/-! # Persisted lines

A value is written as its whole part, a point and three digits of its fraction. The sign is written
with the whole part only, so it is lost where the whole part is zero: a negative value above minus
one is read back as its opposite.
-/

namespace DumbDistributedLog.Persistence

open Decimals Separators

/-- The arithmetic of `f64` on finite values. Numbers with a mantissa of 53 bits are not rounded. -/
structure F64 where
  round : ℚ → ℚ
  exact : ∀ m e : ℤ, |m| < 2 ^ 53 → -1074 ≤ e → e ≤ 971 → round (m * 2 ^ e) = m * 2 ^ e
  display : ℚ → String

def F64.ideal : F64 where
  round q := q
  exact _ _ _ _ _ := rfl
  display q := toString q

def trunc (q : ℚ) : ℤ := if 0 ≤ q then ⌊q⌋ else ⌈q⌉

/-- Conversions to integers keep to the range of these. -/
def asI64 (q : ℚ) : ℤ := max (-2 ^ 63) (min (trunc q) (2 ^ 63 - 1))

def asU64 (q : ℚ) : ℕ := (max 0 (min (trunc q) (2 ^ 64 - 1))).toNat

def F64.fract (f : F64) (q : ℚ) : ℚ := f.round (q - trunc q)

def linePieces (f : F64) (includeTimestamp : Bool) (timestamp : UInt64) (value : ℚ) :
    List String :=
  if includeTimestamp then
    [timestamp.toNat.repr, ",", (asI64 value).repr, ".",
      String.ofList (padded 3 (asU64 |f.round (f.fract value * 1000)|))]
  else [f.display value]

def line (f : F64) (includeTimestamp : Bool) (timestamp : UInt64) (value : ℚ) : String :=
  String.join (linePieces f includeTimestamp timestamp value)

/-- A line is read as a timestamp, a comma and a signed decimal number. -/
def parseLine (s : String) : Option (ℕ × ℚ) :=
  (splitFirst ',' s.toList).bind fun parts => (number? parts.1).bind fun timestamp =>
    (signed? parts.2).map fun value => (timestamp, value)

variable {f : F64} {timestamp timestamp' : UInt64} {n m sign : ℤ} {k : ℕ}

theorem trunc_neg (q : ℚ) : trunc (-q) = -trunc q := by
  rcases lt_trichotomy q 0 with hq | rfl | hq
  · rw [trunc, trunc, if_pos (by linarith), if_neg (by linarith), Int.floor_neg]
  · simp [trunc]
  · rw [trunc, trunc, if_neg (by linarith), if_pos (by linarith), Int.ceil_neg]

section Eighths

-- Eighths are followed by their sign and their absolute value.
variable (hsign : sign = 1 ∨ sign = -1)

include hsign

theorem abs_signed (j : ℕ) : |sign * (j : ℤ)| = j := by
  rcases hsign with rfl | rfl <;> simp

theorem trunc_eighths (k : ℕ) : trunc ((sign * k : ℤ) / 8) = sign * (k / 8 : ℕ) := by
  have htrunc : trunc ((k : ℚ) / 8) = (k / 8 : ℕ) := by
    have hnonneg : (0 : ℚ) ≤ (k : ℚ) / 8 := by positivity
    have hfloor : ⌊((k : ℤ) : ℚ) / (8 : ℕ)⌋ = (k : ℤ) / (8 : ℕ) :=
      Rat.floor_intCast_div_natCast k 8
    rw [trunc, if_pos hnonneg]
    simpa only [Int.cast_natCast, Nat.cast_ofNat, Int.natCast_div] using hfloor
  rcases hsign with rfl | rfl
  · rw [one_mul, one_mul, Int.cast_natCast, htrunc]
  · rw [neg_one_mul, neg_one_mul, Int.cast_neg, Int.cast_natCast, neg_div, trunc_neg, htrunc]

/-- Nothing is rounded on the way to the thousandths of the fraction. -/
theorem round_fract_eighths (f : F64) (k : ℕ) :
    f.round (f.fract ((sign * k : ℤ) / 8) * 1000) = (sign * (125 * (k % 8) : ℕ) : ℤ) := by
  have hk : (k : ℚ) = 8 * (k / 8 : ℕ) + (k % 8 : ℕ) := by exact_mod_cast (Nat.div_add_mod k 8).symm
  have hfract : f.fract ((sign * k : ℤ) / 8) = (sign * (k % 8 : ℕ) : ℤ) * 2 ^ (-3 : ℤ) := by
    have hdiff : ((sign * k : ℤ) : ℚ) / 8 - (sign * (k / 8 : ℕ) : ℤ) =
        (sign * (k % 8 : ℕ) : ℤ) * 2 ^ (-3 : ℤ) := by
      rw [zpow_neg, Int.cast_mul, Int.cast_mul, Int.cast_mul, Int.cast_natCast, Int.cast_natCast,
        Int.cast_natCast, hk]
      ring
    rw [F64.fract, trunc_eighths hsign, hdiff]
    exact f.exact _ (-3) (by rw [abs_signed hsign]; omega) (by decide) (by decide)
  have hprod : ((sign * (k % 8 : ℕ) : ℤ) : ℚ) * 2 ^ (-3 : ℤ) * 1000 =
      (sign * (125 * (k % 8) : ℕ) : ℤ) * 2 ^ (0 : ℤ) := by
    rw [zpow_neg, zpow_zero]
    push_cast
    ring
  rw [hfract, hprod, f.exact _ 0 (by rw [abs_signed hsign]; omega) (by decide) (by decide),
    zpow_zero, mul_one]

theorem asU64_fract_eighths (f : F64) (k : ℕ) :
    asU64 |f.round (f.fract ((sign * k : ℤ) / 8) * 1000)| = 125 * (k % 8) := by
  have htrunc : trunc ((125 * (k % 8) : ℕ) : ℚ) = (125 * (k % 8) : ℕ) := by
    rw [trunc, if_pos (Nat.cast_nonneg _), Int.floor_natCast]
  rw [round_fract_eighths hsign, ← Int.cast_abs, abs_signed hsign, Int.cast_natCast, asU64, htrunc]
  omega

theorem asI64_eighths (hk : k < 2 ^ 50) : asI64 ((sign * k : ℤ) / 8) = sign * (k / 8 : ℕ) := by
  rw [asI64, trunc_eighths hsign]
  rcases hsign with rfl | rfl <;> omega

theorem repr_signed (j : ℕ) : (sign * j : ℤ).repr.toList =
    (if sign * j < 0 then ['-'] else []) ++ j.repr.toList := by
  rcases hsign with rfl | rfl
  · rw [one_mul, if_neg (by omega), List.nil_append]
    rfl
  · cases j with
    | zero => rfl
    | succ j =>
      rw [neg_one_mul, if_pos (by omega)]
      exact String.toList_append

end Eighths

theorem exists_sign (n : ℤ) : ∃ sign : ℤ, (sign = 1 ∨ sign = -1) ∧ n = sign * n.natAbs := by
  rcases le_total 0 n with hn | hn
  · exact ⟨1, .inl rfl, by omega⟩
  · exact ⟨-1, .inr rfl, by omega⟩

/-- The text of a line. There is a sign in front of the whole part unless this is zero. -/
theorem toList_line (f : F64) (timestamp : UInt64) (hn : n.natAbs < 2 ^ 50) :
    (line f true timestamp (n / 8)).toList =
      timestamp.toNat.repr.toList ++ ',' :: ((if n ≤ -8 then ['-'] else []) ++
        ((n.natAbs / 8).repr.toList ++ '.' :: padded 3 (125 * (n.natAbs % 8)))) := by
  obtain ⟨sign, hsign, heq⟩ := exists_sign n
  have hnegative : sign * (n.natAbs / 8 : ℕ) < 0 ↔ n ≤ -8 := by
    rcases hsign with rfl | rfl <;> omega
  have hvalue : (n : ℚ) = (sign * n.natAbs : ℤ) := by rw [← heq]
  rw [line, linePieces, if_pos rfl, hvalue, asI64_eighths hsign hn, asU64_fract_eighths hsign]
  simp [String.join, repr_signed hsign, hnegative, -Int.natCast_ediv, -Nat.cast_ofNat]

def readBack (n : ℤ) : ℤ := if n ≤ -8 then n else n.natAbs

theorem parseLine_line (f : F64) (timestamp : UInt64) (hn : n.natAbs < 2 ^ 50) :
    parseLine (line f true timestamp (n / 8)) = some (timestamp.toNat, (readBack n : ℚ) / 8) := by
  have hcomma : ',' ∉ timestamp.toNat.repr.toList :=
    not_mem_of_digits (fun c hc => isDigit_of_mem_repr hc) (by decide)
  have hlength : ∀ j < 8, (padded 3 (125 * j)).length = 3 := by decide
  have hunsigned : unsigned? ((n.natAbs / 8).repr.toList ++
      '.' :: padded 3 (125 * (n.natAbs % 8))) = some ((n.natAbs : ℚ) / 8) := by
    have hdiv : (n.natAbs : ℚ) = 8 * (n.natAbs / 8 : ℕ) + (n.natAbs % 8 : ℕ) := by
      exact_mod_cast (Nat.div_add_mod n.natAbs 8).symm
    rw [unsigned?_join, hlength _ (Nat.mod_lt _ (by decide)), hdiv]
    push_cast
    ring_nf
  have hsigned : signed? ((if n ≤ -8 then ['-'] else []) ++
      ((n.natAbs / 8).repr.toList ++ '.' :: padded 3 (125 * (n.natAbs % 8)))) =
      some ((readBack n : ℚ) / 8) := by
    by_cases hneg : n ≤ -8
    · have habs : (n.natAbs : ℚ) = -n := by
        rw [Nat.cast_natAbs, abs_of_neg (by omega), Int.cast_neg]
      rw [if_pos hneg, List.singleton_append, signed?_neg, hunsigned, readBack, if_pos hneg, habs]
      simp [neg_div]
    · rw [if_neg hneg, List.nil_append,
        signed?_digits repr_ne_nil fun c hc => isDigit_of_mem_repr hc, hunsigned, readBack,
        if_neg hneg, Int.cast_natCast]
  rw [parseLine, toList_line f timestamp hn, splitFirst_append hcomma]
  simp only [Option.bind_some, number?_repr, hsigned, Option.map_some]

theorem line_eq_iff (hm : m.natAbs < 2 ^ 50) (hn : n.natAbs < 2 ^ 50) :
    line f true timestamp' (m / 8) = line f true timestamp (n / 8) ↔
      timestamp' = timestamp ∧ readBack m = readBack n := by
  constructor
  · intro hline
    have hparse := congrArg parseLine hline
    rw [parseLine_line f timestamp' hm, parseLine_line f timestamp hn, Option.some.injEq,
      Prod.mk.injEq, UInt64.toNat_inj] at hparse
    refine ⟨hparse.1, ?_⟩
    have hcast : (readBack m : ℚ) = readBack n := by linarith [hparse.2]
    exact_mod_cast hcast
  · rintro ⟨rfl, hread⟩
    have habs : m.natAbs = n.natAbs ∧ (m ≤ -8 ↔ n ≤ -8) := by
      unfold readBack at hread
      split_ifs at hread <;> omega
    rw [← String.toList_inj, toList_line f _ hm, toList_line f _ hn, habs.1]
    simp only [habs.2]

/-- A value is read back as it was persisted exactly if it is not negative or at most minus one, and
no other value has its line exactly if it is zero or at least one in absolute value. -/
theorem persisted_value_read_back (f : F64) (timestamp : UInt64) (n : ℤ) (hn : n.natAbs < 2 ^ 50) :
    (parseLine (line f true timestamp (n / 8)) = some (timestamp.toNat, (n : ℚ) / 8) ↔
      0 ≤ n ∨ n ≤ -8) ∧
    ((∀ (timestamp' : UInt64) (m : ℤ), m.natAbs < 2 ^ 50 →
        line f true timestamp' (m / 8) = line f true timestamp (n / 8) → m = n) ↔
      n = 0 ∨ 8 ≤ n.natAbs) := by
  constructor
  · rw [parseLine_line f timestamp hn, Option.some.injEq, Prod.mk.injEq]
    have hread : readBack n = n ↔ 0 ≤ n ∨ n ≤ -8 := by
      unfold readBack
      split_ifs <;> omega
    rw [← hread, div_left_inj' (by norm_num), Int.cast_inj]
    exact and_iff_right rfl
  · constructor
    · intro hunique
      by_contra hsmall
      have hopposite : readBack (-n) = readBack n := by
        unfold readBack
        split_ifs <;> omega
      have hneg : (-n).natAbs < 2 ^ 50 := by rwa [Int.natAbs_neg]
      have hsame := hunique timestamp (-n) hneg ((line_eq_iff hneg hn).mpr ⟨rfl, hopposite⟩)
      omega
    · intro hlarge timestamp' m hm hline
      have hread := ((line_eq_iff hm hn).mp hline).2
      unfold readBack at hread
      split_ifs at hread <;> omega

theorem persisted_value_read_back_negative : (-9 : ℤ).natAbs < 2 ^ 50 ∧
    parseLine (line .ideal true 5 ((-9 : ℤ) / 8)) = some (5, ((-9 : ℤ) : ℚ) / 8) :=
  ⟨by decide, (persisted_value_read_back .ideal 5 (-9) (by decide)).1.mpr (.inr (by decide))⟩

/-- Minus one half and one half have the same line. -/
theorem sign_of_fraction_lost :
    line .ideal true 5 ((-4 : ℤ) / 8) = "5,0.500" ∧ line .ideal true 5 ((4 : ℤ) / 8) = "5,0.500" ∧
    parseLine "5,0.500" = some (5, 1 / 2) := by
  decide +kernel

end DumbDistributedLog.Persistence
