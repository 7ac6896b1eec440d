import DumbDistributedLog.Storage.LogReader

/-! # Reading a range of the log

The bounds of a range are turned into a first index and an end, by adding one where a bound
is on the other side of its index. The map panics if the first index is beyond the end, and
an open end is taken from the log, so that a range that lies behind the log is inverted too.
All other ranges are read exactly.
-/

namespace DumbDistributedLog

open AutoqueuesRaftStorage Runs

namespace Bound

def Below (i : UInt64) : Bound → Prop
  | .included a => a ≤ i
  | .excluded a => a < i
  | .unbounded => True

def Above (i : UInt64) : Bound → Prop
  | .included b => i ≤ b
  | .excluded b => i < b
  | .unbounded => True

def first : Bound → ℕ
  | .included a => a.toNat
  | .excluded a => a.toNat + 1
  | .unbounded => 0

end Bound

namespace AutoqueuesRaftStorage

variable (s : AutoqueuesRaftStorage) (lo hi : Bound)

def incremented : List UInt64 :=
  (match lo with
    | .excluded i => [i]
    | .included _ | .unbounded => []) ++
  match hi with
    | .included i => [i]
    | .excluded _ => []
    | .unbounded => s.lastIndex.toList

def past : ℕ :=
  match hi with
  | .included b => b.toNat + 1
  | .excluded b => b.toNat
  | .unbounded => s.lastIndex.elim 0 fun k => k.toNat + 1

end AutoqueuesRaftStorage

/-- Nothing overflows, there is no panic, and the result is the entries of the range in the
order of their indices. -/
structure ReadsRange (s : AutoqueuesRaftStorage) (lo hi : Bound) : Prop where
  fits : ∀ w ∈ s.incremented lo hi, w.toNat + 1 < 2 ^ 64
  result : ∃ entries, s.tryGetLogEntries lo hi = some entries ∧
    entries.Pairwise (fun a b => a.logId.index < b.logId.index) ∧
    ∀ e, e ∈ entries ↔
      s.log[e.logId.index]? = some e ∧ lo.Below e.logId.index ∧ hi.Above e.logId.index

/-- The range begins at most one after its last index or, for an open end, after some entry. -/
def NotInverted (s : AutoqueuesRaftStorage) (lo : Bound) : Bound → Prop
  | .included b => lo.first ≤ b.toNat + 1
  | .excluded b => lo.first ≤ b.toNat
  | .unbounded => lo.first = 0 ∨ ∃ i ∈ s.log.keys, lo.first ≤ i.toNat + 1

/-- No bound that is added to and, for an open end, no entry is at the greatest word, and the
range is not inverted. -/
structure Regular (s : AutoqueuesRaftStorage) (lo hi : Bound) : Prop where
  lower : lo ≠ .excluded U64.maxValue
  upper : hi ≠ .included U64.maxValue
  last : hi = .unbounded → s.log[U64.maxValue]? = none
  ordered : NotInverted s lo hi

variable {s : AutoqueuesRaftStorage} {lo hi : Bound}

theorem lastIndex_eq_some {k : UInt64} (h : s.lastIndex = some k) :
    k ∈ s.log.keys ∧ ∀ i ∈ s.log.keys, i ≤ k := by
  refine ⟨List.mem_of_getLast? h, fun i hi => ?_⟩
  obtain ⟨e, he⟩ := (Table.mem_keys_iff _).mp hi
  rcases Table.eq_or_lt_of_keys_getLast? _ h he with rfl | hlt
  · exact le_rfl
  · exact (compare_lt_iff_lt.mp hlt).le

theorem lastIndex_eq_none (h : s.lastIndex = none) (i : UInt64) : i ∉ s.log.keys := by
  intro hi
  obtain ⟨e, he⟩ := (Table.mem_keys_iff _).mp hi
  rw [(Table.keys_getLast?_eq_none _).mp h] at he
  cases he

theorem lastIndex_ne_maxValue_iff :
    (∀ k ∈ s.lastIndex, k ≠ U64.maxValue) ↔ s.log[U64.maxValue]? = none := by
  have hmax : ∀ i : UInt64, i ≤ U64.maxValue := by
    intro i
    rw [UInt64.le_iff_toNat_le]
    exact Nat.le_of_lt_succ i.toNat_lt
  cases hk : s.lastIndex with
  | none => simp [(Table.keys_getLast?_eq_none _).mp hk]
  | some k =>
    obtain ⟨hmem, hle⟩ := lastIndex_eq_some hk
    constructor
    · intro hne
      rw [Option.eq_none_iff_forall_ne_some]
      intro e he
      have hge := hle _ ((Table.mem_keys_iff _).mpr ⟨e, he⟩)
      exact hne k rfl (le_antisymm (hmax k) hge)
    · rintro hnone _ ⟨⟩ rfl
      obtain ⟨e, he⟩ := (Table.mem_keys_iff _).mp hmem
      rw [hnone] at he
      cases he

theorem fits_iff : (∀ w ∈ s.incremented lo hi, w.toNat + 1 < 2 ^ 64) ↔
    lo ≠ .excluded U64.maxValue ∧ hi ≠ .included U64.maxValue ∧
      (hi = .unbounded → s.log[U64.maxValue]? = none) := by
  rw [← lastIndex_ne_maxValue_iff]
  simp only [U64.toNat_add_one_lt_iff]
  cases lo <;> cases hi <;> simp [incremented]

theorem toNat_rangeStart (h : lo ≠ .excluded U64.maxValue) : (rangeStart lo).toNat = lo.first := by
  cases lo with
  | included a => rfl
  | excluded a => exact U64.toNat_add_one fun heq => h (congrArg _ heq)
  | unbounded => rfl

theorem toNat_rangeEnd (h : hi ≠ .included U64.maxValue)
    (hlast : hi = .unbounded → s.log[U64.maxValue]? = none) :
    (s.rangeEnd hi).toNat = s.past hi := by
  cases hi with
  | included b => exact U64.toNat_add_one fun heq => h (congrArg _ heq)
  | excluded b => rfl
  | unbounded =>
    have hne := lastIndex_ne_maxValue_iff.mpr (hlast rfl)
    unfold rangeEnd past
    cases hk : s.lastIndex with
    | none => rfl
    | some k => exact U64.toNat_add_one (hne k hk)

theorem first_le_past_iff : lo.first ≤ s.past hi ↔ NotInverted s lo hi := by
  cases hi with
  | included b | excluded b => rfl
  | unbounded =>
    unfold past NotInverted
    cases hk : s.lastIndex with
    | none => simp [lastIndex_eq_none hk]
    | some k =>
      obtain ⟨hmem, hle⟩ := lastIndex_eq_some hk
      constructor
      · intro h
        exact .inr ⟨k, hmem, h⟩
      · rintro (hzero | ⟨i, hi, h⟩)
        · rw [hzero]
          exact Nat.zero_le _
        · have := UInt64.le_iff_toNat_le.mp (hle i hi)
          simp only [Option.elim_some]
          omega

theorem below_iff {i : UInt64} : lo.Below i ↔ lo.first ≤ i.toNat := by
  cases lo with
  | included a => exact UInt64.le_iff_toNat_le
  | excluded a => exact UInt64.lt_iff_toNat_lt
  | unbounded => exact iff_of_true trivial (Nat.zero_le _)

theorem above_iff {i : UInt64} (hi' : i ∈ s.log.keys) : hi.Above i ↔ i.toNat < s.past hi := by
  cases hi with
  | included b => exact UInt64.le_iff_toNat_le.trans Nat.lt_succ_iff.symm
  | excluded b => exact UInt64.lt_iff_toNat_lt
  | unbounded =>
    refine iff_of_true trivial ?_
    unfold past
    cases hk : s.lastIndex with
    | none => exact absurd hi' (lastIndex_eq_none hk i)
    | some k => exact Nat.lt_succ_of_le (UInt64.le_iff_toNat_le.mp ((lastIndex_eq_some hk).2 i hi'))

theorem mem_filter_log (h : LogKeyed s) {p : UInt64 → Prop} [DecidablePred p] (e : Entry) :
    e ∈ (s.log.toList.filter fun q => p q.1).map Prod.snd ↔
      s.log[e.logId.index]? = some e ∧ p e.logId.index := by
  simp only [List.mem_map, List.mem_filter, Prod.exists, exists_eq_right,
    Std.ExtTreeMap.mem_toList_iff_getElem?_eq_some, decide_eq_true_eq]
  constructor
  · rintro ⟨i, he, hp⟩
    rw [h i e he]
    exact ⟨he, hp⟩
  · rintro ⟨he, hp⟩
    exact ⟨_, he, hp⟩

theorem pairwise_filter_log (h : LogKeyed s) (p : UInt64 × Entry → Bool) :
    ((s.log.toList.filter p).map Prod.snd).Pairwise
      fun a b => a.logId.index < b.logId.index := by
  rw [List.pairwise_map]
  have hord : s.log.toList.Pairwise fun a b => compare a.1 b.1 = .lt :=
    Std.ExtTreeMap.ordered_keys_toList
  refine (hord.filter p).imp_of_mem fun {a b} ha hb hlt => ?_
  have hkey : ∀ q ∈ s.log.toList.filter p, q.2.logId.index = q.1 := fun q hq =>
    h q.1 q.2 (Std.ExtTreeMap.mem_toList_iff_getElem?_eq_some.mp (List.mem_filter.mp hq).1)
  rw [hkey a ha, hkey b hb]
  exact compare_lt_iff_lt.mp hlt

theorem readsRange_of_le (h : LogKeyed s) (hfits : ∀ w ∈ s.incremented lo hi, w.toNat + 1 < 2 ^ 64)
    (hle : lo.first ≤ s.past hi) : ReadsRange s lo hi := by
  obtain ⟨hlower, hupper, hlast⟩ := fits_iff.mp hfits
  have hstart := toNat_rangeStart hlower
  have hend := toNat_rangeEnd hupper hlast
  have hordered : rangeStart lo ≤ s.rangeEnd hi := by
    rw [UInt64.le_iff_toNat_le, hstart, hend]
    exact hle
  have hread : s.tryGetLogEntries lo hi = some ((s.log.toList.filter fun q =>
      rangeStart lo ≤ q.1 ∧ q.1 < s.rangeEnd hi).map Prod.snd) := if_pos hordered
  refine ⟨hfits, _, hread, pairwise_filter_log h _, fun e => ?_⟩
  rw [mem_filter_log h (p := fun i => rangeStart lo ≤ i ∧ i < s.rangeEnd hi)]
  refine and_congr_right fun he => ?_
  have hmem : e.logId.index ∈ s.log.keys := (Table.mem_keys_iff _).mpr ⟨e, he⟩
  rw [below_iff, above_iff hmem, UInt64.le_iff_toNat_le, UInt64.lt_iff_toNat_lt, hstart, hend]

theorem readsRange_iff (h : LogKeyed s) : ReadsRange s lo hi ↔ Regular s lo hi := by
  constructor
  · rintro ⟨hfits, entries, hread, -⟩
    obtain ⟨hlower, hupper, hlast⟩ := fits_iff.mp hfits
    refine ⟨hlower, hupper, hlast, first_le_past_iff.mp ?_⟩
    rw [← toNat_rangeStart hlower, ← toNat_rangeEnd hupper hlast, ← UInt64.le_iff_toNat_le]
    by_contra hgt
    rw [tryGetLogEntries, if_neg hgt] at hread
    cases hread
  · intro hregular
    exact readsRange_of_le h (fits_iff.mpr ⟨hregular.lower, hregular.upper, hregular.last⟩)
      (first_le_past_iff.mpr hregular.ordered)

/-- In every log that is reached, exactly the regular ranges are read as they should be. -/
theorem range_read_iff (s : AutoqueuesRaftStorage) (hs : Created s) (ops : List LogOp)
    (lo hi : Bound) :
    ReadsRange (exec runLog s ops) lo hi ↔ Regular (exec runLog s ops) lo hi :=
  readsRange_iff (exec_inv (fun _ op h => h.runLog op) hs.logKeyed)

/-- A range with both ends in the log, and one that is open to the end and begins at its end. -/
theorem range_read_in_log :
    let entry (i : UInt64) : Entry := ⟨⟨⟨1, 1⟩, i⟩, .blank⟩
    let s := exec runLog .new
      [.appendToLog [entry 0, entry 1, entry 2] (.ok ()), .purgeLogsUpto ⟨⟨1, 1⟩, 0⟩ (.ok ())]
    ReadsRange s (.included 1) (.excluded 2) ∧ ReadsRange s (.excluded 2) .unbounded := by
  intro entry s
  constructor
  · exact (range_read_iff _ .new _ _ _).mpr
      ⟨by simp, by simp, by simp, by simp [NotInverted, Bound.first]⟩
  · refine (range_read_iff _ .new _ _ _).mpr ⟨by decide, by simp, fun _ => by decide +kernel, ?_⟩
    exact .inr ⟨2, by decide +kernel, by decide⟩

/-- An inverted range panics, and so does a range that is open to the end and begins behind
the log. A bound at the greatest word reads the wrong side of the log once it has wrapped
around. -/
theorem inverted_ranges_panic :
    let entry (i : UInt64) : Entry := ⟨⟨⟨1, 1⟩, i⟩, .blank⟩
    let s := exec runLog .new [.appendToLog [entry 0] (.ok ())]
    (s.tryGetLogEntries (.included 5) (.excluded 3) = none ∧
      ¬ ReadsRange s (.included 5) (.excluded 3)) ∧
    (s.tryGetLogEntries (.included 2) .unbounded = none ∧
      ¬ ReadsRange s (.included 2) .unbounded) ∧
    s.tryGetLogEntries (.excluded U64.maxValue) (.excluded 1) = some [entry 0] ∧
      ¬ ReadsRange s (.excluded U64.maxValue) (.excluded 1) := by
  intro entry s
  have hnone : ∀ {lo hi}, s.tryGetLogEntries lo hi = none → ¬ ReadsRange s lo hi := by
    rintro lo hi hread ⟨-, entries, hsome, -⟩
    rw [hread] at hsome
    cases hsome
  have hinverted : s.tryGetLogEntries (.included 5) (.excluded 3) = none := by decide +kernel
  have hbehind : s.tryGetLogEntries (.included 2) .unbounded = none := by decide +kernel
  refine ⟨⟨hinverted, hnone hinverted⟩, ⟨hbehind, hnone hbehind⟩, by decide +kernel, ?_⟩
  rintro ⟨hfits, -⟩
  exact absurd (hfits U64.maxValue (by simp [incremented])) (by decide)

end DumbDistributedLog
