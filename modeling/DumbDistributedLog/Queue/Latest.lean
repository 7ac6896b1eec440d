import DumbDistributedLog.Queue.Spmc

/-! # The latest items of the queue

Both queries make a consumer of their own, which begins at the oldest item that has been kept. The
one for the latest item returns the first item that it reads, and the one for a number of items all
that it reads.
-/

namespace DumbDistributedLog.Spmc

variable {T : Type*} {N : ℕ}

namespace SPMCLockFreeQueue

variable (q : SPMCLockFreeQueue T N)

/-- There is no result if the thread panics. -/
def getLatest : Option (Option (UInt64 × T)) := q.consumer.pop.map Prod.snd

/-- The number of items that is asked for is not used. -/
def getLatestN (_n : UInt64) : Option (List T) :=
  q.consumer.drain.map fun drained => drained.2.map Prod.snd

structure ReturnsLatest (items : List (UInt64 × T)) (n : UInt64) : Prop where
  latest : q.getLatest = some items.getLast?
  latestN : q.getLatestN n =
    some ((items.drop (items.length - min n.toNat (min N items.length))).map Prod.snd)

end SPMCLockFreeQueue

def retained (N : ℕ) (items : List (UInt64 × T)) : List (UInt64 × T) :=
  items.drop (items.length - N)

def readable (N : ℕ) (items : List (UInt64 × T)) : ℕ := min (items.length % 2 ^ 64) N

/-- The oldest item that is left is like the last one, and so many items are asked for as a new
consumer reads. If the counter of the producer has come round so that these are not all, then the
first of those that are left have the values of the last. -/
structure OldestIsLatest (N : ℕ) (items : List (UInt64 × T)) (n : UInt64) : Prop where
  counter : items.length % 2 ^ 64 ≠ 0
  oldest : (retained N items).head? = items.getLast?
  count : min n.toNat (min N items.length) = readable N items
  values : ((retained N items).take (readable N items)).map Prod.snd =
    ((retained N items).drop ((retained N items).length - readable N items)).map Prod.snd

section Queries

variable {q : SPMCLockFreeQueue T N} {items : List (UInt64 × T)}

theorem length_retained : (retained N items).length = min N items.length := by
  rw [retained, List.length_drop]
  omega

theorem oldestIsLatest_iff (h : items.length < 2 ^ 64) (hitems : items ≠ []) (n : UInt64) :
    OldestIsLatest N items n ↔
      (retained N items).head? = items.getLast? ∧ min N items.length ≤ n.toNat := by
  have hpos := List.length_pos_iff.mpr hitems
  have hmod : items.length % 2 ^ 64 = items.length := Nat.mod_eq_of_lt h
  have hread : readable N items = min N items.length := by rw [readable, hmod, Nat.min_comm]
  constructor
  · rintro ⟨-, holdest, hcount, -⟩
    exact ⟨holdest, by omega⟩
  · rintro ⟨holdest, hn⟩
    refine ⟨by omega, holdest, by omega, ?_⟩
    rw [hread, ← length_retained, Nat.sub_self, List.take_length, List.drop_zero]

theorem drop_retained {count : ℕ} (hcount : count ≤ min N items.length) :
    (retained N items).drop ((retained N items).length - count) =
      items.drop (items.length - count) := by
  rw [length_retained, retained, List.drop_drop]
  congr 1
  omega

theorem map_take_eq_map_drop_iff {α β : Type*} {f : α → β} {as : List α} {a b : ℕ}
    (ha : a ≤ as.length) (hb : b ≤ as.length) :
    (as.take a).map f = (as.drop (as.length - b)).map f ↔
      b = a ∧ (as.take a).map f = (as.drop (as.length - a)).map f := by
  constructor
  · intro h
    have hlength := congrArg List.length h
    rw [List.length_map, List.length_map, List.length_take, List.length_drop] at hlength
    obtain rfl : b = a := by omega
    exact ⟨rfl, h⟩
  · rintro ⟨rfl, h⟩
    exact h

theorem tail_toNat (h : Keeps q items) : q.tail.toNat = items.length % 2 ^ 64 := by
  rw [h.tail, UInt64.toNat_ofNat']

theorem getLatest_eq (h : Keeps q items) (hread : Readable q) : q.getLatest =
    some (if items.length % 2 ^ 64 = 0 then none else (retained N items).head?) := by
  have htail := tail_toNat h
  obtain ⟨c, item, hpop, hcalled⟩ := pop_called (c := q.consumer) hread (Nat.zero_le _)
  have hhead : q.consumer.head.toNat = 0 := rfl
  have hwithin : c.head.toNat ≤ q.tail.toNat := hcalled.within
  have hreads : item.toList = q.reads 0 c.head.toNat := hcalled.items
  rw [SPMCLockFreeQueue.getLatest, hpop, Option.map_some, Option.some.injEq]
  have hlength := congrArg List.length hreads
  rw [hread.length_reads (by omega)] at hlength
  dsimp only
  cases item with
  | none =>
    have hend : 0 = q.tail.toNat := hcalled.exhausted trivial rfl
    rw [if_pos (by omega)]
  | some item =>
    obtain ⟨k, -, hN⟩ := hread.power
    have hone : c.head.toNat = 1 := hlength.symm
    rw [hone, reads_eq_take (hN ▸ Nat.one_le_two_pow), h.buffer, ← retained] at hreads
    rw [if_neg (by omega)]
    have hfirst := congrArg List.head? hreads
    rwa [List.head?_take, if_neg Nat.one_ne_zero] at hfirst

theorem getLatestN_eq (h : Keeps q items) (hread : Readable q) (n : UInt64) : q.getLatestN n =
    some (((retained N items).take (readable N items)).map Prod.snd) := by
  have htail := tail_toNat h
  have hlt := q.tail.toNat_lt
  have hcount : readable N items = min (min (q.tail.toNat - q.consumer.head.toNat) N)
      U64.maxValue.toNat := by
    have hmax : U64.maxValue.toNat = 2 ^ 64 - 1 := rfl
    have hhead : q.consumer.head.toNat = 0 := rfl
    rw [readable, hmax, hhead]
    omega
  rw [SPMCLockFreeQueue.getLatestN, SPMCConsumer.drain,
    popBatch_eq (c := q.consumer) hread (Nat.zero_le _) _ hcount, Option.map_some, retained,
    ← h.buffer, ← reads_eq_take (show readable N items ≤ N from Nat.min_le_right _ _)]
  rfl

end Queries

/-- The queries return the latest items exactly if the oldest item that is left is the latest. -/
theorem returnsLatest_iff {k : ℕ} (hk : k < 64) (items : List (UInt64 × T)) (hitems : items ≠ [])
    (htimes : ∀ item ∈ items, item.1 ≠ 0) (n : UInt64) :
    (SPMCLockFreeQueue.filled (2 ^ k) items).ReturnsLatest items n ↔
      OldestIsLatest (2 ^ k) items n := by
  have hkeeps := Keeps.filled (Nat.two_pow_pos k) items
  have hread := hkeeps.readable ⟨k, hk, rfl⟩ htimes
  generalize SPMCLockFreeQueue.filled (2 ^ k) items = q at hkeeps hread
  have hlatest : q.getLatest = some items.getLast? ↔ items.length % 2 ^ 64 ≠ 0 ∧
      (retained (2 ^ k) items).head? = items.getLast? := by
    rw [getLatest_eq hkeeps hread, Option.some.injEq]
    split_ifs with hzero
    · have hlast : none ≠ items.getLast? := by simpa [eq_comm] using hitems
      exact iff_of_false hlast fun h => h.1 hzero
    · exact (and_iff_right hzero).symm
  have hlatestN : q.getLatestN n = some ((items.drop (items.length -
        min n.toNat (min (2 ^ k) items.length))).map Prod.snd) ↔
      min n.toNat (min (2 ^ k) items.length) = readable (2 ^ k) items ∧
      ((retained (2 ^ k) items).take (readable (2 ^ k) items)).map Prod.snd =
        ((retained (2 ^ k) items).drop ((retained (2 ^ k) items).length -
          readable (2 ^ k) items)).map Prod.snd := by
    have hlength : (retained (2 ^ k) items).length = min (2 ^ k) items.length := length_retained
    have hread' : readable (2 ^ k) items ≤ (retained (2 ^ k) items).length := by
      have hmod := Nat.mod_le items.length (2 ^ 64)
      rw [hlength, readable]
      omega
    rw [getLatestN_eq hkeeps hread, Option.some.injEq, ← drop_retained (Nat.min_le_right _ _),
      map_take_eq_map_drop_iff hread' (hlength ▸ Nat.min_le_right _ _)]
  constructor
  · rintro ⟨h, hN⟩
    obtain ⟨hcounter, holdest⟩ := hlatest.mp h
    obtain ⟨hcount, hvalues⟩ := hlatestN.mp hN
    exact ⟨hcounter, holdest, hcount, hvalues⟩
  · rintro ⟨hcounter, holdest, hcount, hvalues⟩
    exact ⟨hlatest.mpr ⟨hcounter, holdest⟩, hlatestN.mpr ⟨hcount, hvalues⟩⟩

theorem returnsLatest_single :
    let items : List (UInt64 × ℕ) := [(10, 7)]
    (SPMCLockFreeQueue.filled (2 ^ 2) items).ReturnsLatest items 3 :=
  (returnsLatest_iff (by decide) [(10, 7)] (by decide) (by decide) 3).mpr
    ((oldestIsLatest_iff (by decide) (by decide) 3).mpr (by decide))

/-- Of two items the first is returned for the latest, and both where one is asked for. -/
theorem latest_is_oldest :
    let items : List (UInt64 × ℕ) := [(10, 0), (11, 1)]
    let q := SPMCLockFreeQueue.filled 2 items
    q.getLatest = some (some (10, 0)) ∧ q.getLatestN 1 = some [0, 1] ∧
      ¬ q.ReturnsLatest items 1 := by
  intro items q
  refine ⟨by decide +kernel, by decide +kernel, fun h => ?_⟩
  exact absurd h.latest (by decide +kernel)

end DumbDistributedLog.Spmc
