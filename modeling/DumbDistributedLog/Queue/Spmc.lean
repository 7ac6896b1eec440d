import DumbDistributedLog.Library.U64
import Mathlib.Algebra.Group.Nat.Defs
import Mathlib.Data.List.Basic
import Mathlib.Data.List.Induction

/-! # The queue of one producer and many consumers

The producer keeps the last items in a circular buffer and counts all of them. A consumer
has a position of its own, which is masked into the buffer. Positions count from the first
item that was ever pushed and the indices of the buffer from the oldest one that is left,
so a consumer reads every item once only as long as nothing has been dropped.
-/

namespace DumbDistributedLog.Spmc

/-- The buffer lists the items that are left from the oldest one on, with their timestamps. -/
structure SPMCLockFreeQueue (T : Type*) (N : ℕ) where
  tail : UInt64
  buffer : List (UInt64 × T)
  mask : UInt64
  deriving Repr

structure SPMCConsumer (T : Type*) (N : ℕ) where
  queue : SPMCLockFreeQueue T N
  head : UInt64
  deriving Repr

variable {T : Type*} {N : ℕ}

namespace SPMCLockFreeQueue

def new : SPMCLockFreeQueue T N := ⟨0, [], UInt64.ofNat N - 1⟩

/-- The oldest item is dropped from a full buffer. -/
def push (q : SPMCLockFreeQueue T N) (timestamp : UInt64) (data : T) : SPMCLockFreeQueue T N where
  tail := q.tail + 1
  buffer := (if q.buffer.length < N then q.buffer else q.buffer.tail) ++ [(timestamp, data)]
  mask := q.mask

def consumer (q : SPMCLockFreeQueue T N) : SPMCConsumer T N := ⟨q, 0⟩

def filled (N : ℕ) (items : List (UInt64 × T)) : SPMCLockFreeQueue T N :=
  items.foldl (fun q item => q.push item.1 item.2) new

end SPMCLockFreeQueue

namespace SPMCConsumer

variable (c : SPMCConsumer T N)

/-- The slot so many positions after the head. There is none if the index is outside of the
buffer, on which the thread panics. -/
def slot (i : UInt64) : Option (UInt64 × T) :=
  c.queue.buffer[((c.head + i) &&& c.queue.mask).toNat]?

def popInner (consume : Bool) : Option (SPMCConsumer T N × Option (UInt64 × T)) :=
  if c.head ≥ c.queue.tail then some (c, none)
  else (c.slot 0).map fun item =>
    if item.1 ≠ 0 then (if consume then { c with head := c.head + 1 } else c, some item)
    else (c, none)

def pop : Option (SPMCConsumer T N × Option (UInt64 × T)) := c.popInner true

def popBatch (maxCount : UInt64) : Option (SPMCConsumer T N × List (UInt64 × T)) :=
  let available := min (U64.saturatingSub c.queue.tail c.head) (UInt64.ofNat N)
  let count := min available maxCount
  if count = 0 then some (c, [])
  else ((List.range count.toNat).mapM fun i => c.slot (UInt64.ofNat i)).map fun slots =>
    let result := slots.filter fun item => item.1 ≠ 0
    (if result.isEmpty then c else { c with head := c.head + UInt64.ofNat result.length }, result)

def drain : Option (SPMCConsumer T N × List (UInt64 × T)) := c.popBatch U64.maxValue

end SPMCConsumer

inductive SpmcCall where
  | pop
  | popBatch (maxCount : UInt64)
  | drain
  deriving DecidableEq, Repr

def SpmcCall.Asks : SpmcCall → Prop
  | .popBatch maxCount => maxCount ≠ 0
  | _ => True

namespace SPMCConsumer

def call (c : SPMCConsumer T N) : SpmcCall → Option (SPMCConsumer T N × List (UInt64 × T))
  | .pop => c.pop.map fun (c', item) => (c', item.toList)
  | .popBatch maxCount => c.popBatch maxCount
  | .drain => c.drain

def run (c : SPMCConsumer T N) :
    List SpmcCall → Option (SPMCConsumer T N × List (List (UInt64 × T)))
  | [] => some (c, [])
  | call :: calls =>
    (c.call call).bind fun (c', result) =>
      (c'.run calls).map fun (c'', results) => (c'', result :: results)

end SPMCConsumer

structure Keeps (q : SPMCLockFreeQueue T N) (items : List (UInt64 × T)) : Prop where
  buffer : q.buffer = items.drop (items.length - N)
  tail : q.tail = UInt64.ofNat items.length
  mask : q.mask = UInt64.ofNat N - 1

theorem Keeps.push {q : SPMCLockFreeQueue T N} {items : List (UInt64 × T)} (h : Keeps q items)
    (hN : 0 < N) (item : UInt64 × T) : Keeps (q.push item.1 item.2) (items ++ [item]) := by
  constructor
  · simp only [SPMCLockFreeQueue.push, h.buffer, List.length_drop, List.length_append,
      List.length_singleton]
    split
    · rw [show items.length - N = 0 by omega, show items.length + 1 - N = 0 by omega]
      simp
    · rw [List.tail_drop, show items.length + 1 - N = items.length - N + 1 by omega,
        List.drop_append_of_le_length (by omega)]
  · simp [SPMCLockFreeQueue.push, h.tail]
  · exact h.mask

theorem Keeps.filled (hN : 0 < N) (items : List (UInt64 × T)) :
    Keeps (SPMCLockFreeQueue.filled N items) items := by
  unfold SPMCLockFreeQueue.filled
  induction items using List.reverseRecOn with
  | nil => exact ⟨by simp [SPMCLockFreeQueue.new], rfl, rfl⟩
  | append_singleton items item ih =>
    rw [List.foldl_append]
    exact ih.push hN item

def SPMCLockFreeQueue.cell (q : SPMCLockFreeQueue T N) (position : ℕ) : Option (UInt64 × T) :=
  q.buffer[position % N]?

/-- The mask takes residues, and up to the tail every position has an item. -/
structure Readable (q : SPMCLockFreeQueue T N) : Prop where
  power : ∃ k < 64, N = 2 ^ k
  mask : q.mask = UInt64.ofNat N - 1
  cells : ∀ position < q.tail.toNat, ∃ item, q.cell position = some item ∧ item.1 ≠ 0

def SPMCLockFreeQueue.reads (q : SPMCLockFreeQueue T N) (start count : ℕ) : List (UInt64 × T) :=
  (List.range' start count).filterMap q.cell

section Reads

variable {q : SPMCLockFreeQueue T N} {start count : ℕ}

theorem reads_append (count' : ℕ) :
    q.reads start count ++ q.reads (start + count) count' = q.reads start (count + count') := by
  have hrange : List.range' start count ++ List.range' (start + count) count' =
      List.range' start (count + count') := by
    simp
  rw [SPMCLockFreeQueue.reads, SPMCLockFreeQueue.reads, ← List.filterMap_append, hrange,
    SPMCLockFreeQueue.reads]

theorem Readable.length_reads (h : Readable q) (hle : start + count ≤ q.tail.toNat) :
    (q.reads start count).length = count := by
  induction count with
  | zero => rfl
  | succ count ih =>
    obtain ⟨item, hitem, -⟩ := h.cells (start + count) (by omega)
    rw [← reads_append, List.length_append, ih (by omega)]
    simp [SPMCLockFreeQueue.reads, hitem]

theorem Readable.reads_ne_zero (h : Readable q) (hle : start + count ≤ q.tail.toNat) :
    ∀ item ∈ q.reads start count, item.1 ≠ 0 := by
  intro item hitem
  obtain ⟨position, hrange, hcell⟩ := List.mem_filterMap.mp hitem
  obtain ⟨-, hlt⟩ := List.mem_range'_1.mp hrange
  obtain ⟨item', hcell', hne⟩ := h.cells position (by omega)
  obtain rfl := Option.some.inj (hcell.symm.trans hcell')
  exact hne

theorem mapM_eq_some_filterMap {α β : Type*} {f : α → Option β} {as : List α}
    (h : ∀ a ∈ as, f a ≠ none) : as.mapM f = some (as.filterMap f) := by
  induction as with
  | nil => rfl
  | cons a as ih =>
    obtain ⟨ha, has⟩ := List.forall_mem_cons.mp h
    obtain ⟨b, hb⟩ := Option.ne_none_iff_exists'.mp ha
    simp [List.mapM_cons, ih has, hb]

end Reads

section Calls

variable {c : SPMCConsumer T N}

theorem slot_eq (h : Readable c.queue) {i : UInt64} (hi : c.head.toNat + i.toNat < 2 ^ 64) :
    c.slot i = c.queue.cell (c.head.toNat + i.toNat) := by
  obtain ⟨k, hk, hN⟩ := h.power
  have hpow : 2 ^ k < 2 ^ 64 := Nat.pow_lt_pow_right (by decide) hk
  have hcapacity : (UInt64.ofNat N).toNat = 2 ^ k := by
    rw [hN]
    exact UInt64.toNat_ofNat_of_lt' hpow
  have hone : (1 : UInt64) ≤ UInt64.ofNat N := by
    rw [UInt64.le_iff_toNat_le, hcapacity]
    exact Nat.one_le_two_pow
  have hindex : ((c.head + i) &&& c.queue.mask).toNat = (c.head.toNat + i.toNat) % 2 ^ k := by
    rw [h.mask, UInt64.toNat_and, UInt64.toNat_sub_of_le _ _ hone, hcapacity, UInt64.toNat_add,
      Nat.mod_eq_of_lt hi]
    exact Nat.and_two_pow_sub_one_eq_mod _ _
  have hmod : (c.head.toNat + i.toNat) % 2 ^ k = (c.head.toNat + i.toNat) % N :=
    congrArg (_ % ·) hN.symm
  rw [SPMCConsumer.slot, hindex, hmod, SPMCLockFreeQueue.cell]

/-- What a call returns: the items after the head, and none only if there are none left. -/
structure Called (c : SPMCConsumer T N) (call : SpmcCall) (c' : SPMCConsumer T N)
    (result : List (UInt64 × T)) : Prop where
  queue : c'.queue = c.queue
  after : c.head.toNat ≤ c'.head.toNat
  within : c'.head.toNat ≤ c.queue.tail.toNat
  items : result = c.queue.reads c.head.toNat (c'.head.toNat - c.head.toNat)
  exhausted : call.Asks → result = [] → c.head.toNat = c.queue.tail.toNat

def SPMCConsumer.advance (c : SPMCConsumer T N) (count : ℕ) : SPMCConsumer T N :=
  { c with head := c.head + UInt64.ofNat count }

theorem Called.none {call : SpmcCall} (hle : c.head.toNat ≤ c.queue.tail.toNat)
    (h : call.Asks → c.head.toNat = c.queue.tail.toNat) : Called c call c [] where
  queue := rfl
  after := Nat.le_refl _
  within := hle
  items := by simp [SPMCLockFreeQueue.reads]
  exhausted hasks _ := h hasks

theorem Called.advance {call : SpmcCall} {count : ℕ} (h : Readable c.queue) (hpos : 0 < count)
    (hle : c.head.toNat + count ≤ c.queue.tail.toNat) :
    Called c call (c.advance count) (c.queue.reads c.head.toNat count) := by
  have htail := c.queue.tail.toNat_lt
  have hcount : (UInt64.ofNat count).toNat = count :=
    UInt64.toNat_ofNat_of_lt' (show count < 2 ^ 64 by omega)
  have hhead : (c.advance count).head.toNat = c.head.toNat + count := by
    rw [SPMCConsumer.advance, UInt64.toNat_add, hcount, Nat.mod_eq_of_lt (by omega)]
  constructor
  · rfl
  · omega
  · omega
  · rw [hhead, Nat.add_sub_cancel_left]
  · intro _ hnil
    have hlength := h.length_reads hle
    rw [hnil] at hlength
    exact absurd hlength (Nat.ne_of_lt hpos)

theorem pop_called (h : Readable c.queue) (hle : c.head.toNat ≤ c.queue.tail.toNat) :
    ∃ c' item, c.pop = some (c', item) ∧ Called c .pop c' item.toList := by
  unfold SPMCConsumer.pop SPMCConsumer.popInner
  by_cases hend : c.head ≥ c.queue.tail
  · have hge := UInt64.le_iff_toNat_le.mp hend
    rw [if_pos hend]
    exact ⟨c, none, rfl, .none hle fun _ => by omega⟩
  · have hlt := UInt64.lt_iff_toNat_lt.mp (UInt64.not_le.mp hend)
    have htail := c.queue.tail.toNat_lt
    obtain ⟨item, hcell, hne⟩ := h.cells c.head.toNat hlt
    have hslot : c.slot 0 = some item := by
      rw [slot_eq h (by simp; omega)]
      simpa using hcell
    have hread : c.queue.reads c.head.toNat 1 = [item] := by
      simp [SPMCLockFreeQueue.reads, hcell]
    rw [if_neg hend, hslot]
    refine ⟨c.advance 1, some item, by simp [hne, SPMCConsumer.advance], ?_⟩
    rw [Option.toList_some, ← hread]
    exact .advance h Nat.one_pos hlt

theorem mapM_slot (h : Readable c.queue) {count : ℕ}
    (hle : c.head.toNat + count ≤ c.queue.tail.toNat) :
    ((List.range count).mapM fun i => c.slot (UInt64.ofNat i)) =
      some (c.queue.reads c.head.toNat count) := by
  have htail := c.queue.tail.toNat_lt
  have hslot : ∀ i ∈ List.range count,
      c.slot (UInt64.ofNat i) = c.queue.cell (c.head.toNat + i) := by
    intro i hi
    have hlt := List.mem_range.mp hi
    have hi' : (UInt64.ofNat i).toNat = i :=
      UInt64.toNat_ofNat_of_lt' (show i < 2 ^ 64 by omega)
    rw [slot_eq h (by omega), hi']
  have hsome : ∀ i ∈ List.range count, c.slot (UInt64.ofNat i) ≠ none := by
    intro i hi
    have hlt := List.mem_range.mp hi
    obtain ⟨item, hcell, -⟩ := h.cells (c.head.toNat + i) (by omega)
    rw [hslot i hi, hcell]
    simp
  rw [mapM_eq_some_filterMap hsome, List.filterMap_congr hslot, SPMCLockFreeQueue.reads,
    List.range'_eq_map_range, List.filterMap_map]
  rfl

/-- A batch is read from the head on, as far as the tail, the capacity and the caller allow. -/
theorem popBatch_eq (h : Readable c.queue) (hle : c.head.toNat ≤ c.queue.tail.toNat)
    (maxCount : UInt64) {count : ℕ}
    (hcount : count = min (min (c.queue.tail.toNat - c.head.toNat) N) maxCount.toNat) :
    c.popBatch maxCount = some (c.advance count, c.queue.reads c.head.toNat count) := by
  obtain ⟨k, hk, hN⟩ := h.power
  have hpow : 2 ^ k < 2 ^ 64 := Nat.pow_lt_pow_right (by decide) hk
  have hcapacity : (UInt64.ofNat N).toNat = N := UInt64.toNat_ofNat_of_lt' (hN ▸ hpow)
  unfold SPMCConsumer.popBatch
  dsimp only
  generalize hbatch : min (min (U64.saturatingSub c.queue.tail c.head) (UInt64.ofNat N)) maxCount =
    batch
  have hnat : batch.toNat = count := by
    rw [← hbatch, U64.toNat_min, U64.toNat_min, U64.toNat_saturatingSub, hcapacity, hcount]
  by_cases hzero : batch = 0
  · obtain rfl : count = 0 := by rw [← hnat, hzero, UInt64.toNat_zero]
    rw [if_pos hzero]
    simp [SPMCConsumer.advance, SPMCLockFreeQueue.reads]
  · have hne : count ≠ 0 := fun hcount => hzero (UInt64.toNat_inj.mp (hnat.trans hcount))
    have hwithin : c.head.toNat + count ≤ c.queue.tail.toNat := by omega
    have hfilter : (c.queue.reads c.head.toNat count).filter (fun item => item.1 ≠ 0) =
        c.queue.reads c.head.toNat count := by
      refine List.filter_eq_self.mpr fun item hitem => ?_
      simpa using h.reads_ne_zero hwithin item hitem
    have hlength := h.length_reads hwithin
    have hnil : (c.queue.reads c.head.toNat count).isEmpty = false := by
      cases hreads : c.queue.reads c.head.toNat count with
      | nil =>
        rw [hreads] at hlength
        exact absurd hlength.symm hne
      | cons item items => rfl
    rw [if_neg hzero, hnat, mapM_slot h hwithin, Option.map_some, hfilter, hnil, hlength]
    rfl

theorem popBatch_called (h : Readable c.queue) (hle : c.head.toNat ≤ c.queue.tail.toNat)
    (maxCount : UInt64) :
    ∃ c' result, c.popBatch maxCount = some (c', result) ∧
      Called c (.popBatch maxCount) c' result := by
  have hpos : 0 < N := by
    obtain ⟨k, -, rfl⟩ := h.power
    exact Nat.two_pow_pos k
  refine ⟨_, _, popBatch_eq h hle maxCount rfl, ?_⟩
  generalize hcount : min (min (c.queue.tail.toNat - c.head.toNat) N) maxCount.toNat = count
  rcases Nat.eq_zero_or_pos count with rfl | hcount'
  · have hself : c.advance 0 = c := by simp [SPMCConsumer.advance]
    rw [hself]
    refine .none hle fun hasks => ?_
    have hmax : maxCount.toNat ≠ 0 := fun hmax => hasks (UInt64.toNat_inj.mp hmax)
    omega
  · exact .advance h hcount' (by omega)

theorem call_called (h : Readable c.queue) (hle : c.head.toNat ≤ c.queue.tail.toNat)
    (call : SpmcCall) : ∃ c' result, c.call call = some (c', result) ∧ Called c call c' result := by
  cases call with
  | pop =>
    obtain ⟨c', item, hpop, hcalled⟩ := pop_called h hle
    exact ⟨c', item.toList, by rw [SPMCConsumer.call, hpop]; rfl, hcalled⟩
  | popBatch maxCount => exact popBatch_called h hle maxCount
  | drain =>
    obtain ⟨c', result, hdrain, hcalled⟩ := popBatch_called h hle U64.maxValue
    refine ⟨c', result, hdrain, hcalled.queue, hcalled.after, hcalled.within, hcalled.items, ?_⟩
    exact fun _ => hcalled.exhausted (show U64.maxValue ≠ 0 by decide)

theorem run_append (calls : List SpmcCall) (last : SpmcCall) :
    c.run (calls ++ [last]) = (c.run calls).bind fun (c', results) =>
      (c'.call last).map fun (c'', result) => (c'', results ++ [result]) := by
  induction calls generalizing c with
  | nil => cases hcall : c.call last <;> simp [SPMCConsumer.run, hcall]
  | cons call calls ih =>
    simp only [List.cons_append, SPMCConsumer.run]
    cases hcall : c.call call with
    | none => rfl
    | some p =>
      obtain ⟨c', result⟩ := p
      simp only [Option.bind_some, ih]
      cases hrun : c'.run calls with
      | none => rfl
      | some p =>
        obtain ⟨c'', results⟩ := p
        cases hlast : c''.call last <;> simp [hlast]

theorem run_called (h : Readable c.queue) (hle : c.head.toNat ≤ c.queue.tail.toNat)
    (calls : List SpmcCall) : ∃ c' results, c.run calls = some (c', results) ∧
      c'.queue = c.queue ∧ c.head.toNat ≤ c'.head.toNat ∧
      c'.head.toNat ≤ c.queue.tail.toNat ∧
      results.flatten = c.queue.reads c.head.toNat (c'.head.toNat - c.head.toNat) := by
  induction calls generalizing c with
  | nil => exact ⟨c, [], rfl, rfl, Nat.le_refl _, hle, by simp [SPMCLockFreeQueue.reads]⟩
  | cons call calls ih =>
    obtain ⟨c', result, hcall, hcalled⟩ := call_called h hle call
    have hqueue := hcalled.queue
    obtain ⟨c'', results, hrun, hqueue', hafter, hwithin, hflatten⟩ :=
      ih (hqueue ▸ h) (hqueue ▸ hcalled.within)
    rw [hqueue] at hqueue' hwithin hflatten
    have hbefore := hcalled.after
    refine ⟨c'', result :: results, ?_, hqueue', by omega, hwithin, ?_⟩
    · simp [SPMCConsumer.run, hcall, hrun]
    · have hstart : c'.head.toNat = c.head.toNat + (c'.head.toNat - c.head.toNat) := by omega
      rw [List.flatten_cons, hcalled.items, hflatten, hstart, Nat.add_sub_cancel_left,
        reads_append]
      congr 1
      omega

end Calls

section Kept

variable {q : SPMCLockFreeQueue T N} {items : List (UInt64 × T)}

theorem Keeps.length (h : Keeps q items) : q.buffer.length = min N items.length := by
  rw [h.buffer, List.length_drop]
  omega

theorem Keeps.readable (h : Keeps q items) (hN : ∃ k < 64, N = 2 ^ k)
    (hitems : ∀ item ∈ items, item.1 ≠ 0) : Readable q := by
  refine ⟨hN, h.mask, fun position hlt => ?_⟩
  have hpos : 0 < N := by
    obtain ⟨k, -, rfl⟩ := hN
    exact Nat.two_pow_pos k
  have htail : q.tail.toNat ≤ items.length := by
    rw [h.tail, UInt64.toNat_ofNat']
    exact Nat.mod_le _ _
  have hindex : position % N < q.buffer.length := by
    have hmod := Nat.mod_lt position hpos
    have hle := Nat.mod_le position N
    rw [h.length]
    omega
  have hkept : ∀ item ∈ q.buffer, item ∈ items := by
    rw [h.buffer]
    exact fun _ => List.mem_of_mem_drop
  exact ⟨_, List.getElem?_eq_getElem hindex, hitems _ (hkept _ (List.getElem_mem hindex))⟩

/-- Before a position is masked to another one, the buffer is read from its start. -/
theorem reads_eq_take {count : ℕ} (hcount : count ≤ N) : q.reads 0 count = q.buffer.take count := by
  induction count with
  | zero => rfl
  | succ count ih =>
    have hcell : q.cell count = q.buffer[count]? := by
      rw [SPMCLockFreeQueue.cell, Nat.mod_eq_of_lt hcount]
    have hone : q.reads (0 + count) 1 = (q.buffer[count]?).toList := by
      simp only [SPMCLockFreeQueue.reads, Nat.zero_add, List.range'_one, List.filterMap_cons, hcell,
        List.filterMap_nil]
      cases q.buffer[count]? <;> rfl
    rw [← reads_append, ih (by omega), hone, List.take_add_one]

theorem Keeps.reads_iff (h : Keeps q items) (hread : Readable q) :
    q.reads 0 q.tail.toNat = q.buffer ↔ q.tail.toNat = q.buffer.length := by
  constructor
  · intro heq
    rw [← heq, hread.length_reads (by omega)]
  · intro htail
    have hlength := h.length
    rw [htail, reads_eq_take (by omega), List.take_length]

end Kept

/-- A consumer that is read until nothing comes gets the retained items exactly if nothing
has been dropped, or if the counter of the producer has come round to the capacity. -/
theorem consumer_reads_retained_iff {k : ℕ} (hk : k < 64) (items : List (UInt64 × T))
    (hitems : ∀ item ∈ items, item.1 ≠ 0) (calls : List SpmcCall) (last : SpmcCall)
    (hasks : last.Asks) :
    ∃ c results result,
      (SPMCLockFreeQueue.filled (2 ^ k) items).consumer.run (calls ++ [last]) =
        some (c, results ++ [result]) ∧
      (result = [] → (results.flatten = items.drop (items.length - 2 ^ k) ↔
        items.length ≤ 2 ^ k ∨ items.length % 2 ^ 64 = 2 ^ k)) := by
  have hpow : 2 ^ k < 2 ^ 64 := Nat.pow_lt_pow_right (by decide) hk
  have hkeeps := Keeps.filled (Nat.two_pow_pos k) items
  have hread := hkeeps.readable ⟨k, hk, rfl⟩ hitems
  generalize SPMCLockFreeQueue.filled (2 ^ k) items = q at hkeeps hread
  obtain ⟨c, results, hrun, hqueue, -, hwithin, hflatten⟩ :=
    run_called (c := q.consumer) hread (Nat.zero_le _) calls
  have hqueue : c.queue = q := hqueue
  obtain ⟨c', result, hcall, hcalled⟩ := call_called (hqueue ▸ hread) (hqueue ▸ hwithin) last
  refine ⟨c', results, result, ?_, fun hnil => ?_⟩
  · rw [run_append, hrun]
    simp [hcall]
  · have hend := hcalled.exhausted hasks hnil
    rw [hqueue] at hend
    have hall : results.flatten = q.reads 0 q.tail.toNat := by
      rw [hflatten, hend]
      rfl
    have htail : q.tail.toNat = items.length % 2 ^ 64 := by
      rw [hkeeps.tail, UInt64.toNat_ofNat']
    rw [hall, ← hkeeps.buffer, hkeeps.reads_iff hread, hkeeps.length, htail]
    constructor
    · intro heq
      rcases Nat.le_total items.length (2 ^ k) with hle | hge
      · exact .inl hle
      · rw [Nat.min_eq_left hge] at heq
        exact .inr heq
    · rintro (hle | heq)
      · rw [Nat.min_eq_right hle, Nat.mod_eq_of_lt (by omega)]
      · have hmod := Nat.mod_le items.length (2 ^ 64)
        rw [heq, Nat.min_eq_left (by omega)]

/-- Of two items in two slots a consumer gets both before nothing comes. -/
theorem consumer_reads_retained_of_two :
    let items : List (UInt64 × ℕ) := [(10, 0), (11, 1)]
    ∃ c results,
      (SPMCLockFreeQueue.filled (2 ^ 1) items).consumer.run ([.pop, .popBatch 5] ++ [.drain]) =
        some (c, results ++ [[]]) ∧
      results.flatten = items.drop (items.length - 2 ^ 1) := by
  intro items
  have hone : 1 < 64 := by decide
  obtain ⟨c, results, result, hrun, hiff⟩ :=
    consumer_reads_retained_iff hone items (by decide) [.pop, .popBatch 5] .drain trivial
  have hlast : ((SPMCLockFreeQueue.filled (2 ^ 1) items).consumer.run
      ([.pop, .popBatch 5] ++ [.drain])).map (·.2.getLast?) = some (some []) := by decide +kernel
  rw [hrun] at hlast
  obtain rfl : result = [] := by simpa using hlast
  exact ⟨c, results, hrun, (hiff rfl).mpr (.inl (by decide))⟩

/-- After one of three items has been dropped from two slots, the next one is read twice. -/
theorem consumer_repeats_item :
    let items : List (UInt64 × ℕ) := [(10, 0), (11, 1), (12, 2)]
    let results := ((SPMCLockFreeQueue.filled 2 items).consumer.run [.drain, .pop, .drain]).map
      Prod.snd
    results = some [[(11, 1), (12, 2)], [(11, 1)], []] ∧
      results.map List.flatten ≠ some (items.drop (items.length - 2)) := by
  decide +kernel

end DumbDistributedLog.Spmc
