import Mathlib.Algebra.Group.Nat.Defs
import Mathlib.Tactic.Common

/-! # The queue of a topic

A topic keeps its entries in a ring buffer whose size is rounded up to a power of two.
Entries are numbered from zero. A push is refused if it would overwrite an entry after
the acknowledged position.
-/

namespace DumbDistributedLog.Ddl

structure Entry where
  id : UInt64
  timestamp : UInt64
  topic : String
  payload : List UInt8
  deriving DecidableEq, Repr

inductive DdlError where
  | notOwner (topic : String)
  | topicNotFound (topic : String)
  | bufferFull (topic : String)
  | topicLimitExceeded (max current : ℕ)
  | subscriberBufferFull (topic : String)
  | lockPoisoned (topic : String)
  | wal (message : String)
  | invalidTopic (message : String)
  deriving DecidableEq, Repr

/-- The next power of two, or zero if there is none in range. -/
def nextPowerOfTwo (n : UInt64) : UInt64 :=
  if n ≤ 1 then 1 else UInt64.ofNat (2 ^ ((n - 1).toNat.log2 + 1))

/-- The buffer has as many slots as its rounded capacity. A thread that panics with the
buffer locked leaves the lock poisoned. -/
structure TopicQueue where
  writePos : UInt64
  ackPos : UInt64
  entries : List (Option Entry)
  poisoned : Bool
  capacity : UInt64
  mask : UInt64
  size : entries.length = capacity.toNat
  rounded : ∃ n, capacity = nextPowerOfTwo n
  masked : mask = capacity - 1

namespace TopicQueue

def new (capacity : UInt64) : TopicQueue where
  writePos := 0
  ackPos := 0
  entries := List.replicate (nextPowerOfTwo capacity).toNat none
  poisoned := false
  capacity := nextPowerOfTwo capacity
  mask := nextPowerOfTwo capacity - 1
  size := List.length_replicate
  rounded := ⟨capacity, rfl⟩
  masked := rfl

variable (q : TopicQueue)

def index (id : UInt64) : ℕ := (id &&& q.mask).toNat

/-- A push at the given time. There is no result if the slot is outside of the buffer,
on which the thread panics. -/
def push (topic : String) (payload : List UInt8) (now : UInt64) :
    TopicQueue × Option (Except DdlError UInt64) :=
  if q.poisoned then (q, some (.error (.lockPoisoned topic)))
  else
    let id := q.writePos
    if id ≥ q.ackPos + q.capacity then (q, some (.error (.bufferFull topic)))
    else if q.index id < q.entries.length then
      ({ q with
        entries := q.entries.set (q.index id) (some ⟨id, now, topic, payload⟩)
        writePos := id + 1
        size := by rw [List.length_set, q.size] }, some (.ok id))
    else ({ q with poisoned := true }, none)

/-- The slot of an id that has been written, whatever it holds by now. -/
def read (id : UInt64) : Option Entry :=
  if id ≥ q.writePos then none
  else if q.poisoned then none
  else (q.entries[q.index id]?).join

def ack (id : UInt64) : TopicQueue :=
  if id > q.ackPos then { q with ackPos := id } else q

def position : UInt64 := q.writePos

end TopicQueue

theorem nextPowerOfTwo_eq (n : UInt64) :
    nextPowerOfTwo n = 0 ∨ ∃ k < 64, (nextPowerOfTwo n).toNat = 2 ^ k := by
  unfold nextPowerOfTwo
  split
  · exact .inr ⟨0, by decide, rfl⟩
  · have hlog : (n - 1).toNat.log2 < 64 := by
      by_cases hzero : (n - 1).toNat = 0
      · rw [hzero]
        decide
      · exact (Nat.log2_lt hzero).mpr (n - 1).toNat_lt
    rcases Nat.lt_or_eq_of_le hlog with hlt | heq
    · refine .inr ⟨_, hlt, UInt64.toNat_ofNat_of_lt' ?_⟩
      exact Nat.pow_lt_pow_right (by decide) hlt
    · left
      rw [show (n - 1).toNat.log2 + 1 = 64 from heq]
      rfl

namespace TopicQueue

variable {q : TopicQueue} {id : UInt64}

theorem index_eq (h : q.capacity ≠ 0) (id : UInt64) : q.index id = id.toNat % q.capacity.toNat := by
  obtain ⟨n, hn⟩ := q.rounded
  rcases nextPowerOfTwo_eq n with hzero | ⟨k, hk, hpow⟩
  · exact absurd (hn.trans hzero) h
  · rw [← hn] at hpow
    have hone : (1 : UInt64) ≤ q.capacity := by
      rw [UInt64.le_iff_toNat_le, hpow]
      exact Nat.one_le_two_pow
    rw [index, q.masked, UInt64.toNat_and, UInt64.toNat_sub_of_le _ _ hone, hpow]
    exact Nat.and_two_pow_sub_one_eq_mod _ _

theorem index_lt (h : q.capacity ≠ 0) (id : UInt64) : q.index id < q.entries.length := by
  rw [index_eq h, q.size]
  refine Nat.mod_lt _ (Nat.pos_of_ne_zero fun hz => h ?_)
  exact UInt64.toNat_inj.mp hz

/-- What a successful push of an entry changes, and when it succeeds. -/
structure Pushed (q : TopicQueue) (e : Entry) (q' : TopicQueue) : Prop where
  id : e.id = q.writePos
  writePos : q'.writePos.toNat = q.writePos.toNat + 1
  ackPos : q'.ackPos = q.ackPos
  capacity : q'.capacity = q.capacity
  entries : q'.entries = q.entries.set (q.writePos.toNat % q.capacity.toNat) (some e)
  healthy : q'.poisoned = false
  slot : q.writePos.toNat % q.capacity.toNat < q.entries.length
  room : q.writePos.toNat < (q.ackPos.toNat + q.capacity.toNat) % 2 ^ 64

theorem Pushed.capacity_ne_zero {q' : TopicQueue} {e : Entry} (h : Pushed q e q') :
    q.capacity ≠ 0 := by
  intro hzero
  have hslot := h.slot
  rw [q.size, hzero, UInt64.toNat_zero] at hslot
  exact Nat.not_lt_zero _ hslot

/-- A push is refused, panics over a buffer without slots, or succeeds. The greatest id is
never given out, so the position does not wrap around. -/
theorem push_cases (q : TopicQueue) (topic : String) (payload : List UInt8) (now : UInt64) :
    (∃ e, q.push topic payload now = (q, some (.error e))) ∨
      q.capacity = 0 ∧ q.push topic payload now = ({ q with poisoned := true }, none) ∨
      ∃ q', q.push topic payload now = (q', some (.ok q.writePos)) ∧
        Pushed q ⟨q.writePos, now, topic, payload⟩ q' := by
  unfold push
  by_cases hpoisoned : q.poisoned
  · rw [if_pos hpoisoned]
    exact .inl ⟨_, rfl⟩
  rw [if_neg hpoisoned]
  by_cases hfull : q.writePos ≥ q.ackPos + q.capacity
  · exact .inl ⟨_, if_pos hfull⟩
  simp only [if_neg hfull]
  by_cases hzero : q.capacity = 0
  · have hslots : ¬ q.index q.writePos < q.entries.length := by
      rw [q.size, hzero]
      exact Nat.not_lt_zero _
    exact .inr (.inl ⟨hzero, if_neg hslots⟩)
  · have hguard : q.writePos.toNat < (q.ackPos.toNat + q.capacity.toNat) % 2 ^ 64 := by
      rw [← UInt64.toNat_add, ← UInt64.lt_iff_toNat_lt]
      exact UInt64.not_le.mp hfull
    have hbound := Nat.mod_lt (q.ackPos.toNat + q.capacity.toNat) (y := 2 ^ 64) (by decide)
    have hindex := index_eq hzero q.writePos
    have hslot := index_lt hzero q.writePos
    refine .inr (.inr ⟨_, if_pos hslot, ?_⟩)
    constructor
    · rfl
    · simp only [UInt64.toNat_add, UInt64.toNat_one]
      omega
    · rfl
    · rfl
    · simp only [hindex]
    · simpa using hpoisoned
    · rwa [← hindex]
    · exact hguard

def Open (q : TopicQueue) : Prop :=
  q.poisoned = false ∧ q.writePos < q.ackPos + q.capacity ∧ q.capacity ≠ 0

instance (q : TopicQueue) : Decidable q.Open :=
  inferInstanceAs (Decidable (_ ∧ _ ∧ _))

theorem push_of_open (h : q.Open) (topic : String) (payload : List UInt8) (now : UInt64) :
    ∃ q', q.push topic payload now = (q', some (.ok q.writePos)) ∧
      Pushed q ⟨q.writePos, now, topic, payload⟩ q' := by
  obtain ⟨hhealthy, hroom, hcapacity⟩ := h
  have hresult : (q.push topic payload now).2 = some (.ok q.writePos) := by
    have hslot := index_lt hcapacity q.writePos
    simp [push, hhealthy, UInt64.not_le.mpr hroom, hslot]
  rcases q.push_cases topic payload now with ⟨e, heq⟩ | ⟨hzero, -⟩ | hpushed
  · rw [heq] at hresult
    exact absurd hresult (by simp)
  · exact absurd hzero hcapacity
  · exact hpushed

theorem push_of_not_open (h : ¬ q.Open) (topic : String) (payload : List UInt8) (now : UInt64) :
    (q.push topic payload now).1.writePos = q.writePos ∧
      ∀ id, (q.push topic payload now).2 ≠ some (.ok id) := by
  rcases q.push_cases topic payload now with ⟨e, heq⟩ | ⟨-, heq⟩ | ⟨q', heq, hpushed⟩
  · rw [heq]
    exact ⟨rfl, by simp⟩
  · rw [heq]
    exact ⟨rfl, by simp⟩
  · refine absurd ⟨?_, ?_, ?_⟩ h
    · by_contra hpoisoned
      rw [push, if_pos (by simpa using hpoisoned)] at heq
      simp at heq
    · rw [UInt64.lt_iff_toNat_lt, UInt64.toNat_add]
      exact hpushed.room
    · exact hpushed.capacity_ne_zero

theorem Pushed.read {q' : TopicQueue} {e : Entry} (h : Pushed q e q') : q'.read e.id = some e := by
  have hcapacity : q'.capacity ≠ 0 := h.capacity.symm ▸ h.capacity_ne_zero
  have hwritten : ¬ e.id ≥ q'.writePos := by
    rw [ge_iff_le, UInt64.le_iff_toNat_le, h.writePos, h.id]
    omega
  rw [TopicQueue.read, if_neg hwritten, h.healthy, index_eq hcapacity, h.entries, h.id, h.capacity,
    List.getElem?_set_self h.slot]
  rfl

theorem push_snd (q : TopicQueue) (topic : String) (payload : List UInt8) (now : UInt64) :
    (q.push topic payload now).2 =
      if q.poisoned then some (.error (.lockPoisoned topic))
      else if q.writePos ≥ q.ackPos + q.capacity then some (.error (.bufferFull topic))
      else if q.capacity = 0 then none
      else some (.ok q.writePos) := by
  have hslots : q.index q.writePos < q.entries.length ↔ q.capacity ≠ 0 := by
    refine ⟨fun hlt hzero => ?_, fun hne => index_lt hne _⟩
    rw [q.size, hzero] at hlt
    exact Nat.not_lt_zero _ hlt
  by_cases hpoisoned : q.poisoned
  · rw [push, if_pos hpoisoned, if_pos hpoisoned]
  rw [push, if_neg hpoisoned, if_neg hpoisoned]
  by_cases hfull : q.writePos ≥ q.ackPos + q.capacity
  · simp only [if_pos hfull]
  by_cases hzero : q.capacity = 0
  · simp only [if_neg hfull, if_pos hzero, if_neg (fun hlt => hslots.mp hlt hzero)]
  · simp only [if_neg hfull, if_neg hzero, if_pos (hslots.mpr hzero)]

theorem push_capacity {topic : String} {payload : List UInt8} {now : UInt64} :
    (q.push topic payload now).1.capacity = q.capacity := by
  rcases q.push_cases topic payload now with ⟨e, heq⟩ | ⟨-, heq⟩ | ⟨q', heq, hpushed⟩
  · rw [heq]
  · rw [heq]
  · rw [heq, hpushed.capacity]

theorem push_eq_bufferFull_iff (q : TopicQueue) (topic : String) (payload : List UInt8)
    (now : UInt64) : (q.push topic payload now).2 = some (.error (.bufferFull topic)) ↔
      q.poisoned = false ∧
        (q.ackPos.toNat + q.capacity.toNat) % 2 ^ 64 ≤ q.writePos.toNat := by
  rw [← UInt64.toNat_add, ← UInt64.le_iff_toNat_le, push_snd]
  split
  · simp_all
  · split
    · simp_all
    · split <;> simp_all

theorem push_error {topic : String} {payload : List UInt8} {now : UInt64} {e : DdlError}
    (h : (q.push topic payload now).2 = some (.error e)) :
    e = .lockPoisoned topic ∨ e = .bufferFull topic := by
  rw [push_snd] at h
  split at h
  · cases h
    exact .inl rfl
  · split at h
    · cases h
      exact .inr rfl
    · split at h <;> cases h

theorem push_eq_none_iff (q : TopicQueue) (topic : String) (payload : List UInt8) (now : UInt64) :
    (q.push topic payload now).2 = none ↔
      q.capacity = 0 ∧ q.poisoned = false ∧ q.writePos < q.ackPos := by
  rw [push_snd]
  split
  · simp_all
  · split
    · rename_i hfull
      refine ⟨fun h => absurd h (by simp), fun ⟨hzero, _, hlt⟩ => ?_⟩
      rw [hzero, UInt64.add_zero] at hfull
      exact absurd hlt (UInt64.not_lt.mpr hfull)
    · split <;> simp_all

section Ack

@[simp] theorem ack_writePos : (q.ack id).writePos = q.writePos := by
  unfold ack
  split <;> rfl

@[simp] theorem ack_capacity : (q.ack id).capacity = q.capacity := by
  unfold ack
  split <;> rfl

@[simp] theorem ack_poisoned : (q.ack id).poisoned = q.poisoned := by
  unfold ack
  split <;> rfl

theorem toNat_ackPos_ack (q : TopicQueue) (id : UInt64) :
    (q.ack id).ackPos.toNat = max q.ackPos.toNat id.toNat := by
  unfold ack
  split
  · rename_i hgt
    exact (Nat.max_eq_right (Nat.le_of_lt (UInt64.lt_iff_toNat_lt.mp hgt))).symm
  · rename_i hgt
    exact (Nat.max_eq_left (UInt64.le_iff_toNat_le.mp (UInt64.not_lt.mp hgt))).symm

end Ack

end TopicQueue

end DumbDistributedLog.Ddl
