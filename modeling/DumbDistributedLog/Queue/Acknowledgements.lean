import DumbDistributedLog.Queue.Retention
import DumbDistributedLog.Queue.Standalone

/-! # Acknowledgements

The acknowledged position of a queue is the newest id that was acknowledged and starts at
zero, although nothing is acknowledged then. The room of a full buffer is counted from that
id, so that one slot stays taken as soon as there has been an acknowledgement. The sum that
a push compares with has the width of an id, and any id may be acknowledged.
-/

namespace DumbDistributedLog.Ddl

open Runs

/-- A queue with the ids that were pushed and that no later acknowledgement covers. -/
structure Ledger where
  queue : TopicQueue
  outstanding : List UInt64

namespace Ledger

def init (capacity : UInt64) : Ledger := ⟨.new capacity, []⟩

variable (l : Ledger)

def step (op : QueueOp) : Ledger :=
  match op with
  | .push _ _ _ =>
    ⟨l.queue.step op, l.outstanding ++ ((l.queue.stored op).map Entry.id).toList⟩
  | .ack id => ⟨l.queue.step op, l.outstanding.filter fun i => id < i⟩
  | .read _ => l

/-- A push is refused for want of room if and only if every slot is outstanding. -/
def FullExactly : QueueOp → Prop
  | .push topic payload now =>
    (l.queue.push topic payload now).2 = some (.error (.bufferFull topic)) ↔
      l.outstanding.length = l.queue.capacity.toNat
  | _ => True

/-- Nothing has been acknowledged, or a second slot is free besides the one to be taken. -/
def Spare : QueueOp → Prop
  | .push _ _ _ => l.outstanding.length = l.queue.writePos.toNat ∨
    l.outstanding.length + 1 < l.queue.capacity.toNat ∧
      l.queue.ackPos.toNat + l.queue.capacity.toNat < 2 ^ 64
  | _ => True

instance : ∀ l op, Decidable (Spare l op)
  | l, .push _ _ _ => inferInstanceAs (Decidable
      (l.outstanding.length = l.queue.writePos.toNat ∨
        l.outstanding.length + 1 < l.queue.capacity.toNat ∧
          l.queue.ackPos.toNat + l.queue.capacity.toNat < 2 ^ 64))
  | _, .ack _ | _, .read _ => .isTrue trivial

/-- The ids before `acked` have been acknowledged, and those from it on are outstanding. -/
structure Counts (l : Ledger) (acked : ℕ) : Prop where
  acked_le : acked ≤ l.queue.writePos.toNat
  ackPos : l.queue.ackPos.toNat = acked - 1
  mem : ∀ id, id ∈ l.outstanding ↔ acked ≤ id.toNat ∧ id < l.queue.writePos
  nodup : l.outstanding.Nodup
  within : l.queue.writePos.toNat ≤ l.queue.ackPos.toNat + l.queue.capacity.toNat
  healthy : l.queue.poisoned = false

namespace Counts

variable {l : Ledger} {acked : ℕ}

theorem init (capacity : UInt64) : Counts (.init capacity) 0 where
  acked_le := Nat.zero_le _
  ackPos := rfl
  mem id := by simp [Ledger.init, TopicQueue.new]
  nodup := List.nodup_nil
  within := Nat.zero_le _
  healthy := rfl

theorem length (h : Counts l acked) :
    l.outstanding.length = l.queue.writePos.toNat - acked := by
  have hnodup : (l.outstanding.map UInt64.toNat).Nodup :=
    h.nodup.map fun _ _ heq => UInt64.toNat_inj.mp heq
  have hperm : (l.outstanding.map UInt64.toNat).Perm
      (List.range' acked (l.queue.writePos.toNat - acked)) := by
    refine (List.perm_ext_iff_of_nodup hnodup List.nodup_range').mpr fun n => ?_
    simp only [List.mem_map, List.mem_range'_1, h.mem, UInt64.lt_iff_toNat_lt]
    constructor
    · rintro ⟨id, ⟨hge, hlt⟩, rfl⟩
      omega
    · rintro ⟨hge, hlt⟩
      have hbound : n < l.queue.writePos.toNat := by omega
      have hid : (UInt64.ofNat n).toNat = n :=
        UInt64.toNat_ofNat_of_lt' (hbound.trans l.queue.writePos.toNat_lt_size)
      exact ⟨.ofNat n, by omega, hid⟩
  rw [← List.length_map UInt64.toNat, hperm.length_eq, List.length_range']

theorem push_ne_none (h : Counts l acked) (topic : String) (payload : List UInt8) (now : UInt64) :
    (l.queue.push topic payload now).2 ≠ none := by
  intro hnone
  obtain ⟨hzero, -, hlt⟩ := (l.queue.push_eq_none_iff topic payload now).mp hnone
  have hle := h.acked_le
  have hpos := h.ackPos
  rw [UInt64.lt_iff_toNat_lt] at hlt
  omega

theorem push (h : Counts l acked) (topic : String) (payload : List UInt8) (now : UInt64) :
    Counts (l.step (.push topic payload now)) acked := by
  rcases l.queue.push_cases topic payload now with ⟨e, heq⟩ | ⟨-, heq⟩ | ⟨q', heq, hpushed⟩
  · simpa [Ledger.step, TopicQueue.step, TopicQueue.stored, heq] using h
  · exact absurd (by rw [heq]) (h.push_ne_none topic payload now)
  · have hstep : l.step (.push topic payload now) =
        ⟨q', l.outstanding ++ [l.queue.writePos]⟩ := by
      simp [Ledger.step, TopicQueue.step, TopicQueue.stored, heq]
    have hwrite := hpushed.writePos
    have hroom := hpushed.room
    have hmod := Nat.mod_le (l.queue.ackPos.toNat + l.queue.capacity.toNat) (2 ^ 64)
    have hle := h.acked_le
    rw [hstep]
    constructor
    · change acked ≤ q'.writePos.toNat
      omega
    · rw [hpushed.ackPos]
      exact h.ackPos
    · intro id
      simp only [List.mem_append, List.mem_singleton, h.mem, UInt64.lt_iff_toNat_lt,
        ← UInt64.toNat_inj]
      omega
    · refine List.nodup_append.mpr ⟨h.nodup, List.nodup_singleton _, ?_⟩
      rintro id hid _ hnew rfl
      obtain rfl := List.mem_singleton.mp hnew
      exact UInt64.lt_irrefl _ ((h.mem _).mp hid).2
    · change q'.writePos.toNat ≤ q'.ackPos.toNat + q'.capacity.toNat
      rw [hpushed.ackPos, hpushed.capacity]
      omega
    · exact hpushed.healthy

theorem ack (h : Counts l acked) {id : UInt64} (hid : id < l.queue.position) :
    Counts (l.step (.ack id)) (max acked (id.toNat + 1)) := by
  have hlt : id.toNat < l.queue.writePos.toNat := UInt64.lt_iff_toNat_lt.mp hid
  have hle := h.acked_le
  have hpos := h.ackPos
  have hwithin := h.within
  have hack := l.queue.toNat_ackPos_ack id
  constructor
  · simp only [Ledger.step, TopicQueue.step, TopicQueue.ack_writePos]
    omega
  · simp only [Ledger.step, TopicQueue.step, hack]
    omega
  · intro i
    simp only [Ledger.step, TopicQueue.step, TopicQueue.ack_writePos, List.mem_filter, h.mem,
      decide_eq_true_eq, UInt64.lt_iff_toNat_lt]
    omega
  · exact h.nodup.filter _
  · simp only [Ledger.step, TopicQueue.step, TopicQueue.ack_writePos, TopicQueue.ack_capacity, hack]
    omega
  · simpa [Ledger.step, TopicQueue.step] using h.healthy

theorem step (h : Counts l acked) {op : QueueOp} (hop : l.queue.AcksWritten op) :
    ∃ acked', Counts (l.step op) acked' := by
  cases op with
  | push topic payload now => exact ⟨acked, h.push topic payload now⟩
  | ack id => exact ⟨_, h.ack hop⟩
  | read id => exact ⟨acked, h⟩

theorem fullExactly_iff (h : Counts l acked) (op : QueueOp) : l.FullExactly op ↔ l.Spare op := by
  cases op with
  | push topic payload now =>
    have hlength := h.length
    have hle := h.acked_le
    have hpos := h.ackPos
    have hwithin := h.within
    have hwrite := l.queue.writePos.toNat_lt
    have hcapacity := l.queue.capacity.toNat_lt
    simp only [FullExactly, Spare, TopicQueue.push_eq_bufferFull_iff, h.healthy, true_and, hlength]
    omega
  | ack id => exact Iff.rfl
  | read id => exact Iff.rfl

end Counts

/-- With acknowledgements of written ids only, a push is refused exactly if every slot is
outstanding, as long as nothing has been acknowledged or a slot is left over. -/
theorem ack_frees_space_iff (capacity : UInt64) (ops : List QueueOp)
    (h : Along step (fun l op => l.queue.AcksWritten op) (.init capacity) ops) :
    Along step FullExactly (.init capacity) ops ↔ Along step Spare (.init capacity) ops :=
  along_congr_of_inv (I := fun l => ∃ acked, Counts l acked)
    (fun _ _ ⟨_, hl⟩ hop _ => hl.step hop) (fun _ op ⟨_, hl⟩ _ => hl.fullExactly_iff op)
    ⟨0, .init capacity⟩ h

theorem ack_frees_space_of_spare :
    Along step FullExactly (.init 4)
      [.push "t" [0] 10, .push "t" [1] 11, .ack 0, .push "t" [2] 12, .ack 2, .push "t" [3] 13] :=
  (ack_frees_space_iff 4 _ (by decide +kernel)).mpr (by decide +kernel)

/-- A buffer with one slot takes one entry only, and a buffer with two slots whose entries
have all been acknowledged takes one entry more. -/
theorem acked_slot_stays_taken :
    let one := exec step (.init 1) [.push "t" [0] 10, .ack 0]
    let two := exec step (.init 2) [.push "t" [0] 10, .push "t" [1] 11, .ack 1, .push "t" [2] 12]
    one.outstanding = [] ∧ (one.queue.push "t" [1] 11).2 = some (.error (.bufferFull "t")) ∧
      two.outstanding = [2] ∧ (two.queue.push "t" [3] 13).2 = some (.error (.bufferFull "t")) ∧
      ¬ Along step FullExactly (.init 1) [.push "t" [0] 10, .ack 0, .push "t" [1] 11] ∧
      ¬ Along step FullExactly (.init 2)
        [.push "t" [0] 10, .push "t" [1] 11, .ack 1, .push "t" [2] 12, .push "t" [3] 13] := by
  intro one two
  have hone : (one.queue.push "t" [1] 11).2 = some (.error (.bufferFull "t")) := by decide +kernel
  have htwo : (two.queue.push "t" [3] 13).2 = some (.error (.bufferFull "t")) := by decide +kernel
  refine ⟨by decide +kernel, hone, by decide +kernel, htwo, ?_, ?_⟩
  · rintro ⟨-, -, hfull, -⟩
    exact absurd (hfull.mp hone) (by decide +kernel)
  · rintro ⟨-, -, -, -, hfull, -⟩
    exact absurd (hfull.mp htwo) (by decide +kernel)

end Ledger

/-- The state of a queue in which no acknowledgement has gone too far. -/
structure TopicQueue.Usable (q : TopicQueue) : Prop where
  healthy : q.poisoned = false
  within : q.writePos.toNat ≤ q.ackPos.toNat + q.capacity.toNat
  fits : q.ackPos.toNat + q.capacity.toNat < 2 ^ 64
  empty : q.capacity = 0 → q.ackPos = 0

namespace TopicQueue.Usable

variable {q : TopicQueue}

theorem new (capacity : UInt64) : (TopicQueue.new capacity).Usable where
  healthy := rfl
  within := Nat.zero_le _
  fits := by
    change 0 + (nextPowerOfTwo capacity).toNat < 2 ^ 64
    rw [Nat.zero_add]
    exact UInt64.toNat_lt _
  empty _ := rfl

theorem push_ne_none (h : q.Usable) (topic : String) (payload : List UInt8) (now : UInt64) :
    (q.push topic payload now).2 ≠ none := by
  intro hnone
  obtain ⟨hzero, -, hlt⟩ := (q.push_eq_none_iff topic payload now).mp hnone
  rw [h.empty hzero] at hlt
  exact UInt64.not_lt_zero hlt

theorem push (h : q.Usable) (topic : String) (payload : List UInt8) (now : UInt64) :
    (q.push topic payload now).1.Usable := by
  rcases q.push_cases topic payload now with ⟨e, heq⟩ | ⟨-, heq⟩ | ⟨q', heq, hpushed⟩
  · rwa [heq]
  · exact absurd (by rw [heq]) (h.push_ne_none topic payload now)
  · have hroom := hpushed.room
    have hfits := h.fits
    rw [heq]
    refine ⟨hpushed.healthy, ?_, ?_, ?_⟩
    · rw [hpushed.writePos, hpushed.ackPos, hpushed.capacity]
      omega
    · rwa [hpushed.ackPos, hpushed.capacity]
    · rw [hpushed.ackPos, hpushed.capacity]
      exact h.empty

theorem ack (h : q.Usable) {id : UInt64} (hfits : id.toNat + q.capacity.toNat < 2 ^ 64)
    (hempty : q.capacity = 0 → id = 0) : (q.ack id).Usable := by
  have hack := toNat_ackPos_ack q id
  have hwithin := h.within
  have hbound := h.fits
  refine ⟨?_, ?_, ?_, fun hzero => ?_⟩
  · rw [ack_poisoned, h.healthy]
  · rw [ack_writePos, ack_capacity, hack]
    omega
  · rw [ack_capacity, hack]
    omega
  · rw [ack_capacity] at hzero
    rw [← UInt64.toNat_inj, hack, h.empty hzero, hempty hzero]
    rfl

end TopicQueue.Usable

inductive TopicOp where
  | push (payload : List UInt8) (now : UInt64)
  | ack (entryId : UInt64)
  deriving DecidableEq, Repr

namespace DdlDistributed

section Calls

variable (topic : String) (d : DdlDistributed)

def topicStep : TopicOp → DdlDistributed
  | .push payload now => (d.push topic payload now).1
  | .ack entryId => (d.ack topic entryId).1

def Succeeds : List (List UInt8 × UInt64) → Prop :=
  Along (fun d p => (d.push topic p.1 p.2).1)
    (fun d p => ∃ id, (d.push topic p.1 p.2).2 = some (.ok id)) d

/-- The next push does not panic, and the sum that it compares with does not overflow. -/
structure PushSafe : Prop where
  returns : ∀ payload now, (d.push topic payload now).2 ≠ none
  fits : validateTopic topic = .ok () →
    (d.queue topic).ackPos.toNat + (d.queue topic).capacity.toNat < 2 ^ 64

/-- After an acknowledgement, every sequence of pushes succeeds that would have without it. -/
def AckKeeps : TopicOp → Prop
  | .ack entryId =>
    ∀ pushes, d.Succeeds topic pushes → (d.ack topic entryId).1.Succeeds topic pushes
  | .push _ _ => True

/-- The capacity can be added to an id that is acknowledged, and a buffer without slots has
no id but the first acknowledged. -/
def AckFits : TopicOp → Prop
  | .ack entryId => validateTopic topic = .ok () → topic ∈ d.topics →
    entryId.toNat + (nextPowerOfTwo d.config.bufferSize).toNat < 2 ^ 64 ∧
      (nextPowerOfTwo d.config.bufferSize = 0 → entryId = 0)
  | .push _ _ => True

end Calls

variable {topic : String} {d : DdlDistributed}

theorem ack_cases (d : DdlDistributed) (topic : String) (entryId : UInt64) :
    (d.ack topic entryId).1 = d ∧ topic ∉ d.topics ∨
      topic ∈ d.topics ∧ topic ∈ (d.ack topic entryId).1.topics ∧
        Replaced d topic ((d.queue topic).ack entryId) (d.ack topic entryId).1 := by
  unfold DdlDistributed.ack
  cases hq : d.topics[topic]? with
  | none => exact .inl ⟨rfl, by simpa using hq⟩
  | some q =>
    have hmem : topic ∈ d.topics := (Table.mem_iff_get _).mpr ⟨q, hq⟩
    have hreplaced := (Same.refl d).replaced topic (q.ack entryId)
    have hqueue : d.queue topic = q := by rw [queue, hq]; rfl
    rw [hqueue]
    exact .inr ⟨hmem, by simp, hreplaced⟩

/-- Nobody has subscribed, and the queue of the topic has not been broken. -/
structure Unbroken (topic : String) (d : DdlDistributed) : Prop where
  subscribers : d.subscribers = ∅
  capacity : (d.queue topic).capacity = nextPowerOfTwo d.config.bufferSize
  usable : validateTopic topic = .ok () → (d.queue topic).Usable

namespace Unbroken

theorem new (config : StandaloneConfig) (topic : String) :
    Unbroken topic (newStandalone config) where
  subscribers := rfl
  capacity := by
    rw [queue_newStandalone]
    rfl
  usable := by
    rw [queue_newStandalone]
    exact fun _ => .new config.bufferSize

theorem replaced (h : Unbroken topic d) {d' : DdlDistributed} {q : TopicQueue}
    (hreplaced : Replaced d topic q d') (hcapacity : q.capacity = (d.queue topic).capacity)
    (hq : validateTopic topic = .ok () → q.Usable) : Unbroken topic d' where
  subscribers := hreplaced.subscribers.trans h.subscribers
  capacity := by rw [hreplaced.self, hcapacity, h.capacity, hreplaced.config]
  usable := by rwa [hreplaced.self]

theorem no_subscribers (h : Unbroken topic d) : d.subscribers[topic]? = none := by
  rw [h.subscribers]
  rfl

theorem push_cases (h : Unbroken topic d) (payload : List UInt8) (now : UInt64) :
    (∃ e, d.push topic payload now = (d, some (.error e))) ∨
      validateTopic topic = .ok () ∧ ∃ d',
        d.push topic payload now = (d', ((d.queue topic).push topic payload now).2) ∧
          Replaced d topic ((d.queue topic).push topic payload now).1 d' := by
  cases hvalid : validateTopic topic with
  | error e =>
    left
    exact ⟨e, by simp only [DdlDistributed.push, hvalid]⟩
  | ok _ =>
    by_cases hadmits : d.Admits topic
    · obtain ⟨d', hpush, -, hreplaced⟩ :=
        push_of_no_subscribers h.no_subscribers hvalid hadmits payload now
      exact .inr ⟨rfl, d', hpush, hreplaced⟩
    · left
      exact ⟨.topicLimitExceeded d.config.maxTopics d.topicCount,
        by rw [push_of_valid hvalid, appendOwned_of_not_admits hadmits]⟩

theorem push (h : Unbroken topic d) (payload : List UInt8) (now : UInt64) :
    Unbroken topic (d.push topic payload now).1 := by
  rcases h.push_cases payload now with ⟨e, heq⟩ | ⟨hvalid, d', heq, hreplaced⟩
  · rwa [heq]
  · rw [heq]
    exact h.replaced hreplaced TopicQueue.push_capacity fun _ =>
      (h.usable hvalid).push topic payload now

theorem ack (h : Unbroken topic d) {entryId : UInt64} (hfits : d.AckFits topic (.ack entryId)) :
    Unbroken topic (d.ack topic entryId).1 := by
  rcases ack_cases d topic entryId with ⟨heq, -⟩ | ⟨hmem, -, hreplaced⟩
  · rwa [heq]
  · refine h.replaced hreplaced TopicQueue.ack_capacity fun hvalid => ?_
    obtain ⟨hbound, hempty⟩ := hfits hvalid hmem
    rw [← h.capacity] at hbound hempty
    exact (h.usable hvalid).ack hbound hempty

theorem pushSafe (h : Unbroken topic d) : d.PushSafe topic where
  returns payload now := by
    rcases h.push_cases payload now with ⟨e, heq⟩ | ⟨hvalid, d', heq, -⟩
    · rw [heq]
      simp
    · rw [heq]
      exact (h.usable hvalid).push_ne_none topic payload now
  fits hvalid := (h.usable hvalid).fits

/-- An acknowledgement that goes too far makes the next push overflow or panic. -/
theorem ackFits (h : Unbroken topic d) {entryId : UInt64}
    (hsafe : (d.ack topic entryId).1.PushSafe topic) : d.AckFits topic (.ack entryId) := by
  intro hvalid hmem
  obtain ⟨hhealthy, hwithin, -, hempty⟩ := h.usable hvalid
  rcases ack_cases d topic entryId with ⟨-, hnot⟩ | ⟨-, hmem', hreplaced⟩
  · exact absurd hmem hnot
  have hack := (d.queue topic).toNat_ackPos_ack entryId
  have hsum := hsafe.fits hvalid
  rw [hreplaced.self, TopicQueue.ack_capacity, hack] at hsum
  rw [← h.capacity]
  refine ⟨by omega, fun hzero => ?_⟩
  by_contra hne
  obtain ⟨d', heq, -⟩ := push_of_no_subscribers (d := (d.ack topic entryId).1)
    (by rw [hreplaced.subscribers]; exact h.no_subscribers) hvalid (.inl hmem') [] 0
  refine hsafe.returns [] 0 ?_
  rw [heq, hreplaced.self]
  refine (TopicQueue.push_eq_none_iff _ topic [] 0).mpr ⟨?_, ?_, ?_⟩
  · rwa [TopicQueue.ack_capacity]
  · rwa [TopicQueue.ack_poisoned]
  · rw [hempty hzero, hzero, UInt64.toNat_zero, Nat.add_zero] at hwithin
    have hpos : 0 < entryId.toNat := Nat.pos_of_ne_zero fun h0 => hne (UInt64.toNat_inj.mp h0)
    rw [UInt64.lt_iff_toNat_lt, TopicQueue.ack_writePos, hack]
    omega

theorem step (h : Unbroken topic d) {op : TopicOp} (hop : d.AckFits topic op) :
    Unbroken topic (d.topicStep topic op) := by
  cases op with
  | push payload now => exact h.push payload now
  | ack entryId => exact h.ack hop

theorem pushSafe_step_iff (h : Unbroken topic d) (op : TopicOp) :
    (d.topicStep topic op).PushSafe topic ↔ d.AckFits topic op := by
  refine ⟨fun hsafe => ?_, fun hop => (h.step hop).pushSafe⟩
  cases op with
  | push payload now => trivial
  | ack entryId => exact h.ackFits hsafe

end Unbroken

/-- The second log has the same topic open with more of it acknowledged. -/
structure Ahead (topic : String) (d d' : DdlDistributed) : Prop where
  unbroken : Unbroken topic d
  unbroken' : Unbroken topic d'
  admits : d'.Admits topic
  writePos : (d'.queue topic).writePos = (d.queue topic).writePos
  capacity : (d'.queue topic).capacity = (d.queue topic).capacity
  ackPos : (d.queue topic).ackPos.toNat ≤ (d'.queue topic).ackPos.toNat

namespace Ahead

variable {d' : DdlDistributed}

theorem open_of_open (h : Ahead topic d d') (hvalid : validateTopic topic = .ok ())
    (hopen : (d.queue topic).Open) : (d'.queue topic).Open := by
  obtain ⟨-, hroom, hcapacity⟩ := hopen
  have husable := h.unbroken'.usable hvalid
  have hfits := husable.fits
  have hle := h.ackPos
  refine ⟨husable.healthy, ?_, ?_⟩
  · rw [UInt64.lt_iff_toNat_lt, UInt64.toNat_add] at hroom ⊢
    rw [h.writePos]
    rw [h.capacity] at hfits ⊢
    omega
  · rwa [h.capacity]

theorem push (h : Ahead topic d d') (payload : List UInt8) (now : UInt64)
    (hok : ∃ id, (d.push topic payload now).2 = some (.ok id)) :
    (∃ id, (d'.push topic payload now).2 = some (.ok id)) ∧
      Ahead topic (d.push topic payload now).1 (d'.push topic payload now).1 := by
  have hnext := h.unbroken.push payload now
  have hnext' := h.unbroken'.push payload now
  obtain ⟨id, hid⟩ := hok
  rcases h.unbroken.push_cases payload now with ⟨e, heq⟩ | ⟨hvalid, d₁, heq, hreplaced⟩
  · rw [heq] at hid
    exact absurd hid (by simp)
  rw [heq] at hid hnext ⊢
  have hopen : (d.queue topic).Open := by
    by_contra hclosed
    exact (TopicQueue.push_of_not_open hclosed topic payload now).2 id hid
  obtain ⟨q, hq, hpushed⟩ := TopicQueue.push_of_open hopen topic payload now
  obtain ⟨q', hq', hpushed'⟩ :=
    TopicQueue.push_of_open (h.open_of_open hvalid hopen) topic payload now
  obtain ⟨d₂, heq', hmem, hreplaced'⟩ :=
    push_of_no_subscribers h.unbroken'.no_subscribers hvalid h.admits payload now
  rw [hq] at hreplaced
  rw [hq'] at hreplaced' heq'
  rw [heq'] at hnext' ⊢
  refine ⟨⟨_, rfl⟩, hnext, hnext', .inl hmem, ?_, ?_, ?_⟩
  · rw [hreplaced.self, hreplaced'.self, ← UInt64.toNat_inj, hpushed.writePos, hpushed'.writePos,
      h.writePos]
  · rw [hreplaced.self, hreplaced'.self, hpushed.capacity, hpushed'.capacity, h.capacity]
  · rw [hreplaced.self, hreplaced'.self, hpushed.ackPos, hpushed'.ackPos]
    exact h.ackPos

end Ahead

theorem Unbroken.ackKeeps (h : Unbroken topic d) {op : TopicOp} (hop : d.AckFits topic op) :
    d.AckKeeps topic op := by
  cases op with
  | push payload now => trivial
  | ack entryId =>
    intro pushes hpushes
    rcases ack_cases d topic entryId with ⟨heq, -⟩ | ⟨-, hmem, hreplaced⟩
    · rwa [heq]
    · have hahead : Ahead topic d (d.ack topic entryId).1 := by
        refine ⟨h, h.ack hop, .inl hmem, ?_, ?_, ?_⟩
        · rw [hreplaced.self, TopicQueue.ack_writePos]
        · rw [hreplaced.self, TopicQueue.ack_capacity]
        · rw [hreplaced.self, TopicQueue.toNat_ackPos_ack]
          exact Nat.le_max_left _ _
      exact Along.simulate (fun _ _ p hd hok => hd.push p.1 p.2 hok) hahead hpushes

/-- No acknowledgement breaks a topic, exactly if the capacity can be added to every id that
is acknowledged and a buffer without slots has nothing but its first id acknowledged. -/
theorem acks_keep_topic_iff (config : StandaloneConfig) (topic : String) (ops : List TopicOp) :
    Always (topicStep topic) (PushSafe topic) (newStandalone config) ops ∧
        Along (topicStep topic) (AckKeeps topic) (newStandalone config) ops ↔
      Along (topicStep topic) (AckFits topic) (newStandalone config) ops := by
  have hnew := Unbroken.new config topic
  have hsafe : Always (topicStep topic) (PushSafe topic) (newStandalone config) ops ↔
      Along (topicStep topic) (AckFits topic) (newStandalone config) ops :=
    always_iff_along_of_inv (J := Unbroken topic) (P := fun _ _ => True)
      (fun _ _ hd _ _ hop => hd.step hop) (fun _ op hd _ _ => hd.pushSafe_step_iff op) hnew
      hnew.pushSafe (along_of_forall fun _ _ _ => trivial)
  refine ⟨fun h => hsafe.mp h.1, fun h => ⟨hsafe.mpr h, ?_⟩⟩
  exact h.strengthen (fun _ _ hd hop => ⟨hd.step hop, hd.ackKeeps hop⟩) hnew

/-- An acknowledgement of the greatest id makes the sum overflow. Where it wraps around, the
topic with one slot is full for good, although nothing has been pushed. -/
theorem far_ack_closes_topic :
    let d := newStandalone ⟨⟨1, 8, .block⟩, ["t"], 0⟩
    let d' := d.topicStep "t" (.ack 18446744073709551615)
    (d.push "t" [0] 10).2 = some (.ok 0) ∧
      (d'.push "t" [0] 10).2 = some (.error (.bufferFull "t")) ∧
      ¬ d'.PushSafe "t" ∧ ¬ d.AckKeeps "t" (.ack 18446744073709551615) := by
  intro d d'
  have hbefore : (d.push "t" [0] 10).2 = some (.ok 0) := by decide +kernel
  have hafter : (d'.push "t" [0] 10).2 = some (.error (.bufferFull "t")) := by decide +kernel
  refine ⟨hbefore, hafter, fun hsafe => ?_, fun hkeeps => ?_⟩
  · exact absurd (hsafe.fits (by decide +kernel)) (by decide +kernel)
  · obtain ⟨⟨id, hid⟩, -⟩ := hkeeps [([0], 10)] ⟨⟨0, hbefore⟩, trivial⟩
    exact absurd (hid.symm.trans hafter) (by simp)

end DdlDistributed

end DumbDistributedLog.Ddl
