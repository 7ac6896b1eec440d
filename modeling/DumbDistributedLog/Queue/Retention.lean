import DumbDistributedLog.Library.Ring
import DumbDistributedLog.Library.Runs
import DumbDistributedLog.Queue.TopicQueue

/-! # What a queue retains

A queue refines a log of which the entries from the acknowledged position on are
retained, for as long as no id is acknowledged before it is reached. The guard of a push
compares with the acknowledged position only, so an acknowledgement of ids that are yet
to come lets later pushes overwrite entries that nobody has acknowledged. A read does not
look at the id of what it finds, and returns the entry that has taken the slot.
-/

namespace DumbDistributedLog.Ddl

open Runs

inductive QueueOp where
  | push (topic : String) (payload : List UInt8) (now : UInt64)
  | ack (id : UInt64)
  | read (id : UInt64)

def QueueOp.acked : QueueOp → ℕ
  | .ack id => id.toNat
  | _ => 0

namespace TopicQueue

variable (q : TopicQueue)

def step : QueueOp → TopicQueue
  | .push topic payload now => (q.push topic payload now).1
  | .ack id => q.ack id
  | .read _ => q

/-- The entry of a successful push, under the id that it returns. -/
def stored : QueueOp → Option Entry
  | .push topic payload now =>
    match (q.push topic payload now).2 with
    | some (.ok id) => some ⟨id, now, topic, payload⟩
    | _ => none
  | _ => none

def AcksWritten : QueueOp → Prop
  | .ack id => id < q.position
  | _ => True

def AcksReached : QueueOp → Prop
  | .ack id => id ≤ q.position
  | _ => True

instance : ∀ q op, Decidable (AcksWritten q op)
  | q, .ack id => inferInstanceAs (Decidable (id < q.position))
  | _, .push _ _ _ => .isTrue trivial
  | _, .read _ => .isTrue trivial

instance : ∀ q op, Decidable (AcksReached q op)
  | q, .ack id => inferInstanceAs (Decidable (id ≤ q.position))
  | _, .push _ _ _ => .isTrue trivial
  | _, .read _ => .isTrue trivial

theorem capacity_step (op : QueueOp) : (q.step op).capacity = q.capacity := by
  cases op with
  | push topic payload now => exact push_capacity
  | ack id => exact ack_capacity
  | read id => rfl

theorem stored_of_no_slots (hzero : q.capacity = 0) (op : QueueOp) : q.stored op = none := by
  cases op with
  | push topic payload now =>
    rcases q.push_cases topic payload now with ⟨e, heq⟩ | ⟨-, heq⟩ | ⟨q', heq, hpushed⟩
    · simp [stored, heq]
    · simp [stored, heq]
    · exact absurd hzero hpushed.capacity_ne_zero
  | ack id => rfl
  | read id => rfl

end TopicQueue

structure Recorded where
  queue : TopicQueue
  pushed : List Entry

def Recorded.init (capacity : UInt64) : Recorded := ⟨.new capacity, []⟩

def Recorded.step (r : Recorded) (op : QueueOp) : Recorded :=
  ⟨r.queue.step op, r.pushed ++ (r.queue.stored op).toList⟩

/-- The queue is at the end of a log and holds the last entries of it. -/
structure Tracks (q : TopicQueue) (log : List Entry) : Prop where
  position : log.length = q.writePos.toNat
  holds : Ring.Holds q.capacity.toNat q.entries log
  ids : ∀ (i : ℕ) (e : Entry), log[i]? = some e → e.id.toNat = i
  healthy : q.capacity ≠ 0 → q.poisoned = false

/-- The queue holds what is retained of a log. -/
structure Refines (q : TopicQueue) (w : Retained Entry) : Prop extends Tracks q w.log where
  acked : w.acked = q.ackPos.toNat
  within : w.Within q.capacity.toNat

namespace Tracks

variable {q q' : TopicQueue} {log : List Entry} {e : Entry} {id : UInt64}

theorem new (capacity : UInt64) : Tracks (.new capacity) [] where
  position := rfl
  holds := Ring.holds_nil
  ids := fun i e h => by simp at h
  healthy := fun _ => rfl

theorem pushed (h : Tracks q log) (hp : q.Pushed e q') : Tracks q' (log ++ [e]) := by
  constructor
  · rw [List.length_append, List.length_singleton, h.position, hp.writePos]
  · rw [hp.capacity, hp.entries, ← h.position]
    refine h.holds.push ?_ e
    rw [h.position]
    exact hp.slot
  · intro i e' he
    rcases Ring.getElem?_concat_eq_some.mp he with hold | ⟨rfl, rfl⟩
    · exact h.ids i e' hold
    · rw [hp.id, h.position]
  · exact fun _ => hp.healthy

theorem poisoned (h : Tracks q log) (hzero : q.capacity = 0) :
    Tracks { q with poisoned := true } log :=
  ⟨h.position, h.holds, h.ids, fun hne => absurd hzero hne⟩

theorem ack (h : Tracks q log) (id : UInt64) : Tracks (q.ack id) log := by
  unfold TopicQueue.ack
  split
  · exact ⟨h.position, h.holds, h.ids, h.healthy⟩
  · exact h

theorem step (h : Tracks q log) (op : QueueOp) :
    Tracks (q.step op) (log ++ (q.stored op).toList) := by
  cases op with
  | push topic payload now =>
    rcases q.push_cases topic payload now with ⟨e, heq⟩ | ⟨hzero, heq⟩ | ⟨q', heq, hpushed⟩
    · simpa [TopicQueue.step, TopicQueue.stored, heq] using h
    · simpa [TopicQueue.step, TopicQueue.stored, heq] using h.poisoned hzero
    · simpa [TopicQueue.step, TopicQueue.stored, heq] using h.pushed hpushed
  | ack id => simpa [TopicQueue.step, TopicQueue.stored] using h.ack id
  | read id => simpa [TopicQueue.step, TopicQueue.stored] using h

theorem read (h : Tracks q log) (he : log[id.toNat]? = some e)
    (hid : log.length ≤ id.toNat + q.capacity.toNat) : q.read id = some e := by
  obtain ⟨hlt, -⟩ := List.getElem?_eq_some_iff.mp he
  have hcapacity : q.capacity ≠ 0 := by
    intro hzero
    rw [hzero, UInt64.toNat_zero] at hid
    omega
  have hwritten : ¬ id ≥ q.writePos := by
    rw [ge_iff_le, UInt64.le_iff_toNat_le, ← h.position]
    omega
  rw [TopicQueue.read, if_neg hwritten, h.healthy hcapacity, TopicQueue.index_eq hcapacity,
    h.holds _ e he hid]
  rfl

end Tracks

namespace Refines

variable {q : TopicQueue} {w : Retained Entry} {id : UInt64} {e : Entry}

theorem new (capacity : UInt64) : Refines (.new capacity) ⟨[], 0⟩ :=
  ⟨.new capacity, rfl, le_rfl, Nat.zero_le _⟩

theorem pushed {q' : TopicQueue} (h : Refines q w) (hp : q.Pushed e q') :
    Refines q' (w.push e) := by
  refine ⟨h.toTracks.pushed hp, h.acked.trans (by rw [hp.ackPos]), ?_⟩
  rw [hp.capacity]
  refine h.within.push e ?_
  have hroom := hp.room
  have hmod := Nat.mod_le (q.ackPos.toNat + q.capacity.toNat) (2 ^ 64)
  rw [h.position, h.acked]
  omega

theorem ack (h : Refines q w) (hid : id ≤ q.position) : Refines (q.ack id) (w.ack id.toNat) := by
  have hle : id.toNat ≤ w.log.length := by
    rw [h.position]
    exact UInt64.le_iff_toNat_le.mp hid
  have hacked : (w.ack id.toNat).acked = (q.ack id).ackPos.toNat := by
    rw [Retained.ack, h.acked, TopicQueue.toNat_ackPos_ack]
  refine ⟨h.toTracks.ack id, hacked, ?_⟩
  rw [TopicQueue.ack_capacity]
  exact h.within.ack hle

theorem step (h : Refines q w) {op : QueueOp} (hop : q.AcksReached op) :
    Refines (q.step op) ⟨w.log ++ (q.stored op).toList, max w.acked op.acked⟩ := by
  cases op with
  | push topic payload now =>
    rcases q.push_cases topic payload now with ⟨e, heq⟩ | ⟨hzero, heq⟩ | ⟨q', heq, hpushed⟩
    · simpa [TopicQueue.step, TopicQueue.stored, heq, QueueOp.acked] using h
    · simpa [TopicQueue.step, TopicQueue.stored, heq, QueueOp.acked] using
        (⟨h.toTracks.poisoned hzero, h.acked, h.within⟩ : Refines { q with poisoned := true } w)
    · simpa [TopicQueue.step, TopicQueue.stored, heq, QueueOp.acked, Retained.push] using
        h.pushed hpushed
  | ack id =>
    simpa [TopicQueue.step, TopicQueue.stored, QueueOp.acked, Retained.ack] using h.ack hop
  | read id => simpa [TopicQueue.step, TopicQueue.stored, QueueOp.acked] using h

theorem read (h : Refines q w) (hacked : w.acked ≤ id.toNat) (he : w.log[id.toNat]? = some e) :
    q.read id = some e := by
  refine h.toTracks.read he ?_
  have hlength := h.within.length_le
  omega

theorem read_exec (h : Refines q w) (hacked : w.acked ≤ id.toNat)
    (he : w.log[id.toNat]? = some e) {ops : List QueueOp}
    (hops : Along TopicQueue.step TopicQueue.AcksReached q ops)
    (hacks : ∀ j, QueueOp.ack j ∈ ops → j < id) :
    (exec TopicQueue.step q ops).read id = some e := by
  induction ops generalizing q w with
  | nil => exact h.read hacked he
  | cons op ops ih =>
    obtain ⟨hlt, -⟩ := List.getElem?_eq_some_iff.mp he
    refine ih (h.step hops.1) ?_ ?_ hops.2 fun j hj => hacks j (List.mem_cons_of_mem _ hj)
    · have hop : op.acked ≤ id.toNat := by
        cases op with
        | ack j => exact (UInt64.lt_iff_toNat_lt.mp (hacks j List.mem_cons_self)).le
        | _ => exact Nat.zero_le _
      exact max_le hacked hop
    · rwa [List.getElem?_append_left hlt]

end Refines

/-- With acknowledgements of written ids only, successful pushes return the numbers from
zero on, the position is their number, a refused push changes nothing, and every entry
from the acknowledged position on is read as it was pushed. -/
theorem topicQueue_refines_log (capacity : UInt64) (ops : List QueueOp)
    (h : Along Recorded.step (fun r op => r.queue.AcksWritten op) (.init capacity) ops) :
    let r := exec Recorded.step (.init capacity) ops
    r.pushed.map (fun e => e.id.toNat) = List.range r.pushed.length ∧
      r.queue.position.toNat = r.pushed.length ∧
      (∀ topic payload now, (r.queue.push topic payload now).2 = some (.error (.bufferFull topic)) →
        (r.queue.push topic payload now).1 = r.queue) ∧
      ∀ id, r.queue.ackPos ≤ id → id < r.queue.position →
        ∃ e, r.pushed[id.toNat]? = some e ∧ r.queue.read id = some e := by
  intro r
  obtain ⟨acked, hr⟩ : ∃ acked, Refines r.queue ⟨r.pushed, acked⟩ := by
    refine h.exec_inv (I := fun r : Recorded => ∃ acked, Refines r.queue ⟨r.pushed, acked⟩) ?_
      ⟨0, .new capacity⟩
    rintro r op ⟨acked, hr⟩ hop
    have hreached : r.queue.AcksReached op := by
      cases op with
      | ack id => exact UInt64.le_of_lt hop
      | _ => trivial
    exact ⟨_, hr.step hreached⟩
  refine ⟨?_, hr.position.symm, ?_, ?_⟩
  · refine List.ext_getElem (by simp) fun i hi hi' => ?_
    rw [List.getElem_map, List.getElem_range]
    exact hr.ids i _ (List.getElem?_eq_getElem (by simpa using hi))
  · intro topic payload now hfull
    rcases r.queue.push_cases topic payload now with ⟨e, heq⟩ | ⟨-, heq⟩ | ⟨q', heq, -⟩
    · rw [heq]
    · rw [heq] at hfull
      exact absurd hfull (by simp)
    · rw [heq] at hfull
      exact absurd hfull (by simp)
  · intro id hacked hlt
    have hlt' : id.toNat < r.pushed.length := by
      rw [hr.position]
      exact UInt64.lt_iff_toNat_lt.mp hlt
    have he := List.getElem?_eq_getElem hlt'
    refine ⟨_, he, hr.read ?_ he⟩
    rw [hr.acked]
    exact UInt64.le_iff_toNat_le.mp hacked

theorem topicQueue_refines_log_around :
    let ops : List QueueOp :=
      [.push "t" [0] 10, .push "t" [1] 11, .push "t" [2] 12, .ack 1, .push "t" [2] 13, .read 1]
    let r := exec Recorded.step (.init 2) ops
    r.pushed.length = 3 ∧
      ∃ e, r.pushed[(1 : UInt64).toNat]? = some e ∧ r.queue.read 1 = some e := by
  intro ops r
  obtain ⟨-, -, -, hread⟩ := topicQueue_refines_log 2 ops (by decide +kernel)
  exact ⟨by decide +kernel, hread 1 (by decide +kernel) (by decide +kernel)⟩

/-- If no id is acknowledged before it is reached, an entry is read as it was pushed until
an acknowledgement covers it. -/
theorem read_until_acked (capacity : UInt64) (pre post : List QueueOp) (topic : String)
    (payload : List UInt8) (now id : UInt64)
    (h : Along TopicQueue.step TopicQueue.AcksReached (.new capacity)
      (pre ++ .push topic payload now :: post))
    (hid : ((exec TopicQueue.step (.new capacity) pre).push topic payload now).2 = some (.ok id))
    (hacks : ∀ j, QueueOp.ack j ∈ post → j < id) :
    (exec TopicQueue.step (.new capacity) (pre ++ .push topic payload now :: post)).read id =
      some ⟨id, now, topic, payload⟩ := by
  obtain ⟨hpre, -, hpost⟩ := along_append.mp h
  obtain ⟨w, hw⟩ : ∃ w, Refines (exec TopicQueue.step (.new capacity) pre) w :=
    hpre.exec_inv (I := fun q => ∃ w, Refines q w) (fun q op ⟨w, hw⟩ hop => ⟨_, hw.step hop⟩)
      ⟨_, .new capacity⟩
  rw [exec_append, exec_cons]
  rcases TopicQueue.push_cases _ topic payload now with ⟨e, heq⟩ | ⟨-, heq⟩ | ⟨q', heq, hpushed⟩
  · rw [heq] at hid
    exact absurd hid (by simp)
  · rw [heq] at hid
    exact absurd hid (by simp)
  · rw [heq] at hid
    obtain rfl := Except.ok.inj (Option.some.inj hid)
    have hstep :
        (exec TopicQueue.step (.new capacity) pre).step (.push topic payload now) = q' := by
      rw [TopicQueue.step, heq]
    rw [hstep] at hpost ⊢
    refine (hw.pushed hpushed).read_exec ?_ ?_ hpost hacks
    · rw [← hw.position]
      exact hw.within.acked_le
    · rw [← hw.position]
      exact List.getElem?_concat_length

theorem read_until_acked_around :
    (exec TopicQueue.step (.new 2) ([.push "t" [0] 10] ++ .push "t" [1] 11 ::
      [.ack 0, .push "t" [2] 12, .ack 0, .read 1])).read 1 = some ⟨1, 11, "t", [1]⟩ :=
  read_until_acked 2 [.push "t" [0] 10] [.ack 0, .push "t" [2] 12, .ack 0, .read 1] "t" [1] 11 1
    (by decide +kernel) (by decide +kernel) (by simp)

/-- An acknowledgement of ids to come lets the second push overwrite the first entry. -/
theorem early_ack_loses_entry :
    let ops : List QueueOp := [.ack 5, .push "t" [0] 10, .push "t" [1] 11]
    ((exec TopicQueue.step (.new 1) (ops.take 1)).push "t" [0] 10).2 = some (.ok 0) ∧
      (exec TopicQueue.step (.new 1) ops).read 0 = some ⟨1, 11, "t", [1]⟩ := by
  decide +kernel

namespace Recorded

variable {r : Recorded} {id : UInt64}

/-- A read of the id gives the entry of the push that returned it, or nothing, and nothing if
a later push has taken the slot. -/
structure ReadsOwn (r : Recorded) (id : UInt64) : Prop where
  own : ∀ e, r.queue.read id = some e → e.id = id ∧ e ∈ r.pushed
  reused : (∃ later ∈ r.pushed, id < later.id ∧ r.queue.index later.id = r.queue.index id) →
    r.queue.read id = none

/-- The queue follows the log of its pushes, and a buffer without slots takes none. -/
structure Follows (capacity : UInt64) (r : Recorded) : Prop where
  tracks : Tracks r.queue r.pushed
  capacity : r.queue.capacity = nextPowerOfTwo capacity
  empty : r.queue.capacity = 0 → r.pushed = []

theorem Follows.step {capacity : UInt64} (h : Follows capacity r) (op : QueueOp) :
    Follows capacity (r.step op) := by
  have hcapacity : (r.step op).queue.capacity = r.queue.capacity := r.queue.capacity_step op
  refine ⟨h.tracks.step op, hcapacity.trans h.capacity, fun hzero => ?_⟩
  rw [hcapacity] at hzero
  rw [Recorded.step, h.empty hzero, r.queue.stored_of_no_slots hzero op]
  rfl

theorem follows_exec (capacity : UInt64) (ops : List QueueOp) :
    Follows capacity (exec Recorded.step (.init capacity) ops) :=
  exec_inv (fun _ op h => h.step op) ⟨.new capacity, rfl, fun _ => rfl⟩

theorem Follows.readsOwn {capacity : UInt64} (h : Follows capacity r)
    (hlast : r.pushed.length ≤ id.toNat + r.queue.capacity.toNat) : ReadsOwn r id where
  own := by
    intro e he
    have hlt : id.toNat < r.pushed.length := by
      by_contra hge
      have hunwritten : id ≥ r.queue.writePos := by
        rw [ge_iff_le, UInt64.le_iff_toNat_le, ← h.tracks.position]
        omega
      rw [TopicQueue.read, if_pos hunwritten] at he
      cases he
    have hget := List.getElem?_eq_getElem hlt
    have hread := h.tracks.read hget hlast
    obtain rfl := Option.some.inj (hread.symm.trans he)
    exact ⟨UInt64.toNat_inj.mp (h.tracks.ids _ _ hget), List.getElem_mem hlt⟩
  reused := by
    rintro ⟨later, hmem, hlt, hindex⟩
    exfalso
    have hne : r.queue.capacity ≠ 0 := by
      intro hzero
      rw [h.empty hzero] at hmem
      cases hmem
    obtain ⟨j, hj⟩ := List.mem_iff_getElem?.mp hmem
    have hid := h.tracks.ids j later hj
    obtain ⟨hbound, -⟩ := List.getElem?_eq_some_iff.mp hj
    rw [TopicQueue.index_eq hne, TopicQueue.index_eq hne] at hindex
    rw [UInt64.lt_iff_toNat_lt] at hlt
    exact Ring.mod_ne_mod hlt (by omega) hindex.symm

theorem Follows.read_of_reused {capacity : UInt64} (h : Follows capacity r)
    (hreused : id.toNat + r.queue.capacity.toNat < r.pushed.length) :
    ∃ e, r.queue.read id = some e ∧ id < e.id := by
  have hne : r.queue.capacity ≠ 0 := by
    intro hzero
    rw [h.empty hzero] at hreused
    exact absurd hreused (Nat.not_lt_zero _)
  have hpos : 0 < r.queue.capacity.toNat :=
    Nat.pos_of_ne_zero fun hzero => hne (UInt64.toNat_inj.mp hzero)
  obtain ⟨j, hlt, hbound, hlast, hmod⟩ := Ring.exists_mod_eq hpos hreused
  have hget := List.getElem?_eq_getElem hbound
  have hwritten : ¬ id ≥ r.queue.writePos := by
    rw [ge_iff_le, UInt64.le_iff_toNat_le, ← h.tracks.position]
    omega
  refine ⟨r.pushed[j], ?_, ?_⟩
  · rw [TopicQueue.read, if_neg hwritten, h.tracks.healthy hne, TopicQueue.index_eq hne, ← hmod,
      h.tracks.holds j _ hget hlast]
    rfl
  · rw [UInt64.lt_iff_toNat_lt, h.tracks.ids j _ hget]
    exact hlt

end Recorded

/-- After every run, an id is read as it should be exactly if there have not been more pushes
since than the buffer has slots. -/
theorem read_own_entry_iff (capacity : UInt64) (ops : List QueueOp) (id : UInt64) :
    let r := exec Recorded.step (.init capacity) ops
    r.ReadsOwn id ↔ r.pushed.length ≤ id.toNat + (nextPowerOfTwo capacity).toNat := by
  intro r
  have h : r.Follows capacity := Recorded.follows_exec capacity ops
  rw [← h.capacity]
  refine ⟨fun hown => ?_, h.readsOwn⟩
  by_contra hreused
  obtain ⟨e, hread, hlt⟩ := h.read_of_reused (Nat.not_le.mp hreused)
  rw [(hown.own e hread).1] at hlt
  exact UInt64.lt_irrefl _ hlt

/-- After three pushes over two slots, the first id reads as the third entry. -/
theorem reused_slot_read :
    let ops : List QueueOp :=
      [.push "t" [0] 10, .push "t" [1] 11, .ack 1, .push "t" [2] 12]
    let r := exec Recorded.step (.init 2) ops
    r.queue.read 0 = some ⟨2, 12, "t", [2]⟩ ∧ ¬ r.ReadsOwn 0 := by
  intro ops r
  have hread : r.queue.read 0 = some ⟨2, 12, "t", [2]⟩ := by decide +kernel
  exact ⟨hread, fun h => absurd (h.own _ hread).1 (by decide)⟩

end DumbDistributedLog.Ddl
