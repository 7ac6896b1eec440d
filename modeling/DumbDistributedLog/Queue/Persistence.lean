import DumbDistributedLog.Library.Arcs
import DumbDistributedLog.Library.BufWriter
import DumbDistributedLog.Library.Runs
import DumbDistributedLog.Library.Tables
import DumbDistributedLog.Library.Utf8
import DumbDistributedLog.Queue.PersistedLines
import Mathlib.Data.List.Nodup

/-! # Persistence of queues

The values of a queue are sent to a thread that appends them to a log file through a buffer. When
the handle of the queue is dropped, the thread is told to shut down and waited for, and no value is
lost on the way to a file with room. Handles are shared, however, and the manager keeps a reference
to each: shutting down all of them clones and releases references only, and no handle is dropped
before the manager itself.
-/

namespace DumbDistributedLog.Persistence

/-- What the thread of a queue reads of the configuration. -/
structure PersistenceConfig where
  flushIntervalMs : UInt64
  includeTimestamp : Bool

def PersistenceConfig.default : PersistenceConfig := ⟨1000, true⟩

inductive PersistEvent
  | data (timestamp : UInt64) (value : ℚ)
  | flush
  | shutdown
  deriving DecidableEq

/-- Events can be sent to a thread until it has ended or panicked. -/
inductive PersistThread
  | starting (pending : List PersistEvent)
  | running (pending : List PersistEvent) (writer : BufWriter) (lastFlush : ℕ)
  | ended (file : LimitedFile)
  | panicked
  deriving DecidableEq

/-- What a turn of a thread meets: the room in the log file, if that can be opened, and the
nanoseconds of the clock before and after. -/
structure Turn where
  opened : Option ℕ
  clock : ℕ
  clockAfter : ℕ

def Turn.Roomy (t : Turn) (room : ℕ) : Prop := ∃ given ∈ t.opened, room ≤ given

variable (f : F64) (config : PersistenceConfig)

def recordPieces (timestamp : UInt64) (value : ℚ) : List (List UInt8) :=
  (linePieces f config.includeTimestamp timestamp value ++ ["\n"]).map Utf8.encode

def bytesOf : PersistEvent → List UInt8
  | .data timestamp value => (recordPieces f config timestamp value).flatten
  | _ => []

namespace PersistThread

def pending : PersistThread → List PersistEvent
  | starting pending => pending
  | running pending _ _ => pending
  | _ => []

/-- The bytes that have been appended to the log file by a thread that has ended. -/
def logged : PersistThread → Option (List UInt8)
  | ended file => some file.contents
  | _ => none

def send (event : PersistEvent) : PersistThread → Option PersistThread
  | starting pending => some (starting (pending ++ [event]))
  | running pending writer lastFlush => some (running (pending ++ [event]) writer lastFlush)
  | _ => none

/-- A thread opens its file and then receives event after event. What becomes of the bytes is not
looked at. -/
def turn (connected : Bool) (t : Turn) : PersistThread → PersistThread
  | starting pending =>
    match t.opened with
    | none => panicked
    | some room => running pending (.new (64 * 1024) ⟨[], room⟩) t.clock
  | running (.data timestamp value :: pending) writer lastFlush =>
    running pending (writer.writePieces (recordPieces f config timestamp value)).1 lastFlush
  | running (.flush :: pending) writer lastFlush => running pending writer.flushBuf.1 lastFlush
  | running (.shutdown :: _) writer _ => ended writer.flushBuf.1.drop
  | running [] writer lastFlush =>
    if connected then
      if config.flushIntervalMs.toNat * 1000000 ≤ t.clock - lastFlush then
        running [] writer.flushBuf.1 t.clockAfter
      else running [] writer lastFlush
    else ended writer.drop
  | ended file => ended file
  | panicked => panicked

/-- Wait for a thread that finds its shutdown among the pending events. -/
def join (t : Turn) (thread : PersistThread) : PersistThread :=
  (turn f config true t)^[thread.pending.length + 1] thread

end PersistThread

/-- The values that were to be persisted and the events that could be sent, the thread, and whether
there still are a handle of the thread and a sender. -/
structure QueuePersistence where
  persisted : List (UInt64 × ℚ)
  sent : List PersistEvent
  thread : PersistThread
  handle : Bool
  connected : Bool
  deriving DecidableEq

/-- What happens to a queue while its handle is shared. -/
inductive QueueOp
  | persist (timestamp : UInt64) (value : ℚ)
  | flush
  | turn (t : Turn)

namespace QueuePersistence

def new : QueuePersistence := ⟨[], [], .starting [], true, true⟩

variable (q : QueuePersistence)

def send (event : PersistEvent) : QueuePersistence :=
  match q.thread.send event with
  | some thread => { q with sent := q.sent ++ [event], thread }
  | none => q

def persist (timestamp : UInt64) (value : ℚ) : QueuePersistence :=
  { q.send (.data timestamp value) with persisted := q.persisted ++ [(timestamp, value)] }

def flush : QueuePersistence := q.send .flush

def turn (t : Turn) : QueuePersistence :=
  { q with thread := q.thread.turn f config q.connected t }

def step : QueueOp → QueuePersistence
  | .persist timestamp value => q.persist timestamp value
  | .flush => q.flush
  | .turn t => q.turn f config t

/-- The handle of the thread is taken by the first who waits for it. -/
def join (t : Turn) : QueuePersistence :=
  if q.handle then { q with thread := q.thread.join f config t, handle := false } else q

def shutdown (t : Turn) : QueuePersistence := (q.send .shutdown).join f config t

/-- The sender goes last. -/
def drop (t : Turn) : QueuePersistence :=
  { (if q.handle then q.shutdown f config t else q) with connected := false }

def persistedBytes : List UInt8 :=
  q.persisted.flatMap fun record => bytesOf f config (.data record.1 record.2)

/-- The thread has been sent its shutdown after everything else, and it has ended with all values in
the log file, in order. -/
def Durable : Prop :=
  q.sent.getLast? = some .shutdown ∧ q.thread.logged = some (q.persistedBytes f config)

instance : Decidable (q.Durable f config) := inferInstanceAs (Decidable (_ ∧ _))

end QueuePersistence

/-- Handles are references into a heap. The manager has one to each of its queues, others are held
outside. -/
structure PersistenceManager where
  handles : Table String ℕ
  heap : List (Arc QueuePersistence)
  held : List ℕ

inductive ManagerOp
  | enableForQueue (queueName : String) (created : Bool)
  | getHandle (queueName : String)
  | cloneHandle (p : ℕ)
  | dropHandle (p : ℕ) (t : Turn)
  | use (p : ℕ) (op : QueueOp)
  | shutdownAll (order : ∀ handles : Table String ℕ, handles.Iteration) (t : Turn)

namespace PersistenceManager

def new : PersistenceManager := ⟨∅, [], []⟩

variable (m : PersistenceManager)

def share (p : ℕ) : PersistenceManager :=
  { m with heap := m.heap.modify p Arc.clone, held := p :: m.held }

/-- A queue that is not there yet is made if its directory can be. -/
def enableForQueue (queueName : String) (created : Bool) : PersistenceManager × Option ℕ :=
  match m.handles[queueName]? with
  | some p => (m.share p, some p)
  | none =>
    if created then
      let p := m.heap.length
      let m' : PersistenceManager :=
        ⟨m.handles.insert queueName p, m.heap ++ [⟨1, .new⟩], m.held⟩
      (m'.share p, some p)
    else (m, none)

def getHandle (queueName : String) : PersistenceManager × Option ℕ :=
  match m.handles[queueName]? with
  | some p => (m.share p, some p)
  | none => (m, none)

def cloneHandle (p : ℕ) : PersistenceManager := if p ∈ m.held then m.share p else m

def dropHandle (p : ℕ) (t : Turn) : PersistenceManager :=
  if p ∈ m.held then
    { m with
      heap := m.heap.modify p (Arc.release fun q => q.drop f config t)
      held := m.held.erase p }
  else m

/-- Threads take turns by themselves, everything else needs a handle. -/
def mayUse (p : ℕ) : QueueOp → Bool
  | .turn _ => true
  | _ => p ∈ m.held

def use (p : ℕ) (op : QueueOp) : PersistenceManager :=
  if m.mayUse p op then
    { m with heap := m.heap.modify p (Arc.update fun q => q.step f config op) }
  else m

/-- References are cloned from the map and then released. -/
def shutdownAll (order : m.handles.Iteration) (t : Turn) : PersistenceManager :=
  let handleValues := order.entries.map Prod.snd
  let cloned := Arc.modifyEach Arc.clone m.heap handleValues
  { m with heap := Arc.modifyEach (Arc.release fun q => q.drop f config t) cloned handleValues }

/-- With the manager the references of its map go. -/
def drop (order : m.handles.Iteration) (t : Turn) : PersistenceManager :=
  { m with
    handles := ∅
    heap := Arc.modifyEach (Arc.release fun q => q.drop f config t) m.heap
      (order.entries.map Prod.snd) }

def step : ManagerOp → PersistenceManager
  | .enableForQueue queueName created => (m.enableForQueue queueName created).1
  | .getHandle queueName => (m.getHandle queueName).1
  | .cloneHandle p => m.cloneHandle p
  | .dropHandle p t => m.dropHandle f config p t
  | .use p op => m.use f config p op
  | .shutdownAll order t => m.shutdownAll f config (order m.handles) t

def queues : List QueuePersistence := m.heap.map Arc.value

end PersistenceManager

section Queue

variable {f config} {room : ℕ} {sent events : List PersistEvent} {event : PersistEvent}
  {bytes : List UInt8} {thread next : PersistThread} {writer : BufWriter} {lastFlush : ℕ} {t : Turn}
  {q : QueuePersistence} {op : QueueOp}

namespace PersistThread

variable (f config) in
/-- No event that the thread has been sent is lost. It has been received and is with the writer, or
it is pending. -/
def Keeps (room : ℕ) (sent : List PersistEvent) : PersistThread → Prop
  | starting pending => pending = sent
  | running pending writer _ => ∃ received, sent = received ++ pending ∧
      writer.Holds (received.flatMap (bytesOf f config)) room
  | _ => False

theorem Keeps.send (h : thread.Keeps f config room sent) (event : PersistEvent) :
    ∃ next, thread.send event = some next ∧ next.Keeps f config room (sent ++ [event]) := by
  cases thread with
  | starting pending =>
    cases h
    exact ⟨_, rfl, rfl⟩
  | running pending writer lastFlush =>
    obtain ⟨received, rfl, hholds⟩ := h
    exact ⟨_, rfl, received, List.append_assoc .., hholds⟩
  | ended file => exact h.elim
  | panicked => exact h.elim

theorem turn_running (hholds : writer.Holds bytes room) (hevent : event ≠ .shutdown)
    (hfits : (bytes ++ bytesOf f config event).length ≤ room) (pending : List PersistEvent) :
    ∃ next, turn f config true t (running (event :: pending) writer lastFlush) =
        running pending next lastFlush ∧ next.Holds (bytes ++ bytesOf f config event) room := by
  cases event with
  | data timestamp value => exact ⟨_, rfl, hholds.writePieces hfits⟩
  | flush =>
    rw [bytesOf, List.append_nil] at hfits ⊢
    · exact ⟨_, rfl, hholds.flushBuf hfits⟩
    all_goals simp
  | shutdown => exact absurd rfl hevent

theorem Keeps.turn (h : thread.Keeps f config room sent) (hopened : t.Roomy room)
    (hsent : .shutdown ∉ sent) (hfits : (sent.flatMap (bytesOf f config)).length ≤ room) :
    (thread.turn f config true t).Keeps f config room sent := by
  cases thread with
  | starting pending =>
    obtain ⟨given, hgiven, hroom⟩ := hopened
    rw [PersistThread.turn, Option.mem_def.mp hgiven]
    exact ⟨[], h.symm, BufWriter.holds_new hroom⟩
  | running pending writer lastFlush =>
    obtain ⟨received, rfl, hholds⟩ := h
    cases pending with
    | nil =>
      rw [List.append_nil] at hfits
      rw [PersistThread.turn, if_pos rfl]
      split_ifs
      · exact ⟨received, rfl, hholds.flushBuf hfits⟩
      · exact ⟨received, rfl, hholds⟩
    | cons event pending =>
      have hevent : event ≠ .shutdown := by
        rintro rfl
        exact hsent (by simp)
      rw [List.flatMap_append, List.flatMap_cons, ← List.append_assoc, List.length_append] at hfits
      obtain ⟨next, hturn, hnext⟩ :=
        turn_running hholds hevent (Nat.le_of_add_right_le hfits) pending
      rw [hturn]
      refine ⟨received ++ [event], by simp, ?_⟩
      rwa [List.flatMap_append, List.flatMap_singleton]
  | ended file => exact h.elim
  | panicked => exact h.elim

theorem logged_turns (hholds : writer.Holds bytes room) (hevents : .shutdown ∉ events)
    (hfits : (bytes ++ events.flatMap (bytesOf f config)).length ≤ room) :
    ((PersistThread.turn f config true t)^[events.length + 1]
      (running (events ++ [.shutdown]) writer lastFlush)).logged =
      some (bytes ++ events.flatMap (bytesOf f config)) := by
  induction events generalizing writer bytes with
  | nil =>
    rw [List.flatMap_nil, List.append_nil] at hfits ⊢
    exact congrArg some ((hholds.flushBuf hfits).contents_drop hfits)
  | cons event events ih =>
    obtain ⟨hevent, hrest⟩ := not_or.mp (List.mem_cons.not.mp hevents)
    rw [List.flatMap_cons, ← List.append_assoc] at hfits ⊢
    have hreceived : (bytes ++ bytesOf f config event).length ≤ room := by
      rw [List.length_append] at hfits
      exact Nat.le_of_add_right_le hfits
    obtain ⟨next, hturn, hnext⟩ :=
      turn_running (t := t) hholds (Ne.symm hevent) hreceived (events ++ [.shutdown])
    rw [List.length_cons, Function.iterate_succ_apply, List.cons_append, hturn]
    exact ih hnext hrest hfits

theorem logged_turn (h : thread.logged = some bytes) :
    (thread.turn f config true t).logged = some bytes := by
  cases thread with
  | ended file => exact h
  | _ => cases h

theorem Keeps.logged_join (h : thread.Keeps f config room sent) (hopened : t.Roomy room)
    (hsent : .shutdown ∉ sent) (hfits : (sent.flatMap (bytesOf f config)).length ≤ room)
    (hsend : thread.send .shutdown = some next) :
    (next.join f config t).logged = some (sent.flatMap (bytesOf f config)) := by
  cases thread with
  | starting pending =>
    cases h
    cases hsend
    obtain ⟨given, hgiven, hroom⟩ := hopened
    rw [join, pending, List.length_append, List.length_singleton, Function.iterate_succ_apply,
      PersistThread.turn, Option.mem_def.mp hgiven]
    exact logged_turns (BufWriter.holds_new hroom) hsent hfits
  | running pending writer lastFlush =>
    obtain ⟨received, rfl, hholds⟩ := h
    cases hsend
    rw [List.flatMap_append] at hfits ⊢
    rw [join, PersistThread.pending, List.length_append, List.length_singleton,
      Function.iterate_succ_apply']
    exact logged_turn (logged_turns hholds
      (fun hmem => hsent (List.mem_append_right received hmem)) hfits)
  | ended file => exact h.elim
  | panicked => exact h.elim

end PersistThread

namespace QueuePersistence

theorem mem_sent_send {event' : PersistEvent} (h : event' ∈ (q.send event).sent) :
    event' ∈ q.sent ∨ event' = event := by
  unfold send at h
  split at h
  · simpa using h
  · exact .inl h

theorem unsent_step (f : F64) (config : PersistenceConfig) (op : QueueOp)
    (h : .shutdown ∉ q.sent) : .shutdown ∉ (q.step f config op).sent := by
  intro hmem
  cases op with
  | persist timestamp value => exact (mem_sent_send hmem).elim h (nomatch ·)
  | flush => exact (mem_sent_send hmem).elim h (nomatch ·)
  | turn t => exact h hmem

variable (f config) in
/-- The thread has lost nothing so far, and there is room in the file for everything. -/
structure Logging (room : ℕ) (q : QueuePersistence) : Prop where
  handle : q.handle = true
  connected : q.connected = true
  unsent : .shutdown ∉ q.sent
  persisted : q.persistedBytes f config = q.sent.flatMap (bytesOf f config)
  fits : (q.persistedBytes f config).length ≤ room
  keeps : q.thread.Keeps f config room q.sent

variable (f config q) in
def Fits (room : ℕ) : QueueOp → Prop
  | .persist timestamp value => ((q.persist timestamp value).persistedBytes f config).length ≤ room
  | .flush => True
  | .turn t => t.Roomy room

theorem logging_new : new.Logging f config room :=
  ⟨rfl, rfl, List.not_mem_nil, rfl, Nat.zero_le _, rfl⟩

theorem Logging.step (h : q.Logging f config room) (hop : q.Fits f config room op) :
    (q.step f config op).Logging f config room := by
  have hunsent := unsent_step f config op h.unsent
  cases op with
  | persist timestamp value =>
    obtain ⟨next, hsend, hkeeps⟩ := h.keeps.send (.data timestamp value)
    have hpersisted := h.persisted
    simp only [QueuePersistence.step, persist, send, hsend] at hunsent ⊢
    refine ⟨h.handle, h.connected, hunsent, ?_, hop, hkeeps⟩
    simp only [persistedBytes, List.flatMap_append, List.flatMap_singleton] at hpersisted ⊢
    rw [hpersisted]
  | flush =>
    obtain ⟨next, hsend, hkeeps⟩ := h.keeps.send .flush
    have hpersisted := h.persisted
    simp only [QueuePersistence.step, flush, send, hsend] at hunsent ⊢
    refine ⟨h.handle, h.connected, hunsent, ?_, h.fits, hkeeps⟩
    simpa [persistedBytes, bytesOf] using hpersisted
  | turn t =>
    have hfits := h.fits
    rw [h.persisted] at hfits
    refine ⟨h.handle, h.connected, h.unsent, h.persisted, h.fits, ?_⟩
    rw [QueuePersistence.step, QueuePersistence.turn, h.connected]
    exact h.keeps.turn hop h.unsent hfits

theorem Logging.durable_drop (h : q.Logging f config room) (hopened : t.Roomy room) :
    (q.drop f config t).Durable f config := by
  obtain ⟨next, hsend, _⟩ := h.keeps.send .shutdown
  have hfits := h.fits
  rw [h.persisted] at hfits
  have hlogged := h.keeps.logged_join hopened h.unsent hfits hsend
  rw [← h.persisted] at hlogged
  simp only [drop, shutdown, join, send, hsend, h.handle, if_true]
  exact ⟨List.getLast?_concat .., hlogged⟩

end QueuePersistence

end Queue

namespace PersistenceManager

open Runs

/-- Every queue is under one name in the map. -/
structure Entered (handles : Table String ℕ) (count : ℕ) : Prop where
  lt : ∀ (name : String) (i : ℕ), handles[name]? = some i → i < count
  handled : ∀ i < count, ∃ name : String, handles[name]? = some i
  injective : ∀ (name name' : String) (i : ℕ),
    handles[name]? = some i → handles[name']? = some i → name = name'

/-- The references to a queue are those held outside and that of the map. -/
structure Inv (m : PersistenceManager) : Prop where
  entered : Entered m.handles m.heap.length
  held_lt : ∀ i ∈ m.held, i < m.heap.length
  counted : ∀ i a, m.heap[i]? = some a → a.strong = m.held.count i + 1

variable {f config} {m : PersistenceManager} {op : ManagerOp} {ops : List ManagerOp} {p : ℕ}
  {queueName : String} {I : QueuePersistence → Prop} {room : ℕ} {t : Turn}

theorem inv_new : new.Inv where
  entered := ⟨by simp [new], by simp [new], by simp [new]⟩
  held_lt := by simp [new]
  counted := by simp [new]

theorem Entered.insert {handles : Table String ℕ} {count : ℕ} (h : Entered handles count)
    (hnew : handles[queueName]? = none) : Entered (handles.insert queueName count) (count + 1) := by
  constructor
  · intro name i hget
    rw [Table.get_insert] at hget
    split_ifs at hget
    · cases hget
      omega
    · exact Nat.lt_succ_of_lt (h.lt name i hget)
  · intro i hi
    rcases Nat.lt_succ_iff_lt_or_eq.mp hi with hi | rfl
    · obtain ⟨name, hget⟩ := h.handled i hi
      refine ⟨name, ?_⟩
      rw [Table.get_insert, if_neg, hget]
      rintro rfl
      rw [hnew] at hget
      cases hget
    · exact ⟨queueName, by rw [Table.get_insert, if_pos rfl]⟩
  · intro name name' i hget hget'
    rw [Table.get_insert] at hget hget'
    split_ifs at hget hget' with hname hname' hname'
    · exact hname.symm.trans hname'
    · cases hget
      exact absurd (h.lt name' _ hget') (Nat.lt_irrefl _)
    · cases hget'
      exact absurd (h.lt name _ hget) (Nat.lt_irrefl _)
    · exact h.injective name name' i hget hget'

theorem Inv.strong_pos (hm : m.Inv) : ∀ a ∈ m.heap, 0 < a.strong := by
  intro a ha
  obtain ⟨i, hget⟩ := List.mem_iff_getElem?.mp ha
  rw [hm.counted i a hget]
  exact Nat.succ_pos _

theorem Inv.modify {g : Arc QueuePersistence → Arc QueuePersistence} {held : List ℕ} (hm : m.Inv)
    (hheld : ∀ i ∈ held, i < m.heap.length)
    (hcounted : ∀ i a, m.heap[i]? = some a →
      (if p = i then g a else a).strong = held.count i + 1) :
    Inv ⟨m.handles, m.heap.modify p g, held⟩ := by
  constructor
  · simpa using hm.entered
  · simpa using hheld
  · intro i a hget
    simp only [List.getElem?_modify, Option.map_eq_map, Option.map_eq_some_iff] at hget
    obtain ⟨b, hb, rfl⟩ := hget
    exact hcounted i b hb

theorem Inv.share (hm : m.Inv) (hp : p < m.heap.length) : (m.share p).Inv := by
  refine hm.modify ?_ ?_
  · rintro i (_ | ⟨_, hi⟩)
    · exact hp
    · exact hm.held_lt i hi
  · intro i a hget
    have hcount := hm.counted i a hget
    by_cases hpi : p = i
    · simp [hpi, Arc.clone, hcount]
    · simp [hpi, hcount]

theorem queues_share (m : PersistenceManager) (p : ℕ) : (m.share p).queues = m.queues :=
  Arc.map_value_modify fun _ _ => rfl

theorem Inv.enableForQueue (hm : m.Inv) (queueName : String) (created : Bool) :
    (m.enableForQueue queueName created).1.Inv := by
  unfold PersistenceManager.enableForQueue
  cases hname : m.handles[queueName]? with
  | some p => exact hm.share (hm.entered.lt queueName p hname)
  | none =>
    cases created with
    | false => exact hm
    | true =>
      -- The new queue has the reference of the map only, until its handle is given away.
      refine Inv.share ⟨?_, ?_, ?_⟩ (by simp)
      · simpa using hm.entered.insert hname
      · intro i hi
        simpa using Nat.lt_succ_of_lt (hm.held_lt i hi)
      · intro i a hget
        have hfresh : m.held.count m.heap.length = 0 :=
          List.count_eq_zero.mpr fun hmem => Nat.lt_irrefl _ (hm.held_lt _ hmem)
        rw [List.getElem?_append] at hget
        split_ifs at hget with hlt
        · exact hm.counted i a hget
        · rw [List.getElem?_singleton, Option.ite_none_right_eq_some, Option.some.injEq] at hget
          obtain ⟨hzero, rfl⟩ := hget
          rw [show i = m.heap.length by omega, hfresh]

theorem Inv.dropHandle (hm : m.Inv) (p : ℕ) (t : Turn) : (m.dropHandle f config p t).Inv := by
  unfold PersistenceManager.dropHandle
  split_ifs with hp
  · refine hm.modify (fun i hi => hm.held_lt i (List.mem_of_mem_erase hi)) ?_
    intro i a hget
    have hcount := hm.counted i a hget
    have hpos := List.count_pos_iff.mpr hp
    rw [List.count_erase]
    by_cases hpi : p = i
    · subst hpi
      simp only [if_true, Arc.release, beq_self_eq_true, hcount]
      omega
    · simp [hpi, hcount]
  · exact hm

/-- A handle that goes is never the last. -/
theorem queues_dropHandle (hm : m.Inv) (p : ℕ) (t : Turn) :
    (m.dropHandle f config p t).queues = m.queues := by
  unfold PersistenceManager.dropHandle
  split_ifs with hp
  · refine Arc.map_value_modify fun a hget => ?_
    have hcount := hm.counted p a hget
    have hpos := List.count_pos_iff.mpr hp
    exact if_neg (by omega)
  · rfl

/-- Shutting down all queues does nothing. -/
theorem shutdownAll_eq (hm : m.Inv) (order : m.handles.Iteration) (t : Turn) :
    m.shutdownAll f config order t = m := by
  rw [shutdownAll, Arc.release_clone_each _ _ hm.strong_pos]

theorem Inv.step (hm : m.Inv) (op : ManagerOp) : (m.step f config op).Inv := by
  cases op with
  | enableForQueue queueName created => exact hm.enableForQueue queueName created
  | getHandle queueName =>
    rw [PersistenceManager.step, getHandle]
    cases hname : m.handles[queueName]? with
    | some p => exact hm.share (hm.entered.lt queueName p hname)
    | none => exact hm
  | cloneHandle p =>
    rw [PersistenceManager.step, cloneHandle]
    split_ifs with hp
    · exact hm.share (hm.held_lt p hp)
    · exact hm
  | dropHandle p t => exact hm.dropHandle p t
  | use p op =>
    rw [PersistenceManager.step, use]
    split_ifs
    · refine hm.modify hm.held_lt fun i a hget => ?_
      rw [← hm.counted i a hget]
      split_ifs <;> rfl
    · exact hm
  | shutdownAll order t =>
    rw [PersistenceManager.step, shutdownAll_eq hm]
    exact hm

theorem queues_step (f : F64) (config : PersistenceConfig) (hm : m.Inv) (op : ManagerOp) :
    (m.step f config op).queues = m.queues ∨
    (∃ queueName, op = .enableForQueue queueName true ∧
      (m.step f config op).queues = m.queues ++ [.new]) ∨
    ∃ p used, op = .use p used ∧
      (m.step f config op).queues = m.queues.modify p fun q => q.step f config used := by
  cases op with
  | enableForQueue queueName created =>
    rw [step, enableForQueue]
    cases m.handles[queueName]? with
    | some p => exact .inl (queues_share m p)
    | none =>
      cases created with
      | false => exact .inl rfl
      | true =>
        refine .inr (.inl ⟨queueName, rfl, (queues_share _ _).trans ?_⟩)
        simp [queues]
  | getHandle queueName =>
    rw [step, getHandle]
    cases m.handles[queueName]? with
    | some p => exact .inl (queues_share m p)
    | none => exact .inl rfl
  | cloneHandle p =>
    rw [step, cloneHandle]
    split_ifs
    · exact .inl (queues_share m p)
    · exact .inl rfl
  | dropHandle p t => exact .inl (queues_dropHandle hm p t)
  | use p used =>
    rw [step, use]
    split_ifs
    · exact .inr (.inr ⟨p, used, rfl, Arc.map_value_update _ _ _⟩)
    · exact .inl rfl
  | shutdownAll order t =>
    rw [step, shutdownAll_eq hm]
    exact .inl rfl

theorem forall_queues_step (hm : m.Inv) (hnew : I .new)
    (huse : ∀ p used, op = .use p used →
      ∀ q, m.queues[p]? = some q → I q → I (q.step f config used))
    (h : ∀ q ∈ m.queues, I q) : ∀ q ∈ (m.step f config op).queues, I q := by
  rcases queues_step f config hm op with heq | ⟨queueName, -, heq⟩ | ⟨p, used, hop, heq⟩
  · rwa [heq]
  · rw [heq]
    intro q hq
    rcases List.mem_append.mp hq with hq | hq
    · exact h q hq
    · rwa [List.mem_singleton.mp hq]
  · rw [heq]
    intro q hq
    obtain ⟨i, hget⟩ := List.mem_iff_getElem?.mp hq
    simp only [List.getElem?_modify, Option.map_eq_map, Option.map_eq_some_iff] at hget
    obtain ⟨old, hold, rfl⟩ := hget
    have hkept := h old (List.mem_of_getElem? hold)
    split_ifs with hpi
    · subst hpi
      exact huse p used hop old hold hkept
    · exact hkept

theorem inv_exec (f : F64) (config : PersistenceConfig) (ops : List ManagerOp) :
    (exec (step f config) new ops).Inv :=
  exec_inv (fun _ op hm => hm.step op) inv_new

theorem unsent_exec (f : F64) (config : PersistenceConfig) (ops : List ManagerOp) :
    ∀ q ∈ (exec (step f config) new ops).queues, .shutdown ∉ q.sent := by
  have hstep : ∀ (m : PersistenceManager) (op : ManagerOp),
      (m.Inv ∧ ∀ q ∈ m.queues, .shutdown ∉ q.sent) →
      (m.step f config op).Inv ∧ ∀ q ∈ (m.step f config op).queues, .shutdown ∉ q.sent := by
    rintro m op ⟨hm, hunsent⟩
    refine ⟨hm.step op, forall_queues_step hm List.not_mem_nil ?_ hunsent⟩
    intro p used _ q _ hq
    exact QueuePersistence.unsent_step f config used hq
  exact (exec_inv hstep ⟨inv_new, by simp [new, queues]⟩).2

theorem queues_enableForQueue_ne_nil (hm : m.Inv) (queueName : String) :
    (m.enableForQueue queueName true).1.queues ≠ [] := by
  rw [enableForQueue]
  cases hname : m.handles[queueName]? with
  | some p =>
    have hlt := hm.entered.lt queueName p hname
    intro hnil
    rw [queues_share, queues, List.map_eq_nil_iff] at hnil
    rw [hnil] at hlt
    exact Nat.not_lt_zero p hlt
  | none => simp [share, queues]

theorem queues_step_eq_nil (hm : m.Inv) (op : ManagerOp) : (m.step f config op).queues = [] ↔
    m.queues = [] ∧ ∀ queueName, op ≠ .enableForQueue queueName true := by
  constructor
  · intro hnil
    constructor
    · rcases queues_step f config hm op with heq | ⟨_, -, heq⟩ | ⟨_, _, -, heq⟩
      · rwa [← heq]
      · simp [heq] at hnil
      · rwa [heq, List.modify_eq_nil_iff] at hnil
    · rintro queueName rfl
      exact queues_enableForQueue_ne_nil hm queueName hnil
  · rintro ⟨hnil, hop⟩
    rcases queues_step f config hm op with heq | ⟨name, hname, -⟩ | ⟨_, _, -, heq⟩
    · rw [heq, hnil]
    · exact absurd hname (hop name)
    · simp [heq, hnil]

theorem queues_exec_eq_nil (f : F64) (config : PersistenceConfig) (ops : List ManagerOp) :
    (exec (step f config) new ops).queues = [] ↔
      ∀ op ∈ ops, ∀ queueName, op ≠ .enableForQueue queueName true := by
  induction ops using List.reverseRecOn with
  | nil => simp [new, queues]
  | append_singleton ops op ih =>
    rw [exec_append, exec_cons, exec_nil, queues_step_eq_nil (inv_exec f config ops)]
    refine (and_congr_left' ih).trans ?_
    simp [or_imp, forall_and]

/-- Shutting down all queues changes nothing, and the values of all queues are durable after it, or
at any time later, exactly if no queue has been made. -/
theorem shutdown_all_durable_iff (f : F64) (config : PersistenceConfig) (ops later : List ManagerOp)
    (order : ∀ handles : Table String ℕ, handles.Iteration) (t : Turn) :
    exec (step f config) new (ops ++ [.shutdownAll order t]) = exec (step f config) new ops ∧
    ((∀ q ∈ (exec (step f config) new (ops ++ .shutdownAll order t :: later)).queues,
        q.Durable f config) ↔
      ∀ op ∈ ops ++ later, ∀ queueName, op ≠ .enableForQueue queueName true) := by
  have hshutdown : (exec (step f config) new ops).step f config (.shutdownAll order t) =
      exec (step f config) new ops := shutdownAll_eq (inv_exec f config ops) _ t
  rw [exec_append, exec_append, exec_cons, exec_cons, exec_nil, hshutdown, ← exec_append,
    ← queues_exec_eq_nil f config]
  refine ⟨rfl, ?_, ?_⟩
  · intro hdurable
    rw [List.eq_nil_iff_forall_not_mem]
    intro q hq
    -- The last event of a durable queue is one that has never been sent.
    exact unsent_exec f config _ q hq (List.mem_of_getLast? (hdurable q hq).1)
  · intro hnil q hq
    rw [hnil] at hq
    cases hq

/-- A value is persisted and the handle dropped. All queues are shut down then, and the value is in
the buffer of a thread that goes on. -/
theorem shutdown_all_without_shutdown :
    let t : Turn := ⟨some 100, 0, 0⟩
    let m := exec (step .ideal .default) new [.enableForQueue "q" true, .use 0 (.persist 5 (1 / 2)),
      .dropHandle 0 t, .use 0 (.turn t), .use 0 (.turn t), .shutdownAll (fun _ => .sorted _) t]
    m.held = [] ∧ (∀ q ∈ m.queues, ¬ q.Durable .ideal .default) ∧
    m.queues = [⟨[(5, 1 / 2)], [.data 5 (1 / 2)],
      .running [] ⟨64 * 1024, Utf8.encode "5,0.500\n", ⟨[], 100⟩⟩ 0, true, true⟩] := by
  decide +kernel

theorem Entered.count_eq_one {handles : Table String ℕ} {count i : ℕ} (h : Entered handles count)
    (order : handles.Iteration) (hi : i < count) : (order.entries.map Prod.snd).count i = 1 := by
  obtain ⟨name, hname⟩ := h.handled i hi
  refine List.count_eq_one_of_mem ?_ (List.mem_map.mpr ⟨_, order.mem_entries.mpr hname, rfl⟩)
  refine List.Nodup.map_on ?_ (order.perm.nodup_iff.mpr (Table.nodup_toList _))
  rintro ⟨name, i⟩ hi ⟨name', i'⟩ hi' (rfl : i = i')
  rw [h.injective name name' i (order.mem_entries.mp hi) (order.mem_entries.mp hi')]

variable (f config) in
def Fits (room : ℕ) (m : PersistenceManager) : ManagerOp → Prop
  | .use p op => ∀ q, m.queues[p]? = some q → q.Fits f config room op
  | _ => True

theorem logging_exec (h : Along (step f config) (Fits f config room) new ops) :
    ∀ q ∈ (exec (step f config) new ops).queues, q.Logging f config room := by
  have hstep : ∀ (m : PersistenceManager) (op : ManagerOp),
      (m.Inv ∧ ∀ q ∈ m.queues, q.Logging f config room) → Fits f config room m op →
      (m.step f config op).Inv ∧
        ∀ q ∈ (m.step f config op).queues, q.Logging f config room := by
    rintro m op ⟨hm, hlogging⟩ hfits
    refine ⟨hm.step op, forall_queues_step hm QueuePersistence.logging_new ?_ hlogging⟩
    rintro p used rfl q hget hq
    exact hq.step (hfits q hget)
  exact (h.exec_inv hstep ⟨inv_new, by simp [new, queues]⟩).2

/-- It is the end of the manager that makes the values of all queues durable, once there are no
other handles. -/
theorem durable_drop (h : Along (step f config) (Fits f config room) new ops)
    (hheld : (exec (step f config) new ops).held = [])
    (order : (exec (step f config) new ops).handles.Iteration) (hopened : t.Roomy room) :
    ∀ q ∈ ((exec (step f config) new ops).drop f config order t).queues, q.Durable f config := by
  have hm := inv_exec f config ops
  have hlogging := logging_exec h
  generalize exec (step f config) new ops = m at *
  intro q hq
  obtain ⟨a, ha, rfl⟩ := List.mem_map.mp hq
  obtain ⟨i, hget⟩ := List.mem_iff_getElem?.mp ha
  rw [drop, Arc.get_modifyEach, Option.map_eq_some_iff] at hget
  obtain ⟨old, hold, rfl⟩ := hget
  have hstrong : old.strong = 1 := by rw [hm.counted i old hold, hheld, List.count_nil]
  rw [hm.entered.count_eq_one order (List.getElem?_eq_some_iff.mp hold).1, ← hstrong,
    Arc.iterate_release_strong (by omega)]
  exact (hlogging _ (List.mem_map_of_mem (List.mem_of_getElem? hold))).durable_drop hopened

end PersistenceManager

end DumbDistributedLog.Persistence
