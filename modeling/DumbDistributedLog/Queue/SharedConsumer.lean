import DumbDistributedLog.Library.Runs
import DumbDistributedLog.Library.Tickets
import DumbDistributedLog.Queue.Spmc

/-! # A consumer that threads share

The calls of a consumer take it by reference and may overlap. Each of them loads the head, reads the
slots from there on, and adds the number of items to the head in the end. As long as a consumer
exists the producer cannot push, so the head is all that changes between the two.
-/

namespace DumbDistributedLog.Spmc

open Runs Tickets

variable {ι T : Type*} {N : ℕ}

/-- What a call has loaded, what it found when it added to the head, and the items it returned, or
nothing if it has panicked. -/
structure Answer (T : Type*) where
  loaded : UInt64
  found : UInt64
  items : Option (List (UInt64 × T))
  deriving DecidableEq, Repr

def Answer.result (a : Answer T) : List (UInt64 × T) := a.items.getD []

/-- A consumer with the calls that have loaded its head and those that have ended. -/
structure SharedConsumer (ι T : Type*) (N : ℕ) where
  consumer : SPMCConsumer T N
  pending : ι → Option (UInt64 × SpmcCall)
  answers : List (Answer T)

inductive SharedStep (ι : Type*) where
  | load (thread : ι) (call : SpmcCall)
  | finish (thread : ι)
  deriving DecidableEq, Repr

namespace SharedConsumer

def new (q : SPMCLockFreeQueue T N) : SharedConsumer ι T N := ⟨q.consumer, fun _ => none, []⟩

def takes (s : SharedConsumer ι T N) : List Take :=
  s.answers.map fun a => ⟨a.loaded.toNat, a.result.length, a.found.toNat⟩

def results (s : SharedConsumer ι T N) : List (UInt64 × T) := s.answers.flatMap Answer.result

variable [DecidableEq ι]

/-- The end of a call, with what it has loaded. Nothing is added to the head if it panics. -/
def finish (s : SharedConsumer ι T N) (thread : ι) (loaded : UInt64) (call : SpmcCall) :
    SharedConsumer ι T N :=
  let items := (({ s.consumer with head := loaded } : SPMCConsumer T N).call call).map Prod.snd
  { consumer := { s.consumer with
      head := s.consumer.head + UInt64.ofNat (items.getD []).length }
    pending := Function.update s.pending thread none
    answers := s.answers ++ [⟨loaded, s.consumer.head, items⟩] }

def step (s : SharedConsumer ι T N) : SharedStep ι → SharedConsumer ι T N
  | .load thread call =>
    match s.pending thread with
    | none => { s with pending := Function.update s.pending thread (some (s.consumer.head, call)) }
    | some _ => s
  | .finish thread =>
    match s.pending thread with
    | none => s
    | some (loaded, call) => s.finish thread loaded call

end SharedConsumer

section Calls

variable {c : SPMCConsumer T N}

theorem call_beyond (h : c.queue.tail ≤ c.head) (call : SpmcCall) :
    c.call call = some (c, []) := by
  have hbatch : ∀ maxCount, c.popBatch maxCount = some (c, []) := by
    intro maxCount
    refine if_pos (UInt64.toNat_inj.mp ?_)
    rw [U64.toNat_min, U64.toNat_min, U64.toNat_saturatingSub, UInt64.toNat_zero]
    have hle := UInt64.le_iff_toNat_le.mp h
    omega
  cases call with
  | pop => simp [SPMCConsumer.call, SPMCConsumer.pop, SPMCConsumer.popInner, h]
  | popBatch maxCount => exact hbatch maxCount
  | drain => exact hbatch U64.maxValue

theorem call_items (h : Readable c.queue) (call : SpmcCall) :
    ∃ count, (c.call call).map Prod.snd = some (c.queue.reads c.head.toNat count) ∧
      (c.queue.reads c.head.toNat count).length = count := by
  by_cases hle : c.head.toNat ≤ c.queue.tail.toNat
  · obtain ⟨c', result, hcall, hcalled⟩ := call_called h hle call
    have hafter := hcalled.after
    have hwithin := hcalled.within
    refine ⟨c'.head.toNat - c.head.toNat, ?_, h.length_reads (by omega)⟩
    rw [hcall, ← hcalled.items]
    rfl
  · have hbeyond : c.queue.tail ≤ c.head := UInt64.le_iff_toNat_le.mpr (by omega)
    exact ⟨0, by rw [call_beyond hbeyond]; rfl, rfl⟩

end Calls

/-- What holds between the steps: each call has returned what is at its positions, the calls have
raised the head one after the other, and none has loaded more than there is. -/
structure Tallied (q : SPMCLockFreeQueue T N) (s : SharedConsumer ι T N) : Prop where
  queue : s.consumer.queue = q
  items : ∀ a ∈ s.answers, a.items = some (q.reads a.loaded.toNat a.result.length)
  raised : Raised s.takes
  head : s.consumer.head.toNat = (positions s.takes).length
  pending : ∀ thread loaded call, s.pending thread = some (loaded, call) →
    loaded.toNat ≤ (positions s.takes).length

section Steps

variable {q : SPMCLockFreeQueue T N} {s : SharedConsumer ι T N}

theorem results_length : s.results.length = (positions s.takes).length := by
  simp [SharedConsumer.results, SharedConsumer.takes, positions, List.length_flatMap,
    List.map_map, Function.comp_def]

theorem tallied_new : Tallied q (SharedConsumer.new q : SharedConsumer ι T N) where
  queue := rfl
  items := by simp [SharedConsumer.new]
  raised := .nil
  head := rfl
  pending := by simp [SharedConsumer.new]

theorem Tallied.results_eq (hs : Tallied q s) :
    s.results = (positions s.takes).filterMap q.cell := by
  rw [SharedConsumer.results, SharedConsumer.takes, positions, List.flatMap_map,
    List.filterMap_flatMap]
  refine List.flatMap_congr fun a ha => ?_
  rw [← SPMCLockFreeQueue.reads]
  conv_lhs => rw [Answer.result, hs.items a ha, Option.getD_some]

variable [DecidableEq ι] {thread : ι} {loaded : UInt64} {call : SpmcCall}

theorem finish_eq (h : Readable q) (hqueue : s.consumer.queue = q) (thread : ι) (loaded : UInt64)
    (call : SpmcCall) :
    ∃ count, (q.reads loaded.toNat count).length = count ∧
      s.finish thread loaded call =
        { consumer := { s.consumer with head := s.consumer.head + UInt64.ofNat count }
          pending := Function.update s.pending thread none
          answers := s.answers ++
            [⟨loaded, s.consumer.head, some (q.reads loaded.toNat count)⟩] } := by
  subst hqueue
  obtain ⟨count, hitems, hlength⟩ := call_items (c := { s.consumer with head := loaded }) h call
  refine ⟨count, hlength, ?_⟩
  rw [SharedConsumer.finish, hitems, Option.getD_some, hlength]

theorem Tallied.finish (h : Readable q) (hs : Tallied q s)
    (hpending : s.pending thread = some (loaded, call))
    (hlt : (positions (s.finish thread loaded call).takes).length < 2 ^ 64) :
    Tallied q (s.finish thread loaded call) := by
  obtain ⟨count, hlength, hfinish⟩ := finish_eq h hs.queue thread loaded call
  have htakes : (s.finish thread loaded call).takes =
      s.takes ++ [⟨loaded.toNat, count, s.consumer.head.toNat⟩] := by
    rw [hfinish]
    simp [SharedConsumer.takes, Answer.result, hlength]
  have hle := hs.pending thread loaded call hpending
  have htotal := hs.head
  have hroom : (positions s.takes).length + count < 2 ^ 64 := by
    rwa [htakes, length_positions_snoc] at hlt
  constructor
  · rw [hfinish]
    exact hs.queue
  · intro a ha
    rw [hfinish] at ha
    rcases List.mem_append.mp ha with ha | ha
    · exact hs.items a ha
    · obtain rfl := List.mem_singleton.mp ha
      rw [Answer.result, Option.getD_some, hlength]
  · rw [htakes]
    exact .snoc hs.raised (htotal ▸ hle) htotal
  · have hcount : (UInt64.ofNat count).toNat = count :=
      UInt64.toNat_ofNat_of_lt' (show count < 2 ^ 64 by omega)
    rw [htakes, length_positions_snoc, hfinish, UInt64.toNat_add, hcount, htotal,
      Nat.mod_eq_of_lt hroom]
  · intro thread' loaded' call' hpending'
    rw [htakes, length_positions_snoc]
    rw [hfinish] at hpending'
    change Function.update s.pending thread none thread' = _ at hpending'
    by_cases heq : thread' = thread
    · simp [heq] at hpending'
    · rw [Function.update_of_ne heq] at hpending'
      exact Nat.le_add_right_of_le (hs.pending thread' loaded' call' hpending')

theorem Tallied.load (hs : Tallied q s) : Tallied q
    { s with pending := Function.update s.pending thread (some (s.consumer.head, call)) } where
  queue := hs.queue
  items := hs.items
  raised := hs.raised
  head := hs.head
  pending := by
    intro thread' loaded' call' hpending
    change Function.update s.pending thread _ thread' = _ at hpending
    by_cases heq : thread' = thread
    · subst heq
      rw [Function.update_self] at hpending
      cases hpending
      exact Nat.le_of_eq hs.head
    · rw [Function.update_of_ne heq] at hpending
      exact hs.pending thread' loaded' call' hpending

theorem length_positions_step (step : SharedStep ι) :
    (positions s.takes).length ≤ (positions (s.step step).takes).length := by
  cases step with
  | load thread call =>
    rw [SharedConsumer.step]
    split <;> exact Nat.le_refl _
  | finish thread =>
    rw [SharedConsumer.step]
    split
    · exact Nat.le_refl _
    · simp [SharedConsumer.finish, SharedConsumer.takes, positions]

theorem Tallied.step (h : Readable q) (hs : Tallied q s) (step : SharedStep ι)
    (hlt : (positions (s.step step).takes).length < 2 ^ 64) : Tallied q (s.step step) := by
  cases step with
  | load thread call =>
    rw [SharedConsumer.step]
    split
    · exact hs.load
    · exact hs
  | finish thread =>
    rw [SharedConsumer.step] at hlt ⊢
    split
    · exact hs
    · next loaded call hpending =>
      rw [hpending] at hlt
      exact hs.finish h hpending hlt

theorem Tallied.exec (h : Readable q) (steps : List (SharedStep ι))
    (hlt : (positions (exec SharedConsumer.step (.new q) steps).takes).length < 2 ^ 64) :
    Tallied q (exec SharedConsumer.step (.new q) steps) := by
  refine exec_inv (I := fun s : SharedConsumer ι T N =>
    (positions s.takes).length < 2 ^ 64 → Tallied q s) ?_ (fun _ => tallied_new) hlt
  intro s step hs hlt
  exact (hs (Nat.lt_of_le_of_lt (length_positions_step step) hlt)).step h step hlt

end Steps

/-- Whatever the threads do, no call panics, and every call returns the items from where it has
loaded the head. No item is returned twice exactly if every call that returns some has found the
head as it loaded it, and exactly if none was passed over. The items then come in their order. -/
theorem shared_consumer_exact [DecidableEq ι] {k : ℕ} (hk : k < 64) (items : List (UInt64 × T))
    (hitems : ∀ item ∈ items, item.1 ≠ 0) (steps : List (SharedStep ι)) :
    let q := SPMCLockFreeQueue.filled (2 ^ k) items
    let s := exec SharedConsumer.step (.new q) steps
    let taken := positions s.takes
    s.results.length < 2 ^ 64 →
      (∀ a ∈ s.answers, a.items = some (q.reads a.loaded.toNat a.result.length)) ∧
      s.consumer.head.toNat = s.results.length ∧
      (taken.Nodup ↔ ∀ a ∈ s.answers, a.result ≠ [] → a.found = a.loaded) ∧
      (taken.Nodup ↔ ∀ position < s.consumer.head.toNat, position ∈ taken) ∧
      (taken.Nodup → s.results = q.reads 0 s.consumer.head.toNat) := by
  intro q s taken hlt
  have hread : Readable q :=
    (Keeps.filled (Nat.two_pow_pos k) items).readable ⟨k, hk, rfl⟩ hitems
  rw [results_length] at hlt
  have hs : Tallied q s := .exec hread steps hlt
  have hfresh : taken.Nodup ↔ ∀ a ∈ s.answers, a.result ≠ [] → a.found = a.loaded := by
    rw [hs.raised.nodup_iff, SharedConsumer.takes, List.forall_mem_map]
    simp only [ne_eq, List.length_eq_zero_iff, UInt64.toNat_inj]
  refine ⟨hs.items, by rw [hs.head, results_length], hfresh, ?_, ?_⟩
  · rw [hs.head]
    exact hs.raised.nodup_iff_forall_mem
  · intro hnodup
    rw [hs.results_eq, hs.head,
      hs.raised.positions_eq_range (hs.raised.nodup_iff.mp hnodup), List.length_range,
      SPMCLockFreeQueue.reads, List.range_eq_range']

/-- Two threads that load the head before either adds to it return the same item, and the next one
is passed over. -/
theorem shared_consumer_exact_overlapping :
    let q : SPMCLockFreeQueue ℕ (2 ^ 2) := .filled (2 ^ 2) [(10, 0), (11, 1), (12, 2)]
    let s := exec SharedConsumer.step (.new q)
      [.load true .pop, .load false .pop, .finish true, .finish false]
    let taken := positions s.takes
    (taken.Nodup ↔ ∀ a ∈ s.answers, a.result ≠ [] → a.found = a.loaded) ∧
      (taken.Nodup ↔ ∀ position < s.consumer.head.toNat, position ∈ taken) ∧
      taken = [0, 0] ∧ s.results = [(10, 0), (10, 0)] := by
  have hexact := shared_consumer_exact (k := 2) (by decide) [(10, 0), (11, 1), (12, 2)] (by decide)
    [.load true .pop, .load false .pop, .finish true, .finish false] (by decide +kernel)
  exact ⟨hexact.2.2.1, hexact.2.2.2.1, by decide +kernel, by decide +kernel⟩

end DumbDistributedLog.Spmc
