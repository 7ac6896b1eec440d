import DumbDistributedLog.Wal.Durable
import DumbDistributedLog.Wal.Recovery

/-! # Pushes at the same time

A push to the log with a write-ahead log has two parts: it is made in memory, where it gets its id
and may have to wait for a subscriber, and its entry is appended to the file. Other pushes may come
between the two, the caller may give up, and the process may end. The file then has the entries in
another order than their ids, and a recovery brings them back into it. An append that succeeds is
taken to add its whole record to the file, through whichever handle of the topic it is made.
-/

namespace DumbDistributedLog.Ddl.Wal

open Runs

structure PushCall where
  topic : String
  id : UInt64
  payload : List UInt8
  deriving DecidableEq, Repr

def PushCall.ofEntry (e : Entry) : PushCall := ⟨e.topic, e.id, e.payload⟩

def callsTo (topic : String) (calls : List PushCall) : List PushCall :=
  calls.filter fun c => c.topic = topic

/-- The log with the pushes that have got an id since it was opened, in their order. Some of them
wait in memory, some have yet to append their entry, and some have ended without one. Those that
have returned an id are kept from the beginning. -/
structure Pushers where
  ddl : DdlWithWal
  made : List PushCall
  pending : List PushCall
  failed : List PushCall
  returned : List PushCall

inductive PushStep where
  | push (topic : String) (payload : List UInt8) (now : UInt64)
  | resume (waiting : ℕ)
  | append (call : ℕ) (later : UInt64) (outcome : Except WalError Unit)
  | cancel (call : ℕ)
  | subscribe (topic : String)
  | ack (topic : String) (entryId : UInt64)
  | receive (topic : String) (subscriber : ℕ)
  | disconnect (topic : String) (subscriber : ℕ)
  | restart (config : StandaloneConfig)

namespace Pushers

def new (config : StandaloneConfig) (disk : Disk) : Pushers := ⟨.new config disk, [], [], [], []⟩

variable (json : Codec Entry) (s : Pushers)

def waiting : List PushCall := s.ddl.inner.waiting.map fun w => .ofEntry w.entry

/-- The first part of a push. An error of a subscriber comes after the id has been given out, and
so does a wait, unlike the end of the thread. -/
def push (topic : String) (payload : List UInt8) (now : UInt64) : Pushers :=
  let call : PushCall := ⟨topic, (s.ddl.inner.queue topic).writePos, payload⟩
  match s.ddl.inner.push topic payload now with
  | (inner, none) =>
    if inner.written topic = s.ddl.inner.written topic then { s with ddl := { s.ddl with inner } }
    else { s with ddl := { s.ddl with inner }, made := s.made ++ [call] }
  | (inner, some (.error _)) =>
    if inner.written topic = s.ddl.inner.written topic then { s with ddl := { s.ddl with inner } }
    else { s with
      ddl := { s.ddl with inner }
      made := s.made ++ [call]
      failed := s.failed ++ [call] }
  | (inner, some (.ok id)) => { s with
      ddl := { s.ddl with inner }
      made := s.made ++ [{ call with id }]
      pending := s.pending ++ [{ call with id }] }

def resume (i : ℕ) : Pushers :=
  match s.ddl.inner.waiting[i]? with
  | none => s
  | some w =>
    match s.ddl.inner.resume i with
    | (inner, none) => { s with ddl := { s.ddl with inner } }
    | (inner, some (.error _)) =>
      { s with ddl := { s.ddl with inner }, failed := s.failed ++ [.ofEntry w.entry] }
    | (inner, some (.ok _)) =>
      { s with ddl := { s.ddl with inner }, pending := s.pending ++ [.ofEntry w.entry] }

def append (i : ℕ) (later : UInt64) (outcome : Except WalError Unit) : Pushers :=
  match s.pending[i]? with
  | none => s
  | some call =>
    match s.ddl.disk.append json call.topic ⟨call.id, later, call.topic, call.payload⟩ outcome with
    | (disk, .error _) => { s with
        ddl := { s.ddl with disk }
        pending := s.pending.eraseIdx i
        failed := s.failed ++ [call] }
    | (disk, .ok ()) => { s with
        ddl := { s.ddl with disk }
        pending := s.pending.eraseIdx i
        returned := s.returned ++ [call] }

/-- The caller gives up a push between its parts. -/
def cancel (i : ℕ) : Pushers :=
  match s.pending[i]? with
  | none => s
  | some call => { s with pending := s.pending.eraseIdx i, failed := s.failed ++ [call] }

/-- A new process knows nothing of the pushes of the one before it. -/
def step : PushStep → Pushers
  | .push topic payload now => s.push topic payload now
  | .resume waiting => s.resume waiting
  | .append call later outcome => s.append json call later outcome
  | .cancel call => s.cancel call
  | .subscribe topic => { s with ddl := s.ddl.step json (.subscribe topic) }
  | .ack topic entryId => { s with ddl := s.ddl.step json (.ack topic entryId) }
  | .receive topic subscriber => { s with ddl := s.ddl.step json (.receive topic subscriber) }
  | .disconnect topic subscriber => { s with ddl := s.ddl.step json (.disconnect topic subscriber) }
  | .restart config => { new config s.ddl.disk with returned := s.returned }

/-- How often a call is among those that have got an id and are not in the log. -/
def unlogged (c : PushCall) : ℕ := s.pending.count c + s.waiting.count c + s.failed.count c

/-- Every push that has got an id is in the log once, or has yet to append its entry, or waits, or
has ended without an entry. -/
structure Accounted : Prop where
  grown : s.ddl.Extends json
  ids : ∀ t, (callsTo t s.made).map (fun c => c.id.toNat) = List.range (s.ddl.inner.written t)
  parts : ∀ c, ((s.ddl.logged json c.topic).map .ofEntry).count c + s.unlogged c = s.made.count c
  valid : ∀ c ∈ s.pending, validateTopic c.topic = .ok ()
  topics : ∀ w ∈ s.ddl.inner.waiting,
    w.entry.topic = w.topic ∧ validateTopic w.topic = .ok ()
  placed : ∀ dir, ∀ e ∈ s.ddl.sinceOpened json dir, replaceUnsafe e.topic = dir
  returned : ∀ c ∈ s.returned, ∃ e ∈ s.ddl.disk.entries json (replaceUnsafe c.topic), .ofEntry e = c

variable {json s}

theorem callsTo_append (t : String) (calls : List PushCall) (call : PushCall) :
    callsTo t (calls ++ [call]) = callsTo t calls ++ if call.topic = t then [call] else [] := by
  rw [callsTo, List.filter_append, callsTo]
  split
  · next h => simp [h]
  · next h => simp [h]

namespace Accounted

theorem new (config : StandaloneConfig) (disk : Disk) : Accounted json (.new config disk) where
  grown _ := Nat.le_refl _
  ids t := by simp [Pushers.new, callsTo, DdlWithWal.new, DdlDistributed.written_newStandalone]
  parts c := by
    simp [Pushers.new, DdlWithWal.new, DdlWithWal.logged, DdlWithWal.sinceOpened, unlogged,
      waiting, DdlDistributed.newStandalone]
  valid := by simp [Pushers.new]
  topics := by simp [Pushers.new, DdlWithWal.new, DdlDistributed.newStandalone]
  placed := by simp [Pushers.new, DdlWithWal.new, DdlWithWal.sinceOpened]
  returned := by simp [Pushers.new]

theorem moved (h : Accounted json s) {inner : DdlDistributed} {pending failed : List PushCall}
    (hwritten : ∀ t, inner.written t = s.ddl.inner.written t)
    (hparts : ∀ c,
      unlogged { s with ddl := { s.ddl with inner }, pending, failed } c = s.unlogged c)
    (hvalid : ∀ c ∈ pending, validateTopic c.topic = .ok ())
    (htopics : ∀ w ∈ inner.waiting, w.entry.topic = w.topic ∧ validateTopic w.topic = .ok ()) :
    Accounted json { s with ddl := { s.ddl with inner }, pending, failed } where
  grown := h.grown
  ids t := by rw [h.ids t, hwritten t]
  parts c := by
    rw [hparts c]
    exact h.parts c
  valid := hvalid
  topics := htopics
  placed := h.placed
  returned := h.returned

theorem withInner (h : Accounted json s) {inner : DdlDistributed}
    (hwaiting : inner.waiting = s.ddl.inner.waiting)
    (hwritten : ∀ t, inner.written t = s.ddl.inner.written t) :
    Accounted json { s with ddl := { s.ddl with inner } } :=
  h.moved hwritten (fun c => by simp only [unlogged, waiting, hwaiting]) h.valid
    (by rw [hwaiting]; exact h.topics)

theorem restart (h : Accounted json s) (config : StandaloneConfig) :
    Accounted json { Pushers.new config s.ddl.disk with returned := s.returned } :=
  { new config s.ddl.disk with returned := h.returned }

theorem made (h : Accounted json s) {inner : DdlDistributed} {call : PushCall}
    {pending failed : List PushCall} (hid : call.id = (s.ddl.inner.queue call.topic).writePos)
    (hwritten : ∀ t, inner.written t =
      if call.topic = t then s.ddl.inner.written t + 1 else s.ddl.inner.written t)
    (hparts : ∀ c, unlogged { s with ddl := { s.ddl with inner }, pending, failed } c =
      s.unlogged c + [call].count c)
    (hvalid : ∀ c ∈ pending, validateTopic c.topic = .ok ())
    (htopics : ∀ w ∈ inner.waiting, w.entry.topic = w.topic ∧ validateTopic w.topic = .ok ()) :
    Accounted json { s with
      ddl := { s.ddl with inner }, made := s.made ++ [call], pending, failed } where
  grown := h.grown
  ids t := by
    rw [callsTo_append, List.map_append, h.ids t, hwritten t]
    split
    · next ht =>
      rw [List.range_succ, List.map_singleton, hid, ht]
      rfl
    · rw [List.map_nil, List.append_nil]
  parts c := by
    change ((s.ddl.logged json c.topic).map PushCall.ofEntry).count c +
      unlogged { s with ddl := { s.ddl with inner }, pending, failed } c =
        (s.made ++ [call]).count c
    rw [hparts c, List.count_append, ← h.parts c, Nat.add_assoc]
  valid := hvalid
  topics := htopics
  placed := h.placed
  returned := h.returned

theorem push (h : Accounted json s) (topic : String) (payload : List UInt8) (now : UInt64) :
    Accounted json (s.push topic payload now) := by
  rw [Pushers.push]
  by_cases haccepts : s.ddl.inner.Accepts topic
  · obtain ⟨inner, result, heq, hmade, hends⟩ :=
      DdlDistributed.push_of_accepts haccepts payload now
    have hne : inner.written topic ≠ s.ddl.inner.written topic := by
      rw [hmade.written topic, DdlDistributed.entryOf_topic, if_pos rfl]
      omega
    rw [heq]
    rcases hends with ⟨hwaiting, -⟩ | ⟨hwaiting, -⟩ | ⟨subscriber, indices, hwaiting, -⟩
    · refine h.made rfl hmade.written (fun c => ?_) (fun c hc => ?_)
        (by rw [hwaiting]; exact h.topics)
      · simp only [unlogged, waiting, hwaiting, List.count_append]
        omega
      · rcases List.mem_append.mp hc with hc | hc
        · exact h.valid c hc
        · rw [List.mem_singleton.mp hc]
          exact haccepts.1
    · dsimp only [Option.map, Except.map]
      rw [if_neg hne]
      refine h.made rfl hmade.written (fun c => ?_) h.valid (by rw [hwaiting]; exact h.topics)
      simp only [unlogged, waiting, hwaiting, List.count_append]
      omega
    · dsimp only [Option.map]
      rw [if_neg hne]
      refine h.made rfl hmade.written (fun c => ?_) h.valid ?_
      · have hcall : PushCall.ofEntry (s.ddl.inner.entryOf topic payload now) =
          ⟨topic, (s.ddl.inner.queue topic).writePos, payload⟩ := rfl
        simp only [unlogged, waiting, hwaiting, List.map_append, List.count_append,
          List.map_singleton, hcall]
        omega
      · rw [hwaiting]
        refine List.forall_mem_append.mpr ⟨h.topics, ?_⟩
        simpa using haccepts.1
  · obtain ⟨inner, result, heq, hrefused⟩ :=
      DdlDistributed.push_of_not_accepts haccepts payload now
    rw [heq]
    rcases result with _ | e | id
    · dsimp only
      rw [if_pos (hrefused.written topic)]
      exact h.withInner hrefused.waiting hrefused.written
    · dsimp only
      rw [if_pos (hrefused.written topic)]
      exact h.withInner hrefused.waiting hrefused.written
    · exact absurd rfl (hrefused.result id)

section Pending

variable {i : ℕ} {call : PushCall}

theorem count_eraseIdx {calls : List PushCall} (hcall : calls[i]? = some call) (c : PushCall) :
    calls.count c = (calls.eraseIdx i).count c + [call].count c := by
  obtain ⟨hlt, rfl⟩ := List.getElem?_eq_some_iff.mp hcall
  rw [← (List.getElem_cons_eraseIdx_perm hlt).count_eq, ← List.singleton_append, List.count_append,
    Nat.add_comm]

theorem count_waiting {w : Waiting} (hw : s.ddl.inner.waiting[i]? = some w) (c : PushCall) :
    s.waiting.count c = ((s.ddl.inner.waiting.eraseIdx i).map fun w => .ofEntry w.entry).count c +
      [PushCall.ofEntry w.entry].count c := by
  have hcall : s.waiting[i]? = some (.ofEntry w.entry) := by
    rw [waiting, List.getElem?_map, hw]
    rfl
  rw [count_eraseIdx hcall, waiting, List.eraseIdx_map]

theorem resume (h : Accounted json s) (i : ℕ) : Accounted json (s.resume i) := by
  rw [Pushers.resume]
  split
  · exact h
  · next w hw =>
    obtain ⟨htopic, hvalid⟩ := h.topics w (List.mem_of_getElem? hw)
    have herase : ∀ w' ∈ s.ddl.inner.waiting.eraseIdx i,
        w'.entry.topic = w'.topic ∧ validateTopic w'.topic = .ok () :=
      fun w' hw' => h.topics w' (List.mem_of_mem_eraseIdx hw')
    obtain ⟨inner, result, heq, hnotified, idx, hends⟩ := DdlDistributed.resume_spec hw
    rw [heq]
    rcases hends with ⟨hwaiting, -⟩ | ⟨hwaiting, -⟩ | ⟨subscriber, indices, hwaiting, -⟩
    · refine h.moved hnotified.written (fun c => ?_) ?_ (by rw [hwaiting]; exact herase)
      · simp only [unlogged, count_waiting hw c, List.count_append]
        simp only [waiting, hwaiting]
        omega
      · refine List.forall_mem_append.mpr ⟨h.valid, ?_⟩
        simpa [PushCall.ofEntry, htopic] using hvalid
    · refine h.moved hnotified.written (fun c => ?_) h.valid (by rw [hwaiting]; exact herase)
      simp only [unlogged, count_waiting hw c, List.count_append]
      simp only [waiting, hwaiting]
      omega
    · refine h.moved hnotified.written (fun c => ?_) h.valid ?_
      · simp only [unlogged, count_waiting hw c]
        simp only [waiting, hwaiting, List.map_append, List.count_append, List.map_singleton]
      · rw [hwaiting]
        refine List.forall_mem_append.mpr ⟨herase, ?_⟩
        simpa using ⟨htopic, hvalid⟩

theorem ended (h : Accounted json s) (hcall : s.pending[i]? = some call) :
    Accounted json { s with pending := s.pending.eraseIdx i, failed := s.failed ++ [call] } := by
  refine h.moved (fun _ => rfl) (fun c => ?_)
    (fun c hc => h.valid c (List.mem_of_mem_eraseIdx hc)) h.topics
  change (s.pending.eraseIdx i).count c + s.waiting.count c + (s.failed ++ [call]).count c = _
  rw [unlogged, count_eraseIdx hcall c, List.count_append]
  omega

theorem appended (h : Accounted json s) (hcall : s.pending[i]? = some call) (later : UInt64) :
    Accounted json { s with
      ddl := { s.ddl with disk := (s.ddl.disk.append json call.topic
        ⟨call.id, later, call.topic, call.payload⟩ (.ok ())).1 }
      pending := s.pending.eraseIdx i
      returned := s.returned ++ [call] } := by
  have hvalid := h.valid call (List.mem_of_getElem? hcall)
  constructor
  · exact h.grown.append hvalid _ _
  · exact h.ids
  · intro c
    have hold := h.parts c
    rw [unlogged, count_eraseIdx hcall c] at hold
    rw [DdlWithWal.logged_append h.grown hvalid _ rfl]
    change _ + ((s.pending.eraseIdx i).count c + s.waiting.count c + s.failed.count c) =
      s.made.count c
    by_cases ht : call.topic = c.topic
    · rw [if_pos ht, List.map_append, List.count_append]
      change _ + [call].count c + _ = _
      omega
    · have hne : [call].count c = 0 :=
        List.count_eq_zero.mpr fun hmem => ht (by rw [List.mem_singleton.mp hmem])
      rw [if_neg ht]
      omega
  · exact fun c hc => h.valid c (List.mem_of_mem_eraseIdx hc)
  · exact h.topics
  · intro dir e he
    rw [DdlWithWal.sinceOpened_append h.grown hvalid] at he
    split at he
    · next hdir =>
      rcases List.mem_append.mp he with he | he
      · exact h.placed dir e he
      · rw [List.mem_singleton.mp he, hdir]
    · exact h.placed dir e he
  · intro c hc
    simp only [Disk.entries_append hvalid]
    rcases List.mem_append.mp hc with hc | hc
    · obtain ⟨e, he, heq⟩ := h.returned c hc
      refine ⟨e, ?_, heq⟩
      split
      · exact List.mem_append_left _ he
      · exact he
    · obtain rfl := List.mem_singleton.mp hc
      rw [if_pos rfl]
      exact ⟨_, List.mem_append_right _ (List.mem_singleton_self _), rfl⟩

theorem append (h : Accounted json s) (i : ℕ) (later : UInt64) (outcome : Except WalError Unit) :
    Accounted json (s.append json i later outcome) := by
  rw [Pushers.append]
  split
  · exact h
  · next call hcall =>
    rw [Disk.append_of_valid (h.valid call (List.mem_of_getElem? hcall))]
    cases outcome with
    | error e => exact h.ended hcall
    | ok _ =>
      have happended := h.appended hcall later
      rwa [Disk.append_of_valid (h.valid call (List.mem_of_getElem? hcall))] at happended

end Pending

theorem step (h : Accounted json s) (op : PushStep) : Accounted json (s.step json op) := by
  cases op with
  | push topic payload now => exact h.push topic payload now
  | resume waiting => exact h.resume waiting
  | append call later outcome => exact h.append call later outcome
  | cancel call =>
    rw [Pushers.step, Pushers.cancel]
    split
    · exact h
    · next hcall => exact h.ended hcall
  | subscribe topic =>
    rw [Pushers.step, DdlWithWal.step]
    split
    · exact h
    · have hsubscribed := s.ddl.inner.subscribed_subscribe topic
      exact h.withInner hsubscribed.waiting hsubscribed.written
  | ack topic entryId =>
    have hacked := s.ddl.inner.acked_ack topic entryId
    exact h.withInner hacked.waiting hacked.written
  | receive topic subscriber => exact h.withInner rfl fun _ => rfl
  | disconnect topic subscriber => exact h.withInner rfl fun _ => rfl
  | restart config => exact h.restart config

theorem exec (json : Codec Entry) (config : StandaloneConfig) (disk : Disk)
    (steps : List PushStep) :
    Accounted json (exec (Pushers.step json) (.new config disk) steps) :=
  exec_inv (fun _ op h => h.step op) (.new config disk)

theorem perm (h : Accounted json s) (t : String) :
    ((s.ddl.logged json t).map PushCall.ofEntry ++ callsTo t s.pending ++ callsTo t s.waiting ++
      callsTo t s.failed).Perm (callsTo t s.made) := by
  rw [List.perm_iff_count]
  intro c
  simp only [List.count_append]
  by_cases ht : c.topic = t
  · subst ht
    have hcount : ∀ calls : List PushCall, (callsTo c.topic calls).count c = calls.count c :=
      fun calls => List.count_filter (by simp)
    have hparts := h.parts c
    rw [unlogged] at hparts
    rw [hcount, hcount, hcount, hcount]
    omega
  · have hnone : ∀ calls : List PushCall, (callsTo t calls).count c = 0 := by
      intro calls
      refine List.count_eq_zero.mpr fun hmem => ?_
      exact ht (of_decide_eq_true (List.mem_filter.mp hmem).2)
    have hlogged : ((s.ddl.logged json t).map PushCall.ofEntry).count c = 0 := by
      refine List.count_eq_zero.mpr fun hmem => ?_
      obtain ⟨e, he, rfl⟩ := List.mem_map.mp hmem
      exact ht (of_decide_eq_true (List.mem_filter.mp he).2)
    rw [hnone, hnone, hnone, hnone, hlogged]

theorem pairwise_made (h : Accounted json s) (t : String) :
    (callsTo t s.made).Pairwise fun a b => a.id < b.id := by
  have hids : ((callsTo t s.made).map fun c => c.id.toNat).Pairwise (· < ·) := by
    rw [h.ids t]
    exact List.pairwise_lt_range
  exact (List.pairwise_map.mp hids).imp UInt64.lt_iff_toNat_lt.mpr

/-- The file of a topic that shares it with no other one, from when the log was opened. -/
theorem sinceOpened_eq_logged (h : Accounted json s) {t : String}
    (hshared : ∀ c ∈ s.made, replaceUnsafe c.topic = replaceUnsafe t → c.topic = t) :
    s.ddl.sinceOpened json (replaceUnsafe t) = s.ddl.logged json t := by
  symm
  refine List.filter_eq_self.mpr fun e he => decide_eq_true ?_
  have hplace := h.placed _ e he
  have hlogged : e ∈ s.ddl.logged json e.topic := by
    refine List.mem_filter.mpr ⟨?_, decide_eq_true rfl⟩
    rwa [hplace]
  have hmade : PushCall.ofEntry e ∈ callsTo e.topic s.made :=
    (h.perm e.topic).subset (by simp [List.mem_map_of_mem hlogged])
  exact hshared _ (List.mem_filter.mp hmade).1 hplace

end Accounted

/-- Whatever happens at the same time and whenever the process ends, what a push has returned is on
disk for good. Since the log was opened, each id of a topic was given to one push, whose entry is in
the log once unless it is under way or has ended without it. -/
theorem pushes_accounted (json : Codec Entry) (config : StandaloneConfig) (disk : Disk)
    (steps : List PushStep) :
    let s := exec (step json) (.new config disk) steps
    (∀ c ∈ s.returned,
      ∃ e ∈ s.ddl.disk.entries json (replaceUnsafe c.topic), PushCall.ofEntry e = c) ∧
    ∀ t, (callsTo t s.made).map (fun c => c.id.toNat) = List.range (s.ddl.inner.written t) ∧
      ((s.ddl.logged json t).map PushCall.ofEntry ++ callsTo t s.pending ++ callsTo t s.waiting ++
        callsTo t s.failed).Perm (callsTo t s.made) := by
  intro s
  have hs : Accounted json s := .exec json config disk steps
  exact ⟨hs.returned, fun t => ⟨hs.ids t, hs.perm t⟩⟩

/-- When every push to a topic has returned, a recovery of the log gives them in the order of their
ids, whatever the order in which their entries came to the file. -/
theorem recovery_in_order (json : Codec Entry) (config : StandaloneConfig) (disk : Disk)
    (steps : List PushStep) (t : String) (hvalid : validateTopic t = .ok ())
    (hname : Reversible t) :
    let s := exec (step json) (.new config disk) steps
    callsTo t s.pending = [] → callsTo t s.waiting = [] → callsTo t s.failed = [] →
    s.ddl.opened.entries json t = [] →
    (∀ c ∈ s.made, replaceUnsafe c.topic = t → c.topic = t) →
    ((s.ddl.disk.recoverAll json)[t]?.getD []).map PushCall.ofEntry = callsTo t s.made := by
  intro s hpending hwaiting hfailed hopened hshared
  have hs : Accounted json s := .exec json config disk steps
  have hdir : replaceUnsafe t = t := replaceUnsafe_eq_self.mpr hname.2
  have hentries : s.ddl.disk.entries json t = s.ddl.logged json t := by
    rw [← hs.sinceOpened_eq_logged (by rwa [hdir]), DdlWithWal.sinceOpened, hdir, hopened]
    rfl
  have hread : (s.ddl.disk.recoverAll json)[t]?.getD [] = s.ddl.disk.readEntries json t := by
    rw [get_recoverAll, recoverTopic_of_valid hvalid, hdir]
    by_cases hempty : s.ddl.disk.entries json t = []
    · simp [Disk.readEntries, hempty]
    · have hne : s.ddl.disk.readEntries json t ≠ [] := fun hnil =>
        hempty (List.perm_nil.mp (hnil ▸ (List.perm_insertionSort _ _).symm))
      rw [if_pos ⟨mem_of_entries_ne_nil hempty, hname.1⟩, if_neg (by simpa using hne)]
      rfl
  have hlogged : ((s.ddl.disk.entries json t).map PushCall.ofEntry).Perm (callsTo t s.made) := by
    have hperm := hs.perm t
    rwa [hpending, hwaiting, hfailed, List.append_nil, List.append_nil, List.append_nil,
      ← hentries] at hperm
  have hmade := hs.pairwise_made t
  have hids : ((s.ddl.disk.entries json t).map Entry.id).Nodup := by
    have hnodup : ((callsTo t s.made).map PushCall.id).Nodup :=
      List.pairwise_map.mpr (hmade.imp UInt64.ne_of_lt)
    have hmap := (hlogged.map PushCall.id).nodup_iff.mpr hnodup
    rwa [List.map_map] at hmap
  have hsorted : ((s.ddl.disk.readEntries json t).map PushCall.ofEntry).Pairwise
      fun a b => a.id < b.id :=
    List.pairwise_map.mpr (List.pairwise_map.mp (sorted_readEntries hids))
  rw [hread]
  refine List.Perm.eq_of_pairwise (fun a b _ _ hlt hgt => ?_) hsorted hmade ?_
  · exact absurd hgt (UInt64.lt_asymm hlt)
  · exact ((List.perm_insertionSort _ _).map _).trans hlogged

/-- The second of two pushes waits for the subscriber, and still comes to the file first. -/
theorem recovery_in_order_overtaken :
    let steps : List PushStep :=
      [.subscribe "t", .push "t" [1] 10, .push "t" [2] 11, .receive "t" 0, .resume 0,
        .append 1 12 (.ok ()), .append 0 13 (.ok ())]
    let s := exec (step Plain.json) (.new ⟨⟨4, 1, .block⟩, [], 0⟩ ∅) steps
    (s.ddl.logged Plain.json "t").map PushCall.ofEntry = [⟨"t", 1, [2]⟩, ⟨"t", 0, [1]⟩] ∧
    callsTo "t" s.made = [⟨"t", 0, [1]⟩, ⟨"t", 1, [2]⟩] ∧
    ((s.ddl.disk.recoverAll Plain.json)["t"]?.getD []).map PushCall.ofEntry = callsTo "t" s.made :=
  ⟨by decide +kernel, by decide +kernel, recovery_in_order Plain.json ⟨⟨4, 1, .block⟩, [], 0⟩ ∅
    [.subscribe "t", .push "t" [1] 10, .push "t" [2] 11, .receive "t" 0, .resume 0,
      .append 1 12 (.ok ()), .append 0 13 (.ok ())] "t"
    (by decide +kernel) (by decide +kernel) (by decide +kernel) (by decide +kernel)
    (by decide +kernel) (by decide +kernel) (by decide +kernel)⟩

end Pushers

end DumbDistributedLog.Ddl.Wal
