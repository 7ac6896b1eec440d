import DumbDistributedLog.Library.Runs
import DumbDistributedLog.Wal.Log

/-! # The log with a write-ahead log

A push is made in memory, where it may already reach the subscribers, and its entry is
written to the log afterwards. If it has to wait for a subscriber, it is written in the later step
in which it goes on. Memory and log agree when a push returns, as long as every push that gets an
id is also written and no other push is still on its way.
-/

namespace DumbDistributedLog.Ddl.Wal

open Runs

/-- The log in memory over its disk, with the disk as it was when the log was made. -/
structure DdlWithWal where
  inner : DdlDistributed
  disk : Disk
  opened : Disk

inductive WalOp where
  | push (topic : String) (payload : List UInt8) (now later : UInt64)
    (outcome : Except WalError Unit)
  | resume (waiting : ℕ) (later : UInt64) (outcome : Except WalError Unit)
  | subscribe (topic : String)
  | ack (topic : String) (entryId : UInt64)
  | receive (topic : String) (subscriber : ℕ)
  | disconnect (topic : String) (subscriber : ℕ)
  | restart (config : StandaloneConfig)

namespace DdlWithWal

def new (config : StandaloneConfig) (disk : Disk) : DdlWithWal :=
  ⟨.newStandalone config, disk, disk⟩

variable (json : Codec Entry) (d : DdlWithWal)

/-- What follows the push in memory. The entry that is written to the log has a time of its own,
later than the one in memory. -/
def writeAhead (topic : String) (payload : List UInt8) (later : UInt64)
    (outcome : Except WalError Unit) :
    DdlDistributed × Option (Except DdlError UInt64) → DdlWithWal × Option (Except DdlError UInt64)
  | (inner, none) => ({ d with inner }, none)
  | (inner, some (.error e)) => ({ d with inner }, some (.error e))
  | (inner, some (.ok id)) =>
    match d.disk.append json topic ⟨id, later, topic, payload⟩ outcome with
    | (disk, .error e) => ({ d with inner, disk }, some (.error (.wal e.display)))
    | (disk, .ok ()) => ({ d with inner, disk }, some (.ok id))

def push (topic : String) (payload : List UInt8) (now later : UInt64)
    (outcome : Except WalError Unit) : DdlWithWal × Option (Except DdlError UInt64) :=
  d.writeAhead json topic payload later outcome (d.inner.push topic payload now)

def resume (i : ℕ) (later : UInt64) (outcome : Except WalError Unit) :
    DdlWithWal × Option (Except DdlError UInt64) :=
  match d.inner.waiting[i]? with
  | none => (d, none)
  | some w => d.writeAhead json w.topic w.entry.payload later outcome (d.inner.resume i)

/-- A subscription comes after the pushes that keep its list of subscribers locked. -/
def step : WalOp → DdlWithWal
  | .push topic payload now later outcome => (d.push json topic payload now later outcome).1
  | .resume i later outcome => (d.resume json i later outcome).1
  | .subscribe topic =>
    if d.inner.Held topic then d else { d with inner := (d.inner.subscribe topic).1 }
  | .ack topic entryId => { d with inner := (d.inner.ack topic entryId).1 }
  | .receive topic subscriber =>
    { d with inner := d.inner.modifySender topic subscriber Channel.receive }
  | .disconnect topic subscriber =>
    { d with inner := d.inner.modifySender topic subscriber Channel.disconnect }
  | .restart config => .new config d.disk

def sinceOpened (dir : String) : List Entry :=
  (d.disk.entries json dir).drop (d.opened.entries json dir).length

def logged (topic : String) : List Entry :=
  (d.sinceOpened json (replaceUnsafe topic)).filter fun e => e.topic = topic

def Logged (topic : String) (e : Entry) : Prop :=
  ∃ e' ∈ d.logged json topic, e'.id = e.id ∧ e'.topic = e.topic ∧ e'.payload = e.payload

/-- The ids that were given out for the topic in memory are those in its log, and nothing was sent
to a subscriber that is not in the log. -/
structure Agree (topic : String) : Prop where
  ids : ∀ id : UInt64, id.toNat < d.inner.written topic ↔ ∃ e ∈ d.logged json topic, e.id = id
  sent : ∀ t, ∀ info ∈ d.inner.subscribersOf t, ∀ e ∈ info.sender.sent, d.Logged json t e

def Returns : WalOp → String → Prop
  | .push topic payload now later outcome, t =>
    topic = t ∧ (d.push json topic payload now later outcome).2 ≠ none
  | .resume i later outcome, t =>
    (∃ w, d.inner.waiting[i]? = some w ∧ w.topic = t) ∧ (d.resume json i later outcome).2 ≠ none
  | _, _ => False

/-- If a push returns in the step, memory and log agree about its topic afterwards. -/
def AgreesOnReturn (op : WalOp) : Prop :=
  ∀ topic, d.Returns json op topic → (d.step json op).Agree json topic

/-- No push to the topic is waiting, and none that waits has reached a subscriber. -/
def Settled (topic : String) : Prop :=
  ∀ w ∈ d.inner.waiting, w.topic ≠ topic ∧
    ∀ info ∈ d.inner.subscribersOf w.topic, w.entry ∉ info.sender.sent

/-- The disk takes the entry of a push that got an id, and no subscriber refuses it. -/
def Lands : WalOp → Prop
  | .push topic _ _ _ outcome =>
    d.inner.Accepts topic → outcome = .ok () ∧ ¬ d.inner.Refuses topic 0
  | .resume _ _ outcome => outcome = .ok ()
  | _ => True

/-- A push that returns has been written, and no other one is on its way. -/
def LandsOnReturn (op : WalOp) : Prop :=
  ∀ topic, d.Returns json op topic → d.Lands op ∧ (d.step json op).Settled topic

variable {json d} {topic : String} {payload : List UInt8} {now later : UInt64}
  {outcome : Except WalError Unit}

/-- Nothing that was on disk when the log was made has been lost. -/
def Extends (json : Codec Entry) (d : DdlWithWal) : Prop :=
  ∀ dir, (d.opened.entries json dir).length ≤ (d.disk.entries json dir).length

theorem sinceOpened_append (h : d.Extends json) (hvalid : validateTopic topic = .ok ())
    (inner : DdlDistributed) (entry : Entry) (dir : String) :
    sinceOpened json
        { d with inner, disk := (d.disk.append json topic entry (.ok ())).1 } dir =
      if replaceUnsafe topic = dir then d.sinceOpened json dir ++ [entry]
      else d.sinceOpened json dir := by
  simp only [sinceOpened, Disk.entries_append hvalid]
  split
  · exact List.drop_append_of_le_length (h dir)
  · rfl

theorem logged_append (h : d.Extends json) (hvalid : validateTopic topic = .ok ())
    (inner : DdlDistributed) {entry : Entry} (hentry : entry.topic = topic) (t : String) :
    logged json { d with inner, disk := (d.disk.append json topic entry (.ok ())).1 } t =
      if topic = t then d.logged json t ++ [entry] else d.logged json t := by
  rw [logged, sinceOpened_append h hvalid, logged]
  by_cases ht : topic = t
  · subst ht
    simp [hentry]
  · rw [if_neg ht]
    split
    · simp [hentry, ht]
    · rfl

theorem Extends.append (h : d.Extends json) (hvalid : validateTopic topic = .ok ())
    (inner : DdlDistributed) (entry : Entry) :
    Extends json { d with inner, disk := (d.disk.append json topic entry (.ok ())).1 } := by
  intro dir
  refine Nat.le_trans (h dir) ?_
  simp only [Disk.entries_append hvalid]
  split
  · simp
  · exact Nat.le_refl _

/-- What is missing in the log belongs to the given entries, which have got an id. -/
structure Tracked (json : Codec Entry) (d : DdlWithWal) (pending : List Entry) : Prop where
  grown : d.Extends json
  valid : ∀ e ∈ pending, validateTopic e.topic = .ok ()
  ids : ∀ t, ((d.logged json t ++ pending.filter fun e => e.topic = t).map fun e =>
    e.id.toNat).Perm (List.range (d.inner.written t))
  sent : ∀ t, ∀ info ∈ d.inner.subscribersOf t, ∀ e ∈ info.sender.sent,
    d.Logged json t e ∨ e ∈ pending ∧ e.topic = t

namespace Tracked

variable {pending pending' : List Entry} {e : Entry}

theorem new (json : Codec Entry) (config : StandaloneConfig) (disk : Disk) :
    Tracked json (.new config disk) [] where
  grown _ := Nat.le_refl _
  valid := by simp
  ids t := by simp [DdlWithWal.new, DdlDistributed.written_newStandalone, logged, sinceOpened]
  sent t info hinfo := absurd hinfo (by
    simp [DdlWithWal.new, DdlDistributed.newStandalone, DdlDistributed.subscribersOf])

theorem perm (h : Tracked json d pending) (hperm : pending.Perm pending') :
    Tracked json d pending' where
  grown := h.grown
  valid e he := h.valid e (hperm.mem_iff.mpr he)
  ids t := ((((hperm.filter _).append_left _).map _).symm).trans (h.ids t)
  sent t info hinfo e he :=
    (h.sent t info hinfo e he).imp_right fun hp => ⟨hperm.mem_iff.mp hp.1, hp.2⟩

theorem withInner (h : Tracked json d pending) {inner : DdlDistributed}
    (hwritten : ∀ t, inner.written t = d.inner.written t)
    (hsent : ∀ t, ∀ info ∈ inner.subscribersOf t, ∀ e ∈ info.sender.sent,
      (∃ old ∈ d.inner.subscribersOf t, e ∈ old.sender.sent) ∨ e ∈ pending ∧ e.topic = t) :
    Tracked json { d with inner } pending where
  grown := h.grown
  valid := h.valid
  ids t := by
    rw [hwritten t]
    exact h.ids t
  sent t info hinfo e he := by
    rcases hsent t info hinfo e he with ⟨old, hold, he⟩ | hp
    · exact h.sent t old hold e he
    · exact .inr hp

theorem notified (h : Tracked json d pending) {inner : DdlDistributed} (he : e ∈ pending)
    (hnotified : d.inner.Notified e.topic e inner) : Tracked json { d with inner } pending := by
  refine h.withInner hnotified.written fun t info hinfo e' he' => ?_
  by_cases ht : e.topic = t
  · subst ht
    obtain ⟨old, hold, hoffered⟩ := hnotified.offered info hinfo
    rcases hoffered.mem_sent he' with hearlier | rfl
    · exact .inl ⟨old, hold, hearlier⟩
    · exact .inr ⟨he, rfl⟩
  · rw [hnotified.subscribers t ht] at hinfo
    exact .inl ⟨info, hinfo, he'⟩

theorem made (h : Tracked json d pending) {inner : DdlDistributed}
    (hvalid : validateTopic e.topic = .ok ()) (hmade : d.inner.Made e inner) :
    Tracked json { d with inner } (pending ++ [e]) where
  grown := h.grown
  valid e' he' := by
    rcases List.mem_append.mp he' with hold | hnew
    · exact h.valid e' hold
    · rwa [List.mem_singleton.mp hnew]
  ids t := by
    have hid : e.id.toNat = d.inner.written e.topic := by
      rw [hmade.pushed.id, DdlDistributed.written]
    rw [hmade.written t, List.filter_append, ← List.append_assoc, List.map_append]
    by_cases ht : e.topic = t
    · subst ht
      rw [if_pos rfl, List.range_succ]
      refine (h.ids e.topic).append (.of_eq ?_)
      simp [hid]
    · have hother : ([e].filter fun e => e.topic = t) = [] := by simp [ht]
      rw [if_neg ht, hother, List.map_nil, List.append_nil]
      exact h.ids t
  sent t info hinfo e' he' := by
    by_cases ht : e.topic = t
    · subst ht
      obtain ⟨old, hold, hoffered⟩ := hmade.offered info hinfo
      rcases hoffered.mem_sent he' with hearlier | rfl
      · exact (h.sent e.topic old hold e' hearlier).imp_right fun hp =>
          ⟨List.mem_append_left _ hp.1, hp.2⟩
      · exact .inr ⟨List.mem_append_right _ (List.mem_singleton_self _), rfl⟩
    · rw [hmade.subscribers t ht] at hinfo
      exact (h.sent t info hinfo e' he').imp_right fun hp => ⟨List.mem_append_left _ hp.1, hp.2⟩

theorem written (h : Tracked json d (pending ++ [e])) (later : UInt64) :
    Tracked json { d with disk := (d.disk.append json e.topic
      ⟨e.id, later, e.topic, e.payload⟩ (.ok ())).1 } pending := by
  have hvalid := h.valid e (List.mem_append_right _ (List.mem_singleton_self _))
  have hlogged : ∀ t, DdlWithWal.logged json { d with disk := (d.disk.append json e.topic
      ⟨e.id, later, e.topic, e.payload⟩ (.ok ())).1 } t = _ :=
    logged_append h.grown hvalid d.inner rfl
  constructor
  · exact h.grown.append hvalid d.inner _
  · exact fun e' he' => h.valid e' (List.mem_append_left _ he')
  · intro t
    refine .trans ?_ (h.ids t)
    rw [hlogged, List.filter_append]
    by_cases ht : e.topic = t
    · have hself : ([e].filter fun e => e.topic = t) = [e] := by simp [ht]
      rw [if_pos ht, hself]
      simp only [List.map_append, List.append_assoc]
      exact List.perm_append_comm.append_left _
    · have hother : ([e].filter fun e => e.topic = t) = [] := by simp [ht]
      rw [if_neg ht, hother, List.append_nil]
  · intro t info hinfo e' he'
    have hkept : d.Logged json t e' → DdlWithWal.Logged json { d with disk := (d.disk.append json
        e.topic ⟨e.id, later, e.topic, e.payload⟩ (.ok ())).1 } t e' := by
      rintro ⟨e'', hmem, hmatch⟩
      refine ⟨e'', ?_, hmatch⟩
      rw [hlogged]
      split
      · exact List.mem_append_left _ hmem
      · exact hmem
    rcases h.sent t info hinfo e' he' with hold | ⟨hp, ht⟩
    · exact .inl (hkept hold)
    · rcases List.mem_append.mp hp with hp | hp
      · exact .inr ⟨hp, ht⟩
      · obtain rfl := List.mem_singleton.mp hp
        refine .inl ⟨⟨e'.id, later, e'.topic, e'.payload⟩, ?_, rfl, rfl, rfl⟩
        rw [hlogged, if_pos ht]
        exact List.mem_append_right _ (List.mem_singleton_self _)

theorem not_logged (h : Tracked json d pending) (he : e ∈ pending) :
    ∀ e' ∈ d.logged json e.topic, e'.id ≠ e.id := by
  intro e' he' hid
  have hnodup := (h.ids e.topic).nodup_iff.mpr List.nodup_range
  rw [List.map_append, List.nodup_append] at hnodup
  refine hnodup.2.2 _ (List.mem_map_of_mem he') _ (List.mem_map_of_mem (a := e) ?_) (by rw [hid])
  simpa using he

theorem lt_written (h : Tracked json d pending) (he : e ∈ pending) :
    e.id.toNat < d.inner.written e.topic := by
  rw [← List.mem_range, ← (h.ids e.topic).mem_iff]
  refine List.mem_map_of_mem (f := fun e : Entry => e.id.toNat) (List.mem_append_right _ ?_)
  simpa using he

/-- Memory and log agree about a topic if nothing is pending there and nothing that is pending
elsewhere has been sent. -/
theorem agree_iff (h : Tracked json d pending) (topic : String) :
    d.Agree json topic ↔ ∀ e ∈ pending, e.topic ≠ topic ∧
      ∀ info ∈ d.inner.subscribersOf e.topic, e ∉ info.sender.sent := by
  constructor
  · intro hagree e he
    constructor
    · rintro rfl
      obtain ⟨e', he', hid⟩ := (hagree.ids e.id).mp (h.lt_written he)
      exact h.not_logged he e' he' hid
    · intro info hinfo hsent
      obtain ⟨e', he', hid, -⟩ := hagree.sent e.topic info hinfo e hsent
      exact h.not_logged he e' he' hid
  · intro hpending
    constructor
    · intro id
      have hnone : (pending.filter fun e => e.topic = topic) = [] :=
        List.filter_eq_nil_iff.mpr fun e he => by simpa using (hpending e he).1
      have hids := h.ids topic
      rw [hnone, List.append_nil] at hids
      rw [← List.mem_range, ← hids.mem_iff, List.mem_map]
      simp only [UInt64.toNat_inj]
    · intro t info hinfo e he
      rcases h.sent t info hinfo e he with hlogged | ⟨hp, rfl⟩
      · exact hlogged
      · exact absurd he ((hpending e hp).2 info hinfo)

end Tracked

/-- What is missing in the log belongs to pushes that wait, as only pushes that block do. -/
structure Waits (json : Codec Entry) (d : DdlWithWal) : Prop where
  tracked : Tracked json d (d.inner.waiting.map Waiting.entry)
  topics : ∀ w ∈ d.inner.waiting, w.entry.topic = w.topic
  mode : d.inner.waiting ≠ [] → d.inner.config.subscriptionBackpressure = .block

namespace Waits

theorem agree_iff (h : d.Waits json) (topic : String) :
    d.Agree json topic ↔ d.Settled topic := by
  rw [h.tracked.agree_iff topic, Settled]
  simp only [List.forall_mem_map]
  refine forall₂_congr fun w hw => ?_
  rw [h.topics w hw]

theorem new (json : Codec Entry) (config : StandaloneConfig) (disk : Disk) :
    Waits json (.new config disk) where
  tracked := .new json config disk
  topics := by simp [DdlWithWal.new, DdlDistributed.newStandalone]
  mode h := absurd rfl h

theorem withInner (h : d.Waits json) {inner : DdlDistributed}
    (hconfig : inner.config = d.inner.config) (hwaiting : inner.waiting = d.inner.waiting)
    (hwritten : ∀ t, inner.written t = d.inner.written t)
    (hsent : ∀ t, ∀ info ∈ inner.subscribersOf t, info.sender.sent = [] ∨
      ∃ old ∈ d.inner.subscribersOf t, info.sender.sent = old.sender.sent) :
    Waits json { d with inner } where
  tracked := by
    rw [hwaiting]
    refine h.tracked.withInner hwritten fun t info hinfo e he => ?_
    rcases hsent t info hinfo with hnil | ⟨old, hold, heq⟩
    · rw [hnil] at he
      cases he
    · exact .inl ⟨old, hold, heq ▸ he⟩
  topics := by
    rw [hwaiting]
    exact h.topics
  mode := by
    rw [hwaiting, hconfig]
    exact h.mode

end Waits

/-- A push that has got an id, with the pushes that wait besides it. -/
structure Underway (json : Codec Entry) (d : DdlWithWal) (others : List Waiting) (topic : String)
    (e : Entry) : Prop where
  tracked : Tracked json d (others.map Waiting.entry ++ [e])
  topics : ∀ w ∈ others, w.entry.topic = w.topic
  topic : e.topic = topic
  mode : others ≠ [] → d.inner.config.subscriptionBackpressure = .block

namespace Underway

variable {others : List Waiting} {e : Entry}

theorem waits (h : Underway json d others topic e) {subscriber : Option ℕ} {indices : List ℕ}
    (hwaiting : d.inner.waiting = others ++ [⟨topic, e, subscriber, indices⟩])
    (hmode : d.inner.config.subscriptionBackpressure = .block) : Waits json d where
  tracked := by
    rw [hwaiting, List.map_append]
    exact h.tracked
  topics := by
    rw [hwaiting]
    refine List.forall_mem_append.mpr ⟨h.topics, ?_⟩
    simpa using h.topic
  mode _ := hmode

theorem written (h : Underway json d others topic e) (hwaiting : d.inner.waiting = others)
    (later : UInt64) : Waits json { d with disk := (d.disk.append json topic
      ⟨e.id, later, topic, e.payload⟩ (.ok ())).1 } := by
  obtain ⟨htracked, htopics, rfl, hmode⟩ := h
  subst hwaiting
  exact ⟨htracked.written later, htopics, hmode⟩

theorem not_agree (h : Underway json d others topic e) : ¬ d.Agree json topic := by
  intro hagree
  have he : e ∈ others.map Waiting.entry ++ [e] := by simp
  exact ((h.tracked.agree_iff topic).mp hagree e he).1 h.topic

/-- A push returns in agreement exactly if it is written and nothing else is on its way. -/
theorem writeAhead {inner before : DdlDistributed} {refuses : Prop}
    {result : Option (Except DdlError Unit)}
    (h : Underway json { d with inner } before.waiting topic e)
    (hconfig : inner.config = before.config) (hends : before.Ends topic e refuses inner result)
    (later : UInt64) (outcome : Except WalError Unit) :
    let call := d.writeAhead json topic e.payload later outcome
      (inner, result.map (·.map fun _ => e.id))
    (call.2 ≠ none → (call.1.Agree json topic ↔
      (outcome = .ok () ∧ ¬ refuses) ∧ call.1.Settled topic)) ∧
    (call.2 = none ∨ outcome = .ok () ∧ ¬ refuses → Waits json call.1) := by
  have hvalid : validateTopic topic = .ok () := by
    rw [← h.topic]
    exact h.tracked.valid e (by simp)
  rcases hends with ⟨hwaiting, hrefuses⟩ | ⟨hwaiting, hrefuses⟩ |
    ⟨subscriber, indices, hwaiting, hmode⟩
  · have hwritten := h.written hwaiting later
    rw [Disk.append_of_valid hvalid] at hwritten
    simp only [Option.map_some, Except.map, DdlWithWal.writeAhead, Disk.append_of_valid hvalid]
    cases outcome with
    | error e' => exact ⟨fun _ => iff_of_false h.not_agree (by simp), by simp⟩
    | ok _ => exact ⟨fun _ => by simp [hwritten.agree_iff, hrefuses], fun _ => hwritten⟩
  · exact ⟨fun _ => iff_of_false h.not_agree fun hlands => hlands.1.2 hrefuses,
      fun hreturn => absurd hreturn (by simp [DdlWithWal.writeAhead, Except.map, hrefuses])⟩
  · exact ⟨fun hreturn => absurd rfl hreturn,
      fun _ => h.waits hwaiting (hconfig.symm ▸ hmode)⟩

end Underway

namespace Waits

structure Step (json : Codec Entry) (d : DdlWithWal) (op : WalOp) : Prop where
  agree : ∀ topic, d.Returns json op topic →
    ((d.step json op).Agree json topic ↔ d.Lands op ∧ (d.step json op).Settled topic)
  waits : ((∀ topic, ¬ d.Returns json op topic) ∨ d.Lands op) → Waits json (d.step json op)

theorem push (h : d.Waits json) (topic : String) (payload : List UInt8) (now later : UInt64)
    (outcome : Except WalError Unit) : Step json d (.push topic payload now later outcome) := by
  by_cases haccepts : d.inner.Accepts topic
  · obtain ⟨inner, result, heq, hmade, hends⟩ :=
      DdlDistributed.push_of_accepts haccepts payload now
    have hunderway : Underway json { d with inner } d.inner.waiting topic
        (d.inner.entryOf topic payload now) :=
      ⟨h.tracked.made haccepts.1 hmade, h.topics, rfl, fun hne => hmade.config ▸ h.mode hne⟩
    obtain ⟨hagree, hwaits⟩ := hunderway.writeAhead hmade.config hends later outcome
    have hpush : d.push json topic payload now later outcome = d.writeAhead json topic
        (d.inner.entryOf topic payload now).payload later outcome
        (inner, result.map (·.map fun _ => (d.inner.entryOf topic payload now).id)) := by
      rw [DdlWithWal.push, heq]
      rfl
    rw [← hpush] at hagree hwaits
    have hlands : d.Lands (.push topic payload now later outcome) ↔
        outcome = .ok () ∧ ¬ d.inner.Refuses topic 0 := by
      simp [Lands, haccepts]
    constructor
    · rintro _ ⟨rfl, hreturn⟩
      rw [hlands]
      exact hagree hreturn
    · rw [hlands]
      rintro (hreturn | hlanded)
      · exact hwaits (.inl (by_contra fun hne => hreturn topic ⟨rfl, hne⟩))
      · exact hwaits (.inr hlanded)
  · obtain ⟨inner, result, heq, hrefused⟩ :=
      DdlDistributed.push_of_not_accepts haccepts payload now
    have hpush : (d.push json topic payload now later outcome).1 = { d with inner } := by
      rw [DdlWithWal.push, heq]
      rcases result with _ | e | id
      · rfl
      · rfl
      · exact absurd rfl (hrefused.result id)
    have hwaits : Waits json (d.step json (.push topic payload now later outcome)) := by
      rw [DdlWithWal.step, hpush]
      refine h.withInner hrefused.config hrefused.waiting hrefused.written
        fun t info hinfo => .inr ⟨info, ?_, rfl⟩
      rwa [DdlDistributed.subscribersOf, ← hrefused.subscribers]
    refine ⟨fun t _ => ?_, fun _ => hwaits⟩
    rw [hwaits.agree_iff, Lands]
    simp [haccepts]

theorem resume (h : d.Waits json) (i : ℕ) (later : UInt64) (outcome : Except WalError Unit) :
    Step json d (.resume i later outcome) := by
  cases hw : d.inner.waiting[i]? with
  | none =>
    have hresume : d.resume json i later outcome = (d, none) := by rw [DdlWithWal.resume, hw]
    refine ⟨?_, fun _ => ?_⟩
    · rintro topic ⟨⟨w, hsome, -⟩, -⟩
      rw [hw] at hsome
      cases hsome
    · rwa [DdlWithWal.step, hresume]
  | some w =>
    obtain ⟨hlt, hget⟩ := List.getElem?_eq_some_iff.mp hw
    have hmem : w ∈ d.inner.waiting := List.mem_of_getElem? hw
    obtain ⟨inner, result, heq, hnotified, idx, hends⟩ := DdlDistributed.resume_spec hw
    have hblock := h.mode (List.ne_nil_of_mem hmem)
    have hperm : (d.inner.waiting.map Waiting.entry).Perm
        ((d.inner.waiting.eraseIdx i).map Waiting.entry ++ [w.entry]) := by
      have herase := (List.getElem_cons_eraseIdx_perm hlt).symm
      rw [hget] at herase
      exact (herase.map _).trans (List.perm_append_singleton _ _).symm
    have htracked : Tracked json { d with inner } (d.inner.waiting.map Waiting.entry) := by
      refine h.tracked.notified (List.mem_map_of_mem hmem) ?_
      rwa [h.topics w hmem]
    let before := { d.inner with waiting := d.inner.waiting.eraseIdx i }
    have hunderway : Underway json { d with inner } before.waiting w.topic w.entry :=
      ⟨htracked.perm hperm, fun w' hw' => h.topics w' (List.mem_of_mem_eraseIdx hw'),
        h.topics w hmem, fun _ => hnotified.config ▸ hblock⟩
    obtain ⟨hagree, hwaits⟩ := hunderway.writeAhead hnotified.config hends later outcome
    have hresume : d.resume json i later outcome = d.writeAhead json w.topic w.entry.payload later
        outcome (inner, result.map (·.map fun _ => w.entry.id)) := by
      rw [DdlWithWal.resume, hw, heq]
    rw [← hresume] at hagree hwaits
    have hlands : d.Lands (.resume i later outcome) ↔
        outcome = .ok () ∧ ¬ d.inner.Refuses w.topic idx := by
      simp [Lands, DdlDistributed.Refuses, hblock]
    constructor
    · rintro topic ⟨⟨w', hw', rfl⟩, hreturn⟩
      obtain rfl := Option.some.inj (hw.symm.trans hw')
      rw [hlands]
      exact hagree hreturn
    · rw [hlands]
      rintro (hreturn | hlanded)
      · exact hwaits (.inl (by_contra fun hne => hreturn w.topic ⟨⟨w, hw, rfl⟩, hne⟩))
      · exact hwaits (.inr hlanded)

theorem step (h : d.Waits json) (op : WalOp) : Step json d op := by
  have hreceive : ∀ c : Channel, c.receive.sent = c.sent := by
    intro c
    unfold Channel.receive
    split <;> rfl
  have hdisconnect : ∀ c : Channel, c.disconnect.sent = c.sent := fun _ => rfl
  cases op with
  | push topic payload now later outcome => exact h.push topic payload now later outcome
  | resume i later outcome => exact h.resume i later outcome
  | subscribe topic =>
    refine ⟨fun _ hreturn => hreturn.elim, fun _ => ?_⟩
    rw [DdlWithWal.step]
    split
    · exact h
    · have hsubscribed := d.inner.subscribed_subscribe topic
      refine h.withInner hsubscribed.config hsubscribed.waiting hsubscribed.written
        fun t info hinfo => ?_
      exact (hsubscribed.subscribers t info hinfo).symm.imp_right fun hold => ⟨info, hold, rfl⟩
  | ack topic entryId =>
    have hacked := d.inner.acked_ack topic entryId
    refine ⟨fun _ hreturn => hreturn.elim, fun _ => ?_⟩
    refine h.withInner hacked.config hacked.waiting hacked.written
      fun t info hinfo => .inr ⟨info, ?_, rfl⟩
    rwa [DdlDistributed.subscribersOf, ← hacked.subscribers]
  | receive topic subscriber =>
    refine ⟨fun _ hreturn => hreturn.elim, fun _ => h.withInner rfl rfl (fun _ => rfl) ?_⟩
    exact fun t info hinfo => .inr
      (DdlDistributed.mem_subscribersOf_modifySender hreceive hinfo)
  | disconnect topic subscriber =>
    refine ⟨fun _ hreturn => hreturn.elim, fun _ => h.withInner rfl rfl (fun _ => rfl) ?_⟩
    exact fun t info hinfo => .inr
      (DdlDistributed.mem_subscribersOf_modifySender hdisconnect hinfo)
  | restart config => exact ⟨fun _ hreturn => hreturn.elim, fun _ => .new json config d.disk⟩

end Waits

/-- Memory and log agree about a topic whenever a push to it returns, exactly if every push that
returns has been taken by the subscribers and by the disk, no push to the same topic is waiting
then, and none that waits elsewhere has reached a subscriber. -/
theorem memory_agrees_iff (json : Codec Entry) (config : StandaloneConfig) (disk : Disk)
    (ops : List WalOp) :
    Along (step json) (AgreesOnReturn json) (.new config disk) ops ↔
      Along (step json) (LandsOnReturn json) (.new config disk) ops := by
  refine along_congr_of_inv (I := Waits json) (R := fun _ _ => True) ?_ ?_ (.new json config disk)
    (along_of_forall fun _ _ _ => trivial)
  · intro d op h _ hlands
    refine (h.step op).waits ?_
    by_cases hreturn : ∃ topic, d.Returns json op topic
    · obtain ⟨topic, hreturn⟩ := hreturn
      exact .inr (hlands topic hreturn).1
    · exact .inl (not_exists.mp hreturn)
  · intro d op h _
    exact forall₂_congr fun topic hreturn => (h.step op).agree topic hreturn

/-- The disk does not take an entry that the subscriber already has, a full subscriber keeps an
entry from being written, and the disk does not take an entry that had to wait for a subscriber. -/
theorem memory_disagrees_after_errors :
    let unwritten : List WalOp := [.subscribe "t", .push "t" [1] 10 11 (.error (.io "disk full"))]
    let refused : List WalOp :=
      [.subscribe "t", .push "t" [1] 10 11 (.ok ()), .push "t" [2] 12 13 (.ok ())]
    let waited : List WalOp :=
      [.subscribe "t", .push "t" [1] 10 11 (.ok ()), .push "t" [2] 12 13 (.ok ()),
        .receive "t" 0, .resume 0 14 (.error (.io "disk full"))]
    let runs : List (BackpressureMode × List WalOp × UInt64 × List UInt64) :=
      [(.dropOldest, unwritten, 0, [0]), (.error, refused, 1, [0]), (.block, waited, 1, [0, 1])]
    ∀ run ∈ runs,
      let d := exec (step Plain.json) (.new ⟨⟨4, 1, run.1⟩, [], 0⟩ ∅) run.2.1
      d.inner.waiting = [] ∧
        run.2.2.1.toNat < d.inner.written "t" ∧
        (∀ e ∈ d.logged Plain.json "t", e.id ≠ run.2.2.1) ∧
        (d.inner.subscribersOf "t").map (fun info => info.sender.sent.map Entry.id) =
          [run.2.2.2] ∧
        ¬ d.Agree Plain.json "t" := by
  intro unwritten refused waited runs run hrun d
  have hruns : ∀ run ∈ runs,
      let d := exec (step Plain.json) (.new ⟨⟨4, 1, run.1⟩, [], 0⟩ ∅) run.2.1
      d.inner.waiting = [] ∧
        run.2.2.1.toNat < d.inner.written "t" ∧
        (∀ e ∈ d.logged Plain.json "t", e.id ≠ run.2.2.1) ∧
        (d.inner.subscribersOf "t").map (fun info => info.sender.sent.map Entry.id) =
          [run.2.2.2] := by
    decide +kernel
  obtain ⟨hwaiting, hwritten, hmissing, hsent⟩ := hruns run hrun
  refine ⟨hwaiting, hwritten, hmissing, hsent, fun h => ?_⟩
  obtain ⟨e, he, hid⟩ := (h.ids run.2.2.1).mp hwritten
  exact hmissing e he hid

end DdlWithWal

end DumbDistributedLog.Ddl.Wal
