import DumbDistributedLog.Queue.Cleanup

/-! # The standalone log

Without peers, every topic is owned. A topic gets its queue on first use, up to a limit on
the number of topics. A push appends to the queue, reads the entry back and notifies the
subscribers of the topic. After the entry has got its id, the push can still fail, or have to
wait for a subscriber, and then it goes on in a later step.
-/

namespace DumbDistributedLog.Ddl

/-- What the creation of topics uses of the configuration as well. -/
structure StandaloneConfig extends DdlConfig where
  ownedTopics : List String
  maxTopics : ℕ
  deriving DecidableEq, Repr

def isControl (c : Char) : Bool := c.toNat < 32 || (127 ≤ c.toNat && c.toNat < 160)

def containsDots : List Char → Bool
  | '.' :: '.' :: _ => true
  | _ :: cs => containsDots cs
  | [] => false

/-- The length is that of the encoded name, although the message speaks of characters. -/
def validateTopic (topic : String) : Except DdlError Unit :=
  if topic.isEmpty then .error (.invalidTopic "topic name cannot be empty")
  else if topic.utf8ByteSize > 255 then
    .error (.invalidTopic
      ("topic name too long: " ++ toString topic.utf8ByteSize ++ " characters"))
  else if containsDots topic.toList then
    .error (.invalidTopic "topic name cannot contain '..'")
  else if topic.toList.any isControl then
    .error (.invalidTopic "topic name cannot contain control characters")
  else .ok ()

theorem validateTopic_error {topic : String} {e : DdlError} (h : validateTopic topic = .error e) :
    ∃ message, e = .invalidTopic message := by
  unfold validateTopic at h
  split at h
  · exact ⟨_, (Except.error.inj h).symm⟩
  · split at h
    · exact ⟨_, (Except.error.inj h).symm⟩
    · split at h
      · exact ⟨_, (Except.error.inj h).symm⟩
      · split at h
        · exact ⟨_, (Except.error.inj h).symm⟩
        · cases h

theorem validateTopic_eq_ok_iff {topic : String} : validateTopic topic = .ok () ↔
    topic ≠ "" ∧ topic.utf8ByteSize ≤ 255 ∧ containsDots topic.toList = false ∧
      topic.toList.any isControl = false := by
  unfold validateTopic
  split_ifs with hempty hlong hdots hcontrol
  · simp [String.isEmpty_iff.mp hempty]
  · simp [Nat.not_le.mpr hlong]
  · simp [hdots]
  · simp [hcontrol]
  · have hne : topic ≠ "" := fun heq => hempty (String.isEmpty_iff.mpr heq)
    simp [hne, Nat.not_lt.mp hlong, hdots, hcontrol]

/-- A push that has appended its entry and not returned. It waits for room in the channel of a
subscriber and keeps the list of subscribers locked, or waits for the list to remove the indices
from it. -/
structure Waiting where
  topic : String
  entry : Entry
  subscriber : Option ℕ
  indices : List ℕ
  deriving DecidableEq, Repr

structure DdlDistributed where
  config : StandaloneConfig
  topics : Table String TopicQueue
  subscribers : Table String (List SubscriberInfo)
  topicCount : ℕ
  waiting : List Waiting

namespace DdlDistributed

def newStandalone (config : StandaloneConfig) : DdlDistributed where
  config := config
  topics := config.ownedTopics.foldl
    (fun topics topic => topics.insert topic (.new config.bufferSize)) ∅
  subscribers := ∅
  topicCount := config.ownedTopics.length
  waiting := []

variable (d : DdlDistributed)

/-- The limit is compared with the counter of topics, in which an owned topic that is
configured twice counts twice. -/
def getOrCreateTopic (topic : String) : DdlDistributed × Except DdlError TopicQueue :=
  match d.topics[topic]? with
  | some queue => (d, .ok queue)
  | none =>
    if d.config.maxTopics > 0 ∧ d.topicCount ≥ d.config.maxTopics then
      (d, .error (.topicLimitExceeded d.config.maxTopics d.topicCount))
    else
      let queue : TopicQueue := .new d.config.bufferSize
      ({ d with topics := d.topics.insert topic queue, topicCount := d.topicCount + 1 }, .ok queue)

/-- A push is in the middle of the subscribers of the topic, which it is only if it blocks. -/
def Held (topic : String) : Prop :=
  d.config.subscriptionBackpressure = .block ∧
    ∃ w ∈ d.waiting, w.topic = topic ∧ w.subscriber.isSome

instance (topic : String) : Decidable (d.Held topic) :=
  inferInstanceAs (Decidable (_ ∧ ∃ w ∈ d.waiting, _ ∧ _))

/-- The second part of a notification. There is no result while it has to wait. -/
def cleanUp (topic : String) (entry : Entry) (indices : List ℕ) :
    DdlDistributed × Option (Except DdlError Unit) :=
  if indices = [] then (d, some (.ok ()))
  else if d.Held topic then
    ({ d with waiting := d.waiting ++ [⟨topic, entry, none, indices⟩] }, none)
  else
    ({ d with subscribers := d.subscribers.modify topic (removeIndices · indices) },
      some (.ok ()))

/-- The notification of the subscribers from the given index on, after those at the given indices
were found disconnected. Nothing is done for a topic that nobody ever subscribed to. -/
def offerFrom (topic : String) (entry : Entry) (idx : ℕ) (indices : List ℕ) :
    DdlDistributed × Option (Except DdlError Unit) :=
  match d.subscribers[topic]? with
  | none => (d, some (.ok ()))
  | some infos =>
    let (offered, more, ended) :=
      offerAll d.config.subscriptionBackpressure topic entry idx (infos.drop idx)
    let d' := { d with subscribers := d.subscribers.insert topic (infos.take idx ++ offered) }
    match ended with
    | .done => d'.cleanUp topic entry (indices ++ more)
    | .failed e => (d', some (.error e))
    | .waits subscriber =>
      ({ d' with waiting := d'.waiting ++ [⟨topic, entry, some subscriber, indices ++ more⟩] },
        none)

def notify (topic : String) (entry : Entry) : DdlDistributed × Option (Except DdlError Unit) :=
  d.offerFrom topic entry 0 []

/-- What a push does once nothing speaks against the topic. It has no result if the thread panics,
and none while it waits. -/
def appendOwned (topic : String) (payload : List UInt8) (now : UInt64) :
    DdlDistributed × Option (Except DdlError UInt64) :=
  match d.getOrCreateTopic topic with
  | (d', .error e) => (d', some (.error e))
  | (d', .ok queue) =>
    let (queue', result) := queue.push topic payload now
    let d'' := { d' with topics := d'.topics.insert topic queue' }
    match result with
    | none => (d'', none)
    | some (.error e) => (d'', some (.error e))
    | some (.ok id) =>
      match queue'.read id with
      | none => (d'', some (.ok id))
      | some entry =>
        let (notified, result) := d''.notify topic entry
        (notified, result.map (·.map fun _ => id))

def push (topic : String) (payload : List UInt8) (now : UInt64) :
    DdlDistributed × Option (Except DdlError UInt64) :=
  match validateTopic topic with
  | .error e => (d, some (.error e))
  | .ok () => d.appendOwned topic payload now

def resume (i : ℕ) : DdlDistributed × Option (Except DdlError UInt64) :=
  match d.waiting[i]? with
  | none => (d, none)
  | some w =>
    let d' := { d with waiting := d.waiting.eraseIdx i }
    let (notified, result) := match w.subscriber with
      | some idx => d'.offerFrom w.topic w.entry idx w.indices
      | none => d'.cleanUp w.topic w.entry w.indices
    (notified, result.map (·.map fun _ => w.entry.id))

def subscribe (topic : String) : DdlDistributed × Except DdlError Unit :=
  match validateTopic topic with
  | .error e => (d, .error e)
  | .ok () =>
    match d.getOrCreateTopic topic with
    | (d', .error e) => (d', .error e)
    | (d', .ok queue) =>
      let sender : Channel := ⟨d'.config.subscriptionBufferSize, [], 0, true⟩
      let infos := d'.subscribers[topic]?.getD [] ++ [⟨sender, queue.position.toNat⟩]
      ({ d' with subscribers := d'.subscribers.insert topic infos }, .ok ())

def ack (topic : String) (entryId : UInt64) : DdlDistributed × Except DdlError Unit :=
  match d.topics[topic]? with
  | some queue => ({ d with topics := d.topics.insert topic (queue.ack entryId) }, .ok ())
  | none => (d, .error (.topicNotFound topic))

def position (topic : String) : Except DdlError UInt64 :=
  match d.topics[topic]? with
  | some queue => .ok queue.position
  | none => .error (.topicNotFound topic)

def modifySender (topic : String) (subscriber : ℕ) (f : Channel → Channel) : DdlDistributed :=
  { d with subscribers := d.subscribers.modify topic fun infos =>
      infos.modify subscriber fun info => { info with sender := f info.sender } }

def queue (topic : String) : TopicQueue := d.topics[topic]?.getD (.new d.config.bufferSize)

def subscribersOf (topic : String) : List SubscriberInfo := d.subscribers[topic]?.getD []

def written (topic : String) : ℕ := (d.queue topic).writePos.toNat

def Admits (topic : String) : Prop :=
  topic ∈ d.topics ∨ d.config.maxTopics = 0 ∨ d.topicCount < d.config.maxTopics

def Accepts (topic : String) : Prop :=
  validateTopic topic = .ok () ∧ d.Admits topic ∧ (d.queue topic).Open

instance (topic : String) : Decidable (d.Admits topic) :=
  inferInstanceAs (Decidable (_ ∨ _ ∨ _))

instance (topic : String) : Decidable (d.Accepts topic) :=
  inferInstanceAs (Decidable (_ ∧ _ ∧ _))

variable {d} {topic : String}

/-- Queues and subscribers are the same, apart from queues that are made before use. -/
structure Same (d d' : DdlDistributed) : Prop where
  config : d'.config = d.config
  queue : ∀ topic, d'.queue topic = d.queue topic
  subscribers : d'.subscribers = d.subscribers
  waiting : d'.waiting = d.waiting

theorem Same.refl (d : DdlDistributed) : Same d d := ⟨rfl, fun _ => rfl, rfl, rfl⟩

structure Replaced (d : DdlDistributed) (topic : String) (queue : TopicQueue)
    (d' : DdlDistributed) : Prop where
  config : d'.config = d.config
  self : d'.queue topic = queue
  other : ∀ t, topic ≠ t → d'.queue t = d.queue t
  subscribers : d'.subscribers = d.subscribers
  waiting : d'.waiting = d.waiting

theorem Same.replaced {d' : DdlDistributed} (h : Same d d') (topic : String) (queue : TopicQueue) :
    Replaced d topic queue { d' with topics := d'.topics.insert topic queue } where
  config := h.config
  self := by simp [DdlDistributed.queue]
  other t ht := by
    rw [← h.queue t]
    simp [DdlDistributed.queue, Table.get_insert, ht]
  subscribers := h.subscribers
  waiting := h.waiting

theorem getOrCreateTopic_of_admits (h : d.Admits topic) :
    ∃ d', d.getOrCreateTopic topic = (d', .ok (d.queue topic)) ∧ Same d d' := by
  unfold getOrCreateTopic queue
  cases hq : d.topics[topic]? with
  | some queue => exact ⟨d, rfl, .refl d⟩
  | none =>
    have hlimit : ¬ (d.config.maxTopics > 0 ∧ d.topicCount ≥ d.config.maxTopics) := by
      rcases h with hmem | hlimit
      · obtain ⟨queue, hqueue⟩ := (Table.mem_iff_get _).mp hmem
        exact absurd (hq.symm.trans hqueue) (by simp)
      · omega
    refine ⟨_, if_neg hlimit, rfl, fun t => ?_, rfl, rfl⟩
    simp only [DdlDistributed.queue, Table.get_insert]
    split
    · rename_i heq
      rw [← heq, hq]
      rfl
    · rfl

theorem getOrCreateTopic_of_not_admits (h : ¬ d.Admits topic) : d.getOrCreateTopic topic =
    (d, .error (.topicLimitExceeded d.config.maxTopics d.topicCount)) := by
  obtain ⟨hmem, hmax, hcount⟩ : topic ∉ d.topics ∧ d.config.maxTopics ≠ 0 ∧
      ¬ d.topicCount < d.config.maxTopics := by
    simpa [Admits] using h
  have hq : d.topics[topic]? = none := by
    simpa using hmem
  rw [getOrCreateTopic, hq]
  exact if_pos (by omega)

theorem topics_getOrCreateTopic {d' : DdlDistributed} {queue : TopicQueue}
    (h : d.getOrCreateTopic topic = (d', .ok queue)) : d'.topics[topic]? = some queue := by
  unfold getOrCreateTopic at h
  split at h
  · rename_i hq
    cases h
    exact hq
  · split at h
    · cases h
    · cases h
      simp

section Notifications

variable {d' : DdlDistributed} {entry : Entry}

/-- A notification changes no more than the subscribers of its topic. The entry is offered to
those that stay. -/
structure Notified (d : DdlDistributed) (topic : String) (entry : Entry) (d' : DdlDistributed) :
    Prop where
  config : d'.config = d.config
  topics : d'.topics = d.topics
  topicCount : d'.topicCount = d.topicCount
  subscribers : ∀ t, topic ≠ t → d'.subscribersOf t = d.subscribersOf t
  offered : ∀ info ∈ d'.subscribersOf topic, ∃ old ∈ d.subscribersOf topic, old.Offered entry info

theorem Notified.refl (d : DdlDistributed) (topic : String) (entry : Entry) :
    Notified d topic entry d :=
  ⟨rfl, rfl, rfl, fun _ _ => rfl, fun info hinfo => ⟨info, hinfo, .refl entry info⟩⟩

theorem Notified.withWaiting (h : Notified d topic entry d') (waiting : List Waiting) :
    Notified d topic entry { d' with waiting } :=
  ⟨h.config, h.topics, h.topicCount, h.subscribers, h.offered⟩

theorem Notified.cleanUp (h : Notified d topic entry d') (indices : List ℕ) :
    Notified d topic entry (d'.cleanUp topic entry indices).1 := by
  unfold DdlDistributed.cleanUp
  split_ifs
  · exact h
  · exact h.withWaiting _
  · refine ⟨h.config, h.topics, h.topicCount, fun t ht => ?_, fun info hinfo => ?_⟩
    · rw [← h.subscribers t ht]
      simp [subscribersOf, Table.get_modify, ht]
    · refine h.offered info ?_
      simp only [subscribersOf, Table.get_modify, if_true] at hinfo ⊢
      cases hs : d'.subscribers[topic]? with
      | none => simp [hs] at hinfo
      | some infos =>
        rw [hs] at hinfo
        exact removeIndices_sublist.mem hinfo

theorem Notified.insert {infos offered : List SubscriberInfo} {idx : ℕ}
    (hinfos : d.subscribers[topic]? = some infos)
    (h : List.Forall₂ (SubscriberInfo.Offered entry) (infos.drop idx) offered) :
    Notified d topic entry
      { d with subscribers := d.subscribers.insert topic (infos.take idx ++ offered) } := by
  refine ⟨rfl, rfl, rfl, fun t ht => ?_, fun info hinfo => ?_⟩
  · simp [subscribersOf, Table.get_insert, ht]
  · simp only [subscribersOf, Table.get_insert, if_true, Option.getD_some] at hinfo
    rw [subscribersOf, hinfos, Option.getD_some]
    rcases List.mem_append.mp hinfo with hbefore | hafter
    · exact ⟨info, List.mem_of_mem_take hbefore, .refl entry info⟩
    · obtain ⟨old, hold, hoffered⟩ := SubscriberInfo.Offered.exists_of_mem h hafter
      exact ⟨old, List.mem_of_mem_drop hold, hoffered⟩

/-- How a notification ends, which fails if a subscriber refuses the entry. -/
inductive Ends (d : DdlDistributed) (topic : String) (entry : Entry) (refuses : Prop)
    (d' : DdlDistributed) : Option (Except DdlError Unit) → Prop
  | done (hwaiting : d'.waiting = d.waiting) (hrefuses : ¬ refuses) :
    Ends d topic entry refuses d' (some (.ok ()))
  | failed (hwaiting : d'.waiting = d.waiting) (hrefuses : refuses) :
    Ends d topic entry refuses d' (some (.error (.subscriberBufferFull topic)))
  | waits (subscriber : Option ℕ) (indices : List ℕ)
    (hwaiting : d'.waiting = d.waiting ++ [⟨topic, entry, subscriber, indices⟩])
    (hmode : d.config.subscriptionBackpressure = .block) : Ends d topic entry refuses d' none

theorem Notified.ends_cleanUp (h : Notified d topic entry d') (hwaiting : d'.waiting = d.waiting)
    {refuses : Prop} (hrefuses : ¬ refuses) (indices : List ℕ) :
    Ends d topic entry refuses (d'.cleanUp topic entry indices).1
      (d'.cleanUp topic entry indices).2 := by
  unfold DdlDistributed.cleanUp
  split_ifs with hnil hheld
  · exact .done hwaiting hrefuses
  · exact .waits none indices (by rw [hwaiting]) (h.config ▸ hheld.1)
  · exact .done hwaiting hrefuses

def Refuses (d : DdlDistributed) (topic : String) (idx : ℕ) : Prop :=
  d.config.subscriptionBackpressure = .error ∧ AnyFull ((d.subscribersOf topic).drop idx)

theorem offerFrom_spec (d : DdlDistributed) (topic : String) (entry : Entry) (idx : ℕ)
    (indices : List ℕ) :
    Notified d topic entry (d.offerFrom topic entry idx indices).1 ∧
      Ends d topic entry (d.Refuses topic idx) (d.offerFrom topic entry idx indices).1
        (d.offerFrom topic entry idx indices).2 := by
  unfold offerFrom
  cases hs : d.subscribers[topic]? with
  | none =>
    have hrefuses : ¬ d.Refuses topic idx := by simp [Refuses, subscribersOf, hs, AnyFull]
    exact ⟨.refl d topic entry, .done rfl hrefuses⟩
  | some infos =>
    have hscan := scanned_offerAll d.config.subscriptionBackpressure topic entry idx
      (infos.drop idx)
    have hrefuses : d.Refuses topic idx ↔ d.config.subscriptionBackpressure = .error ∧
        AnyFull (infos.drop idx) := by
      rw [Refuses, subscribersOf, hs, Option.getD_some]
    rcases hoffer : offerAll d.config.subscriptionBackpressure topic entry idx (infos.drop idx)
      with ⟨offered, more, ended⟩
    rw [hoffer] at hscan
    dsimp only
    rw [hoffer]
    have hinsert := Notified.insert hs hscan.offered
    cases ended with
    | done =>
      dsimp only
      refine ⟨hinsert.cleanUp _, hinsert.ends_cleanUp rfl (fun h => ?_) _⟩
      exact absurd ((hscan.failed _).mpr ⟨rfl, hrefuses.mp h⟩) (by simp)
    | failed e =>
      obtain ⟨rfl, h⟩ := (hscan.failed e).mp rfl
      exact ⟨hinsert, .failed rfl (hrefuses.mpr h)⟩
    | waits subscriber =>
      exact ⟨hinsert.withWaiting _, .waits (some subscriber) _ rfl
        (hscan.waits.mp ⟨subscriber, rfl⟩).1⟩

/-- A notification that does not block is made without anything in between. -/
theorem notify_of_not_block (hmode : d.config.subscriptionBackpressure ≠ .block)
    (topic : String) (entry : Entry) :
    ∃ result, notifySubscribers d.config.subscriptionBackpressure topic entry
      (d.subscribersOf topic) = some ((d.notify topic entry).1.subscribersOf topic, result) := by
  unfold notify offerFrom notifySubscribers
  cases hs : d.subscribers[topic]? with
  | none => exact ⟨.ok (), by simp [subscribersOf, hs, offerAll, removeIndices]⟩
  | some infos =>
    have hscan := scanned_offerAll d.config.subscriptionBackpressure topic entry 0 infos
    rcases hoffer : offerAll d.config.subscriptionBackpressure topic entry 0 infos with
      ⟨offered, more, ended⟩
    rw [hoffer] at hscan
    rw [subscribersOf, hs]
    simp only [Option.getD_some, List.drop_zero, List.take_zero, List.nil_append, hoffer]
    cases ended with
    | done =>
      refine ⟨.ok (), ?_⟩
      simp only [cleanUp, Held, hmode, false_and, if_false]
      split_ifs with hnil
      · simp [hnil, subscribersOf, removeIndices]
      · simp [subscribersOf]
    | failed e => exact ⟨.error e, by simp [subscribersOf]⟩
    | waits subscriber => exact absurd (hscan.waits.mp ⟨subscriber, rfl⟩).1 hmode

/-- A waiting push is notified further, and is no longer waiting unless it has to wait again. -/
theorem resume_spec {i : ℕ} {w : Waiting} (h : d.waiting[i]? = some w) :
    ∃ d' result, d.resume i = (d', result.map (·.map fun _ => w.entry.id)) ∧
      Notified d w.topic w.entry d' ∧
      ∃ idx, Ends { d with waiting := d.waiting.eraseIdx i } w.topic w.entry
        (d.Refuses w.topic idx) d' result := by
  obtain ⟨topic, entry, subscriber, indices⟩ := w
  unfold resume
  rw [h]
  cases subscriber with
  | none =>
    have hstart := Notified.refl { d with waiting := d.waiting.eraseIdx i } topic entry
    refine ⟨_, _, rfl, ((Notified.refl d topic entry).withWaiting _).cleanUp indices,
      (d.subscribersOf topic).length, hstart.ends_cleanUp rfl ?_ indices⟩
    simp [Refuses, AnyFull]
  | some idx =>
    obtain ⟨hnotified, hends⟩ :=
      offerFrom_spec { d with waiting := d.waiting.eraseIdx i } topic entry idx indices
    exact ⟨_, _, rfl, ⟨hnotified.config, hnotified.topics, hnotified.topicCount,
      hnotified.subscribers, hnotified.offered⟩, idx, hends⟩

end Notifications

/-- A push that gets no id leaves the ids that were given out and the subscribers alone. -/
structure Refused (d d' : DdlDistributed) (result : Option (Except DdlError UInt64)) : Prop where
  config : d'.config = d.config
  written : ∀ topic, d'.written topic = d.written topic
  subscribers : d'.subscribers = d.subscribers
  waiting : d'.waiting = d.waiting
  result : ∀ id, result ≠ some (.ok id)

theorem Refused.of_error (d : DdlDistributed) (e : DdlError) : Refused d d (some (.error e)) :=
  ⟨rfl, fun _ => rfl, rfl, rfl, by simp⟩

theorem appendOwned_of_queue_refuses (hadmits : d.Admits topic)
    {payload : List UInt8} {now : UInt64} {queue' : TopicQueue}
    {result : Option (Except DdlError UInt64)}
    (hpush : (d.queue topic).push topic payload now = (queue', result))
    (hresult : ∀ id, result ≠ some (.ok id)) :
    ∃ d', d.appendOwned topic payload now = (d', result) ∧ topic ∈ d'.topics ∧
      Replaced d topic queue' d' := by
  obtain ⟨d', hcreate, hsame⟩ := getOrCreateTopic_of_admits hadmits
  refine ⟨{ d' with topics := d'.topics.insert topic queue' }, ?_, by simp,
    hsame.replaced topic queue'⟩
  simp only [appendOwned, hcreate, hpush]
  rcases result with _ | e | id
  · rfl
  · rfl
  · exact absurd rfl (hresult id)

theorem appendOwned_of_not_admits (h : ¬ d.Admits topic) (payload : List UInt8) (now : UInt64) :
    d.appendOwned topic payload now =
      (d, some (.error (.topicLimitExceeded d.config.maxTopics d.topicCount))) := by
  simp only [appendOwned, getOrCreateTopic_of_not_admits h]

theorem push_of_valid (h : validateTopic topic = .ok ()) (payload : List UInt8) (now : UInt64) :
    d.push topic payload now = d.appendOwned topic payload now := by
  rw [push, h]

theorem push_of_not_accepts (h : ¬ d.Accepts topic) (payload : List UInt8) (now : UInt64) :
    ∃ d' result, d.push topic payload now = (d', result) ∧ Refused d d' result := by
  cases hvalid : validateTopic topic with
  | error e => exact ⟨d, _, by simp only [push, hvalid], .of_error d e⟩
  | ok _ =>
    rw [push_of_valid hvalid]
    by_cases hadmits : d.Admits topic
    · have hopen : ¬ (d.queue topic).Open := fun hopen => h ⟨hvalid, hadmits, hopen⟩
      obtain ⟨hwrite, hresult⟩ := TopicQueue.push_of_not_open hopen topic payload now
      rcases hpush : (d.queue topic).push topic payload now with ⟨queue', result⟩
      rw [hpush] at hwrite hresult
      obtain ⟨d', heq, -, hreplaced⟩ := appendOwned_of_queue_refuses hadmits hpush hresult
      refine ⟨d', result, heq, hreplaced.config, fun t => ?_, hreplaced.subscribers,
        hreplaced.waiting, hresult⟩
      unfold written
      by_cases ht : topic = t
      · rw [← ht, hreplaced.self, hwrite]
      · rw [hreplaced.other t ht]
    · exact ⟨d, _, appendOwned_of_not_admits hadmits payload now, .of_error d _⟩

def entryOf (d : DdlDistributed) (topic : String) (payload : List UInt8) (now : UInt64) : Entry :=
  ⟨(d.queue topic).writePos, now, topic, payload⟩

@[simp] theorem entryOf_topic (payload : List UInt8) (now : UInt64) :
    (d.entryOf topic payload now).topic = topic := rfl

/-- What a push does that gets an id, whether it returns or not. -/
structure Made (d : DdlDistributed) (entry : Entry) (d' : DdlDistributed) : Prop where
  config : d'.config = d.config
  pushed : (d.queue entry.topic).Pushed entry (d'.queue entry.topic)
  other : ∀ t, entry.topic ≠ t → d'.queue t = d.queue t
  subscribers : ∀ t, entry.topic ≠ t → d'.subscribersOf t = d.subscribersOf t
  offered : ∀ info ∈ d'.subscribersOf entry.topic, ∃ old ∈ d.subscribersOf entry.topic,
    old.Offered entry info
  notified : d.config.subscriptionBackpressure ≠ .block → ∃ result,
    notifySubscribers d.config.subscriptionBackpressure entry.topic entry
      (d.subscribersOf entry.topic) = some (d'.subscribersOf entry.topic, result)

theorem Notified.queue {d' : DdlDistributed} {entry : Entry} (h : Notified d topic entry d')
    (t : String) : d'.queue t = d.queue t := by
  rw [DdlDistributed.queue, h.topics, h.config, DdlDistributed.queue]

theorem Replaced.subscribersOf {queue : TopicQueue} {d' : DdlDistributed}
    (h : Replaced d topic queue d') (t : String) : d'.subscribersOf t = d.subscribersOf t := by
  rw [DdlDistributed.subscribersOf, h.subscribers, DdlDistributed.subscribersOf]

theorem Replaced.made {queue : TopicQueue} {d' : DdlDistributed} {entry : Entry}
    (h : Replaced d entry.topic queue d') (hpushed : (d.queue entry.topic).Pushed entry queue) :
    Made d entry (d'.notify entry.topic entry).1 := by
  have hnotified : Notified d' entry.topic entry (d'.notify entry.topic entry).1 :=
    (offerFrom_spec d' entry.topic entry 0 []).1
  refine ⟨hnotified.config.trans h.config, ?_, fun t ht => ?_, fun t ht => ?_, ?_, fun hmode => ?_⟩
  · rwa [hnotified.queue, h.self]
  · rw [hnotified.queue, h.other t ht]
  · rw [hnotified.subscribers t ht, h.subscribersOf]
  · rw [← h.subscribersOf]
    exact hnotified.offered
  · rw [← h.subscribersOf, ← h.config]
    exact notify_of_not_block (by rwa [h.config]) entry.topic entry

theorem Replaced.ends {queue : TopicQueue} {d' d'' : DdlDistributed} {entry : Entry}
    {result : Option (Except DdlError Unit)} (h : Replaced d topic queue d')
    (hends : Ends d' topic entry (d'.Refuses topic 0) d'' result) :
    Ends d topic entry (d.Refuses topic 0) d'' result := by
  have hrefuses : d'.Refuses topic 0 ↔ d.Refuses topic 0 := by
    rw [Refuses, h.config, h.subscribersOf, Refuses]
  rcases hends with ⟨hwaiting, hr⟩ | ⟨hwaiting, hr⟩ | ⟨subscriber, indices, hwaiting, hmode⟩
  · exact .done (hwaiting.trans h.waiting) (mt hrefuses.mpr hr)
  · exact .failed (hwaiting.trans h.waiting) (hrefuses.mp hr)
  · exact .waits subscriber indices (by rw [hwaiting, h.waiting]) (h.config ▸ hmode)

theorem appendOwned_of_open (hadmits : d.Admits topic) (hopen : (d.queue topic).Open)
    (payload : List UInt8) (now : UInt64) :
    ∃ d' result, d.appendOwned topic payload now =
        (d', result.map (·.map fun _ => (d.queue topic).writePos)) ∧
      Made d (d.entryOf topic payload now) d' ∧
      Ends d topic (d.entryOf topic payload now) (d.Refuses topic 0) d' result := by
  obtain ⟨d', hcreate, hsame⟩ := getOrCreateTopic_of_admits hadmits
  obtain ⟨queue', hpush, hpushed⟩ := TopicQueue.push_of_open hopen topic payload now
  have hreplaced : Replaced d (d.entryOf topic payload now).topic queue'
      { d' with topics := d'.topics.insert topic queue' } := hsame.replaced topic queue'
  have hread : queue'.read (d.queue topic).writePos = some (d.entryOf topic payload now) :=
    hpushed.read
  refine ⟨_, _, ?_, hreplaced.made hpushed, hreplaced.ends (offerFrom_spec _ _ _ 0 []).2⟩
  simp only [appendOwned, hcreate, hpush, hread]
  rfl

theorem push_of_accepts (h : d.Accepts topic) (payload : List UInt8) (now : UInt64) :
    ∃ d' result, d.push topic payload now =
        (d', result.map (·.map fun _ => (d.queue topic).writePos)) ∧
      Made d (d.entryOf topic payload now) d' ∧
      Ends d topic (d.entryOf topic payload now) (d.Refuses topic 0) d' result := by
  rw [push_of_valid h.1]
  exact appendOwned_of_open h.2.1 h.2.2 payload now

theorem push_of_no_subscribers (hsubs : d.subscribers[topic]? = none)
    (hvalid : validateTopic topic = .ok ()) (hadmits : d.Admits topic) (payload : List UInt8)
    (now : UInt64) :
    ∃ d', d.push topic payload now = (d', ((d.queue topic).push topic payload now).2) ∧
      topic ∈ d'.topics ∧ Replaced d topic ((d.queue topic).push topic payload now).1 d' := by
  obtain ⟨d', hcreate, hsame⟩ := getOrCreateTopic_of_admits hadmits
  rcases hpush : (d.queue topic).push topic payload now with ⟨queue', result⟩
  refine ⟨{ d' with topics := d'.topics.insert topic queue' }, ?_, by simp,
    hsame.replaced topic queue'⟩
  have hnotify : ∀ entry, notify { d' with topics := d'.topics.insert topic queue' } topic entry =
      ({ d' with topics := d'.topics.insert topic queue' }, some (.ok ())) := by
    intro entry
    rw [notify, offerFrom, hsame.subscribers, hsubs]
  rw [push_of_valid hvalid, appendOwned]
  simp only [hcreate, hpush]
  rcases result with _ | e | id
  · rfl
  · rfl
  · cases hread : queue'.read id with
    | none => simp only [hread]
    | some entry =>
      simp only [hread, hnotify]
      rfl

theorem Made.written {entry : Entry} {d' : DdlDistributed} (h : Made d entry d') (t : String) :
    d'.written t = if entry.topic = t then d.written t + 1 else d.written t := by
  unfold DdlDistributed.written
  split
  · rename_i ht
    rw [← ht, h.pushed.writePos]
  · rename_i ht
    rw [h.other t ht]

theorem Notified.written {d' : DdlDistributed} {entry : Entry} (h : Notified d topic entry d')
    (t : String) : d'.written t = d.written t := by
  rw [DdlDistributed.written, h.queue, DdlDistributed.written]

theorem Same.written {d' : DdlDistributed} (h : Same d d') (t : String) :
    d'.written t = d.written t := by
  rw [DdlDistributed.written, h.queue, DdlDistributed.written]

theorem topics_newStandalone (config : StandaloneConfig) (t : String) :
    (newStandalone config).topics[t]? =
      if t ∈ config.ownedTopics then some (.new config.bufferSize) else none := by
  have hfold := Table.get_foldl_insert (∅ : Table String TopicQueue)
    (fun _ => some (.new config.bufferSize)) config.ownedTopics t
  simpa [newStandalone] using hfold

theorem queue_newStandalone (config : StandaloneConfig) (t : String) :
    (newStandalone config).queue t = .new config.bufferSize := by
  rw [queue, topics_newStandalone]
  split <;> rfl

theorem written_newStandalone (config : StandaloneConfig) (t : String) :
    (newStandalone config).written t = 0 := by
  rw [written, queue_newStandalone]
  rfl

/-- A subscription changes no queue and adds a subscriber that has been sent nothing. -/
structure Subscribed (d d' : DdlDistributed) : Prop where
  config : d'.config = d.config
  written : ∀ t, d'.written t = d.written t
  waiting : d'.waiting = d.waiting
  subscribers : ∀ t, ∀ info ∈ d'.subscribersOf t,
    info ∈ d.subscribersOf t ∨ info.sender.sent = []

theorem Subscribed.refl (d : DdlDistributed) : Subscribed d d :=
  ⟨rfl, fun _ => rfl, rfl, fun _ _ hinfo => .inl hinfo⟩

theorem subscribed_subscribe (d : DdlDistributed) (topic : String) :
    Subscribed d (d.subscribe topic).1 := by
  unfold subscribe
  cases validateTopic topic with
  | error e => exact .refl d
  | ok _ =>
    by_cases hadmits : d.Admits topic
    · obtain ⟨d', hcreate, hsame⟩ := getOrCreateTopic_of_admits hadmits
      simp only [hcreate]
      refine ⟨hsame.config, hsame.written, hsame.waiting, fun t info hinfo => ?_⟩
      by_cases ht : topic = t
      · subst ht
        simp only [subscribersOf, Table.get_insert, if_pos, Option.getD_some, hsame.subscribers,
          List.mem_append, List.mem_singleton] at hinfo
        rcases hinfo with hold | hnew
        · exact .inl hold
        · exact .inr (by rw [hnew])
      · simp only [subscribersOf, Table.get_insert, if_neg ht, hsame.subscribers] at hinfo
        exact .inl hinfo
    · rw [getOrCreateTopic_of_not_admits hadmits]
      exact .refl d

/-- An acknowledgement changes no more than the queue of its topic, and no id there. -/
structure Acked (d d' : DdlDistributed) : Prop where
  config : d'.config = d.config
  written : ∀ t, d'.written t = d.written t
  waiting : d'.waiting = d.waiting
  subscribers : d'.subscribers = d.subscribers

theorem acked_ack (d : DdlDistributed) (topic : String) (entryId : UInt64) :
    Acked d (d.ack topic entryId).1 := by
  unfold ack
  cases hq : d.topics[topic]? with
  | none => exact ⟨rfl, fun _ => rfl, rfl, rfl⟩
  | some q =>
    have hreplaced := (Same.refl d).replaced topic (q.ack entryId)
    refine ⟨rfl, fun t => ?_, rfl, rfl⟩
    unfold written
    by_cases ht : topic = t
    · subst ht
      rw [hreplaced.self, queue, hq, TopicQueue.ack_writePos]
      rfl
    · rw [hreplaced.other t ht]

theorem mem_subscribersOf_modifySender {subscriber : ℕ} {f : Channel → Channel}
    (hsent : ∀ c, (f c).sent = c.sent) {t : String} {info : SubscriberInfo}
    (h : info ∈ (d.modifySender topic subscriber f).subscribersOf t) :
    ∃ old ∈ d.subscribersOf t, info.sender.sent = old.sender.sent := by
  unfold subscribersOf modifySender at h
  rw [Table.get_modify] at h
  split at h
  · rename_i ht
    subst ht
    rw [subscribersOf]
    cases hs : d.subscribers[topic]? with
    | none =>
      rw [hs] at h
      exact absurd h (by simp)
    | some infos =>
      rw [hs] at h
      obtain ⟨i, hi⟩ := List.mem_iff_getElem?.mp h
      simp only [Option.map_some, Option.getD_some, List.getElem?_modify] at hi
      obtain ⟨old, hget, rfl⟩ := Option.map_eq_some_iff.mp hi
      refine ⟨old, List.mem_of_getElem? hget, ?_⟩
      split
      · exact hsent _
      · rfl
  · exact ⟨info, h, rfl⟩

end DdlDistributed

end DumbDistributedLog.Ddl
