import DumbDistributedLog.Queue.Standalone

/-! # What a producer can rely on

A push can fail after its entry has got an id, when a subscriber refuses it. The producer
cannot tell from the error, and a retry appends the entry once more. A batch looks its topic
up once and is otherwise a sequence of pushes that stops at the first error; only a batch
without payloads is an error by itself.
-/

namespace DumbDistributedLog.Ddl.DdlDistributed

variable {d d' : DdlDistributed} {topic : String} {payload : List UInt8} {now : UInt64}

theorem position_of_mem (h : topic ∈ d.topics) :
    d.position topic = .ok (d.queue topic).writePos := by
  obtain ⟨q, hq⟩ := (Table.mem_iff_get _).mp h
  simp [position, queue, hq, TopicQueue.position]

theorem position_of_not_mem (h : topic ∉ d.topics) :
    d.position topic = .error (.topicNotFound topic) := by
  have hq : d.topics[topic]? = none := by simpa using h
  simp [position, hq]

theorem queue_of_not_mem (h : topic ∉ d.topics) : d.queue topic = .new d.config.bufferSize := by
  have hq : d.topics[topic]? = none := by simpa using h
  simp [queue, hq]

section FailedPushes

/-- The position of the topic and what the channels of the subscribers hold are the same. -/
structure NoEffect (topic : String) (d d' : DdlDistributed) : Prop where
  position : d'.position topic = d.position topic
  channels : ∀ t, (d'.subscribersOf t).map SubscriberInfo.sender =
    (d.subscribersOf t).map SubscriberInfo.sender

theorem NoEffect.refl (topic : String) (d : DdlDistributed) : NoEffect topic d d :=
  ⟨rfl, fun _ => rfl⟩

/-- No subscriber will refuse an entry that has got an id, and no queue without slots will
be made for the topic. -/
structure Harmless (d : DdlDistributed) (topic : String) : Prop where
  subscribers : ¬ (d.Accepts topic ∧ d.config.subscriptionBackpressure = .error ∧
    AnyFull (d.subscribersOf topic))
  slots : ¬ (validateTopic topic = .ok () ∧ topic ∉ d.topics ∧ d.Admits topic ∧
    nextPowerOfTwo d.config.bufferSize = 0)

theorem Made.position_ne {entry : Entry} (h : Made d entry d') :
    d'.position entry.topic ≠ d.position entry.topic := by
  have hwrite := h.pushed.writePos
  have hmem : entry.topic ∈ d'.topics := by
    by_contra hnot
    rw [queue_of_not_mem hnot] at hwrite
    exact absurd hwrite.symm (Nat.succ_ne_zero _)
  rw [position_of_mem hmem]
  by_cases hbefore : entry.topic ∈ d.topics
  · rw [position_of_mem hbefore]
    intro heq
    rw [Except.ok.inj heq] at hwrite
    exact absurd hwrite.symm (Nat.succ_ne_self _)
  · rw [position_of_not_mem hbefore]
    simp

/-- A queue that is made without slots refuses its first entry. -/
theorem push_new_of_no_slots (hzero : nextPowerOfTwo d.config.bufferSize = 0)
    (hmem : topic ∉ d.topics) (payload : List UInt8) (now : UInt64) :
    ((d.queue topic).push topic payload now).2 = some (.error (.bufferFull topic)) := by
  rw [queue_of_not_mem hmem, TopicQueue.push_eq_bufferFull_iff]
  simp [TopicQueue.new, hzero]

theorem no_slots_of_push_new {e : DdlError} (hmem : topic ∉ d.topics)
    (h : ((d.queue topic).push topic payload now).2 = some (.error e)) :
    nextPowerOfTwo d.config.bufferSize = 0 := by
  rw [queue_of_not_mem hmem, TopicQueue.push_snd] at h
  by_contra hne
  simp [TopicQueue.new, hne] at h

theorem Replaced.noEffect {queue : TopicQueue} (h : Replaced d topic queue d')
    (hqueue : queue = d.queue topic) (hmem : topic ∈ d.topics) (hmem' : topic ∈ d'.topics) :
    NoEffect topic d d' where
  position := by rw [position_of_mem hmem, position_of_mem hmem', h.self, hqueue]
  channels t := by rw [h.subscribersOf]

theorem Harmless.noEffect (h : d.Harmless topic) {e : DdlError}
    (herror : (d.push topic payload now).2 = some (.error e)) :
    NoEffect topic d (d.push topic payload now).1 := by
  by_cases haccepts : d.Accepts topic
  · obtain ⟨d', result, heq, -, hends⟩ := push_of_accepts haccepts payload now
    rw [heq] at herror
    rcases hends with _ | ⟨-, hrefuses⟩ | _
    · exact absurd herror (by simp [Except.map])
    · exact absurd ⟨haccepts, hrefuses⟩ h.subscribers
    · exact absurd herror (by simp)
  · cases hvalid : validateTopic topic with
    | error e =>
      simp only [push, hvalid]
      exact .refl topic d
    | ok _ =>
      rw [push_of_valid hvalid] at herror ⊢
      by_cases hadmits : d.Admits topic
      · rcases (d.queue topic).push_cases topic payload now with
          ⟨e', hpush⟩ | ⟨-, hpush⟩ | ⟨q', hpush, hpushed⟩
        · obtain ⟨d', heq, hmem', hreplaced⟩ :=
            appendOwned_of_queue_refuses hadmits hpush (by simp)
          rw [heq]
          refine hreplaced.noEffect rfl ?_ hmem'
          by_contra hmem
          exact h.slots ⟨hvalid, hmem, hadmits, no_slots_of_push_new hmem (by rw [hpush])⟩
        · obtain ⟨d', heq, -⟩ := appendOwned_of_queue_refuses hadmits hpush (by simp)
          rw [heq] at herror
          exact absurd herror (by simp)
        · have hopen : ¬ (d.queue topic).Open := fun hopen => haccepts ⟨hvalid, hadmits, hopen⟩
          have hresult := (TopicQueue.push_of_not_open hopen topic payload now).2
          exact absurd (by rw [hpush]) (hresult (d.queue topic).writePos)
      · rw [appendOwned_of_not_admits hadmits]
        exact .refl topic d

/-- A push that returns an error has no effect, exactly if no subscriber will refuse its
entry and no queue without slots will be made. -/
theorem failed_push_no_effect_iff (d : DdlDistributed) (topic : String) (payload : List UInt8)
    (now : UInt64) :
    (∀ e, (d.push topic payload now).2 = some (.error e) →
      NoEffect topic d (d.push topic payload now).1) ↔ d.Harmless topic := by
  refine ⟨fun h => ⟨?_, ?_⟩, fun h e => h.noEffect⟩
  · rintro ⟨haccepts, hmode, hfull⟩
    obtain ⟨d', result, heq, hmade, hends⟩ := push_of_accepts haccepts payload now
    rcases hends with ⟨-, hrefuses⟩ | _ | ⟨-, -, -, hblock⟩
    · exact hrefuses ⟨hmode, hfull⟩
    · have hnone := h _ (by rw [heq]; rfl)
      rw [heq] at hnone
      exact hmade.position_ne hnone.position
    · rw [hmode] at hblock
      exact absurd hblock (by decide)
  · rintro ⟨hvalid, hmem, hadmits, hzero⟩
    rcases hpush : (d.queue topic).push topic payload now with ⟨queue', result⟩
    have hfull := push_new_of_no_slots hzero hmem payload now
    rw [hpush] at hfull
    obtain rfl : result = _ := hfull
    obtain ⟨d', heq, hmem', -⟩ := appendOwned_of_queue_refuses hadmits hpush (by simp)
    rw [← push_of_valid hvalid] at heq
    have hnone := h _ (by rw [heq])
    rw [heq] at hnone
    have hposition := hnone.position
    rw [position_of_mem hmem', position_of_not_mem hmem] at hposition
    exact absurd hposition (by simp)

/-- Only the first of two subscribers has read the first entry. The second push is an error,
but its entry has got an id and the first subscriber has it. -/
theorem failed_push_is_delivered :
    let config : StandaloneConfig := ⟨⟨4, 1, .error⟩, ["t"], 0⟩
    let subscribed := (((newStandalone config).subscribe "t").1.subscribe "t").1
    let d := (subscribed.push "t" [0] 10).1.modifySender "t" 0 Channel.receive
    let failed := d.push "t" [1] 11
    failed.2 = some (.error (.subscriberBufferFull "t")) ∧
      d.position "t" = .ok 1 ∧ failed.1.position "t" = .ok 2 ∧
      (d.subscribersOf "t").map (fun info => info.sender.sent.length) = [1, 1] ∧
      (failed.1.subscribersOf "t").map (fun info => info.sender.sent.length) = [2, 1] ∧
      ¬ NoEffect "t" d failed.1 := by
  intro config subscribed d failed
  have hbefore : d.position "t" = .ok 1 := by decide +kernel
  have hafter : failed.1.position "t" = .ok 2 := by decide +kernel
  refine ⟨by decide +kernel, hbefore, hafter, by decide +kernel, by decide +kernel, fun h => ?_⟩
  have hposition := h.position
  rw [hbefore, hafter] at hposition
  exact absurd (Except.ok.inj hposition) (by decide)

end FailedPushes

section Batches

/-- The loop of a batch over the queue that was looked up before it. It keeps the id of the
last entry. -/
def pushAll (topic : String) : DdlDistributed → TopicQueue → UInt64 →
    List (List UInt8 × UInt64) → DdlDistributed × Option (Except DdlError UInt64)
  | d, _, lastId, [] => (d, some (.ok lastId))
  | d, queue, _, (payload, now) :: payloads =>
    let (queue', result) := queue.push topic payload now
    let d' := { d with topics := d.topics.insert topic queue' }
    match result with
    | none => (d', none)
    | some (.error e) => (d', some (.error e))
    | some (.ok id) =>
      match queue'.read id with
      | none => pushAll topic d' queue' id payloads
      | some entry =>
        match d'.notify topic entry with
        | (notified, none) => (notified, none)
        | (notified, some (.error e)) => (notified, some (.error e))
        | (notified, some (.ok ())) => pushAll topic notified queue' id payloads

/-- A batch of payloads, each with the time at which it is pushed. -/
def pushBatch (d : DdlDistributed) (topic : String) (payloads : List (List UInt8 × UInt64)) :
    DdlDistributed × Option (Except DdlError UInt64) :=
  match validateTopic topic with
  | .error e => (d, some (.error e))
  | .ok () =>
    if payloads.isEmpty then (d, some (.error (.bufferFull topic)))
    else
      match d.getOrCreateTopic topic with
      | (d', .error e) => (d', some (.error e))
      | (d', .ok queue) => pushAll topic d' queue 0 payloads

/-- The loop of the default, which is a push for every payload up to the first error. -/
def pushEach (topic : String) : DdlDistributed → UInt64 → List (List UInt8 × UInt64) →
    DdlDistributed × Option (Except DdlError UInt64)
  | d, lastId, [] => (d, some (.ok lastId))
  | d, _, (payload, now) :: payloads =>
    match d.push topic payload now with
    | (d', none) => (d', none)
    | (d', some (.error e)) => (d', some (.error e))
    | (d', some (.ok id)) => pushEach topic d' id payloads

/-- What a log does with a batch that does not bring a way of its own. -/
def pushBatchDefault (d : DdlDistributed) (topic : String)
    (payloads : List (List UInt8 × UInt64)) : DdlDistributed × Option (Except DdlError UInt64) :=
  pushEach topic d 0 payloads

/-- Once the topic is there, the queue that was looked up is the one that a push finds. -/
theorem pushAll_eq_pushEach (hvalid : validateTopic topic = .ok ()) {queue : TopicQueue}
    (hqueue : d.topics[topic]? = some queue) (lastId : UInt64)
    (payloads : List (List UInt8 × UInt64)) :
    pushAll topic d queue lastId payloads = pushEach topic d lastId payloads := by
  induction payloads generalizing d queue lastId with
  | nil => rfl
  | cons p payloads ih =>
    obtain ⟨payload, now⟩ := p
    rw [pushAll, pushEach, push_of_valid hvalid, appendOwned]
    simp only [getOrCreateTopic, hqueue]
    rcases queue.push topic payload now with ⟨queue', _ | e | id⟩
    · rfl
    · rfl
    · have hinsert : (d.topics.insert topic queue')[topic]? = some queue' := by simp
      cases hread : queue'.read id with
      | none =>
        simp only [hread]
        exact ih hinsert id
      | some entry =>
        simp only [hread]
        have htopics := (offerFrom_spec { d with topics := d.topics.insert topic queue' } topic
          entry 0 []).1.topics
        rw [← notify] at htopics
        rcases hnotify : notify { d with topics := d.topics.insert topic queue' } topic entry with
          ⟨notified, _ | e | _⟩
        · rfl
        · rfl
        · rw [hnotify] at htopics
          refine ih ?_ id
          rw [htopics]
          exact hinsert

theorem push_of_created (hvalid : validateTopic topic = .ok ()) {queue : TopicQueue}
    (h : d.getOrCreateTopic topic = (d', .ok queue)) (payload : List UInt8) (now : UInt64) :
    d'.push topic payload now = d.push topic payload now := by
  have hagain : d'.getOrCreateTopic topic = (d', .ok queue) := by
    rw [getOrCreateTopic, topics_getOrCreateTopic h]
  simp only [push_of_valid hvalid, appendOwned, h, hagain]

/-- Two calls have the same result and leave the same queues and channels, and the same log if
they return. -/
structure Agrees (a b : DdlDistributed × Option (Except DdlError UInt64)) : Prop where
  result : a.2 = b.2
  same : Same b.1 a.1
  state : a.2 ≠ none → a.1 = b.1

theorem Agrees.refl (a : DdlDistributed × Option (Except DdlError UInt64)) : Agrees a a :=
  ⟨rfl, .refl a.1, fun _ => rfl⟩

/-- A batch is the sequence of its pushes exactly if it is not empty. -/
theorem push_batch_sequential_iff (d : DdlDistributed) (topic : String)
    (payloads : List (List UInt8 × UInt64)) :
    Agrees (d.pushBatch topic payloads) (d.pushBatchDefault topic payloads) ↔ payloads ≠ [] := by
  cases payloads with
  | nil =>
    refine iff_of_false (fun h => ?_) (by simp)
    have hresult := h.result
    cases hvalid : validateTopic topic <;>
      simp [pushBatch, pushBatchDefault, pushEach, hvalid] at hresult
  | cons p payloads =>
    obtain ⟨payload, now⟩ := p
    refine iff_of_true ?_ (by simp)
    cases hvalid : validateTopic topic with
    | error e =>
      simp only [pushBatch, pushBatchDefault, pushEach, push, hvalid]
      exact .refl _
    | ok _ =>
      by_cases hadmits : d.Admits topic
      · obtain ⟨d', hcreate, hsame⟩ := getOrCreateTopic_of_admits hadmits
        have hall := pushAll_eq_pushEach hvalid (topics_getOrCreateTopic hcreate) 0
          ((payload, now) :: payloads)
        simp only [pushBatch, pushBatchDefault, hvalid, hcreate, hall, List.isEmpty_cons]
        change Agrees (pushEach topic d' 0 _) (pushEach topic d 0 _)
        rw [pushEach, pushEach]
        rw [push_of_created hvalid hcreate]
        exact .refl _
      · simp only [pushBatch, pushBatchDefault, pushEach, push, appendOwned, hvalid,
          getOrCreateTopic_of_not_admits hadmits, List.isEmpty_cons]
        exact .refl _

/-- An empty batch is refused as if the buffer were full. -/
theorem empty_batch_is_error :
    let d := newStandalone ⟨⟨4, 1, .error⟩, ["t"], 0⟩
    (d.pushBatch "t" []).2 = some (.error (.bufferFull "t")) ∧
      (d.pushBatchDefault "t" []).2 = some (.ok 0) ∧
      ¬ Agrees (d.pushBatch "t" []) (d.pushBatchDefault "t" []) := by
  intro d
  have hbatch : (d.pushBatch "t" []).2 = some (.error (.bufferFull "t")) := by decide +kernel
  have hdefault : (d.pushBatchDefault "t" []).2 = some (.ok 0) := by decide +kernel
  refine ⟨hbatch, hdefault, fun h => ?_⟩
  have hresult := h.result
  rw [hbatch, hdefault] at hresult
  exact absurd hresult (by simp)

end Batches

end DumbDistributedLog.Ddl.DdlDistributed
