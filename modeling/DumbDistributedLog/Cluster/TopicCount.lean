import DumbDistributedLog.Cluster.SingleWriter

/-! # The counter of topics

A log counts its topics, and compares the counter with the limit. Both constructors start the
counter at the length of the list of owned topics. A topic that is listed twice has one queue
only, and without gossip and Raft the distributed constructor makes no queue at all. What the
counter is off by at the start it is off by for ever.
-/

namespace DumbDistributedLog.Ddl

open Runs

/-- What setting up a distributed log uses of the configuration as well. -/
structure DistributedConfig extends StandaloneConfig where
  nodeId : NodeId
  gossipEnabled : Bool
  raftEnabled : Bool
  isBootstrap : Bool
  deriving DecidableEq, Repr

inductive SetupError where
  | network (message : String)
  deriving DecidableEq, Repr

/-- What Raft and gossip answer while a log is set up. The questions that are put more than
once are numbered. -/
structure Setup where
  createRaft : Except String Unit
  initRaft : Except String Unit
  isLeader : ℕ → Bool
  claimTopic : ℕ → Except String Unit
  createGossip : Except String Unit
  joinTopic : ℕ → Except String Unit

/-- A log on a node of a cluster, with or without Raft and gossip. -/
structure DistributedLog where
  log : DdlDistributed
  nodeId : NodeId
  raft : Bool
  gossip : Bool

namespace DistributedConfig

variable (config : DistributedConfig) (setup : Setup)

def maxAttempts : ℕ := 10

def claimTopics : ℕ → List String → Except SetupError Unit
  | _, [] => .ok ()
  | i, topic :: topics =>
    match setup.claimTopic i with
    | .error e => .error (.network ("Failed to claim topic " ++ topic ++ ": " ++ e))
    | .ok () => claimTopics (i + 1) topics

/-- Only the bootstrap node waits until it leads, and claims its topics. -/
def startRaft : Except SetupError Unit :=
  match setup.createRaft with
  | .error e => .error (.network ("Failed to create Raft cluster: " ++ e))
  | .ok () =>
    if !config.isBootstrap then .ok ()
    else
      match setup.initRaft with
      | .error e => .error (.network ("Failed to initialize Raft: " ++ e))
      | .ok () =>
        if !(List.range maxAttempts).any setup.isLeader then
          .error (.network
            ("Leadership election timeout after " ++ toString maxAttempts ++ " attempts"))
        else claimTopics setup 0 config.ownedTopics

def joinTopics : ℕ → List String → Table String TopicQueue →
    Except SetupError (Table String TopicQueue)
  | _, [], queues => .ok queues
  | i, topic :: topics, queues =>
    let queues := queues.insert topic (.new config.bufferSize)
    match setup.joinTopic i with
    | .error e => .error (.network ("Failed to join gossip for topic " ++ topic ++ ": " ++ e))
    | .ok () => joinTopics (i + 1) topics queues

/-- The queues of the owned topics are made along with the gossip. -/
def startGossip : Except SetupError (Table String TopicQueue) :=
  match setup.createGossip with
  | .error e => .error (.network ("Failed to create gossip: " ++ e))
  | .ok () => config.joinTopics setup 0 config.ownedTopics ∅

def newDistributed : Except SetupError DistributedLog :=
  match if config.raftEnabled then config.startRaft setup else .ok () with
  | .error e => .error e
  | .ok () =>
    match if config.gossipEnabled || config.raftEnabled then config.startGossip setup
      else .ok ∅ with
    | .error e => .error e
    | .ok topics => .ok
      { log :=
          { config := config.toStandaloneConfig
            topics
            subscribers := ∅
            topicCount := config.ownedTopics.length
            waiting := [] }
        nodeId := config.nodeId
        raft := config.raftEnabled
        gossip := config.gossipEnabled || config.raftEnabled }

end DistributedConfig

inductive Constructor where
  | newStandalone
  | newDistributed (setup : Setup)

def Constructor.build (config : DistributedConfig) : Constructor → Except SetupError DistributedLog
  | .newStandalone =>
    .ok ⟨.newStandalone config.toStandaloneConfig, config.nodeId, false, false⟩
  | .newDistributed setup => config.newDistributed setup

def Constructor.MakesQueues (config : DistributedConfig) : Constructor → Prop
  | .newStandalone => True
  | .newDistributed _ => (config.gossipEnabled || config.raftEnabled) = true

/-- The calls that can make a topic. A push comes with what Raft and gossip say about the
owner of its topic. -/
inductive LogCall where
  | push (topic : String) (payload : List UInt8) (now : UInt64) (raftOwns : Bool)
      (gossipOwner : Option NodeId)
  | subscribe (topic : String)
  | getOrCreateTopic (topic : String)
  deriving DecidableEq, Repr

namespace DistributedLog

variable (n : DistributedLog)

def ownsTopicAsync (topic : String) (raftOwns : Bool) (gossipOwner : Option NodeId) : Bool :=
  if !n.gossip && !n.raft then true
  else if n.raft then raftOwns
  else if n.log.config.ownedTopics.contains topic then true
  else if n.gossip then
    match gossipOwner with
    | some owner => owner == n.nodeId
    | none => false
  else false

def push (topic : String) (payload : List UInt8) (now : UInt64) (raftOwns : Bool)
    (gossipOwner : Option NodeId) : DistributedLog × Option (Except DdlError UInt64) :=
  match validateTopic topic with
  | .error e => (n, some (.error e))
  | .ok () =>
    if !n.ownsTopicAsync topic raftOwns gossipOwner then (n, some (.error (.notOwner topic)))
    else
      let (log, result) := n.log.appendOwned topic payload now
      ({ n with log }, result)

def errorOf {α : Type} : Option (Except DdlError α) → Option DdlError
  | some (.error e) => some e
  | _ => none

def call : LogCall → DistributedLog × Option DdlError
  | .push topic payload now raftOwns gossipOwner =>
    let pushed := n.push topic payload now raftOwns gossipOwner
    (pushed.1, errorOf pushed.2)
  | .subscribe topic =>
    let subscribed := n.log.subscribe topic
    ({ n with log := subscribed.1 }, errorOf (some subscribed.2))
  | .getOrCreateTopic topic =>
    let created := n.log.getOrCreateTopic topic
    ({ n with log := created.1 }, errorOf (some created.2))

def step (c : LogCall) : DistributedLog := (n.call c).1

/-- The limit is reported only if there are so many topics. -/
def LimitReached (c : LogCall) : Prop :=
  ∀ max current, (n.call c).2 = some (.topicLimitExceeded max current) →
    n.log.config.maxTopics ≤ n.log.topics.size

end DistributedLog

namespace DdlDistributed

variable {d : DdlDistributed} {topic : String}

def Counted (d : DdlDistributed) : Prop := d.topicCount = d.topics.size

instance (d : DdlDistributed) : Decidable d.Counted := inferInstanceAs (Decidable (_ = _))

theorem Counted.getOrCreateTopic (h : d.Counted) (topic : String) :
    (d.getOrCreateTopic topic).1.Counted := by
  unfold DdlDistributed.getOrCreateTopic
  cases hq : d.topics[topic]? with
  | some queue => exact h
  | none =>
    dsimp only
    split
    · exact h
    · have hmem : topic ∉ d.topics := by simpa using hq
      change d.topicCount + 1 = (d.topics.insert topic _).size
      rw [show d.topicCount = d.topics.size from h]
      simp [Std.ExtTreeMap.size_insert, hmem]

theorem Counted.insert (h : d.Counted) {queue : TopicQueue} (hq : d.topics[topic]? = some queue)
    (queue' : TopicQueue) : Counted { d with topics := d.topics.insert topic queue' } := by
  have hmem : topic ∈ d.topics := (Table.mem_iff_get _).mpr ⟨queue, hq⟩
  change d.topicCount = (d.topics.insert topic queue').size
  rw [show d.topicCount = d.topics.size from h]
  simp [Std.ExtTreeMap.size_insert, hmem]

theorem Counted.notify (h : d.Counted) (topic : String) (entry : Entry) :
    (d.notify topic entry).1.Counted := by
  have hnotified := (offerFrom_spec d topic entry 0 []).1
  rw [Counted, DdlDistributed.notify, hnotified.topics, hnotified.topicCount]
  exact h

theorem Counted.appendOwned (h : d.Counted) (topic : String) (payload : List UInt8)
    (now : UInt64) : (d.appendOwned topic payload now).1.Counted := by
  have hcreated := h.getOrCreateTopic topic
  unfold DdlDistributed.appendOwned
  rcases hcreate : d.getOrCreateTopic topic with ⟨d', e | queue⟩
  · rwa [hcreate] at hcreated
  · rw [hcreate] at hcreated
    dsimp only
    rcases queue.push topic payload now with ⟨queue', _ | e | id⟩
    · exact hcreated.insert (topics_getOrCreateTopic hcreate) queue'
    · exact hcreated.insert (topics_getOrCreateTopic hcreate) queue'
    · have hinsert := hcreated.insert (topics_getOrCreateTopic hcreate) queue'
      dsimp only
      cases queue'.read id with
      | none => exact hinsert
      | some entry => exact hinsert.notify topic entry

theorem Counted.subscribe (h : d.Counted) (topic : String) : (d.subscribe topic).1.Counted := by
  have hcreated := h.getOrCreateTopic topic
  unfold DdlDistributed.subscribe
  cases validateTopic topic with
  | error e => exact h
  | ok _ =>
    dsimp only
    rcases hcreate : d.getOrCreateTopic topic with ⟨d', e | queue⟩
    · rwa [hcreate] at hcreated
    · rwa [hcreate] at hcreated

theorem Counted.limit_reached (h : d.Counted) (topic : String) (hadmits : ¬ d.Admits topic) :
    d.config.maxTopics ≤ d.topics.size := by
  rw [← show d.topicCount = d.topics.size from h]
  by_contra hlt
  exact hadmits (.inr (.inr (Nat.not_le.mp hlt)))

theorem appendOwned_error {payload : List UInt8} {now : UInt64} {e : DdlError}
    (h : (d.appendOwned topic payload now).2 = some (.error e)) :
    ¬ d.Admits topic ∧ e = .topicLimitExceeded d.config.maxTopics d.topicCount ∨
      e = .lockPoisoned topic ∨ e = .bufferFull topic ∨ e = .subscriberBufferFull topic := by
  by_cases hadmits : d.Admits topic
  · right
    by_cases hopen : (d.queue topic).Open
    · obtain ⟨d', result, heq, -, hends⟩ := appendOwned_of_open hadmits hopen payload now
      rw [heq] at h
      rcases hends with _ | _ | _
      · simp [Except.map] at h
      · cases h
        exact .inr (.inr rfl)
      · simp at h
    · obtain ⟨-, hresult⟩ := TopicQueue.push_of_not_open hopen topic payload now
      rcases hpush : (d.queue topic).push topic payload now with ⟨queue', result⟩
      rw [hpush] at hresult
      obtain ⟨d', heq, -⟩ := appendOwned_of_queue_refuses hadmits hpush hresult
      rw [heq] at h
      exact (TopicQueue.push_error (by rw [hpush]; exact h)).imp_right .inl
  · rw [appendOwned_of_not_admits hadmits] at h
    cases h
    exact .inl ⟨hadmits, rfl⟩

theorem not_admits_of_appendOwned {payload : List UInt8} {now : UInt64} {max current : ℕ}
    (h : (d.appendOwned topic payload now).2 =
      some (.error (.topicLimitExceeded max current))) : ¬ d.Admits topic := by
  rcases appendOwned_error h with ⟨hadmits, -⟩ | he | he | he
  · exact hadmits
  · cases he
  · cases he
  · cases he

end DdlDistributed

namespace DistributedLog

variable {n : DistributedLog}

/-- Without gossip and Raft, a push is the push of the standalone log. -/
theorem push_of_standalone (hgossip : n.gossip = false) (hraft : n.raft = false) (topic : String)
    (payload : List UInt8) (now : UInt64) (raftOwns : Bool) (gossipOwner : Option NodeId) :
    (n.push topic payload now raftOwns gossipOwner).2 = (n.log.push topic payload now).2 ∧
      (n.push topic payload now raftOwns gossipOwner).1.log = (n.log.push topic payload now).1 := by
  have howns : n.ownsTopicAsync topic raftOwns gossipOwner = true := by
    simp [ownsTopicAsync, hgossip, hraft]
  unfold push
  cases hvalid : validateTopic topic with
  | error e => simp [DdlDistributed.push, hvalid]
  | ok _ => simp [howns, DdlDistributed.push_of_valid hvalid]

theorem counted_push (h : n.log.Counted) (topic : String) (payload : List UInt8) (now : UInt64)
    (raftOwns : Bool) (gossipOwner : Option NodeId) :
    (n.push topic payload now raftOwns gossipOwner).1.log.Counted := by
  unfold push
  cases validateTopic topic with
  | error e => exact h
  | ok _ =>
    dsimp only
    split
    · exact h
    · exact h.appendOwned topic payload now

theorem counted_step (h : n.log.Counted) (c : LogCall) : (n.step c).log.Counted := by
  cases c with
  | push topic payload now raftOwns gossipOwner =>
    exact counted_push h topic payload now raftOwns gossipOwner
  | subscribe topic => exact h.subscribe topic
  | getOrCreateTopic topic => exact h.getOrCreateTopic topic

theorem errorOf_eq_some {α : Type} {result : Option (Except DdlError α)} {e : DdlError} :
    errorOf result = some e ↔ result = some (.error e) := by
  rcases result with _ | e' | a <;> simp [errorOf]

theorem limitReached (h : n.log.Counted) (c : LogCall) : n.LimitReached c := by
  intro max current hlimit
  cases c with
  | push topic payload now raftOwns gossipOwner =>
    have hpush := errorOf_eq_some.mp hlimit
    unfold push at hpush
    cases hvalid : validateTopic topic with
    | error e =>
      obtain ⟨message, rfl⟩ := validateTopic_error hvalid
      simp [hvalid] at hpush
    | ok _ =>
      rw [hvalid] at hpush
      dsimp only at hpush
      split at hpush
      · simp at hpush
      · exact h.limit_reached topic (DdlDistributed.not_admits_of_appendOwned hpush)
  | subscribe topic =>
    have hsubscribe := errorOf_eq_some.mp hlimit
    unfold DdlDistributed.subscribe at hsubscribe
    cases hvalid : validateTopic topic with
    | error e =>
      obtain ⟨message, rfl⟩ := validateTopic_error hvalid
      simp [hvalid] at hsubscribe
    | ok _ =>
      refine h.limit_reached topic fun hadmits => ?_
      obtain ⟨d', hcreate, -⟩ := DdlDistributed.getOrCreateTopic_of_admits hadmits
      simp [hvalid, hcreate] at hsubscribe
  | getOrCreateTopic topic =>
    have hcreated := errorOf_eq_some.mp hlimit
    refine h.limit_reached topic fun hadmits => ?_
    obtain ⟨d', hcreate, -⟩ := DdlDistributed.getOrCreateTopic_of_admits hadmits
    simp [hcreate] at hcreated

end DistributedLog

section Constructors

variable {config : DistributedConfig} {setup : Setup} {n : DistributedLog}

theorem joinTopics_eq_ok {i : ℕ} {topics : List String} {queues queues' : Table String TopicQueue}
    (h : config.joinTopics setup i topics queues = .ok queues') : queues' =
      topics.foldl (fun queues topic => queues.insert topic (.new config.bufferSize)) queues := by
  induction topics generalizing i queues with
  | nil => exact (Except.ok.inj h).symm
  | cons topic topics ih =>
    rw [DistributedConfig.joinTopics] at h
    split at h
    · cases h
    · exact ih h

theorem newDistributed_eq_ok (h : config.newDistributed setup = .ok n) :
    n.log.topicCount = config.ownedTopics.length ∧
      n.log.topics = if config.gossipEnabled || config.raftEnabled then
        (DdlDistributed.newStandalone config.toStandaloneConfig).topics else ∅ := by
  unfold DistributedConfig.newDistributed at h
  split at h
  · cases h
  · split at h
    · cases h
    · rename_i topics hgossip
      cases h
      refine ⟨rfl, ?_⟩
      split at hgossip
      · rename_i hflags
        rw [if_pos hflags]
        unfold DistributedConfig.startGossip at hgossip
        split at hgossip
        · cases hgossip
        · exact joinTopics_eq_ok hgossip
      · rename_i hflags
        rw [if_neg hflags]
        exact (Except.ok.inj hgossip).symm

theorem nodup_ownedTopics_iff (config : StandaloneConfig) : config.ownedTopics.Nodup ↔
    config.ownedTopics.length = (DdlDistributed.newStandalone config).topics.size := by
  refine Table.nodup_iff_length_eq_size _ fun topic => ?_
  rw [Table.mem_keys_iff]
  simp [DdlDistributed.topics_newStandalone]

theorem counted_build_iff {c : Constructor} (h : c.build config = .ok n) :
    n.log.Counted ↔
      config.ownedTopics.Nodup ∧ (c.MakesQueues config ∨ config.ownedTopics = []) := by
  rw [DdlDistributed.Counted]
  cases c with
  | newStandalone =>
    obtain rfl := Except.ok.inj h
    rw [nodup_ownedTopics_iff config.toStandaloneConfig]
    exact (and_iff_left (.inl trivial)).symm
  | newDistributed setup =>
    obtain ⟨hcount, htopics⟩ := newDistributed_eq_ok h
    rw [hcount, htopics, Constructor.MakesQueues]
    cases hflags : config.gossipEnabled || config.raftEnabled with
    | true =>
      rw [nodup_ownedTopics_iff config.toStandaloneConfig]
      exact (and_iff_left (.inl rfl)).symm
    | false =>
      simp only [Bool.false_eq_true, if_false, false_or, Std.ExtTreeMap.size_empty,
        List.length_eq_zero_iff]
      refine ⟨fun hnone => ⟨?_, hnone⟩, fun hnone => hnone.2⟩
      rw [hnone]
      exact List.nodup_nil

end Constructors

/-- The counter is the number of topics throughout, and the limit is reported only if it is
reached, exactly if no owned topic is listed twice and the constructor makes their queues. -/
theorem topic_count_exact_iff (config : DistributedConfig) (c : Constructor) (n : DistributedLog)
    (hn : c.build config = .ok n) (calls : List LogCall) :
    Always DistributedLog.step (fun n => n.log.Counted) n calls ∧
        Along DistributedLog.step DistributedLog.LimitReached n calls ↔
      config.ownedTopics.Nodup ∧ (c.MakesQueues config ∨ config.ownedTopics = []) := by
  have hstep : ∀ (n : DistributedLog) (call : LogCall), n.log.Counted →
      (n.step call).log.Counted := fun _ call hcounted => DistributedLog.counted_step hcounted call
  rw [← counted_build_iff hn]
  refine ⟨fun h => h.1 [] List.nil_prefix, fun h => ⟨fun pre _ => ?_, ?_⟩⟩
  · exact exec_inv (I := fun n : DistributedLog => n.log.Counted) hstep h
  · have halong : Along DistributedLog.step (fun n _ => n.log.Counted) n calls :=
      along_inv (I := fun n : DistributedLog => n.log.Counted) hstep h
    exact halong.strengthen (I := fun n : DistributedLog => n.log.Counted)
      (fun _ call hcounted _ =>
        ⟨hstep _ call hcounted, DistributedLog.limitReached hcounted call⟩) h

def Setup.smooth : Setup where
  createRaft := .ok ()
  initRaft := .ok ()
  isLeader _ := true
  claimTopic _ := .ok ()
  createGossip := .ok ()
  joinTopic _ := .ok ()

theorem topic_count_exact_with_gossip :
    let config : DistributedConfig := ⟨⟨⟨4, 8, .block⟩, ["a", "b"], 3⟩, 1, true, false, false⟩
    let calls : List LogCall :=
      [.push "a" [1] 10 false none, .subscribe "c", .push "d" [2] 11 false (some 1)]
    ∃ n, (Constructor.newDistributed .smooth).build config = .ok n ∧
      Always DistributedLog.step (fun n => n.log.Counted) n calls ∧
      Along DistributedLog.step DistributedLog.LimitReached n calls := by
  intro config calls
  exact ⟨_, rfl, (topic_count_exact_iff config (.newDistributed .smooth) _ rfl calls).mpr
    ⟨by decide, .inl rfl⟩⟩

/-- A topic that is listed twice counts twice. Without gossip and Raft a topic that is listed
has no queue but counts, so that the first push to it exceeds the limit. -/
theorem topic_count_starts_wrong :
    let twice : DistributedConfig := ⟨⟨⟨4, 8, .block⟩, ["a", "a"], 2⟩, 1, false, false, false⟩
    let bare : DistributedConfig := ⟨⟨⟨4, 8, .block⟩, ["a"], 1⟩, 1, false, false, false⟩
    (∃ n, Constructor.newStandalone.build twice = .ok n ∧ n.log.topicCount = 2 ∧
        n.log.topics.size = 1 ∧
        (n.call (.subscribe "b")).2 = some (.topicLimitExceeded 2 2)) ∧
      ∃ n, (Constructor.newDistributed .smooth).build bare = .ok n ∧ n.log.topicCount = 1 ∧
        n.log.topics.size = 0 ∧
        (n.call (.push "a" [1] 10 false none)).2 = some (.topicLimitExceeded 1 1) := by
  intro twice bare
  exact ⟨⟨_, rfl, rfl, by decide +kernel, by decide +kernel⟩,
    ⟨_, rfl, rfl, by decide +kernel, by decide +kernel⟩⟩

end DumbDistributedLog.Ddl
