import DumbDistributedLog.Library.Tables
import DumbDistributedLog.Library.U64

/-! # The gossip coordinator

A coordinator keeps a record of the owner of every topic it has heard of, and a list of the
topics that it owns itself. Claims carry epochs. The handler of a claim compares them with
the record, but announcements, answers to queries and the ownership monitor overwrite the
record, and a release, a departure or a timeout deletes it.
-/

namespace DumbDistributedLog.Gossip

abbrev NodeId := UInt64

abbrev TopicId := List UInt8

inductive GossipMessage where
  | topicClaim (topic : String) (topicId : TopicId) (nodeId : NodeId) (epoch timestamp : UInt64)
  | topicRelease (topic : String) (topicId : TopicId) (nodeId : NodeId)
  | topicHeartbeat (topic : String) (topicId : TopicId) (nodeId : NodeId) (epoch timestamp : UInt64)
  | nodeAnnounce (nodeId : NodeId) (bindAddr : String) (ownedTopics : List String)
  | nodeLeave (nodeId : NodeId)
  | topicQuery (topic : String) (requestorNodeId : NodeId)
  | topicResponse (topic : String) (ownerNodeId : Option NodeId)
  | peerRequest (requestId : BitVec 128) (sourceNode targetNode : UInt64) (metricKey : String)
      (payload : List UInt8) (timestamp : UInt64)
  | peerResponse (requestId : BitVec 128) (sourceNode : UInt64) (success : Bool)
      (payload : List UInt8) (timestamp : UInt64) (errorMessage : Option String)
  | serviceAdvertise (nodeId : UInt64) (metricsOffered : List String) (address : String)
      (timestamp : UInt64)
  deriving DecidableEq, Repr

inductive GossipError where
  | serialization (message : String)
  | gossip (message : String)
  | parse (message : String)
  | notSubscribed (topicId : String)
  deriving DecidableEq, Repr

def GossipError.display : GossipError → String
  | .serialization message => s!"Serialization error: {message}"
  | .gossip message => s!"Gossip error: {message}"
  | .parse message => s!"Parse error: {message}"
  | .notSubscribed topicId => s!"Not subscribed to topic: {topicId}"

def nanosPerSec : UInt64 := 1000000000

/-- Claims and heartbeats from further in the future are rejected. -/
def maxFutureNanos : UInt64 := 60 * nanosPerSec

structure TopicOwnership where
  ownerNodeId : NodeId
  epoch : UInt64
  claimedAt : UInt64
  lastHeartbeat : UInt64
  deriving DecidableEq, Repr

namespace TopicOwnership

def new (ownerNodeId : NodeId) (now : UInt64) : TopicOwnership := ⟨ownerNodeId, 1, now, now⟩

def isTimedOut (ownership : TopicOwnership) (timeoutNanos now : UInt64) : Bool :=
  U64.saturatingSub now ownership.lastHeartbeat > timeoutNanos

/-- A claim is accepted with a higher epoch, or with the same epoch from the owner or from a
node with a lower id. -/
def accepts (ownership : TopicOwnership) (nodeId : NodeId) (epoch : UInt64) : Bool :=
  epoch > ownership.epoch ||
    (epoch == ownership.epoch && nodeId == ownership.ownerNodeId) ||
    (epoch == ownership.epoch && nodeId < ownership.ownerNodeId)

theorem accepts_iff {ownership : TopicOwnership} {nodeId : NodeId} {epoch : UInt64} :
    ownership.accepts nodeId epoch = true ↔
      ownership.epoch < epoch ∨ ownership.epoch = epoch ∧ nodeId ≤ ownership.ownerNodeId := by
  rw [le_iff_lt_or_eq, @eq_comm _ ownership.epoch]
  simp only [accepts, Bool.or_eq_true, Bool.and_eq_true, decide_eq_true_eq, beq_iff_eq, gt_iff_lt]
  tauto

theorem not_accepts_iff {ownership : TopicOwnership} {nodeId : NodeId} {epoch : UInt64} :
    ¬ ownership.accepts nodeId epoch = true ↔
      epoch < ownership.epoch ∨ epoch = ownership.epoch ∧ ownership.ownerNodeId < nodeId := by
  rw [accepts_iff, not_or, not_lt, not_and, not_le, le_iff_lt_or_eq]
  constructor
  · rintro ⟨hlt | heq, hnode⟩
    · exact .inl hlt
    · exact .inr ⟨heq, hnode heq.symm⟩
  · rintro (hlt | ⟨heq, hnode⟩)
    · exact ⟨.inl hlt, fun heq => absurd heq hlt.ne'⟩
    · exact ⟨.inr heq, fun _ => hnode⟩

def claimed (ownership : TopicOwnership) (nodeId : NodeId) (epoch timestamp : UInt64) :
    TopicOwnership :=
  if ownership.accepts nodeId epoch then
    { ownerNodeId := nodeId
      epoch := epoch
      claimedAt := max timestamp ownership.claimedAt
      lastHeartbeat := max timestamp ownership.lastHeartbeat }
  else ownership

def heartbeat (ownership : TopicOwnership) (nodeId : NodeId) (epoch timestamp : UInt64) :
    TopicOwnership :=
  if ownership.ownerNodeId = nodeId ∧ epoch = ownership.epoch then
    { ownership with lastHeartbeat := max timestamp ownership.lastHeartbeat }
  else ownership

/-- The owner claims its topic again, or another node claims it. -/
def reclaimed (ownership : TopicOwnership) (nodeId : NodeId) (timestamp : UInt64) :
    TopicOwnership :=
  if ownership.ownerNodeId = nodeId then
    { ownership with
      epoch := U64.saturatingAdd ownership.epoch 1
      claimedAt := timestamp
      lastHeartbeat := timestamp }
  else
    { ownerNodeId := nodeId
      epoch := U64.saturatingAdd ownership.epoch 1
      claimedAt := timestamp
      lastHeartbeat := timestamp }

/-- Both branches come to the same. -/
theorem reclaimed_eq (ownership : TopicOwnership) (nodeId : NodeId) (timestamp : UInt64) :
    ownership.reclaimed nodeId timestamp =
      ⟨nodeId, U64.saturatingAdd ownership.epoch 1, timestamp, timestamp⟩ := by
  unfold reclaimed
  split
  · rename_i h
    rw [h]
  · rfl

end TopicOwnership

structure GossipCoordinator where
  nodeId : NodeId
  topicSenders : List TopicId
  topicOwners : Table String TopicOwnership
  ownedTopics : List String
  ownerTimeoutSecs : UInt64

def hexDigit (n : ℕ) : Char := if n < 10 then Char.ofNat (48 + n) else Char.ofNat (87 + n)

def hexEncode (bytes : List UInt8) : String :=
  String.ofList (bytes.flatMap fun b => [hexDigit (b.toNat / 16), hexDigit (b.toNat % 16)])

namespace GossipCoordinator

def new (nodeId : NodeId) (topicSenders : List TopicId) : GossipCoordinator where
  nodeId := nodeId
  topicSenders := topicSenders
  topicOwners := ∅
  ownedTopics := []
  ownerTimeoutSecs := 30

-- The hash of the name of a topic.
variable (deriveTopicId : String → TopicId) (c : GossipCoordinator)

def announce (nodeId : NodeId) (announcedTopics : List String) (now : UInt64) :
    Table String TopicOwnership :=
  announcedTopics.foldl (fun owners topic => owners.insert topic (.new nodeId now)) c.topicOwners

def handleGossipMessage (msg : GossipMessage) (now : UInt64) : GossipCoordinator :=
  match msg with
  | .topicClaim topic topicId nodeId epoch timestamp =>
    if timestamp > U64.saturatingAdd now maxFutureNanos then c
    else if topicId ≠ deriveTopicId topic then c
    else
      let ownership := c.topicOwners[topic]?.getD (.new nodeId now)
      let ownership := ownership.claimed nodeId epoch timestamp
      { c with topicOwners := c.topicOwners.insert topic ownership }
  | .topicRelease topic _ nodeId =>
    match c.topicOwners[topic]? with
    | some ownership =>
      if ownership.ownerNodeId = nodeId then { c with topicOwners := c.topicOwners.erase topic }
      else c
    | none => c
  | .topicHeartbeat topic _ nodeId epoch timestamp =>
    if timestamp > U64.saturatingAdd now maxFutureNanos then c
    else
      { c with topicOwners := c.topicOwners.modify topic fun ownership =>
          ownership.heartbeat nodeId epoch timestamp }
  | .nodeAnnounce nodeId _ announcedTopics =>
    { c with topicOwners := c.announce nodeId announcedTopics now }
  | .nodeLeave nodeId =>
    { c with topicOwners := c.topicOwners.filter fun _ ownership =>
        ownership.ownerNodeId ≠ nodeId }
  | .topicResponse topic (some owner) =>
    { c with topicOwners := c.topicOwners.insert topic (.new owner now) }
  | .topicResponse _ none | .topicQuery .. | .peerRequest .. | .peerResponse ..
  | .serviceAdvertise .. => c

/-- The message is broadcast if the topic has been joined and the network takes it. -/
def broadcastMessage (topic : String) (msg : GossipMessage) (outcome : Except String Unit) :
    Except GossipError GossipMessage :=
  if deriveTopicId topic ∈ c.topicSenders then
    match outcome with
    | .ok () => .ok msg
    | .error e => .error (.gossip ("Broadcast failed: " ++ e))
  else .error (.notSubscribed (hexEncode (deriveTopicId topic)))

def claimedRecord (topic : String) (timestamp : UInt64) : TopicOwnership :=
  (c.topicOwners[topic]?.getD (.new c.nodeId timestamp)).reclaimed c.nodeId timestamp

/-- The claim is recorded before it is known whether it can be broadcast. -/
def claimTopic (topic : String) (timestamp : UInt64) (outcome : Except String Unit) :
    GossipCoordinator × Except GossipError GossipMessage :=
  let ownership := c.claimedRecord topic timestamp
  let c' := { c with
    topicOwners := c.topicOwners.insert topic ownership
    ownedTopics := if topic ∈ c.ownedTopics then c.ownedTopics else c.ownedTopics ++ [topic] }
  let msg := .topicClaim topic (deriveTopicId topic) c.nodeId ownership.epoch timestamp
  (c', c'.broadcastMessage deriveTopicId topic msg outcome)

def releaseTopic (topic : String) (outcome : Except String Unit) :
    GossipCoordinator × Except GossipError GossipMessage :=
  let c' := { c with
    topicOwners := c.topicOwners.erase topic
    ownedTopics := c.ownedTopics.filter fun t => t ≠ topic }
  let msg := .topicRelease topic (deriveTopicId topic) c.nodeId
  (c', c'.broadcastMessage deriveTopicId topic msg outcome)

def getTopicOwner (topic : String) (now : UInt64) : Option NodeId :=
  c.topicOwners[topic]?.bind fun ownership =>
    if ownership.isTimedOut (c.ownerTimeoutSecs * nanosPerSec) now then none
    else some ownership.ownerNodeId

def ownsTopic (topic : String) : Bool := topic ∈ c.ownedTopics

/-- The heartbeats of one tick. The record of the sender is only read, and a missing one
counts as the first epoch. -/
def heartbeats (now : UInt64) : List GossipMessage :=
  (c.ownedTopics.filter fun topic => deriveTopicId topic ∈ c.topicSenders).map fun topic =>
    let epoch := (c.topicOwners[topic]?.map TopicOwnership.epoch).getD 1
    .topicHeartbeat topic (deriveTopicId topic) c.nodeId epoch now

-- A background task runs with the timeout that was set when it was started.
variable (ownerTimeoutSecs : UInt64)

/-- The ownership monitor looks at an owned topic, and plans to claim it with a new epoch if
its recorded owner is another node and has timed out. -/
def monitorRead (topic : String) (now : UInt64) : Option UInt64 :=
  if topic ∈ c.ownedTopics then
    c.topicOwners[topic]?.bind fun ownership =>
      if ownership.isTimedOut (ownerTimeoutSecs * nanosPerSec) now ∧
          ownership.ownerNodeId ≠ c.nodeId then
        some (U64.saturatingAdd ownership.epoch 1)
      else none
  else none

/-- It writes the planned epoch without another look at the record. -/
def monitorWrite (topic : String) (newEpoch now : UInt64) (outcome : Except String Unit) :
    GossipCoordinator × Except GossipError GossipMessage :=
  let c' := { c with topicOwners := c.topicOwners.insert topic ⟨c.nodeId, newEpoch, now, now⟩ }
  let msg := .topicClaim topic (deriveTopicId topic) c.nodeId newEpoch now
  (c', c'.broadcastMessage deriveTopicId topic msg outcome)

/-- Records are kept for twice the timeout. -/
def cacheCleanup (now : UInt64) : GossipCoordinator :=
  { c with topicOwners := c.topicOwners.filter fun _ ownership =>
      !ownership.isTimedOut (ownerTimeoutSecs * 2 * nanosPerSec) now }

end GossipCoordinator

section Records

variable {deriveTopicId : String → TopicId} {c : GossipCoordinator} {t : String}
  {now : UInt64}

theorem GossipCoordinator.toOption_broadcastMessage {topic : String} {msg msg' : GossipMessage}
    {outcome : Except String Unit} :
    (c.broadcastMessage deriveTopicId topic msg outcome).toOption = some msg' ↔
      deriveTopicId topic ∈ c.topicSenders ∧ outcome = .ok () ∧ msg = msg' := by
  unfold broadcastMessage
  split
  · rename_i h
    rcases outcome with e | ⟨⟩
    · simp [Except.toOption]
    · simp [Except.toOption, h]
  · rename_i h
    simp [Except.toOption, h]

theorem GossipCoordinator.claimedRecord_eq (topic : String) (timestamp : UInt64) :
    c.claimedRecord topic timestamp = ⟨c.nodeId,
      U64.saturatingAdd ((c.topicOwners[topic]?.map TopicOwnership.epoch).getD 1) 1,
      timestamp, timestamp⟩ := by
  rw [claimedRecord, TopicOwnership.reclaimed_eq]
  cases c.topicOwners[topic]? <;> rfl

theorem TopicOwnership.isTimedOut_iff {ownership : TopicOwnership} {timeoutNanos : UInt64} :
    ownership.isTimedOut timeoutNanos now = true ↔
      timeoutNanos < U64.saturatingSub now ownership.lastHeartbeat := by
  simp [isTimedOut]

theorem GossipCoordinator.getTopicOwner_eq_some_iff {owner : NodeId} :
    c.getTopicOwner t now = some owner ↔ ∃ ownership, c.topicOwners[t]? = some ownership ∧
      ¬ ownership.isTimedOut (c.ownerTimeoutSecs * nanosPerSec) now = true ∧
      ownership.ownerNodeId = owner := by
  simp [getTopicOwner, Option.bind_eq_some_iff]

theorem GossipCoordinator.monitorRead_eq_some {ownerTimeoutSecs newEpoch : UInt64}
    (h : c.monitorRead ownerTimeoutSecs t now = some newEpoch) :
    t ∈ c.ownedTopics ∧ ∃ ownership, c.topicOwners[t]? = some ownership ∧
      ownership.ownerNodeId ≠ c.nodeId := by
  unfold monitorRead at h
  split at h
  · rename_i howns
    obtain ⟨ownership, hrec, hplan⟩ := Option.bind_eq_some_iff.mp h
    split at hplan
    · rename_i hcond
      exact ⟨howns, ownership, hrec, hcond.2⟩
    · cases hplan
  · cases h

/-- The time of a claim or heartbeat is not too far in the future. -/
def InTime (timestamp now : UInt64) : Prop :=
  timestamp ≤ U64.saturatingAdd now maxFutureNanos

instance (timestamp now : UInt64) : Decidable (InTime timestamp now) :=
  inferInstanceAs (Decidable (_ ≤ _))

/-- What a message does to the record of one topic. -/
def recordAfter (deriveTopicId : String → TopicId) (msg : GossipMessage) (now : UInt64)
    (t : String) (record : Option TopicOwnership) : Option TopicOwnership :=
  match msg with
  | .topicClaim topic topicId nodeId epoch timestamp =>
    if topic = t ∧ InTime timestamp now ∧ topicId = deriveTopicId topic then
      some ((record.getD (.new nodeId now)).claimed nodeId epoch timestamp)
    else record
  | .topicRelease topic _ nodeId =>
    if topic = t then record.filter fun ownership => ownership.ownerNodeId ≠ nodeId else record
  | .topicHeartbeat topic _ nodeId epoch timestamp =>
    if topic = t ∧ InTime timestamp now then
      record.map fun ownership => ownership.heartbeat nodeId epoch timestamp
    else record
  | .nodeAnnounce nodeId _ announcedTopics =>
    if t ∈ announcedTopics then some (.new nodeId now) else record
  | .nodeLeave nodeId => record.filter fun ownership => ownership.ownerNodeId ≠ nodeId
  | .topicResponse topic (some owner) => if topic = t then some (.new owner now) else record
  | .topicResponse _ none | .topicQuery .. | .peerRequest .. | .peerResponse ..
  | .serviceAdvertise .. => record

theorem get_handleClaim (topic : String) (topicId : TopicId) (nodeId : NodeId)
    (epoch timestamp : UInt64) :
    (c.handleGossipMessage deriveTopicId (.topicClaim topic topicId nodeId epoch timestamp)
        now).topicOwners[t]? =
      recordAfter deriveTopicId (.topicClaim topic topicId nodeId epoch timestamp) now t
        c.topicOwners[t]? := by
  dsimp only [GossipCoordinator.handleGossipMessage, recordAfter]
  by_cases hin : InTime timestamp now
  swap
  · rw [if_pos (not_le.mp hin), if_neg fun h => hin h.2.1]
  rw [if_neg (not_lt.mpr hin)]
  by_cases hid : topicId = deriveTopicId topic
  · rw [if_neg (not_not.mpr hid)]
    by_cases ht : topic = t
    · subst ht
      simp [hid, hin]
    · simp [Table.get_insert, ht]
  · rw [if_pos hid, if_neg fun h => hid h.2.2]

theorem get_handleRelease (topic : String) (topicId : TopicId) (nodeId : NodeId) :
    (c.handleGossipMessage deriveTopicId (.topicRelease topic topicId nodeId)
        now).topicOwners[t]? =
      recordAfter deriveTopicId (.topicRelease topic topicId nodeId) now t
        c.topicOwners[t]? := by
  dsimp only [GossipCoordinator.handleGossipMessage, recordAfter]
  by_cases ht : topic = t
  · subst ht
    cases hrec : c.topicOwners[topic]? with
    | none => simp [hrec]
    | some ownership =>
      by_cases howner : ownership.ownerNodeId = nodeId
      · simp [howner, Option.filter]
      · simp [howner, hrec, Option.filter]
  · rw [if_neg ht]
    cases hrec : c.topicOwners[topic]? with
    | none => rfl
    | some ownership =>
      by_cases howner : ownership.ownerNodeId = nodeId
      · simp [howner, Table.get_erase, ht]
      · simp [howner]

theorem get_handleHeartbeat (topic : String) (topicId : TopicId) (nodeId : NodeId)
    (epoch timestamp : UInt64) :
    (c.handleGossipMessage deriveTopicId (.topicHeartbeat topic topicId nodeId epoch timestamp)
        now).topicOwners[t]? =
      recordAfter deriveTopicId (.topicHeartbeat topic topicId nodeId epoch timestamp) now t
        c.topicOwners[t]? := by
  dsimp only [GossipCoordinator.handleGossipMessage, recordAfter]
  by_cases hin : InTime timestamp now
  swap
  · rw [if_pos (not_le.mp hin), if_neg fun h => hin h.2]
  rw [if_neg (not_lt.mpr hin), Table.get_modify]
  by_cases ht : topic = t
  · subst ht
    simp [hin]
  · simp [ht]

theorem get_handleGossipMessage (msg : GossipMessage) :
    (c.handleGossipMessage deriveTopicId msg now).topicOwners[t]? =
      recordAfter deriveTopicId msg now t c.topicOwners[t]? := by
  cases msg with
  | topicClaim topic topicId nodeId epoch timestamp => exact get_handleClaim _ _ _ _ _
  | topicRelease topic topicId nodeId => exact get_handleRelease _ _ _
  | topicHeartbeat topic topicId nodeId epoch timestamp => exact get_handleHeartbeat _ _ _ _ _
  | nodeAnnounce nodeId bindAddr announcedTopics =>
    exact Table.get_foldl_insert _ (fun _ => some (TopicOwnership.new nodeId now)) _ _
  | nodeLeave nodeId => exact Table.get_filter _ _ _
  | topicResponse topic owner =>
    cases owner with
    | none => rfl
    | some owner => exact Table.get_insert _ _ _ _
  | topicQuery topic requestor => rfl
  | peerRequest => rfl
  | peerResponse => rfl
  | serviceAdvertise => rfl

end Records

end DumbDistributedLog.Gossip
