import DumbDistributedLog.Cluster.TopicCount
import DumbDistributedLog.Gossip.Coordinator

/-! # The two ownership checks

Users ask a log whether it owns a topic and get an answer from its configuration. A push asks Raft
or, without Raft, the configuration and then gossip. The answers differ as soon as a topic
changes hands, or is claimed without being configured.
-/

namespace DumbDistributedLog.Ddl

open Gossip

namespace DistributedLog

variable (n : DistributedLog)

def ownsTopicInternal (topic : String) : Bool :=
  if !n.gossip && !n.raft then true else n.log.config.ownedTopics.contains topic

def ownsTopic (topic : String) : Bool := n.ownsTopicInternal topic

end DistributedLog

/-- A log with the ownership that Raft has committed and the coordinator of its gossip. -/
structure ClusterNode where
  node : DistributedLog
  committed : OwnershipState
  coordinator : GossipCoordinator

namespace ClusterNode

variable (c : ClusterNode) (topic : String) (payload : List UInt8) (asked now : UInt64)

def raftOwns : Bool :=
  (Writers.start c.committed fun _ => c.node.log).ownsTopic c.node.nodeId topic (.ok ())

def ownsTopicAsync : Bool :=
  c.node.ownsTopicAsync topic (c.raftOwns topic) (c.coordinator.getTopicOwner topic asked)

def push : DistributedLog × Option (Except DdlError UInt64) :=
  c.node.push topic payload now (c.raftOwns topic) (c.coordinator.getTopicOwner topic asked)

/-- Both checks give the same answer, and it is what a push finds out. -/
def ChecksAgree : Prop :=
  c.node.ownsTopic topic = c.ownsTopicAsync topic asked ∧
    (c.node.ownsTopic topic = true ↔
      (c.push topic payload asked now).2 ≠ some (.error (.notOwner topic)))

def Standalone : Prop := c.node.gossip = false ∧ c.node.raft = false

/-- Raft has committed the topic to the node exactly if it is configured. Without Raft, every
record that gossip has of the node as the owner of another topic has timed out. -/
def OwnedAsConfigured : Prop :=
  if c.node.raft then
    c.committed.getOwner topic = some c.node.nodeId ↔ topic ∈ c.node.log.config.ownedTopics
  else c.node.gossip = true → topic ∉ c.node.log.config.ownedTopics →
    ∀ ownership, c.coordinator.topicOwners[topic]? = some ownership →
      ownership.ownerNodeId = c.node.nodeId →
      ownership.isTimedOut (c.coordinator.ownerTimeoutSecs * nanosPerSec) asked = true

variable {c topic payload asked now}

theorem raftOwns_iff :
    c.raftOwns topic = true ↔ c.committed.getOwner topic = some c.node.nodeId := by
  simp only [raftOwns, Writers.ownsTopic, Writers.getOwner, Writers.start]
  cases c.committed.getOwner topic <;> simp

theorem getTopicOwner_ne_some_iff {n : UInt64} :
    c.coordinator.getTopicOwner topic asked ≠ some n ↔
      ∀ ownership, c.coordinator.topicOwners[topic]? = some ownership →
        ownership.ownerNodeId = n →
        ownership.isTimedOut (c.coordinator.ownerTimeoutSecs * nanosPerSec) asked = true := by
  rw [ne_eq, GossipCoordinator.getTopicOwner_eq_some_iff]
  constructor
  · intro h ownership hrecord howner
    by_contra hfresh
    exact h ⟨ownership, hrecord, hfresh, howner⟩
  · rintro h ⟨ownership, hrecord, hfresh, howner⟩
    exact hfresh (h ownership hrecord howner)

theorem ownsTopic_iff :
    c.node.ownsTopic topic = true ↔ c.Standalone ∨ topic ∈ c.node.log.config.ownedTopics := by
  rw [DistributedLog.ownsTopic, DistributedLog.ownsTopicInternal, Standalone]
  cases c.node.gossip <;> cases c.node.raft <;> simp

theorem ownsTopicAsync_iff : c.ownsTopicAsync topic asked = true ↔ c.Standalone ∨
    if c.node.raft then c.committed.getOwner topic = some c.node.nodeId
    else topic ∈ c.node.log.config.ownedTopics ∨
      c.node.gossip = true ∧ c.coordinator.getTopicOwner topic asked = some c.node.nodeId := by
  unfold ownsTopicAsync DistributedLog.ownsTopicAsync Standalone
  rw [← raftOwns_iff]
  cases c.node.raft with
  | true => simp
  | false =>
    cases c.node.gossip with
    | false => simp
    | true => cases c.coordinator.getTopicOwner topic asked <;> simp

theorem ownsTopic_eq_ownsTopicAsync_iff :
    c.node.ownsTopic topic = c.ownsTopicAsync topic asked ↔ c.OwnedAsConfigured topic asked := by
  rw [Bool.eq_iff_iff, ownsTopic_iff, ownsTopicAsync_iff, Standalone, OwnedAsConfigured,
    ← getTopicOwner_ne_some_iff]
  cases c.node.raft with
  | true => simp [iff_comm]
  | false =>
    cases c.node.gossip with
    | false => simp
    | true => simp [not_imp_not]

theorem push_ne_notOwner_iff :
    (c.push topic payload asked now).2 ≠ some (.error (.notOwner topic)) ↔
      validateTopic topic ≠ .ok () ∨ c.ownsTopicAsync topic asked = true := by
  rw [push, DistributedLog.push, ownsTopicAsync]
  cases hvalid : validateTopic topic with
  | error e =>
    obtain ⟨message, rfl⟩ := validateTopic_error hvalid
    simp
  | ok _ =>
    cases howns : c.node.ownsTopicAsync topic (c.raftOwns topic)
        (c.coordinator.getTopicOwner topic asked) with
    | false => simp
    | true =>
      simp only [Bool.not_true, Bool.false_eq_true, if_false, ne_eq, not_true, or_true, iff_true]
      intro herror
      rcases DdlDistributed.appendOwned_error herror with ⟨-, he⟩ | he | he | he <;> cases he

/-- The checks agree exactly if topics are owned as configured, and for a push also only where
the name is valid or the check does not come to bear. -/
theorem checksAgree_iff (c : ClusterNode) (topic : String) (payload : List UInt8)
    (asked now : UInt64) :
    c.ChecksAgree topic payload asked now ↔ c.OwnedAsConfigured topic asked ∧
      (validateTopic topic = .ok () ∨ c.Standalone ∨ topic ∈ c.node.log.config.ownedTopics) := by
  rw [ChecksAgree, ownsTopic_eq_ownsTopicAsync_iff, push_ne_notOwner_iff]
  refine and_congr_right fun hagree => ?_
  rw [← ownsTopic_eq_ownsTopicAsync_iff.mpr hagree, ← ownsTopic_iff]
  tauto

/-- With Raft, a configured topic that has been handed over is still reported as owned, but not
written. With gossip, a topic that was claimed is written, but not reported as owned. A push under
a name that is not valid is never refused for want of ownership. -/
theorem checks_disagree :
    let config : Bool → DistributedConfig := fun raft =>
      ⟨⟨⟨4, 8, .block⟩, ["a"], 0⟩, 1, true, raft, false⟩
    let build := fun raft => (Constructor.newDistributed .smooth).build (config raft)
    let commands := [.claimTopic "a" 1 0, .transferTopic "a" 1 2]
    let committed := Runs.exec OwnershipState.apply .new commands
    let coordinator := ((GossipCoordinator.new 1 [[0]]).claimTopic (fun _ => [0]) "b" 5 (.ok ())).1
    ∃ n m, build true = .ok n ∧ build false = .ok m ∧
      let raft : ClusterNode := ⟨n, committed, .new 1 [[0]]⟩
      let gossip : ClusterNode := ⟨m, .new, coordinator⟩
      n.ownsTopic "a" = true ∧ raft.ownsTopicAsync "a" 6 = false ∧
        (raft.push "a" [7] 6 6).2 = some (.error (.notOwner "a")) ∧
        ¬ raft.ChecksAgree "a" [7] 6 6 ∧
      m.ownsTopic "b" = false ∧ gossip.ownsTopicAsync "b" 6 = true ∧
        (gossip.push "b" [7] 6 6).2 = some (.ok 0) ∧ ¬ gossip.ChecksAgree "b" [7] 6 6 ∧
      m.ownsTopic "c..d" = false ∧ (gossip.push "c..d" [7] 6 6).2 =
        some (.error (.invalidTopic "topic name cannot contain '..'")) := by
  intro config build commands committed coordinator
  refine ⟨_, _, rfl, rfl, ?_⟩
  intro raft gossip
  refine ⟨by decide, by decide +kernel, by decide +kernel, fun h => ?_, by decide,
    by decide +kernel, by decide +kernel, fun h => ?_, by decide, by decide +kernel⟩
  · exact absurd h.1 (by decide +kernel)
  · exact absurd h.1 (by decide +kernel)

end ClusterNode

end DumbDistributedLog.Ddl
