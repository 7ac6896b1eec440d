import DumbDistributedLog.Gossip.Epochs
import Mathlib.Logic.Function.Basic

/-! # A network of coordinators

Coordinators that claim and release topics, send heartbeats and run their background tasks.
A broadcast is one message in flight to each of the other members, and messages are delivered
in any order. A node never receives its own messages. Each step is a step of at most one node.
-/

namespace DumbDistributedLog.Gossip

structure Network where
  members : List NodeId
  nodes : NodeId → Monitored
  inFlight : List (NodeId × GossipMessage)
  clock : UInt64

inductive NetworkOp where
  | claim (n : NodeId) (topic : String)
  | release (n : NodeId) (topic : String)
  | heartbeat (n : NodeId)
  | cleanup (n : NodeId) (ownerTimeoutSecs : UInt64)
  | monitorRead (n : NodeId) (ownerTimeoutSecs : UInt64) (topic : String)
  | monitorWrite (n : NodeId)
  | deliver (i : ℕ)
  | tick (now : UInt64)

namespace GossipCoordinator

theorem handleGossipMessage_eq (deriveTopicId : String → TopicId) (c : GossipCoordinator)
    (msg : GossipMessage) (now : UInt64) :
    ∃ owners, c.handleGossipMessage deriveTopicId msg now = { c with topicOwners := owners } := by
  cases msg with
  | topicClaim topic topicId nodeId epoch timestamp =>
    dsimp only [handleGossipMessage]
    split
    · exact ⟨c.topicOwners, rfl⟩
    · split
      · exact ⟨c.topicOwners, rfl⟩
      · exact ⟨_, rfl⟩
  | topicRelease topic topicId nodeId =>
    dsimp only [handleGossipMessage]
    split
    · split
      · exact ⟨_, rfl⟩
      · exact ⟨c.topicOwners, rfl⟩
    · exact ⟨c.topicOwners, rfl⟩
  | topicHeartbeat topic topicId nodeId epoch timestamp =>
    dsimp only [handleGossipMessage]
    split
    · exact ⟨c.topicOwners, rfl⟩
    · exact ⟨_, rfl⟩
  | nodeAnnounce nodeId bindAddr announcedTopics => exact ⟨_, rfl⟩
  | nodeLeave nodeId => exact ⟨_, rfl⟩
  | topicResponse topic owner =>
    cases owner with
    | none => exact ⟨c.topicOwners, rfl⟩
    | some owner => exact ⟨_, rfl⟩
  | _ => exact ⟨c.topicOwners, rfl⟩

end GossipCoordinator

namespace Monitored

variable {deriveTopicId : String → TopicId} {s : Monitored} {t : String} {a : GossipStep}

def ownedAfter (s : Monitored) : GossipStep → List String
  | .claim topic _ _ =>
    if topic ∈ s.node.ownedTopics then s.node.ownedTopics else s.node.ownedTopics ++ [topic]
  | .release topic _ => s.node.ownedTopics.filter fun t => t ≠ topic
  | _ => s.node.ownedTopics

theorem node_step (a : GossipStep) : ∃ owners, (s.step deriveTopicId a).node =
    { s.node with topicOwners := owners, ownedTopics := s.ownedAfter a } := by
  cases a with
  | receive msg now => exact GossipCoordinator.handleGossipMessage_eq deriveTopicId s.node msg now
  | monitorRead ownerTimeoutSecs topic now =>
    dsimp only [step]
    split <;> exact ⟨s.node.topicOwners, rfl⟩
  | monitorWrite now outcome =>
    dsimp only [step]
    split
    · exact ⟨_, rfl⟩
    · exact ⟨s.node.topicOwners, rfl⟩
  | _ => exact ⟨_, rfl⟩

theorem nodeId_step : (s.step deriveTopicId a).node.nodeId = s.node.nodeId := by
  obtain ⟨owners, h⟩ := s.node_step a
  rw [h]

theorem ownerTimeoutSecs_step :
    (s.step deriveTopicId a).node.ownerTimeoutSecs = s.node.ownerTimeoutSecs := by
  obtain ⟨owners, h⟩ := s.node_step a
  rw [h]

def Owns (s : Monitored) (t : String) : Prop := t ∈ s.node.ownedTopics

instance : Decidable (s.Owns t) := inferInstanceAs (Decidable (_ ∈ _))

theorem owns_step : (s.step deriveTopicId a).Owns t ↔
    match a with
    | .claim topic _ _ => topic = t ∨ s.Owns t
    | .release topic _ => t ≠ topic ∧ s.Owns t
    | _ => s.Owns t := by
  obtain ⟨owners, h⟩ := s.node_step a
  rw [Owns, h]
  cases a with
  | claim topic timestamp outcome =>
    dsimp only [ownedAfter, Owns]
    split
    · rename_i hmem
      constructor
      · exact .inr
      · rintro (rfl | hold)
        · exact hmem
        · exact hold
    · rw [List.mem_append, List.mem_singleton, or_comm, eq_comm]
  | release topic outcome => simp [ownedAfter, Owns, and_comm]
  | _ => exact Iff.rfl

theorem planned_step : (s.step deriveTopicId a).planned =
    match a with
    | .monitorRead ownerTimeoutSecs topic now =>
      s.planned.or ((s.node.monitorRead ownerTimeoutSecs topic now).map (topic, ·))
    | .monitorWrite _ _ => none
    | _ => s.planned := by
  cases a with
  | monitorRead ownerTimeoutSecs topic now =>
    dsimp only [step]
    cases hplan : s.planned with
    | none => rfl
    | some plan => exact hplan
  | monitorWrite now outcome =>
    dsimp only [step]
    cases hplan : s.planned with
    | none => exact hplan
    | some plan => rfl
  | _ => rfl

theorem overwrites_eq_none {now : UInt64} {outcome : Except String Unit}
    (h : ∀ newEpoch, s.planned ≠ some (t, newEpoch)) :
    s.overwrites t (.monitorWrite now outcome) = none := by
  dsimp only [overwrites]
  cases hplan : s.planned with
  | none => rfl
  | some plan =>
    obtain ⟨topic, newEpoch⟩ := plan
    refine if_neg fun ht => h newEpoch ?_
    obtain rfl : topic = t := ht
    exact hplan

end Monitored

namespace Network

def start (members : List NodeId) (joined : NodeId → List TopicId)
    (ownerTimeoutSecs : NodeId → UInt64) (now : UInt64) : Network where
  members := members
  nodes n :=
    ⟨{ GossipCoordinator.new n (joined n) with ownerTimeoutSecs := ownerTimeoutSecs n }, none⟩
  inFlight := []
  clock := now

section Steps

variable (deriveTopicId : String → TopicId) (s : Network)

def localStep : NetworkOp → Option (NodeId × GossipStep)
  | .claim n topic => some (n, .claim topic s.clock (.ok ()))
  | .release n topic => some (n, .release topic (.ok ()))
  | .cleanup n ownerTimeoutSecs => some (n, .cleanup ownerTimeoutSecs s.clock)
  | .monitorRead n ownerTimeoutSecs topic => some (n, .monitorRead ownerTimeoutSecs topic s.clock)
  | .monitorWrite n => some (n, .monitorWrite s.clock (.ok ()))
  | .deliver i => s.inFlight[i]?.map fun (n, msg) => (n, .receive msg s.clock)
  | .heartbeat _ | .tick _ => none

def broadcasts (op : NetworkOp) : List (NodeId × GossipMessage) :=
  match op with
  | .heartbeat n => ((s.nodes n).node.heartbeats deriveTopicId s.clock).map (n, ·)
  | _ => (s.localStep op).toList.flatMap fun (n, a) =>
    ((s.nodes n).sends deriveTopicId a).toList.map (n, ·)

def remaining : NetworkOp → List (NodeId × GossipMessage)
  | .deliver i => s.inFlight.eraseIdx i
  | _ => s.inFlight

def step (op : NetworkOp) : Network where
  members := s.members
  nodes :=
    match s.localStep op with
    | some (n, a) => Function.update s.nodes n ((s.nodes n).step deriveTopicId a)
    | none => s.nodes
  inFlight := s.remaining op ++ (s.broadcasts deriveTopicId op).flatMap fun (n, msg) =>
    (s.members.filter fun m => m ≠ n).map (·, msg)
  clock :=
    match op with
    | .tick now => max s.clock now
    | _ => s.clock

end Steps

variable {deriveTopicId : String → TopicId} {s : Network} {op : NetworkOp} {n m : NodeId}
  {a : GossipStep} {msg : GossipMessage}

theorem clock_le_step : s.clock ≤ (s.step deriveTopicId op).clock := by
  cases op with
  | tick now => exact le_max_left _ _
  | _ => exact le_rfl

theorem nodes_of_none (h : s.localStep op = none) :
    (s.step deriveTopicId op).nodes = s.nodes := by
  simp only [step, h]

theorem nodes_self (h : s.localStep op = some (n, a)) :
    (s.step deriveTopicId op).nodes n = (s.nodes n).step deriveTopicId a := by
  simp only [step, h, Function.update_self]

theorem nodes_ne (h : s.localStep op = some (n, a)) (hne : m ≠ n) :
    (s.step deriveTopicId op).nodes m = s.nodes m := by
  simp only [step, h, Function.update_of_ne hne]

theorem forall_nodes_step {P : NodeId → Monitored → Prop} (h : ∀ n, P n (s.nodes n))
    (hstep : ∀ n a, s.localStep op = some (n, a) → P n ((s.nodes n).step deriveTopicId a)) :
    ∀ n, P n ((s.step deriveTopicId op).nodes n) := by
  intro m
  cases hlocal : s.localStep op with
  | none =>
    rw [nodes_of_none hlocal]
    exact h m
  | some p =>
    obtain ⟨n, a⟩ := p
    by_cases hm : m = n
    · subst hm
      rw [nodes_self hlocal]
      exact hstep m a hlocal
    · rw [nodes_ne hlocal hm]
      exact h m

theorem nodeId_nodes_step (m : NodeId) :
    ((s.step deriveTopicId op).nodes m).node.nodeId = (s.nodes m).node.nodeId :=
  forall_nodes_step (P := fun m node => node.node.nodeId = (s.nodes m).node.nodeId)
    (fun _ => rfl) (fun _ _ _ => Monitored.nodeId_step) m

theorem ownerTimeoutSecs_nodes_step (m : NodeId) :
    ((s.step deriveTopicId op).nodes m).node.ownerTimeoutSecs =
      (s.nodes m).node.ownerTimeoutSecs :=
  forall_nodes_step
    (P := fun m node => node.node.ownerTimeoutSecs = (s.nodes m).node.ownerTimeoutSecs)
    (fun _ => rfl) (fun _ _ _ => Monitored.ownerTimeoutSecs_step) m

theorem localStep_deliver {i : ℕ} {a : GossipStep} :
    s.localStep (.deliver i) = some (m, a) ↔
      ∃ msg, s.inFlight[i]? = some (m, msg) ∧ a = .receive msg s.clock := by
  simp only [localStep, Option.map_eq_some_iff, Prod.exists, Prod.mk.injEq]
  constructor
  · rintro ⟨_, msg, hi, rfl, rfl⟩
    exact ⟨msg, hi, rfl⟩
  · rintro ⟨msg, hi, rfl⟩
    exact ⟨m, msg, hi, rfl, rfl⟩

theorem op_of_localStep_claim {topic : String} {timestamp : UInt64}
    {outcome : Except String Unit}
    (h : s.localStep op = some (m, .claim topic timestamp outcome)) : op = .claim m topic := by
  cases op with
  | deliver i =>
    obtain ⟨msg, -, heq⟩ := localStep_deliver.mp h
    cases heq
  | claim k topic' =>
    cases h
    rfl
  | _ => cases h

theorem mem_inFlight_of_localStep {now : UInt64}
    (h : s.localStep op = some (m, .receive msg now)) : (m, msg) ∈ s.inFlight ∧ now = s.clock := by
  cases op with
  | deliver i =>
    obtain ⟨msg', hi, heq⟩ := localStep_deliver.mp h
    cases heq
    exact ⟨List.mem_of_getElem? hi, rfl⟩
  | _ => cases h

theorem nodes_of_no_message {i : ℕ} (h : s.inFlight[i]? = none) :
    (s.step deriveTopicId (.deliver i)).nodes = s.nodes := by
  refine nodes_of_none ?_
  rw [localStep, h, Option.map_none]

theorem mem_inFlight_step {p : NodeId × GossipMessage}
    (h : p ∈ (s.step deriveTopicId op).inFlight) :
    p ∈ s.inFlight ∨ ∃ n, (n, p.2) ∈ s.broadcasts deriveTopicId op ∧ p.1 ≠ n := by
  rcases List.mem_append.mp h with hold | hnew
  · left
    cases op with
    | deliver i => exact List.mem_of_mem_eraseIdx hold
    | _ => exact hold
  · right
    obtain ⟨⟨n, msg⟩, hmsg, hp⟩ := List.mem_flatMap.mp hnew
    obtain ⟨m, hm, rfl⟩ := List.mem_map.mp hp
    exact ⟨n, hmsg, by simpa using (List.mem_filter.mp hm).2⟩

theorem broadcasts_cases (h : (n, msg) ∈ s.broadcasts deriveTopicId op) :
    (∃ topic, op = .claim n topic ∧ msg = .topicClaim topic (deriveTopicId topic)
      (s.nodes n).node.nodeId ((s.nodes n).node.claimedRecord topic s.clock).epoch s.clock) ∨
    (∃ topic, op = .release n topic ∧
      msg = .topicRelease topic (deriveTopicId topic) (s.nodes n).node.nodeId) ∨
    (∃ topic epoch, op = .heartbeat n ∧ (s.nodes n).Owns topic ∧ msg = .topicHeartbeat topic
      (deriveTopicId topic) (s.nodes n).node.nodeId epoch s.clock) ∨
    (∃ topic epoch, op = .monitorWrite n ∧ (s.nodes n).planned = some (topic, epoch) ∧
      msg = .topicClaim topic (deriveTopicId topic) (s.nodes n).node.nodeId epoch s.clock) := by
  cases op with
  | claim k topic =>
    simp only [broadcasts, localStep, Option.toList_some, List.flatMap_singleton, List.mem_map,
      Option.mem_toList, Prod.mk.injEq] at h
    obtain ⟨msg', hmsg, rfl, rfl⟩ := h
    obtain ⟨-, -, rfl⟩ := Monitored.sends_eq_some_iff.mp hmsg
    exact .inl ⟨topic, rfl, rfl⟩
  | release k topic =>
    simp only [broadcasts, localStep, Option.toList_some, List.flatMap_singleton, List.mem_map,
      Option.mem_toList, Prod.mk.injEq] at h
    obtain ⟨msg', hmsg, rfl, rfl⟩ := h
    obtain ⟨-, -, rfl⟩ := Monitored.sends_eq_some_iff.mp hmsg
    exact .inr (.inl ⟨topic, rfl, rfl⟩)
  | heartbeat k =>
    simp only [broadcasts, GossipCoordinator.heartbeats, List.map_map, List.mem_map,
      List.mem_filter, Function.comp_apply, Prod.mk.injEq] at h
    obtain ⟨topic, ⟨howns, -⟩, rfl, rfl⟩ := h
    exact .inr (.inr (.inl ⟨topic, _, rfl, howns, rfl⟩))
  | monitorWrite k =>
    simp only [broadcasts, localStep, Option.toList_some, List.flatMap_singleton, List.mem_map,
      Option.mem_toList, Prod.mk.injEq] at h
    obtain ⟨msg', hmsg, rfl, rfl⟩ := h
    obtain ⟨topic, epoch, hplan, -, -, rfl⟩ := Monitored.sends_eq_some_iff.mp hmsg
    exact .inr (.inr (.inr ⟨topic, epoch, rfl, hplan, rfl⟩))
  | deliver i =>
    cases hi : s.inFlight[i]? <;> simp [broadcasts, localStep, Monitored.sends, hi] at h
  | _ => simp [broadcasts, localStep, Monitored.sends] at h

end Network

end DumbDistributedLog.Gossip
