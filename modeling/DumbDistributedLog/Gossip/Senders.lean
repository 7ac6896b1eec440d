import DumbDistributedLog.Gossip.Queries
import DumbDistributedLog.Peer.Wire

/-! # The senders of a coordinator

A topic is joined by a subscription, which gives the coordinator a sender for the topic and a
task that handles its messages. Nothing can be broadcast on the channel of the topic without the
sender. A background task looks at the topics that are owned, then at those with a record, and then
drops the senders of all others, whatever has become of them since it looked. A claim is recorded
before it is known whether there is a sender for it.
-/

namespace DumbDistributedLog.Gossip

open Runs

/-- How far the cleanup of the senders is, with what it has read. -/
inductive Sweep where
  | idle
  | owned (owned : List String)
  | tracked (owned tracked : List String)
  deriving DecidableEq, Repr

/-- A coordinator with the calls of `join_topic` that wait for their subscription, the tasks that
handle the messages of a topic, and the cleanup of the senders. -/
structure Subscribed where
  state : Monitored
  joining : List String
  handlers : List String
  sweep : Sweep

inductive SenderStep where
  | gossip (a : GossipStep)
  | heartbeat (now : UInt64)
  | query (topic : String) (outcome : Except String Unit)
  | publish (topic : String) (data : List UInt8) (outcome : Except String Unit)
  | announce (bindAddr : String) (reached : List TopicId)
  | setOwned (topics : List String)
  | join (topic : String)
  | subscribe (i : ℕ) (outcome : Except String Unit)
  | sweepOwned
  | sweepTracked
  | sweepRetain

def SenderStep.GivesUp (t : String) : SenderStep → Prop
  | .gossip (.release topic _) => topic = t
  | .setOwned topics => t ∉ topics
  | _ => False

def GossipMessage.topicId : GossipMessage → Option TopicId
  | .topicClaim _ topicId _ _ _ => some topicId
  | .topicRelease _ topicId _ => some topicId
  | .topicHeartbeat _ topicId _ _ _ => some topicId
  | _ => none

inductive Content where
  | message (msg : GossipMessage)
  | data (bytes : List UInt8)
  deriving DecidableEq, Repr

structure Broadcast where
  channel : TopicId
  content : Content
  deriving DecidableEq, Repr

namespace GossipCoordinator

variable (c : GossipCoordinator)

/-- An announcement goes to the channels of all senders, in an order that is not fixed, up to the
first that does not take it. -/
def announceNode (bindAddr : String) (reached : List TopicId) : List Broadcast :=
  (c.topicSenders.filter reached.contains).map fun channel =>
    ⟨channel, .message (.nodeAnnounce c.nodeId bindAddr c.ownedTopics)⟩

end GossipCoordinator

namespace Subscribed

def new (nodeId : NodeId) : Subscribed := ⟨.new nodeId [], [], [], .idle⟩

section Steps

variable (deriveTopicId : String → TopicId) (s : Subscribed)

/-- The call of `join_topic` up to its subscription: the error or the success that it returns
at once, or nothing while it waits. -/
def joinTopic (topic : String) : Subscribed × Option (Except GossipError Unit) :=
  match Ddl.validateTopic topic with
  | .error e => (s, some (.error (.parse ("Invalid topic name: " ++ Ddl.Wal.displayDdl e))))
  | .ok () =>
    if s.state.node.topicSenders.contains (deriveTopicId topic) then (s, some (.ok ()))
    else ({ s with joining := s.joining ++ [topic] }, none)

def setSenders (senders : List TopicId) : Subscribed :=
  { s with state := { s.state with node := { s.state.node with topicSenders := senders } } }

def subscribe (i : ℕ) (outcome : Except String Unit) : Subscribed :=
  match s.joining[i]?, outcome with
  | some topic, .ok () =>
    { s.setSenders (s.state.node.topicSenders.insert (deriveTopicId topic)) with
      joining := s.joining.eraseIdx i
      handlers := s.handlers ++ [topic] }
  | some _, .error _ => { s with joining := s.joining.eraseIdx i }
  | none, _ => s

/-- The senders of topics that were owned or tracked when the cleanup looked are kept. -/
def retain (owned tracked : List String) : Subscribed :=
  { s.setSenders (s.state.node.topicSenders.filter
      ((owned ++ tracked).map deriveTopicId).contains) with
    sweep := .idle }

def step : SenderStep → Subscribed
  | .gossip a => { s with state := s.state.step deriveTopicId a }
  | .heartbeat _ | .query _ _ | .publish _ _ _ | .announce _ _ => s
  | .setOwned topics =>
    { s with state := { s.state with node := { s.state.node with ownedTopics := topics } } }
  | .join topic => (s.joinTopic deriveTopicId topic).1
  | .subscribe i outcome => s.subscribe deriveTopicId i outcome
  | .sweepOwned =>
    match s.sweep with
    | .idle => { s with sweep := .owned s.state.node.ownedTopics }
    | _ => s
  | .sweepTracked =>
    match s.sweep with
    | .owned owned => { s with sweep := .tracked owned s.state.node.topicOwners.keys }
    | _ => s
  | .sweepRetain =>
    match s.sweep with
    | .tracked owned tracked => s.retain deriveTopicId owned tracked
    | _ => s

def onChannel (msg : GossipMessage) : Option Broadcast := msg.topicId.map (⟨·, .message msg⟩)

def broadcasts : SenderStep → List Broadcast
  | .gossip a => (s.state.sends deriveTopicId a).toList.filterMap onChannel
  | .heartbeat now => (s.state.node.heartbeats deriveTopicId now).filterMap onChannel
  | .query topic outcome =>
    (s.state.node.queryTopicOwner deriveTopicId topic outcome).toOption.toList.map fun msg =>
      ⟨deriveTopicId topic, .message msg⟩
  | .publish topic data outcome =>
    (s.state.node.publish deriveTopicId topic data outcome).toOption.toList.map fun bytes =>
      ⟨deriveTopicId topic, .data bytes⟩
  | .announce bindAddr reached => s.state.node.announceNode bindAddr reached
  | _ => []

def HasSender (t : String) : Prop := deriveTopicId t ∈ s.state.node.topicSenders

def Subscribes (t : String) : SenderStep → Prop
  | .subscribe i outcome =>
    ∃ topic, s.joining[i]? = some topic ∧ outcome = .ok () ∧ deriveTopicId topic = deriveTopicId t
  | _ => False

/-- The cleanup drops the topic's sender: it looked when the topic was neither owned nor
tracked. -/
def Drops (t : String) : SenderStep → Prop
  | .sweepRetain => ∃ owned tracked, s.sweep = .tracked owned tracked ∧
      deriveTopicId t ∉ (owned ++ tracked).map deriveTopicId
  | _ => False

end Steps

variable {deriveTopicId : String → TopicId} {s : Subscribed} {t : String} {a : SenderStep}

theorem topicSenders_gossip (a : GossipStep) :
    (s.state.step deriveTopicId a).node.topicSenders = s.state.node.topicSenders := by
  obtain ⟨owners, h⟩ := s.state.node_step a
  rw [h]

theorem hasSender_subscribe (i : ℕ) (outcome : Except String Unit) :
    (s.subscribe deriveTopicId i outcome).HasSender deriveTopicId t ↔
      s.Subscribes deriveTopicId t (.subscribe i outcome) ∨ s.HasSender deriveTopicId t := by
  simp only [subscribe, Subscribes]
  match hi : s.joining[i]?, outcome with
  | some topic, .ok () => simp [HasSender, setSenders, eq_comm]
  | some topic, .error e => simp [HasSender]
  | none, _ => simp

theorem hasSender_retain (owned tracked : List String) :
    (s.retain deriveTopicId owned tracked).HasSender deriveTopicId t ↔
      s.HasSender deriveTopicId t ∧ deriveTopicId t ∈ (owned ++ tracked).map deriveTopicId := by
  simp only [HasSender, retain, setSenders, List.mem_filter, List.contains_iff_mem]

theorem hasSender_step : (s.step deriveTopicId a).HasSender deriveTopicId t ↔
    s.Subscribes deriveTopicId t a ∨
      s.HasSender deriveTopicId t ∧ ¬ s.Drops deriveTopicId t a := by
  cases a with
  | gossip a => simp [step, HasSender, Subscribes, Drops, topicSenders_gossip]
  | heartbeat _ | query _ _ | publish _ _ _ | announce _ _ => simp [step, Subscribes, Drops]
  | setOwned topics => simp [step, HasSender, Subscribes, Drops]
  | join topic =>
    simp only [step, Subscribes, Drops, false_or, not_false_eq_true, and_true]
    unfold joinTopic
    split
    · exact Iff.rfl
    · split_ifs <;> exact Iff.rfl
  | subscribe i outcome =>
    simp only [step, hasSender_subscribe, Drops, not_false_eq_true, and_true]
  | sweepOwned =>
    simp only [step, Subscribes, Drops, false_or, not_false_eq_true, and_true]
    split <;> exact Iff.rfl
  | sweepTracked =>
    simp only [step, Subscribes, Drops, false_or, not_false_eq_true, and_true]
    split <;> exact Iff.rfl
  | sweepRetain =>
    simp only [step, Subscribes, Drops, false_or]
    cases hsweep : s.sweep with
    | tracked owned tracked =>
      rw [hasSender_retain]
      simp only [Sweep.tracked.injEq, existsAndEq, and_true, true_and, not_not]
    | _ => simp

theorem state_joinTopic (topic : String) :
    (s.joinTopic deriveTopicId topic).1.state = s.state := by
  unfold joinTopic
  split
  · rfl
  · split_ifs <;> rfl

theorem ownedTopics_step (h : ¬ a.GivesUp t) (howns : s.state.Owns t) :
    (s.step deriveTopicId a).state.Owns t := by
  cases a with
  | gossip a =>
    refine Monitored.owns_step.mpr ?_
    cases a with
    | claim topic timestamp outcome => exact .inr howns
    | release topic outcome => exact ⟨fun ht => h ht.symm, howns⟩
    | _ => exact howns
  | heartbeat _ | query _ _ | publish _ _ _ | announce _ _ => exact howns
  | setOwned topics => exact not_not.mp h
  | join topic =>
    rw [step, state_joinTopic]
    exact howns
  | subscribe i outcome =>
    rw [step]
    unfold subscribe
    split <;> exact howns
  | _ =>
    dsimp only [step]
    split <;> exact howns

theorem mem_topicSenders_of_onChannel {msg : GossipMessage} {b : Broadcast}
    (h : onChannel msg = some b)
    (hmsg : ∀ topicId, msg.topicId = some topicId → topicId ∈ s.state.node.topicSenders) :
    b.channel ∈ s.state.node.topicSenders := by
  obtain ⟨topicId, htopic, rfl⟩ := Option.map_eq_some_iff.mp h
  exact hmsg topicId htopic

theorem mem_topicSenders_of_mem_broadcasts {b : Broadcast}
    (h : b ∈ s.broadcasts deriveTopicId a) : b.channel ∈ s.state.node.topicSenders := by
  cases a with
  | gossip a =>
    obtain ⟨msg, hmsg, hchannel⟩ := List.mem_filterMap.mp h
    have hsends := Monitored.sends_eq_some_iff.mp (Option.mem_toList.mp hmsg)
    refine mem_topicSenders_of_onChannel hchannel fun topicId htopic => ?_
    cases a with
    | claim topic timestamp outcome =>
      obtain ⟨hsender, -, rfl⟩ := hsends
      rwa [← Option.some.inj htopic]
    | release topic outcome =>
      obtain ⟨hsender, -, rfl⟩ := hsends
      rwa [← Option.some.inj htopic]
    | monitorWrite now outcome =>
      obtain ⟨topic, newEpoch, -, hsender, -, rfl⟩ := hsends
      rwa [← Option.some.inj htopic]
    | _ => exact hsends.elim
  | heartbeat now =>
    obtain ⟨msg, hmsg, hchannel⟩ := List.mem_filterMap.mp h
    refine mem_topicSenders_of_onChannel hchannel fun topicId htopic => ?_
    simp only [GossipCoordinator.heartbeats, List.mem_map, List.mem_filter,
      decide_eq_true_eq] at hmsg
    obtain ⟨topic, ⟨-, hsender⟩, rfl⟩ := hmsg
    rwa [← Option.some.inj htopic]
  | query topic outcome =>
    obtain ⟨msg, hmsg, rfl⟩ := List.mem_map.mp h
    exact (GossipCoordinator.toOption_broadcastMessage.mp (Option.mem_toList.mp hmsg)).1
  | publish topic data outcome =>
    obtain ⟨bytes, hbytes, rfl⟩ := List.mem_map.mp h
    cases hpublish : s.state.node.publish deriveTopicId topic data outcome with
    | error e => simp [hpublish, Except.toOption] at hbytes
    | ok _ => exact (GossipCoordinator.publish_eq_ok_iff.mp hpublish).1.2.2.1
  | announce bindAddr reached =>
    obtain ⟨channel, hchannel, rfl⟩ := List.mem_map.mp h
    exact (List.mem_filter.mp hchannel).1
  | _ => cases h

theorem handlers_subset_step : s.handlers ⊆ (s.step deriveTopicId a).handlers := by
  cases a with
  | join topic =>
    rw [step]
    unfold joinTopic
    split
    · exact List.Subset.refl _
    · split_ifs <;> exact List.Subset.refl _
  | subscribe i outcome =>
    rw [step]
    unfold subscribe
    split
    · exact List.subset_append_left _ _
    · exact List.Subset.refl _
    · exact List.Subset.refl _
  | gossip _ | heartbeat _ | query _ _ | publish _ _ _ | announce _ _ | setOwned _ =>
    exact List.Subset.refl _
  | _ =>
    dsimp only [step]
    split <;> exact List.Subset.refl _

theorem handles_of_subscribes (h : s.Subscribes deriveTopicId t a) :
    ∃ topic ∈ (s.step deriveTopicId a).handlers, deriveTopicId topic = deriveTopicId t := by
  cases a with
  | subscribe i outcome =>
    obtain ⟨topic, hi, rfl, htopic⟩ := h
    refine ⟨topic, ?_, htopic⟩
    simp [step, subscribe, hi]
  | _ => exact h.elim

theorem handles_of_hasSender {steps : List SenderStep} {nodeId : NodeId}
    (h : (exec (step deriveTopicId) (new nodeId) steps).HasSender deriveTopicId t) :
    ∃ topic ∈ (exec (step deriveTopicId) (new nodeId) steps).handlers,
      deriveTopicId topic = deriveTopicId t := by
  refine exec_inv (I := fun s : Subscribed => s.HasSender deriveTopicId t →
      ∃ topic ∈ s.handlers, deriveTopicId topic = deriveTopicId t)
    (fun s a ih hstep => ?_) (fun hnew => absurd hnew List.not_mem_nil) h
  rcases hasSender_step.mp hstep with hsub | ⟨hhas, -⟩
  · exact handles_of_subscribes hsub
  · obtain ⟨topic, hmem, htopic⟩ := ih hhas
    exact ⟨topic, handlers_subset_step hmem, htopic⟩

theorem exists_toOption_eq_some {ε α : Type*} {x : Except ε α} :
    (∃ a, x.toOption = some a) ↔ ∃ a, x = .ok a := by
  cases x <;> simp [Except.toOption]

/-- A claim is recorded in any case. It is broadcast exactly if the network takes it and the topic
has been joined since the last cleanup that found it neither owned nor tracked, and then the node
also listens to the topic. -/
theorem claim_heard_iff (deriveTopicId : String → TopicId) (nodeId : NodeId)
    (steps : List SenderStep) (t : String) (timestamp : UInt64) (outcome : Except String Unit) :
    let run := exec (step deriveTopicId) (new nodeId)
    let claim := (run steps).state.node.claimTopic deriveTopicId t timestamp outcome
    (t ∈ claim.1.ownedTopics ∧
      claim.1.topicOwners[t]?.map TopicOwnership.ownerNodeId = some (run steps).state.node.nodeId) ∧
    ((∃ msg, claim.2 = .ok msg) ↔ outcome = .ok () ∧
      ∃ before a after, steps = before ++ a :: after ∧
        (run before).Subscribes deriveTopicId t a ∧
        Along (step deriveTopicId) (fun s a => ¬ s.Drops deriveTopicId t a)
          (run (before ++ [a])) after) ∧
    ((∃ msg, claim.2 = .ok msg) →
      ∃ topic ∈ (run steps).handlers, deriveTopicId topic = deriveTopicId t) := by
  intro run claim
  have hbroadcast : (∃ msg, claim.2 = .ok msg) ↔
      (run steps).HasSender deriveTopicId t ∧ outcome = .ok () := by
    rw [← exists_toOption_eq_some]
    simp only [claim, GossipCoordinator.claimTopic, GossipCoordinator.toOption_broadcastMessage,
      HasSender, exists_and_left, exists_eq', and_true]
  refine ⟨⟨?_, ?_⟩, ?_, fun hsent => handles_of_hasSender (hbroadcast.mp hsent).1⟩
  · show t ∈ if t ∈ (run steps).state.node.ownedTopics then _ else _
    split_ifs with hmem
    · exact hmem
    · exact List.mem_append_right _ List.mem_cons_self
  · have hrecord : claim.1.topicOwners[t]? =
        some ((run steps).state.node.claimedRecord t timestamp) :=
      (Table.get_insert _ t t _).trans (if_pos rfl)
    rw [hrecord, GossipCoordinator.claimedRecord_eq, Option.map_some]
  · have hlatch : (run steps).HasSender deriveTopicId t ↔ _ :=
      holds_exec_iff (I := fun s : Subscribed => s.HasSender deriveTopicId t)
        fun s a => hasSender_step
    have hnew : ¬ (new nodeId).HasSender deriveTopicId t := List.not_mem_nil
    rw [hbroadcast, hlatch, and_comm]
    simp only [hnew, false_and, false_or]
    rfl

/-- A claim that finds no sender fails, and yet the node counts the topic among its own from then
on. Until the topic is joined or given up, nothing goes out on its channel, neither claims nor
heartbeats nor releases, although the node names the topic in every announcement of itself on the
other channels. -/
theorem unheard_claim_silent (deriveTopicId : String → TopicId) (s : Subscribed) (t : String)
    (timestamp : UInt64) (outcome : Except String Unit) (steps : List SenderStep)
    (hsender : ¬ s.HasSender deriveTopicId t)
    (hjoin : Along (step deriveTopicId)
      (fun s a => ¬ s.Subscribes deriveTopicId t a ∧ ¬ a.GivesUp t)
      (s.step deriveTopicId (.gossip (.claim t timestamp outcome))) steps) :
    let claimed := s.step deriveTopicId (.gossip (.claim t timestamp outcome))
    (s.state.node.claimTopic deriveTopicId t timestamp outcome).2 =
      .error (.notSubscribed (hexEncode (deriveTopicId t))) ∧
    (exec (step deriveTopicId) claimed steps).state.Owns t ∧
    Along (step deriveTopicId) (fun s a =>
      (∀ b ∈ s.broadcasts deriveTopicId a, b.channel ≠ deriveTopicId t) ∧
      ∀ bindAddr reached, ∀ b ∈ s.broadcasts deriveTopicId (.announce bindAddr reached),
        ∃ owned, t ∈ owned ∧
          b.content = .message (.nodeAnnounce s.state.node.nodeId bindAddr owned))
      claimed steps := by
  intro claimed
  have hclaimed : ¬ claimed.HasSender deriveTopicId t := by
    rw [hasSender_step]
    simp [Subscribes, hsender]
  have howns : claimed.state.Owns t := Monitored.owns_step.mpr (.inl rfl)
  refine ⟨?_, ?_, ?_⟩
  · simp only [GossipCoordinator.claimTopic]
    unfold GossipCoordinator.broadcastMessage
    exact if_neg hsender
  · exact hjoin.exec_inv (I := fun s => s.state.Owns t)
      (fun s a howns hstep => ownedTopics_step hstep.2 howns) howns
  · refine hjoin.strengthen
      (I := fun s => ¬ s.HasSender deriveTopicId t ∧ s.state.Owns t) ?_ ⟨hclaimed, howns⟩
    rintro s a ⟨hnone, howns⟩ ⟨hsubscribes, hkeeps⟩
    refine ⟨⟨?_, ownedTopics_step hkeeps howns⟩, ?_, ?_⟩
    · rw [hasSender_step]
      rintro (hsub | ⟨hhas, -⟩)
      · exact hsubscribes hsub
      · exact hnone hhas
    · intro b hb hchannel
      refine hnone ?_
      rw [HasSender, ← hchannel]
      exact mem_topicSenders_of_mem_broadcasts hb
    · intro bindAddr reached b hb
      obtain ⟨channel, -, rfl⟩ := List.mem_map.mp hb
      exact ⟨s.state.node.ownedTopics, howns, rfl⟩

/-- Two topics have been joined, and the second one has then been idle for one cleanup. -/
def sweptAway (deriveTopicId : String → TopicId) (kept t : String) : Subscribed :=
  exec (step deriveTopicId) (new 1)
    [.join kept, .subscribe 0 (.ok ()), .setOwned [kept], .join t, .subscribe 0 (.ok ()),
      .sweepOwned, .sweepTracked, .sweepRetain]

theorem unheard_claim_silent_swept :
    let deriveTopicId : String → TopicId := fun t => t.toUTF8.toList
    let claimed :=
      (sweptAway deriveTopicId "k" "t").step deriveTopicId (.gossip (.claim "t" 5 (.ok ())))
    claimed.state.Owns "t" ∧
      (∀ b ∈ claimed.broadcasts deriveTopicId (.heartbeat 9), b.channel ≠ deriveTopicId "t") ∧
      claimed.broadcasts deriveTopicId (.announce "a" [deriveTopicId "k"]) =
        [⟨deriveTopicId "k", .message (.nodeAnnounce 1 "a" ["k", "t"])⟩] := by
  intro deriveTopicId claimed
  have h := unheard_claim_silent deriveTopicId (sweptAway deriveTopicId "k" "t") "t" 5 (.ok ())
    [.heartbeat 9] (by unfold HasSender; decide +kernel) ⟨⟨not_false, not_false⟩, trivial⟩
  exact ⟨h.2.1, h.2.2.1.1, by decide +kernel⟩

end Subscribed

end DumbDistributedLog.Gossip
