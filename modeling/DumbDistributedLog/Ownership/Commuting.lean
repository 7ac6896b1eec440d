import DumbDistributedLog.Ownership.Replay

/-! # Independent commands

Topic commands and lease commands work on different tables, and neither reads what the
other writes. Topic commands on different topics share the lists by node, which they may
leave in different orders, but the owner of a topic depends on the commands that name the
topic and on nothing else.
-/

namespace DumbDistributedLog

open OwnershipState Runs

def OwnershipCommand.topic : OwnershipCommand → Option String
  | .claimTopic topic _ _ => some topic
  | .releaseTopic topic _ => some topic
  | .transferTopic topic _ _ => some topic
  | .acquireLease _ _ _ _ _ | .renewLease _ _ | .releaseLease _ | .expireLeases _ => none

def OwnershipState.withLeases (s s' : OwnershipState) : OwnershipState :=
  { s with leases := s'.leases, keyLeases := s'.keyLeases, nextLeaseId := s'.nextLeaseId }

variable {s s' : OwnershipState} {c c₁ c₂ : OwnershipCommand} {t t₁ t₂ : String}

namespace OwnershipState

theorem withLeases_ownership : (s.withLeases s').ownership = s.ownership := rfl

theorem withLeases_keyLeases : (s.withLeases s').keyLeases = s'.keyLeases := rfl

theorem liveLease_withLeases (key : String) (now : UInt64) :
    (s.withLeases s').liveLease key now = s'.liveLease key now := rfl

theorem apply_withLeases_of_topic (hc : c.topic = some t) :
    (s.withLeases s').apply c = (s.apply c).withLeases s' := by
  cases c with
  | claimTopic topic nodeId timestamp =>
    simp only [apply, withLeases_ownership]
    cases s.ownership[topic]? <;> rfl
  | releaseTopic topic nodeId =>
    change (if s.ownership[topic]? = some nodeId then _ else _) = _
    simp only [apply]
    split <;> rfl
  | transferTopic topic fromNode toNode =>
    change (if s.ownership[topic]? = some fromNode then _ else _) = _
    simp only [apply]
    split <;> rfl
  | _ => cases hc

theorem foldl_forgetKey_withLeases (keys : List String) :
    keys.foldl forgetKey (s.withLeases s') = s.withLeases (keys.foldl forgetKey s') := by
  induction keys generalizing s' with
  | nil => rfl
  | cons key keys ih =>
    rw [List.foldl_cons, List.foldl_cons, ← ih]
    rfl

theorem apply_withLeases_of_lease (hc : c.topic = none) :
    (s.withLeases s').apply c = s.withLeases (s'.apply c) := by
  cases c with
  | acquireLease key owner leaseId ttlSecs timestamp =>
    simp only [apply, liveLease_withLeases]
    cases s'.liveLease key timestamp <;> rfl
  | renewLease leaseId timestamp => rfl
  | releaseLease key =>
    simp only [apply, withLeases_keyLeases]
    cases s'.keyLeases[key]? <;> rfl
  | expireLeases now => exact foldl_forgetKey_withLeases _
  | _ => cases hc

theorem apply_comm_of_lease (h₁ : c₁.topic = some t) (h₂ : c₂.topic = none) :
    (s.apply c₁).apply c₂ = (s.apply c₂).apply c₁ := by
  calc (s.apply c₁).apply c₂
      = ((s.apply c₁).withLeases s).apply c₂ := by
        rw [← apply_withLeases_of_topic h₁]
        rfl
    _ = (s.apply c₁).withLeases (s.apply c₂) := apply_withLeases_of_lease h₂
    _ = (s.withLeases (s.apply c₂)).apply c₁ := (apply_withLeases_of_topic h₁).symm
    _ = (s.apply c₂).apply c₁ := by
        rw [← apply_withLeases_of_lease h₂]
        rfl

end OwnershipState

theorem ownerAfter_of_topic_ne (hc : c.topic ≠ some t) (owner : Option NodeId) :
    ownerAfter t owner c = owner := by
  cases c with
  | claimTopic topic nodeId timestamp => exact if_neg fun heq => hc (congrArg some heq)
  | releaseTopic topic nodeId => exact if_neg fun heq => hc (congrArg some heq.1)
  | transferTopic topic fromNode toNode => exact if_neg fun heq => hc (congrArg some heq.1)
  | _ => rfl

theorem getOwner_comm (h₁ : c₁.topic = some t₁) (h₂ : c₂.topic = some t₂) (hne : t₁ ≠ t₂)
    (u : String) : ((s.apply c₁).apply c₂).getOwner u = ((s.apply c₂).apply c₁).getOwner u := by
  have hboth := getOwner_exec u s [c₁, c₂]
  have hswapped := getOwner_exec u s [c₂, c₁]
  simp only [exec_cons, exec_nil] at hboth hswapped
  rw [hboth, hswapped]
  by_cases hu : t₁ = u
  · have hother : c₂.topic ≠ some u := by
      rw [h₂, ← hu]
      exact fun heq => hne (Option.some.inj heq).symm
    rw [ownerAfter_of_topic_ne hother, ownerAfter_of_topic_ne hother]
  · have hother : c₁.topic ≠ some u := by
      rw [h₁]
      exact fun heq => hu (Option.some.inj heq)
    rw [ownerAfter_of_topic_ne hother, ownerAfter_of_topic_ne hother]

theorem getOwner_exec_filter (t : String) (s : OwnershipState) (cmds : List OwnershipCommand) :
    (exec OwnershipState.apply s (cmds.filter fun c => c.topic = some t)).getOwner t =
      (exec OwnershipState.apply s cmds).getOwner t := by
  rw [getOwner_exec, getOwner_exec]
  exact exec_filter fun owner c hc => ownerAfter_of_topic_ne (by simpa using hc) owner

/-- In a reachable state, a topic command and a lease command lead to the same state in both
orders, commands on different topics to the same owners and the same topics by node, and the
owner of a topic depends on the commands that name it. -/
theorem independent_commands_commute (log : List OwnershipCommand) :
    let s := exec OwnershipState.apply new log
    (∀ c₁ c₂ t, c₁.topic = some t → c₂.topic = none →
      (s.apply c₁).apply c₂ = (s.apply c₂).apply c₁) ∧
    (∀ c₁ c₂ t₁ t₂, c₁.topic = some t₁ → c₂.topic = some t₂ → t₁ ≠ t₂ →
      ((s.apply c₁).apply c₂).ownership = ((s.apply c₂).apply c₁).ownership ∧
        ∀ n : NodeId, {t | t ∈ ((s.apply c₁).apply c₂).getNodeTopics n} =
          {t | t ∈ ((s.apply c₂).apply c₁).getNodeTopics n}) ∧
    ∀ t, s.getOwner t =
      (exec OwnershipState.apply new (log.filter fun c => c.topic = some t)).getOwner t := by
  intro s
  have hindex : TopicIndex s := topicIndex_exec log
  refine ⟨fun c₁ c₂ t h₁ h₂ => apply_comm_of_lease h₁ h₂, fun c₁ c₂ t₁ t₂ h₁ h₂ hne => ?_,
    fun t => (getOwner_exec_filter t new log).symm⟩
  have howner := getOwner_comm (s := s) h₁ h₂ hne
  have hsame := ((hindex.apply c₁).apply c₂).sameTopics ((hindex.apply c₂).apply c₁) howner
  exact ⟨Std.ExtTreeMap.ext_getElem? howner, fun n => Set.ext (hsame.topics n)⟩

end DumbDistributedLog
