import DumbDistributedLog.Ownership.Topics

/-! # Applying a log twice

A process that finds its ownership state again but not its position applies commands
that the state already contains. The owner of one topic is a cell of its own: a claim
sets it whatever it was, and without a claim it stays empty. Commands that are applied
a second time therefore lead to the owners, and the lists, of the first.
-/

namespace DumbDistributedLog

open OwnershipState Runs

def ownerAfter (t : String) (owner : Option NodeId) : OwnershipCommand → Option NodeId
  | .claimTopic topic nodeId _ => if topic = t then some nodeId else owner
  | .releaseTopic topic nodeId => if topic = t ∧ owner = some nodeId then none else owner
  | .transferTopic topic fromNode toNode =>
    if topic = t ∧ owner = some fromNode then some toNode else owner
  | _ => owner

/-- The same owner of every topic, and the same topics at every node. -/
structure SameTopics (s s' : OwnershipState) : Prop where
  owner : ∀ t, s.getOwner t = s'.getOwner t
  topics : ∀ n t, t ∈ s.getNodeTopics n ↔ t ∈ s'.getNodeTopics n

variable {s s' : OwnershipState} {t : String} {cmds rest : List OwnershipCommand}

theorem getOwner_exec (t : String) (s : OwnershipState) (cmds : List OwnershipCommand) :
    (exec OwnershipState.apply s cmds).getOwner t = exec (ownerAfter t) (s.getOwner t) cmds := by
  refine (List.foldl_hom (getOwner · t) fun s cmd => ?_).symm
  rw [getOwner_apply]
  cases cmd <;> rfl

theorem ownerAfter_none {cmd : OwnershipCommand}
    (h : ∀ nodeId timestamp, cmd ≠ .claimTopic t nodeId timestamp) :
    ownerAfter t none cmd = none := by
  cases cmd with
  | claimTopic topic nodeId timestamp =>
    refine if_neg ?_
    rintro rfl
    exact h nodeId timestamp rfl
  | releaseTopic | transferTopic => exact if_neg (by simp)
  | _ => rfl

theorem ownerAfter_twice (t : String) (cmds : List OwnershipCommand) :
    exec (ownerAfter t) (exec (ownerAfter t) none cmds) cmds = exec (ownerAfter t) none cmds := by
  by_cases hclaim : ∃ nodeId timestamp, .claimTopic t nodeId timestamp ∈ cmds
  · obtain ⟨nodeId, timestamp, hmem⟩ := hclaim
    exact exec_eq_of_reset hmem (fun _ _ => by simp [ownerAfter]) _ _
  · have hnone : exec (ownerAfter t) none cmds = none := by
      refine exec_eq_self fun cmd hmem => ownerAfter_none fun nodeId timestamp heq => ?_
      exact hclaim ⟨nodeId, timestamp, heq ▸ hmem⟩
    rw [hnone, hnone]

theorem TopicIndex.sameTopics (h : TopicIndex s) (h' : TopicIndex s')
    (howner : ∀ t, s.getOwner t = s'.getOwner t) : SameTopics s s' := by
  refine ⟨howner, fun n t => ?_⟩
  rw [← h.owner_iff, ← h'.owner_iff]
  exact iff_of_eq (congrArg (· = some n) (howner t))

/-- Commands applied twice before the rest of a log are as good as applied once. -/
theorem sameTopics_reapplied (cmds rest : List OwnershipCommand) :
    SameTopics (exec OwnershipState.apply (exec OwnershipState.apply new cmds) (cmds ++ rest))
      (exec OwnershipState.apply new (cmds ++ rest)) := by
  have htwice := topicIndex_exec (cmds ++ (cmds ++ rest))
  rw [exec_append] at htwice
  refine htwice.sameTopics (topicIndex_exec _) fun t => ?_
  simp only [exec_append, getOwner_exec]
  exact congrArg (exec (ownerAfter t) · rest) (ownerAfter_twice t cmds)

/-- A log applied to a state that already contains a first part of it leads to the owners
and the topics by node of the log applied once. -/
theorem topics_reapplied (log applied : List OwnershipCommand) (happlied : applied <+: log) :
    let once := exec OwnershipState.apply new log
    let again := exec OwnershipState.apply (exec OwnershipState.apply new applied) log
    (∀ t : String, again.getOwner t = once.getOwner t) ∧
      ∀ n : NodeId, {t | t ∈ again.getNodeTopics n} = {t | t ∈ once.getNodeTopics n} := by
  obtain ⟨rest, rfl⟩ := happlied
  have hsame := sameTopics_reapplied applied rest
  exact ⟨hsame.owner, fun n => Set.ext (hsame.topics n)⟩

/-- A topic claimed, transferred and released, of which the first two commands come again. -/
theorem topics_reapplied_released :
    let log : List OwnershipCommand :=
      [.claimTopic "a" 1 0, .transferTopic "a" 1 2, .releaseTopic "a" 2, .claimTopic "b" 1 5]
    let again := exec OwnershipState.apply (exec OwnershipState.apply new (log.take 2)) log
    again.getOwner "a" = none ∧ again.getOwner "b" = some 1 := by
  intro log again
  have h := (topics_reapplied log (log.take 2) (log.take_prefix 2)).1
  exact ⟨(h "a").trans (by decide +kernel), (h "b").trans (by decide +kernel)⟩

end DumbDistributedLog
