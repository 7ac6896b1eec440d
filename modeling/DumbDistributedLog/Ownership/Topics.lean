import DumbDistributedLog.Library.Runs
import DumbDistributedLog.Ownership.Machine

/-! # The topic index

The owner table and the lists of topics by node describe one relation. Each topic
command first takes a topic off the list of its owner and then lists it anew, so
the index is followed through the state in between, where one topic is listed
nowhere.
-/

namespace DumbDistributedLog

namespace OwnershipState

variable (s : OwnershipState) (n m : NodeId) (t u : String)

@[simp] theorem ownership_dropTopic : (s.dropTopic n t).ownership = s.ownership := rfl

@[simp] theorem ownership_listTopic : (s.listTopic n t).ownership = s.ownership := rfl

@[simp] theorem get_ownership_setOwner :
    (s.setOwner t n).ownership[u]? = if t = u then some n else s.ownership[u]? :=
  Table.get_insert _ _ _ _

@[simp] theorem getNodeTopics_setOwner : (s.setOwner t n).getNodeTopics m = s.getNodeTopics m := rfl

theorem getNodeTopics_dropTopic : (s.dropTopic n t).getNodeTopics m =
    if n = m then (s.getNodeTopics m).filter (· ≠ t) else s.getNodeTopics m := by
  simp only [getNodeTopics, dropTopic, Table.get_modify]
  split
  · subst m
    cases s.nodeTopics[n]? <;> rfl
  · rfl

theorem getNodeTopics_listTopic : (s.listTopic n t).getNodeTopics m =
    if n = m then s.getNodeTopics m ++ [t] else s.getNodeTopics m := by
  simp only [getNodeTopics, listTopic, Table.get_alter]
  split
  · subst m; rfl
  · rfl

variable {s n m t u}

theorem mem_getNodeTopics :
    t ∈ s.getNodeTopics n ↔ ∃ topics, s.nodeTopics[n]? = some topics ∧ t ∈ topics := by
  unfold getNodeTopics
  cases s.nodeTopics[n]? <;> simp

theorem mem_getNodeTopics_dropTopic : u ∈ (s.dropTopic n t).getNodeTopics m ↔
    u ∈ s.getNodeTopics m ∧ ¬ (n = m ∧ u = t) := by
  rw [getNodeTopics_dropTopic]
  split
  · rename_i hn
    simp [hn]
  · rename_i hn
    simp [hn]

theorem mem_getNodeTopics_listTopic : u ∈ (s.listTopic n t).getNodeTopics m ↔
    u ∈ s.getNodeTopics m ∨ n = m ∧ u = t := by
  rw [getNodeTopics_listTopic]
  split
  · rename_i hn
    simp [hn]
  · rename_i hn
    simp [hn]

theorem foldl_forgetKey_topics (keys : List String) :
    (keys.foldl forgetKey s).ownership = s.ownership ∧
      (keys.foldl forgetKey s).nodeTopics = s.nodeTopics := by
  induction keys generalizing s with
  | nil => exact ⟨rfl, rfl⟩
  | cons key keys ih => exact ih

theorem getOwner_apply (cmd : OwnershipCommand) : (s.apply cmd).getOwner t =
    match cmd with
    | .claimTopic topic nodeId _ => if topic = t then some nodeId else s.getOwner t
    | .releaseTopic topic nodeId =>
      if topic = t ∧ s.getOwner t = some nodeId then none else s.getOwner t
    | .transferTopic topic fromNode toNode =>
      if topic = t ∧ s.getOwner t = some fromNode then some toNode else s.getOwner t
    | _ => s.getOwner t := by
  cases cmd with
  | claimTopic topic nodeId timestamp =>
    refine Eq.trans ?_ (Table.get_insert s.ownership topic t nodeId)
    simp only [apply]
    split <;> rfl
  | releaseTopic topic nodeId =>
    simp only [apply, getOwner]
    by_cases ht : topic = t
    · subst ht
      split <;> simp_all
    · split <;> simp [ht, Table.get_erase]
  | transferTopic topic fromNode toNode =>
    simp only [apply, getOwner]
    by_cases ht : topic = t
    · subst ht
      split <;> simp_all
    · split <;> simp [ht]
  | acquireLease key owner leaseId ttlSecs timestamp =>
    simp only [apply]
    split <;> rfl
  | renewLease leaseId timestamp => rfl
  | releaseLease key =>
    simp only [apply]
    split <;> rfl
  | expireLeases now => exact congrArg (·[t]?) (foldl_forgetKey_topics _).1

end OwnershipState

open OwnershipState

variable {s s' : OwnershipState} {n : NodeId} {t : String}

/-- A topic is owned by the nodes that list it, and listed once. -/
structure TopicIndex (s : OwnershipState) : Prop where
  owner_iff : ∀ t n, s.ownership[t]? = some n ↔ t ∈ s.getNodeTopics n
  nodup : ∀ n, (s.getNodeTopics n).Nodup

/-- The index holds for every topic but one, which no node lists. -/
structure Unlisted (t : String) (s : OwnershipState) : Prop where
  owner_iff : ∀ u n, u ≠ t → (s.ownership[u]? = some n ↔ u ∈ s.getNodeTopics n)
  not_mem : ∀ n, t ∉ s.getNodeTopics n
  nodup : ∀ n, (s.getNodeTopics n).Nodup

theorem TopicIndex.congr (h : TopicIndex s) (ho : s'.ownership = s.ownership)
    (hn : s'.nodeTopics = s.nodeTopics) : TopicIndex s' := by
  have hg : ∀ n, s'.getNodeTopics n = s.getNodeTopics n := fun n => by
    simp only [getNodeTopics, hn]
  refine ⟨fun t n => ?_, fun n => ?_⟩
  · rw [ho, hg]; exact h.owner_iff t n
  · rw [hg]; exact h.nodup n

theorem TopicIndex.unlisted (h : TopicIndex s) (ho : s.ownership[t]? = none) : Unlisted t s := by
  refine ⟨fun u n _ => h.owner_iff u n, fun n hm => ?_, h.nodup⟩
  rw [← h.owner_iff, ho] at hm
  cases hm

theorem TopicIndex.dropTopic (h : TopicIndex s) (ho : s.ownership[t]? = some n) :
    Unlisted t (s.dropTopic n t) := by
  refine ⟨fun u m hu => ?_, fun m hm => ?_, fun m => ?_⟩
  · rw [ownership_dropTopic, h.owner_iff, getNodeTopics_dropTopic]
    split <;> simp [hu]
  · rw [getNodeTopics_dropTopic] at hm
    split at hm
    · simp at hm
    · rename_i hne
      rw [← h.owner_iff, ho] at hm
      exact hne (Option.some.inj hm)
  · rw [getNodeTopics_dropTopic]
    split
    · exact (h.nodup m).filter _
    · exact h.nodup m

theorem Unlisted.congr (h : Unlisted t s) (ho : ∀ u, u ≠ t → s'.ownership[u]? = s.ownership[u]?)
    (hn : ∀ n, s'.getNodeTopics n = s.getNodeTopics n) : Unlisted t s' := by
  refine ⟨fun u n hu => ?_, fun n => ?_, fun n => ?_⟩
  · rw [ho u hu, hn]; exact h.owner_iff u n hu
  · rw [hn]; exact h.not_mem n
  · rw [hn]; exact h.nodup n

theorem Unlisted.setOwner (h : Unlisted t s) : Unlisted t (s.setOwner t n) :=
  h.congr (fun u hu => by simp [hu.symm]) fun _ => rfl

theorem Unlisted.listTopic (h : Unlisted t s) (ho : s.ownership[t]? = some n) :
    TopicIndex (s.listTopic n t) := by
  refine ⟨fun u m => ?_, fun m => ?_⟩
  · rw [ownership_listTopic, getNodeTopics_listTopic]
    by_cases hu : u = t
    · subst u
      have hm := h.not_mem m
      rw [ho]
      split <;> simp_all
    · rw [h.owner_iff u m hu]
      split <;> simp [hu]
  · rw [getNodeTopics_listTopic]
    split
    · have hm := h.not_mem m
      refine List.nodup_append.mpr ⟨h.nodup m, by simp, ?_⟩
      intro a ha b hb hab
      rw [List.mem_singleton.mp hb] at hab
      exact hm (hab ▸ ha)
    · exact h.nodup m

theorem Unlisted.topicIndex (h : Unlisted t s) (ho : s.ownership[t]? = none) : TopicIndex s := by
  refine ⟨fun u n => ?_, h.nodup⟩
  by_cases hu : u = t
  · subst u
    simp [ho, h.not_mem n]
  · exact h.owner_iff u n hu

theorem topicIndex_new : TopicIndex new := by
  refine ⟨fun t n => ?_, fun n => ?_⟩ <;> simp [new, getNodeTopics]

theorem TopicIndex.apply (h : TopicIndex s) (c : OwnershipCommand) : TopicIndex (s.apply c) := by
  cases c with
  | claimTopic topic nodeId timestamp =>
    simp only [OwnershipState.apply]
    split
    · rename_i prevOwner ho
      exact (h.dropTopic ho).setOwner.listTopic (by simp)
    · rename_i ho
      exact (h.unlisted ho).setOwner.listTopic (by simp)
  | releaseTopic topic nodeId =>
    simp only [OwnershipState.apply]
    split
    · rename_i ho
      refine Unlisted.topicIndex ((h.dropTopic ho).congr (fun u hu => ?_) fun _ => rfl) ?_
      · exact (Table.get_erase _ _ _).trans (if_neg hu.symm)
      · exact (Table.get_erase _ _ _).trans (if_pos rfl)
    · exact h
  | transferTopic topic fromNode toNode =>
    simp only [OwnershipState.apply]
    split
    · rename_i ho
      refine Unlisted.listTopic ((h.dropTopic ho).congr (fun u hu => ?_) fun _ => rfl) (by simp)
      simp [hu.symm]
    · exact h
  | acquireLease key owner leaseId ttlSecs timestamp =>
    simp only [OwnershipState.apply]
    split
    · exact h
    · exact h.congr rfl rfl
  | renewLease leaseId timestamp => exact h.congr rfl rfl
  | releaseLease key =>
    simp only [OwnershipState.apply]
    split
    · exact h.congr rfl rfl
    · exact h
  | expireLeases now =>
    obtain ⟨ho, hn⟩ := foldl_forgetKey_topics (s := s) (s.expiredKeys now)
    exact h.congr ho hn

theorem topicIndex_exec (cmds : List OwnershipCommand) :
    TopicIndex (Runs.exec OwnershipState.apply new cmds) :=
  Runs.exec_inv (fun _ c h => h.apply c) topicIndex_new

/-- In every reachable state the owner table and the lists by node are inverse to
each other, no list repeats a topic, and the three topic queries agree. -/
theorem topic_index_bijection (cmds : List OwnershipCommand) :
    let s := Runs.exec OwnershipState.apply new cmds
    (∀ (t : String) (n : NodeId), s.ownership[t]? = some n ↔
      ∃ topics, s.nodeTopics[n]? = some topics ∧ t ∈ topics) ∧
    (∀ (n : NodeId) (topics : List String), s.nodeTopics[n]? = some topics → topics.Nodup) ∧
    (∀ (t : String) (n : NodeId), s.ownership[t]? = some n →
      ∃! m : NodeId, ∃ topics, s.nodeTopics[m]? = some topics ∧ t ∈ topics) ∧
    (∀ t n, s.query (.getOwner t) = .owner t (some n) ↔
      ∃ topics, s.query (.listTopics n) = .topics topics ∧ t ∈ topics) ∧
    (∀ t n, s.query (.getOwner t) = .owner t (some n) ↔
      ∃ ownership, s.query .listAll = .all ownership ∧ ownership[t]? = some n) := by
  intro s
  have h : TopicIndex s := topicIndex_exec cmds
  have hi : ∀ (t : String) (n : NodeId), s.ownership[t]? = some n ↔
      ∃ topics : List String, s.nodeTopics[n]? = some topics ∧ t ∈ topics := fun t n =>
    (h.owner_iff t n).trans mem_getNodeTopics
  refine ⟨hi, fun n topics hn => ?_, fun t n ho => ?_, fun t n => ?_, fun t n => ?_⟩
  · have hd := h.nodup n
    rwa [getNodeTopics, hn] at hd
  · refine ⟨n, (hi t n).mp ho, fun m hm => ?_⟩
    have hm' : s.ownership[t]? = some m := (hi t m).mpr hm
    exact Option.some.inj (hm'.symm.trans ho)
  · simp [OwnershipState.query, OwnershipState.getOwner, h.owner_iff]
  · simp [OwnershipState.query, OwnershipState.getOwner]

end DumbDistributedLog
