import DumbDistributedLog.Ownership.Topics
import DumbDistributedLog.Queue.Standalone

/-! # One writer for a topic

With Raft, a push asks for the committed owner of its topic and then appends to the queue of
its own node. Nothing ties the two steps together: a topic that changes hands between them is
written by its old owner, also after its new owner has begun to write.
-/

namespace DumbDistributedLog

open OwnershipState Runs Ddl

def OwnershipCommand.Takes (n : NodeId) (t : String) : OwnershipCommand → Prop
  | .claimTopic topic nodeId _ => topic = t ∧ nodeId ≠ n
  | .releaseTopic topic nodeId => topic = t ∧ nodeId = n
  | .transferTopic topic fromNode toNode => topic = t ∧ fromNode = n ∧ toNode ≠ n
  | _ => False

instance (n : NodeId) (t : String) : ∀ cmd : OwnershipCommand, Decidable (cmd.Takes n t)
  | .claimTopic _ _ _ => inferInstanceAs (Decidable (_ ∧ _))
  | .releaseTopic _ _ => inferInstanceAs (Decidable (_ ∧ _))
  | .transferTopic _ _ _ => inferInstanceAs (Decidable (_ ∧ _ ∧ _))
  | .acquireLease _ _ _ _ _ | .renewLease _ _ | .releaseLease _ | .expireLeases _ =>
    .isFalse id

/-- A push that has found its node to be the owner of the topic. -/
structure CheckedPush where
  node : NodeId
  topic : String
  payload : List UInt8
  deriving DecidableEq, Repr

/-- The committed ownership, the log of every node, and the pushes between their two steps. -/
structure Writers where
  committed : OwnershipState
  logs : NodeId → DdlDistributed
  checked : List CheckedPush

inductive WriterStep where
  | commit (cmd : OwnershipCommand)
  | check (node : NodeId) (topic : String) (payload : List UInt8) (read : Except String Unit)
  | append (i : ℕ) (now : UInt64)

namespace Writers

def start (committed : OwnershipState) (logs : NodeId → DdlDistributed) : Writers :=
  ⟨committed, logs, []⟩

variable (s : Writers)

/-- The read is preceded by a round that may fail. -/
def getOwner (topic : String) (read : Except String Unit) : Except String (Option NodeId) :=
  match read with
  | .error e => .error ("Linearizable read failed: " ++ e)
  | .ok () => .ok (s.committed.getOwner topic)

def ownsTopic (node : NodeId) (topic : String) (read : Except String Unit) : Bool :=
  match s.getOwner topic read with
  | .ok (some owner) => owner == node
  | _ => false

def check (node : NodeId) (topic : String) (read : Except String Unit) : Except DdlError Unit :=
  match validateTopic topic with
  | .error e => .error e
  | .ok () => if s.ownsTopic node topic read then .ok () else .error (.notOwner topic)

def step : WriterStep → Writers
  | .commit cmd => { s with committed := s.committed.apply cmd }
  | .check node topic payload read =>
    match s.check node topic read with
    | .ok () => { s with checked := s.checked ++ [⟨node, topic, payload⟩] }
    | .error _ => s
  | .append i now =>
    match s.checked[i]? with
    | some p =>
      { s with
        logs := Function.update s.logs p.node
          ((s.logs p.node).appendOwned p.topic p.payload now).1
        checked := s.checked.eraseIdx i }
    | none => s

def appends : WriterStep → Option (NodeId × String)
  | .append i now => s.checked[i]?.bind fun p =>
    let appended := ((s.logs p.node).appendOwned p.topic p.payload now).1
    if appended.written p.topic ≠ (s.logs p.node).written p.topic then some (p.node, p.topic)
    else none
  | _ => none

/-- An entry is appended by the committed owner of its topic. -/
def AppendsOwned (a : WriterStep) : Prop :=
  ∀ p ∈ s.appends a, s.committed.getOwner p.2 = some p.1

/-- No topic is taken from a node that has checked it for a push and has not appended yet. -/
def Undisturbed : WriterStep → Prop
  | .commit cmd => ∀ p ∈ s.checked, ¬ cmd.Takes p.node p.topic
  | _ => True

instance (a : WriterStep) : Decidable (s.AppendsOwned a) :=
  inferInstanceAs (Decidable (∀ p ∈ s.appends a, _))

instance : ∀ a, Decidable (s.Undisturbed a)
  | .commit cmd => inferInstanceAs (Decidable (∀ p ∈ s.checked, ¬ cmd.Takes p.node p.topic))
  | .check _ _ _ _ | .append _ _ => .isTrue trivial

def CheckedOwned : Prop := ∀ p ∈ s.checked, s.committed.getOwner p.topic = some p.node

end Writers

theorem getOwner_apply_iff_not_takes {s : OwnershipState} {n : NodeId} {t : String}
    (h : s.getOwner t = some n) (cmd : OwnershipCommand) :
    (s.apply cmd).getOwner t = some n ↔ ¬ cmd.Takes n t := by
  rw [getOwner_apply]
  cases cmd with
  | claimTopic topic nodeId timestamp =>
    by_cases ht : topic = t <;> simp [OwnershipCommand.Takes, ht, h]
  | releaseTopic topic nodeId =>
    by_cases ht : topic = t <;> simp [OwnershipCommand.Takes, ht, h, eq_comm]
  | transferTopic topic fromNode toNode =>
    by_cases hcond : topic = t ∧ n = fromNode
    · obtain ⟨rfl, rfl⟩ := hcond
      simp [OwnershipCommand.Takes, h]
    · have hkeeps : ¬ OwnershipCommand.Takes n t (.transferTopic topic fromNode toNode) := by
        rintro ⟨ht, hn, -⟩
        exact hcond ⟨ht, hn.symm⟩
      simp [h, hcond, hkeeps]
  | _ => simp [OwnershipCommand.Takes, h]

namespace Writers

variable {s : Writers} {a : WriterStep} {acts : List WriterStep}

theorem check_eq_ok {node : NodeId} {topic : String} {read : Except String Unit}
    (h : s.check node topic read = .ok ()) : s.committed.getOwner topic = some node := by
  unfold check at h
  split at h
  · cases h
  split at h
  · rename_i howns
    unfold ownsTopic getOwner at howns
    rcases read with e | ⟨⟩
    · cases howns
    · cases howner : s.committed.getOwner topic with
      | none => simp [howner] at howns
      | some owner => simpa [howner] using howns
  · cases h

theorem mem_of_appends {node : NodeId} {topic : String}
    (h : s.appends a = some (node, topic)) :
    ∃ p ∈ s.checked, p.node = node ∧ p.topic = topic := by
  cases a with
  | append i now =>
    obtain ⟨p, hp, happ⟩ := Option.bind_eq_some_iff.mp h
    dsimp only at happ
    split at happ
    · cases happ
      exact ⟨p, List.mem_of_getElem? hp, rfl, rfl⟩
    · cases happ
  | _ => cases h

theorem CheckedOwned.step (hs : s.CheckedOwned) (ha : s.Undisturbed a) :
    (s.step a).CheckedOwned := by
  cases a with
  | commit cmd =>
    intro p hp
    exact (getOwner_apply_iff_not_takes (hs p hp) cmd).mpr (ha p hp)
  | check node topic payload read =>
    dsimp only [Writers.step]
    split
    · rename_i hcheck
      intro p hp
      rcases List.mem_append.mp hp with hold | hnew
      · exact hs p hold
      · cases List.mem_singleton.mp hnew
        exact check_eq_ok hcheck
    · exact hs
  | append i now =>
    dsimp only [Writers.step]
    split
    · intro p hp
      exact hs p (List.mem_of_mem_eraseIdx hp)
    · exact hs

theorem CheckedOwned.appendsOwned (hs : s.CheckedOwned) : s.AppendsOwned a := by
  rintro ⟨node, topic⟩ happends
  obtain ⟨p, hp, rfl, rfl⟩ := mem_of_appends happends
  exact hs p hp

theorem committed_step (h : (s.step a).committed ≠ s.committed) : ∃ cmd, a = .commit cmd := by
  cases a with
  | commit cmd => exact ⟨cmd, rfl⟩
  | check node topic payload read =>
    refine absurd ?_ h
    dsimp only [step]
    split <;> rfl
  | append i now =>
    refine absurd ?_ h
    dsimp only [step]
    split <;> rfl

/-- If no topic changes hands under a push, then every entry is appended by the owner of its
topic, and between the entries of two nodes the topic has changed hands. -/
theorem single_writer (committed : OwnershipState) (logs : NodeId → DdlDistributed)
    (acts : List WriterStep)
    (h : Along step Undisturbed (start committed logs) acts) :
    Along step AppendsOwned (start committed logs) acts ∧
      ∀ pre a mid b post, acts = pre ++ a :: (mid ++ b :: post) →
        let first := exec step (start committed logs) pre
        let second := exec step (start committed logs) (pre ++ a :: mid)
        ∀ n m t, first.appends a = some (n, t) → second.appends b = some (m, t) → n ≠ m →
          ∃ before cmd after, a :: mid = before ++ .commit cmd :: after ∧
            let s := exec step first before
            (s.committed.apply cmd).getOwner t ≠ s.committed.getOwner t := by
  have hstart : (start committed logs).CheckedOwned := by
    intro p hp
    cases hp
  have howned : Along step AppendsOwned (start committed logs) acts :=
    h.strengthen (fun s a hs ha => ⟨hs.step ha, hs.appendsOwned⟩) hstart
  refine ⟨howned, ?_⟩
  rintro pre a mid b post rfl first second n m t hfirst hsecond hne
  have hall := along_iff_forall_split.mp howned
  have hn : first.committed.getOwner t = some n :=
    hall pre a (mid ++ b :: post) rfl (n, t) hfirst
  have hm : second.committed.getOwner t = some m :=
    hall (pre ++ a :: mid) b post (by simp) (m, t) hsecond
  have hsecond' : second = exec step first (a :: mid) := exec_append
  have hchange : (exec step first (a :: mid)).committed.getOwner t ≠
      first.committed.getOwner t := by
    rw [← hsecond', hn, hm]
    simpa using hne.symm
  obtain ⟨before, c, after, hsplit, hc⟩ :=
    exists_change (f := fun s : Writers => s.committed.getOwner t) hchange
  obtain ⟨cmd, rfl⟩ := committed_step fun heq => hc (by rw [heq])
  exact ⟨before, cmd, after, hsplit, hc⟩

/-- A topic is handed over between two pushes. -/
theorem single_writer_handover :
    let logs := fun _ => DdlDistributed.newStandalone ⟨⟨4, 4, .dropNewest⟩, [], 0⟩
    let acts := [.commit (.claimTopic "t" 1 0), .check 1 "t" [] (.ok ()), .append 0 0,
      .commit (.transferTopic "t" 1 2), .check 2 "t" [] (.ok ()), .append 0 0]
    Along step AppendsOwned (start new logs) acts ∧
      (exec step (start new logs) (acts.take 2)).appends (.append 0 0) = some (1, "t") ∧
      (exec step (start new logs) (acts.take 5)).appends (.append 0 0) = some (2, "t") :=
  ⟨(single_writer _ _ _ (by decide +kernel)).1, by decide +kernel, by decide +kernel⟩

/-- A topic is claimed by another node under a push. Both nodes append with no command between
their entries, and the second entry is not by the owner. -/
theorem two_writers :
    let logs := fun _ => DdlDistributed.newStandalone ⟨⟨4, 4, .dropNewest⟩, [], 0⟩
    let checks := [.commit (.claimTopic "t" 1 0), .check 1 "t" [] (.ok ()),
      .commit (.claimTopic "t" 2 0), .check 2 "t" [] (.ok ())]
    let checked := exec step (start new logs) checks
    checked.appends (.append 1 0) = some (2, "t") ∧
      (checked.step (.append 1 0)).appends (.append 0 0) = some (1, "t") ∧
      (checked.step (.append 1 0)).committed.getOwner "t" = some 2 ∧
      ¬ Along step AppendsOwned (start new logs) (checks ++ [.append 1 0, .append 0 0]) := by
  decide +kernel

end Writers

end DumbDistributedLog
