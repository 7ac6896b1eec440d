import DumbDistributedLog.Gossip.Coordinator
import DumbDistributedLog.Library.Runs

/-! # Epochs

One coordinator under any messages and local steps. The epoch of a record goes back exactly
where a record is overwritten without a comparison, and the epochs that the coordinator
claims are used again exactly where the record no longer shows the highest of them.
-/

namespace DumbDistributedLog.Gossip

/-- A coordinator with the claim that its ownership monitor is about to write. -/
structure Monitored where
  node : GossipCoordinator
  planned : Option (String × UInt64)

inductive GossipStep where
  | receive (msg : GossipMessage) (now : UInt64)
  | claim (topic : String) (timestamp : UInt64) (outcome : Except String Unit)
  | release (topic : String) (outcome : Except String Unit)
  | cleanup (ownerTimeoutSecs now : UInt64)
  | monitorRead (ownerTimeoutSecs : UInt64) (topic : String) (now : UInt64)
  | monitorWrite (now : UInt64) (outcome : Except String Unit)

namespace Monitored

def new (nodeId : NodeId) (topicSenders : List TopicId) : Monitored :=
  ⟨.new nodeId topicSenders, none⟩

section Steps

variable (deriveTopicId : String → TopicId) (s : Monitored)

/-- The monitor looks at no topic while it has a claim to write. -/
def step : GossipStep → Monitored
  | .receive msg now => { s with node := s.node.handleGossipMessage deriveTopicId msg now }
  | .claim topic timestamp outcome =>
    { s with node := (s.node.claimTopic deriveTopicId topic timestamp outcome).1 }
  | .release topic outcome =>
    { s with node := (s.node.releaseTopic deriveTopicId topic outcome).1 }
  | .cleanup ownerTimeoutSecs now => { s with node := s.node.cacheCleanup ownerTimeoutSecs now }
  | .monitorRead ownerTimeoutSecs topic now =>
    match s.planned with
    | none =>
      { s with planned := (s.node.monitorRead ownerTimeoutSecs topic now).map (topic, ·) }
    | some _ => s
  | .monitorWrite now outcome =>
    match s.planned with
    | some (topic, newEpoch) =>
      ⟨(s.node.monitorWrite deriveTopicId topic newEpoch now outcome).1, none⟩
    | none => s

def sends : GossipStep → Option GossipMessage
  | .claim topic timestamp outcome =>
    (s.node.claimTopic deriveTopicId topic timestamp outcome).2.toOption
  | .release topic outcome => (s.node.releaseTopic deriveTopicId topic outcome).2.toOption
  | .monitorWrite now outcome =>
    s.planned.bind fun (topic, newEpoch) =>
      (s.node.monitorWrite deriveTopicId topic newEpoch now outcome).2.toOption
  | .receive _ _ | .cleanup _ _ | .monitorRead _ _ _ => none

def record (t : String) : Option TopicOwnership := s.node.topicOwners[t]?

/-- No record that remains has its epoch lowered. -/
def KeepsEpochs (a : GossipStep) : Prop :=
  ∀ t ownership ownership', s.record t = some ownership →
    (s.step deriveTopicId a).record t = some ownership' → ownership.epoch ≤ ownership'.epoch

/-- The epoch of the record that a step puts in place without a look at the old one. -/
def overwrites (t : String) : GossipStep → Option UInt64
  | .receive (.nodeAnnounce _ _ announcedTopics) _ => if t ∈ announcedTopics then some 1 else none
  | .receive (.topicResponse topic (some _)) _ => if topic = t then some 1 else none
  | .monitorWrite _ _ =>
    s.planned.bind fun (topic, newEpoch) => if topic = t then some newEpoch else none
  | _ => none

/-- No record with a higher epoch is overwritten. -/
def Fenced (a : GossipStep) : Prop :=
  ∀ t ownership newEpoch, s.record t = some ownership → s.overwrites t a = some newEpoch →
    ownership.epoch ≤ newEpoch

end Steps

variable {deriveTopicId : String → TopicId} {s : Monitored} {t : String}
  {ownership ownership' : TopicOwnership}

theorem le_epoch_claimed (nodeId : NodeId) (epoch timestamp : UInt64) :
    ownership.epoch ≤ (ownership.claimed nodeId epoch timestamp).epoch := by
  unfold TopicOwnership.claimed
  split
  · rename_i h
    rcases TopicOwnership.accepts_iff.mp h with hlt | ⟨heq, -⟩
    · exact hlt.le
    · exact heq.le
  · exact le_rfl

theorem epoch_heartbeat (nodeId : NodeId) (epoch timestamp : UInt64) :
    (ownership.heartbeat nodeId epoch timestamp).epoch = ownership.epoch := by
  unfold TopicOwnership.heartbeat
  split <;> rfl

theorem record_step (a : GossipStep) : (s.step deriveTopicId a).record t =
    match a with
    | .receive msg now => recordAfter deriveTopicId msg now t (s.record t)
    | .claim topic timestamp _ =>
      if topic = t then some (s.node.claimedRecord topic timestamp) else s.record t
    | .release topic _ => if topic = t then none else s.record t
    | .cleanup ownerTimeoutSecs now => (s.record t).filter fun ownership =>
      !ownership.isTimedOut (ownerTimeoutSecs * 2 * nanosPerSec) now
    | .monitorRead _ _ _ => s.record t
    | .monitorWrite now _ =>
      ((s.overwrites t a).map fun newEpoch => ⟨s.node.nodeId, newEpoch, now, now⟩).or
        (s.record t) := by
  cases a with
  | receive msg now => exact get_handleGossipMessage msg
  | claim topic timestamp outcome => exact Table.get_insert _ _ _ _
  | release topic outcome => exact Table.get_erase _ _ _
  | cleanup ownerTimeoutSecs now => exact Table.get_filter _ _ _
  | monitorRead ownerTimeoutSecs topic now =>
    dsimp only [step]
    split <;> rfl
  | monitorWrite now outcome =>
    dsimp only [step, overwrites]
    cases hplan : s.planned with
    | none => rfl
    | some plan =>
      obtain ⟨topic, newEpoch⟩ := plan
      refine (Table.get_insert _ _ _ _).trans ?_
      by_cases ht : topic = t
      · simp [ht]
      · simp [ht, record]

theorem sends_eq_some_iff {a : GossipStep} {msg : GossipMessage} :
    s.sends deriveTopicId a = some msg ↔
      match a with
      | .claim topic timestamp outcome =>
        deriveTopicId topic ∈ s.node.topicSenders ∧ outcome = .ok () ∧
          .topicClaim topic (deriveTopicId topic) s.node.nodeId
            (s.node.claimedRecord topic timestamp).epoch timestamp = msg
      | .release topic outcome =>
        deriveTopicId topic ∈ s.node.topicSenders ∧ outcome = .ok () ∧
          .topicRelease topic (deriveTopicId topic) s.node.nodeId = msg
      | .monitorWrite now outcome =>
        ∃ topic newEpoch, s.planned = some (topic, newEpoch) ∧
          deriveTopicId topic ∈ s.node.topicSenders ∧ outcome = .ok () ∧
            .topicClaim topic (deriveTopicId topic) s.node.nodeId newEpoch now = msg
      | _ => False := by
  cases a with
  | claim topic timestamp outcome =>
    simp only [sends, GossipCoordinator.claimTopic, GossipCoordinator.toOption_broadcastMessage]
  | release topic outcome =>
    simp only [sends, GossipCoordinator.releaseTopic, GossipCoordinator.toOption_broadcastMessage]
  | monitorWrite now outcome =>
    simp only [sends, GossipCoordinator.monitorWrite, GossipCoordinator.toOption_broadcastMessage,
      Option.bind_eq_some_iff, Prod.exists]
  | _ => simp [sends]

theorem record_of_overwrites {a : GossipStep} {newEpoch : UInt64}
    (h : s.overwrites t a = some newEpoch) :
    ∃ ownership', (s.step deriveTopicId a).record t = some ownership' ∧
      ownership'.epoch = newEpoch := by
  rw [record_step]
  cases a with
  | receive msg now =>
    cases msg with
    | nodeAnnounce nodeId bindAddr announcedTopics =>
      simp only [overwrites, Option.ite_none_right_eq_some, Option.some.injEq] at h
      exact ⟨.new nodeId now, if_pos h.1, h.2⟩
    | topicResponse topic owner =>
      cases owner with
      | none => cases h
      | some owner =>
        simp only [overwrites, Option.ite_none_right_eq_some, Option.some.injEq] at h
        exact ⟨.new owner now, if_pos h.1, h.2⟩
    | _ => cases h
  | monitorWrite now outcome => exact ⟨⟨s.node.nodeId, newEpoch, now, now⟩, by simp [h], rfl⟩
  | _ => cases h

theorem epoch_le_of_eq (h : some ownership = some ownership') :
    ownership.epoch ≤ ownership'.epoch := by
  cases h
  exact le_rfl

theorem epoch_le_of_filter {p : TopicOwnership → Bool}
    (h : (some ownership).filter p = some ownership') : ownership.epoch ≤ ownership'.epoch := by
  obtain ⟨heq, -⟩ := Option.filter_eq_some_iff.mp h
  exact epoch_le_of_eq heq

theorem epoch_le_recordAfter {msg : GossipMessage} {now : UInt64}
    (h : s.overwrites t (.receive msg now) = none)
    (hnew : recordAfter deriveTopicId msg now t (some ownership) = some ownership') :
    ownership.epoch ≤ ownership'.epoch := by
  cases msg with
  | topicClaim topic topicId nodeId epoch timestamp =>
    dsimp only [recordAfter] at hnew
    split at hnew
    · cases hnew
      exact le_epoch_claimed nodeId epoch timestamp
    · exact epoch_le_of_eq hnew
  | topicRelease topic topicId nodeId =>
    dsimp only [recordAfter] at hnew
    split at hnew
    · exact epoch_le_of_filter hnew
    · exact epoch_le_of_eq hnew
  | topicHeartbeat topic topicId nodeId epoch timestamp =>
    dsimp only [recordAfter] at hnew
    split at hnew
    · cases hnew
      exact (epoch_heartbeat nodeId epoch timestamp).ge
    · exact epoch_le_of_eq hnew
  | nodeAnnounce nodeId bindAddr announcedTopics =>
    simp only [overwrites, ite_eq_right_iff, reduceCtorEq, imp_false] at h
    rw [recordAfter, if_neg h] at hnew
    exact epoch_le_of_eq hnew
  | nodeLeave nodeId =>
    dsimp only [recordAfter] at hnew
    exact epoch_le_of_filter hnew
  | topicResponse topic owner =>
    cases owner with
    | none => exact epoch_le_of_eq hnew
    | some owner =>
      simp only [overwrites, ite_eq_right_iff, reduceCtorEq, imp_false] at h
      rw [recordAfter, if_neg h] at hnew
      exact epoch_le_of_eq hnew
  | _ => exact epoch_le_of_eq hnew

theorem epoch_le_of_not_overwrites {a : GossipStep} (h : s.overwrites t a = none)
    (hold : s.record t = some ownership)
    (hnew : (s.step deriveTopicId a).record t = some ownership') :
    ownership.epoch ≤ ownership'.epoch := by
  rw [record_step, hold] at hnew
  cases a with
  | receive msg now => exact epoch_le_recordAfter h hnew
  | claim topic timestamp outcome =>
    dsimp only at hnew
    split at hnew
    · rename_i ht
      subst ht
      cases hnew
      rw [GossipCoordinator.claimedRecord_eq,
        show s.node.topicOwners[topic]? = some ownership from hold]
      exact U64.le_saturatingAdd _ _
    · exact epoch_le_of_eq hnew
  | release topic outcome =>
    dsimp only at hnew
    split at hnew
    · cases hnew
    · exact epoch_le_of_eq hnew
  | cleanup ownerTimeoutSecs now => exact epoch_le_of_filter hnew
  | monitorRead ownerTimeoutSecs topic now => exact epoch_le_of_eq hnew
  | monitorWrite now outcome =>
    rw [h] at hnew
    exact epoch_le_of_eq hnew

/-- Epochs never go back in exactly the runs that overwrite no record of a higher epoch. -/
theorem epochs_kept_iff (deriveTopicId : String → TopicId) (s : Monitored)
    (steps : List GossipStep) :
    Runs.Along (step deriveTopicId) (KeepsEpochs deriveTopicId) s steps ↔
      Runs.Along (step deriveTopicId) Fenced s steps := by
  refine Runs.along_congr (I := fun _ => True) (fun _ _ _ => trivial) (fun s a _ => ?_) trivial
  constructor
  · intro h t ownership newEpoch hold hover
    obtain ⟨ownership', hnew, rfl⟩ := record_of_overwrites hover
    exact h t ownership ownership' hold hnew
  · intro h t ownership ownership' hold hnew
    cases hover : s.overwrites t a with
    | none => exact epoch_le_of_not_overwrites hover hold hnew
    | some newEpoch =>
      obtain ⟨_, hnew', rfl⟩ := record_of_overwrites hover
      cases hnew.symm.trans hnew'
      exact h t ownership _ hold hover

/-- An announcement, an answer to a query and a late write of the monitor each replace an
owner that is recorded with a higher epoch. -/
theorem epochs_go_back :
    let run := fun steps => ((Runs.exec (step fun _ => []) (.new 1 [[]]) steps).record "t").map
      fun ownership => (ownership.ownerNodeId, ownership.epoch)
    let claimed := GossipStep.receive (.topicClaim "t" [] 2 9 0) 0
    run [claimed] = some (2, 9) ∧
      run [claimed, .receive (.nodeAnnounce 3 "addr" ["t"]) 0] = some (3, 1) ∧
      run [claimed, .receive (.topicResponse "t" (some 3)) 0] = some (3, 1) ∧
      let early := [.claim "t" 0 (.ok ()), .receive (.topicClaim "t" [] 2 3 0) 0,
        .monitorRead 30 "t" (31 * nanosPerSec), claimed]
      run early = some (2, 9) ∧
        run (early ++ [.monitorWrite (31 * nanosPerSec) (.ok ())]) = some (1, 4) := by
  decide +kernel

end Monitored

/-- A coordinator with the highest epoch it has recorded for a topic and the epochs it has
claimed this topic with. -/
structure Tracked where
  state : Monitored
  highest : UInt64
  sent : List UInt64

def GossipMessage.claimEpoch (t : String) : GossipMessage → Option UInt64
  | .topicClaim topic _ _ epoch _ => if topic = t then some epoch else none
  | _ => none

namespace Tracked

section Steps

variable (deriveTopicId : String → TopicId) (t : String)

def recorded (s : Monitored) : UInt64 := ((s.record t).map TopicOwnership.epoch).getD 0

def start (s : Monitored) : Tracked := ⟨s, recorded t s, []⟩

variable (s : Tracked)

def claims (a : GossipStep) : Option UInt64 :=
  (s.state.sends deriveTopicId a).bind (GossipMessage.claimEpoch t)

def step (a : GossipStep) : Tracked where
  state := s.state.step deriveTopicId a
  highest := max s.highest (recorded t (s.state.step deriveTopicId a))
  sent := s.sent ++ (s.claims deriveTopicId t a).toList

/-- As long as the epochs are not exhausted, a claim has an epoch above all that have been
recorded or claimed. -/
def Fresh (a : GossipStep) : Prop :=
  ∀ epoch, s.claims deriveTopicId t a = some epoch → s.highest < U64.maxValue →
    s.highest < epoch ∧ ∀ earlier ∈ s.sent, earlier < epoch

/-- A claim that can be broadcast finds the highest epoch in the record, where a missing
record counts as the first epoch, and a claim of the monitor is planned above it. -/
def Continues (a : GossipStep) : Prop :=
  deriveTopicId t ∈ s.state.node.topicSenders → s.highest < U64.maxValue →
    match a with
    | .claim topic _ (.ok ()) =>
      topic = t → s.highest ≤ ((s.state.record t).map TopicOwnership.epoch).getD 1
    | .monitorWrite _ (.ok ()) =>
      ∀ newEpoch, s.state.planned = some (t, newEpoch) → s.highest < newEpoch
    | _ => True

end Steps

variable {deriveTopicId : String → TopicId} {t : String} {s : Tracked}

theorem claimEpoch_eq_some_iff {topic : String} {topicId : TopicId} {nodeId : NodeId}
    {e epoch timestamp : UInt64} :
    (GossipMessage.topicClaim topic topicId nodeId e timestamp).claimEpoch t = some epoch ↔
      topic = t ∧ e = epoch := by
  simp [GossipMessage.claimEpoch]

theorem claims_eq_some_iff {a : GossipStep} {epoch : UInt64} :
    s.claims deriveTopicId t a = some epoch ↔
      deriveTopicId t ∈ s.state.node.topicSenders ∧
        match a with
        | .claim topic timestamp outcome =>
          outcome = .ok () ∧ topic = t ∧ (s.state.node.claimedRecord t timestamp).epoch = epoch
        | .monitorWrite _ outcome => outcome = .ok () ∧ s.state.planned = some (t, epoch)
        | _ => False := by
  simp only [claims, Option.bind_eq_some_iff, Monitored.sends_eq_some_iff]
  constructor
  · rintro ⟨msg, hsends, hepoch⟩
    cases a with
    | claim topic timestamp outcome =>
      obtain ⟨hjoined, hok, rfl⟩ := hsends
      obtain ⟨rfl, rfl⟩ := claimEpoch_eq_some_iff.mp hepoch
      exact ⟨hjoined, hok, rfl, rfl⟩
    | monitorWrite now outcome =>
      obtain ⟨topic, newEpoch, hplan, hjoined, hok, rfl⟩ := hsends
      obtain ⟨rfl, rfl⟩ := claimEpoch_eq_some_iff.mp hepoch
      exact ⟨hjoined, hok, hplan⟩
    | release topic outcome =>
      obtain ⟨-, -, rfl⟩ := hsends
      cases hepoch
    | _ => exact hsends.elim
  · rintro ⟨hjoined, h⟩
    cases a with
    | claim topic timestamp outcome =>
      obtain ⟨hok, rfl, rfl⟩ := h
      exact ⟨_, ⟨hjoined, hok, rfl⟩, claimEpoch_eq_some_iff.mpr ⟨rfl, rfl⟩⟩
    | monitorWrite now outcome =>
      obtain ⟨hok, hplan⟩ := h
      exact ⟨_, ⟨t, epoch, hplan, hjoined, hok, rfl⟩, claimEpoch_eq_some_iff.mpr ⟨rfl, rfl⟩⟩
    | _ => exact h.elim

theorem recorded_of_claims {a : GossipStep} {epoch : UInt64}
    (h : s.claims deriveTopicId t a = some epoch) :
    recorded t (s.state.step deriveTopicId a) = epoch := by
  obtain ⟨-, h⟩ := claims_eq_some_iff.mp h
  cases a with
  | claim topic timestamp outcome =>
    obtain ⟨-, rfl, rfl⟩ := h
    simp [recorded, Monitored.record_step]
  | monitorWrite now outcome =>
    obtain ⟨-, hplan⟩ := h
    simp [recorded, Monitored.record_step, Monitored.overwrites, hplan]
  | _ => exact h.elim

/-- What has been claimed has been recorded. -/
def Bounded (s : Tracked) : Prop := ∀ epoch ∈ s.sent, epoch ≤ s.highest

theorem Bounded.step (hs : s.Bounded) (a : GossipStep) :
    (s.step deriveTopicId t a).Bounded := by
  intro epoch hmem
  rcases List.mem_append.mp hmem with hold | hnew
  · exact (hs epoch hold).trans (le_max_left _ _)
  · rw [Option.mem_toList] at hnew
    rw [← recorded_of_claims hnew]
    exact le_max_right _ _

theorem fresh_iff (hs : s.Bounded) {a : GossipStep} :
    s.Fresh deriveTopicId t a ↔ s.Continues deriveTopicId t a := by
  have hfresh : s.Fresh deriveTopicId t a ↔ ∀ epoch, s.claims deriveTopicId t a = some epoch →
      s.highest < U64.maxValue → s.highest < epoch := by
    refine forall₃_congr fun epoch _ _ => ⟨And.left, fun h => ⟨h, fun earlier hmem => ?_⟩⟩
    exact (hs earlier hmem).trans_lt h
  simp only [hfresh, claims_eq_some_iff]
  cases a with
  | claim topic timestamp outcome =>
    rcases outcome with e | ⟨⟩
    · simp [Continues]
    · dsimp only [Continues]
      constructor
      · rintro h hjoined hmax rfl
        have hlt := h _ ⟨hjoined, rfl, rfl, rfl⟩ hmax
        rwa [GossipCoordinator.claimedRecord_eq, U64.lt_saturatingAdd_one hmax] at hlt
      · rintro h _ ⟨hjoined, -, rfl, rfl⟩ hmax
        rw [GossipCoordinator.claimedRecord_eq, U64.lt_saturatingAdd_one hmax]
        exact h hjoined hmax rfl
  | monitorWrite now outcome =>
    rcases outcome with e | ⟨⟩
    · simp [Continues]
    · dsimp only [Continues]
      constructor
      · intro h hjoined hmax newEpoch hplan
        exact h newEpoch ⟨hjoined, rfl, hplan⟩ hmax
      · rintro h newEpoch ⟨hjoined, -, hplan⟩ hmax
        exact h hjoined hmax newEpoch hplan
  | _ => simp [Continues]

/-- No epoch is claimed twice in exactly the runs in which every claim finds the highest
epoch in the record. -/
theorem claims_fresh_iff (deriveTopicId : String → TopicId) (t : String) (s : Monitored)
    (steps : List GossipStep) :
    Runs.Along (step deriveTopicId t) (Fresh deriveTopicId t) (start t s) steps ↔
      Runs.Along (step deriveTopicId t) (Continues deriveTopicId t) (start t s) steps :=
  Runs.along_congr (I := Bounded) (fun _ a hs => hs.step a) (fun _ _ hs => fresh_iff hs)
    (by simp [Bounded, start])

/-- The epoch is claimed again after a release and after an eviction. -/
theorem claim_epoch_repeats :
    (Runs.exec (step (fun _ => []) "t") (start "t" (.new 1 [[]]))
      [.claim "t" 0 (.ok ()), .release "t" (.ok ()), .claim "t" 1 (.ok ())]).sent = [2, 2] ∧
    (Runs.exec (step (fun _ => []) "t") (start "t" (.new 1 [[]]))
      [.claim "t" 0 (.ok ()), .claim "t" 1 (.ok ()), .cleanup 30 (61 * nanosPerSec),
        .claim "t" (61 * nanosPerSec) (.ok ())]).sent = [2, 3, 2] := by
  decide +kernel

end Tracked

end DumbDistributedLog.Gossip
