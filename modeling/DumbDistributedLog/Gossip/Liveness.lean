import DumbDistributedLog.Gossip.Network

/-! # A live owner

Nobody but one node claims a topic. Its claim and its heartbeats refresh the records of the
other nodes, but the owner never hears its own messages, so that its own record ages from the
claim on, whatever it sends.
-/

namespace DumbDistributedLog.Gossip

namespace Network

section Uncontested

/-- The topic is claimed and released by one node only. -/
def OnlyBy (n : NodeId) (t : String) : NetworkOp → Prop
  | .claim m topic | .release m topic => topic = t → m = n
  | _ => True

/-- A message about the topic comes from its only owner and is on its way to another node. -/
def FromOwner (deriveTopicId : String → TopicId) (n : NodeId) (t : String) (clock : UInt64) :
    NodeId × GossipMessage → Prop
  | (m, .topicClaim topic topicId nodeId _ timestamp) => topic = t →
    m ≠ n ∧ nodeId = n ∧ topicId = deriveTopicId topic ∧ timestamp ≤ clock
  | (m, .topicRelease topic _ nodeId) => topic = t → m ≠ n ∧ nodeId = n
  | (m, .topicHeartbeat topic _ _ _ _) => topic = t → m ≠ n
  | _ => False

/-- Nobody else has anything to do with the topic. -/
structure Uncontested (deriveTopicId : String → TopicId) (n : NodeId) (t : String)
    (s : Network) : Prop where
  ids : ∀ m, (s.nodes m).node.nodeId = m
  unowned : ∀ m, (s.nodes m).Owns t → m = n
  unplanned : ∀ m newEpoch, (s.nodes m).planned ≠ some (t, newEpoch)
  own : ∀ ownership, (s.nodes n).record t = some ownership → ownership.ownerNodeId = n
  messages : ∀ p ∈ s.inFlight, FromOwner deriveTopicId n t s.clock p

variable {deriveTopicId : String → TopicId} {s : Network} {op : NetworkOp} {n m : NodeId}
  {t : String}

theorem FromOwner.mono {clock clock' : UInt64} {p : NodeId × GossipMessage} (hle : clock ≤ clock')
    (h : FromOwner deriveTopicId n t clock p) : FromOwner deriveTopicId n t clock' p := by
  obtain ⟨m, msg⟩ := p
  cases msg with
  | topicClaim topic topicId nodeId epoch timestamp =>
    intro ht
    obtain ⟨hm, hn, hid, htime⟩ := h ht
    exact ⟨hm, hn, hid, htime.trans hle⟩
  | _ => exact h

/-- The owner receives nothing about its topic. -/
theorem FromOwner.recordAfter_self {msg : GossipMessage} {now : UInt64}
    (h : FromOwner deriveTopicId n t now (n, msg)) (record : Option TopicOwnership) :
    recordAfter deriveTopicId msg now t record = record := by
  cases msg with
  | topicClaim topic topicId nodeId epoch timestamp =>
    exact if_neg fun hcond => (h hcond.1).1 rfl
  | topicRelease topic topicId nodeId => exact if_neg fun ht => (h ht).1 rfl
  | topicHeartbeat topic topicId nodeId epoch timestamp => exact if_neg fun hcond => h hcond.1 rfl
  | _ => exact h.elim

/-- The monitor takes over topics from other nodes only. -/
theorem Uncontested.unplanned_step (hs : s.Uncontested deriveTopicId n t) (a : GossipStep)
    (newEpoch : UInt64) :
    ((s.nodes m).step deriveTopicId a).planned ≠ some (t, newEpoch) := by
  rw [Monitored.planned_step]
  cases a with
  | monitorRead ownerTimeoutSecs topic now =>
    intro h
    rcases Option.or_eq_some_iff.mp h with hplan | ⟨-, hplan⟩
    · exact hs.unplanned m newEpoch hplan
    · obtain ⟨_, hread, heq⟩ := Option.map_eq_some_iff.mp hplan
      cases heq
      obtain ⟨howns, ownership, hrec, hne⟩ := GossipCoordinator.monitorRead_eq_some hread
      obtain rfl : m = n := hs.unowned m howns
      rw [hs.ids] at hne
      exact hne (hs.own ownership hrec)
  | monitorWrite now outcome => simp
  | _ => exact hs.unplanned m newEpoch

theorem Uncontested.owner_step (hs : s.Uncontested deriveTopicId n t) {a : GossipStep}
    (hlocal : s.localStep op = some (n, a)) {ownership : TopicOwnership}
    (h : ((s.nodes n).step deriveTopicId a).record t = some ownership) :
    ownership.ownerNodeId = n := by
  rw [Monitored.record_step] at h
  cases a with
  | receive msg now =>
    obtain ⟨hmem, rfl⟩ := mem_inFlight_of_localStep hlocal
    dsimp only at h
    rw [(hs.messages _ hmem).recordAfter_self] at h
    exact hs.own ownership h
  | claim topic timestamp outcome =>
    dsimp only at h
    split at h
    · cases h
      rw [GossipCoordinator.claimedRecord_eq]
      exact hs.ids n
    · exact hs.own ownership h
  | release topic outcome =>
    dsimp only at h
    split at h
    · cases h
    · exact hs.own ownership h
  | cleanup ownerTimeoutSecs now => exact hs.own ownership (Option.filter_eq_some_iff.mp h).1
  | monitorRead ownerTimeoutSecs topic now => exact hs.own ownership h
  | monitorWrite now outcome =>
    rw [Monitored.overwrites_eq_none (hs.unplanned n)] at h
    exact hs.own ownership h

theorem Uncontested.step (hs : s.Uncontested deriveTopicId n t) (hop : OnlyBy n t op) :
    (s.step deriveTopicId op).Uncontested deriveTopicId n t where
  ids m := (nodeId_nodes_step m).trans (hs.ids m)
  unowned := by
    refine forall_nodes_step (P := fun m node => node.Owns t → m = n) hs.unowned
      fun m a hlocal => ?_
    rw [Monitored.owns_step]
    cases a with
    | claim topic timestamp outcome =>
      obtain rfl := op_of_localStep_claim hlocal
      rintro (ht | howns)
      · exact hop ht
      · exact hs.unowned m howns
    | release topic outcome =>
      rintro ⟨-, howns⟩
      exact hs.unowned m howns
    | _ => exact hs.unowned m
  unplanned :=
    forall_nodes_step (P := fun _ node => ∀ newEpoch, node.planned ≠ some (t, newEpoch))
      hs.unplanned fun m a _ newEpoch => hs.unplanned_step a newEpoch
  own :=
    forall_nodes_step (P := fun m node => m = n → ∀ ownership, node.record t = some ownership →
        ownership.ownerNodeId = n)
      (by
        rintro _ rfl
        exact hs.own)
      (by
        rintro _ a hlocal rfl ownership h
        exact hs.owner_step hlocal h) n rfl
  messages p hp := by
    rcases mem_inFlight_step hp with hold | ⟨k, hsent, hne⟩
    · exact (hs.messages p hold).mono clock_le_step
    · obtain ⟨m, msg⟩ := p
      rcases broadcasts_cases hsent with ⟨topic, rfl, rfl⟩ | ⟨topic, rfl, rfl⟩ |
        ⟨topic, epoch, rfl, howns, rfl⟩ | ⟨topic, epoch, rfl, hplan, rfl⟩
      · intro ht
        obtain rfl : k = n := hop ht
        exact ⟨hne, hs.ids k, rfl, le_rfl⟩
      · intro ht
        obtain rfl : k = n := hop ht
        exact ⟨hne, hs.ids k⟩
      · intro ht
        obtain rfl : k = n := hs.unowned k (ht ▸ howns)
        exact hne
      · intro ht
        exact absurd (ht ▸ hplan) (hs.unplanned k epoch)

theorem uncontested_start (members : List NodeId) (joined : NodeId → List TopicId)
    (ownerTimeoutSecs : NodeId → UInt64) (now : UInt64) :
    (start members joined ownerTimeoutSecs now).Uncontested deriveTopicId n t := by
  constructor <;> simp [start, Monitored.Owns, Monitored.record, GossipCoordinator.new]

end Uncontested

end Network

/-- A claim, by the node that made it, with its epoch and its time. -/
structure Tenure where
  owner : NodeId
  topic : String
  epoch : UInt64
  claimedAt : UInt64

/-- A network with the nodes that have received a claim or made it, and the time of the last
heartbeat for it. -/
structure Watched where
  net : Network
  holders : List NodeId
  lastBeat : UInt64

namespace Tenure

variable (deriveTopicId : String → TopicId) (c : Tenure)

def message : GossipMessage :=
  .topicClaim c.topic (deriveTopicId c.topic) c.owner c.epoch c.claimedAt

def of (s : Network) (n : NodeId) (t : String) : Tenure where
  owner := n
  topic := t
  epoch := ((s.nodes n).node.claimedRecord t s.clock).epoch
  claimedAt := s.clock

/-- The record is that of the claim, and not older. -/
def Recorded (record : Option TopicOwnership) : Prop :=
  ∃ ownership, record = some ownership ∧ ownership.ownerNodeId = c.owner ∧
    ownership.epoch = c.epoch ∧ c.claimedAt ≤ ownership.lastHeartbeat

end Tenure

namespace Watched

section Steps

variable (deriveTopicId : String → TopicId) (c : Tenure) (s : Watched)

def start (net : Network) : Watched :=
  ⟨net.step deriveTopicId (.claim c.owner c.topic), [c.owner], c.claimedAt⟩

def receives : NetworkOp → List NodeId
  | .deliver i => (s.net.inFlight[i]?.filter fun p => p.2 = c.message deriveTopicId).toList.map
      Prod.fst
  | _ => []

def step (op : NetworkOp) : Watched where
  net := s.net.step deriveTopicId op
  holders := s.holders ++ s.receives deriveTopicId c op
  lastBeat :=
    match op with
    | .heartbeat n => if n = c.owner then s.net.clock else s.lastBeat
    | _ => s.lastBeat

/-- Every node that has received the claim names its owner, and has the epoch of the claim. -/
def Held : Prop :=
  ∀ m ∈ s.holders, (s.net.nodes m).node.getTopicOwner c.topic s.net.clock = some c.owner ∧
    ((s.net.nodes m).record c.topic).map TopicOwnership.epoch = some c.epoch

def timeoutNanos : UInt64 := (s.net.nodes c.owner).node.ownerTimeoutSecs * nanosPerSec

/-- The time does not leave the timeout after the claim, no record of the claim is evicted,
the claim meets no record that it cannot replace, and nothing that the owner sent before a
release or with a higher epoch arrives after the claim. -/
def Kept : NetworkOp → Prop
  | .tick now => U64.saturatingSub (max s.net.clock now) c.claimedAt ≤ s.timeoutNanos c
  | .cleanup n ownerTimeoutSecs => n ∈ s.holders → ∀ ownership,
    (s.net.nodes n).record c.topic = some ownership →
      U64.saturatingSub s.net.clock ownership.lastHeartbeat ≤ ownerTimeoutSecs * 2 * nanosPerSec
  | .deliver i => ∀ m msg, s.net.inFlight[i]? = some (m, msg) →
    (msg = c.message deriveTopicId → ∀ ownership,
      (s.net.nodes m).record c.topic = some ownership → ownership.epoch < c.epoch ∨
        ownership.epoch = c.epoch ∧ c.owner ≤ ownership.ownerNodeId) ∧
    (m ∈ s.holders →
      (∀ topicId nodeId epoch timestamp,
        msg = .topicClaim c.topic topicId nodeId epoch timestamp → epoch ≤ c.epoch) ∧
      ∀ topicId nodeId, msg ≠ .topicRelease c.topic topicId nodeId)
  | _ => True

/-- No call claims or releases the topic again. -/
def Spares (t : String) : NetworkOp → Prop
  | .claim _ topic | .release _ topic => topic ≠ t
  | _ => True

/-- The time at which a heartbeat was sent. Other messages count as sent now. -/
def sentAt (now : UInt64) : GossipMessage → UInt64
  | .topicHeartbeat _ _ _ _ timestamp => timestamp
  | _ => now

/-- Heartbeats are sent at intervals shorter than the timeout, and each arrives within it. -/
def Timely : NetworkOp → Prop
  | .tick now => U64.saturatingSub now s.lastBeat < s.timeoutNanos c ∧
    ∀ p ∈ s.net.inFlight, U64.saturatingSub now (sentAt now p.2) ≤ s.timeoutNanos c
  | _ => True

instance : ∀ op, Decidable (s.Timely c op)
  | .tick _ => inferInstanceAs (Decidable (_ ∧ _))
  | .claim _ _ | .release _ _ | .heartbeat _ | .cleanup _ _ | .monitorRead _ _ _
  | .monitorWrite _ | .deliver _ => .isTrue trivial

/-- Every holder has a record of the claim. That of the owner has not been refreshed. -/
structure Steady : Prop where
  uncontested : s.net.Uncontested deriveTopicId c.owner c.topic
  timeouts : ∀ m, (s.net.nodes m).node.ownerTimeoutSecs * nanosPerSec = s.timeoutNanos c
  first : 1 ≤ c.epoch
  since : c.claimedAt ≤ s.net.clock
  recorded : ∀ m ∈ s.holders, c.Recorded ((s.net.nodes m).record c.topic)
  owner : c.owner ∈ s.holders
  own : ∀ ownership, (s.net.nodes c.owner).record c.topic = some ownership →
    ownership.lastHeartbeat = c.claimedAt

end Steps

variable {deriveTopicId : String → TopicId} {c : Tenure} {s : Watched} {op : NetworkOp}

theorem Steady.held (hs : s.Steady deriveTopicId c)
    (htime : U64.saturatingSub s.net.clock c.claimedAt ≤ s.timeoutNanos c) : s.Held c := by
  intro m hm
  obtain ⟨ownership, hrec, howner, hepoch, hsince⟩ := hs.recorded m hm
  constructor
  · refine GossipCoordinator.getTopicOwner_eq_some_iff.mpr ⟨ownership, hrec, ?_, howner⟩
    rw [TopicOwnership.isTimedOut_iff, not_lt, hs.timeouts m]
    exact (U64.saturatingSub_le_saturatingSub_left hsince).trans htime
  · rw [hrec, Option.map_some, hepoch]

theorem Steady.time (hs : s.Steady deriveTopicId c) (h : s.Held c) :
    U64.saturatingSub s.net.clock c.claimedAt ≤ s.timeoutNanos c := by
  obtain ⟨ownership, hrec, hfresh, -⟩ :=
    GossipCoordinator.getTopicOwner_eq_some_iff.mp (h c.owner hs.owner).1
  rw [TopicOwnership.isTimedOut_iff, not_lt, hs.timeouts, hs.own ownership hrec] at hfresh
  exact hfresh

theorem timeoutNanos_step : (s.step deriveTopicId c op).timeoutNanos c = s.timeoutNanos c :=
  congrArg (· * nanosPerSec) (Network.ownerTimeoutSecs_nodes_step c.owner)

theorem record_step_of_quiet {net : Network} {n : NodeId} {t : String}
    (hnet : net.Uncontested deriveTopicId n t) (hop : Spares t op)
    (hdeliver : ∀ i, op ≠ .deliver i) (hcleanup : ∀ k secs, op ≠ .cleanup k secs) (m : NodeId) :
    ((net.step deriveTopicId op).nodes m).record t = (net.nodes m).record t := by
  refine Network.forall_nodes_step (P := fun m node => node.record t = (net.nodes m).record t)
    (fun _ => rfl) (fun m a hlocal => ?_) m
  rw [Monitored.record_step]
  cases op with
  | claim k topic =>
    cases hlocal
    exact if_neg hop
  | release k topic =>
    cases hlocal
    exact if_neg hop
  | cleanup k secs => exact absurd rfl (hcleanup k secs)
  | monitorRead k secs topic =>
    cases hlocal
    rfl
  | monitorWrite k =>
    cases hlocal
    rw [Monitored.overwrites_eq_none (hnet.unplanned m)]
    rfl
  | deliver i => exact absurd rfl (hdeliver i)
  | _ => cases hlocal

theorem recorded_claimed {ownership : TopicOwnership}
    (h : ownership.accepts c.owner c.epoch = true) :
    c.Recorded (some (ownership.claimed c.owner c.epoch c.claimedAt)) := by
  rw [TopicOwnership.claimed, if_pos h]
  exact ⟨_, rfl, rfl, rfl, le_max_left _ _⟩

theorem recorded_message {record : Option TopicOwnership} {now : UInt64} (hfirst : 1 ≤ c.epoch)
    (hsince : c.claimedAt ≤ now)
    (h : ∀ ownership, record = some ownership → ownership.epoch < c.epoch ∨
      ownership.epoch = c.epoch ∧ c.owner ≤ ownership.ownerNodeId) :
    c.Recorded (recordAfter deriveTopicId (c.message deriveTopicId) now c.topic record) := by
  have hin : InTime c.claimedAt now := hsince.trans (U64.le_saturatingAdd _ _)
  rw [Tenure.message, recordAfter, if_pos ⟨rfl, hin, rfl⟩]
  refine recorded_claimed (TopicOwnership.accepts_iff.mpr ?_)
  cases record with
  | none =>
    rcases lt_or_eq_of_le hfirst with hlt | heq
    · exact .inl hlt
    · exact .inr ⟨heq, le_rfl⟩
  | some ownership => exact h ownership rfl

theorem recorded_after {record : Option TopicOwnership} {now : UInt64} {m : NodeId}
    {msg : GossipMessage} (hrec : c.Recorded record)
    (hmsg : Network.FromOwner deriveTopicId c.owner c.topic now (m, msg))
    (hclaim : ∀ topicId nodeId epoch timestamp,
      msg = .topicClaim c.topic topicId nodeId epoch timestamp → epoch ≤ c.epoch)
    (hrelease : ∀ topicId nodeId, msg ≠ .topicRelease c.topic topicId nodeId) :
    c.Recorded (recordAfter deriveTopicId msg now c.topic record) := by
  obtain ⟨ownership, rfl, howner, hepoch, hsince⟩ := hrec
  have hsame : c.Recorded (some ownership) := ⟨ownership, rfl, howner, hepoch, hsince⟩
  cases msg with
  | topicClaim topic topicId nodeId epoch timestamp =>
    dsimp only [recordAfter]
    split
    · rename_i hcond
      obtain ⟨rfl, -⟩ := hcond
      obtain ⟨-, rfl, -⟩ := hmsg rfl
      have hle := hclaim _ _ _ _ rfl
      rw [Option.getD_some, TopicOwnership.claimed]
      split
      · rename_i haccepts
        refine ⟨_, rfl, rfl, ?_, hsince.trans (le_max_right _ _)⟩
        rcases TopicOwnership.accepts_iff.mp haccepts with hlt | ⟨heq, -⟩
        · exact absurd (hepoch ▸ hlt) (not_lt.mpr hle)
        · exact heq.symm.trans hepoch
      · exact hsame
    · exact hsame
  | topicRelease topic topicId nodeId =>
    have ht : topic ≠ c.topic := fun ht => hrelease topicId nodeId (by rw [ht])
    rw [recordAfter, if_neg ht]
    exact hsame
  | topicHeartbeat topic topicId nodeId epoch timestamp =>
    dsimp only [recordAfter]
    split
    · rw [Option.map_some, TopicOwnership.heartbeat]
      split
      · exact ⟨_, rfl, howner, hepoch, hsince.trans (le_max_right _ _)⟩
      · exact hsame
    · exact hsame
  | _ => exact hmsg.elim

theorem onlyBy_of_spares {n : NodeId} {t : String} (h : Spares t op) : Network.OnlyBy n t op := by
  cases op with
  | claim m topic => exact fun ht => absurd ht h
  | release m topic => exact fun ht => absurd ht h
  | _ => trivial

theorem mem_receives {i : ℕ} {m : NodeId} :
    m ∈ s.receives deriveTopicId c (.deliver i) ↔
      s.net.inFlight[i]? = some (m, c.message deriveTopicId) := by
  simp only [receives, List.mem_map, Option.mem_toList, Option.filter_eq_some_iff,
    decide_eq_true_eq, Prod.exists, exists_and_right, exists_eq_right]

theorem record_deliver {net : Network} {i : ℕ} {m : NodeId} {msg : GossipMessage} {t : String}
    (hi : net.inFlight[i]? = some (m, msg)) (k : NodeId) :
    ((net.step deriveTopicId (.deliver i)).nodes k).record t =
      if k = m then recordAfter deriveTopicId msg net.clock t ((net.nodes m).record t)
      else (net.nodes k).record t := by
  have hlocal := Network.localStep_deliver.mpr ⟨msg, hi, rfl⟩
  by_cases hk : k = m
  · subst hk
    rw [Network.nodes_self hlocal, Monitored.record_step, if_pos rfl]
  · rw [Network.nodes_ne hlocal hk, if_neg hk]

theorem record_cleanup {net : Network} {n : NodeId} {secs : UInt64} {t : String} (k : NodeId) :
    ((net.step deriveTopicId (.cleanup n secs)).nodes k).record t =
      if k = n then ((net.nodes n).record t).filter fun ownership =>
        !ownership.isTimedOut (secs * 2 * nanosPerSec) net.clock
      else (net.nodes k).record t := by
  by_cases hk : k = n
  · subst hk
    rw [Network.nodes_self rfl, Monitored.record_step, if_pos rfl]
  · rw [Network.nodes_ne rfl hk, if_neg hk]

theorem Steady.recorded_step (hs : s.Steady deriveTopicId c) (hop : Spares c.topic op)
    (hkept : s.Kept deriveTopicId c op) :
    ∀ m ∈ (s.step deriveTopicId c op).holders,
      c.Recorded (((s.step deriveTopicId c op).net.nodes m).record c.topic) := by
  intro k hk
  rcases List.mem_append.mp hk with hold | hnew
  · cases op with
    | deliver i =>
      cases hi : s.net.inFlight[i]? with
      | none =>
        dsimp only [step]
        rw [Network.nodes_of_no_message hi]
        exact hs.recorded k hold
      | some p =>
        obtain ⟨m, msg⟩ := p
        dsimp only [step]
        rw [record_deliver hi]
        split
        · rename_i hkm
          subst hkm
          obtain ⟨hclaim, hrelease⟩ := (hkept k msg hi).2 hold
          exact recorded_after (hs.recorded k hold)
            (hs.uncontested.messages _ (List.mem_of_getElem? hi)) hclaim hrelease
        · exact hs.recorded k hold
    | cleanup n secs =>
      dsimp only [step]
      rw [record_cleanup]
      split
      · rename_i hkn
        subst hkn
        obtain ⟨ownership, hrec, h⟩ := hs.recorded k hold
        have hfresh := hkept hold ownership hrec
        refine ⟨ownership, Option.filter_eq_some_iff.mpr ⟨hrec, ?_⟩, h⟩
        simpa [TopicOwnership.isTimedOut] using hfresh
      · exact hs.recorded k hold
    | _ =>
      dsimp only [step]
      rw [record_step_of_quiet hs.uncontested hop (by simp) (by simp)]
      exact hs.recorded k hold
  · cases op with
    | deliver i =>
      have hi := mem_receives.mp hnew
      dsimp only [step]
      rw [record_deliver hi, if_pos rfl]
      exact recorded_message hs.first hs.since ((hkept k _ hi).1 rfl)
    | _ => cases hnew

/-- The record of the owner is not refreshed. -/
theorem Steady.own_step (hs : s.Steady deriveTopicId c) (hop : Spares c.topic op)
    {ownership : TopicOwnership}
    (h : ((s.net.step deriveTopicId op).nodes c.owner).record c.topic = some ownership) :
    ownership.lastHeartbeat = c.claimedAt := by
  cases op with
  | deliver i =>
    cases hi : s.net.inFlight[i]? with
    | none =>
      rw [Network.nodes_of_no_message hi] at h
      exact hs.own ownership h
    | some p =>
      obtain ⟨m, msg⟩ := p
      rw [record_deliver hi] at h
      split at h
      · rename_i hm
        subst hm
        rw [(hs.uncontested.messages _ (List.mem_of_getElem? hi)).recordAfter_self] at h
        exact hs.own ownership h
      · exact hs.own ownership h
  | cleanup n secs =>
    rw [record_cleanup] at h
    split at h
    · rename_i hn
      subst hn
      exact hs.own ownership (Option.filter_eq_some_iff.mp h).1
    · exact hs.own ownership h
  | _ =>
    rw [record_step_of_quiet hs.uncontested hop (by simp) (by simp)] at h
    exact hs.own ownership h

theorem Steady.step (hs : s.Steady deriveTopicId c) (hop : Spares c.topic op)
    (hkept : s.Kept deriveTopicId c op) : (s.step deriveTopicId c op).Steady deriveTopicId c where
  uncontested := hs.uncontested.step (onlyBy_of_spares hop)
  timeouts m := by
    rw [timeoutNanos_step, ← hs.timeouts m]
    exact congrArg (· * nanosPerSec) (Network.ownerTimeoutSecs_nodes_step m)
  first := hs.first
  since := hs.since.trans Network.clock_le_step
  recorded := hs.recorded_step hop hkept
  owner := List.mem_append_left _ hs.owner
  own _ h := hs.own_step hop h

theorem time_step (htime : U64.saturatingSub s.net.clock c.claimedAt ≤ s.timeoutNanos c)
    (hkept : s.Kept deriveTopicId c op) :
    U64.saturatingSub (s.step deriveTopicId c op).net.clock c.claimedAt ≤
      (s.step deriveTopicId c op).timeoutNanos c := by
  rw [timeoutNanos_step]
  cases op with
  | tick now => exact hkept
  | _ => exact htime

theorem Held.record {m : NodeId} (h : s.Held c) (hm : m ∈ s.holders) :
    ∃ ownership, (s.net.nodes m).record c.topic = some ownership ∧
      ownership.ownerNodeId = c.owner ∧ ownership.epoch = c.epoch ∧
      ¬ ownership.isTimedOut ((s.net.nodes m).node.ownerTimeoutSecs * nanosPerSec)
        s.net.clock = true := by
  obtain ⟨howner, hepoch⟩ := h m hm
  obtain ⟨ownership, hrec, hfresh, howner⟩ :=
    GossipCoordinator.getTopicOwner_eq_some_iff.mp howner
  rw [show (s.net.nodes m).record c.topic = some ownership from hrec] at hepoch
  exact ⟨ownership, hrec, howner, Option.some_inj.mp hepoch, hfresh⟩

theorem Steady.kept_tick (hs : s.Steady deriveTopicId c) {now : UInt64}
    (h : (s.step deriveTopicId c (.tick now)).Held c) : s.Kept deriveTopicId c (.tick now) := by
  obtain ⟨ownership, hrec, -, -, hfresh⟩ := h.record (List.mem_append_left _ hs.owner)
  rw [TopicOwnership.isTimedOut_iff, not_lt, hs.own ownership hrec] at hfresh
  exact hfresh

theorem kept_cleanup {n : NodeId} {secs : UInt64}
    (h : (s.step deriveTopicId c (.cleanup n secs)).Held c) :
    s.Kept deriveTopicId c (.cleanup n secs) := by
  intro hn ownership hrec
  obtain ⟨ownership', hrec', -⟩ := h.record (List.mem_append_left _ hn)
  dsimp only [Watched.step] at hrec'
  rw [record_cleanup, if_pos rfl, hrec] at hrec'
  obtain ⟨heq, hfresh⟩ := Option.filter_eq_some_iff.mp hrec'
  cases heq
  simpa [TopicOwnership.isTimedOut] using hfresh

theorem Steady.kept_deliver (hs : s.Steady deriveTopicId c) {i : ℕ}
    (h : (s.step deriveTopicId c (.deliver i)).Held c) :
    s.Kept deriveTopicId c (.deliver i) := by
  intro m msg hi
  have hafter : m ∈ (s.step deriveTopicId c (.deliver i)).holders →
      ∃ ownership, recordAfter deriveTopicId msg s.net.clock c.topic
        ((s.net.nodes m).record c.topic) = some ownership ∧
        ownership.ownerNodeId = c.owner ∧ ownership.epoch = c.epoch := by
    intro hm
    obtain ⟨ownership, hrec, howner, hepoch, -⟩ := h.record hm
    dsimp only [Watched.step] at hrec
    rw [record_deliver hi, if_pos rfl] at hrec
    exact ⟨ownership, hrec, howner, hepoch⟩
  constructor
  · rintro rfl ownership hrec
    obtain ⟨ownership', hrec', howner, hepoch⟩ :=
      hafter (List.mem_append_right _ (mem_receives.mpr hi))
    have hin : InTime c.claimedAt s.net.clock := hs.since.trans (U64.le_saturatingAdd _ _)
    rw [← TopicOwnership.accepts_iff]
    by_contra hnot
    rw [hrec, Tenure.message, recordAfter, if_pos ⟨rfl, hin, rfl⟩, Option.getD_some,
      TopicOwnership.claimed, if_neg hnot] at hrec'
    cases hrec'
    exact hnot (TopicOwnership.accepts_iff.mpr (.inr ⟨hepoch, howner.ge⟩))
  · intro hm
    obtain ⟨ownership', hrec', howner', hepoch'⟩ := hafter (List.mem_append_left _ hm)
    obtain ⟨ownership, hrec, howner, hepoch, -⟩ := hs.recorded m hm
    have hmsg := hs.uncontested.messages _ (List.mem_of_getElem? hi)
    rw [hrec] at hrec'
    constructor
    · rintro topicId nodeId epoch timestamp rfl
      obtain ⟨-, -, hid, htime⟩ := hmsg rfl
      have hin : InTime timestamp s.net.clock := htime.trans (U64.le_saturatingAdd _ _)
      by_contra hlt
      have haccepts : ownership.accepts nodeId epoch = true :=
        TopicOwnership.accepts_iff.mpr (.inl (hepoch.trans_lt (not_le.mp hlt)))
      rw [recordAfter, if_pos ⟨rfl, hin, hid⟩, Option.getD_some, TopicOwnership.claimed,
        if_pos haccepts] at hrec'
      cases hrec'
      exact hlt hepoch'.le
    · rintro topicId nodeId rfl
      obtain ⟨-, rfl⟩ := hmsg rfl
      rw [recordAfter, if_pos rfl] at hrec'
      obtain ⟨-, hne⟩ := Option.filter_eq_some_iff.mp hrec'
      exact of_decide_eq_true hne howner'

theorem Steady.held_step_iff (hs : s.Steady deriveTopicId c) (h : s.Held c)
    (hop : Spares c.topic op) :
    (s.step deriveTopicId c op).Held c ↔ s.Kept deriveTopicId c op := by
  constructor
  · intro hstep
    cases op with
    | tick now => exact hs.kept_tick hstep
    | cleanup n secs => exact kept_cleanup hstep
    | deliver i => exact hs.kept_deliver hstep
    | _ => trivial
  · intro hkept
    exact (hs.step hop hkept).held (time_step (hs.time h) hkept)

theorem steady_start {net : Network} {n : NodeId} {t : String} {secs : UInt64}
    (hnet : net.Uncontested deriveTopicId n t)
    (hsecs : ∀ m, (net.nodes m).node.ownerTimeoutSecs = secs) :
    (start deriveTopicId (.of net n t) net).Steady deriveTopicId (.of net n t) := by
  have hself : (net.step deriveTopicId (.claim n t)).nodes n =
      (net.nodes n).step deriveTopicId (.claim t net.clock (.ok ())) := Network.nodes_self rfl
  have hrecord : ((net.step deriveTopicId (.claim n t)).nodes n).record t =
      some ((net.nodes n).node.claimedRecord t net.clock) := by
    rw [hself, Monitored.record_step]
    exact if_pos rfl
  have howner : ((net.nodes n).node.claimedRecord t net.clock).ownerNodeId = n := by
    rw [GossipCoordinator.claimedRecord_eq]
    exact hnet.ids n
  have hlast : ((net.nodes n).node.claimedRecord t net.clock).lastHeartbeat = net.clock := by
    rw [GossipCoordinator.claimedRecord_eq]
  have honly : Network.OnlyBy n t (.claim n t) := fun _ => rfl
  constructor
  · exact hnet.step honly
  · intro m
    dsimp only [start, timeoutNanos, Tenure.of]
    rw [Network.ownerTimeoutSecs_nodes_step, Network.ownerTimeoutSecs_nodes_step, hsecs, hsecs]
  · dsimp only [Tenure.of]
    rw [GossipCoordinator.claimedRecord_eq]
    exact U64.one_le_saturatingAdd_one _
  · exact le_rfl
  · intro m hm
    obtain rfl : m = n := List.mem_singleton.mp hm
    exact ⟨_, hrecord, howner, rfl, hlast.ge⟩
  · exact List.mem_singleton_self n
  · intro ownership h
    cases hrecord.symm.trans h
    exact hlast

/-- A node claims a topic that no other node claims. All nodes that have received the claim
name it with the epoch of the claim for exactly as long as every step keeps the claim. -/
theorem owner_kept_iff (deriveTopicId : String → TopicId) (members : List NodeId)
    (joined : NodeId → List TopicId) (ownerTimeoutSecs now : UInt64) (n : NodeId) (t : String)
    (before after : List NetworkOp) (hbefore : ∀ op ∈ before, Network.OnlyBy n t op)
    (hafter : ∀ op ∈ after, Spares t op) :
    let net := Runs.exec (Network.step deriveTopicId)
      (.start members joined (fun _ => ownerTimeoutSecs) now) before
    let c := Tenure.of net n t
    Runs.Always (step deriveTopicId c) (Held c) (start deriveTopicId c net) after ↔
      Runs.Along (step deriveTopicId c) (Kept deriveTopicId c) (start deriveTopicId c net)
        after := by
  intro net c
  have hnet : net.Uncontested deriveTopicId n t :=
    Runs.Along.exec_inv (fun _ _ hs hop => hs.step hop) (Network.uncontested_start _ _ _ _)
      (Runs.along_of_forall fun op hop _ => hbefore op hop)
  have hsecs : ∀ m, (net.nodes m).node.ownerTimeoutSecs = ownerTimeoutSecs :=
    Runs.exec_inv
      (I := fun net : Network => ∀ m, (net.nodes m).node.ownerTimeoutSecs = ownerTimeoutSecs)
      (fun _ _ h m => (Network.ownerTimeoutSecs_nodes_step m).trans (h m)) fun _ => rfl
  have hsteady := steady_start hnet hsecs
  have htime : U64.saturatingSub net.clock net.clock ≤
      (start deriveTopicId c net).timeoutNanos c := by
    rw [U64.saturatingSub_self]
    exact UInt64.zero_le
  exact Runs.always_iff_along_of_inv (J := Steady deriveTopicId c)
    (fun _ _ hs _ hop hkept => hs.step hop hkept) (fun _ _ hs h hop => hs.held_step_iff h hop)
    hsteady (hsteady.held htime) (Runs.along_of_forall fun op hop _ => hafter op hop)

theorem owner_kept_of_one_heartbeat :
    let net := Network.start [1, 2] (fun _ => [[]]) (fun _ => 30) 0
    let c := Tenure.of net 1 "t"
    Runs.Always (step (fun _ => []) c) (Held c) (start (fun _ => []) c net)
      [.deliver 0, .tick (20 * nanosPerSec), .heartbeat 1, .cleanup 1 30, .deliver 0,
        .tick (30 * nanosPerSec)] := by
  refine (owner_kept_iff (fun _ => []) [1, 2] (fun _ => [[]]) 30 0 1 "t" [] _ (by simp)
    (by simp [Spares])).mpr ⟨?_, ?_, trivial, ?_, ?_, ?_, trivial⟩
  · rintro m msg ⟨⟩
    refine ⟨?_, fun hm => absurd hm (by decide +kernel)⟩
    rintro - ownership ⟨⟩
  · change U64.saturatingSub _ _ ≤ _
    decide +kernel
  · rintro - ownership ⟨⟩
    decide +kernel
  · rintro m msg ⟨⟩
    exact ⟨nofun, fun _ => ⟨nofun, nofun⟩⟩
  · change U64.saturatingSub _ _ ≤ _
    decide +kernel

/-- The owner sends a heartbeat every five seconds and each arrives at once. After thirty
seconds it no longer names itself, and after its own record has been evicted its heartbeats
carry the first epoch, so that the other node forgets it too. -/
theorem live_owner_forgotten :
    let net := Network.start [1, 2] (fun _ => [[]]) (fun _ => 30) 0
    let c := Tenure.of net 1 "t"
    let beats := fun count => .deliver 0 :: (List.range count).flatMap fun k =>
      [.tick (5 * (k.toUInt64 + 1) * nanosPerSec), .heartbeat 1, .deliver 0, .cleanup 1 30]
    let run := fun count =>
      let s := Runs.exec (step (fun _ => []) c) (start (fun _ => []) c net) (beats count)
      (s.holders, s.holders.map fun n =>
        (s.net.nodes n).node.getTopicOwner "t" s.net.clock)
    Runs.Along (step (fun _ => []) c) (fun s op => s.Timely c op) (start (fun _ => []) c net)
        (beats 20) ∧
      run 6 = ([1, 2], [some 1, some 1]) ∧ run 7 = ([1, 2], [none, some 1]) ∧
      run 20 = ([1, 2], [none, none]) := by
  decide +kernel

end Watched

end DumbDistributedLog.Gossip
