import DumbDistributedLog.Gossip.Network

/-! # Owners of one topic

A node owns a topic from its own claim to its own release, whatever the others claim. Two
owners are therefore avoided exactly by claiming a topic that no other node owns, and an owner
is recorded as such by itself as long as it accepts no claim of another node.
-/

namespace DumbDistributedLog.Gossip.Network

/-- Background tasks that delete or take over records do not run. -/
def IsCall : NetworkOp → Prop
  | .claim _ _ | .release _ _ | .heartbeat _ | .deliver _ | .tick _ => True
  | .cleanup _ _ | .monitorRead _ _ _ | .monitorWrite _ => False

/-- At most one node owns the topic, and the owner is recorded as such by itself. -/
structure Agrees (s : Network) (t : String) : Prop where
  single : ∀ n m, (s.nodes n).Owns t → (s.nodes m).Owns t → n = m
  self : ∀ n, (s.nodes n).Owns t →
    ((s.nodes n).record t).map TopicOwnership.ownerNodeId = some n

/-- Once no message is in flight, at most one node answers that it owns a topic, and this
node names itself as the owner unless its record has timed out. -/
def Settled (s : Network) : Prop :=
  s.inFlight = [] → ∀ t,
    (∀ n m, (s.nodes n).node.ownsTopic t = true → (s.nodes m).node.ownsTopic t = true → n = m) ∧
    ∀ n, (s.nodes n).node.ownsTopic t = true →
      (∀ ownership, (s.nodes n).record t = some ownership →
        ¬ ownership.isTimedOut ((s.nodes n).node.ownerTimeoutSecs * nanosPerSec) s.clock) →
      (s.nodes n).node.getTopicOwner t s.clock = some n

/-- A topic is claimed when no other node owns it, and a claim that reaches an owner is below
its record. -/
def Orderly (s : Network) : NetworkOp → Prop
  | .claim n topic => ∀ m, (s.nodes m).Owns topic → m = n
  | .deliver i => ∀ m topic topicId nodeId epoch timestamp,
    s.inFlight[i]? = some (m, .topicClaim topic topicId nodeId epoch timestamp) →
      (s.nodes m).Owns topic → ∀ ownership, (s.nodes m).record topic = some ownership →
        epoch < ownership.epoch ∨ epoch = ownership.epoch ∧ ownership.ownerNodeId < nodeId
  | _ => True

/-- A message is on its way to another node than its sender. -/
def Honest (deriveTopicId : String → TopicId) (clock : UInt64) :
    NodeId × GossipMessage → Prop
  | (m, .topicClaim topic topicId nodeId _ timestamp) =>
    nodeId ≠ m ∧ topicId = deriveTopicId topic ∧ timestamp ≤ clock
  | (m, .topicRelease _ _ nodeId) => nodeId ≠ m
  | (_, .topicHeartbeat _ _ _ _ _) => True
  | _ => False

structure Sound (deriveTopicId : String → TopicId) (s : Network) : Prop where
  ids : ∀ n, (s.nodes n).node.nodeId = n
  honest : ∀ p ∈ s.inFlight, Honest deriveTopicId s.clock p

variable {deriveTopicId : String → TopicId} {s : Network} {op : NetworkOp} {t : String}
  {n m : NodeId} {msg : GossipMessage}

theorem Honest.mono {clock clock' : UInt64} {p : NodeId × GossipMessage} (hle : clock ≤ clock')
    (h : Honest deriveTopicId clock p) : Honest deriveTopicId clock' p := by
  obtain ⟨m, msg⟩ := p
  cases msg with
  | topicClaim topic topicId nodeId epoch timestamp => exact ⟨h.1, h.2.1, h.2.2.trans hle⟩
  | _ => exact h

theorem Sound.step (hs : s.Sound deriveTopicId) (hop : IsCall op) :
    (s.step deriveTopicId op).Sound deriveTopicId where
  ids m := (nodeId_nodes_step m).trans (hs.ids m)
  honest p hp := by
    rcases mem_inFlight_step hp with hold | ⟨n, hsent, hne⟩
    · exact (hs.honest p hold).mono clock_le_step
    · obtain ⟨m, msg⟩ := p
      rcases broadcasts_cases hsent with ⟨topic, rfl, rfl⟩ | ⟨topic, rfl, rfl⟩ |
        ⟨topic, epoch, rfl, -, rfl⟩ | ⟨topic, epoch, rfl, -⟩
      · rw [hs.ids]
        exact ⟨hne.symm, rfl, le_rfl⟩
      · rw [hs.ids]
        exact hne.symm
      · trivial
      · exact hop.elim

theorem owner_claimed {ownership : TopicOwnership} {nodeId : NodeId} {epoch timestamp : UInt64}
    (hne : nodeId ≠ ownership.ownerNodeId) :
    (ownership.claimed nodeId epoch timestamp).ownerNodeId = ownership.ownerNodeId ↔
      epoch < ownership.epoch ∨ epoch = ownership.epoch ∧ ownership.ownerNodeId < nodeId := by
  rw [← TopicOwnership.not_accepts_iff]
  unfold TopicOwnership.claimed
  split
  · rename_i h
    exact ⟨fun heq => absurd heq hne, fun hnot => absurd h hnot⟩
  · rename_i h
    exact ⟨fun _ => h, fun _ => rfl⟩

theorem owner_recordAfter {ownership : TopicOwnership} (howner : ownership.ownerNodeId = m)
    (hmsg : Honest deriveTopicId s.clock (m, msg)) :
    (recordAfter deriveTopicId msg s.clock t (some ownership)).map
        TopicOwnership.ownerNodeId = some m ↔
      ∀ topicId nodeId epoch timestamp, msg = .topicClaim t topicId nodeId epoch timestamp →
        epoch < ownership.epoch ∨ epoch = ownership.epoch ∧ ownership.ownerNodeId < nodeId := by
  subst howner
  cases msg with
  | topicClaim topic topicId nodeId epoch timestamp =>
    obtain ⟨hne, rfl, htime⟩ := hmsg
    have hin : InTime timestamp s.clock := htime.trans (U64.le_saturatingAdd _ _)
    by_cases ht : topic = t
    · subst ht
      rw [recordAfter, if_pos ⟨rfl, hin, rfl⟩, Option.getD_some, Option.map_some,
        Option.some_inj, owner_claimed hne]
      constructor
      · rintro h _ _ _ _ ⟨⟩
        exact h
      · intro h
        exact h _ _ _ _ rfl
    · rw [recordAfter, if_neg fun h => ht h.1]
      constructor
      · rintro - _ _ _ _ ⟨⟩
        exact absurd rfl ht
      · intro _
        rfl
  | topicRelease topic topicId nodeId =>
    have hne : ownership.ownerNodeId ≠ nodeId := Ne.symm hmsg
    simp [recordAfter, Option.filter, hne]
  | topicHeartbeat topic topicId nodeId epoch timestamp =>
    have hkeep : (ownership.heartbeat nodeId epoch timestamp).ownerNodeId =
        ownership.ownerNodeId := by
      unfold TopicOwnership.heartbeat
      split <;> rfl
    dsimp only [recordAfter]
    split <;> simp [hkeep]
  | _ => exact hmsg.elim

theorem agrees_of_nodes_eq {s' : Network} (h : s'.nodes = s.nodes) (ha : s.Agrees t) :
    s'.Agrees t := by
  constructor
  · rw [h]
    exact ha.single
  · rw [h]
    exact ha.self

theorem agrees_claim (hs : s.Sound deriveTopicId) (ha : ∀ t, s.Agrees t) {topic : String} :
    (∀ t, (s.step deriveTopicId (.claim n topic)).Agrees t) ↔
      ∀ m, (s.nodes m).Owns topic → m = n := by
  have hself : (s.step deriveTopicId (.claim n topic)).nodes n =
      (s.nodes n).step deriveTopicId (.claim topic s.clock (.ok ())) := nodes_self rfl
  constructor
  · intro h m hm
    by_contra hne
    have hn : ((s.step deriveTopicId (.claim n topic)).nodes n).Owns topic := by
      rw [hself, Monitored.owns_step]
      exact .inl rfl
    refine hne ((h topic).single m n ?_ hn)
    rw [nodes_ne rfl hne]
    exact hm
  · intro h t
    have howns : ∀ k, ((s.step deriveTopicId (.claim n topic)).nodes k).Owns t →
        (topic = t ∧ k = n) ∨ (s.nodes k).Owns t := by
      intro k hk
      by_cases hkn : k = n
      · subst hkn
        rw [hself, Monitored.owns_step] at hk
        exact hk.imp_left fun ht => ⟨ht, rfl⟩
      · rw [nodes_ne rfl hkn] at hk
        exact .inr hk
    constructor
    · intro k l hk hl
      rcases howns k hk with ⟨ht, hkn⟩ | hk'
      · rcases howns l hl with ⟨-, hln⟩ | hl'
        · rw [hkn, hln]
        · rw [hkn, h l (ht ▸ hl')]
      · rcases howns l hl with ⟨ht, hln⟩ | hl'
        · rw [hln, h k (ht ▸ hk')]
        · exact (ha t).single k l hk' hl'
    · intro k hk
      by_cases hkn : k = n
      · subst hkn
        rw [hself, Monitored.record_step]
        dsimp only
        split
        · rw [GossipCoordinator.claimedRecord_eq, Option.map_some, hs.ids]
        · rename_i ht
          exact (ha t).self k ((howns k hk).resolve_left fun h => ht h.1)
      · rw [nodes_ne rfl hkn] at hk ⊢
        exact (ha t).self k hk

theorem agrees_release (ha : s.Agrees t) {topic : String} :
    (s.step deriveTopicId (.release n topic)).Agrees t := by
  have hself : (s.step deriveTopicId (.release n topic)).nodes n =
      (s.nodes n).step deriveTopicId (.release topic (.ok ())) := nodes_self rfl
  have howns : ∀ k, ((s.step deriveTopicId (.release n topic)).nodes k).Owns t →
      (s.nodes k).Owns t ∧ (k = n → t ≠ topic) := by
    intro k hk
    by_cases hkn : k = n
    · subst hkn
      rw [hself, Monitored.owns_step] at hk
      exact ⟨hk.2, fun _ => hk.1⟩
    · rw [nodes_ne rfl hkn] at hk
      exact ⟨hk, fun h => absurd h hkn⟩
  constructor
  · intro k l hk hl
    exact ha.single k l (howns k hk).1 (howns l hl).1
  · intro k hk
    obtain ⟨hold, hne⟩ := howns k hk
    by_cases hkn : k = n
    · subst hkn
      rw [hself, Monitored.record_step]
      dsimp only
      rw [if_neg (hne rfl).symm]
      exact ha.self k hold
    · rw [nodes_ne rfl hkn]
      exact ha.self k hold

theorem agrees_deliver (hs : s.Sound deriveTopicId) (ha : ∀ t, s.Agrees t) {i : ℕ} :
    (∀ t, (s.step deriveTopicId (.deliver i)).Agrees t) ↔ s.Orderly (.deliver i) := by
  cases hi : s.inFlight[i]? with
  | none =>
    constructor
    · intro _ m topic topicId nodeId epoch timestamp h
      cases hi.symm.trans h
    · intro _ t
      exact agrees_of_nodes_eq (nodes_of_no_message hi) (ha t)
  | some p =>
    obtain ⟨m, msg⟩ := p
    have hlocal := localStep_deliver.mpr ⟨msg, hi, rfl⟩
    have hmsg := hs.honest _ (List.mem_of_getElem? hi)
    have howns : ∀ k t, ((s.step deriveTopicId (.deliver i)).nodes k).Owns t ↔
        (s.nodes k).Owns t := by
      intro k t
      by_cases hkm : k = m
      · subst hkm
        rw [nodes_self hlocal, Monitored.owns_step]
      · rw [nodes_ne hlocal hkm]
    have hrecord : ∀ t, (s.nodes m).Owns t →
        ((((s.step deriveTopicId (.deliver i)).nodes m).record t).map
            TopicOwnership.ownerNodeId = some m ↔
          ∀ topicId nodeId epoch timestamp, msg = .topicClaim t topicId nodeId epoch timestamp →
            ∀ ownership, (s.nodes m).record t = some ownership → epoch < ownership.epoch ∨
              epoch = ownership.epoch ∧ ownership.ownerNodeId < nodeId) := by
      intro t ht
      obtain ⟨ownership, hrec, howner⟩ := Option.map_eq_some_iff.mp ((ha t).self m ht)
      rw [nodes_self hlocal, Monitored.record_step]
      dsimp only
      rw [hrec, owner_recordAfter howner hmsg]
      simp
    constructor
    · intro h k topic topicId nodeId epoch timestamp hk howner
      cases hi.symm.trans hk
      have hself := (h topic).self m ((howns m topic).mpr howner)
      exact (hrecord topic howner).mp hself topicId nodeId epoch timestamp rfl
    · intro h t
      constructor
      · intro k l hk hl
        exact (ha t).single k l ((howns k t).mp hk) ((howns l t).mp hl)
      · intro k hk
        rw [howns] at hk
        by_cases hkm : k = m
        · subst hkm
          refine (hrecord t hk).mpr fun topicId nodeId epoch timestamp heq => ?_
          exact h k t topicId nodeId epoch timestamp (heq ▸ hi) hk
        · rw [nodes_ne hlocal hkm]
          exact (ha t).self k hk

theorem agrees_step (hs : s.Sound deriveTopicId) (ha : ∀ t, s.Agrees t) (hop : IsCall op) :
    (∀ t, (s.step deriveTopicId op).Agrees t) ↔ s.Orderly op := by
  cases op with
  | claim n topic => exact agrees_claim hs ha
  | release n topic => exact ⟨fun _ => trivial, fun _ t => agrees_release (ha t)⟩
  | heartbeat n =>
    exact ⟨fun _ => trivial, fun _ t => agrees_of_nodes_eq (nodes_of_none rfl) (ha t)⟩
  | tick now =>
    exact ⟨fun _ => trivial, fun _ t => agrees_of_nodes_eq (nodes_of_none rfl) (ha t)⟩
  | deliver i => exact agrees_deliver hs ha
  | _ => exact hop.elim

theorem settled_of_agrees (h : ∀ t, s.Agrees t) : s.Settled := by
  intro _ t
  constructor
  · intro n m hn hm
    exact (h t).single n m (of_decide_eq_true hn) (of_decide_eq_true hm)
  · intro n hn htime
    obtain ⟨ownership, hrec, howner⟩ :=
      Option.map_eq_some_iff.mp ((h t).self n (of_decide_eq_true hn))
    change ((s.nodes n).record t).bind _ = _
    rw [hrec, Option.bind_some, if_neg (htime ownership hrec), howner]

theorem sound_start (members : List NodeId) (joined : NodeId → List TopicId)
    (ownerTimeoutSecs : NodeId → UInt64) (now : UInt64) :
    (start members joined ownerTimeoutSecs now).Sound deriveTopicId :=
  ⟨fun _ => rfl, by simp [start]⟩

theorem agrees_start (members : List NodeId) (joined : NodeId → List TopicId)
    (ownerTimeoutSecs : NodeId → UInt64) (now : UInt64) :
    (start members joined ownerTimeoutSecs now).Agrees t := by
  constructor <;> simp [start, Monitored.Owns, GossipCoordinator.new]

/-- Owners agree throughout exactly the runs that are orderly, and in these runs there is no
split brain whenever no message is in flight. -/
theorem owners_agree_iff (deriveTopicId : String → TopicId) (members : List NodeId)
    (joined : NodeId → List TopicId) (ownerTimeoutSecs : NodeId → UInt64) (now : UInt64)
    (ops : List NetworkOp) (hops : ∀ op ∈ ops, IsCall op) :
    let s := start members joined ownerTimeoutSecs now
    (Runs.Always (step deriveTopicId) (fun s => ∀ t, s.Agrees t) s ops ↔
      Runs.Along (step deriveTopicId) Orderly s ops) ∧
    (Runs.Along (step deriveTopicId) Orderly s ops →
      Runs.Always (step deriveTopicId) Settled s ops) := by
  intro s
  have hcalls : Runs.Along (step deriveTopicId) (fun _ op => IsCall op) s ops :=
    Runs.along_of_forall fun op hop _ => hops op hop
  have hiff : Runs.Always (step deriveTopicId) (fun s => ∀ t, s.Agrees t) s ops ↔
      Runs.Along (step deriveTopicId) Orderly s ops :=
    Runs.always_iff_along_of_inv (J := Sound deriveTopicId)
      (fun _ _ hs _ hop _ => hs.step hop) (fun _ _ hs ha hop => agrees_step hs ha hop)
      (sound_start members joined ownerTimeoutSecs now)
      (fun _ => agrees_start members joined ownerTimeoutSecs now) hcalls
  exact ⟨hiff, fun h pre hpre => settled_of_agrees (hiff.mpr h pre hpre)⟩

theorem owners_agree_of_handover :
    let s := start [1, 2] (fun _ => [[]]) (fun _ => 30) 0
    let ops := [.claim 1 "t", .deliver 0, .release 1 "t", .claim 2 "t", .deliver 0, .deliver 0]
    Runs.Always (step fun _ => []) Settled s ops ∧
      (Runs.exec (step fun _ => []) s ops).inFlight = [] ∧
      ((Runs.exec (step fun _ => []) s ops).nodes 2).Owns "t" := by
  intro s ops
  have h := (owners_agree_iff (fun _ => []) [1, 2] (fun _ => [[]]) (fun _ => 30) 0 ops
    (by simp [ops, IsCall])).2
  refine ⟨h ⟨?_, ?_, trivial, ?_, ?_, ?_, trivial⟩, by decide +kernel, by decide +kernel⟩
  · rintro m ⟨⟩
  · rintro m topic topicId nodeId epoch timestamp ⟨⟩ howns
    exact absurd howns (by decide +kernel)
  · intro m hm
    by_contra hne
    by_cases h1 : m = 1
    · subst h1
      exact absurd hm (by decide +kernel)
    · rw [nodes_ne rfl h1, nodes_ne rfl hne, nodes_ne rfl h1] at hm
      cases hm
  · rintro m topic topicId nodeId epoch timestamp ⟨⟩
  · rintro m topic topicId nodeId epoch timestamp ⟨⟩ howns
    exact absurd howns (by decide +kernel)

/-- Two nodes claim a topic at the same time, or one after the other has been heard of. Both
own it when all messages have been delivered, and only one of them names itself. -/
theorem claims_split_brain :
    let run := fun ops =>
      let s := Runs.exec (step fun _ => []) (start [1, 2] (fun _ => [[]]) (fun _ => 30) 0) ops
      (s.inFlight, [1, 2].map fun n =>
        ((s.nodes n).node.ownsTopic "t", (s.nodes n).node.getTopicOwner "t" s.clock))
    run [.claim 1 "t", .claim 2 "t", .deliver 0, .deliver 0] =
        ([], [(true, some 1), (true, some 1)]) ∧
      run [.claim 1 "t", .deliver 0, .claim 2 "t", .deliver 0] =
        ([], [(true, some 2), (true, some 2)]) := by
  decide +kernel

end DumbDistributedLog.Gossip.Network
