import DumbDistributedLog.Gossip.Network
import Mathlib.Algebra.Group.Nat.Defs

/-! # The horizon of a record

Whatever times the messages of other nodes carry, no record is refreshed to more than sixty
seconds ahead of the local clock. An owner that is no longer heard of is therefore forgotten
after these sixty seconds and the timeout.
-/

namespace DumbDistributedLog.Gossip

def GossipStep.reading : GossipStep → Option UInt64
  | .receive _ now | .claim _ now _ | .cleanup _ now | .monitorRead _ _ now
  | .monitorWrite now _ => some now
  | .release _ _ => none

section Horizon

variable {deriveTopicId : String → TopicId} {s : Monitored} {t : String}
  {ownership ownership' : TopicOwnership} {x now now' : UInt64}

theorem toNat_maxFutureNanos : maxFutureNanos.toNat = 60 * 10 ^ 9 := rfl

theorem inTime_iff : InTime x now ↔ x.toNat ≤ now.toNat + 60 * 10 ^ 9 := by
  have hmax : U64.maxValue.toNat = 2 ^ 64 - 1 := rfl
  have hx := x.toNat_lt
  rw [InTime, UInt64.le_iff_toNat_le, U64.toNat_saturatingAdd, toNat_maxFutureNanos]
  omega

theorem InTime.mono (hle : now ≤ now') (h : InTime x now) : InTime x now' := by
  rw [UInt64.le_iff_toNat_le] at hle
  rw [inTime_iff] at h ⊢
  omega

theorem inTime_self (now : UInt64) : InTime now now := U64.le_saturatingAdd now maxFutureNanos

namespace TopicOwnership

theorem lastHeartbeat_claimed {nodeId : NodeId} {epoch timestamp : UInt64}
    (htime : InTime timestamp now) (h : InTime ownership.lastHeartbeat now) :
    InTime (ownership.claimed nodeId epoch timestamp).lastHeartbeat now := by
  unfold claimed
  split
  · exact max_le htime h
  · exact h

theorem lastHeartbeat_heartbeat {nodeId : NodeId} {epoch timestamp : UInt64}
    (htime : InTime timestamp now) (h : InTime ownership.lastHeartbeat now) :
    InTime (ownership.heartbeat nodeId epoch timestamp).lastHeartbeat now := by
  unfold heartbeat
  split
  · exact max_le htime h
  · exact h

end TopicOwnership

def RecordInTime (record : Option TopicOwnership) (now : UInt64) : Prop :=
  ∀ ownership, record = some ownership → InTime ownership.lastHeartbeat now

theorem RecordInTime.mono {record : Option TopicOwnership} (hle : now ≤ now')
    (h : RecordInTime record now) : RecordInTime record now' :=
  fun ownership hrec => (h ownership hrec).mono hle

theorem recordInTime_none : RecordInTime none now := by
  rintro ownership ⟨⟩

theorem recordInTime_some (h : InTime ownership.lastHeartbeat now) :
    RecordInTime (some ownership) now := by
  rintro _ ⟨⟩
  exact h

theorem RecordInTime.filter {record : Option TopicOwnership} (h : RecordInTime record now)
    (p : TopicOwnership → Bool) : RecordInTime (record.filter p) now := by
  intro ownership hrec
  exact h ownership (Option.filter_eq_some_iff.mp hrec).1

theorem RecordInTime.recordAfter {record : Option TopicOwnership} (hle : now ≤ now')
    (h : RecordInTime record now') (msg : GossipMessage) :
    RecordInTime (recordAfter deriveTopicId msg now t record) now' := by
  cases msg with
  | topicClaim topic topicId nodeId epoch timestamp =>
    dsimp only [Gossip.recordAfter]
    split
    · rename_i hcond
      refine recordInTime_some (TopicOwnership.lastHeartbeat_claimed (hcond.2.1.mono hle) ?_)
      cases record with
      | none => exact (inTime_self now).mono hle
      | some ownership => exact h ownership rfl
    · exact h
  | topicRelease topic topicId nodeId =>
    dsimp only [Gossip.recordAfter]
    split
    · exact h.filter _
    · exact h
  | topicHeartbeat topic topicId nodeId epoch timestamp =>
    dsimp only [Gossip.recordAfter]
    split
    · rename_i hcond
      intro ownership' hrec
      obtain ⟨ownership, hold, rfl⟩ := Option.map_eq_some_iff.mp hrec
      exact TopicOwnership.lastHeartbeat_heartbeat (hcond.2.mono hle) (h ownership hold)
    · exact h
  | nodeAnnounce nodeId bindAddr announcedTopics =>
    dsimp only [Gossip.recordAfter]
    split
    · exact recordInTime_some ((inTime_self now).mono hle)
    · exact h
  | nodeLeave nodeId => exact h.filter _
  | topicResponse topic owner =>
    cases owner with
    | none => exact h
    | some owner =>
      dsimp only [Gossip.recordAfter]
      split
      · exact recordInTime_some ((inTime_self now).mono hle)
      · exact h
  | _ => exact h

theorem RecordInTime.step {a : GossipStep} (hread : ∀ now ∈ a.reading, now ≤ now')
    (h : RecordInTime (s.record t) now') :
    RecordInTime ((s.step deriveTopicId a).record t) now' := by
  rw [Monitored.record_step]
  cases a with
  | receive msg now => exact h.recordAfter (hread now rfl) msg
  | claim topic timestamp outcome =>
    dsimp only
    split
    · rw [GossipCoordinator.claimedRecord_eq]
      exact recordInTime_some ((inTime_self timestamp).mono (hread timestamp rfl))
    · exact h
  | release topic outcome =>
    dsimp only
    split
    · exact recordInTime_none
    · exact h
  | cleanup ownerTimeoutSecs now => exact h.filter _
  | monitorRead ownerTimeoutSecs topic now => exact h
  | monitorWrite now outcome =>
    intro ownership hrec
    rcases Option.or_eq_some_iff.mp hrec with hnew | ⟨-, hold⟩
    · obtain ⟨newEpoch, -, rfl⟩ := Option.map_eq_some_iff.mp hnew
      exact (inTime_self now).mono (hread now rfl)
    · exact h ownership hold

theorem getTopicOwner_eq_none {c : GossipCoordinator}
    (h : RecordInTime c.topicOwners[t]? now)
    (hlate : now.toNat + 60 * 10 ^ 9 + c.ownerTimeoutSecs.toNat * 10 ^ 9 < now'.toNat) :
    c.getTopicOwner t now' = none := by
  rw [Option.eq_none_iff_forall_not_mem]
  intro owner howner
  obtain ⟨ownership, hrec, hfresh, -⟩ := GossipCoordinator.getTopicOwner_eq_some_iff.mp howner
  refine hfresh (TopicOwnership.isTimedOut_iff.mpr ?_)
  have hbeat := inTime_iff.mp (h ownership hrec)
  have hnow := now'.toNat_lt
  -- The timeout in nanoseconds does not wrap, since a later time is still a word.
  have htimeout : (c.ownerTimeoutSecs * nanosPerSec).toNat =
      c.ownerTimeoutSecs.toNat * 10 ^ 9 := by
    rw [UInt64.toNat_mul, show nanosPerSec.toNat = 10 ^ 9 from rfl, Nat.mod_eq_of_lt (by omega)]
  rw [UInt64.lt_iff_toNat_lt, U64.toNat_saturatingSub, htimeout]
  omega

end Horizon

structure Clocked where
  state : Monitored
  clock : UInt64

namespace Clocked

def new (nodeId : NodeId) (topicSenders : List TopicId) (ownerTimeoutSecs clock : UInt64) :
    Clocked :=
  ⟨⟨{ GossipCoordinator.new nodeId topicSenders with ownerTimeoutSecs }, none⟩, clock⟩

section Steps

variable (deriveTopicId : String → TopicId) (s : Clocked)

/-- A step, and the time at which it ends. -/
def step (a : GossipStep × UInt64) : Clocked := ⟨s.state.step deriveTopicId a.1, a.2⟩

/-- The clock does not go back, and a step works with a time that has been read from it. -/
def OnTime (a : GossipStep × UInt64) : Prop :=
  s.clock ≤ a.2 ∧ ∀ now ∈ a.1.reading, now ≤ a.2

/-- The step neither changes nor creates the record of the topic. -/
def Leaves (t : String) (a : GossipStep × UInt64) : Prop :=
  ∀ ownership, (s.step deriveTopicId a).state.record t = some ownership →
    s.state.record t = some ownership

/-- No heartbeat lies more than sixty seconds ahead of the clock. -/
def Within : Prop :=
  ∀ t ownership, s.state.record t = some ownership →
    ownership.lastHeartbeat.toNat ≤ s.clock.toNat + 60 * 10 ^ 9

end Steps

variable {deriveTopicId : String → TopicId} {s : Clocked} {t : String}

theorem within_iff : s.Within ↔ ∀ t, RecordInTime (s.state.record t) s.clock := by
  simp only [Within, RecordInTime, inTime_iff]

theorem within_new (nodeId : NodeId) (topicSenders : List TopicId)
    (ownerTimeoutSecs clock : UInt64) :
    (new nodeId topicSenders ownerTimeoutSecs clock).Within := by
  intro t ownership hrec
  simp [new, Monitored.record, GossipCoordinator.new] at hrec

theorem Within.step {a : GossipStep × UInt64} (hs : s.Within) (ha : s.OnTime a) :
    (s.step deriveTopicId a).Within := by
  rw [within_iff] at hs ⊢
  intro t
  exact RecordInTime.step ha.2 ((hs t).mono ha.1)

theorem ownerTimeoutSecs_exec (steps : List (GossipStep × UInt64)) :
    (Runs.exec (step deriveTopicId) s steps).state.node.ownerTimeoutSecs =
      s.state.node.ownerTimeoutSecs :=
  Runs.exec_inv (I := fun r : Clocked =>
      r.state.node.ownerTimeoutSecs = s.state.node.ownerTimeoutSecs)
    (fun _ _ h => Monitored.ownerTimeoutSecs_step.trans h) rfl

theorem record_of_leaves {steps : List (GossipStep × UInt64)}
    (h : Runs.Along (step deriveTopicId) (fun s a => s.Leaves deriveTopicId t a) s steps)
    {now : UInt64} (hs : RecordInTime (s.state.record t) now) :
    RecordInTime ((Runs.exec (step deriveTopicId) s steps).state.record t) now :=
  h.exec_inv (I := fun r : Clocked => RecordInTime (r.state.record t) now)
    (fun _ _ hr hleaves ownership hrec => hr ownership (hleaves ownership hrec)) hs

/-- No owner is pinned in the future: every heartbeat stays within sixty seconds of the clock,
and an owner whose record is left alone is gone when these and the timeout have passed. -/
theorem no_owner_pinned (deriveTopicId : String → TopicId) (nodeId : NodeId)
    (topicSenders : List TopicId) (ownerTimeoutSecs clock : UInt64)
    (steps : List (GossipStep × UInt64))
    (h : Runs.Along (step deriveTopicId) OnTime
      (new nodeId topicSenders ownerTimeoutSecs clock) steps) :
    Runs.Always (step deriveTopicId) Within
        (new nodeId topicSenders ownerTimeoutSecs clock) steps ∧
      ∀ before after, steps = before ++ after → ∀ t,
        let s₀ := Runs.exec (step deriveTopicId)
          (new nodeId topicSenders ownerTimeoutSecs clock) before
        Runs.Along (step deriveTopicId) (fun s a => s.Leaves deriveTopicId t a) s₀ after →
          ∀ now : UInt64,
            s₀.clock.toNat + 60 * 10 ^ 9 + ownerTimeoutSecs.toNat * 10 ^ 9 < now.toNat →
            (Runs.exec (step deriveTopicId) s₀ after).state.node.getTopicOwner t now = none := by
  have hstart := within_new nodeId topicSenders ownerTimeoutSecs clock
  have hwithin : ∀ before, before <+: steps → (Runs.exec (step deriveTopicId)
      (new nodeId topicSenders ownerTimeoutSecs clock) before).Within := by
    rintro before ⟨after, rfl⟩
    exact (Runs.along_append.mp h).1.exec_inv (fun _ _ hs ha => hs.step ha) hstart
  refine ⟨hwithin, ?_⟩
  rintro before after rfl t s₀ hleaves now hlate
  have hs₀ := within_iff.mp (hwithin before (List.prefix_append before after)) t
  refine getTopicOwner_eq_none (record_of_leaves hleaves hs₀) ?_
  rwa [ownerTimeoutSecs_exec, ownerTimeoutSecs_exec]

/-- A claim from sixty seconds ahead holds for ninety seconds and no longer. -/
theorem no_owner_pinned_claim :
    let claim := (GossipStep.receive (.topicClaim "t" [] 2 9 (60 * nanosPerSec)) 0, (0 : UInt64))
    let look := (GossipStep.monitorRead 30 "t" nanosPerSec, nanosPerSec)
    let s := Runs.exec (step fun _ => []) (new 1 [] 30 0) [claim, look]
    s.state.node.getTopicOwner "t" (90 * nanosPerSec) = some 2 ∧
      s.state.node.getTopicOwner "t" (91 * nanosPerSec) = none := by
  intro claim look s
  refine ⟨by decide +kernel, ?_⟩
  have htimes : Runs.Along (step fun _ => []) OnTime (new 1 [] 30 0) [claim, look] := by
    refine ⟨⟨le_rfl, ?_⟩, ⟨show (0 : UInt64) ≤ nanosPerSec by decide, ?_⟩, trivial⟩
    all_goals
      rintro now ⟨⟩
      exact le_rfl
  exact (no_owner_pinned _ 1 [] 30 0 [claim, look] htimes).2 [claim] [look] rfl "t"
    ⟨fun ownership hrec => hrec, trivial⟩ _ (by decide +kernel)

end Clocked

end DumbDistributedLog.Gossip
