import DumbDistributedLog.Ownership.Boundaries
import DumbDistributedLog.Storage.Batches

/-! # What the lease calls answer

A node proposes a command and answers its caller from the response of the state machine,
or from its tables. The response to a sweep counts what a second sweep finds, the answer to
a renewal does not look at the response at all, and the owner of a key is read without a
glance at the clock. Each answer is right exactly where the difference cannot be seen.
-/

namespace DumbDistributedLog

open OwnershipState

namespace RaftClusterNode

section Calls

variable (clientWrite : OwnershipCommand → Except String OwnershipResponse)

/-- Propose a command; the response is dropped. -/
def propose (cmd : OwnershipCommand) : Except String Unit :=
  match clientWrite cmd with
  | .ok _ => .ok ()
  | .error e => .error ("Raft proposal failed: " ++ e)

def renewLease (leaseId timestamp : UInt64) : Except String Unit :=
  propose clientWrite (.renewLease leaseId timestamp)

def expireLeases (now : UInt64) : Except String ℕ :=
  match clientWrite (.expireLeases now) with
  | .error e => .error ("Raft proposal failed: " ++ e)
  | .ok (.leaseCount count) => .ok count
  | .ok _ => .error "Unexpected response type"

end Calls

def getLeaseOwner (linearizable : Except String Unit) (s : OwnershipState) (key : String) :
    Except String (Option LeaseInfo) :=
  match linearizable with
  | .error e => .error ("Linearizable read failed: " ++ e)
  | .ok () => .ok (s.getLeaseInfo key)

end RaftClusterNode

/-- A storage applies the command, in a batch, to the given ownership state and answers it. -/
def AnsweredIn (before : OwnershipState) (cmd : OwnershipCommand) (response : OwnershipResponse) :
    Prop :=
  ∃ (s : AutoqueuesRaftStorage) (pre post : List Entry) (logId : LogId)
    (flush : Except StorageError Unit) (results : List OwnershipResponse),
    (s.applyToStateMachine (pre ++ ⟨logId, .normal cmd⟩ :: post) flush).2 = .ok results ∧
      s.ownershipState.replay pre = before ∧ results[pre.length]? = some response

/-- The write of the command is committed and applied to the given ownership state. -/
def CommitsIn (clientWrite : OwnershipCommand → Except String OwnershipResponse)
    (before : OwnershipState) (cmd : OwnershipCommand) : Prop :=
  ∃ response, clientWrite cmd = .ok response ∧ AnsweredIn before cmd response

/-- The number of records of the first state that are not in the second. -/
def removedCount (before after : OwnershipState) : ℕ :=
  (before.leases.keys.filter fun i => !after.leases.contains i).length

/-- A renewal is reported as done exactly if it found its lease unexpired, and then the lease
ends its term after the renewal. -/
structure RenewReported (clientWrite : OwnershipCommand → Except String OwnershipResponse)
    (before : OwnershipState) (leaseId timestamp : UInt64) : Prop where
  ok_iff : RaftClusterNode.renewLease clientWrite leaseId timestamp = .ok () ↔
    before.isLeaseValid leaseId timestamp
  extended : ∀ l, before.leases[leaseId]? = some l → timestamp < l.expiresAt →
    ∃ renewed, (before.apply (.renewLease leaseId timestamp)).getLease leaseId = some renewed ∧
      renewed.expiresAt.toNat =
        min (timestamp.toNat + l.ttlSecs.toNat * 1000000000) U64.maxValue.toNat

/-- A key is reported as held by a lease only if the lease is unexpired, and exactly if the key
could not be acquired. -/
structure HeldReported (s : OwnershipState) (key : String) (now : UInt64) : Prop where
  unexpired : ∀ info, RaftClusterNode.getLeaseOwner (.ok ()) s key = .ok (some info) →
    now < info.expiresAt
  held_iff : (∃ info, RaftClusterNode.getLeaseOwner (.ok ()) s key = .ok (some info)) ↔
    ¬ s.Accepts key now

variable {s before : OwnershipState} {cmd : OwnershipCommand} {response : OwnershipResponse}
  {clientWrite : OwnershipCommand → Except String OwnershipResponse} {now timestamp i : UInt64}
  {key : String}

theorem responses_of_ok {storage : AutoqueuesRaftStorage} {entries : List Entry}
    {flush : Except StorageError Unit} {results : List OwnershipResponse}
    (h : (storage.applyToStateMachine entries flush).2 = .ok results) :
    results = (storage.applyEntries entries).2 := by
  simp only [AutoqueuesRaftStorage.applyToStateMachine] at h
  split at h
  · cases flush with
    | error e => cases h
    | ok => exact (Except.ok.inj h).symm
  · exact (Except.ok.inj h).symm

theorem answeredIn_iff :
    AnsweredIn before cmd response ↔ response = ((before.apply cmd).respond cmd).2 := by
  constructor
  · rintro ⟨storage, pre, post, logId, flush, results, hok, rfl, hresponse⟩
    have hlength : (storage.applyEntries pre).2.length = pre.length :=
      AutoqueuesRaftStorage.length_applyEntries pre
    rw [responses_of_ok hok, AutoqueuesRaftStorage.applyEntries_append, ← hlength,
      List.getElem?_append_right le_rfl, Nat.sub_self] at hresponse
    have hhead := (Option.some.inj hresponse).symm
    rwa [AutoqueuesRaftStorage.applyEntries_eq] at hhead
  · rintro rfl
    refine ⟨{ AutoqueuesRaftStorage.new with ownershipState := before }, [], [], ⟨⟨0, 0⟩, 0⟩,
      .ok (), _, AutoqueuesRaftStorage.applyToStateMachine_ok _, rfl, rfl⟩

/-- A client whose every write is applied to the given state. -/
def writesTo (before : OwnershipState) (cmd : OwnershipCommand) :
    Except String OwnershipResponse :=
  .ok ((before.apply cmd).respond cmd).2

theorem commitsIn_writesTo (before : OwnershipState) (cmd : OwnershipCommand) :
    CommitsIn (writesTo before) before cmd :=
  ⟨_, rfl, answeredIn_iff.mpr rfl⟩

/-- The sweep that answers a sweep finds nothing. -/
theorem respond_expireLeases (before : OwnershipState) (now : UInt64) :
    ((before.apply (.expireLeases now)).respond (.expireLeases now)).2 = .leaseCount 0 := by
  change OwnershipResponse.leaseCount
    ((before.apply (.expireLeases now)).expiredKeys now).length = _
  rw [expiredKeys_apply, List.length_nil]

theorem CommitsIn.expireLeases (h : CommitsIn clientWrite before (.expireLeases now)) :
    RaftClusterNode.expireLeases clientWrite now = .ok 0 := by
  obtain ⟨response, hwrite, hanswer⟩ := h
  rw [answeredIn_iff.mp hanswer, respond_expireLeases] at hwrite
  simp only [RaftClusterNode.expireLeases, hwrite]

theorem CommitsIn.renewLease (h : CommitsIn clientWrite before (.renewLease i timestamp)) :
    RaftClusterNode.renewLease clientWrite i timestamp = .ok () := by
  obtain ⟨response, hwrite, -⟩ := h
  simp only [RaftClusterNode.renewLease, RaftClusterNode.propose, hwrite]

theorem removedCount_eq_zero_iff {after : OwnershipState} :
    removedCount before after = 0 ↔ ∀ i ∈ before.leases, i ∈ after.leases := by
  simp [removedCount]

theorem removedCount_sweep_eq_zero_iff :
    removedCount before (before.apply (.expireLeases now)) = 0 ↔
      ∀ l ∈ before.leases.values, now < l.expiresAt := by
  rw [removedCount_eq_zero_iff]
  constructor
  · intro hkept l hl
    by_contra hexp
    obtain ⟨j, hj⟩ := (Table.mem_values _).mp hl
    obtain ⟨a, ha⟩ := (Table.mem_iff_get _).mp (hkept j ((Table.mem_iff_get _).mpr ⟨l, hj⟩))
    obtain ⟨hget, hn⟩ := get_leases_forget_eq_some.mp ha
    obtain rfl := Option.some.inj (hj.symm.trans hget)
    exact hn (mem_expiredKeys.mpr ⟨l, hl, not_lt.mp hexp, rfl⟩)
  · intro hlive
    have hsame : before.apply (.expireLeases now) = before := expireLeases_eq_self_iff.mpr hlive
    rw [hsame]
    exact fun _ hi => hi

/-- The count of a sweep is right exactly if there was nothing to count. -/
theorem expire_count_reported_iff (h : CommitsIn clientWrite before (.expireLeases now)) :
    RaftClusterNode.expireLeases clientWrite now =
        .ok (removedCount before (before.apply (.expireLeases now))) ↔
      ∀ l ∈ before.leases.values, now < l.expiresAt := by
  rw [h.expireLeases, ← removedCount_sweep_eq_zero_iff, Except.ok.injEq, eq_comm]

/-- A lease of ten seconds, swept after five. -/
theorem expire_count_reported_unexpired :
    let before := OwnershipState.new.apply (.acquireLease "a" 1 0 10 0)
    RaftClusterNode.expireLeases (writesTo before) 5000000000 =
      .ok (removedCount before (before.apply (.expireLeases 5000000000))) :=
  (expire_count_reported_iff (commitsIn_writesTo _ _)).mpr (by decide +kernel)

/-- A lease of one second, swept after two: it is removed and not counted. -/
theorem expired_lease_not_counted :
    let before := OwnershipState.new.apply (.acquireLease "a" 1 0 1 0)
    CommitsIn (writesTo before) before (.expireLeases 2000000000) ∧
      RaftClusterNode.expireLeases (writesTo before) 2000000000 = .ok 0 ∧
      removedCount before (before.apply (.expireLeases 2000000000)) = 1 :=
  ⟨commitsIn_writesTo _ _, (commitsIn_writesTo _ _).expireLeases, by decide +kernel⟩

theorem getLeaseOwner_eq_some {info : LeaseInfo} :
    RaftClusterNode.getLeaseOwner (.ok ()) s key = .ok (some info) ↔
      ∃ l, s.holder key = some l ∧ LeaseInfo.ofEntry l = info := by
  simp [RaftClusterNode.getLeaseOwner, getLeaseInfo]

theorem HeldReported.of_unexpired (h : ∀ l, s.holder key = some l → now < l.expiresAt) :
    HeldReported s key now where
  unexpired := by
    intro info hinfo
    obtain ⟨l, hl, rfl⟩ := getLeaseOwner_eq_some.mp hinfo
    exact h l hl
  held_iff := by
    rw [not_accepts_iff]
    constructor
    · rintro ⟨info, hinfo⟩
      obtain ⟨l, hl, -⟩ := getLeaseOwner_eq_some.mp hinfo
      exact ⟨l, hl, h l hl⟩
    · rintro ⟨l, hl, -⟩
      exact ⟨_, getLeaseOwner_eq_some.mpr ⟨l, hl, rfl⟩⟩

/-- The owner of a key is reported as it should be exactly if the lease the key names, if there
is one, is unexpired. -/
theorem lease_owner_reported_iff (s : OwnershipState) (key : String) (now : UInt64) :
    HeldReported s key now ↔ ∀ l, s.holder key = some l → now < l.expiresAt := by
  refine ⟨fun h l hl => ?_, HeldReported.of_unexpired⟩
  exact h.unexpired _ (getLeaseOwner_eq_some.mpr ⟨l, hl, rfl⟩)

/-- A lease of one second, asked for after two: it is reported though the key is free. -/
theorem expired_lease_reported_held :
    let s := OwnershipState.new.apply (.acquireLease "a" 1 0 1 0)
    (∃ info, RaftClusterNode.getLeaseOwner (.ok ()) s "a" = .ok (some info) ∧
      info.expiresAt ≤ 2000000000) ∧ s.Accepts "a" 2000000000 :=
  ⟨⟨_, rfl, by decide +kernel⟩, by decide +kernel⟩

theorem heldReported_of_swept (s : OwnershipState) (key : String) (now : UInt64) :
    HeldReported (s.apply (.expireLeases now)) key now := by
  refine .of_unexpired fun l hl => ?_
  obtain ⟨i, -, hi⟩ := holder_eq_some.mp hl
  exact expiredKeys_eq_nil_iff.mp (expiredKeys_apply s now) l ((Table.mem_values _).mpr ⟨i, hi⟩)

/-- A renewal is reported as it should be exactly if there was an unexpired lease to renew. -/
theorem renewal_reported_iff (h : CommitsIn clientWrite before (.renewLease i timestamp)) :
    RenewReported clientWrite before i timestamp ↔ before.isLeaseValid i timestamp := by
  refine ⟨fun hr => hr.ok_iff.mp h.renewLease, fun hvalid => ⟨iff_of_true h.renewLease hvalid, ?_⟩⟩
  intro l hl ht
  refine ⟨l.renew timestamp, get_leases_renew hl, ?_⟩
  rw [LeaseEntry.renew, if_pos ht]
  exact toNat_leaseExpiry timestamp l.ttlSecs

/-- A lease of ten seconds, renewed after five. -/
theorem renewal_reported_unexpired :
    let before := OwnershipState.new.apply (.acquireLease "a" 1 0 10 0)
    RenewReported (writesTo before) before 0 5000000000 :=
  (renewal_reported_iff (commitsIn_writesTo _ _)).mpr (by decide +kernel)

/-- A renewal of a lease that was never granted, and one of a lease that is over. -/
theorem failed_renewals_reported_ok :
    let before := OwnershipState.new.apply (.acquireLease "a" 1 0 1 0)
    (CommitsIn (writesTo .new) .new (.renewLease 7 0) ∧
      RaftClusterNode.renewLease (writesTo .new) 7 0 = .ok () ∧
      OwnershipState.new.getLease 7 = none) ∧
    CommitsIn (writesTo before) before (.renewLease 0 2000000000) ∧
      RaftClusterNode.renewLease (writesTo before) 0 2000000000 = .ok () ∧
      before.isLeaseValid 0 2000000000 = false :=
  ⟨⟨commitsIn_writesTo _ _, rfl, by decide +kernel⟩, commitsIn_writesTo _ _, rfl,
    by decide +kernel⟩

end DumbDistributedLog
