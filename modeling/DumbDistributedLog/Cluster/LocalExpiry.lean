import DumbDistributedLog.Ownership.Holders

/-! # Local expiry

A node's background task sweeps its own replica by its own clock, outside the log.
Two replicas apply the same entries and one of them is also swept locally, so it may
lack leases that the other still has. The two agree as long as no entry that
acquires such a key or renews such a lease carries a time before the lease's expiry.
-/

namespace DumbDistributedLog

open OwnershipState Runs

inductive ReplicaStep where
  | entry (cmd : OwnershipCommand)
  | localExpiry (now : UInt64)

def ReplicaStep.time : ReplicaStep → Option UInt64
  | .entry cmd => cmd.time
  | .localExpiry now => some now

/-- A replica that only applies the log, and one that also expires leases locally. -/
structure ReplicaPair where
  logOnly : OwnershipState
  expiring : OwnershipState

namespace ReplicaPair

def init : ReplicaPair := ⟨new, new⟩

def step (p : ReplicaPair) : ReplicaStep → ReplicaPair
  | .entry cmd => ⟨p.logOnly.apply cmd, p.expiring.apply cmd⟩
  | .localExpiry now => { p with expiring := (p.expiring.expireLeases now).1 }

/-- The leases that the local expiry has removed and the log has not. -/
def missing (p : ReplicaPair) : List LeaseEntry :=
  (p.logOnly.keyLeases.toList.filter fun q => p.expiring.holder q.1 = none).filterMap fun q =>
    p.logOnly.holder q.1

end ReplicaPair

/-- The lease's key is acquired, or the lease renewed, by the command at the time. -/
def OwnershipCommand.touches (l : LeaseEntry) : OwnershipCommand → Option UInt64
  | .acquireLease key _ _ _ timestamp => if key = l.key then some timestamp else none
  | .renewLease leaseId timestamp => if leaseId = l.id then some timestamp else none
  | _ => none

/-- The command does not touch the lease before its expiry. -/
def TouchesLate (c : OwnershipCommand) (l : LeaseEntry) : Prop :=
  ∀ t ∈ c.touches l, l.expiresAt ≤ t

instance (c : OwnershipCommand) (l : LeaseEntry) : Decidable (TouchesLate c l) :=
  U64.decidableForallMem (c.touches l)

/-- An entry is orderly and touches no missing lease before its expiry; sweeps are
safe on the replicas that run them. -/
def Settled (p : ReplicaPair) : ReplicaStep → Prop
  | .entry c => Orderly p.logOnly c ∧ SweepsSafely p.expiring c ∧
      ∀ l ∈ p.missing, TouchesLate c l
  | .localExpiry now => SweepSafe p.expiring now

instance : ∀ p a, Decidable (Settled p a)
  | p, .entry c => inferInstanceAs (Decidable (Orderly p.logOnly c ∧ SweepsSafely p.expiring c ∧
      ∀ l ∈ p.missing, TouchesLate c l))
  | p, .localExpiry now => inferInstanceAs (Decidable (SweepSafe p.expiring now))

/-- The replicas return the same leases, as far as these outlast the times used so
far, and decide the next acquisition alike. -/
structure Agree (p : ReplicaPair) (past : List ReplicaStep) (next : Option ReplicaStep) : Prop where
  holders : ∀ k,
    (p.expiring.getLeaseInfo k).filter
        (fun info => (past.filterMap ReplicaStep.time).all (· < info.expiresAt)) =
      (p.logOnly.getLeaseInfo k).filter
        fun info => (past.filterMap ReplicaStep.time).all (· < info.expiresAt)
  outcome : ∀ key owner leaseId ttlSecs timestamp,
    next = some (.entry (.acquireLease key owner leaseId ttlSecs timestamp)) →
    (p.expiring.Accepts key timestamp ↔ p.logOnly.Accepts key timestamp)

/-- The replicas agree at every point of the log. -/
def Agreement (steps : List ReplicaStep) : Prop :=
  ∀ past future, steps = past ++ future →
    Agree (exec ReplicaPair.step .init past) past future.head?

variable {p : ReplicaPair} {a : ReplicaStep} {c : OwnershipCommand} {clocks : List UInt64}
  {steps : List ReplicaStep}

namespace ReplicaPair

/-- The expiring replica lacks only leases that expired by one of the times. -/
structure Lagging (clocks : List UInt64) (p : ReplicaPair) : Prop where
  logOnly : KeyIndex p.logOnly
  expiring : KeyIndex p.expiring
  lags : Grants.Lags leaseScheme clocks p.logOnly.holder p.expiring.holder

theorem Lagging.timely (h : Lagging clocks p) (ha : Settled p (.entry c)) :
    Grants.Timely leaseScheme p.logOnly.holder p.expiring.holder c.event := by
  have hmissing : ∀ k l, p.logOnly.holder k = some l → p.expiring.holder k = none →
      l ∈ p.missing ∧ l.key = k := by
    intro k l hl hn
    obtain ⟨hk, _, hkey⟩ := h.logOnly.holder hl
    refine ⟨List.mem_filterMap.mpr ⟨(k, l.id), List.mem_filter.mpr ⟨?_, ?_⟩, hl⟩, hkey⟩
    · exact Std.ExtTreeMap.mem_toList_iff_getElem?_eq_some.mpr hk
    · exact decide_eq_true hn
  cases c with
  | acquireLease key owner leaseId ttlSecs timestamp =>
    intro l hl hn
    obtain ⟨hm, hkey⟩ := hmissing key l hl hn
    exact ha.2.2 l hm timestamp (if_pos hkey.symm)
  | renewLease leaseId timestamp =>
    intro k l hl hn hid
    exact ha.2.2 l (hmissing k l hl hn).1 timestamp (if_pos hid.symm)
  | _ => trivial

theorem Lagging.accepts_iff {key : String} {owner : NodeId} {leaseId ttlSecs timestamp : UInt64}
    (h : Lagging clocks p)
    (ha : Settled p (.entry (.acquireLease key owner leaseId ttlSecs timestamp))) :
    p.expiring.Accepts key timestamp ↔ p.logOnly.Accepts key timestamp := by
  rw [accepts_iff_not_held, accepts_iff_not_held, h.lags.held_iff (h.timely ha)]

theorem Lagging.freeId {key : String} {id : UInt64} (h : Lagging clocks p)
    (hf : FreeId p.logOnly key id) : FreeId p.expiring key id := by
  rintro ⟨k, i⟩ hp rfl
  obtain ⟨l, hl, -, rfl⟩ := h.expiring k i (Std.ExtTreeMap.mem_toList_iff_getElem?_eq_some.mp hp)
  have hheld : p.expiring.holder k = some l :=
    holder_eq_some.mpr ⟨_, Std.ExtTreeMap.mem_toList_iff_getElem?_eq_some.mp hp, hl⟩
  rcases h.lags k with hk | ⟨hk, -⟩
  · exact hf.eq (h.logOnly.holder (hk.symm.trans hheld)).1
  · rw [hk] at hheld
    cases hheld

theorem Lagging.orderly (h : Lagging clocks p) (ha : Settled p (.entry c)) :
    Orderly p.expiring c := by
  refine ⟨fun l hl => ?_, ha.2.1⟩
  cases c with
  | acquireLease key owner leaseId ttlSecs timestamp =>
    refine h.freeId (ha.1.1 l ?_)
    simpa only [grantedLease, h.accepts_iff ha] using hl
  | _ => cases hl

theorem Lagging.step (h : Lagging clocks p) (ha : Settled p a) :
    Lagging (clocks ++ a.time.toList) (p.step a) := by
  cases a with
  | entry c =>
    have ho := h.orderly ha
    refine ⟨h.logOnly.perform (.apply c) ha.1.1, h.expiring.perform (.apply c) ho.1, ?_⟩
    have hl := (h.lags.step (h.timely ha)).mono (List.subset_append_left clocks c.time.toList)
    rwa [← h.logOnly.holder_apply ha.1, ← h.expiring.holder_apply ho] at hl
  | localExpiry now =>
    have ho : Orderly p.expiring (.expireLeases now) := by
      refine ⟨fun l hl => (by cases hl), fun t ht => ?_⟩
      obtain rfl := Option.some.inj ht
      exact ha
    refine ⟨h.logOnly, h.expiring.perform (.apply (.expireLeases now)) ho.1, ?_⟩
    have hl : Grants.Lags leaseScheme (now :: clocks) p.logOnly.holder
        (p.expiring.apply (.expireLeases now)).holder := by
      rw [h.expiring.holder_apply ho]
      exact h.lags.sweep
    exact hl.mono (List.perm_append_singleton now clocks).symm.subset

theorem Lagging.exec (h : Lagging clocks p) (hs : Along ReplicaPair.step Settled p steps) :
    Lagging (clocks ++ steps.filterMap ReplicaStep.time) (exec ReplicaPair.step p steps) := by
  induction steps generalizing p clocks with
  | nil => simpa using h
  | cons a steps ih =>
    have htimes : (a :: steps).filterMap ReplicaStep.time =
        a.time.toList ++ steps.filterMap ReplicaStep.time := by
      cases ht : a.time <;> simp [ht]
    rw [htimes, ← List.append_assoc]
    exact ih (h.step hs.1) hs.2

theorem Lagging.init : Lagging [] .init := ⟨keyIndex_new, keyIndex_new, fun _ => Or.inl rfl⟩

theorem Lagging.filter_getLeaseInfo (h : Lagging clocks p) (k : String) :
    (p.expiring.getLeaseInfo k).filter (fun info => clocks.all (· < info.expiresAt)) =
      (p.logOnly.getLeaseInfo k).filter fun info => clocks.all (· < info.expiresAt) := by
  simp only [getLeaseInfo, Option.filter_map]
  exact congrArg (Option.map LeaseInfo.ofEntry) (h.lags.filter_eq k)

end ReplicaPair

/-- The replicas agree throughout every run whose entries and local expiries are all
settled when they come. -/
theorem agreement_of_settled (steps : List ReplicaStep)
    (hs : Along ReplicaPair.step Settled .init steps) : Agreement steps := by
  rintro past future rfl
  rw [along_append] at hs
  have h := ReplicaPair.Lagging.init.exec hs.1
  refine ⟨h.filter_getLeaseInfo, fun key owner leaseId ttlSecs timestamp hnext => ?_⟩
  obtain ⟨rest, rfl⟩ := List.head?_eq_some_iff.mp hnext
  exact h.accepts_iff hs.2.1

theorem agreement_late_acquisition :
    let steps : List ReplicaStep :=
      [.entry (.acquireLease "a" 1 0 10 0), .localExpiry 10100000000,
        .entry (.renewLease 0 11000000000), .entry (.acquireLease "a" 2 1 10 12000000000)]
    Along ReplicaPair.step Settled .init steps ∧ Agreement steps :=
  ⟨by decide +kernel, agreement_of_settled _ (by decide +kernel)⟩

/-- A renewal that reaches the log after the local expiry extends the lease on one
replica only, and a later acquisition is rejected there and accepted on the other. -/
theorem local_expiry_breaks_agreement :
    ¬ Agreement [.entry (.acquireLease "a" 1 0 10 0), .localExpiry 10100000000,
      .entry (.renewLease 0 9900000000), .entry (.acquireLease "a" 2 1 10 12000000000)] := by
  intro h
  have hacc := (h [.entry (.acquireLease "a" 1 0 10 0), .localExpiry 10100000000,
    .entry (.renewLease 0 9900000000)] [.entry (.acquireLease "a" 2 1 10 12000000000)]
    rfl).outcome "a" 2 1 10 12000000000 rfl
  exact absurd (hacc.mp (by decide +kernel)) (by decide +kernel)

end DumbDistributedLog
