import DumbDistributedLog.Library.Runs
import DumbDistributedLog.Ownership.Leases

/-! # The lease calls of a node

An acquisition draws an id, waits until its command is applied to the local replica
and then reads the lease of the key, whoever holds it; that the command was rejected
leaves no trace. A release names only the key, so it removes whichever lease the key
is under when it is applied. The call and the release do what they are meant to do
exactly when the state machine would have accepted the one and may grant the other.
-/

namespace DumbDistributedLog

open OwnershipState Runs

section Acquire

/-- A call of `acquire_lease` with the operations that its replica goes through
before its command is applied and between that and the final read. -/
structure AcquireCall where
  node : NodeId
  key : String
  ttlSecs : UInt64
  timestamp : UInt64
  before : List MachineOp
  after : List MachineOp

namespace AcquireCall

variable (call : AcquireCall) (s : OwnershipState)

def leaseId : UInt64 := s.drawLeaseId.1

def command : OwnershipCommand :=
  .acquireLease call.key call.node (leaseId s) call.ttlSecs call.timestamp

def atApply : OwnershipState := exec perform s.drawLeaseId.2 call.before

def atRead : OwnershipState := exec perform ((call.atApply s).apply (call.command s)) call.after

/-- What the call returns, given what became of its proposal. -/
def acquireLease (proposal : Except String Unit) : Except String LeaseInfo :=
  match proposal with
  | .error e => .error ("Raft proposal failed: " ++ e)
  | .ok () =>
    match (call.atRead s).getLeaseInfo call.key with
    | some info => .ok info
    | none => .error ("Lease " ++ toString (leaseId s) ++ " was not created")

end AcquireCall

/-- Success means that the command was accepted and the caller holds the lease, and a
key under another node's unexpired lease makes the call fail. -/
structure AcquireSound (call : AcquireCall) (s : OwnershipState) (proposal : Except String Unit) :
    Prop where
  success : ∀ info, call.acquireLease s proposal = .ok info →
    (call.atApply s).Accepts call.key call.timestamp ∧ info.owner = call.node ∧
      info.id = AcquireCall.leaseId s
  held : ∀ l, (call.atApply s).liveLease call.key call.timestamp = some l → l.owner ≠ call.node →
    ∃ e, call.acquireLease s proposal = .error e

/-- An operation is granted the key, or the id that the key names, and the condition holds of the
id and the owner of the lease. -/
def GrantsKey (key : String) (P : UInt64 → NodeId → Prop) (s : OwnershipState) (op : MachineOp) :
    Prop :=
  ∃ l ∈ s.granted op, (l.key = key ∨ s.keyLeases[key]? = some l.id) ∧ P l.id l.owner

/-- The key is under a lease, and the condition holds of its id and its owner. -/
def HeldBy (key : String) (P : UInt64 → NodeId → Prop) (s : OwnershipState) : Prop :=
  ∃ l, s.holder key = some l ∧ P l.id l.owner

/-- The lease is the one that the call has asked for. -/
def AcquireCall.Own (call : AcquireCall) (s : OwnershipState) (id : UInt64) (owner : NodeId) :
    Prop :=
  id = leaseId s ∧ owner = call.node

/-- An operation is granted neither the key nor the id that the key names. -/
def SparesKey (key : String) (s : OwnershipState) (op : MachineOp) : Prop :=
  ∀ l ∈ s.granted op, l.key ≠ key ∧ s.keyLeases[key]? ≠ some l.id

/-- A sweep takes the lease that the key names if the key, or the key in the lease's
record, has an expired record. -/
def SweepTakes (key : String) (s : OwnershipState) (now : UInt64) : Prop :=
  key ∈ s.expiredKeys now ∨ ∃ l, s.holder key = some l ∧ l.key ∈ s.expiredKeys now

/-- An operation releases or sweeps away the lease that the key names. -/
def TakesLease (key : String) (s : OwnershipState) (op : MachineOp) : Prop :=
  (∃ k, op.releases = some k ∧ s.keyLeases[k]? = s.keyLeases[key]?) ∨
    ∃ now, op.sweepsAt = some now ∧ SweepTakes key s now

variable {s : OwnershipState} {call : AcquireCall} {key : String} {op : MachineOp}
  {ops : List MachineOp} {l : LeaseEntry}

theorem SparesKey.holder_perform (h : SparesKey key s op) {l' : LeaseEntry}
    (hl' : (s.perform op).holder key = some l') :
    ∃ l, s.holder key = some l ∧ l'.id = l.id ∧ l'.owner = l.owner := by
  refine perform_cases (motive := fun s' => s'.holder key = some l' →
    ∃ l, s.holder key = some l ∧ l'.id = l.id ∧ l'.owner = l.owner)
    op ?keep ?grant ?renew ?release ?sweep hl'
  case keep =>
    intro s' hl hk _ _ _ hs'
    exact ⟨l', holder_congr hl hk key ▸ hs', rfl, rfl⟩
  case grant =>
    intro l s' hg hl hk hs'
    obtain ⟨hkey, hid⟩ := h l hg
    rw [holder_congr hl hk, holder_grant_of_ne hkey hid] at hs'
    exact ⟨l', hs', rfl, rfl⟩
  case renew =>
    intro leaseId timestamp _ hs'
    obtain ⟨i, hi, hget⟩ := holder_eq_some.mp hs'
    rw [Table.get_modify] at hget
    split at hget
    · rename_i heq
      subst leaseId
      obtain ⟨l, hl, rfl⟩ := Option.map_eq_some_iff.mp hget
      refine ⟨l, holder_eq_some.mpr ⟨i, hi, hl⟩, (l.renew_key timestamp).2, ?_⟩
      unfold LeaseEntry.renew
      split <;> rfl
    · exact ⟨l', holder_eq_some.mpr ⟨i, hi, hget⟩, rfl, rfl⟩
  case release =>
    intro k leaseId _ _ hs'
    obtain ⟨i, hi, hget⟩ := holder_eq_some.mp hs'
    have hi := ((Table.get_erase_eq_some _).mp hi).2
    have hget := ((Table.get_erase_eq_some _).mp hget).2
    exact ⟨l', holder_eq_some.mpr ⟨i, hi, hget⟩, rfl, rfl⟩
  case sweep =>
    intro now _ _ _ hs'
    obtain ⟨i, hi, hget⟩ := holder_eq_some.mp hs'
    have hi := (get_keyLeases_forget_eq_some.mp hi).2
    have hget := (get_leases_forget_eq_some.mp hget).1
    exact ⟨l', holder_eq_some.mpr ⟨i, hi, hget⟩, rfl, rfl⟩

theorem holder_sweep_eq_none_iff {now : UInt64} (hl : s.holder key = some l) :
    ((s.expiredKeys now).foldl forgetKey s).holder key = none ↔ SweepTakes key s now := by
  obtain ⟨i, hi, hget⟩ := holder_eq_some.mp hl
  simp only [SweepTakes, hl, Option.some.injEq, exists_eq_left']
  rw [holder, get_keyLeases_forget]
  by_cases hkey : key ∈ s.expiredKeys now
  · simp [hkey]
  · by_cases hrec : l.key ∈ s.expiredKeys now
    · simp [hkey, hi, get_leases_forget, hget, Option.filter, hrec]
    · simp [hkey, hi, get_leases_forget, hget, Option.filter, hrec]

theorem not_takesLease_of_granted (h : s.granted op = some l) : ¬ TakesLease key s op := by
  rintro (⟨k, hk, -⟩ | ⟨now, hnow, -⟩)
  · cases op with
    | apply cmd => cases cmd <;> first | cases h | cases hk
    | _ => cases hk
  · cases op with
    | apply cmd => cases cmd <;> first | cases h | cases hnow
    | expireLeases now => cases h
    | _ => cases hnow

theorem SparesKey.holder_eq_none_iff (h : SparesKey key s op) (hl : s.holder key = some l) :
    (s.perform op).holder key = none ↔ TakesLease key s op := by
  obtain ⟨i, hi, hget⟩ := holder_eq_some.mp hl
  have hheld : ∀ s' : OwnershipState, s'.holder key = s.holder key → s'.holder key ≠ none :=
    fun s' hs' hn => by simp [hs', hl] at hn
  refine perform_cases (motive := fun s' => s'.holder key = none ↔ TakesLease key s op)
    op ?keep ?grant ?renew ?release ?sweep
  case keep =>
    intro s' hleases hkeys _ hrel hsweep
    refine iff_of_false (hheld s' (holder_congr hleases hkeys key)) ?_
    rintro (⟨k, hk, heq⟩ | ⟨now, hnow, -⟩)
    · rw [hrel k hk, hi] at heq
      cases heq
    · rw [hsweep] at hnow
      cases hnow
  case grant =>
    intro l' s' hg hleases hkeys
    obtain ⟨hkey, hid⟩ := h l' hg
    refine iff_of_false (hheld s' ?_) (not_takesLease_of_granted hg)
    rw [holder_congr hleases hkeys, holder_grant_of_ne hkey hid]
  case renew =>
    rintro leaseId timestamp rfl
    refine iff_of_false ?_ (by simp [TakesLease, MachineOp.releases, MachineOp.sweepsAt,
      OwnershipCommand.releases, OwnershipCommand.sweepsAt])
    simp only [holder, hi, Option.bind_some, Table.get_modify]
    split
    · rename_i heq
      simp [heq, hget]
    · simp [hget]
  case release =>
    rintro k leaseId rfl hid
    have htakes : TakesLease key s (.apply (.releaseLease k)) ↔ leaseId = i := by
      simp [TakesLease, MachineOp.releases, MachineOp.sweepsAt, OwnershipCommand.releases,
        OwnershipCommand.sweepsAt, hid, hi]
    rw [htakes]
    simp only [holder, Table.get_erase]
    rcases eq_or_ne k key with rfl | hne
    · simp [Option.some.inj (hid.symm.trans hi)]
    · rw [if_neg hne, hi, Option.bind_some]
      split
      · rename_i heq
        simp [heq]
      · rename_i heq
        simp [hget, heq]
  case sweep =>
    intro now hnow _ hrel
    rw [holder_sweep_eq_none_iff hl]
    simp [TakesLease, hnow, hrel]

theorem not_grantsKey_of_spares {P : UInt64 → NodeId → Prop} (h : SparesKey key s op) :
    ¬ GrantsKey key P s op := by
  rintro ⟨l, hl, hkey | hid, -⟩
  · exact (h l hl).1 hkey
  · exact (h l hl).2 hid

theorem holder_grant_of_key {s' : OwnershipState} (hleases : s'.leases = (s.grant l).leases)
    (hkeys : s'.keyLeases = (s.grant l).keyLeases)
    (h : l.key = key ∨ s.keyLeases[key]? = some l.id) : s'.holder key = some l := by
  rw [holder_congr hleases hkeys, holder, get_keyLeases_grant]
  rcases h with hkey | hid
  · simp [hkey]
  · by_cases hkey : l.key = key <;> simp [hkey, hid]

theorem holder_perform_of_granted (hl : s.granted op = some l)
    (h : l.key = key ∨ s.keyLeases[key]? = some l.id) : (s.perform op).holder key = some l := by
  refine perform_cases (motive := fun s' => s'.holder key = some l) op ?keep ?grant ?renew
    ?release ?sweep
  case keep =>
    intro s' _ _ hnone
    rw [hl] at hnone
    cases hnone
  case grant =>
    intro l' s' hl' hleases hkeys
    obtain rfl := Option.some.inj (hl.symm.trans hl')
    exact holder_grant_of_key hleases hkeys h
  case renew =>
    rintro leaseId timestamp rfl
    cases hl
  case release =>
    rintro k leaseId rfl
    cases hl
  case sweep =>
    intro now _ hnone
    rw [hl] at hnone
    cases hnone

/-- A key comes under a lease by a grant, and leaves it when it is taken or granted otherwise. -/
theorem heldBy_perform {P : UInt64 → NodeId → Prop} :
    HeldBy key P (s.perform op) ↔ GrantsKey key P s op ∨ HeldBy key P s ∧
      ¬ (TakesLease key s op ∨ GrantsKey key (fun id owner => ¬ P id owner) s op) := by
  by_cases hspares : SparesKey key s op
  · simp only [not_grantsKey_of_spares hspares, false_or, or_false]
    constructor
    · rintro ⟨l', hl', hP⟩
      obtain ⟨l, hl, hid, howner⟩ := hspares.holder_perform hl'
      refine ⟨⟨l, hl, hid ▸ howner ▸ hP⟩, fun htakes => ?_⟩
      rw [(hspares.holder_eq_none_iff hl).mpr htakes] at hl'
      cases hl'
    · rintro ⟨⟨l, hl, hP⟩, htakes⟩
      have hsome := fun hnone => htakes ((hspares.holder_eq_none_iff hl).mp hnone)
      obtain ⟨l', hl'⟩ := Option.ne_none_iff_exists'.mp hsome
      obtain ⟨m, hm, hid, howner⟩ := hspares.holder_perform hl'
      obtain rfl := Option.some.inj (hl.symm.trans hm)
      exact ⟨l', hl', by rwa [hid, howner]⟩
  · obtain ⟨l, hl, hkey⟩ : ∃ l, s.granted op = some l ∧
        (l.key = key ∨ s.keyLeases[key]? = some l.id) := by
      simpa [SparesKey, imp_iff_not_or, or_assoc] using hspares
    have hgrants : ∀ Q, GrantsKey key Q s op ↔ Q l.id l.owner := by
      simp [GrantsKey, hl, hkey]
    rw [hgrants, hgrants, HeldBy, holder_perform_of_granted hl hkey]
    by_cases hP : P l.id l.owner <;> simp [hP]

theorem heldBy_not_perform {P : UInt64 → NodeId → Prop} :
    HeldBy key (fun id owner => ¬ P id owner) (s.perform op) ↔
      GrantsKey key (fun id owner => ¬ P id owner) s op ∨
        HeldBy key (fun id owner => ¬ P id owner) s ∧
          ¬ (TakesLease key s op ∨ GrantsKey key P s op) := by
  rw [heldBy_perform]
  simp only [not_not]

theorem holder_exec_eq_none_iff (hl : s.holder key = some l) :
    (exec perform s ops).holder key = none ↔
      Eventually perform (TakesLease key) s ops ∧
        Answered perform (GrantsKey key fun _ _ => True) (TakesLease key) s ops := by
  have hnone : (exec perform s ops).holder key = none ↔
      ¬ HeldBy key (fun _ _ => True) (exec perform s ops) := by
    simp [HeldBy, Option.eq_none_iff_forall_ne_some]
  have hstep : ∀ (s : OwnershipState) op, HeldBy key (fun _ _ => True) (s.perform op) ↔
      GrantsKey key (fun _ _ => True) s op ∨
        HeldBy key (fun _ _ => True) s ∧ ¬ TakesLease key s op := by
    intro s op
    rw [heldBy_perform]
    simp [GrantsKey]
  have hheld : HeldBy key (fun _ _ => True) s := ⟨l, hl, trivial⟩
  rw [hnone, not_exec_iff_answered hstep]
  simp [hheld]

theorem AcquireCall.acquireLease_eq_ok {proposal : Except String Unit} {info : LeaseInfo} :
    call.acquireLease s proposal = .ok info ↔
      proposal = .ok () ∧ (call.atRead s).getLeaseInfo call.key = some info := by
  unfold AcquireCall.acquireLease
  cases proposal with
  | error e => simp
  | ok u => cases (call.atRead s).getLeaseInfo call.key <;> simp

theorem AcquireCall.acquireLease_eq_error {proposal : Except String Unit}
    (h : ∀ info, call.acquireLease s proposal ≠ .ok info) :
    ∃ e, call.acquireLease s proposal = .error e := by
  cases hres : call.acquireLease s proposal with
  | error e => exact ⟨e, rfl⟩
  | ok info => exact absurd hres (h info)

theorem AcquireCall.holder_of_accepts (h : (call.atApply s).Accepts call.key call.timestamp) :
    ((call.atApply s).apply (call.command s)).holder call.key =
      some (.acquired call.key call.node (leaseId s) call.ttlSecs call.timestamp) := by
  have hnone : (call.atApply s).liveLease call.key call.timestamp = none := h
  simp only [AcquireCall.command, OwnershipState.apply, hnone]
  simp [holder, LeaseEntry.acquired]

theorem AcquireCall.holder_of_not_accepts
    (h : ¬ (call.atApply s).Accepts call.key call.timestamp) :
    ∃ l, ((call.atApply s).apply (call.command s)).holder call.key = some l := by
  obtain ⟨l, hl⟩ := Option.ne_none_iff_exists'.mp h
  refine ⟨l, ?_⟩
  simp only [AcquireCall.command, OwnershipState.apply, hl]
  exact (Option.filter_eq_some_iff.mp hl).1

theorem acquireSound_of_fails {proposal : Except String Unit}
    (h : ∀ info, call.acquireLease s proposal ≠ .ok info) : AcquireSound call s proposal :=
  ⟨fun info hok => absurd hok (h info), fun _ _ _ => AcquireCall.acquireLease_eq_error h⟩

/-- A call is sound by what it reads: nothing, or its own lease if its command was accepted. -/
theorem acquireSound_iff_read {proposal : Except String Unit} :
    AcquireSound call s proposal ↔ proposal ≠ .ok () ∨
      (call.atApply s).Accepts call.key call.timestamp ∧
        ¬ HeldBy call.key (fun id owner => ¬ call.Own s id owner) (call.atRead s) ∨
      (call.atRead s).holder call.key = none := by
  constructor
  · intro h
    by_cases hp : proposal = .ok ()
    · cases hread : (call.atRead s).holder call.key with
      | none => exact .inr (.inr rfl)
      | some l =>
        have hinfo : (call.atRead s).getLeaseInfo call.key = some (.ofEntry l) := by
          rw [getLeaseInfo, hread]
          rfl
        obtain ⟨hacc, howner, hid⟩ :=
          h.success _ (AcquireCall.acquireLease_eq_ok.mpr ⟨hp, hinfo⟩)
        refine .inr (.inl ⟨hacc, ?_⟩)
        rintro ⟨l', hl', hnot⟩
        obtain rfl := Option.some.inj (hread.symm.trans hl')
        exact hnot ⟨hid, howner⟩
    · exact .inl hp
  · rintro (hp | ⟨hacc, hown⟩ | hnone)
    · exact acquireSound_of_fails fun info hok => hp (AcquireCall.acquireLease_eq_ok.mp hok).1
    · refine ⟨fun info hok => ?_, fun l hl => ?_⟩
      · obtain ⟨l, hl, rfl⟩ := Option.map_eq_some_iff.mp (AcquireCall.acquireLease_eq_ok.mp hok).2
        have hmine : call.Own s l.id l.owner := by
          by_contra hnot
          exact hown ⟨l, hl, hnot⟩
        exact ⟨hacc, hmine.2, hmine.1⟩
      · rw [show (call.atApply s).liveLease call.key call.timestamp = none from hacc] at hl
        cases hl
    · refine acquireSound_of_fails fun info hok => ?_
      have hinfo := (AcquireCall.acquireLease_eq_ok.mp hok).2
      rw [getLeaseInfo, hnone] at hinfo
      cases hinfo

/-- A call is sound exactly if its proposal fails, or if its command is accepted and what is granted
of the key to anyone else is gone again by the read, or if the key is under no lease at the read:
the lease that it was under when the command was applied has been taken, and so has every one that
was granted since. -/
theorem acquireSound_iff (call : AcquireCall) (s : OwnershipState)
    (proposal : Except String Unit) :
    let applied := (call.atApply s).apply (call.command s)
    AcquireSound call s proposal ↔ proposal ≠ .ok () ∨
      (call.atApply s).Accepts call.key call.timestamp ∧
        Answered perform (GrantsKey call.key fun id owner => ¬ call.Own s id owner)
          (fun s' op => TakesLease call.key s' op ∨ GrantsKey call.key (call.Own s) s' op)
          applied call.after ∨
      Eventually perform (TakesLease call.key) applied call.after ∧
        Answered perform (GrantsKey call.key fun _ _ => True) (TakesLease call.key)
          applied call.after := by
  intro applied
  rw [acquireSound_iff_read]
  refine or_congr_right ?_
  by_cases hacc : (call.atApply s).Accepts call.key call.timestamp
  · have hl := AcquireCall.holder_of_accepts hacc
    have hown : ¬ HeldBy call.key (fun id owner => ¬ call.Own s id owner) applied := by
      rintro ⟨l, hl', hnot⟩
      obtain rfl := Option.some.inj (hl.symm.trans hl')
      exact hnot ⟨rfl, rfl⟩
    rw [AcquireCall.atRead, holder_exec_eq_none_iff hl,
      not_exec_iff_answered fun _ _ => heldBy_not_perform]
    simp [hacc, hown, applied]
  · obtain ⟨l, hl⟩ := AcquireCall.holder_of_not_accepts hacc
    rw [AcquireCall.atRead, holder_exec_eq_none_iff hl]
    simp [hacc, applied]

/-- A call during which the key's expired lease is released and another key acquired, and one
between whose application and read the lease of another node is released, and so is the next one. -/
theorem acquireSound_free_key :
    (let call : AcquireCall :=
      ⟨1, "a", 10, 2000000000, [.apply (.releaseLease "a")],
        [.apply (.acquireLease "b" 2 7 10 2000000000)]⟩
    AcquireSound call (new.apply (.acquireLease "a" 2 0 1 0)) (.ok ())) ∧
    (let call : AcquireCall :=
      ⟨1, "a", 10, 2000000000, [], [.apply (.releaseLease "a"),
        .apply (.acquireLease "a" 3 7 10 2000000000), .apply (.releaseLease "a")]⟩
    AcquireSound call (new.apply (.acquireLease "a" 2 0 10 0)) (.ok ())) := by
  constructor
  · refine (acquireSound_iff _ _ _).mpr (.inr (.inl ⟨by decide +kernel, ?_, trivial⟩))
    rintro ⟨l, hl, hkey, -⟩
    obtain rfl := Option.some.inj hl
    exact absurd hkey (by decide +kernel)
  · refine (acquireSound_iff _ _ _).mpr (.inr (.inr ⟨.inl (.inl ⟨"a", rfl, rfl⟩), ?_⟩))
    have htaken : ∀ s : OwnershipState, TakesLease "a" s (.apply (.releaseLease "a")) := fun s =>
      .inl ⟨"a", rfl, rfl⟩
    exact ⟨fun _ => .inr (.inl (htaken _)), fun _ => .inl (htaken _), nofun, trivial⟩

/-- A node that asks for a key under another node's unexpired lease is given that
lease as if it were its own. -/
theorem acquire_returns_other_lease :
    let call : AcquireCall := ⟨1, "a", 10, 1000000000, [], []⟩
    ¬ AcquireSound call (new.apply (.acquireLease "a" 2 0 10 0)) (.ok ()) := by
  intro call h
  have hinfo : call.acquireLease (new.apply (.acquireLease "a" 2 0 10 0)) (.ok ()) =
      .ok ⟨0, "a", 2, 0, 10000000000, 10⟩ :=
    AcquireCall.acquireLease_eq_ok.mpr ⟨rfl, by decide +kernel⟩
  exact absurd (h.success _ hinfo).2.1 (by decide)

end Acquire

section Release

/-- The lease calls of the nodes, with the time at which each is issued. -/
inductive LeaseCall where
  | acquireLease (node : NodeId) (key : String) (leaseId ttlSecs timestamp : UInt64)
  | renewLease (node : NodeId) (leaseId timestamp : UInt64)
  | releaseLease (node : NodeId) (key : String) (timestamp : UInt64)
  | expireLeases (node : NodeId) (now : UInt64)

namespace LeaseCall

/-- The command that a call proposes; a release passes on neither the node nor the time. -/
def command : LeaseCall → OwnershipCommand
  | .acquireLease node key leaseId ttlSecs timestamp =>
    .acquireLease key node leaseId ttlSecs timestamp
  | .renewLease _ leaseId timestamp => .renewLease leaseId timestamp
  | .releaseLease _ key _ => .releaseLease key
  | .expireLeases _ now => .expireLeases now

def time : LeaseCall → UInt64
  | .acquireLease _ _ _ _ timestamp => timestamp
  | .renewLease _ _ timestamp => timestamp
  | .releaseLease _ _ timestamp => timestamp
  | .expireLeases _ now => now

end LeaseCall

def OwnershipState.call (s : OwnershipState) (c : LeaseCall) : OwnershipState := s.apply c.command

/-- No release removes an unexpired lease on its key that another node holds. -/
def ReleasesSpare (calls : List LeaseCall) : Prop :=
  ∀ (pre post : List LeaseCall) (node : NodeId) (key : String) (timestamp : UInt64),
    calls = pre ++ .releaseLease node key timestamp :: post →
    ∀ (i : UInt64) (l : LeaseEntry), (exec call new pre).leases[i]? = some l → l.key = key →
      l.owner ≠ node → timestamp < l.expiresAt →
      (exec call new (pre ++ [.releaseLease node key timestamp])).leases[i]? = some l

/-- A release meets the caller's own lease on the key, an expired one, or none. -/
def OwnRelease (s : OwnershipState) : LeaseCall → Prop
  | .releaseLease node key timestamp =>
    ∀ l ∈ s.holder key, l.key = key → l.owner = node ∨ l.expiresAt ≤ timestamp
  | _ => True

instance : ∀ s c, Decidable (OwnRelease s c)
  | s, .releaseLease node key timestamp => inferInstanceAs (Decidable
      (∀ l ∈ s.holder key, l.key = key → l.owner = node ∨ l.expiresAt ≤ timestamp))
  | _, .acquireLease .. => .isTrue trivial
  | _, .renewLease .. => .isTrue trivial
  | _, .expireLeases .. => .isTrue trivial

theorem get_leases_release (s : OwnershipState) (key : String) (i : UInt64) :
    (s.apply (.releaseLease key)).leases[i]? =
      if s.keyLeases[key]? = some i then none else s.leases[i]? := by
  simp only [OwnershipState.apply]
  split
  · rename_i id hid
    simp [Table.get_erase, hid]
  · rename_i hid
    simp [hid]

theorem ownRelease_iff {s : OwnershipState} {node : NodeId} {key : String} {timestamp : UInt64} :
    OwnRelease s (.releaseLease node key timestamp) ↔
      ∀ (i : UInt64) (l : LeaseEntry), s.leases[i]? = some l → l.key = key → l.owner ≠ node →
        timestamp < l.expiresAt → (s.apply (.releaseLease key)).leases[i]? = some l := by
  constructor
  · intro h i l hl hkey hne hlt
    rw [get_leases_release, if_neg, hl]
    intro hid
    rcases h l (holder_eq_some.mpr ⟨i, hid, hl⟩) hkey with hown | hexp
    · exact hne hown
    · exact not_le.mpr hlt hexp
  · intro h l hl hkey
    obtain ⟨i, hid, hi⟩ := holder_eq_some.mp hl
    by_contra hor
    simp only [not_or, not_le] at hor
    have hkept := h i l hi hkey hor.1 hor.2
    rw [get_leases_release, if_pos hid] at hkept
    cases hkept

/-- Releases spare the unexpired leases of other nodes throughout a history exactly if
each of them meets its caller's own lease, an expired one, or none. -/
theorem releasesSpare_iff (calls : List LeaseCall) :
    ReleasesSpare calls ↔ Along call OwnRelease new calls := by
  rw [along_iff_forall_split]
  constructor
  · intro h pre c post hsplit
    cases c with
    | releaseLease node key timestamp =>
      refine ownRelease_iff.mpr fun i l hl hkey hne hlt => ?_
      have hkept := h pre post node key timestamp hsplit i l hl hkey hne hlt
      rwa [exec_append] at hkept
    | _ => trivial
  · intro h pre post node key timestamp hsplit i l hl hkey hne hlt
    rw [exec_append]
    exact ownRelease_iff.mp (h pre _ post hsplit) i l hl hkey hne hlt

/-- A node that releases late, after its lease expired and another node acquired the
key, removes the other node's lease. -/
theorem late_release_removes_lease :
    let calls : List LeaseCall :=
      [.acquireLease 1 "a" 0 1 0, .acquireLease 2 "a" 1 10 2000000000,
        .releaseLease 1 "a" 3000000000]
    (calls.map LeaseCall.time).Pairwise (· ≤ ·) ∧ ¬ ReleasesSpare calls := by
  refine ⟨by decide, fun h => ?_⟩
  have hkept := h [.acquireLease 1 "a" 0 1 0, .acquireLease 2 "a" 1 10 2000000000] [] 1 "a"
    3000000000 rfl 1 (.acquired "a" 2 1 10 2000000000) (by decide +kernel) rfl (by decide)
    (by decide)
  exact absurd hkept (by decide +kernel)

end Release

end DumbDistributedLog
