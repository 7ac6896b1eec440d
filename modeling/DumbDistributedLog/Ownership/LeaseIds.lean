import DumbDistributedLog.Ownership.Boundaries
import DumbDistributedLog.Ownership.Holders
import DumbDistributedLog.Ownership.OneLease

/-! # The lease id counter

Ids come from a counter that stays above every id it has handed out and above every id
that a command has brought in. A command may bring in any word, also the greatest, above
which there is none: the counter then wraps and starts again from zero. Ids are unique
over a run exactly if the counter is never asked to go beyond the greatest word.
-/

namespace DumbDistributedLog

open OwnershipState Runs

variable {s : OwnershipState} {op : MachineOp} {key : String} {timestamp : UInt64}

namespace OwnershipState

theorem acquireLease_of_accepts (owner : NodeId) (ttlSecs : UInt64) (h : s.Accepts key timestamp) :
    s.acquireLease key owner ttlSecs timestamp =
      (s.apply (.acquireLease key owner s.nextLeaseId ttlSecs timestamp), .ok s.nextLeaseId) := by
  have hlive : s.liveLease key timestamp = none := h
  simp only [acquireLease, apply, hlive, drawLeaseId, ge_iff_le, le_refl, if_true]
  rfl

def returnedId (s : OwnershipState) : MachineOp → Option UInt64
  | .acquireLease key owner ttlSecs timestamp =>
    (s.acquireLease key owner ttlSecs timestamp).2.toOption
  | .nextLeaseId => some s.drawLeaseId.1
  | _ => none

def acceptedId (s : OwnershipState) : MachineOp → Option UInt64
  | .apply cmd => (s.grantedLease cmd).map LeaseEntry.id
  | _ => none

def incremented (s : OwnershipState) : MachineOp → Option UInt64
  | .apply (.acquireLease key _ leaseId _ timestamp) =>
    if s.Accepts key timestamp ∧ leaseId ≥ s.nextLeaseId then some leaseId else none
  | .acquireLease key _ _ timestamp =>
    if s.Accepts key timestamp then some s.nextLeaseId else none
  | .nextLeaseId => some s.nextLeaseId
  | _ => none

/-- No accepted command carries the greatest word, and no id is drawn when the counter
has reached it. -/
def BelowLimit (s : OwnershipState) : MachineOp → Prop
  | .apply (.acquireLease key _ leaseId _ timestamp) =>
    s.Accepts key timestamp → leaseId ≠ U64.maxValue
  | .acquireLease key _ _ timestamp => s.Accepts key timestamp → s.nextLeaseId ≠ U64.maxValue
  | .nextLeaseId => s.nextLeaseId ≠ U64.maxValue
  | _ => True

instance (s : OwnershipState) : DecidablePred s.BelowLimit
  | .apply (.acquireLease key _ leaseId _ timestamp) =>
    inferInstanceAs (Decidable (s.Accepts key timestamp → leaseId ≠ U64.maxValue))
  | .acquireLease key _ _ timestamp =>
    inferInstanceAs (Decidable (s.Accepts key timestamp → s.nextLeaseId ≠ U64.maxValue))
  | .nextLeaseId => inferInstanceAs (Decidable (s.nextLeaseId ≠ U64.maxValue))
  | .apply (.claimTopic ..) | .apply (.releaseTopic ..) | .apply (.transferTopic ..)
  | .apply (.renewLease ..) | .apply (.releaseLease ..) | .apply (.expireLeases ..)
  | .expireLeases .. => .isTrue trivial

end OwnershipState

/-- A state with the ids that were returned or accepted so far. -/
structure Issuing where
  state : OwnershipState
  used : List UInt64

namespace Issuing

def new : Issuing := ⟨.new, []⟩

def step (d : Issuing) (op : MachineOp) : Issuing where
  state := d.state.perform op
  used := d.used ++ (d.state.returnedId op).toList ++ (d.state.acceptedId op).toList

/-- No addition overflows, and a returned id has not been used before. -/
def Fresh (d : Issuing) (op : MachineOp) : Prop :=
  (∀ w ∈ d.state.incremented op, w.toNat + 1 < 2 ^ 64) ∧
    ∀ id ∈ d.state.returnedId op, id ∉ d.used

/-- The counter is above every id that has been used. -/
def CounterAbove (d : Issuing) : Prop := ∀ id ∈ d.used, id < d.state.nextLeaseId

end Issuing

theorem lt_add_one_of_ne {w : UInt64} (h : w ≠ U64.maxValue) : w < w + 1 := by
  rw [UInt64.lt_iff_toNat_lt, U64.toNat_add_one h]
  omega

theorem acquireLease_of_not_accepts (owner : NodeId) (ttlSecs : UInt64)
    (h : ¬ s.Accepts key timestamp) :
    ∃ existing, s.holder key = some existing ∧ timestamp < existing.expiresAt ∧
      s.acquireLease key owner ttlSecs timestamp =
        (s, .error (.leaseHeld key existing.owner)) := by
  obtain ⟨existing, hlive⟩ := Option.ne_none_iff_exists'.mp h
  obtain ⟨hholder, hexp⟩ := Option.filter_eq_some_iff.mp hlive
  refine ⟨existing, hholder, of_decide_eq_true hexp, ?_⟩
  simp only [acquireLease, hlive]

theorem nextLeaseId_forget (keys : List String) :
    (keys.foldl forgetKey s).nextLeaseId = s.nextLeaseId := by
  induction keys generalizing s with
  | nil => rfl
  | cons key keys ih => exact ih

/-- What an operation does to the counter, and which id it uses. -/
inductive CounterMove (s : OwnershipState) (op : MachineOp) : Prop where
  | keep (hinc : s.incremented op = none) (hret : s.returnedId op = none)
      (hacc : s.acceptedId op = none) (hlimit : s.BelowLimit op)
      (hnext : (s.perform op).nextLeaseId = s.nextLeaseId)
  | draw (hinc : s.incremented op = some s.nextLeaseId)
      (hret : s.returnedId op = some s.nextLeaseId) (hacc : s.acceptedId op = none)
      (hlimit : s.BelowLimit op ↔ s.nextLeaseId ≠ U64.maxValue)
      (hnext : (s.perform op).nextLeaseId = s.nextLeaseId + 1)
  | accept (leaseId : UInt64)
      (hinc : s.incremented op = if leaseId ≥ s.nextLeaseId then some leaseId else none)
      (hret : s.returnedId op = none) (hacc : s.acceptedId op = some leaseId)
      (hlimit : s.BelowLimit op ↔ leaseId ≠ U64.maxValue)
      (hnext : (s.perform op).nextLeaseId =
        if leaseId ≥ s.nextLeaseId then leaseId + 1 else s.nextLeaseId)

theorem counterMove_apply (s : OwnershipState) (c : OwnershipCommand) :
    CounterMove s (.apply c) := by
  cases c with
  | claimTopic topic nodeId timestamp =>
    refine .keep rfl rfl rfl trivial ?_
    simp only [perform, apply]
    split <;> rfl
  | releaseTopic topic nodeId =>
    refine .keep rfl rfl rfl trivial ?_
    simp only [perform, apply]
    split <;> rfl
  | transferTopic topic fromNode toNode =>
    refine .keep rfl rfl rfl trivial ?_
    simp only [perform, apply]
    split <;> rfl
  | acquireLease key owner leaseId ttlSecs timestamp =>
    by_cases ha : s.Accepts key timestamp
    · have hlive : s.liveLease key timestamp = none := ha
      refine .accept leaseId ?_ rfl ?_ ?_ ?_
      · simp only [incremented, ha, true_and]
      · simp only [acceptedId, grantedLease, ha, if_true, Option.map_some]
        rfl
      · exact ⟨fun h => h ha, fun h _ => h⟩
      · simp only [perform, apply, hlive]
    · have hgrant : s.grantedLease (.acquireLease key owner leaseId ttlSecs timestamp) = none :=
        if_neg ha
      refine .keep (if_neg fun h => ha h.1) rfl ?_ (fun h => absurd h ha) ?_
      · rw [acceptedId, hgrant, Option.map_none]
      · exact congrArg nextLeaseId (apply_acquireLease_of_not_accepts ha)
  | renewLease leaseId timestamp => exact .keep rfl rfl rfl trivial rfl
  | releaseLease key =>
    refine .keep rfl rfl rfl trivial ?_
    simp only [perform, apply]
    split <;> rfl
  | expireLeases now => exact .keep rfl rfl rfl trivial (nextLeaseId_forget _)

theorem counterMove (s : OwnershipState) (op : MachineOp) : CounterMove s op := by
  cases op with
  | apply c => exact counterMove_apply s c
  | acquireLease key owner ttlSecs timestamp =>
    by_cases ha : s.Accepts key timestamp
    · have heq := acquireLease_of_accepts owner ttlSecs ha
      refine .draw (if_pos ha) ?_ rfl ⟨fun h => h ha, fun h _ => h⟩ ?_
      · rw [returnedId, heq]
        rfl
      · have hlive : s.liveLease key timestamp = none := ha
        simp only [perform, acquireLease, hlive]
        rfl
    · obtain ⟨existing, -, -, heq⟩ :=
        acquireLease_of_not_accepts owner ttlSecs ha
      refine .keep (if_neg ha) ?_ rfl (fun h => absurd h ha) ?_
      · rw [returnedId, heq]
        rfl
      · rw [perform, heq]
  | expireLeases now => exact .keep rfl rfl rfl trivial (nextLeaseId_forget _)
  | nextLeaseId => exact .draw rfl rfl rfl Iff.rfl rfl

theorem acceptedId_eq_some {leaseId : UInt64} (h : s.acceptedId op = some leaseId) :
    op.commandId = some leaseId := by
  cases op with
  | apply c =>
    obtain ⟨l, hl, rfl⟩ := Option.map_eq_some_iff.mp h
    obtain ⟨hc, -, -⟩ := grantedLease_eq_some hl
    rw [hc]
    rfl
  | _ => cases h

theorem along_belowLimit {ops : List MachineOp}
    (hnext : s.nextLeaseId.toNat + ops.length < 2 ^ 64)
    (hids : ∀ id ∈ ops.filterMap MachineOp.commandId, id.toNat + ops.length < 2 ^ 64) :
    Along perform BelowLimit s ops := by
  induction ops generalizing s with
  | nil => trivial
  | cons op ops ih =>
    rw [List.length_cons] at hnext hids
    have hrest : ∀ id ∈ ops.filterMap MachineOp.commandId, id.toNat + ops.length < 2 ^ 64 := by
      intro id hid
      have hmem : id ∈ (op :: ops).filterMap MachineOp.commandId := by
        rw [List.filterMap_cons]
        split
        · exact hid
        · exact List.mem_cons_of_mem _ hid
      have := hids id hmem
      omega
    cases counterMove s op with
    | keep hinc hret hacc hlimit hkept =>
      refine ⟨hlimit, ih ?_ hrest⟩
      rw [hkept]
      omega
    | draw hinc hret hacc hlimit hdrawn =>
      have hne : s.nextLeaseId ≠ U64.maxValue := U64.toNat_add_one_lt_iff.mp (by omega)
      refine ⟨hlimit.mpr hne, ih ?_ hrest⟩
      rw [hdrawn, U64.toNat_add_one hne]
      omega
    | accept leaseId hinc hret hacc hlimit hmoved =>
      have hid := hids leaseId (List.mem_filterMap.mpr
        ⟨op, List.mem_cons_self, acceptedId_eq_some hacc⟩)
      have hne : leaseId ≠ U64.maxValue := U64.toNat_add_one_lt_iff.mp (by omega)
      refine ⟨hlimit.mpr hne, ih ?_ hrest⟩
      rw [hmoved]
      split
      · rw [U64.toNat_add_one hne]
        omega
      · omega

namespace Issuing

variable {d : Issuing}

theorem CounterAbove.fresh_iff (h : d.CounterAbove) (op : MachineOp) :
    d.Fresh op ↔ d.state.BelowLimit op := by
  unfold Fresh
  cases counterMove d.state op with
  | keep hinc hret hacc hlimit hnext => simp [hinc, hret, hlimit]
  | draw hinc hret hacc hlimit hnext =>
    have hfresh : d.state.nextLeaseId ∉ d.used := fun hmem => lt_irrefl _ (h _ hmem)
    simp only [hinc, hret, hlimit, Option.mem_def, Option.some.injEq, forall_eq',
      U64.toNat_add_one_lt_iff, hfresh, not_false_eq_true, and_true]
  | accept leaseId hinc hret hacc hlimit hnext =>
    rw [hinc, hret, hlimit, ← U64.toNat_add_one_lt_iff]
    split
    · simp
    · rename_i hlt
      have hne : leaseId ≠ U64.maxValue := by
        rintro rfl
        exact hlt (UInt64.le_iff_toNat_le.mpr (Nat.le_of_lt_succ d.state.nextLeaseId.toNat_lt))
      rw [U64.toNat_add_one_lt_iff]
      simp [hne]

theorem CounterAbove.step (h : d.CounterAbove) (hop : d.state.BelowLimit op) :
    (d.step op).CounterAbove := by
  intro id hid
  change id < (d.state.perform op).nextLeaseId
  simp only [Issuing.step, List.mem_append, Option.mem_toList] at hid
  cases counterMove d.state op with
  | keep hinc hret hacc hlimit hnext =>
    rw [hret, hacc] at hid
    rw [hnext]
    exact h id (by simpa using hid)
  | draw hinc hret hacc hlimit hnext =>
    have hlt := lt_add_one_of_ne (hlimit.mp hop)
    rw [hret, hacc] at hid
    rw [hnext]
    rcases hid with (hid | hid) | hid
    · exact (h id hid).trans hlt
    · exact Option.some.inj hid ▸ hlt
    · cases hid
  | accept leaseId hinc hret hacc hlimit hnext =>
    have hlt := lt_add_one_of_ne (hlimit.mp hop)
    rw [hret, hacc] at hid
    rw [hnext]
    rcases hid with (hid | hid) | hid
    · split
      · rename_i hle
        exact (h id hid).trans (lt_of_le_of_lt hle hlt)
      · exact h id hid
    · cases hid
    · obtain rfl := Option.some.inj hid
      split
      · exact hlt
      · rename_i hle
        exact not_le.mp hle

theorem counterAbove_new : new.CounterAbove := by
  intro id hid
  cases hid

end Issuing

/-- As a call and as a command that carries the counter's id, an acquisition is granted in
the same states, under the same id and with the same outcome; a refused call changes nothing
and names the owner of the lease in its way. -/
theorem acquisition_paths_coincide (s : OwnershipState) (key : String) (owner : NodeId)
    (ttlSecs timestamp : UInt64) :
    let call := s.acquireLease key owner ttlSecs timestamp
    (∀ i, call.2 = .ok i ↔ s.Accepts key timestamp ∧ i = s.nextLeaseId) ∧
    (∀ i, call.2 = .ok i →
      call.1 = s.apply (.acquireLease key owner s.nextLeaseId ttlSecs timestamp)) ∧
    ∀ e, call.2 = .error e → call.1 = s ∧ ∃ existing, s.holder key = some existing ∧
      timestamp < existing.expiresAt ∧ e = .leaseHeld key existing.owner := by
  intro call
  by_cases ha : s.Accepts key timestamp
  · have heq : call = _ := acquireLease_of_accepts owner ttlSecs ha
    rw [heq]
    refine ⟨fun i => ?_, fun i _ => rfl, fun e he => by cases he⟩
    simp [ha, eq_comm]
  · obtain ⟨existing, hholder, hexp, heq⟩ := acquireLease_of_not_accepts owner ttlSecs ha
    have heq : call = _ := heq
    rw [heq]
    refine ⟨fun i => by simp [ha], fun i hi => (by cases hi), fun e he => ⟨rfl, ?_⟩⟩
    exact ⟨existing, hholder, hexp, (Except.error.inj he).symm⟩

/-- Throughout a run nothing overflows and no id comes twice exactly if no accepted command
carries the greatest word and no id is drawn at the greatest word. -/
theorem lease_ids_unique_iff (ops : List MachineOp) :
    Along Issuing.step Issuing.Fresh .new ops ↔ Along perform BelowLimit new ops := by
  have hbelow : Along Issuing.step (fun d op => d.state.BelowLimit op) .new ops ↔
      Along perform BelowLimit new ops := along_comap fun _ _ => rfl
  rw [← hbelow]
  exact along_congr_of_inv (R := fun _ _ => True) (fun d op h _ hop => h.step hop)
    (fun d op h _ => h.fresh_iff op) Issuing.counterAbove_new (along_of_forall fun _ _ _ => trivial)

/-- A command with the greatest word as its id sets the counter back to zero, and the first
id is drawn a second time. -/
theorem greatest_id_restarts_counter :
    let ops : List MachineOp :=
      [.nextLeaseId, .apply (.acquireLease "a" 1 U64.maxValue 10 0), .nextLeaseId]
    new.returnedId .nextLeaseId = some 0 ∧
      (exec perform new (ops.take 2)).returnedId .nextLeaseId = some 0 ∧
      ¬ Along Issuing.step Issuing.Fresh .new ops := by
  intro ops
  refine ⟨rfl, by decide +kernel, ?_⟩
  rintro ⟨-, -, ⟨-, hfresh⟩, -⟩
  exact hfresh 0 (by decide +kernel) (by decide +kernel)

end DumbDistributedLog
