import Mathlib.Algebra.Group.Nat.Defs
import DumbDistributedLog.Ownership.Leases

/-! # The boundary of a lease

Five paths of the code compare the end of a lease with a clock: the validity check,
the two acquisitions, the renewal and the sweep. For a key with a single record they
all take the lease to be over from the same instant on.
-/

namespace DumbDistributedLog

open OwnershipState

theorem toNat_leaseExpiry (timestamp ttlSecs : UInt64) : (leaseExpiry timestamp ttlSecs).toNat =
    min (timestamp.toNat + ttlSecs.toNat * 1000000000) U64.maxValue.toNat := by
  rw [leaseExpiry, U64.toNat_saturatingAdd, U64.toNat_saturatingMul]
  change min (timestamp.toNat + min (ttlSecs.toNat * 1000000000) U64.maxValue.toNat) _ = _
  omega

namespace OwnershipState

variable {s : OwnershipState} {k : String} {i t leaseId ttlSecs : UInt64} {owner : NodeId}
  {l : LeaseEntry}

theorem isLeaseValid_iff : s.isLeaseValid i t ↔ ∃ l, s.leases[i]? = some l ∧ t < l.expiresAt := by
  unfold isLeaseValid
  cases s.leases[i]? <;> simp

theorem not_accepts_iff : ¬ s.Accepts k t ↔ ∃ l, s.holder k = some l ∧ t < l.expiresAt := by
  simp [accepts_iff]

theorem apply_acquireLease_of_not_accepts (h : ¬ s.Accepts k t) :
    s.apply (.acquireLease k owner leaseId ttlSecs t) = s := by
  obtain ⟨l, hl⟩ := Option.ne_none_iff_exists'.mp h
  simp only [apply, hl]

theorem apply_acquireLease_eq_self_iff (hfree : s.leases[leaseId]? = none) :
    s.apply (.acquireLease k owner leaseId ttlSecs t) = s ↔ ¬ s.Accepts k t := by
  refine ⟨fun heq ha => ?_, apply_acquireLease_of_not_accepts⟩
  have hnew : (s.apply (.acquireLease k owner leaseId ttlSecs t)).leases[leaseId]? =
      some (.acquired k owner leaseId ttlSecs t) := by
    have hlive : s.liveLease k t = none := ha
    simp only [apply, hlive, get_leases_grant]
    exact if_pos rfl
  rw [heq, hfree] at hnew
  cases hnew

theorem acquireLease_leaseHeld_iff :
    (∃ holder, (s.acquireLease k owner ttlSecs t).2 = .error (.leaseHeld k holder)) ↔
      ¬ s.Accepts k t := by
  unfold acquireLease Accepts
  cases s.liveLease k t <;> simp

theorem get_leases_renew (hl : s.leases[i]? = some l) :
    (s.apply (.renewLease i t)).leases[i]? = some (l.renew t) := by
  simp [apply, hl]

theorem apply_renewLease_eq_self (h : ∀ l, s.leases[i]? = some l → l.renew t = l) :
    s.apply (.renewLease i t) = s := by
  have hsame : (s.leases.modify i fun lease => lease.renew t) = s.leases := by
    ext j l
    rw [Table.get_modify]
    split
    · rename_i hij
      subst hij
      cases hl : s.leases[i]? with
      | none => rfl
      | some a => rw [Option.map_some, h a hl]
    · rfl
  exact congrArg (fun leases => { s with leases }) hsame

theorem apply_renewLease_eq_insert (hl : s.leases[i]? = some l) (ht : t < l.expiresAt) :
    s.apply (.renewLease i t) =
      { s with leases := s.leases.insert i { l with expiresAt := leaseExpiry t l.ttlSecs } } := by
  have hsame : (s.leases.modify i fun lease => lease.renew t) =
      s.leases.insert i { l with expiresAt := leaseExpiry t l.ttlSecs } := by
    ext j a
    rw [Table.get_modify, Table.get_insert]
    split
    · rw [hl, Option.map_some, LeaseEntry.renew, if_pos ht]
    · rfl
  exact congrArg (fun leases => { s with leases }) hsame

end OwnershipState

/-- The key names the record, which is the only one of the key. -/
structure SoleLease (s : OwnershipState) (k : String) (i : UInt64) (l : LeaseEntry) : Prop where
  named : s.keyLeases[k]? = some i
  stored : s.leases[i]? = some l
  key : l.key = k
  sole : ∀ (j : UInt64) (a : LeaseEntry), s.leases[j]? = some a → a.key = k → j = i

variable {s : OwnershipState} {k : String} {i t : UInt64} {l : LeaseEntry}

namespace SoleLease

theorem isLeaseValid_iff (h : SoleLease s k i l) : s.isLeaseValid i t ↔ t < l.expiresAt := by
  rw [OwnershipState.isLeaseValid_iff, h.stored]
  simp

theorem holder (h : SoleLease s k i l) : s.holder k = some l :=
  holder_eq_some.mpr ⟨i, h.named, h.stored⟩

theorem not_accepts_iff (h : SoleLease s k i l) : ¬ s.Accepts k t ↔ t < l.expiresAt := by
  rw [OwnershipState.not_accepts_iff, h.holder]
  simp

theorem mem_expiredKeys_iff (h : SoleLease s k i l) : k ∈ s.expiredKeys t ↔ l.expiresAt ≤ t := by
  obtain rfl := h.key
  refine key_mem_expiredKeys_iff ((Table.mem_values _).mpr ⟨i, h.stored⟩) fun a ha hkey hexp => ?_
  obtain ⟨j, hj⟩ := (Table.mem_values _).mp ha
  obtain rfl := h.sole j a hj hkey
  obtain rfl := Option.some.inj (hj.symm.trans h.stored)
  exact hexp

theorem getLeaseInfo_sweep_iff (h : SoleLease s k i l) :
    (s.apply (.expireLeases t)).getLeaseInfo k = s.getLeaseInfo k ↔ t < l.expiresAt := by
  have hinfo : s.getLeaseInfo k = some (.ofEntry l) := by rw [getLeaseInfo, h.holder]; rfl
  rw [← not_le, ← h.mem_expiredKeys_iff, hinfo]
  by_cases hk : k ∈ s.expiredKeys t
  · have hgone : (s.apply (.expireLeases t)).keyLeases[k]? = none :=
      (get_keyLeases_forget _).trans (if_pos hk)
    simp [getLeaseInfo, OwnershipState.holder, hgone, hk]
  · have hkept : (s.apply (.expireLeases t)).holder k = some l :=
      holder_eq_some.mpr ⟨i, get_keyLeases_forget_eq_some.mpr ⟨hk, h.named⟩,
        get_leases_forget_eq_some.mpr ⟨h.stored, h.key ▸ hk⟩⟩
    simp [getLeaseInfo, hkept, hk]

end SoleLease

theorem LeaseEntry.renew_expiresAt_iff (httl : 1 ≤ l.ttlSecs)
    (hterm : t.toNat + l.ttlSecs.toNat * 1000000000 < 2 ^ 64) :
    (l.renew t).expiresAt.toNat = t.toNat + l.ttlSecs.toNat * 1000000000 ↔ t < l.expiresAt := by
  have hmax : U64.maxValue.toNat = 18446744073709551615 := rfl
  unfold LeaseEntry.renew
  split
  · rename_i hlive
    refine iff_of_true ?_ hlive
    change (leaseExpiry t l.ttlSecs).toNat = _
    rw [toNat_leaseExpiry]
    omega
  · rename_i hexp
    refine iff_of_false ?_ hexp
    rw [gt_iff_lt, not_lt, UInt64.le_iff_toNat_le] at hexp
    rw [UInt64.le_iff_toNat_le, UInt64.toNat_one] at httl
    omega

/-- Validity, the acquisition as a command and as a call, the renewal and the sweep agree
on whether the only lease of a key is over. -/
theorem expiry_boundaries_agree (s : OwnershipState) (k : String) (i : UInt64) (l : LeaseEntry)
    (h : SoleLease s k i l) (t : UInt64) (httl : 1 ≤ l.ttlSecs)
    (hterm : t.toNat + l.ttlSecs.toNat * 1000000000 < 2 ^ 64) :
    (∀ owner leaseId ttlSecs, s.leases[leaseId]? = none →
      (s.isLeaseValid i t ↔ s.apply (.acquireLease k owner leaseId ttlSecs t) = s)) ∧
    (∀ owner ttlSecs, s.isLeaseValid i t ↔
      ∃ holder, (s.acquireLease k owner ttlSecs t).2 = .error (.leaseHeld k holder)) ∧
    (s.isLeaseValid i t ↔ ∃ renewed, (s.apply (.renewLease i t)).getLease i = some renewed ∧
      renewed.expiresAt.toNat = t.toNat + l.ttlSecs.toNat * 1000000000) ∧
    (s.isLeaseValid i t ↔ (s.apply (.expireLeases t)).getLeaseInfo k = s.getLeaseInfo k) := by
  rw [h.isLeaseValid_iff]
  refine ⟨fun owner leaseId ttlSecs hfree => ?_, fun owner ttlSecs => ?_, ?_, ?_⟩
  · rw [apply_acquireLease_eq_self_iff hfree, h.not_accepts_iff]
  · rw [acquireLease_leaseHeld_iff, h.not_accepts_iff]
  · rw [getLease, get_leases_renew h.stored, ← LeaseEntry.renew_expiresAt_iff httl hterm]
    simp
  · rw [h.getLeaseInfo_sweep_iff]

/-- A lease of one second taken at the start is over at its end and not before. -/
theorem expiry_boundaries_one_second :
    let s := new.apply (.acquireLease "a" 1 0 1 0)
    (s.apply (.expireLeases 999999999)).getLeaseInfo "a" = s.getLeaseInfo "a" ∧
      (s.apply (.expireLeases 1000000000)).getLeaseInfo "a" ≠ s.getLeaseInfo "a" := by
  intro s
  have h : SoleLease s "a" 0 (.acquired "a" 1 0 1 0) := by
    refine ⟨by decide +kernel, by decide +kernel, rfl, fun j a ha _ => ?_⟩
    have hmem : (j, a) ∈ s.leases.toList := Std.ExtTreeMap.mem_toList_iff_getElem?_eq_some.mpr ha
    have hone : s.leases.toList = [(0, .acquired "a" 1 0 1 0)] := by decide +kernel
    rw [hone] at hmem
    exact congrArg Prod.fst (List.mem_singleton.mp hmem)
  have hbefore := expiry_boundaries_agree s "a" 0 _ h 999999999 (by decide) (by decide)
  have hafter := expiry_boundaries_agree s "a" 0 _ h 1000000000 (by decide) (by decide)
  constructor
  · exact hbefore.2.2.2.mp (by decide +kernel)
  · intro heq
    exact absurd (hafter.2.2.2.mpr heq) (by decide +kernel)

end DumbDistributedLog
