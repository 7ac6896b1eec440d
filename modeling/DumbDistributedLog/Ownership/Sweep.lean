import DumbDistributedLog.Ownership.Leases

/-! # The expiry sweep

The sweep is meant to remove the expired records and nothing else. It removes by
key, so it is exact precisely when no key has an expired record beside an unexpired
one. A key granted over an expired lease is in that situation until its next sweep.
-/

namespace DumbDistributedLog

open OwnershipState Runs

variable {s s' : OwnershipState} {now : UInt64}

/-- The second state is the first without its expired leases. -/
structure Swept (now : UInt64) (s s' : OwnershipState) : Prop where
  leases : ∀ (i : UInt64) (l : LeaseEntry),
    s'.leases[i]? = some l ↔ s.leases[i]? = some l ∧ now < l.expiresAt
  kept : ∀ k info, s.getLeaseInfo k = some info → now < info.expiresAt →
    s'.getLeaseInfo k = some info
  gone : ∀ k, (∀ info, s.getLeaseInfo k = some info → info.expiresAt ≤ now) →
    s'.getLeaseInfo k = none

/-- The sweep, as a command and as a method, removes the expired leases and the
method counts them. -/
structure SweepsExactly (s : OwnershipState) (now : UInt64) : Prop where
  command : Swept now s (s.apply (.expireLeases now))
  method : Swept now s (s.expireLeases now).1
  count : (s.expireLeases now).2 = s.leases.size - (s.expireLeases now).1.leases.size

/-- The records of a key have all expired or none has. -/
def ExpireTogether (s : OwnershipState) (now : UInt64) : Prop :=
  ∀ a ∈ s.leases.values, ∀ b ∈ s.leases.values,
    a.key = b.key → a.expiresAt ≤ now → b.expiresAt ≤ now

instance : Decidable (ExpireTogether s now) :=
  inferInstanceAs (Decidable (∀ a ∈ s.leases.values, ∀ b ∈ s.leases.values,
    a.key = b.key → a.expiresAt ≤ now → b.expiresAt ≤ now))

theorem ExpireTogether.key_mem_iff (h : ExpireTogether s now) {l : LeaseEntry}
    (hl : l ∈ s.leases.values) : l.key ∈ s.expiredKeys now ↔ l.expiresAt ≤ now :=
  key_mem_expiredKeys_iff hl fun a ha hkey hexp => h a ha l hl hkey hexp

theorem leases_sweep (s : OwnershipState) (now : UInt64) : (s.apply (.expireLeases now)).leases =
    s.leases.filter fun _ l => l.key ∉ s.expiredKeys now := by
  refine Std.ExtTreeMap.ext_getElem? fun i => ?_
  rw [Table.get_filter]
  exact get_leases_forget _

theorem ExpireTogether.count (h : ExpireTogether s now) :
    (s.expiredKeys now).length = s.leases.size - (s.apply (.expireLeases now)).leases.size := by
  have hlen := List.length_eq_countP_add_countP
    (fun p : UInt64 × LeaseEntry => decide (p.2.expiresAt ≤ now)) (l := s.leases.toList)
  have hkeys : (s.expiredKeys now).length =
      s.leases.toList.countP fun p => p.2.expiresAt ≤ now := by
    rw [expiredKeys, List.length_map, ← List.countP_eq_length_filter, Table.values_eq,
      List.countP_map]
    rfl
  have hrest : (s.apply (.expireLeases now)).leases.size =
      s.leases.toList.countP fun p => ¬ p.2.expiresAt ≤ now := by
    rw [leases_sweep, Table.size_filter, ← List.countP_eq_length_filter]
    refine List.countP_congr fun p hp => ?_
    have hv : p.2 ∈ s.leases.values := by
      rw [Table.values_eq]
      exact List.mem_map_of_mem hp
    simp [h.key_mem_iff hv]
  rw [hkeys, hrest, ← Std.ExtTreeMap.length_toList, hlen]
  simp

theorem ExpireTogether.sweepSafe (hk : KeyIndex s) (h : ExpireTogether s now) :
    SweepSafe s now := by
  intro l hl hexp l' hl'
  obtain ⟨_, hget, hkey⟩ := hk.holder hl'
  exact h l hl l' ((Table.mem_values _).mpr ⟨_, hget⟩) hkey.symm hexp

theorem ExpireTogether.swept (hk : KeyIndex s) (h : ExpireTogether s now) :
    Swept now s (s.apply (.expireLeases now)) := by
  have hmem : ∀ {i : UInt64} {l : LeaseEntry}, s.leases[i]? = some l →
      (l.key ∈ s.expiredKeys now ↔ l.expiresAt ≤ now) := fun hl =>
    h.key_mem_iff ((Table.mem_values _).mpr ⟨_, hl⟩)
  have hholder : ∀ k, (s.apply (.expireLeases now)).holder k =
      (s.holder k).filter fun l => now < l.expiresAt := hk.holder_sweep (h.sweepSafe hk)
  refine ⟨fun i l => ?_, fun k info hinfo hlt => ?_, fun k hall => ?_⟩
  · refine get_leases_forget_eq_some.trans ?_
    constructor
    · rintro ⟨hl, hn⟩
      exact ⟨hl, not_le.mp fun hc => hn ((hmem hl).mpr hc)⟩
    · rintro ⟨hl, hlt⟩
      exact ⟨hl, fun hc => not_le.mpr hlt ((hmem hl).mp hc)⟩
  · obtain ⟨l, hl, rfl⟩ := Option.map_eq_some_iff.mp hinfo
    have hlt' : now < l.expiresAt := hlt
    simp [getLeaseInfo, hholder, hl, Option.filter, hlt']
  · cases hl : s.holder k with
    | none => simp [getLeaseInfo, hholder, hl]
    | some l =>
      have hle : l.expiresAt ≤ now := hall _ (by rw [getLeaseInfo, hl]; rfl)
      simp [getLeaseInfo, hholder, hl, Option.filter, hle]

theorem Swept.expireTogether (h : Swept now s (s.apply (.expireLeases now))) :
    ExpireTogether s now := by
  intro a ha b hb hkey hexp
  obtain ⟨i, hi⟩ := (Table.mem_values _).mp hb
  by_contra hlt
  have hkept := get_leases_forget_eq_some.mp ((h.leases i b).mpr ⟨hi, not_le.mp hlt⟩)
  exact hkept.2 (mem_expiredKeys.mpr ⟨a, ha, hexp, hkey⟩)

/-- In every state reached with distinct lease ids, the sweep removes exactly the
expired leases if and only if the records of each key expire together. -/
theorem sweepsExactly_iff_expireTogether (cmds : List OwnershipCommand)
    (hd : (cmds.filterMap OwnershipCommand.leaseId).Nodup) (now : UInt64) :
    SweepsExactly (exec OwnershipState.apply new cmds) now ↔
      ExpireTogether (exec OwnershipState.apply new cmds) now := by
  have hk := keyIndex_exec (hd.sublist (acceptedIds_sublist new cmds))
  constructor
  · intro h
    exact h.command.expireTogether
  · intro h
    exact ⟨h.swept hk, h.swept hk, h.count⟩

theorem sweepsExactly_two_keys :
    let cmds : List OwnershipCommand :=
      [.acquireLease "a" 1 0 1 0, .acquireLease "b" 2 1 10 0]
    (cmds.filterMap OwnershipCommand.leaseId).Nodup ∧
      SweepsExactly (exec OwnershipState.apply new cmds) 2000000000 :=
  ⟨by decide, (sweepsExactly_iff_expireTogether _ (by decide) _).mpr (by decide)⟩

/-- A key granted again after its lease expired loses its new lease to the sweep. -/
theorem sweep_removes_regranted_lease :
    let cmds : List OwnershipCommand :=
      [.acquireLease "a" 1 0 1 0, .acquireLease "a" 2 1 10 2000000000]
    (cmds.filterMap OwnershipCommand.leaseId).Nodup ∧
      ¬ SweepsExactly (exec OwnershipState.apply new cmds) 3000000000 := by
  refine ⟨by decide, fun h => ?_⟩
  exact absurd h.command.expireTogether (by decide)

end DumbDistributedLog
