import DumbDistributedLog.Ownership.Holders

/-! # Lease exclusion

Once a key has been granted it should not be granted again, short of a release,
before the lease expires. Between the two grants the lease is followed through its
renewals. In runs with ordered clocks, distinct ids and safe sweeps the lease stays
the holder of its key, so an earlier acquisition is rejected.
-/

namespace DumbDistributedLog

open OwnershipState Runs

variable {s : OwnershipState} {cmds : List OwnershipCommand} {l : LeaseEntry}

/-- A key that is granted twice without a release in between is granted the second
time only when the first lease, renewals included, has expired. -/
def LeaseExclusion (cmds : List OwnershipCommand) : Prop :=
  ∀ (pre mid post : List OwnershipCommand) (first second : OwnershipCommand) (l l' : LeaseEntry),
    cmds = pre ++ first :: (mid ++ second :: post) →
    (exec apply new pre).grantedLease first = some l →
    OwnershipCommand.releaseLease l.key ∉ mid →
    (exec apply new (pre ++ first :: mid)).grantedLease second = some l' → l'.key = l.key →
    (exec LeaseEntry.after l mid).expiresAt ≤ l'.acquiredAt

theorem event_times_sublist (cmds : List OwnershipCommand) :
    ((cmds.map OwnershipCommand.event).filterMap Grants.Event.time).Sublist
      (cmds.filterMap OwnershipCommand.time) := by
  induction cmds with
  | nil => exact .slnil
  | cons c cmds ih =>
    cases c with
    | claimTopic topic nodeId timestamp => exact ih.cons timestamp
    | acquireLease key owner leaseId ttlSecs timestamp => exact ih.cons_cons timestamp
    | renewLease leaseId timestamp => exact ih.cons_cons timestamp
    | expireLeases now => exact ih.cons_cons now
    | _ => exact ih

theorem KeyIndex.holder_unexpired {now : UInt64} (h : KeyIndex s) (hl : s.holder l.key = some l)
    (hc : Along apply Orderly s cmds) (hr : OwnershipCommand.releaseLease l.key ∉ cmds)
    (ht : (cmds.filterMap OwnershipCommand.time).Pairwise (· ≤ ·))
    (hle : ∀ t ∈ cmds.filterMap OwnershipCommand.time, t ≤ now)
    (hnow : now < (Runs.exec LeaseEntry.after l cmds).expiresAt) :
    (Runs.exec apply s cmds).holder l.key = some (Runs.exec LeaseEntry.after l cmds) := by
  have hsub := event_times_sublist cmds
  rw [exec_after] at hnow ⊢
  rw [h.holder_exec hc]
  refine Grants.exclusion hl (fun e he => ?_) (ht.sublist hsub) (fun t ht => hle t (hsub.subset ht))
    hnow
  obtain ⟨c, hc, rfl⟩ := List.mem_map.mp he
  cases c with
  | releaseLease key =>
    intro heq
    cases heq
    exact hr hc
  | _ => exact fun heq => by cases heq

/-- With ordered clocks and distinct ids, leases exclude each other in every run whose
sweeps meet no key with an expired record beside an unexpired current lease. -/
theorem leaseExclusion_of_safe_sweeps (cmds : List OwnershipCommand)
    (ht : (cmds.filterMap OwnershipCommand.time).Pairwise (· ≤ ·))
    (hid : (new.acceptedIds cmds).Nodup) (hs : Along apply SweepsSafely new cmds) :
    LeaseExclusion cmds := by
  rintro pre mid post first second l l' rfl hfirst hr hsecond hkey
  have ho : Along apply Orderly new _ := (along_takesFreeId_new hid).and hs
  simp only [along_append, along_cons] at ho
  obtain ⟨hpre, hone, hmid, -⟩ := ho
  have hk : KeyIndex (exec apply new pre) := keyIndex_new.exec hpre
  have hk' : KeyIndex ((exec apply new pre).apply first) := hk.perform (.apply first) hone.1
  obtain ⟨hc, -, ha⟩ := grantedLease_eq_some hsecond
  have hsub : (mid ++ [second]).Sublist (pre ++ first :: (mid ++ second :: post)) := by
    refine List.Sublist.trans ?_ (List.sublist_append_right pre _)
    exact ((List.singleton_sublist.mpr List.mem_cons_self).append_left mid).cons first
  have hmids := ht.sublist (hsub.filterMap OwnershipCommand.time)
  rw [List.filterMap_append, List.pairwise_append] at hmids
  have hle : ∀ t ∈ mid.filterMap OwnershipCommand.time, t ≤ l'.acquiredAt := fun t hmem =>
    hmids.2.2 t hmem l'.acquiredAt (by rw [hc]; exact List.mem_singleton_self _)
  by_contra hlt
  have hkept := hk'.holder_unexpired (holder_granted hfirst) hmid hr hmids.1 hle (not_le.mp hlt)
  rw [exec_append, exec_cons, hkey] at ha
  exact hlt (accepts_iff.mp ha _ hkept)

theorem leaseExclusion_renewed_lease :
    let cmds : List OwnershipCommand :=
      [.acquireLease "a" 1 0 1 0, .acquireLease "b" 2 1 1 0, .renewLease 0 500000000,
        .expireLeases 1200000000, .acquireLease "a" 2 2 1 1400000000]
    (cmds.filterMap OwnershipCommand.time).Pairwise (· ≤ ·) ∧ (new.acceptedIds cmds).Nodup ∧
      Along apply SweepsSafely new cmds ∧ LeaseExclusion cmds :=
  ⟨by decide, by decide +kernel, by decide +kernel,
    leaseExclusion_of_safe_sweeps _ (by decide) (by decide +kernel) (by decide +kernel)⟩

/-- The sweep takes the lease of a key granted over an expired one, and the key is
granted a third time while that lease would still last. -/
theorem sweep_breaks_leaseExclusion :
    let cmds : List OwnershipCommand :=
      [.acquireLease "a" 1 0 1 0, .acquireLease "a" 2 1 10 2000000000,
        .expireLeases 3000000000, .acquireLease "a" 3 2 10 4000000000]
    (cmds.filterMap OwnershipCommand.time).Pairwise (· ≤ ·) ∧ (new.acceptedIds cmds).Nodup ∧
      ¬ LeaseExclusion cmds := by
  refine ⟨by decide, by decide, fun h => ?_⟩
  have hle := h [.acquireLease "a" 1 0 1 0] [.expireLeases 3000000000] []
    (.acquireLease "a" 2 1 10 2000000000) (.acquireLease "a" 3 2 10 4000000000)
    (.acquired "a" 2 1 10 2000000000) (.acquired "a" 3 2 10 4000000000)
    rfl (by decide) (by decide) (by decide) rfl
  exact absurd hle (by decide)

end DumbDistributedLog
