import DumbDistributedLog.Ownership.Leases
import DumbDistributedLog.Storage.Machine

/-! # What the storage operations do

Applying a batch replays its commands on the ownership state; answering a sweep sweeps
a second time, which finds nothing. An installed snapshot replaces the ownership state
and never touches the log, the applied position or the membership.
-/

namespace DumbDistributedLog

def Entry.command (entry : Entry) : Option OwnershipCommand :=
  match entry.payload with
  | .normal cmd => some cmd
  | _ => none

/-- The membership that an entry brings, with the position it takes effect at. -/
def Entry.storedMembership (entry : Entry) : Option StoredMembership :=
  match entry.payload with
  | .membership m => some ⟨some entry.logId, m⟩
  | _ => none

def OwnershipState.replay (s : OwnershipState) (entries : List Entry) : OwnershipState :=
  (entries.filterMap Entry.command).foldl OwnershipState.apply s

theorem OwnershipState.replay_append (s : OwnershipState) (entries rest : List Entry) :
    s.replay (entries ++ rest) = (s.replay entries).replay rest := by
  simp [replay]

theorem OwnershipState.replay_of_no_command {s : OwnershipState} {entries : List Entry}
    (h : ∀ e ∈ entries, e.command = none) : s.replay entries = s := by
  have hnil : entries.filterMap Entry.command = [] := List.filterMap_eq_nil_iff.mpr h
  rw [replay, hnil, List.foldl_nil]

theorem OwnershipState.respond_apply (s : OwnershipState) (cmd : OwnershipCommand) :
    ((s.apply cmd).respond cmd).1 = s.apply cmd := by
  cases cmd with
  | expireLeases now =>
    change (((s.apply (.expireLeases now)).expiredKeys now).foldl forgetKey _) = _
    rw [expiredKeys_apply, List.foldl_nil]
  | _ => rfl

namespace AutoqueuesRaftStorage

variable (s : AutoqueuesRaftStorage)

theorem applyEntry_eq (entry : Entry) : (s.applyEntry entry).1 =
    { s with
      lastApplied := some entry.logId
      ownershipState := s.ownershipState.replay [entry]
      dirty := s.dirty || entry.command.isSome } := by
  cases hp : entry.payload with
  | normal cmd =>
    have hc : entry.command = some cmd := by rw [Entry.command, hp]
    simp [applyEntry, hp, OwnershipState.replay, hc, OwnershipState.respond_apply]
  | blank =>
    have hc : entry.command = none := by rw [Entry.command, hp]
    simp [applyEntry, hp, OwnershipState.replay, hc]
  | membership m =>
    have hc : entry.command = none := by rw [Entry.command, hp]
    simp [applyEntry, hp, OwnershipState.replay, hc]

theorem applyEntries_eq (entries : List Entry) : (s.applyEntries entries).1 =
    { s with
      lastApplied := (entries.getLast?.map Entry.logId).or s.lastApplied
      ownershipState := s.ownershipState.replay entries
      dirty := s.dirty || entries.any fun e => e.command.isSome } := by
  induction entries generalizing s with
  | nil => simp [applyEntries, OwnershipState.replay]
  | cons e entries ih =>
    rw [applyEntries, ih, applyEntry_eq, List.getLast?_cons]
    have hreplay := s.ownershipState.replay_append [e] entries
    cases entries.getLast? <;> simp [← hreplay, Bool.or_assoc]

/-- A batch is applied in memory whatever becomes of the flush, which clears the flag. -/
theorem applyToStateMachine_eq (entries : List Entry) (flush : Except StorageError Unit) :
    (s.applyToStateMachine entries flush).1 =
      let applied := (s.applyEntries entries).1
      { applied with dirty := applied.dirty && !(applied.dataFile.isSome && flush.isOk) } := by
  simp only [applyToStateMachine]
  split
  · rename_i h
    simp only [Bool.and_eq_true] at h
    cases flush with
    | error e => simp [Except.isOk, Except.toBool]
    | ok u => simp [Except.isOk, Except.toBool, h.1]
  · rename_i h
    simp only [Bool.and_eq_true, not_and, Bool.not_eq_true] at h
    cases hf : (s.applyEntries entries).1.dataFile.isSome with
    | false => simp
    | true =>
      have hclean := h hf
      rw [hclean, Bool.false_and, ← hclean]

theorem ownershipState_applyToStateMachine (entries : List Entry)
    (flush : Except StorageError Unit) :
    (s.applyToStateMachine entries flush).1.ownershipState = s.ownershipState.replay entries := by
  rw [applyToStateMachine_eq, applyEntries_eq]

section Install

variable (decode : List UInt8 → Except String OwnershipState) (snapshotMeta : SnapshotMeta)
  (data : List UInt8) (flush : Except StorageError Unit)

theorem installSnapshot_eq : ∃ state dirty snapshot,
    (s.installSnapshot decode snapshotMeta data flush).1 =
      { s with
        snapshotMeta := some snapshotMeta
        ownershipState := state
        dirty
        snapshot } := by
  simp only [installSnapshot]
  split
  · exact ⟨_, _, _, rfl⟩
  · split
    · exact ⟨_, _, _, rfl⟩
    · split
      · split <;> exact ⟨_, _, _, rfl⟩
      · exact ⟨_, _, _, rfl⟩

theorem snapshot_installSnapshot :
    (s.installSnapshot decode snapshotMeta data flush).1.snapshot =
      if (s.installSnapshot decode snapshotMeta data flush).2 = .ok () then
        some ⟨snapshotMeta, data⟩
      else s.snapshot := by
  simp only [installSnapshot]
  split
  · simp
  · split
    · simp
    · split
      · split <;> simp
      · simp

/-- Data that decode replace the state even if they cannot be written. -/
theorem ownershipState_installSnapshot {state : OwnershipState} (hne : data ≠ [])
    (hdata : decode data = .ok state) :
    (s.installSnapshot decode snapshotMeta data flush).1.ownershipState = state := by
  have hempty : data.isEmpty = false := by simpa using hne
  simp only [installSnapshot, hempty, hdata, Bool.false_eq_true, if_false]
  split
  · split <;> rfl
  · rfl

end Install

end AutoqueuesRaftStorage

end DumbDistributedLog
