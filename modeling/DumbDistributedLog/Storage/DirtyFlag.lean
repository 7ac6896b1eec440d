import DumbDistributedLog.Library.Runs
import DumbDistributedLog.Storage.Persistence

/-! # The dirty flag

A storage that is not dirty is taken to agree with its file. The operations of the storage
keep it so, whatever becomes of their writes. The node that owns the storage also draws lease
ids from the ownership state and sweeps it, and it does so without a word to the storage.
-/

namespace DumbDistributedLog

open AutoqueuesRaftStorage Runs

namespace AutoqueuesRaftStorage

def flushOwnershipState (s : AutoqueuesRaftStorage) (flush : Except StorageError Unit) :
    AutoqueuesRaftStorage × Except StorageError Unit :=
  if s.dirty then
    match flush with
    | .error e => (s, .error e)
    | .ok () => ({ s with dirty := false }, .ok ())
  else (s, .ok ())

end AutoqueuesRaftStorage

/-- The operations that change the ownership state or write it: those of the storage, and
those of the node, which reach behind it. -/
inductive StateOp where
  | applyToStateMachine (entries : List Entry) (attempt : FlushAttempt)
  | installSnapshot (snapshotMeta : SnapshotMeta) (data : List UInt8) (attempt : FlushAttempt)
  | flushOwnershipState (attempt : FlushAttempt)
  | nextLeaseId
  | expireLeases (now : UInt64)

namespace Opened

section Steps

variable (codecs : Oxicode) (o : Opened)

/-- The state is replaced before it is written. -/
def installSnapshot (snapshotMeta : SnapshotMeta) (data : List UInt8) (attempt : FlushAttempt) :
    Opened :=
  let (directory, flush) :=
    match codecs.state.decode data with
    | .ok state =>
      if !data.isEmpty && o.storage.dataFile.isSome then
        flushToFile codecs { o.storage with ownershipState := state } attempt o.directory
      else (o.directory, .ok ())
    | .error _ => (o.directory, .ok ())
  ⟨(o.storage.installSnapshot codecs.state.decode snapshotMeta data flush).1, directory⟩

def flushOwnershipState (attempt : FlushAttempt) : Opened :=
  let (directory, flush) :=
    if o.storage.dirty then o.storage.flushToFile codecs attempt o.directory
    else (o.directory, .ok ())
  ⟨(o.storage.flushOwnershipState flush).1, directory⟩

def reach (state : OwnershipState) : Opened :=
  { o with storage := { o.storage with ownershipState := state } }

def stateStep : StateOp → Opened
  | .applyToStateMachine entries attempt => o.applyToStateMachine codecs entries attempt
  | .installSnapshot snapshotMeta data attempt => o.installSnapshot codecs snapshotMeta data attempt
  | .flushOwnershipState attempt => o.flushOwnershipState codecs attempt
  | .nextLeaseId => o.reach o.storage.ownershipState.drawLeaseId.2
  | .expireLeases now => o.reach (o.storage.ownershipState.expireLeases now).1

/-- A clean storage agrees with its file, or is new if there is none. -/
def CleanSound : Prop :=
  o.storage.dirty = false → o.directory.loadState codecs = .ok o.storage.ownershipState

/-- An id is drawn only from a state that is dirty, and a clean state is swept only if no lease
has expired. -/
def Announced : StateOp → Prop
  | .nextLeaseId => o.storage.dirty = true
  | .expireLeases now =>
    o.storage.dirty = true ∨ ∀ l ∈ o.storage.ownershipState.leases.values, now < l.expiresAt
  | _ => True

instance : ∀ op, Decidable (o.Announced op)
  | .nextLeaseId => inferInstanceAs (Decidable (_ = _))
  | .expireLeases now => inferInstanceAs (Decidable
      (_ ∨ ∀ l ∈ o.storage.ownershipState.leases.values, now < l.expiresAt))
  | .applyToStateMachine _ _ | .installSnapshot _ _ _ | .flushOwnershipState _ => .isTrue trivial

end Steps

variable {codecs : Oxicode} {o : Opened}

theorem loadState_flushed {s : AutoqueuesRaftStorage} {attempt : FlushAttempt}
    {dir dir' : Directory} (hfile : s.dataFile.isSome)
    (h : s.flushToFile codecs attempt dir = (dir', .ok ())) :
    dir'.loadState codecs = .ok s.ownershipState := by
  obtain ⟨hdir, hok⟩ := flushToFile_of_isSome codecs dir hfile attempt
  rw [h] at hdir hok
  rw [← show true = attempt.written from hok] at hdir
  rw [show dir' = _ from hdir]
  exact loadState_encode s.ownershipState rfl

theorem CleanSound.applyToStateMachine (hfile : o.storage.dataFile.isSome)
    (hs : o.CleanSound codecs) (entries : List Entry) (attempt : FlushAttempt) :
    (o.applyToStateMachine codecs entries attempt).CleanSound codecs := by
  rw [applyToStateMachine_eq codecs hfile]
  intro hclean
  dsimp only at hclean ⊢
  cases hdirty : o.storage.dirty || entries.any fun e => e.command.isSome with
  | true =>
    have hwritten : attempt.written = true := by simpa [hdirty] using hclean
    rw [hwritten, Bool.and_self, if_pos rfl]
    exact loadState_encode _ rfl
  | false =>
    obtain ⟨hold, hnone⟩ := Bool.or_eq_false_iff.mp hdirty
    have hreplay : o.storage.ownershipState.replay entries = o.storage.ownershipState :=
      OwnershipState.replay_of_no_command (by simpa using hnone)
    rw [hreplay, Bool.false_and, if_neg Bool.false_ne_true]
    exact hs hold

theorem CleanSound.flushOwnershipState (hfile : o.storage.dataFile.isSome)
    (hs : o.CleanSound codecs) (attempt : FlushAttempt) :
    (o.flushOwnershipState codecs attempt).CleanSound codecs := by
  unfold Opened.flushOwnershipState AutoqueuesRaftStorage.flushOwnershipState
  cases hdirty : o.storage.dirty with
  | false => simpa [CleanSound, hdirty] using hs
  | true =>
    rcases hflush : o.storage.flushToFile codecs attempt o.directory with ⟨dir, e | ⟨⟩⟩
    · simp [CleanSound, hdirty]
    · intro _
      exact loadState_flushed hfile hflush

theorem CleanSound.installSnapshot (hfile : o.storage.dataFile.isSome)
    (hs : o.CleanSound codecs) (snapshotMeta : SnapshotMeta) (data : List UInt8)
    (attempt : FlushAttempt) :
    (o.installSnapshot codecs snapshotMeta data attempt).CleanSound codecs := by
  unfold Opened.installSnapshot AutoqueuesRaftStorage.installSnapshot
  cases hempty : data.isEmpty with
  | true =>
    cases codecs.state.decode data <;> exact hs
  | false =>
    cases hdecode : codecs.state.decode data with
    | error e => exact hs
    | ok state =>
      simp only [hfile, Bool.not_false, Bool.and_self, if_true, Bool.false_eq_true, if_false]
      rcases hflush : flushToFile codecs { o.storage with ownershipState := state } attempt
        o.directory with ⟨dir, e | ⟨⟩⟩
      · intro hclean
        cases hclean
      · intro _
        have hfile' : { o.storage with ownershipState := state }.dataFile.isSome := hfile
        exact loadState_flushed hfile' hflush

theorem cleanSound_reach_iff (hs : o.CleanSound codecs) (state : OwnershipState) :
    (o.reach state).CleanSound codecs ↔
      o.storage.dirty = true ∨ state = o.storage.ownershipState := by
  cases hdirty : o.storage.dirty with
  | true => simp [CleanSound, reach, hdirty]
  | false =>
    have hload := hs hdirty
    simp [CleanSound, reach, hdirty, hload, eq_comm]

theorem drawLeaseId_ne_self (s : OwnershipState) : s.drawLeaseId.2 ≠ s := by
  intro h
  have hnext : s.nextLeaseId + 1 = s.nextLeaseId := congrArg OwnershipState.nextLeaseId h
  simp at hnext

theorem cleanSound_stateStep_iff (hfile : o.storage.dataFile.isSome) (hs : o.CleanSound codecs)
    (op : StateOp) : (o.stateStep codecs op).CleanSound codecs ↔ o.Announced op := by
  cases op with
  | applyToStateMachine entries attempt =>
    exact iff_of_true (hs.applyToStateMachine hfile entries attempt) trivial
  | installSnapshot snapshotMeta data attempt =>
    exact iff_of_true (hs.installSnapshot hfile snapshotMeta data attempt) trivial
  | flushOwnershipState attempt =>
    exact iff_of_true (hs.flushOwnershipState hfile attempt) trivial
  | nextLeaseId =>
    refine (cleanSound_reach_iff hs _).trans ?_
    exact or_iff_left (drawLeaseId_ne_self _)
  | expireLeases now =>
    refine (cleanSound_reach_iff hs _).trans ?_
    rw [OwnershipState.expireLeases_eq_self_iff]
    exact Iff.rfl

theorem dataFile_stateStep (op : StateOp) :
    (o.stateStep codecs op).storage.dataFile = o.storage.dataFile := by
  cases op with
  | applyToStateMachine entries attempt =>
    simp only [stateStep, applyToStateMachine, AutoqueuesRaftStorage.applyToStateMachine_eq,
      applyEntries_eq]
  | installSnapshot snapshotMeta data attempt =>
    simp only [stateStep, installSnapshot]
    obtain ⟨state, dirty, snapshot, heq⟩ := o.storage.installSnapshot_eq codecs.state.decode
      snapshotMeta data _
    rw [heq]
  | flushOwnershipState attempt =>
    simp only [stateStep, flushOwnershipState, AutoqueuesRaftStorage.flushOwnershipState]
    split
    · split <;> rfl
    · rfl
  | nextLeaseId => rfl
  | expireLeases now => rfl

theorem CleanSound.stopped (hs : o.CleanSound codecs) (hclean : o.storage.dirty = false)
    (dropped : Option FlushAttempt) :
    (o.stopped codecs dropped).loadState codecs = .ok o.storage.ownershipState := by
  cases dropped with
  | none => exact hs hclean
  | some attempt =>
    simp only [Opened.stopped, drop, hclean, Bool.false_and]
    exact hs hclean

/-- A clean storage agrees with its file in exactly the runs in which the node reaches behind
the storage only while it is dirty or to no effect. Nothing is lost if the process of such a
run stops with a clean storage. -/
theorem dirty_flag_sound_iff (codecs : Oxicode) (dataDir : String) (dir : Directory)
    (s : AutoqueuesRaftStorage) (h : dir.withPersistence codecs dataDir = .ok s)
    (ops : List StateOp) :
    (Always (stateStep codecs) (CleanSound codecs) ⟨s, dir⟩ ops ↔
      Along (stateStep codecs) Announced ⟨s, dir⟩ ops) ∧
    (Along (stateStep codecs) Announced ⟨s, dir⟩ ops →
      let o := exec (stateStep codecs) ⟨s, dir⟩ ops
      o.storage.dirty = false → ∀ dropped,
        (o.stopped codecs dropped).loadState codecs = .ok o.storage.ownershipState) := by
  obtain ⟨state, entries, vote, hstate, -, -, rfl⟩ := Directory.withPersistence_eq_ok.mp h
  have hiff : Always (stateStep codecs) (CleanSound codecs)
      ⟨.withPersistence dataDir state entries vote, dir⟩ ops ↔
        Along (stateStep codecs) Announced ⟨.withPersistence dataDir state entries vote, dir⟩ ops :=
    always_iff_along_of_inv (J := fun o : Opened => o.storage.dataFile.isSome)
      (P := fun _ _ => True)
      (fun _ _ hfile _ _ _ => by rw [dataFile_stateStep]; exact hfile)
      (fun _ op hfile hs _ => cleanSound_stateStep_iff hfile hs op) rfl (fun _ => hstate)
      (along_of_forall fun _ _ _ => trivial)
  refine ⟨hiff, fun halong hclean dropped => ?_⟩
  exact CleanSound.stopped (hiff.mpr halong ops (List.prefix_refl ops)) hclean dropped

/-- A topic is claimed and written, and a sweep finds no lease. -/
theorem dirty_flag_sound_claim :
    let s := withPersistence "d" .new [] none
    let attempt : FlushAttempt := ⟨false, .ok ()⟩
    let claim : Entry := ⟨⟨⟨1, 1⟩, 1⟩, .normal (.claimTopic "t" 1 0)⟩
    let ops := [.applyToStateMachine [claim] attempt, .expireLeases 5, .flushOwnershipState attempt]
    Always (stateStep Plain.oxicode) (CleanSound Plain.oxicode) ⟨s, .empty⟩ ops :=
  (dirty_flag_sound_iff _ "d" _ _ rfl _).1.mpr (by decide +kernel)

/-- An id that is drawn and a lease that is swept away leave a clean storage that differs from
its file. -/
theorem clean_storage_differs_from_file :
    let s := withPersistence "d" .new [] none
    let acquire : Entry := ⟨⟨⟨1, 1⟩, 1⟩, .normal (.acquireLease "a" 1 0 1 0)⟩
    let drawn := exec (stateStep Plain.oxicode) ⟨s, .empty⟩ [.nextLeaseId]
    let swept := exec (stateStep Plain.oxicode) ⟨s, .empty⟩
      [.applyToStateMachine [acquire] ⟨false, .ok ()⟩, .expireLeases 1000000000]
    ¬ drawn.CleanSound Plain.oxicode ∧ ¬ swept.CleanSound Plain.oxicode := by
  intro s acquire drawn swept
  constructor
  · intro h
    have hload : .ok (OwnershipState.new) = Except.ok (ε := StorageError) _ := h rfl
    have hnext := congrArg OwnershipState.nextLeaseId (Except.ok.inj hload)
    exact absurd hnext (by decide)
  · intro h
    have hfile : (swept.directory.loadState Plain.oxicode).toOption.map (·.leases.size) =
      some 1 := by decide +kernel
    rw [h (by decide +kernel)] at hfile
    exact absurd hfile (by decide +kernel)

end Opened

end DumbDistributedLog
