import DumbDistributedLog.Storage.Encoding
import DumbDistributedLog.Storage.Handles

/-! # What a snapshot leaves behind

Installing a snapshot replaces the ownership state and keeps the snapshot. It leaves the
applied position and the membership alone, and so does applying a membership entry: the
membership cell is never written. Building a snapshot keeps nothing in the storage.
-/

namespace DumbDistributedLog

open AutoqueuesRaftStorage Runs

variable {codec : Codec OwnershipState} {h : Handles} {op : HandleOp} {ops : List HandleOp}

section Transfer

/-- A receiver has taken over a snapshot: it has the state and the position of the
sender, and goes on from there as the sender does. -/
structure Transferred (receiver : AutoqueuesRaftStorage) (snapshotMeta : SnapshotMeta)
    (state : OwnershipState) : Prop where
  ownership : receiver.ownershipState = state
  position : receiver.lastAppliedState = (snapshotMeta.lastLogId, snapshotMeta.lastMembership)
  resumes : ∀ (sender : AutoqueuesRaftStorage) (entries : List Entry)
    (flush flush' : Except StorageError Unit), sender.ownershipState = state →
      (receiver.applyToStateMachine entries flush).1.ownershipState =
        (sender.applyToStateMachine entries flush').1.ownershipState

theorem lastAppliedState_installSnapshot (decode : List UInt8 → Except String OwnershipState)
    (s : AutoqueuesRaftStorage) (snapshotMeta : SnapshotMeta) (data : List UInt8)
    (flush : Except StorageError Unit) :
    (s.installSnapshot decode snapshotMeta data flush).1.lastAppliedState = s.lastAppliedState := by
  obtain ⟨state, dirty, snapshot, heq⟩ := s.installSnapshot_eq decode snapshotMeta data flush
  rw [heq]
  rfl

/-- An installed snapshot is taken over exactly if the receiver already is at its
position and has its membership. -/
theorem snapshotTransfer_iff (codec : Codec OwnershipState) (receiver : AutoqueuesRaftStorage)
    (snapshotMeta : SnapshotMeta) (state : OwnershipState) (flush : Except StorageError Unit) :
    Transferred (receiver.installSnapshot codec.decode snapshotMeta (codec.encode state) flush).1
        snapshotMeta state ↔
      receiver.lastAppliedState = (snapshotMeta.lastLogId, snapshotMeta.lastMembership) := by
  have hstate := ownershipState_installSnapshot receiver codec.decode snapshotMeta
    (codec.encode state) flush (codec.encode_ne_nil state) (codec.decode_encode state)
  constructor
  · intro ht
    rw [← ht.position, lastAppliedState_installSnapshot]
  · intro heq
    refine ⟨hstate, (lastAppliedState_installSnapshot _ _ _ _ _).trans heq, ?_⟩
    intro sender entries flush' flush'' hsender
    rw [ownershipState_applyToStateMachine, ownershipState_applyToStateMachine, hstate, hsender]

/-- A new storage stays without position after it has installed a snapshot. -/
theorem install_keeps_position :
    let snapshotMeta : SnapshotMeta :=
      ⟨some ⟨⟨1, 1⟩, 7⟩, ⟨some ⟨⟨1, 1⟩, 3⟩, [[1]], []⟩, "snapshot-5"⟩
    let state := OwnershipState.new.apply (.claimTopic "a" 1 0)
    let install := AutoqueuesRaftStorage.new.installSnapshot Plain.oxicode.state.decode snapshotMeta
      (Plain.oxicode.state.encode state) (.ok ())
    install.2 = .ok () ∧ ¬ Transferred install.1 snapshotMeta state := by
  refine ⟨by decide +kernel, fun ht => ?_⟩
  exact absurd ht.position (by decide +kernel)

end Transfer

section Membership

/-- The membership that the storage reports, and puts into a snapshot built now, is the
one last applied or installed. -/
structure TracksMembership (codec : Codec OwnershipState) (h : Handles) : Prop where
  reported : h.storage.lastAppliedState.2 = h.membership
  built : ∀ millis, (h.storage.getSnapshotBuilder.buildSnapshot codec.encode
    millis).2.snapshotMeta.lastMembership = h.membership

def Installable (decode : List UInt8 → Except String OwnershipState) (s : AutoqueuesRaftStorage)
    (data : List UInt8) (flush : Except StorageError Unit) : Prop :=
  data.isEmpty ∨ (decode data).isOk ∧ (s.dataFile.isSome → flush.isOk)

instance (decode : List UInt8 → Except String OwnershipState) (s : AutoqueuesRaftStorage)
    (data : List UInt8) (flush : Except StorageError Unit) :
    Decidable (Installable decode s data flush) :=
  inferInstanceAs (Decidable (_ ∨ _ ∧ (_ → _)))

/-- No membership entry is applied, and a snapshot that is installed has the membership
that the storage has. -/
def KeepsMembership (codec : Codec OwnershipState) (h : Handles) : HandleOp → Prop
  | .storage (.applyToStateMachine entries _) => ∀ e ∈ entries, e.storedMembership = none
  | .storage (.installSnapshot snapshotMeta data flush) =>
    Installable codec.decode h.storage data flush →
      snapshotMeta.lastMembership = h.storage.membership
  | _ => True

instance (codec : Codec OwnershipState) (h : Handles) : ∀ op, Decidable (KeepsMembership codec h op)
  | .storage (.applyToStateMachine entries _) =>
    inferInstanceAs (Decidable (∀ e ∈ entries, e.storedMembership = none))
  | .storage (.installSnapshot snapshotMeta data flush) => inferInstanceAs (Decidable
      (Installable codec.decode h.storage data flush →
        snapshotMeta.lastMembership = h.storage.membership))
  | .storage (.appendToLog _ _) => .isTrue trivial
  | .storage (.deleteConflictLogsSince _ _) => .isTrue trivial
  | .storage (.purgeLogsUpto _ _) => .isTrue trivial
  | .saveVote _ _ => .isTrue trivial
  | .saveCommitted _ => .isTrue trivial
  | .getSnapshotBuilder => .isTrue trivial
  | .buildSnapshot _ _ => .isTrue trivial

theorem installSnapshot_ok_iff_installable (decode : List UInt8 → Except String OwnershipState)
    (s : AutoqueuesRaftStorage) (snapshotMeta : SnapshotMeta) (data : List UInt8)
    (flush : Except StorageError Unit) :
    (s.installSnapshot decode snapshotMeta data flush).2 = .ok () ↔
      Installable decode s data flush := by
  rw [Tracked.installSnapshot_ok_iff, Installable]
  tauto

theorem tracksMembership_iff : TracksMembership codec h ↔ h.storage.membership = h.membership := by
  constructor
  · intro ht
    exact ht.reported
  · intro heq
    exact ⟨heq, fun _ => heq⟩

/-- No operation writes the membership cell. -/
theorem membership_step (codec : Codec OwnershipState) (h : Handles) (op : HandleOp) :
    (h.step codec op).storage.membership = h.storage.membership := by
  cases op with
  | storage op =>
    cases op with
    | applyToStateMachine entries flush =>
      change (h.storage.applyToStateMachine entries flush).1.membership = _
      rw [applyToStateMachine_eq, applyEntries_eq]
    | installSnapshot snapshotMeta data flush =>
      exact congrArg Prod.snd (lastAppliedState_installSnapshot _ _ _ _ _)
    | _ => rfl
  | buildSnapshot i millis =>
    simp only [Handles.step]
    split <;> rfl
  | _ => rfl

theorem lastMembership_eq_none {entries : List Entry} :
    lastMembership entries = none ↔ ∀ e ∈ entries, e.storedMembership = none := by
  rw [lastMembership, List.getLast?_eq_none_iff, List.filterMap_eq_nil_iff]

/-- An applied membership has a position, unlike the one a storage starts with. -/
theorem logId_of_lastMembership {entries : List Entry} {m : StoredMembership}
    (hm : lastMembership entries = some m) : m.logId ≠ none := by
  obtain ⟨e, -, he⟩ := List.mem_filterMap.mp (List.mem_of_getLast? hm)
  unfold Entry.storedMembership at he
  split at he
  · obtain rfl := Option.some.inj he
    simp
  · simp at he

theorem TracksMembership.step_iff (ht : TracksMembership codec h)
    (hnone : h.storage.membership.logId = none) :
    TracksMembership codec (h.step codec op) ↔ KeepsMembership codec h op := by
  rw [tracksMembership_iff] at ht
  rw [tracksMembership_iff, membership_step, ht]
  cases op with
  | storage op =>
    cases op with
    | applyToStateMachine entries flush =>
      change h.membership = ((none : Option StoredMembership).or (lastMembership entries)).getD
        h.membership ↔ ∀ e ∈ entries, e.storedMembership = none
      rw [← lastMembership_eq_none, Option.none_or]
      cases hm : lastMembership entries with
      | none => simp
      | some m =>
        refine iff_of_false (fun heq => ?_) (by simp)
        exact logId_of_lastMembership hm (by rw [← show h.membership = m from heq, ← ht, hnone])
    | installSnapshot snapshotMeta data flush =>
      change h.membership = (((StorageOp.installs codec.decode h.storage
        (.installSnapshot snapshotMeta data flush)).map fun snap =>
          snap.snapshotMeta.lastMembership).or none).getD h.membership ↔
        (Installable codec.decode h.storage data flush →
          snapshotMeta.lastMembership = h.storage.membership)
      rw [← installSnapshot_ok_iff_installable _ _ snapshotMeta, ht, Option.or_none,
        StorageOp.installs]
      split
      · rename_i hok
        simp only [Option.map_some, Option.getD_some]
        exact ⟨fun heq _ => heq.symm, fun himp => (himp hok).symm⟩
      · rename_i hok
        exact iff_of_true rfl fun hc => absurd hc hok
    | _ => exact iff_of_true rfl trivial
  | buildSnapshot i millis =>
    refine iff_of_true ?_ trivial
    simp only [Handles.step]
    split <;> rfl
  | _ => exact iff_of_true rfl trivial

/-- The membership is tracked throughout a run if and only if no membership entry is
applied and every installed snapshot has the membership the storage started with. -/
theorem tracksMembership_always_iff (codec : Codec OwnershipState) (s : AutoqueuesRaftStorage)
    (hs : Created s) (ops : List HandleOp) :
    Always (Handles.step codec) (TracksMembership codec) (.init s) ops ↔
      Along (Handles.step codec) (KeepsMembership codec) (.init s) ops := by
  have hstart : s.membership.logId = none := by
    cases hs <;> rfl
  have hcell : Along (Handles.step codec) (fun h _ => h.storage.membership.logId = none)
      (.init s) ops := by
    refine along_inv (I := fun h : Handles => h.storage.membership.logId = none) ?_ hstart
    intro h op hnone
    rwa [membership_step]
  exact always_iff_along (fun h op ht hnone => ht.step_iff hnone)
    (tracksMembership_iff.mpr rfl) hcell

theorem tracksMembership_without_change :
    let claim : Entry := ⟨⟨⟨1, 1⟩, 0⟩, .normal (.claimTopic "a" 1 0)⟩
    let ops : List HandleOp :=
      [.storage (.appendToLog [claim] (.ok ())),
        .storage (.applyToStateMachine [claim] (.ok ())),
        .storage (.installSnapshot ⟨some ⟨⟨1, 1⟩, 7⟩, ⟨none, [], []⟩, "snapshot-5"⟩
          (Plain.oxicode.state.encode .new) (.ok ()))]
    Always (Handles.step Plain.oxicode.state) (TracksMembership Plain.oxicode.state)
      (.init .new) ops :=
  (tracksMembership_always_iff _ _ .new _).mpr (by decide +kernel)

/-- An applied membership entry and the membership of an installed snapshot are lost. -/
theorem membership_entry_is_lost :
    let change : Entry := ⟨⟨⟨1, 1⟩, 0⟩, .membership ⟨[[1, 2]], []⟩⟩
    let apply : List HandleOp := [.storage (.applyToStateMachine [change] (.ok ()))]
    let install : List HandleOp :=
      [.storage (.installSnapshot ⟨some ⟨⟨1, 1⟩, 7⟩, ⟨some ⟨⟨1, 1⟩, 3⟩, [[1, 2]], []⟩, "snapshot-5"⟩
        (Plain.oxicode.state.encode .new) (.ok ()))]
    ∀ ops ∈ [apply, install], ¬ Always (Handles.step Plain.oxicode.state)
      (TracksMembership Plain.oxicode.state) (.init .new) ops := by
  intro change apply install ops hops halways
  have hlast := (halways ops (List.prefix_refl _)).reported
  rcases List.mem_pair.mp hops with rfl | rfl
  · exact absurd hlast (by decide +kernel)
  · exact absurd hlast (by decide +kernel)

end Membership

section Current

/-- The storage returns the snapshot last built or installed, if there is one. -/
def Current (h : Handles) : Prop := h.storage.getCurrentSnapshot = h.latest

def Builds (h : Handles) : HandleOp → Prop
  | .buildSnapshot i _ => i < h.builders.length
  | _ => False

def InstallsUsable (codec : Codec OwnershipState) (h : Handles) : HandleOp → Prop
  | .storage (.installSnapshot _ data flush) => Installable codec.decode h.storage data flush
  | _ => False

instance (h : Handles) : ∀ op, Decidable (Builds h op)
  | .buildSnapshot i _ => inferInstanceAs (Decidable (i < h.builders.length))
  | .storage _ => .isFalse id
  | .saveVote _ _ => .isFalse id
  | .saveCommitted _ => .isFalse id
  | .getSnapshotBuilder => .isFalse id

instance (codec : Codec OwnershipState) (h : Handles) : ∀ op, Decidable (InstallsUsable codec h op)
  | .storage (.installSnapshot _ data flush) =>
    inferInstanceAs (Decidable (Installable codec.decode h.storage data flush))
  | .storage (.applyToStateMachine _ _) => .isFalse id
  | .storage (.appendToLog _ _) => .isFalse id
  | .storage (.deleteConflictLogsSince _ _) => .isFalse id
  | .storage (.purgeLogsUpto _ _) => .isFalse id
  | .saveVote _ _ => .isFalse id
  | .saveCommitted _ => .isFalse id
  | .getSnapshotBuilder => .isFalse id
  | .buildSnapshot _ _ => .isFalse id

theorem current_install (codec : Codec OwnershipState) (h : Handles) (snapshotMeta : SnapshotMeta)
    (data : List UInt8) (flush : Except StorageError Unit) :
    Current (h.step codec (.storage (.installSnapshot snapshotMeta data flush))) ↔
      (Installable codec.decode h.storage data flush ∨ Current h) := by
  change (h.storage.installSnapshot codec.decode snapshotMeta data flush).1.snapshot =
    (StorageOp.installs codec.decode h.storage (.installSnapshot snapshotMeta data flush)).or
      h.latest ↔ _
  rw [snapshot_installSnapshot, StorageOp.installs,
    ← installSnapshot_ok_iff_installable _ _ snapshotMeta]
  split
  · rename_i hok
    exact iff_of_true rfl (.inl hok)
  · rename_i hok
    rw [Option.none_or]
    exact ⟨.inr, fun hc => hc.resolve_left hok⟩

theorem Current.step (hc : Current h) (hb : ¬ Builds h op) : Current (h.step codec op) := by
  cases op with
  | storage op =>
    cases op with
    | applyToStateMachine entries flush =>
      change (h.storage.applyToStateMachine entries flush).1.snapshot = h.latest
      rw [applyToStateMachine_eq, applyEntries_eq]
      exact hc
    | installSnapshot snapshotMeta data flush => exact (current_install _ _ _ _ _).mpr (.inr hc)
    | _ => exact hc
  | buildSnapshot i millis =>
    have hnone : h.builder i = none := by
      rw [Handles.builder, List.getElem?_eq_none (Nat.le_of_not_lt hb)]
      rfl
    simp only [Handles.step, hnone]
    exact hc
  | _ => exact hc

theorem InstallsUsable.current (hi : InstallsUsable codec h op) : Current (h.step codec op) := by
  cases op with
  | storage op =>
    cases op with
    | installSnapshot snapshotMeta data flush => exact (current_install _ _ _ _ _).mpr (.inl hi)
    | _ => exact hi.elim
  | _ => exact hi.elim

/-- The storage has the latest snapshot if every snapshot that was built was followed by
one that was installed. -/
theorem currentSnapshot_of_installed (codec : Codec OwnershipState) (s : AutoqueuesRaftStorage)
    (hs : Created s) (ops : List HandleOp)
    (ha : Answered (Handles.step codec) Builds (InstallsUsable codec) (.init s) ops) :
    Current (exec (Handles.step codec) (.init s) ops) := by
  have hinit : Current (.init s) := by
    cases hs <;> rfl
  exact ha.exec_inv (fun _ _ hc hb => hc.step hb) (fun _ _ hi => hi.current) (.inl hinit)

theorem currentSnapshot_after_install :
    let ops : List HandleOp :=
      [.getSnapshotBuilder, .buildSnapshot 0 5,
        .storage (.installSnapshot ⟨some ⟨⟨1, 1⟩, 7⟩, ⟨none, [], []⟩, "snapshot-9"⟩
          (Plain.oxicode.state.encode .new) (.ok ())), .buildSnapshot 3 6]
    Current (exec (Handles.step Plain.oxicode.state) (.init .new) ops) :=
  currentSnapshot_of_installed _ _ .new _ (by decide +kernel)

/-- A snapshot that was built is not returned. -/
theorem built_snapshot_is_not_current :
    ¬ Current (exec (Handles.step Plain.oxicode.state) (.init .new)
      [.getSnapshotBuilder, .buildSnapshot 0 5]) := by
  unfold Current
  decide +kernel

end Current

end DumbDistributedLog
