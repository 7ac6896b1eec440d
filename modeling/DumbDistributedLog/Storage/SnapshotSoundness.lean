import DumbDistributedLog.Storage.Encoding
import DumbDistributedLog.Storage.Handles

/-! # Soundness of snapshots

A snapshot should hold the state after the entries up to the position it names. The
builder names the end of the log it copied, applied or not, and takes the state as it
is when the snapshot is built. Both are the same if no command lies between the two
positions. The state itself follows the agreed log of the cluster.
-/

namespace DumbDistributedLog

open AutoqueuesRaftStorage Runs

def Agreed (agreed : List Entry) : Option LogId → Prop
  | none => True
  | some id => agreed[id.index.toNat]?.map Entry.logId = some id

def stateAt (agreed : List Entry) (position : Option LogId) : OwnershipState :=
  OwnershipState.new.replay (agreed.take (nextIndex position))

/-- The data of a snapshot are the state at the position that it names. -/
structure Sound (codec : Codec OwnershipState) (agreed : List Entry) (snapshot : Snapshot) :
    Prop where
  position : Agreed agreed snapshot.snapshotMeta.lastLogId
  data : codec.decode snapshot.data = .ok (stateAt agreed snapshot.snapshotMeta.lastLogId)

/-- What the cluster adds to the discipline of the engine: entries are applied once they
are agreed on, and the snapshots to install hold the agreed state. -/
def Commits (codec : Codec OwnershipState) (agreed : List Entry) : StorageOp → Prop
  | .applyToStateMachine entries _ => ∀ e ∈ entries, agreed[e.logId.index.toNat]? = some e
  | .installSnapshot snapshotMeta data _ => Agreed agreed snapshotMeta.lastLogId ∧
      data = codec.encode (stateAt agreed snapshotMeta.lastLogId)
  | _ => True

def Follows (codec : Codec OwnershipState) (agreed : List Entry) (h : Handles) : HandleOp → Prop
  | .storage op => h.tracked.Disciplined op ∧ Commits codec agreed op
  | _ => True

def InstallsWritten (h : Handles) : HandleOp → Prop
  | .storage (.installSnapshot _ _ flush) => h.storage.dataFile.isSome → flush.isOk
  | _ => True

def between (agreed : List Entry) (m n : ℕ) : List Entry :=
  (agreed.take (max m n)).drop (min m n)

/-- The log that a builder copied ends at an agreed entry, and no command lies between
that entry and the last one applied. -/
def Complete (agreed : List Entry) (h : Handles) (b : AutoqueuesRaftStorage) : Prop :=
  Agreed agreed b.lastLogId ∧
    ∀ e ∈ between agreed (nextIndex b.lastLogId) (nextIndex h.tracked.expected), e.command = none

section Decidable

variable (codec : Codec OwnershipState) (agreed : List Entry) (h : Handles)

instance : ∀ position, Decidable (Agreed agreed position)
  | none => .isTrue trivial
  | some _ => inferInstanceAs (Decidable (_ = _))

instance : ∀ op, Decidable (Commits codec agreed op)
  | .applyToStateMachine entries _ =>
    inferInstanceAs (Decidable (∀ e ∈ entries, agreed[e.logId.index.toNat]? = some e))
  | .installSnapshot snapshotMeta data _ => inferInstanceAs (Decidable
      (Agreed agreed snapshotMeta.lastLogId ∧
        data = codec.encode (stateAt agreed snapshotMeta.lastLogId)))
  | .appendToLog _ _ => .isTrue trivial
  | .deleteConflictLogsSince _ _ => .isTrue trivial
  | .purgeLogsUpto _ _ => .isTrue trivial

instance : ∀ op, Decidable (Follows codec agreed h op)
  | .storage op => inferInstanceAs (Decidable (h.tracked.Disciplined op ∧ Commits codec agreed op))
  | .saveVote _ _ => .isTrue trivial
  | .saveCommitted _ => .isTrue trivial
  | .getSnapshotBuilder => .isTrue trivial
  | .buildSnapshot _ _ => .isTrue trivial

instance : ∀ op, Decidable (InstallsWritten h op)
  | .storage (.installSnapshot _ _ flush) =>
    inferInstanceAs (Decidable (h.storage.dataFile.isSome → flush.isOk))
  | .storage (.appendToLog _ _) => .isTrue trivial
  | .storage (.applyToStateMachine _ _) => .isTrue trivial
  | .storage (.deleteConflictLogsSince _ _) => .isTrue trivial
  | .storage (.purgeLogsUpto _ _) => .isTrue trivial
  | .saveVote _ _ => .isTrue trivial
  | .saveCommitted _ => .isTrue trivial
  | .getSnapshotBuilder => .isTrue trivial
  | .buildSnapshot _ _ => .isTrue trivial

instance (b : AutoqueuesRaftStorage) : Decidable (Complete agreed h b) :=
  inferInstanceAs (Decidable (_ ∧ _))

end Decidable

variable {codec : Codec OwnershipState} {agreed entries : List Entry} {h : Handles}
  {op : HandleOp} {ops : List HandleOp}

theorem Tracked.consecutive_cons {n : ℕ} {e : Entry} : Tracked.Consecutive n (e :: entries) ↔
    e.logId.index.toNat = n ∧ Tracked.Consecutive (n + 1) entries := by
  simp [Tracked.Consecutive, List.range'_succ]

theorem Tracked.Consecutive.take_append {n : ℕ} (h : Tracked.Consecutive n entries)
    (hg : ∀ e ∈ entries, agreed[e.logId.index.toNat]? = some e) :
    agreed.take (n + entries.length) = agreed.take n ++ entries := by
  induction entries generalizing n with
  | nil => simp
  | cons e entries ih =>
    obtain ⟨rfl, hrest⟩ := Tracked.consecutive_cons.mp h
    have hnext := ih hrest fun e' he' => hg e' (List.mem_cons_of_mem _ he')
    rw [List.length_cons, Nat.add_comm entries.length 1, ← Nat.add_assoc, hnext, List.take_add_one,
      hg e List.mem_cons_self]
    simp

theorem Tracked.Consecutive.nextIndex_last {position : Option LogId}
    (h : Tracked.Consecutive (nextIndex position) entries) :
    nextIndex ((entries.getLast?.map Entry.logId).or position) =
      nextIndex position + entries.length := by
  induction entries generalizing position with
  | nil => rfl
  | cons e entries ih =>
    obtain ⟨hidx, hrest⟩ := Tracked.consecutive_cons.mp h
    have hstart : nextIndex (some e.logId) = nextIndex position + 1 := by
      rw [nextIndex, hidx]
    have hlast : nextIndex ((entries.getLast?.map Entry.logId).or (some e.logId)) =
        nextIndex (some e.logId) + entries.length := ih (by rwa [hstart])
    rw [List.getLast?_cons, List.length_cons]
    cases hl : entries.getLast? with
    | none =>
      rw [hl] at hlast
      simp only [Option.map_none, Option.none_or] at hlast
      simp only [Option.getD_none, Option.map_some, Option.some_or]
      omega
    | some e' =>
      rw [hl] at hlast
      simp only [Option.map_some, Option.some_or] at hlast
      simp only [Option.getD_some, Option.map_some, Option.some_or]
      omega

theorem replay_take_eq {m n : ℕ} (h : ∀ e ∈ between agreed m n, e.command = none) :
    OwnershipState.new.replay (agreed.take m) = OwnershipState.new.replay (agreed.take n) := by
  have hmax : OwnershipState.new.replay (agreed.take (max m n)) =
      OwnershipState.new.replay (agreed.take (min m n)) := by
    have hsplit : agreed.take (max m n) = agreed.take (min m n) ++ between agreed m n := by
      have htake : (agreed.take (max m n)).take (min m n) = agreed.take (min m n) := by
        rw [List.take_take, min_eq_left ((min_le_left m n).trans (le_max_left m n))]
      rw [← htake]
      exact (List.take_append_drop _ _).symm
    rw [hsplit, OwnershipState.replay_append, OwnershipState.replay_of_no_command h]
  rcases le_total m n with hle | hle
  · rw [max_eq_right hle, min_eq_left hle] at hmax
    exact hmax.symm
  · rwa [max_eq_left hle, min_eq_right hle] at hmax

def Replays (agreed : List Entry) (h : Handles) : Prop :=
  h.storage.ownershipState = stateAt agreed h.tracked.expected

theorem Replays.storage {op : StorageOp} (hr : Replays agreed h)
    (hf : Follows codec agreed h (.storage op)) (hw : InstallsWritten h (.storage op)) :
    Replays agreed (h.step codec (.storage op)) := by
  obtain ⟨hd, hc⟩ := hf
  cases op with
  | appendToLog entries flush => exact hr
  | deleteConflictLogsSince logId flush => exact hr
  | purgeLogsUpto logId flush => exact hr
  | applyToStateMachine entries flush =>
    change (h.storage.applyToStateMachine entries flush).1.ownershipState =
      stateAt agreed (h.tracked.step codec.decode (.applyToStateMachine entries flush)).expected
    rw [applyToStateMachine_eq, applyEntries_eq, Tracked.expected_apply hd.1, stateAt,
      hd.1.nextIndex_last, hd.1.take_append hc, OwnershipState.replay_append]
    exact congrArg (OwnershipState.replay · entries) hr
  | installSnapshot snapshotMeta data flush =>
    obtain ⟨-, rfl⟩ := hc
    change (h.storage.installSnapshot codec.decode snapshotMeta _ flush).1.ownershipState =
      stateAt agreed (h.tracked.step codec.decode (.installSnapshot snapshotMeta _ flush)).expected
    have hdecode := codec.decode_encode (stateAt agreed snapshotMeta.lastLogId)
    have hok : (h.storage.installSnapshot codec.decode snapshotMeta
        (codec.encode (stateAt agreed snapshotMeta.lastLogId)) flush).2 = .ok () := by
      rw [Tracked.installSnapshot_ok_iff]
      rintro ⟨-, hfail⟩
      obtain ⟨hfile, hflush⟩ := hfail (by rw [hdecode]; rfl)
      exact hflush (hw hfile)
    rw [Tracked.expected_install hd, ownershipState_installSnapshot _ _ _ _ _
      (codec.encode_ne_nil _) hdecode]
    exact congrArg (stateAt agreed) (if_pos hok).symm

theorem Replays.step (hr : Replays agreed h) (hf : Follows codec agreed h op)
    (hw : InstallsWritten h op) : Replays agreed (h.step codec op) := by
  cases op with
  | storage op => exact hr.storage hf hw
  | buildSnapshot i millis =>
    simp only [Handles.step]
    split <;> exact hr
  | _ => exact hr

theorem Replays.exec (hr : Replays agreed h) (hf : Along (Handles.step codec)
    (Follows codec agreed) h ops) (hw : Along (Handles.step codec) InstallsWritten h ops) :
    Replays agreed (exec (Handles.step codec) h ops) :=
  (hf.and hw).exec_inv (fun _ _ hr hc => hr.step hc.1 hc.2) hr

theorem Handles.ownershipState_builder {i : ℕ} {b : AutoqueuesRaftStorage}
    (hb : h.builder i = some b) : b.ownershipState = h.storage.ownershipState := by
  obtain ⟨cells, -, rfl⟩ := Option.map_eq_some_iff.mp hb
  rfl

/-- Snapshots are sound if no command lies between the end of the log that the builder
copied and the last entry applied when the snapshot is built. -/
theorem buildSnapshot_sound (codec : Codec OwnershipState) (agreed : List Entry)
    (s : AutoqueuesRaftStorage) (hs : s.ownershipState = .new) (ops : List HandleOp)
    (hf : Along (Handles.step codec) (Follows codec agreed) (.init s) ops)
    (hw : Along (Handles.step codec) InstallsWritten (.init s) ops)
    (i millis : ℕ) (b : AutoqueuesRaftStorage)
    (hb : (exec (Handles.step codec) (.init s) ops).builder i = some b)
    (hc : Complete agreed (exec (Handles.step codec) (.init s) ops) b) :
    Sound codec agreed (b.buildSnapshot codec.encode millis).2 := by
  have hinit : Replays agreed (.init s) := by
    rw [Replays]
    exact hs
  have hr := hinit.exec hf hw
  refine ⟨hc.1, ?_⟩
  change codec.decode (codec.encode b.ownershipState) = .ok (stateAt agreed b.lastLogId)
  rw [codec.decode_encode, Handles.ownershipState_builder hb, hr, stateAt, stateAt,
    replay_take_eq hc.2]

theorem buildSnapshot_sound_before_blank :
    let claim : Entry := ⟨⟨⟨1, 1⟩, 0⟩, .normal (.claimTopic "a" 1 0)⟩
    let blank : Entry := ⟨⟨⟨1, 1⟩, 1⟩, .blank⟩
    let ops : List HandleOp :=
      [.storage (.appendToLog [claim] (.ok ())), .getSnapshotBuilder,
        .storage (.applyToStateMachine [claim] (.ok ())), .storage (.appendToLog [blank] (.ok ())),
        .storage (.applyToStateMachine [blank] (.ok ()))]
    let handles := exec (Handles.step Plain.oxicode.state) (.init .new) ops
    ∃ b, handles.builder 0 = some b ∧
      Sound Plain.oxicode.state [claim, blank]
        (b.buildSnapshot Plain.oxicode.state.encode 5).2 := by
  intro claim blank ops handles
  refine ⟨_, rfl, buildSnapshot_sound _ _ .new rfl ops ?_ ?_ 0 5 _ rfl ?_⟩
  · decide +kernel
  · decide +kernel
  · decide +kernel

/-- The snapshot names an entry that has not been applied when the log was copied, and
misses one that has been applied since. -/
theorem buildSnapshot_names_unapplied_entry :
    let entry (i : UInt64) (topic : String) : Entry :=
      ⟨⟨⟨1, 1⟩, i⟩, .normal (.claimTopic topic 1 0)⟩
    let agreed := [entry 0 "a", entry 1 "b"]
    let early : List HandleOp :=
      [.storage (.appendToLog [entry 0 "a"] (.ok ())), .getSnapshotBuilder]
    let late : List HandleOp :=
      [.storage (.appendToLog [entry 0 "a"] (.ok ())),
        .storage (.applyToStateMachine [entry 0 "a"] (.ok ())), .getSnapshotBuilder,
        .storage (.appendToLog [entry 1 "b"] (.ok ())),
        .storage (.applyToStateMachine [entry 1 "b"] (.ok ()))]
    ∀ ops ∈ [early, late],
      Along (Handles.step Plain.oxicode.state) (Follows Plain.oxicode.state agreed) (.init .new)
        ops ∧
      ∃ b, (exec (Handles.step Plain.oxicode.state) (.init .new) ops).builder 0 = some b ∧
        ¬ Sound Plain.oxicode.state agreed (b.buildSnapshot Plain.oxicode.state.encode 5).2 := by
  intro entry agreed early late ops hops
  have howners : ∀ {b : AutoqueuesRaftStorage} {position : Option LogId} (topic : String),
      b.lastLogId = position →
      b.ownershipState.getOwner topic ≠ (stateAt agreed position).getOwner topic →
      ¬ Sound Plain.oxicode.state agreed (b.buildSnapshot Plain.oxicode.state.encode 5).2 := by
    rintro b _ topic rfl hne ⟨-, hdata⟩
    have hstate := (Plain.oxicode.state.decode_encode b.ownershipState).symm.trans hdata
    exact hne (congrArg (OwnershipState.getOwner · topic) (Except.ok.inj hstate))
  rcases List.mem_pair.mp hops with rfl | rfl
  · refine ⟨by decide +kernel, _, rfl, howners "a" rfl ?_⟩
    decide +kernel
  · refine ⟨by decide +kernel, _, rfl, howners "b" rfl ?_⟩
    decide +kernel

end DumbDistributedLog
