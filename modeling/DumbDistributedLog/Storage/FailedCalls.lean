import DumbDistributedLog.Storage.LogReader

/-! # Calls that fail

The storage changes its memory and then writes a file, and it does not take the change back
if the write fails; a snapshot notes its metadata before its data are decoded. A call that
returns an error has left the memory alone only where it had nothing to change.
-/

namespace DumbDistributedLog

open AutoqueuesRaftStorage

/-- The calls that change memory and can fail, with the outcome of the flush. -/
inductive StorageCall where
  | saveVote (vote : Vote) (flush : Except StorageError Unit)
  | log (op : LogOp)
  | installSnapshot (snapshotMeta : SnapshotMeta) (data : List UInt8)
      (flush : Except StorageError Unit)

def LogOp.purged : LogOp → Option LogId
  | .purgeLogsUpto logId _ => some logId
  | .appendToLog _ _ | .deleteConflictLogsSince _ _ => none

namespace AutoqueuesRaftStorage

variable (decode : List UInt8 → Except String OwnershipState) (s : AutoqueuesRaftStorage)

def callLog : LogOp → AutoqueuesRaftStorage × Except StorageError Unit
  | .appendToLog entries flush => s.appendToLog entries flush
  | .deleteConflictLogsSince logId flush => s.deleteConflictLogsSince logId flush
  | .purgeLogsUpto logId flush => s.purgeLogsUpto logId flush

def call : StorageCall → AutoqueuesRaftStorage × Except StorageError Unit
  | .saveVote vote flush => s.saveVote vote flush
  | .log op => s.callLog op
  | .installSnapshot snapshotMeta data flush => s.installSnapshot decode snapshotMeta data flush

/-- The call would leave the memory as it is: it saves the vote that is there, touches no
entry and no position, or brings a snapshot whose metadata and state are there already. -/
def Idle : StorageCall → Prop
  | .saveVote vote _ => s.vote = some vote
  | .log op => UntouchedOn (fun _ => True) s op ∧ ∀ logId ∈ op.purged, s.lastApplied = some logId
  | .installSnapshot snapshotMeta data _ => s.snapshotMeta = some snapshotMeta ∧
      ∀ state, decode data = .ok state → s.ownershipState = state

end AutoqueuesRaftStorage

structure SameMemory (s s' : AutoqueuesRaftStorage) : Prop where
  log : s'.log = s.log
  vote : s'.vote = s.vote
  lastApplied : s'.lastApplied = s.lastApplied
  ownershipState : s'.ownershipState = s.ownershipState
  snapshot : s'.snapshot = s.snapshot
  snapshotMeta : s'.snapshotMeta = s.snapshotMeta

variable {decode : List UInt8 → Except String OwnershipState} {s : AutoqueuesRaftStorage}
  {e : StorageError}

theorem callLog_fst (s : AutoqueuesRaftStorage) (op : LogOp) : (s.callLog op).1 = s.runLog op := by
  cases op <;> rfl

theorem lastApplied_runLog_eq_iff {op : LogOp} :
    (s.runLog op).lastApplied = s.lastApplied ↔
      ∀ logId ∈ op.purged, s.lastApplied = some logId := by
  cases op with
  | appendToLog | deleteConflictLogsSince => simp [LogOp.purged, runLog, appendToLog,
      deleteConflictLogsSince]
  | purgeLogsUpto logId flush => simp [LogOp.purged, runLog, purgeLogsUpto, eq_comm]

theorem sameMemory_runLog_iff (s : AutoqueuesRaftStorage) (op : LogOp) :
    SameMemory s (s.runLog op) ↔ s.Idle decode (.log op) := by
  rw [Idle, ← log_runLog_eq_iff, ← lastApplied_runLog_eq_iff]
  constructor
  · intro h
    exact ⟨h.log, h.lastApplied⟩
  · rintro ⟨hlog, hlast⟩
    cases op <;> exact ⟨hlog, rfl, hlast, rfl, rfl, rfl⟩

/-- A snapshot that is not installed has noted its metadata, and its state if the data could
be decoded. -/
theorem installSnapshot_of_error {snapshotMeta : SnapshotMeta} {data : List UInt8}
    {flush : Except StorageError Unit}
    (h : (s.installSnapshot decode snapshotMeta data flush).2 = .error e) :
    (∃ message, decode data = .error message) ∧
        (s.installSnapshot decode snapshotMeta data flush).1 =
          { s with snapshotMeta := some snapshotMeta } ∨
      ∃ state, decode data = .ok state ∧
        (s.installSnapshot decode snapshotMeta data flush).1 =
          { s with
            snapshotMeta := some snapshotMeta
            ownershipState := state
            dirty := true } := by
  unfold installSnapshot at h ⊢
  by_cases hempty : data.isEmpty
  · simp [hempty] at h
  · simp only [hempty, Bool.false_eq_true, if_false] at h ⊢
    cases hdecode : decode data with
    | error message => exact .inl ⟨⟨message, rfl⟩, rfl⟩
    | ok state =>
      simp only [hdecode] at h
      cases hfile : s.dataFile.isSome with
      | false => simp [hfile] at h
      | true =>
        cases flush with
        | ok => simp [hfile] at h
        | error e' => exact .inr ⟨state, rfl, by simp⟩

/-- A call that returns an error has left the memory alone exactly if it had nothing to
change. -/
theorem failed_call_keeps_memory_iff (decode : List UInt8 → Except String OwnershipState)
    (s : AutoqueuesRaftStorage) (c : StorageCall) (e : StorageError)
    (h : (s.call decode c).2 = .error e) :
    SameMemory s (s.call decode c).1 ↔ s.Idle decode c := by
  cases c with
  | saveVote vote flush =>
    constructor
    · intro hsame
      exact hsame.vote.symm
    · intro hvote
      exact ⟨rfl, hvote.symm, rfl, rfl, rfl, rfl⟩
  | log op =>
    change SameMemory s (s.callLog op).1 ↔ _
    rw [callLog_fst]
    exact sameMemory_runLog_iff s op
  | installSnapshot snapshotMeta data flush =>
    change SameMemory s (s.installSnapshot decode snapshotMeta data flush).1 ↔ _
    rcases installSnapshot_of_error h with ⟨⟨message, hdecode⟩, heq⟩ | ⟨state, hdecode, heq⟩
    · rw [heq, Idle, hdecode]
      constructor
      · intro hsame
        exact ⟨hsame.snapshotMeta.symm, fun state hstate => by cases hstate⟩
      · rintro ⟨hmeta, -⟩
        exact ⟨rfl, rfl, rfl, rfl, rfl, hmeta.symm⟩
    · rw [heq, Idle, hdecode]
      constructor
      · intro hsame
        refine ⟨hsame.snapshotMeta.symm, fun state' hstate => ?_⟩
        obtain rfl := Except.ok.inj hstate
        exact hsame.ownershipState.symm
      · rintro ⟨hmeta, hstate⟩
        exact ⟨rfl, rfl, rfl, (hstate state rfl).symm, rfl, hmeta.symm⟩

/-- A vote that is saved a second time and cannot be written. -/
theorem failed_call_keeps_vote :
    let e : StorageError := ⟨.vote, .write, .other, "disk full"⟩
    let s := AutoqueuesRaftStorage.withPersistence "data" .new [] (some ⟨⟨1, 1⟩, false⟩)
    let c : StorageCall := .saveVote ⟨⟨1, 1⟩, false⟩ (.error e)
    (s.call (fun _ => .ok .new) c).2 = .error e ∧
      SameMemory s (s.call (fun _ => .ok .new) c).1 :=
  ⟨rfl, (failed_call_keeps_memory_iff _ _ _ _ rfl).mpr rfl⟩

/-- Each of the five calls returns an error and has changed the memory. -/
theorem failed_calls_change_memory :
    let entry (i : UInt64) : Entry := ⟨⟨⟨1, 1⟩, i⟩, .blank⟩
    let e : StorageError := ⟨.logs, .write, .other, "disk full"⟩
    let s := AutoqueuesRaftStorage.withPersistence "data" .new [entry 0] none
    let changes (c : StorageCall) : Prop :=
      (∃ e, (s.call (fun _ => .error "bad data") c).2 = .error e) ∧
        ¬ SameMemory s (s.call (fun _ => .error "bad data") c).1
    changes (.saveVote ⟨⟨1, 1⟩, false⟩ (.error e)) ∧
      changes (.log (.appendToLog [entry 1] (.error e))) ∧
      changes (.log (.deleteConflictLogsSince ⟨⟨1, 1⟩, 0⟩ (.error e))) ∧
      changes (.log (.purgeLogsUpto ⟨⟨1, 1⟩, 0⟩ (.error e))) ∧
      changes (.installSnapshot ⟨none, ⟨none, [], []⟩, "snapshot-1"⟩ [1] (.ok ())) := by
  intro entry e s changes
  refine ⟨⟨⟨_, rfl⟩, fun h => ?_⟩, ⟨⟨_, rfl⟩, fun h => ?_⟩, ⟨⟨_, rfl⟩, fun h => ?_⟩,
    ⟨⟨_, rfl⟩, fun h => ?_⟩, ⟨⟨_, rfl⟩, fun h => ?_⟩⟩
  · exact absurd h.vote (by decide +kernel)
  · exact absurd (congrArg (·[(1 : UInt64)]?) h.log) (by decide +kernel)
  · exact absurd (congrArg (·[(0 : UInt64)]?) h.log) (by decide +kernel)
  · exact absurd h.lastApplied (by decide +kernel)
  · exact absurd h.snapshotMeta (by decide +kernel)

end DumbDistributedLog
