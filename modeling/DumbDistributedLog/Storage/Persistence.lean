import DumbDistributedLog.Storage.Effects
import DumbDistributedLog.Storage.Encoding
import DumbDistributedLog.Storage.LogReader

/-! # The files of a storage

A storage with persistence keeps the ownership state, the log and the vote in one file
each, and a later process reads them back. Every write goes to a temporary file that is
then renamed, so a write that fails leaves the old file.
-/

namespace DumbDistributedLog

open AutoqueuesRaftStorage

structure Directory where
  ownershipState : Option (List UInt8)
  raftLog : Option (List UInt8)
  vote : Option (List UInt8)
  deriving DecidableEq, Repr

def Directory.empty : Directory := ⟨none, none, none⟩

/-- What a flush of the ownership state meets: whether another one is under way, and what
becomes of the write. -/
structure FlushAttempt where
  busy : Bool
  write : Except StorageError Unit

def FlushAttempt.written (attempt : FlushAttempt) : Bool := !attempt.busy && attempt.write.isOk

/-- A write to a file that may not be configured, with the contents it leaves. -/
def writeFile (path : Option String) (missing : StorageError) (bytes : List UInt8)
    (write : Except StorageError Unit) (old : Option (List UInt8)) :
    Option (List UInt8) × Except StorageError Unit :=
  match path, write with
  | none, _ => (old, .error missing)
  | some _, .error e => (old, .error e)
  | some _, .ok () => (some bytes, .ok ())

def readFile {α : Type*} (decode : List UInt8 → Except String α) (subject : ErrorSubject)
    (buffer : List UInt8) : Except StorageError α :=
  match decode buffer with
  | .error e => .error ⟨subject, .read, .invalidData, e⟩
  | .ok a => .ok a

def loadIfExists {α : Type*} (absent : α) (load : List UInt8 → Except StorageError α) :
    Option (List UInt8) → Except StorageError α
  | none => .ok absent
  | some buffer => load buffer

section Files

variable (codecs : Oxicode)

namespace AutoqueuesRaftStorage

variable (s : AutoqueuesRaftStorage)

/-- Only one flush of the ownership state is made at a time. -/
def flushToFile (attempt : FlushAttempt) (dir : Directory) :
    Directory × Except StorageError Unit :=
  if attempt.busy then (dir, .error ⟨.logs, .write, .wouldBlock, "Flush already in progress"⟩)
  else
    let (file, result) := writeFile s.dataFile ⟨.logs, .write, .notFound, "No data file configured"⟩
      (codecs.state.encode s.ownershipState) attempt.write dir.ownershipState
    ({ dir with ownershipState := file }, result)

def flushLogToFile (write : Except StorageError Unit) (dir : Directory) :
    Directory × Except StorageError Unit :=
  let (file, result) := writeFile s.logFile ⟨.logs, .write, .notFound, "No log file configured"⟩
    (codecs.log.encode (s.log.values.map .ofEntry)) write dir.raftLog
  ({ dir with raftLog := file }, result)

def flushVoteToFile (vote : Vote) (write : Except StorageError Unit) (dir : Directory) :
    Directory × Except StorageError Unit :=
  let (file, result) := writeFile s.voteFile ⟨.vote, .write, .notFound, "No vote file configured"⟩
    (codecs.vote.encode (.ofVote vote)) write dir.vote
  ({ dir with vote := file }, result)

/-- The files after the last handle has been dropped, which flushes a dirty state. -/
def drop (attempt : FlushAttempt) (dir : Directory) : Directory :=
  if s.dirty && s.dataFile.isSome then (s.flushToFile codecs attempt dir).1 else dir

end AutoqueuesRaftStorage

/-- An empty buffer is not decoded and leaves the new state. -/
def loadFromFile (buffer : List UInt8) : Except StorageError OwnershipState :=
  if buffer.isEmpty then .ok .new else readFile codecs.state.decode .snapshot buffer

def loadLogFromFile (buffer : List UInt8) : Except StorageError (List Entry) :=
  (readFile codecs.log.decode .logs buffer).map (List.map SerializableLogEntry.toEntry)

def loadVoteFromFile (buffer : List UInt8) : Except StorageError Vote :=
  (readFile codecs.vote.decode .vote buffer).map SerializableVote.toVote

namespace Directory

variable (dir : Directory)

def loadState : Except StorageError OwnershipState :=
  loadIfExists .new (loadFromFile codecs) dir.ownershipState

def loadLog : Except StorageError (List Entry) :=
  loadIfExists [] (loadLogFromFile codecs) dir.raftLog

def loadVote : Except StorageError (Option Vote) :=
  loadIfExists none (fun buffer => (loadVoteFromFile codecs buffer).map some) dir.vote

/-- The storage that a process opens over the directory. -/
def withPersistence (dataDir : String) : Except StorageError AutoqueuesRaftStorage := do
  let state ← dir.loadState codecs
  let entries ← dir.loadLog codecs
  let vote ← dir.loadVote codecs
  return .withPersistence dataDir state entries vote

end Directory

end Files

def LogOp.flush : LogOp → Except StorageError Unit
  | .appendToLog _ flush => flush
  | .deleteConflictLogsSince _ flush => flush
  | .purgeLogsUpto _ flush => flush

/-- The operations of a process on its storage, and the end of the process, with or
without dropping the storage, with the start of the next one. -/
inductive DiskOp where
  | log (op : LogOp)
  | saveVote (vote : Vote) (flush : Except StorageError Unit)
  | applyToStateMachine (entries : List Entry) (attempt : FlushAttempt)
  | restart (dropped : Option FlushAttempt)

structure Opened where
  storage : AutoqueuesRaftStorage
  directory : Directory

namespace Opened

section Step

variable (codecs : Oxicode) (dataDir : String) (o : Opened)

def log (op : LogOp) : Opened :=
  let changed := o.storage.runLog op
  ⟨changed, if changed.logFile.isSome then
    (changed.flushLogToFile codecs op.flush o.directory).1 else o.directory⟩

def saveVote (vote : Vote) (flush : Except StorageError Unit) : Opened :=
  let changed := (o.storage.saveVote vote flush).1
  ⟨changed, if changed.logFile.isSome then
    (changed.flushVoteToFile codecs vote flush o.directory).1 else o.directory⟩

def applyToStateMachine (entries : List Entry) (attempt : FlushAttempt) : Opened :=
  let applied := (o.storage.applyEntries entries).1
  let (directory, flush) :=
    if applied.dataFile.isSome && applied.dirty then
      applied.flushToFile codecs attempt o.directory
    else (o.directory, .ok ())
  ⟨(o.storage.applyToStateMachine entries flush).1, directory⟩

def stopped : Option FlushAttempt → Directory
  | some attempt => o.storage.drop codecs attempt o.directory
  | none => o.directory

/-- Without a storage to go on with, nothing more happens. -/
def restart (dropped : Option FlushAttempt) : Opened :=
  match (o.stopped codecs dropped).withPersistence codecs dataDir with
  | .ok s => ⟨s, o.stopped codecs dropped⟩
  | .error _ => ⟨o.storage, o.stopped codecs dropped⟩

def step : DiskOp → Opened
  | .log op => o.log codecs op
  | .saveVote vote flush => o.saveVote codecs vote flush
  | .applyToStateMachine entries attempt => o.applyToStateMachine codecs entries attempt
  | .restart dropped => o.restart codecs dataDir dropped

def flushes : DiskOp → Bool
  | .applyToStateMachine entries attempt =>
    (o.storage.dirty || entries.any fun e => e.command.isSome) && attempt.written
  | .restart (some attempt) => o.storage.dirty && attempt.written
  | _ => false

end Step

/-- All three files are configured, the entries are stored under their indices, and the
directory can be opened again. -/
structure Valid (codecs : Oxicode) (o : Opened) : Prop where
  logFile : o.storage.logFile.isSome
  voteFile : o.storage.voteFile.isSome
  dataFile : o.storage.dataFile.isSome
  keyed : LogKeyed o.storage
  state : ∃ state, o.directory.loadState codecs = .ok state
  log : ∃ entries, o.directory.loadLog codecs = .ok entries
  vote : ∃ vote, o.directory.loadVote codecs = .ok vote

end Opened

def Entry.mirrored (e : Entry) : Entry := (SerializableLogEntry.ofEntry e).toEntry

variable {codecs : Oxicode} {dataDir : String} {dir : Directory} {s : AutoqueuesRaftStorage}
  {o : Opened}

theorem Directory.withPersistence_eq_ok : dir.withPersistence codecs dataDir = .ok s ↔
    ∃ state entries vote, dir.loadState codecs = .ok state ∧ dir.loadLog codecs = .ok entries ∧
      dir.loadVote codecs = .ok vote ∧ s = .withPersistence dataDir state entries vote := by
  unfold Directory.withPersistence
  constructor
  · intro h
    cases hstate : dir.loadState codecs with
    | error e => simp [hstate, bind, Except.bind] at h
    | ok state =>
      cases hlog : dir.loadLog codecs with
      | error e => simp [hstate, hlog, bind, Except.bind] at h
      | ok entries =>
        cases hvote : dir.loadVote codecs with
        | error e => simp [hstate, hlog, hvote, bind, Except.bind] at h
        | ok vote =>
          rw [hstate, hlog, hvote] at h
          exact ⟨state, entries, vote, rfl, rfl, rfl, (Except.ok.inj h).symm⟩
  · rintro ⟨state, entries, vote, hstate, hlog, hvote, rfl⟩
    rw [hstate, hlog, hvote]
    rfl

section RoundTrip

theorem readFile_encode {α : Type*} (codec : Codec α) (subject : ErrorSubject) (a : α) :
    readFile codec.decode subject (codec.encode a) = .ok a := by
  rw [readFile, codec.decode_encode]

theorem loadState_encode (state : OwnershipState)
    (h : dir.ownershipState = some (codecs.state.encode state)) :
    dir.loadState codecs = .ok state := by
  have hne : (codecs.state.encode state).isEmpty = false := by
    simpa using codecs.state.encode_ne_nil state
  rw [Directory.loadState, h, loadIfExists, loadFromFile, hne, readFile_encode]
  rfl

theorem loadLog_encode (log : Table UInt64 Entry)
    (h : dir.raftLog = some (codecs.log.encode (log.values.map .ofEntry))) :
    dir.loadLog codecs = .ok (log.values.map Entry.mirrored) := by
  rw [Directory.loadLog, h, loadIfExists, loadLogFromFile, readFile_encode, Except.map,
    List.map_map]
  rfl

theorem SerializableVote.toVote_ofVote (vote : Vote) : (ofVote vote).toVote = vote := by
  obtain ⟨⟨term, nodeId⟩, committed⟩ := vote
  cases committed <;> rfl

theorem loadVote_encode (vote : Vote)
    (h : dir.vote = some (codecs.vote.encode (.ofVote vote))) :
    dir.loadVote codecs = .ok (some vote) := by
  rw [Directory.loadVote, h, loadIfExists, loadVoteFromFile, readFile_encode, Except.map,
    SerializableVote.toVote_ofVote]
  rfl

end RoundTrip

section Effects

theorem writeFile_of_isSome {path : Option String} (h : path.isSome) (missing : StorageError)
    (bytes : List UInt8) (write : Except StorageError Unit) (old : Option (List UInt8)) :
    writeFile path missing bytes write old = (if write.isOk then some bytes else old, write) := by
  obtain ⟨p, rfl⟩ := Option.isSome_iff_exists.mp h
  cases write <;> rfl

theorem AutoqueuesRaftStorage.flushToFile_of_isSome (codecs : Oxicode) (dir : Directory)
    (h : s.dataFile.isSome) (attempt : FlushAttempt) : (s.flushToFile codecs attempt dir).1 =
      { dir with
        ownershipState := if attempt.written then some (codecs.state.encode s.ownershipState)
          else dir.ownershipState } ∧
      (s.flushToFile codecs attempt dir).2.isOk = attempt.written := by
  obtain ⟨busy, write⟩ := attempt
  unfold flushToFile
  rw [writeFile_of_isSome h]
  cases busy with
  | false => simp [FlushAttempt.written]
  | true => exact ⟨rfl, rfl⟩

namespace Opened

theorem runLog_eq (s : AutoqueuesRaftStorage) (op : LogOp) : ∃ log lastApplied,
    s.runLog op = { s with log, lastApplied } := by
  cases op <;> exact ⟨_, _, rfl⟩

theorem directory_log (codecs : Oxicode) (h : o.storage.logFile.isSome) (op : LogOp) :
    (o.log codecs op).directory = { o.directory with
      raftLog := if op.flush.isOk then
          some (codecs.log.encode ((o.storage.runLog op).log.values.map .ofEntry))
        else o.directory.raftLog } := by
  have hfile : (o.storage.runLog op).logFile.isSome := by
    obtain ⟨log, lastApplied, heq⟩ := runLog_eq o.storage op
    rw [heq]
    exact h
  simp only [log, flushLogToFile, hfile, if_true, writeFile_of_isSome]

theorem directory_saveVote (codecs : Oxicode) (hlog : o.storage.logFile.isSome)
    (hvote : o.storage.voteFile.isSome) (vote : Vote) (flush : Except StorageError Unit) :
    (o.saveVote codecs vote flush).directory = { o.directory with
      vote := if flush.isOk then some (codecs.vote.encode (.ofVote vote))
        else o.directory.vote } := by
  have hlog' : (o.storage.saveVote vote flush).1.logFile.isSome := hlog
  have hvote' : (o.storage.saveVote vote flush).1.voteFile.isSome := hvote
  simp only [saveVote, flushVoteToFile, hlog', if_true, writeFile_of_isSome hvote']

/-- A batch replays its commands in memory. The state is written if something in it has
not been written yet and the write succeeds. -/
theorem applyToStateMachine_eq (codecs : Oxicode) (h : o.storage.dataFile.isSome)
    (entries : List Entry) (attempt : FlushAttempt) :
    let state := o.storage.ownershipState.replay entries
    let dirty := o.storage.dirty || entries.any fun e => e.command.isSome
    o.applyToStateMachine codecs entries attempt =
      ⟨{ o.storage with
          lastApplied := (entries.getLast?.map Entry.logId).or o.storage.lastApplied
          ownershipState := state
          dirty := dirty && !attempt.written },
        { o.directory with
          ownershipState := if dirty && attempt.written then some (codecs.state.encode state)
            else o.directory.ownershipState }⟩ := by
  intro state dirty
  unfold applyToStateMachine
  simp only [AutoqueuesRaftStorage.applyToStateMachine_eq, applyEntries_eq, h, Bool.true_and]
  cases hd : o.storage.dirty || entries.any fun e => e.command.isSome with
  | false => simp [state, dirty, hd]
  | true =>
    have hfile : (o.storage.applyEntries entries).1.dataFile.isSome := by
      rw [applyEntries_eq]
      exact h
    obtain ⟨hdir, hres⟩ := flushToFile_of_isSome codecs o.directory hfile attempt
    rw [applyEntries_eq, hd] at hdir hres
    simp [state, dirty, hd, hdir, hres]

theorem stopped_eq (h : o.storage.dataFile.isSome) (dropped : Option FlushAttempt) :
    o.stopped codecs dropped = { o.directory with
      ownershipState := if o.flushes (.restart dropped) then
          some (codecs.state.encode o.storage.ownershipState)
        else o.directory.ownershipState } := by
  cases dropped with
  | none => rfl
  | some attempt =>
    simp only [stopped, drop, flushes, h, Bool.and_true,
      (flushToFile_of_isSome codecs o.directory h attempt).1]
    by_cases hd : o.storage.dirty <;> simp [hd]

namespace Valid

theorem of_withPersistence (h : dir.withPersistence codecs dataDir = .ok s) :
    Valid codecs ⟨s, dir⟩ := by
  obtain ⟨state, entries, vote, hstate, hlog, hvote, rfl⟩ := Directory.withPersistence_eq_ok.mp h
  exact ⟨rfl, rfl, rfl, (Created.withPersistence dataDir state entries vote).logKeyed,
    ⟨state, hstate⟩, ⟨entries, hlog⟩, ⟨vote, hvote⟩⟩

theorem stopped (h : Valid codecs o) (dataDir : String) (dropped : Option FlushAttempt) : ∃ s,
    (o.stopped codecs dropped).withPersistence codecs dataDir = .ok s := by
  obtain ⟨entries, hlog⟩ := h.log
  obtain ⟨vote, hvote⟩ := h.vote
  have hstate : ∃ state, (o.stopped codecs dropped).loadState codecs = .ok state := by
    rw [stopped_eq h.dataFile]
    split
    · exact ⟨_, loadState_encode o.storage.ownershipState rfl⟩
    · exact h.state
  obtain ⟨state, hstate⟩ := hstate
  rw [stopped_eq h.dataFile] at hstate ⊢
  exact ⟨_, Directory.withPersistence_eq_ok.mpr ⟨state, entries, vote, hstate, hlog, hvote, rfl⟩⟩

theorem step (h : Valid codecs o) (dataDir : String) (op : DiskOp) :
    Valid codecs (o.step codecs dataDir op) := by
  cases op with
  | log op =>
    obtain ⟨log, lastApplied, heq⟩ := runLog_eq o.storage op
    have hdir := directory_log codecs h.logFile op
    have hstorage : (o.log codecs op).storage = o.storage.runLog op := rfl
    change Valid codecs (o.log codecs op)
    constructor
    · rw [hstorage, heq]
      exact h.logFile
    · rw [hstorage, heq]
      exact h.voteFile
    · rw [hstorage, heq]
      exact h.dataFile
    · exact h.keyed.runLog op
    · rw [hdir]
      exact h.state
    · rw [hdir]
      split
      · exact ⟨_, loadLog_encode _ rfl⟩
      · exact h.log
    · rw [hdir]
      exact h.vote
  | saveVote vote flush =>
    have hdir := directory_saveVote codecs h.logFile h.voteFile vote flush
    change Valid codecs (o.saveVote codecs vote flush)
    refine ⟨h.logFile, h.voteFile, h.dataFile, h.keyed, ?_, ?_, ?_⟩
    · rw [hdir]
      exact h.state
    · rw [hdir]
      exact h.log
    · rw [hdir]
      split
      · exact ⟨_, loadVote_encode vote rfl⟩
      · exact h.vote
  | applyToStateMachine entries attempt =>
    change Valid codecs (o.applyToStateMachine codecs entries attempt)
    rw [applyToStateMachine_eq codecs h.dataFile]
    refine ⟨h.logFile, h.voteFile, h.dataFile, h.keyed, ?_, h.log, h.vote⟩
    split
    · exact ⟨_, loadState_encode _ rfl⟩
    · exact h.state
  | restart dropped =>
    obtain ⟨s, hs⟩ := h.stopped dataDir dropped
    change Valid codecs (o.restart codecs dataDir dropped)
    rw [restart, hs]
    exact of_withPersistence hs

end Valid

end Opened

end Effects

end DumbDistributedLog
