import DumbDistributedLog.Ownership.Machine

/-! # The Raft storage

The storage keeps the log, the applied position and the snapshot in memory and the
ownership state behind it. A clone copies most cells and shares the ownership state
and its dirty flag with the original. An operation changes memory first and then
writes a file if one is configured; what became of that write is a parameter.
-/

namespace DumbDistributedLog

structure LeaderId where
  term : UInt64
  nodeId : UInt64
  deriving DecidableEq, Repr

structure LogId where
  leaderId : LeaderId
  index : UInt64
  deriving DecidableEq, Repr

structure Vote where
  leaderId : LeaderId
  committed : Bool
  deriving DecidableEq, Repr

/-- A cluster configuration; the storage only passes it on. -/
structure Membership where
  configs : List (List NodeId)
  nodes : List (NodeId × String)
  deriving DecidableEq, Repr

structure StoredMembership where
  logId : Option LogId
  membership : Membership
  deriving DecidableEq, Repr

inductive EntryPayload where
  | blank
  | normal (cmd : OwnershipCommand)
  | membership (membership : Membership)
  deriving DecidableEq, Repr

structure Entry where
  logId : LogId
  payload : EntryPayload
  deriving DecidableEq, Repr

structure SnapshotMeta where
  lastLogId : Option LogId
  lastMembership : StoredMembership
  snapshotId : String
  deriving DecidableEq, Repr

structure Snapshot where
  snapshotMeta : SnapshotMeta
  data : List UInt8
  deriving DecidableEq, Repr

inductive ErrorSubject where
  | store
  | vote
  | logs
  | snapshot
  deriving DecidableEq, Repr

inductive ErrorVerb where
  | read
  | write
  deriving DecidableEq, Repr

inductive ErrorKind where
  | notFound
  | wouldBlock
  | invalidData
  | other
  deriving DecidableEq, Repr

structure StorageError where
  subject : ErrorSubject
  verb : ErrorVerb
  kind : ErrorKind
  message : String
  deriving DecidableEq, Repr

structure LogState where
  lastPurgedLogId : Option LogId
  lastLogId : Option LogId
  deriving DecidableEq, Repr

/-- The cells of which a clone has its own copy. -/
structure StorageCells where
  log : Table UInt64 Entry
  logFile : Option String
  vote : Option Vote
  voteFile : Option String
  lastApplied : Option LogId
  committed : Option (Option LogId)
  snapshotMeta : Option SnapshotMeta
  snapshot : Option Snapshot
  membership : StoredMembership
  dataFile : Option String

/-- The cells that all clones have in common. -/
structure SharedCells where
  ownershipState : OwnershipState
  dirty : Bool

structure AutoqueuesRaftStorage extends StorageCells, SharedCells

inductive Bound where
  | included (i : UInt64)
  | excluded (i : UInt64)
  | unbounded
  deriving DecidableEq, Repr

/-- The response to a command that has just been applied. Answering a sweep sweeps
the state once more. -/
def OwnershipState.respond (state : OwnershipState) :
    OwnershipCommand → OwnershipState × OwnershipResponse
  | .claimTopic topic _ _ => (state, .owner topic (state.getOwner topic))
  | .releaseTopic topic _ => (state, .owner topic (state.getOwner topic))
  | .transferTopic topic _ _ => (state, .owner topic (state.getOwner topic))
  | .acquireLease key _ _ _ _ => (state, .leaseOwner key (state.getLeaseInfo key))
  | .renewLease leaseId _ => (state, .leaseResult (state.getLease leaseId) none)
  | .releaseLease key => (state, .leaseOwner key none)
  | .expireLeases now =>
    let (swept, count) := state.expireLeases now
    (swept, .leaseCount count)

namespace AutoqueuesRaftStorage

def new : AutoqueuesRaftStorage where
  log := ∅
  logFile := none
  vote := none
  voteFile := none
  lastApplied := none
  committed := none
  snapshotMeta := none
  snapshot := none
  membership := ⟨none, [], []⟩
  dataFile := none
  ownershipState := .new
  dirty := false

/-- Entries enter the log under their indices, later ones over earlier ones. -/
def insertEntries (log : Table UInt64 Entry) (entries : List Entry) : Table UInt64 Entry :=
  entries.foldl (fun log entry => log.insert entry.logId.index entry) log

/-- A storage over a directory, with what was found in its files. -/
def withPersistence (dataDir : String) (state : OwnershipState) (entries : List Entry)
    (vote : Option Vote) : AutoqueuesRaftStorage :=
  { new with
    log := insertEntries ∅ entries
    logFile := some (dataDir ++ "/raft_log.dat")
    vote
    voteFile := some (dataDir ++ "/vote.dat")
    dataFile := some (dataDir ++ "/ownership_state.bin")
    ownershipState := state }

inductive Created : AutoqueuesRaftStorage → Prop
  | new : Created new
  | withPersistence (dataDir : String) (state : OwnershipState) (entries : List Entry)
      (vote : Option Vote) : Created (withPersistence dataDir state entries vote)

variable (s : AutoqueuesRaftStorage)

def clone : AutoqueuesRaftStorage where
  toStorageCells := s.toStorageCells
  toSharedCells := s.toSharedCells

/-- A clone after an operation has left the original in the given state. -/
def follow (original : AutoqueuesRaftStorage) : AutoqueuesRaftStorage :=
  { s with toSharedCells := original.toSharedCells }

def getLogReader : AutoqueuesRaftStorage := s.clone

/-- The outcome of an operation on the log or the vote, whose flush is tried only with a
log file. -/
def flushedLog (flush : Except StorageError Unit) : Except StorageError Unit :=
  if s.logFile.isSome then flush else .ok ()

def saveVote (vote : Vote) (flush : Except StorageError Unit) :
    AutoqueuesRaftStorage × Except StorageError Unit :=
  ({ s with vote := some vote }, s.flushedLog flush)

def readVote : Option Vote := s.vote

def saveCommitted (committed : Option LogId) : AutoqueuesRaftStorage :=
  { s with committed := some committed }

def appendToLog (entries : List Entry) (flush : Except StorageError Unit) :
    AutoqueuesRaftStorage × Except StorageError Unit :=
  ({ s with log := insertEntries s.log entries }, s.flushedLog flush)

def deleteConflictLogsSince (logId : LogId) (flush : Except StorageError Unit) :
    AutoqueuesRaftStorage × Except StorageError Unit :=
  ({ s with log := s.log.filter fun k _ => ¬ k ≥ logId.index }, s.flushedLog flush)

def purgeLogsUpto (logId : LogId) (flush : Except StorageError Unit) :
    AutoqueuesRaftStorage × Except StorageError Unit :=
  ({ s with log := s.log.filter fun k _ => ¬ k ≤ logId.index, lastApplied := some logId },
    s.flushedLog flush)

def lastAppliedState : Option LogId × StoredMembership := (s.lastApplied, s.membership)

def applyEntry (entry : Entry) : AutoqueuesRaftStorage × OwnershipResponse :=
  match entry.payload with
  | .normal cmd =>
    let (state, response) := (s.ownershipState.apply cmd).respond cmd
    ({ s with lastApplied := some entry.logId, ownershipState := state, dirty := true }, response)
  | .membership _ => ({ s with lastApplied := some entry.logId }, .owner "" none)
  | .blank => ({ s with lastApplied := some entry.logId }, .owner "" none)

def applyEntries (s : AutoqueuesRaftStorage) :
    List Entry → AutoqueuesRaftStorage × List OwnershipResponse
  | [] => (s, [])
  | entry :: entries =>
    let (next, response) := s.applyEntry entry
    let (last, result) := applyEntries next entries
    (last, response :: result)

def applyToStateMachine (entries : List Entry) (flush : Except StorageError Unit) :
    AutoqueuesRaftStorage × Except StorageError (List OwnershipResponse) :=
  let (applied, result) := s.applyEntries entries
  if applied.dataFile.isSome && applied.dirty then
    match flush with
    | .error e => (applied, .error e)
    | .ok () => ({ applied with dirty := false }, .ok result)
  else (applied, .ok result)

/-- The snapshot is kept once its data, if any, has replaced the ownership state and
has been flushed. The applied position stays as it is. -/
def installSnapshot (decode : List UInt8 → Except String OwnershipState)
    (snapshotMeta : SnapshotMeta) (data : List UInt8) (flush : Except StorageError Unit) :
    AutoqueuesRaftStorage × Except StorageError Unit :=
  let noted := { s with snapshotMeta := some snapshotMeta }
  if data.isEmpty then ({ noted with snapshot := some ⟨snapshotMeta, data⟩ }, .ok ())
  else
    match decode data with
    | .error e => (noted, .error ⟨.snapshot, .read, .invalidData, e⟩)
    | .ok state =>
      let restored := { noted with ownershipState := state, dirty := true }
      if restored.dataFile.isSome then
        match flush with
        | .error e => (restored, .error e)
        | .ok () =>
          ({ restored with dirty := false, snapshot := some ⟨snapshotMeta, data⟩ }, .ok ())
      else ({ restored with snapshot := some ⟨snapshotMeta, data⟩ }, .ok ())

def rangeStart : Bound → UInt64
  | .included i => i
  | .excluded i => i + 1
  | .unbounded => 0

def lastIndex : Option UInt64 := s.log.keys.getLast?

/-- The id of the last entry in the log, or the applied position if the log is empty. -/
def lastLogId : Option LogId :=
  match s.lastIndex with
  | some k => s.log[k]?.map fun entry => entry.logId
  | none => s.lastApplied

def getLogState : LogState where
  lastPurgedLogId := s.lastApplied
  lastLogId := s.lastLogId

def getSnapshotBuilder : AutoqueuesRaftStorage := s.clone

/-- The metadata are taken from the handle's own cells, the data from the shared state.
Only the metadata are kept. -/
def buildSnapshot (encode : OwnershipState → List UInt8) (millis : ℕ) :
    AutoqueuesRaftStorage × Snapshot :=
  let snapshotMeta : SnapshotMeta :=
    ⟨s.lastLogId, s.membership, "snapshot-" ++ toString millis⟩
  ({ s with snapshotMeta := some snapshotMeta }, ⟨snapshotMeta, encode s.ownershipState⟩)

def getCurrentSnapshot : Option Snapshot := s.snapshot

def rangeEnd : Bound → UInt64
  | .included i => i + 1
  | .excluded i => i
  | .unbounded =>
    match s.lastIndex with
    | some k => k + 1
    | none => 0

/-- The entries of a range in the order of their indices. There is no result for an
inverted range, on which the map panics. -/
def tryGetLogEntries (lo hi : Bound) : Option (List Entry) :=
  let start := rangeStart lo
  let stop := s.rangeEnd hi
  if start ≤ stop then
    some ((s.log.toList.filter fun p => start ≤ p.1 ∧ p.1 < stop).map fun p => p.2)
  else none

end AutoqueuesRaftStorage

end DumbDistributedLog
