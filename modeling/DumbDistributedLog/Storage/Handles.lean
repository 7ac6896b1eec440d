import DumbDistributedLog.Library.Codec
import DumbDistributedLog.Storage.Applied
import DumbDistributedLog.Storage.Effects

/-! # A storage and its snapshot builders

The Raft engine works on one storage and builds snapshots through clones of it, while
the operations on the storage go on. Beside the handles we note what the engine relies
on: the last purged position, the last membership and the last snapshot.
-/

namespace DumbDistributedLog

open AutoqueuesRaftStorage

def lastMembership (entries : List Entry) : Option StoredMembership :=
  (entries.filterMap Entry.storedMembership).getLast?

namespace StorageOp

def purges : StorageOp → Option LogId
  | .purgeLogsUpto logId _ => some logId
  | _ => none

def applies : StorageOp → List Entry
  | .applyToStateMachine entries _ => entries
  | _ => []

def installs (decode : List UInt8 → Except String OwnershipState) (s : AutoqueuesRaftStorage) :
    StorageOp → Option Snapshot
  | .installSnapshot snapshotMeta data flush =>
    if (s.installSnapshot decode snapshotMeta data flush).2 = .ok () then
      some ⟨snapshotMeta, data⟩
    else none
  | _ => none

end StorageOp

inductive HandleOp where
  | storage (op : StorageOp)
  | saveVote (vote : Vote) (flush : Except StorageError Unit)
  | saveCommitted (committed : Option LogId)
  | getSnapshotBuilder
  | buildSnapshot (builder millis : ℕ)

/-- A storage, the own cells of its builders, and what has been noted: the argument of
the last purge, the last applied or installed membership, the last snapshot built or
installed. -/
structure Handles where
  tracked : Tracked
  builders : List StorageCells
  purged : Option LogId
  membership : StoredMembership
  latest : Option Snapshot

namespace Handles

def init (s : AutoqueuesRaftStorage) : Handles := ⟨.init s, [], none, s.membership, none⟩

variable (codec : Codec OwnershipState) (h : Handles)

def storage : AutoqueuesRaftStorage := h.tracked.storage

def setStorage (s : AutoqueuesRaftStorage) : Handles :=
  { h with tracked := { h.tracked with storage := s } }

/-- A builder sees its own cells and those that all handles share. -/
def builder (i : ℕ) : Option AutoqueuesRaftStorage :=
  h.builders[i]?.map fun cells =>
    { toStorageCells := cells, toSharedCells := h.storage.toSharedCells }

def step : HandleOp → Handles
  | .storage op =>
    let installed := op.installs codec.decode h.storage
    { h with
      tracked := h.tracked.step codec.decode op
      purged := op.purges.or h.purged
      membership := ((installed.map fun snap => snap.snapshotMeta.lastMembership).or
        (lastMembership op.applies)).getD h.membership
      latest := installed.or h.latest }
  | .saveVote vote flush => h.setStorage (h.storage.saveVote vote flush).1
  | .saveCommitted committed => h.setStorage (h.storage.saveCommitted committed)
  | .getSnapshotBuilder =>
    { h with builders := h.builders ++ [h.storage.getSnapshotBuilder.toStorageCells] }
  | .buildSnapshot i millis =>
    match h.builder i with
    | none => h
    | some b =>
      let (built, snapshot) := b.buildSnapshot codec.encode millis
      { h with
        builders := h.builders.set i built.toStorageCells
        latest := some snapshot }

/-- How the Raft engine calls the storage; the other operations are free. -/
def Disciplined : HandleOp → Prop
  | .storage op => h.tracked.Disciplined op
  | _ => True

instance : ∀ op, Decidable (h.Disciplined op)
  | .storage op => inferInstanceAs (Decidable (h.tracked.Disciplined op))
  | .saveVote _ _ => .isTrue trivial
  | .saveCommitted _ => .isTrue trivial
  | .getSnapshotBuilder => .isTrue trivial
  | .buildSnapshot _ _ => .isTrue trivial

end Handles

end DumbDistributedLog
