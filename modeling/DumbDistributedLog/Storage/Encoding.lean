import DumbDistributedLog.Library.Codec
import DumbDistributedLog.Storage.Machine

/-! # What is written to disk

Log entries and votes are written through mirror types of their own. The mirror of an
entry keeps its id and its command, so a membership entry comes back as a blank one.
The encoding itself is a parameter of the development; the plain one at the end shows
that there are encodings as they are assumed.
-/

namespace DumbDistributedLog

structure SerializableLogEntry where
  index : UInt64
  term : UInt64
  leaderId : UInt64
  command : Option OwnershipCommand
  deriving DecidableEq, Repr

namespace SerializableLogEntry

def ofEntry (entry : Entry) : SerializableLogEntry where
  index := entry.logId.index
  term := entry.logId.leaderId.term
  leaderId := entry.logId.leaderId.nodeId
  command :=
    match entry.payload with
    | .normal cmd => some cmd
    | _ => none

def toEntry (se : SerializableLogEntry) : Entry where
  logId := ⟨⟨se.term, se.leaderId⟩, se.index⟩
  payload :=
    match se.command with
    | some cmd => .normal cmd
    | none => .blank

end SerializableLogEntry

structure SerializableVote where
  term : UInt64
  nodeId : UInt64
  committed : Bool
  deriving DecidableEq, Repr

namespace SerializableVote

def ofVote (vote : Vote) : SerializableVote where
  term := vote.leaderId.term
  nodeId := vote.leaderId.nodeId
  committed := vote.committed

/-- A new vote is not committed; it is committed afterwards if the data say so. -/
def toVote (data : SerializableVote) : Vote :=
  let vote : Vote := ⟨⟨data.term, data.nodeId⟩, false⟩
  if data.committed then { vote with committed := true } else vote

end SerializableVote

structure Oxicode where
  state : Codec OwnershipState
  log : Codec (List SerializableLogEntry)
  vote : Codec SerializableVote

namespace Plain

open Layout

def bool : Layout Bool :=
  word.via (fun b => if b then 1 else 0) (fun w => some (w = 1)) (by decide)

def leaseEntry : Layout LeaseEntry :=
  ((word.pair string).pair word.list).via
    (fun l => ((l.id, l.key), [l.owner, l.acquiredAt, l.ttlSecs, l.expiresAt]))
    (fun p =>
      match p with
      | ((id, key), [owner, acquiredAt, ttlSecs, expiresAt]) =>
        some ⟨id, key, owner, acquiredAt, ttlSecs, expiresAt⟩
      | _ => none)
    fun _ => rfl

def ownershipState : Layout OwnershipState :=
  (((string.table word).pair (word.table string.list)).pair
    (((word.table leaseEntry).pair (string.table word)).pair word)).via
    (fun s => ((s.ownership, s.nodeTopics), ((s.leases, s.keyLeases), s.nextLeaseId)))
    (fun p => some ⟨p.1.1, p.1.2, p.2.1.1, p.2.1.2, p.2.2⟩)
    fun _ => rfl

def ownershipCommand : Layout OwnershipCommand :=
  ((word.pair string.list).pair word.list).via
    (fun cmd =>
      match cmd with
      | .claimTopic topic nodeId timestamp => ((0, [topic]), [nodeId, timestamp])
      | .releaseTopic topic nodeId => ((1, [topic]), [nodeId])
      | .transferTopic topic fromNode toNode => ((2, [topic]), [fromNode, toNode])
      | .acquireLease key owner leaseId ttlSecs timestamp =>
        ((3, [key]), [owner, leaseId, ttlSecs, timestamp])
      | .renewLease leaseId timestamp => ((4, []), [leaseId, timestamp])
      | .releaseLease key => ((5, [key]), [])
      | .expireLeases now => ((6, []), [now]))
    (fun p =>
      match p with
      | ((0, [topic]), [nodeId, timestamp]) => some (.claimTopic topic nodeId timestamp)
      | ((1, [topic]), [nodeId]) => some (.releaseTopic topic nodeId)
      | ((2, [topic]), [fromNode, toNode]) => some (.transferTopic topic fromNode toNode)
      | ((3, [key]), [owner, leaseId, ttlSecs, timestamp]) =>
        some (.acquireLease key owner leaseId ttlSecs timestamp)
      | ((4, []), [leaseId, timestamp]) => some (.renewLease leaseId timestamp)
      | ((5, [key]), []) => some (.releaseLease key)
      | ((6, []), [now]) => some (.expireLeases now)
      | _ => none)
    fun cmd => by cases cmd <;> rfl

def logEntry : Layout SerializableLogEntry :=
  ((word.pair word).pair (word.pair ownershipCommand.list)).via
    (fun se => ((se.index, se.term), (se.leaderId, se.command.toList)))
    (fun p => some ⟨p.1.1, p.1.2, p.2.1, p.2.2.head?⟩)
    fun se => by cases se with | mk index term leaderId command => cases command <;> rfl

def vote : Layout SerializableVote :=
  ((word.pair word).pair bool).via (fun v => ((v.term, v.nodeId), v.committed))
    (fun p => some ⟨p.1.1, p.1.2, p.2⟩) fun _ => rfl

def oxicode : Oxicode where
  state := ownershipState.codec fun _ =>
    write_pair_ne_nil (write_pair_ne_nil (write_table_ne_nil _ _)) _
  log := logEntry.list.codec (write_list_ne_nil _)
  vote := vote.codec fun _ => write_pair_ne_nil (write_pair_ne_nil write_word_ne_nil) _

end Plain

end DumbDistributedLog
