import DumbDistributedLog.Library.Tables
import DumbDistributedLog.Library.U64

/-! # The ownership state machine

Commands applied through the replicated log move topics between nodes and grant
leases on keys. The state keeps every relation twice, `ownership` with
`nodeTopics` and `leases` with `keyLeases`, and each command updates both sides.
Words are 64 bits wide and plain addition wraps, as in the release profile.
-/

namespace DumbDistributedLog

abbrev NodeId := UInt64

/-- A lease as the state machine stores it. -/
structure LeaseEntry where
  id : UInt64
  key : String
  owner : NodeId
  acquiredAt : UInt64
  ttlSecs : UInt64
  expiresAt : UInt64
  deriving DecidableEq, Repr

/-- A lease as it is returned to callers. -/
structure LeaseInfo where
  id : UInt64
  key : String
  owner : NodeId
  acquiredAt : UInt64
  expiresAt : UInt64
  ttlSecs : UInt64
  deriving DecidableEq, Repr

inductive LeaseError where
  | leaseHeld (key : String) (owner : NodeId)
  | leaseExpired (id : UInt64)
  | leaseNotFound (id : UInt64)
  deriving DecidableEq, Repr

def LeaseInfo.ofEntry (entry : LeaseEntry) : LeaseInfo where
  id := entry.id
  key := entry.key
  owner := entry.owner
  acquiredAt := entry.acquiredAt
  expiresAt := entry.expiresAt
  ttlSecs := entry.ttlSecs

inductive OwnershipCommand where
  | claimTopic (topic : String) (nodeId : NodeId) (timestamp : UInt64)
  | releaseTopic (topic : String) (nodeId : NodeId)
  | transferTopic (topic : String) (fromNode toNode : NodeId)
  | acquireLease (key : String) (owner : NodeId) (leaseId ttlSecs timestamp : UInt64)
  | renewLease (leaseId timestamp : UInt64)
  | releaseLease (key : String)
  | expireLeases (now : UInt64)
  deriving DecidableEq, Repr

inductive OwnershipQuery where
  | getOwner (topic : String)
  | listTopics (nodeId : NodeId)
  | listAll
  | getLeaseOwner (key : String)
  | listLeases (owner : NodeId)
  | getLease (leaseId : UInt64)

inductive OwnershipResponse where
  | owner (topic : String) (owner : Option NodeId)
  | topics (topics : List String)
  | all (ownership : Table String NodeId)
  | leaseOwner (key : String) (info : Option LeaseInfo)
  | leases (leases : List LeaseInfo)
  | leaseResult (lease : Option LeaseEntry) (error : Option LeaseError)
  | leaseCount (count : ℕ)

/-- The replicated state: topic ownership with its reverse index, and the leases
by id with the id current for each key. -/
structure OwnershipState where
  ownership : Table String NodeId
  nodeTopics : Table NodeId (List String)
  leases : Table UInt64 LeaseEntry
  keyLeases : Table String UInt64
  nextLeaseId : UInt64

/-- When a lease taken or renewed at a timestamp ends. -/
def leaseExpiry (timestamp ttlSecs : UInt64) : UInt64 :=
  U64.saturatingAdd timestamp (U64.saturatingMul ttlSecs 1000000000)

def LeaseEntry.acquired (key : String) (owner : NodeId) (leaseId ttlSecs timestamp : UInt64) :
    LeaseEntry where
  id := leaseId
  key := key
  owner := owner
  acquiredAt := timestamp
  ttlSecs := ttlSecs
  expiresAt := leaseExpiry timestamp ttlSecs

/-- Only a lease that has not expired at the timestamp is extended. -/
def LeaseEntry.renew (lease : LeaseEntry) (timestamp : UInt64) : LeaseEntry :=
  if lease.expiresAt > timestamp then
    { lease with expiresAt := leaseExpiry timestamp lease.ttlSecs }
  else lease

namespace OwnershipState

def new : OwnershipState := ⟨∅, ∅, ∅, ∅, 0⟩

variable (s : OwnershipState)

/-- The lease that a key names, through both tables. -/
def holder (key : String) : Option LeaseEntry :=
  s.keyLeases[key]?.bind fun id => s.leases[id]?

/-- The unexpired lease that makes an acquisition of the key fail. -/
def liveLease (key : String) (timestamp : UInt64) : Option LeaseEntry :=
  (s.holder key).filter fun existing => existing.expiresAt > timestamp

/-- Take a topic off a node's list, if the node has one. -/
def dropTopic (node : NodeId) (topic : String) : OwnershipState :=
  { s with nodeTopics := s.nodeTopics.modify node fun topics => topics.filter (· ≠ topic) }

/-- Put a topic at the end of a node's list, which may be new. -/
def listTopic (node : NodeId) (topic : String) : OwnershipState :=
  { s with nodeTopics := s.nodeTopics.alter node fun topics => some (topics.getD [] ++ [topic]) }

def setOwner (topic : String) (node : NodeId) : OwnershipState :=
  { s with ownership := s.ownership.insert topic node }

/-- Record a new lease under its id and make it current for its key. -/
def grant (lease : LeaseEntry) : OwnershipState :=
  { s with
    leases := s.leases.insert lease.id lease
    keyLeases := s.keyLeases.insert lease.key lease.id }

/-- The keys of the expired records, one for each record. -/
def expiredKeys (now : UInt64) : List String :=
  (s.leases.values.filter fun lease => lease.expiresAt ≤ now).map fun lease => lease.key

/-- Forget a key together with every record that carries it. -/
def forgetKey (key : String) : OwnershipState :=
  { s with
    keyLeases := s.keyLeases.erase key
    leases := s.leases.filter fun _ lease => lease.key ≠ key }

def apply : OwnershipCommand → OwnershipState
  | .claimTopic topic nodeId _ =>
    match s.ownership[topic]? with
    | some prevOwner =>
      ((s.dropTopic prevOwner topic).setOwner topic nodeId).listTopic nodeId topic
    | none => (s.setOwner topic nodeId).listTopic nodeId topic
  | .releaseTopic topic nodeId =>
    if s.ownership[topic]? = some nodeId then
      { s with ownership := s.ownership.erase topic }.dropTopic nodeId topic
    else s
  | .transferTopic topic fromNode toNode =>
    if s.ownership[topic]? = some fromNode then
      ((s.setOwner topic toNode).dropTopic fromNode topic).listTopic toNode topic
    else s
  | .acquireLease key owner leaseId ttlSecs timestamp =>
    match s.liveLease key timestamp with
    | some _ => s
    | none =>
      { s.grant (.acquired key owner leaseId ttlSecs timestamp) with
        nextLeaseId := if leaseId ≥ s.nextLeaseId then leaseId + 1 else s.nextLeaseId }
  | .renewLease leaseId timestamp =>
    { s with leases := s.leases.modify leaseId fun lease => lease.renew timestamp }
  | .releaseLease key =>
    match s.keyLeases[key]? with
    | some leaseId =>
      { s with keyLeases := s.keyLeases.erase key, leases := s.leases.erase leaseId }
    | none => s
  | .expireLeases now => (s.expiredKeys now).foldl forgetKey s

def getOwner (topic : String) : Option NodeId := s.ownership[topic]?

def owns (topic : String) (nodeId : NodeId) : Bool := s.ownership[topic]? = some nodeId

def getNodeTopics (nodeId : NodeId) : List String := s.nodeTopics[nodeId]?.getD []

def topicCount : ℕ := s.ownership.size

def getLeaseInfo (key : String) : Option LeaseInfo := (s.holder key).map LeaseInfo.ofEntry

def listLeases (owner : NodeId) : List LeaseInfo :=
  (s.leases.values.filter fun lease => lease.owner = owner).map LeaseInfo.ofEntry

def isLeaseValid (leaseId now : UInt64) : Bool :=
  (s.leases[leaseId]?.map fun lease => decide (lease.expiresAt > now)).getD false

def getLease (leaseId : UInt64) : Option LeaseEntry := s.leases[leaseId]?

def leaseCount : ℕ := s.leases.size

/-- The sweep as a method: it also returns the number of expired records. -/
def expireLeases (now : UInt64) : OwnershipState × ℕ :=
  let keys := s.expiredKeys now
  (keys.foldl forgetKey s, keys.length)

/-- The id handed out by `next_lease_id`, and the state with the counter advanced. -/
def drawLeaseId : UInt64 × OwnershipState :=
  (s.nextLeaseId, { s with nextLeaseId := s.nextLeaseId + 1 })

/-- Acquire a lease under an id drawn from the counter. -/
def acquireLease (key : String) (owner : NodeId) (ttlSecs timestamp : UInt64) :
    OwnershipState × Except LeaseError UInt64 :=
  match s.liveLease key timestamp with
  | some existing => (s, .error (.leaseHeld key existing.owner))
  | none =>
    let (leaseId, drawn) := s.drawLeaseId
    (drawn.grant (.acquired key owner leaseId ttlSecs timestamp), .ok leaseId)

def query : OwnershipQuery → OwnershipResponse
  | .getOwner topic => .owner topic (s.getOwner topic)
  | .listTopics nodeId => .topics (s.getNodeTopics nodeId)
  | .listAll => .all s.ownership
  | .getLeaseOwner key => .leaseOwner key (s.getLeaseInfo key)
  | .listLeases owner => .leases (s.listLeases owner)
  | .getLease leaseId => .leaseResult (s.getLease leaseId) none

end OwnershipState

inductive MachineOp where
  | apply (cmd : OwnershipCommand)
  | acquireLease (key : String) (owner : NodeId) (ttlSecs timestamp : UInt64)
  | expireLeases (now : UInt64)
  | nextLeaseId
  deriving DecidableEq, Repr

def OwnershipState.perform (s : OwnershipState) : MachineOp → OwnershipState
  | .apply cmd => s.apply cmd
  | .acquireLease key owner ttlSecs timestamp => (s.acquireLease key owner ttlSecs timestamp).1
  | .expireLeases now => (s.expireLeases now).1
  | .nextLeaseId => s.drawLeaseId.2

end DumbDistributedLog
