import DumbDistributedLog.Library.Codec

/-! # Requests and responses of peers

A request is known by an id of 128 bits, the node above and a number below that a counter of
the process hands out. On the wire a version byte stands before the encoded value.
-/

namespace DumbDistributedLog.Peer

abbrev RequestId := BitVec 128

abbrev MetricKey := String

/-- The id that a node makes of a number drawn from the counter. -/
def RequestId.new (nodeId seq : UInt64) : RequestId :=
  nodeId.toBitVec.setWidth 128 <<< 64 ||| seq.toBitVec.setWidth 128

theorem RequestId.new_inj {nodeId seq seq' : UInt64} :
    RequestId.new nodeId seq = RequestId.new nodeId seq' ↔ seq = seq' := by
  refine ⟨fun h => ?_, fun h => by rw [h]⟩
  have hlow : ∀ n : UInt64, (RequestId.new nodeId n).setWidth 64 = n.toBitVec := by
    intro n
    ext i
    simp [RequestId.new]
  rw [← UInt64.toBitVec_inj, ← hlow seq, ← hlow seq', h]

structure PeerRequest where
  requestId : RequestId
  sourceNode : UInt64
  targetNode : UInt64
  metricKey : MetricKey
  timestamp : UInt64
  payload : List UInt8
  deriving DecidableEq, Repr

structure PeerResponse where
  requestId : RequestId
  sourceNode : UInt64
  success : Bool
  payload : List UInt8
  timestamp : UInt64
  errorMessage : Option String
  deriving DecidableEq, Repr

def PeerResponse.ofSuccess (requestId : RequestId) (sourceNode : UInt64) (payload : List UInt8)
    (now : UInt64) : PeerResponse :=
  ⟨requestId, sourceNode, true, payload, now, none⟩

def PeerResponse.failure (requestId : RequestId) (sourceNode : UInt64) (error : String)
    (now : UInt64) : PeerResponse :=
  ⟨requestId, sourceNode, false, [], now, some error⟩

inductive PeerError where
  | timeout (durationMs : UInt64)
  | peerUnavailable (peerId : UInt64)
  | requestCancelled (requestId : String)
  | circuitOpen (peerId : UInt64)
  | cacheMiss (key : String)
  | codecError (message : String)
  | routingError (message : String)
  deriving DecidableEq, Repr

def PeerError.display : PeerError → String
  | .timeout durationMs => s!"request timed out after {durationMs}ms"
  | .peerUnavailable peerId => s!"peer {peerId} is unavailable"
  | .requestCancelled requestId => s!"request {requestId} was cancelled"
  | .circuitOpen peerId => s!"circuit breaker is open for peer {peerId}"
  | .cacheMiss key => s!"cache miss for key {key}"
  | .codecError message => s!"codec error: {message}"
  | .routingError message => s!"routing error: {message}"

/-- The encodings of the values. Those of a response hold the bytes of its payload. -/
structure Bincode where
  request : Codec PeerRequest
  response : Codec PeerResponse
  payload_le : ∀ r : PeerResponse, r.payload.length ≤ (response.encode r).length

namespace PeerCodec

variable {α : Type*}

def version : UInt8 := 1

def encodeWithVersion (codec : Codec α) (a : α) : List UInt8 := version :: codec.encode a

def decodeWithVersion (codec : Codec α) : List UInt8 → Except PeerError α
  | [] => .error (.codecError "empty input")
  | b :: bytes =>
    if b = version then (codec.decode bytes).mapError .codecError
    else .error (.codecError s!"invalid version: expected {version}, got {b}")

def encodeRequest (bincode : Bincode) (r : PeerRequest) : List UInt8 :=
  encodeWithVersion bincode.request r

def decodeRequest (bincode : Bincode) (bytes : List UInt8) : Except PeerError PeerRequest :=
  decodeWithVersion bincode.request bytes

def encodeResponse (bincode : Bincode) (r : PeerResponse) : List UInt8 :=
  encodeWithVersion bincode.response r

theorem decodeWithVersion_encodeWithVersion (codec : Codec α) (a : α) :
    decodeWithVersion codec (encodeWithVersion codec a) = .ok a := by
  rw [encodeWithVersion, decodeWithVersion, if_pos rfl, codec.decode_encode]
  rfl

theorem encodeResponse_ne_payload (bincode : Bincode) (r : PeerResponse) :
    encodeResponse bincode r ≠ r.payload := by
  intro h
  have hlen := congrArg List.length h
  have hle := bincode.payload_le r
  simp only [encodeResponse, encodeWithVersion, List.length_cons] at hlen
  omega

end PeerCodec

end DumbDistributedLog.Peer
