import DumbDistributedLog.Gossip.Coordinator
import DumbDistributedLog.Peer.Fetcher
import DumbDistributedLog.Wal.Log

/-! # Requests and responses on the gossip network

A coordinator takes what arrives for a message in JSON. A fetcher publishes its requests in the
binary encoding, which no coordinator understands. The target of a request packs the encoded
response of its handler into a message, and the requester passes the fields of the message on
without decoding what is packed in it.
-/

namespace DumbDistributedLog.Gossip

def maxMessageSize : ℕ := 1048576

/-- The bytes with which the text of a message can begin: white space, a quote or a brace. -/
def jsonStart : List UInt8 := [0x09, 0x0A, 0x0D, 0x20, 0x22, 0x7B]

structure Json extends Codec GossipMessage where
  mem_jsonStart : ∀ b bytes msg, decode (b :: bytes) = .ok msg → b ∈ jsonStart

def handleEvent (json : Json) (content : List UInt8) : Option GossipMessage :=
  if content.length > maxMessageSize then none else (json.decode content).toOption

namespace GossipCoordinator

variable (deriveTopicId : String → TopicId) (c : GossipCoordinator) (topic : String)
  (data : List UInt8) (outcome : Except String Unit)

def publish : Except GossipError (List UInt8) :=
  match Ddl.validateTopic topic with
  | .error e => .error (.parse ("Invalid topic name: " ++ Ddl.Wal.displayDdl e))
  | .ok () =>
    if data.length > maxMessageSize then
      .error (.serialization ("Message too large: " ++ toString data.length ++ " bytes (max: " ++
        toString maxMessageSize ++ ")"))
    else if c.topicSenders.contains (deriveTopicId topic) then
      match outcome with
      | .ok () => .ok data
      | .error e => .error (.gossip ("Broadcast failed: " ++ e))
    else .error (.notSubscribed (hexEncode (deriveTopicId topic)))

def Publishable : Prop :=
  Ddl.validateTopic topic = .ok () ∧ data.length ≤ maxMessageSize ∧
    deriveTopicId topic ∈ c.topicSenders ∧ outcome = .ok ()

variable {deriveTopicId c topic data outcome} {bytes : List UInt8}

theorem publish_eq_ok_iff : c.publish deriveTopicId topic data outcome = .ok bytes ↔
    c.Publishable deriveTopicId topic data outcome ∧ bytes = data := by
  unfold publish Publishable
  cases Ddl.validateTopic topic with
  | error e => simp
  | ok _ =>
    rcases Nat.lt_or_ge maxMessageSize data.length with hlong | hlen
    · simp [hlong, Nat.not_le.mpr hlong]
    · by_cases hjoined : deriveTopicId topic ∈ c.topicSenders
      · rcases outcome with e | ⟨⟩
        · simp [Nat.not_lt.mpr hlen, hjoined]
        · simp [Nat.not_lt.mpr hlen, hlen, hjoined, eq_comm]
      · simp [Nat.not_lt.mpr hlen, hjoined]

end GossipCoordinator

theorem handleEvent_encode {json : Json} {msg : GossipMessage}
    (h : (json.encode msg).length ≤ maxMessageSize) :
    handleEvent json (json.encode msg) = some msg := by
  rw [handleEvent, if_neg (Nat.not_lt.mpr h), json.decode_encode]
  rfl

theorem handleEvent_eq_none {json : Json} {b : UInt8} (h : b ∉ jsonStart) (bytes : List UInt8) :
    handleEvent json (b :: bytes) = none := by
  unfold handleEvent
  split_ifs
  · rfl
  · cases hdecode : json.decode (b :: bytes) with
    | error e => rfl
    | ok msg => exact absurd (json.mem_jsonStart b bytes msg hdecode) h

end DumbDistributedLog.Gossip

namespace DumbDistributedLog.Peer

open Gossip PeerCodec

namespace Plain

open Layout Ddl.Wal.Plain

def peerRequest : Layout PeerRequest :=
  ((doubleWord.pair (word.pair word)).pair (string.pair (word.pair byte.list))).via
    (fun r => ((r.requestId, (r.sourceNode, r.targetNode)),
      (r.metricKey, (r.timestamp, r.payload))))
    (fun p => some ⟨p.1.1, p.1.2.1, p.1.2.2, p.2.1, p.2.2.1, p.2.2.2⟩)
    fun _ => rfl

def peerResponse : Layout PeerResponse :=
  ((doubleWord.pair (word.pair word)).pair (byte.list.pair (word.pair string.list))).via
    (fun r => ((r.requestId, (r.sourceNode, if r.success then 1 else 0)),
      (r.payload, (r.timestamp, r.errorMessage.toList))))
    (fun p => some ⟨p.1.1, p.1.2.1, p.1.2.2 = 1, p.2.1, p.2.2.1, p.2.2.2.head?⟩)
    fun r => by
      cases r with
      | mk _ _ success _ _ errorMessage => cases success <;> cases errorMessage <;> rfl

def bincode : Bincode where
  request := peerRequest.codec fun _ =>
    write_pair_ne_nil (write_pair_ne_nil write_doubleWord_ne_nil) _
  response := peerResponse.codec fun _ =>
    write_pair_ne_nil (write_pair_ne_nil write_doubleWord_ne_nil) _
  payload_le r := by
    have hlt := byte.length_lt_writeList r.payload
    simp only [Layout.codec, peerResponse, via, pair, list, List.length_append]
    omega

def gossipMessage : Layout GossipMessage :=
  (((word.pair string.list).pair (word.list.pair byte.list)).pair doubleWord).via
    (fun msg =>
      match msg with
      | .topicClaim topic topicId nodeId epoch timestamp =>
        (((0, [topic]), ([nodeId, epoch, timestamp], topicId)), 0)
      | .topicRelease topic topicId nodeId => (((1, [topic]), ([nodeId], topicId)), 0)
      | .topicHeartbeat topic topicId nodeId epoch timestamp =>
        (((2, [topic]), ([nodeId, epoch, timestamp], topicId)), 0)
      | .nodeAnnounce nodeId bindAddr topics => (((3, bindAddr :: topics), ([nodeId], [])), 0)
      | .nodeLeave nodeId => (((4, []), ([nodeId], [])), 0)
      | .topicQuery topic nodeId => (((5, [topic]), ([nodeId], [])), 0)
      | .topicResponse topic owner => (((6, [topic]), (owner.toList, [])), 0)
      | .peerRequest id source target key payload timestamp =>
        (((7, [key]), ([source, target, timestamp], payload)), id)
      | .peerResponse id source success payload timestamp error =>
        (((8, error.toList), ([source, if success then 1 else 0, timestamp], payload)), id)
      | .serviceAdvertise nodeId metrics address timestamp =>
        (((9, address :: metrics), ([nodeId, timestamp], [])), 0))
    (fun p =>
      match p with
      | (((0, [topic]), ([nodeId, epoch, timestamp], topicId)), _) =>
        some (.topicClaim topic topicId nodeId epoch timestamp)
      | (((1, [topic]), ([nodeId], topicId)), _) => some (.topicRelease topic topicId nodeId)
      | (((2, [topic]), ([nodeId, epoch, timestamp], topicId)), _) =>
        some (.topicHeartbeat topic topicId nodeId epoch timestamp)
      | (((3, bindAddr :: topics), ([nodeId], _)), _) => some (.nodeAnnounce nodeId bindAddr topics)
      | (((4, _), ([nodeId], _)), _) => some (.nodeLeave nodeId)
      | (((5, [topic]), ([nodeId], _)), _) => some (.topicQuery topic nodeId)
      | (((6, [topic]), (owner, _)), _) => some (.topicResponse topic owner.head?)
      | (((7, [key]), ([source, target, timestamp], payload)), id) =>
        some (.peerRequest id source target key payload timestamp)
      | (((8, error), ([source, success, timestamp], payload)), id) =>
        some (.peerResponse id source (success = 1) payload timestamp error.head?)
      | (((9, address :: metrics), ([nodeId, timestamp], _)), _) =>
        some (.serviceAdvertise nodeId metrics address timestamp)
      | _ => none)
    fun msg => by
      cases msg with
      | topicResponse topic owner => cases owner <;> rfl
      | peerResponse id source success payload timestamp error =>
        cases success <;> cases error <;> rfl
      | _ => rfl

def json : Json where
  encode msg := 0x7B :: gossipMessage.write msg
  decode
    | [] => .error "EOF while parsing a value"
    | b :: bytes =>
      if b = 0x7B then
        match gossipMessage.read bytes with
        | some (msg, _) => .ok msg
        | none => .error "invalid data"
      else .error "expected value"
  decode_encode msg := by
    have hread := gossipMessage.read_write msg []
    rw [List.append_nil] at hread
    simp [hread]
  encode_ne_nil msg := List.cons_ne_nil _ _
  mem_jsonStart b bytes msg h := by
    dsimp only at h
    split_ifs at h with hb
    rw [hb]
    decide

end Plain

variable (json : Json) (bincode : Bincode) (deriveTopicId : String → TopicId)
  (gossip : GossipCoordinator)

def requestTopic (r : PeerRequest) : String :=
  "peer.request." ++ toString r.sourceNode ++ "." ++ toString r.targetNode ++ "." ++ r.metricKey

def responseTopic (sourceNode : UInt64) (requestId : RequestId) : String :=
  "peer.response." ++ toString sourceNode ++ "." ++ toString requestId.toNat

/-- The bytes that `fetch_metric` broadcasts. -/
def publishRequest (r : PeerRequest) (outcome : Except String Unit) :
    Except GossipError (List UInt8) :=
  gossip.publish deriveTopicId (requestTopic r) (encodeRequest bincode r) outcome

/-- How a fetcher that may have a coordinator sends its request. -/
def sendRequest (gossip : Option GossipCoordinator) (r : PeerRequest)
    (outcome : Except String Unit) : Sending :=
  ⟨.ok (), gossip.map fun g =>
    ((publishRequest bincode deriveTopicId g r outcome).map fun _ => ()).mapError
      GossipError.display⟩

/-- The target answers a request with what its handler returns. -/
def handlePeerRequest (nodeId : UInt64)
    (handler : Option (PeerRequest → Except PeerError PeerResponse)) :
    GossipMessage → Option (String × GossipMessage)
  | .peerRequest requestId sourceNode targetNode _ payload timestamp =>
    if targetNode ≠ nodeId then none
    else
      match decodeRequest bincode payload, handler with
      | .ok request, some handleRequest =>
        match handleRequest request with
        | .ok response =>
          some (responseTopic sourceNode requestId,
            .peerResponse requestId targetNode true (encodeResponse bincode response) timestamp
              none)
        | .error e =>
          some (responseTopic sourceNode requestId,
            .peerResponse requestId targetNode false [] timestamp (some e.display))
      | _, _ => none
  | _ => none

/-- The response that is passed to the fetcher of the requester. -/
def handlePeerResponse : GossipMessage → Option PeerResponse
  | .peerResponse requestId sourceNode success payload timestamp errorMessage =>
    some ⟨requestId, sourceNode, success, payload, timestamp, errorMessage⟩
  | _ => none

/-- The response that reaches the requester after the target has received a message. -/
def relay (handler : Option (PeerRequest → Except PeerError PeerResponse)) (msg : GossipMessage)
    (outcome : Except String Unit) : Option PeerResponse := do
  let (topic, reply) ← handlePeerRequest bincode gossip.nodeId handler msg
  let bytes ← (gossip.publish deriveTopicId topic (json.encode reply) outcome).toOption
  let received ← handleEvent json bytes
  handlePeerResponse received

/-- The bytes are taken for a message with the request. -/
def Understood (r : PeerRequest) (bytes : List UInt8) : Prop :=
  ∃ payload timestamp, handleEvent json bytes = some
      (.peerRequest r.requestId r.sourceNode r.targetNode r.metricKey payload timestamp) ∧
    decodeRequest bincode payload = .ok r

/-- The response is the one of the handler, for the given request. -/
def Faithful (requestId : RequestId) (r p : PeerResponse) : Prop :=
  p.success = r.success ∧ p.payload = r.payload ∧ p.errorMessage = r.errorMessage ∧
    p.requestId = requestId

variable {json bincode deriveTopicId gossip} {r : PeerRequest} {outcome : Except String Unit}

theorem result_sendRequest_eq_ok_iff {coordinator : Option GossipCoordinator} :
    (sendRequest bincode deriveTopicId coordinator r outcome).result = .ok () ↔
      ∃ g, coordinator = some g ∧
        g.Publishable deriveTopicId (requestTopic r) (encodeRequest bincode r) outcome := by
  cases coordinator with
  | none => simp [sendRequest, Sending.result]
  | some g =>
    cases hpublish : publishRequest bincode deriveTopicId g r outcome with
    | error e =>
      have hno : ¬ g.Publishable deriveTopicId (requestTopic r) (encodeRequest bincode r)
          outcome := by
        intro h
        cases hpublish.symm.trans (GossipCoordinator.publish_eq_ok_iff.mpr ⟨h, rfl⟩)
      simp [sendRequest, Sending.result, hpublish, hno, Except.map, Except.mapError]
    | ok bytes =>
      have hyes := (GossipCoordinator.publish_eq_ok_iff.mp hpublish).1
      simp [sendRequest, Sending.result, hpublish, hyes, Except.map, Except.mapError]

theorem understood_envelope (r : PeerRequest) (timestamp : UInt64)
    (h : (json.encode (.peerRequest r.requestId r.sourceNode r.targetNode r.metricKey
      (encodeRequest bincode r) timestamp)).length ≤ Gossip.maxMessageSize) :
    Understood json bincode r (json.encode (.peerRequest r.requestId r.sourceNode r.targetNode
      r.metricKey (encodeRequest bincode r) timestamp)) :=
  ⟨_, timestamp, handleEvent_encode h, decodeWithVersion_encodeWithVersion bincode.request r⟩

theorem not_understood_encodeRequest (r : PeerRequest) :
    ¬ Understood json bincode r (encodeRequest bincode r) := by
  rintro ⟨payload, timestamp, hevent, -⟩
  rw [encodeRequest, encodeWithVersion, handleEvent_eq_none (by decide)] at hevent
  cases hevent

/-- A call that waits has published a request that nobody understands. -/
theorem not_understood_of_waiting {s : Fetching} {c : ℕ} {f f' : Fetch}
    {coordinator : Option GossipCoordinator} (hcall : s.calls[c]? = some (.registered f))
    (h : (s.step (.send c (sendRequest bincode deriveTopicId coordinator f.request
      outcome))).calls[c]? = some (.waiting f')) :
    ∃ g bytes, coordinator = some g ∧
      publishRequest bincode deriveTopicId g f.request outcome = .ok bytes ∧
      ∀ json, ¬ Understood json bincode f.request bytes := by
  dsimp only [Fetching.step] at h
  rw [hcall] at h
  cases hresult : (sendRequest bincode deriveTopicId coordinator f.request outcome).result with
  | error e =>
    simp only [hresult] at h
    rw [Fetching.calls_setPhase hcall, if_pos rfl] at h
    cases h
  | ok _ =>
    obtain ⟨g, hg, hpublishable⟩ := result_sendRequest_eq_ok_iff.mp hresult
    exact ⟨g, encodeRequest bincode f.request, hg,
      GossipCoordinator.publish_eq_ok_iff.mpr ⟨hpublishable, rfl⟩,
      fun _ => not_understood_encodeRequest f.request⟩

/-- No request that is published is understood. -/
theorem wire_agreement_iff (json : Json) (bincode : Bincode) (deriveTopicId : String → TopicId)
    (gossip : GossipCoordinator) (r : PeerRequest) (outcome : Except String Unit) :
    (∀ bytes, publishRequest bincode deriveTopicId gossip r outcome = .ok bytes →
        Understood json bincode r bytes) ↔
      ¬ gossip.Publishable deriveTopicId (requestTopic r) (encodeRequest bincode r) outcome := by
  constructor
  · intro h hpublishable
    refine not_understood_encodeRequest r (h _ ?_)
    exact GossipCoordinator.publish_eq_ok_iff.mpr ⟨hpublishable, rfl⟩
  · intro h bytes hbytes
    exact absurd (GossipCoordinator.publish_eq_ok_iff.mp hbytes).1 h

/-- A request that is published and dropped by every coordinator that receives it. -/
theorem published_request_dropped :
    let r : PeerRequest := ⟨.new 1 1, 1, 2, "cpu", 5, [7]⟩
    let gossip : GossipCoordinator := .new 1 [[0]]
    let bytes := encodeRequest Plain.bincode r
    publishRequest Plain.bincode (fun _ => [0]) gossip r (.ok ()) = .ok bytes ∧
      decodeRequest Plain.bincode bytes = .ok r ∧
      handleEvent Plain.json bytes = none ∧ ¬ Understood Plain.json Plain.bincode r bytes := by
  intro r gossip bytes
  have hdropped : handleEvent Plain.json bytes = none := handleEvent_eq_none (by decide) _
  refine ⟨?_, decodeWithVersion_encodeWithVersion _ r, hdropped, ?_⟩
  · refine GossipCoordinator.publish_eq_ok_iff.mpr ⟨⟨?_, ?_, List.mem_singleton_self _, rfl⟩, rfl⟩
    · decide +kernel
    · decide +kernel
  · rintro ⟨payload, timestamp, hevent, -⟩
    cases hdropped.symm.trans hevent

variable {handleRequest : PeerRequest → Except PeerError PeerResponse} {requestId : RequestId}
  {sourceNode timestamp : UInt64} {metricKey : String} {payload : List UInt8}
  {request : PeerRequest} {response p : PeerResponse}

theorem relay_eq_some_iff (hrequest : decodeRequest bincode payload = .ok request)
    (hok : handleRequest request = .ok response) :
    relay json bincode deriveTopicId gossip (some handleRequest)
        (.peerRequest requestId sourceNode gossip.nodeId metricKey payload timestamp) outcome =
        some p ↔
      gossip.Publishable deriveTopicId (responseTopic sourceNode requestId)
        (json.encode (.peerResponse requestId gossip.nodeId true (encodeResponse bincode response)
          timestamp none)) outcome ∧
      p = ⟨requestId, gossip.nodeId, true, encodeResponse bincode response, timestamp, none⟩ := by
  set reply : GossipMessage := .peerResponse requestId gossip.nodeId true
    (encodeResponse bincode response) timestamp none with hreply
  have hrelay : relay json bincode deriveTopicId gossip (some handleRequest)
      (.peerRequest requestId sourceNode gossip.nodeId metricKey payload timestamp) outcome =
      ((gossip.publish deriveTopicId (responseTopic sourceNode requestId) (json.encode reply)
        outcome).toOption.bind (handleEvent json)).bind handlePeerResponse := by
    simp [relay, handlePeerRequest, hrequest, hok, hreply, Option.bind_assoc]
  rw [hrelay]
  by_cases h : gossip.Publishable deriveTopicId (responseTopic sourceNode requestId)
      (json.encode reply) outcome
  · rw [GossipCoordinator.publish_eq_ok_iff.mpr ⟨h, rfl⟩]
    simp only [Except.toOption, Option.bind_some, handleEvent_encode h.2.1, h, true_and]
    rw [hreply, handlePeerResponse, Option.some.injEq, eq_comm]
  · cases hpublish : gossip.publish deriveTopicId (responseTopic sourceNode requestId)
        (json.encode reply) outcome with
    | error e => simp [Except.toOption, h]
    | ok bytes => exact absurd (GossipCoordinator.publish_eq_ok_iff.mp hpublish).1 h

/-- A response that reaches the requester has the id of the request, but never the payload of
the handler, and it counts as a success without an error. -/
theorem relayed_fields (hrequest : decodeRequest bincode payload = .ok request)
    (hok : handleRequest request = .ok response)
    (h : relay json bincode deriveTopicId gossip (some handleRequest)
      (.peerRequest requestId sourceNode gossip.nodeId metricKey payload timestamp) outcome =
      some p) :
    p.requestId = requestId ∧ p.payload ≠ response.payload ∧ p.success = true ∧
      p.errorMessage = none := by
  obtain ⟨-, rfl⟩ := (relay_eq_some_iff hrequest hok).mp h
  exact ⟨rfl, encodeResponse_ne_payload bincode response, rfl, rfl⟩

/-- No response that reaches the requester is the one of the handler. -/
theorem response_fidelity_iff (json : Json) (bincode : Bincode)
    (deriveTopicId : String → TopicId) (gossip : GossipCoordinator)
    (handleRequest : PeerRequest → Except PeerError PeerResponse) (requestId : RequestId)
    (sourceNode timestamp : UInt64) (metricKey : String) (payload : List UInt8)
    (request : PeerRequest) (response : PeerResponse) (outcome : Except String Unit)
    (hrequest : decodeRequest bincode payload = .ok request)
    (hok : handleRequest request = .ok response) :
    (∀ p, relay json bincode deriveTopicId gossip (some handleRequest)
        (.peerRequest requestId sourceNode gossip.nodeId metricKey payload timestamp) outcome =
        some p → Faithful requestId response p) ↔
      ¬ gossip.Publishable deriveTopicId (responseTopic sourceNode requestId)
        (json.encode (.peerResponse requestId gossip.nodeId true (encodeResponse bincode response)
          timestamp none)) outcome := by
  constructor
  · intro h hpublishable
    have hrelay : relay json bincode deriveTopicId gossip (some handleRequest)
        (.peerRequest requestId sourceNode gossip.nodeId metricKey payload timestamp) outcome =
        some ⟨requestId, gossip.nodeId, true, encodeResponse bincode response, timestamp, none⟩ :=
      (relay_eq_some_iff hrequest hok).mpr ⟨hpublishable, rfl⟩
    exact (relayed_fields hrequest hok hrelay).2.1 (h _ hrelay).2.1
  · intro h p hp
    exact absurd ((relay_eq_some_iff hrequest hok).mp hp).1 h

theorem response_fidelity_success :
    let id : RequestId := .new 1 1
    let request : PeerRequest := ⟨id, 1, 2, "cpu", 5, []⟩
    let response : PeerResponse := .ofSuccess id 2 [7] 6
    ¬ ∀ p, relay Plain.json Plain.bincode (fun _ => [0]) (.new 2 [[0]])
        (some fun _ => .ok response)
        (.peerRequest id 1 2 "cpu" (encodeRequest Plain.bincode request) 5) (.ok ()) =
        some p → Faithful id response p := by
  intro id request response
  refine (response_fidelity_iff Plain.json Plain.bincode (fun _ => [0]) (.new 2 [[0]])
    (fun _ => .ok response) id 1 5 "cpu" (encodeRequest Plain.bincode request) request response
    (.ok ()) (decodeWithVersion_encodeWithVersion _ request) rfl).not.mpr (not_not.mpr ?_)
  exact ⟨by decide +kernel, by decide +kernel, List.mem_singleton_self _, rfl⟩

/-- A failure arrives as a success whose payload is the encoded failure. -/
theorem failure_relayed_as_success :
    let id : RequestId := .new 1 1
    let request : PeerRequest := ⟨id, 1, 2, "cpu", 5, []⟩
    let response : PeerResponse := .failure id 2 "no metric" 6
    let p : PeerResponse := ⟨id, 2, true, encodeResponse Plain.bincode response, 5, none⟩
    relay Plain.json Plain.bincode (fun _ => [0]) (.new 2 [[0]]) (some fun _ => .ok response)
        (.peerRequest id 1 2 "cpu" (encodeRequest Plain.bincode request) 5) (.ok ()) =
        some p ∧ ¬ Faithful id response p := by
  intro id request response p
  constructor
  · have hrequest : decodeRequest Plain.bincode (encodeRequest Plain.bincode request) =
        .ok request := decodeWithVersion_encodeWithVersion _ request
    have hjoined : [0] ∈ (GossipCoordinator.new 2 [[0]]).topicSenders := List.mem_singleton_self _
    exact (relay_eq_some_iff hrequest rfl).mpr
      ⟨⟨by decide +kernel, by decide +kernel, hjoined, rfl⟩, rfl⟩
  · rintro ⟨hsuccess, -⟩
    cases hsuccess

end DumbDistributedLog.Peer
