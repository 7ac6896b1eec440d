import DumbDistributedLog.Library.Framing

/-! # Remote calls of Raft

A node calls the Raft instance of a peer over a connection of its own. The request goes out as
a frame of its type and its encoding, the server hands what it decodes to the router, and the
response comes back as a frame. The server would serve one request after the other on the same
connection. A call that comes back is a call of the peer's instance, whatever the network does to
the streams; a call that fails has reached the instance once or not at all.
-/

namespace DumbDistributedLog.RaftRpc

inductive RpcType where
  | appendEntries
  | vote
  | installSnapshot
  deriving DecidableEq, Repr

def RpcType.code : RpcType → UInt8
  | appendEntries => 1
  | vote => 2
  | installSnapshot => 3

def maxMessageSize : ℕ := 16 * 1024 * 1024

/-- The Raft instance behind the router. An error is given by its debug text. -/
structure Raft where
  State : Type
  Request : RpcType → Type
  Response : RpcType → Type
  handle : (t : RpcType) → Request t → State → Except String (Response t) × State

structure Oxicode (raft : Raft) where
  request : ∀ t, Codec (raft.Request t)
  response : ∀ t, Codec (raft.Response t)

/-- How a stream goes on after the bytes that arrive. -/
inductive Ending where
  | eof
  | silent
  deriving DecidableEq, Repr

/-- A response that is written only in part. -/
structure WriteFault where
  error : String
  written : ℕ
  deriving DecidableEq, Repr

/-- What happens to a server's stream beside the bytes it reads: how the input ends and which
responses, by their number, cannot be written. -/
structure Link where
  ending : Ending
  fault : ℕ → Option WriteFault

/-- A server's task has left its loop, or waits for data without a timeout. -/
inductive Stop where
  | closed (reason : String)
  | waiting
  deriving DecidableEq, Repr

def receiveData (ending : Ending) (len : ℕ) (reader : Reader) :
    Except Stop (List UInt8 × Reader) :=
  match reader.readExact len with
  | (.error _, _) =>
    .error (if ending = .eof then .closed "Read data error: early eof" else .waiting)
  | (.ok buf, reader) => .ok (buf, reader)

/-- The message of one turn of the loop of `handle_connection`. -/
def receiveMessage (ending : Ending) (reader : Reader) : Except Stop (List UInt8 × Reader) :=
  match reader.readExact 4 with
  | (.error _, _) =>
    .error (.closed (if ending = .eof then "Read error: early eof" else "Read timeout"))
  | (.ok lenBytes, reader) =>
    if maxMessageSize < fromBeBytes lenBytes then
      .error (.closed s!"Message too large: {fromBeBytes lenBytes} bytes")
    else receiveData ending (fromBeBytes lenBytes) reader

theorem length_of_receiveMessage {ending : Ending} {reader reader' : Reader} {buf : List UInt8}
    (h : receiveMessage ending reader = .ok (buf, reader')) :
    reader'.bytes.length < reader.bytes.length := by
  unfold receiveMessage at h
  split at h
  · cases h
  next hread =>
    have hlen := Reader.length_of_readExact hread
    split_ifs at h
    unfold receiveData at h
    split at h
    · cases h
    next hdata =>
      cases h
      have := Reader.length_of_readExact hdata
      omega

section Server

variable {raft : Raft} (oxicode : Oxicode raft)

/-- A handler: decode the request, call the router, encode the response. -/
def handleRpc (t : RpcType) (data : List UInt8) (s : raft.State) :
    Except String (List UInt8) × raft.State :=
  match (oxicode.request t).decode data with
  | .error e => (.error s!"Deserialize error: {e}", s)
  | .ok request =>
    match raft.handle t request s with
    | (.error e, s) => (.error s!"Raft error: {e}", s)
    | (.ok response, s) => (.ok ((oxicode.response t).encode response), s)

def handleAppendEntries := handleRpc oxicode .appendEntries

def handleVote := handleRpc oxicode .vote

def handleInstallSnapshot := handleRpc oxicode .installSnapshot

def handleMessage (buf : List UInt8) (s : raft.State) : Except String (List UInt8) × raft.State :=
  match buf with
  | [] => (.error "Empty message", s)
  | rpcType :: requestData =>
    if rpcType = 1 then handleAppendEntries oxicode requestData s
    else if rpcType = 2 then handleVote oxicode requestData s
    else if rpcType = 3 then handleInstallSnapshot oxicode requestData s
    else (.error s!"Unknown RPC type: {rpcType}", s)

/-- What a server's task has written, why it has stopped, and the instance it leaves. -/
structure Served (raft : Raft) where
  written : List UInt8
  stop : Stop
  state : raft.State

/-- The loop of a connection whose next response has the given number. -/
def handleConnection (link : Link) (number : ℕ) (reader : Reader) (s : raft.State) : Served raft :=
  match hmessage : receiveMessage link.ending reader with
  | .error stop => ⟨[], stop, s⟩
  | .ok (buf, reader) =>
    match handleMessage oxicode buf s with
    | (.error e, s) => ⟨[], .closed e, s⟩
    | (.ok response, s) =>
      match link.fault number with
      | some fault => ⟨(frame response).take fault.written, .closed fault.error, s⟩
      | none =>
        have := length_of_receiveMessage hmessage
        let served := handleConnection link (number + 1) reader s
        { served with written := frame response ++ served.written }
  termination_by reader.bytes.length

end Server

namespace Plain

/-- An instance that keeps the highest term it has granted a vote for, for trying calls out. -/
@[reducible] def raft : Raft where
  State := UInt64
  Request _ := UInt64
  Response _ := UInt64
  handle t term s :=
    if t = .vote ∧ s < term then (.ok term, term)
    else if t = .vote then (.error "Fatal(Stopped)", s)
    else (.ok s, s)

def oxicode : Oxicode raft where
  request _ := Layout.word.codec Layout.write_word_ne_nil
  response _ := Layout.word.codec Layout.write_word_ne_nil

def link : Link := ⟨.silent, fun _ => none⟩

end Plain

section Messages

variable {ending : Ending} {reader : Reader} {buf rest : List UInt8}

theorem receiveMessage_frame (ending : Ending) (hlen : buf.length ≤ maxMessageSize)
    (h : reader.bytes = frame buf ++ rest) :
    ∃ reader', receiveMessage ending reader = .ok (buf, reader') ∧ reader'.bytes = rest := by
  have hlt : buf.length < 2 ^ 32 := Nat.lt_of_le_of_lt hlen (by decide)
  obtain ⟨lenBytes, reader₁, hread, hval, hbytes⟩ := Reader.readExact_frame hlt h
  obtain ⟨reader₂, hdata, hrest⟩ := Reader.readExact_append hbytes
  refine ⟨reader₂, ?_, hrest⟩
  simp only [receiveMessage, receiveData, hread, hval, hdata, if_neg (Nat.not_lt.mpr hlen)]

theorem receiveMessage_large (ending : Ending) (hlarge : maxMessageSize < buf.length)
    (hlt : buf.length < 2 ^ 32) (h : reader.bytes = frame buf ++ rest) :
    receiveMessage ending reader = .error (.closed s!"Message too large: {buf.length} bytes") := by
  obtain ⟨lenBytes, reader', hread, hval, -⟩ := Reader.readExact_frame hlt h
  simp only [receiveMessage, hread, hval, if_pos hlarge]

theorem receiveMessage_nil (ending : Ending) (h : reader.bytes = []) :
    receiveMessage ending reader =
      .error (.closed (if ending = .eof then "Read error: early eof" else "Read timeout")) := by
  have hread := Reader.readExact_of_lt (n := 4) (r := reader) (by simp [h])
  simp only [receiveMessage, hread]

theorem receiveMessage_cut (ending : Ending) (hlt : buf.length < 2 ^ 32)
    (h : reader.bytes <+: frame buf) (hcut : reader.bytes ≠ frame buf) :
    ∃ stop, receiveMessage ending reader = .error stop := by
  rcases exists_of_prefix_frame h with hshort | ⟨start, hstart, hbytes⟩
  · have hread := Reader.readExact_of_lt hshort
    exact ⟨_, by simp only [receiveMessage, hread]; rfl⟩
  · rw [Nat.mod_eq_of_lt hlt] at hbytes
    obtain ⟨reader', hread, hrest⟩ := Reader.readExact_append hbytes
    rw [length_toBeBytes] at hread
    have hval : fromBeBytes (toBeBytes 4 buf.length) = buf.length := fromBeBytes_toBeBytes hlt
    have hmissing : reader'.bytes.length < buf.length := by
      rw [hrest]
      refine Nat.lt_of_le_of_ne hstart.length_le fun hlen => hcut ?_
      rw [hbytes, hstart.eq_of_length hlen, frame, Nat.mod_eq_of_lt hlt]
    have hdata := Reader.readExact_of_lt hmissing
    simp only [receiveMessage, receiveData, hread, hval, hdata]
    split_ifs <;> exact ⟨_, rfl⟩

end Messages

section Connections

variable {raft : Raft} {oxicode : Oxicode raft} {link : Link} {number : ℕ} {reader reader' : Reader}
  {s s' : raft.State} {buf : List UInt8}

theorem handleConnection_of_stop {stop : Stop}
    (h : receiveMessage link.ending reader = .error stop) :
    handleConnection oxicode link number reader s = ⟨[], stop, s⟩ := by
  rw [handleConnection]
  split <;> cases h.symm.trans ‹_›
  rfl

theorem handleConnection_of_error {e : String}
    (h : receiveMessage link.ending reader = .ok (buf, reader'))
    (hmessage : handleMessage oxicode buf s = (.error e, s')) :
    handleConnection oxicode link number reader s = ⟨[], .closed e, s'⟩ := by
  rw [handleConnection]
  split <;> cases h.symm.trans ‹_›
  simp only [hmessage]

theorem handleConnection_of_fault {response : List UInt8} {fault : WriteFault}
    (h : receiveMessage link.ending reader = .ok (buf, reader'))
    (hmessage : handleMessage oxicode buf s = (.ok response, s'))
    (hfault : link.fault number = some fault) :
    handleConnection oxicode link number reader s =
      ⟨(frame response).take fault.written, .closed fault.error, s'⟩ := by
  rw [handleConnection]
  split <;> cases h.symm.trans ‹_›
  simp only [hmessage, hfault]

theorem handleConnection_of_ok {response : List UInt8}
    (h : receiveMessage link.ending reader = .ok (buf, reader'))
    (hmessage : handleMessage oxicode buf s = (.ok response, s'))
    (hfault : link.fault number = none) :
    handleConnection oxicode link number reader s =
      { handleConnection oxicode link (number + 1) reader' s' with
        written := frame response ++
          (handleConnection oxicode link (number + 1) reader' s').written } := by
  rw [handleConnection]
  split <;> cases h.symm.trans ‹_›
  simp only [hmessage, hfault]

theorem handleConnection_last {response : List UInt8}
    (h : receiveMessage link.ending reader = .ok (buf, reader')) (hrest : reader'.bytes = [])
    (hmessage : handleMessage oxicode buf s = (.ok response, s'))
    (hfault : link.fault number = none) :
    ∃ stop, handleConnection oxicode link number reader s = ⟨frame response, stop, s'⟩ := by
  have hserved := handleConnection_of_ok h hmessage hfault
  rw [handleConnection_of_stop (receiveMessage_nil link.ending hrest), List.append_nil] at hserved
  exact ⟨_, hserved⟩

theorem handleMessage_code (t : RpcType) (data : List UInt8) (s : raft.State) :
    handleMessage oxicode (t.code :: data) s = handleRpc oxicode t data s := by
  cases t <;> rfl

def message (oxicode : Oxicode raft) (t : RpcType) (request : raft.Request t) : List UInt8 :=
  t.code :: (oxicode.request t).encode request

theorem handleMessage_of_ok {t : RpcType} {request : raft.Request t} {response : raft.Response t}
    (h : raft.handle t request s = (.ok response, s')) :
    handleMessage oxicode (message oxicode t request) s =
      (.ok ((oxicode.response t).encode response), s') := by
  rw [message, handleMessage_code]
  simp only [handleRpc, Codec.decode_encode, h]

theorem handleMessage_of_error {t : RpcType} {request : raft.Request t} {e : String}
    (h : raft.handle t request s = (.error e, s')) :
    handleMessage oxicode (message oxicode t request) s = (.error s!"Raft error: {e}", s') := by
  rw [message, handleMessage_code]
  simp only [handleRpc, Codec.decode_encode, h]

def Malformed (oxicode : Oxicode raft) (buf : List UInt8) : Prop :=
  ∀ t data, buf = t.code :: data → ∃ e, (oxicode.request t).decode data = .error e

theorem handleMessage_malformed (h : Malformed oxicode buf) (s : raft.State) :
    ∃ e, handleMessage oxicode buf s = (.error e, s) := by
  match buf with
  | [] => exact ⟨_, rfl⟩
  | rpcType :: data =>
    by_cases hcode : ∃ t : RpcType, rpcType = t.code
    · obtain ⟨t, rfl⟩ := hcode
      obtain ⟨e, he⟩ := h t data rfl
      exact ⟨_, by rw [handleMessage_code]; simp only [handleRpc, he]; rfl⟩
    · have hne : ∀ t : RpcType, rpcType ≠ t.code := fun t ht => hcode ⟨t, ht⟩
      have h1 : rpcType ≠ 1 := hne .appendEntries
      have h2 : rpcType ≠ 2 := hne .vote
      have h3 : rpcType ≠ 3 := hne .installSnapshot
      exact ⟨_, by simp only [handleMessage, if_neg h1, if_neg h2, if_neg h3]; rfl⟩

end Connections

section Sessions

variable {raft : Raft} {oxicode : Oxicode raft} {link : Link}

/-- Requests made of the instance directly, one after the other until one fails: the encoded
responses, the failure and the instance. -/
structure Session (raft : Raft) where
  responses : List (List UInt8)
  failure : Option String
  state : raft.State

def session (oxicode : Oxicode raft) : List (Σ t, raft.Request t) → raft.State → Session raft
  | [], s => ⟨[], none, s⟩
  | ⟨t, request⟩ :: calls, s =>
    match raft.handle t request s with
    | (.error e, s) => ⟨[], some e, s⟩
    | (.ok response, s) =>
      let later := session oxicode calls s
      { later with responses := (oxicode.response t).encode response :: later.responses }

def requestFrames (oxicode : Oxicode raft) (calls : List (Σ t, raft.Request t)) : List UInt8 :=
  calls.flatMap fun call => frame (message oxicode call.1 call.2)

theorem handleConnection_requests {calls : List (Σ t, raft.Request t)}
    (hfits : ∀ call ∈ calls, (message oxicode call.1 call.2).length ≤ maxMessageSize)
    {number : ℕ} (hfault : ∀ n, link.fault (number + n) = none ∨ calls.length ≤ n)
    {reader : Reader} {rest : List UInt8} (h : reader.bytes = requestFrames oxicode calls ++ rest)
    (s : raft.State) :
    (∀ e, (session oxicode calls s).failure = some e →
      handleConnection oxicode link number reader s =
        ⟨(session oxicode calls s).responses.flatMap frame, .closed s!"Raft error: {e}",
          (session oxicode calls s).state⟩) ∧
    ((session oxicode calls s).failure = none →
      ∃ reader', reader'.bytes = rest ∧ handleConnection oxicode link number reader s =
        { handleConnection oxicode link (number + calls.length) reader'
            (session oxicode calls s).state with
          written := (session oxicode calls s).responses.flatMap frame ++
            (handleConnection oxicode link (number + calls.length) reader'
              (session oxicode calls s).state).written }) := by
  induction calls generalizing number reader s with
  | nil =>
    refine ⟨fun e he => ?_, fun _ => ⟨reader, h, ?_⟩⟩
    · cases he
    · simp [session]
  | cons call calls ih =>
    obtain ⟨t, request⟩ := call
    have hlen := hfits _ List.mem_cons_self
    rw [requestFrames, List.flatMap_cons, List.append_assoc] at h
    obtain ⟨reader₁, hmessage, hrest⟩ := receiveMessage_frame link.ending hlen h
    match hcall : raft.handle t request s with
    | (.error e, s₁) =>
      have hstop : handleConnection oxicode link number reader s = _ :=
        handleConnection_of_error hmessage (handleMessage_of_error hcall)
      simp only [session, hcall]
      refine ⟨fun e' he' => ?_, fun hnone => ?_⟩
      · cases he'
        rw [hstop]
        rfl
      · cases hnone
    | (.ok response, s₁) =>
      have hnone : link.fault number = none :=
        (hfault 0).resolve_right (by simp)
      have hgo := handleConnection_of_ok hmessage (handleMessage_of_ok hcall) hnone
      have hlater : ∀ n, link.fault (number + 1 + n) = none ∨ calls.length ≤ n := by
        intro n
        have := hfault (1 + n)
        rw [← Nat.add_assoc] at this
        exact this.imp_right fun hle => by simp only [List.length_cons] at hle; omega
      obtain ⟨hfail, hdone⟩ := ih (fun call hcall => hfits call (List.mem_cons_of_mem _ hcall))
        hlater hrest s₁
      simp only [session, hcall, List.flatMap_cons, List.length_cons]
      refine ⟨fun e he => ?_, fun he => ?_⟩
      · rw [hgo, hfail e he]
      · obtain ⟨reader₂, hbytes, heq⟩ := hdone he
        refine ⟨reader₂, hbytes, ?_⟩
        rw [hgo, heq, Nat.add_comm calls.length 1, ← Nat.add_assoc, List.append_assoc]

/-- A server of requests in any segments calls the instance for one after the other, and writes
the responses in their order. It stops with the first call that fails. Of what comes after the
requests, an end of the stream and a message that is none leave the instance alone. -/
theorem requests_served (oxicode : Oxicode raft) (link : Link)
    (calls : List (Σ t, raft.Request t)) (rest : List UInt8) (segments : List Segment)
    (s : raft.State)
    (hfits : ∀ call ∈ calls, (message oxicode call.1 call.2).length ≤ maxMessageSize)
    (hfault : ∀ n < calls.length, link.fault n = none)
    (h : (segments.map (·.1)).flatten = requestFrames oxicode calls ++ rest) :
    let served := handleConnection oxicode link 0 ⟨[], segments⟩ s
    let direct := session oxicode calls s
    (∀ e, direct.failure = some e →
      served = ⟨direct.responses.flatMap frame, .closed s!"Raft error: {e}", direct.state⟩) ∧
    (direct.failure = none → rest = [] → served = ⟨direct.responses.flatMap frame,
      .closed (if link.ending = .eof then "Read error: early eof" else "Read timeout"),
      direct.state⟩) ∧
    (direct.failure = none → ∀ buf more, rest = frame buf ++ more → buf.length < 2 ^ 32 →
      maxMessageSize < buf.length ∨ Malformed oxicode buf →
      ∃ reason, served = ⟨direct.responses.flatMap frame, .closed reason, direct.state⟩) := by
  have hbytes : (⟨[], segments⟩ : Reader).bytes = requestFrames oxicode calls ++ rest := h
  have hfault' : ∀ n, link.fault (0 + n) = none ∨ calls.length ≤ n := by
    intro n
    rw [Nat.zero_add]
    exact (Nat.lt_or_ge n calls.length).imp_left (hfault n)
  obtain ⟨hfail, hdone⟩ := handleConnection_requests hfits hfault' hbytes s
  refine ⟨hfail, fun hnone hrest => ?_, fun hnone buf more hrest hlt hbad => ?_⟩
  · obtain ⟨reader, hreader, hserved⟩ := hdone hnone
    rw [hserved, handleConnection_of_stop (receiveMessage_nil link.ending (hreader.trans hrest))]
    simp
  · obtain ⟨reader, hreader, hserved⟩ := hdone hnone
    rw [hserved]
    by_cases hlarge : maxMessageSize < buf.length
    · rw [handleConnection_of_stop
        (receiveMessage_large link.ending hlarge hlt (hreader.trans hrest))]
      exact ⟨_, by rw [List.append_nil]⟩
    · obtain ⟨reader', hmessage, -⟩ :=
        receiveMessage_frame link.ending (Nat.le_of_not_lt hlarge) (hreader.trans hrest)
      obtain ⟨e, he⟩ := handleMessage_malformed (hbad.resolve_left hlarge)
        (session oxicode calls s).state
      rw [handleConnection_of_error hmessage he]
      exact ⟨e, by rw [List.append_nil]⟩

theorem requests_served_two :
    let calls : List (Σ t, Plain.raft.Request t) := [⟨.vote, (4 : UInt64)⟩, ⟨.vote, (3 : UInt64)⟩]
    let stream := requestFrames Plain.oxicode calls
    handleConnection Plain.oxicode Plain.link 0 ⟨[], [⟨stream.take 6, by decide +kernel⟩,
        ⟨stream.drop 6, by decide +kernel⟩]⟩ (1 : UInt64) =
      ⟨frame ((Plain.oxicode.response .vote).encode (4 : UInt64)),
        .closed "Raft error: Fatal(Stopped)", (4 : UInt64)⟩ := by
  intro calls stream
  have hfits : ∀ call ∈ calls, (message Plain.oxicode call.1 call.2).length ≤ maxMessageSize := by
    simp only [calls, List.forall_mem_cons]
    decide +kernel
  exact (requests_served Plain.oxicode Plain.link calls [] _ (1 : UInt64) hfits
    (fun _ _ => rfl) (by simp [stream])).1 "Fatal(Stopped)" rfl

end Sessions

structure TcpNetworkConfig where
  bindAddr : String
  peers : Table UInt64 String

structure TcpNetwork where
  target : UInt64
  config : TcpNetworkConfig

inductive Connect where
  | timeout
  | failed (e : String)
  | connected
  deriving DecidableEq, Repr

def TcpNetwork.getConnection (network : TcpNetwork) (connect : String → Connect) :
    Except String Unit :=
  match network.config.peers[network.target]? with
  | none => .error s!"Unknown peer {network.target}"
  | some addr =>
    match connect addr with
    | .timeout => .error s!"Connection timeout to {addr}"
    | .failed e => .error s!"Connection failed: {e}"
    | .connected => .ok ()

inductive SendError where
  | length (e : String)
  | data (e : String)
  | flush (e : String)
  | timeout
  deriving DecidableEq, Repr

def SendError.text (target : UInt64) : SendError → String
  | length e => s!"Write length error: {e}"
  | data e => s!"Write data error: {e}"
  | flush e => s!"Flush error: {e}"
  | timeout => s!"Send timeout to peer {target}"

/-- What the network does with one call: the connection, the bytes of the request that are
written when writing fails, and the stream that comes back. -/
structure Exchange where
  connect : String → Connect
  fault : Option (SendError × ℕ)
  segments : List Segment
  ending : Ending

def Plain.network : TcpNetwork :=
  ⟨2, ⟨"0.0.0.0:9090", (∅ : Table UInt64 String).insert 2 "127.0.0.1:9091"⟩⟩

section Client

variable {raft : Raft} (oxicode : Oxicode raft)

def receiveResponseData (t : RpcType) (target : UInt64) (ending : Ending) (len : ℕ)
    (reader : Reader) : Except String (raft.Response t) :=
  match reader.readExact len with
  | (.error _, _) =>
    .error (if ending = .eof then "Read data error: early eof"
      else s!"Receive data timeout from peer {target}")
  | (.ok responseBuf, _) =>
    match (oxicode.response t).decode responseBuf with
    | .error e => .error s!"Deserialize error: {e}"
    | .ok response => .ok response

def receiveResponse (t : RpcType) (target : UInt64) (ending : Ending) (reader : Reader) :
    Except String (raft.Response t) :=
  match reader.readExact 4 with
  | (.error _, _) =>
    .error (if ending = .eof then "Read length error: early eof"
      else s!"Receive timeout from peer {target}")
  | (.ok lenBytes, reader) =>
    if maxMessageSize < fromBeBytes lenBytes then
      .error s!"Response too large: {fromBeBytes lenBytes} bytes"
    else receiveResponseData oxicode t target ending (fromBeBytes lenBytes) reader

def TcpNetwork.sendRpc (network : TcpNetwork) (exchange : Exchange) (t : RpcType)
    (request : raft.Request t) : List UInt8 × Except String (raft.Response t) :=
  match network.getConnection exchange.connect with
  | .error e => ([], .error e)
  | .ok () =>
    match exchange.fault with
    | some (e, written) =>
      ((frame (message oxicode t request)).take written, .error (e.text network.target))
    | none =>
      (frame (message oxicode t request),
        receiveResponse oxicode t network.target exchange.ending ⟨[], exchange.segments⟩)

end Client

section Calls

variable {raft : Raft} {oxicode : Oxicode raft} {network : TcpNetwork} {exchange : Exchange}
  {link : Link} {t : RpcType} {request : raft.Request t} {response : raft.Response t}
  {reader : Reader} {s s' : raft.State}

theorem prefix_sendRpc : (network.sendRpc oxicode exchange t request).1 <+:
    frame (message oxicode t request) := by
  unfold TcpNetwork.sendRpc
  split
  · exact List.nil_prefix
  · split
    · exact List.take_prefix _ _
    · exact List.prefix_refl _

theorem receiveResponse_of_sendRpc
    (h : (network.sendRpc oxicode exchange t request).2 = .ok response) :
    receiveResponse oxicode t network.target exchange.ending ⟨[], exchange.segments⟩ =
      .ok response := by
  unfold TcpNetwork.sendRpc at h
  split at h
  · cases h
  · split at h
    · cases h
    · exact h

theorem eq_of_receiveResponse {target : UInt64} {ending : Ending} {buf : List UInt8}
    (hlt : buf.length < 2 ^ 32) (h : reader.bytes <+: frame buf)
    (hok : receiveResponse oxicode t target ending reader = .ok response) :
    (oxicode.response t).decode buf = .ok response := by
  unfold receiveResponse at hok
  split at hok
  · cases hok
  next lenBytes reader₁ hread =>
    split_ifs at hok
    have hfour := Reader.length_of_readExact hread
    rcases exists_of_prefix_frame h with hshort | ⟨start, hstart, hbytes⟩
    · omega
    · rw [Nat.mod_eq_of_lt hlt] at hbytes
      obtain ⟨reader', hread', hrest⟩ := Reader.readExact_append hbytes
      rw [length_toBeBytes] at hread'
      cases hread'.symm.trans hread
      rw [fromBeBytes_toBeBytes hlt] at hok
      unfold receiveResponseData at hok
      split at hok
      · cases hok
      next responseBuf reader₂ hdata =>
        have hall := Reader.length_of_readExact hdata
        have hwhole : start = buf := hstart.eq_of_length_le (by rw [← hrest]; omega)
        obtain ⟨reader₃, hdata', -⟩ :=
          Reader.readExact_append (hrest.trans (hwhole.trans (List.append_nil _).symm))
        cases hdata'.symm.trans hdata
        split at hok
        · cases hok
        next hdecode =>
          cases hok
          exact hdecode

/-- What one request leaves on the server: nothing if it is not read as a whole, and otherwise the
call and what is written of its response. -/
theorem handleConnection_request (link : Link) (hlt : (message oxicode t request).length < 2 ^ 32)
    (h : reader.bytes <+: frame (message oxicode t request)) (s : raft.State) :
    ((handleConnection oxicode link 0 reader s).written = [] ∧
      (handleConnection oxicode link 0 reader s).state = s) ∨
    ((handleConnection oxicode link 0 reader s).state = (raft.handle t request s).2 ∧
      ∀ written, written <+: (handleConnection oxicode link 0 reader s).written → written ≠ [] →
        ∃ response, (raft.handle t request s).1 = .ok response ∧
          written <+: frame ((oxicode.response t).encode response)) := by
  by_cases hwhole : reader.bytes = frame (message oxicode t request)
  · by_cases hlarge : maxMessageSize < (message oxicode t request).length
    · have hstop := receiveMessage_large link.ending hlarge hlt
        (hwhole.trans (List.append_nil _).symm)
      exact .inl (by simp [handleConnection_of_stop hstop])
    · obtain ⟨reader', hmessage, hrest⟩ := receiveMessage_frame link.ending
        (Nat.le_of_not_lt hlarge) (hwhole.trans (List.append_nil _).symm)
      refine .inr ?_
      match hcall : raft.handle t request s with
      | (.error e, s') =>
        rw [handleConnection_of_error hmessage (handleMessage_of_error hcall)]
        exact ⟨rfl, fun written hw hne => absurd (List.prefix_nil.mp hw) hne⟩
      | (.ok response, s') =>
        match hfault : link.fault 0 with
        | some fault =>
          rw [handleConnection_of_fault hmessage (handleMessage_of_ok hcall) hfault]
          exact ⟨rfl, fun written hw _ => ⟨response, rfl, hw.trans (List.take_prefix _ _)⟩⟩
        | none =>
          obtain ⟨stop, hserved⟩ :=
            handleConnection_last hmessage hrest (handleMessage_of_ok hcall) hfault
          rw [hserved]
          exact ⟨rfl, fun written hw _ => ⟨response, rfl, hw⟩⟩
  · obtain ⟨stop, hstop⟩ := receiveMessage_cut link.ending hlt h hwhole
    exact .inl (by simp [handleConnection_of_stop hstop])

/-- Whatever part of the request reaches the server and whatever part of the response comes back,
the instance has been called once or not at all, and a call that returns a response returns the
one that the instance has given. -/
theorem remote_call_sound (oxicode : Oxicode raft) (network : TcpNetwork) (exchange : Exchange)
    (link : Link) (t : RpcType) (request : raft.Request t) (s : raft.State) (up : List Segment)
    (hrequest : (message oxicode t request).length < 2 ^ 32)
    (hresponse : ∀ response, (raft.handle t request s).1 = .ok response →
      ((oxicode.response t).encode response).length < 2 ^ 32)
    (hup : (up.map (·.1)).flatten <+: (network.sendRpc oxicode exchange t request).1)
    (hdown : (exchange.segments.map (·.1)).flatten <+:
      (handleConnection oxicode link 0 ⟨[], up⟩ s).written) :
    let served := handleConnection oxicode link 0 ⟨[], up⟩ s
    (served.state = s ∨ served.state = (raft.handle t request s).2) ∧
    ∀ response, (network.sendRpc oxicode exchange t request).2 = .ok response →
      raft.handle t request s = (.ok response, served.state) := by
  intro served
  have hread : (⟨[], up⟩ : Reader).bytes <+: frame (message oxicode t request) :=
    hup.trans prefix_sendRpc
  have hserved := handleConnection_request link hrequest hread s
  refine ⟨hserved.imp And.right And.left, fun response hok => ?_⟩
  have hreceive := receiveResponse_of_sendRpc hok
  have hne : (exchange.segments.map (·.1)).flatten ≠ [] := by
    intro hnil
    have hbytes : (⟨[], exchange.segments⟩ : Reader).bytes = [] := hnil
    have hshort := Reader.readExact_of_lt (n := 4) (r := ⟨[], exchange.segments⟩) (by simp [hbytes])
    simp [receiveResponse, hshort] at hreceive
  rcases hserved with ⟨hwritten, -⟩ | ⟨hstate, hwritten⟩
  · rw [hwritten] at hdown
    exact absurd (List.prefix_nil.mp hdown) hne
  · obtain ⟨response', hhandle, hframe⟩ := hwritten _ hdown hne
    have hback : (⟨[], exchange.segments⟩ : Reader).bytes <+: _ := hframe
    have hdecode := eq_of_receiveResponse (hresponse response' hhandle) hback hreceive
    rw [Codec.decode_encode] at hdecode
    cases hdecode
    exact Prod.ext hhandle hstate.symm

theorem remote_call_sound_cut :
    let request : Plain.raft.Request .vote := (4 : UInt64)
    let exchange : Exchange := ⟨fun _ => .connected, none, [], .silent⟩
    let sent := (Plain.network.sendRpc Plain.oxicode exchange .vote request).1
    let served := handleConnection Plain.oxicode Plain.link 0
      ⟨[], [⟨sent.take 6, by decide +kernel⟩]⟩ (1 : UInt64)
    served.state = (1 : UInt64) ∨
      served.state = (Plain.raft.handle .vote request (1 : UInt64)).2 := by
  intro request exchange sent served
  refine (remote_call_sound Plain.oxicode Plain.network exchange Plain.link .vote request
    (1 : UInt64) [⟨sent.take 6, by decide +kernel⟩] (by decide +kernel) ?_ ?_ List.nil_prefix).1
  · intro response hresponse
    cases hresponse
    decide +kernel
  · simpa using List.take_prefix 6 sent

end Calls

end DumbDistributedLog.RaftRpc
