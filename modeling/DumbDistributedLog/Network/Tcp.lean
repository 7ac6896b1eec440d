import DumbDistributedLog.Library.Framing
import DumbDistributedLog.Wal.Log

/-! # The TCP transport

The writer of a connection sends each message as a frame. The other side reads the length and
the data of one frame after the other, however the stream is cut into segments, and forwards
the messages until the stream ends or a length is out of bounds.
-/

namespace DumbDistributedLog.Tcp

inductive NetworkMessage where
  | push (topic : String) (entry : Ddl.Entry)
  | batchPush (topic : String) (entries : List Ddl.Entry)
  | subscribe (topic subscriberId : String)
  | ack (topic : String) (entryId : UInt64)
  | heartbeat
  | peerReq (requestId : BitVec 128) (sourceNode targetNode : UInt64) (metricKey : String)
      (payload : List UInt8)
  | peerResp (requestId : BitVec 128) (sourceNode : UInt64) (success : Bool)
      (payload : List UInt8) (errorMessage : Option String)
  deriving DecidableEq, Repr

def maxMessageSize : ℕ := 10 * 1024 * 1024

/-- The task of `connect_to_peer` that writes the messages of its channel. -/
def writerTask (json : Codec NetworkMessage) : List NetworkMessage → List UInt8
  | [] => []
  | msg :: msgs => frame (json.encode msg) ++ writerTask json msgs

/-- Why a connection is left, with the bytes of an incomplete read. -/
inductive Closing where
  | closed (read : List UInt8)
  | tooLarge (len : ℕ)
  | emptyLength
  | dataCut (read : List UInt8)
  deriving DecidableEq, Repr

/-- Data that are no message are dropped. -/
def receiveData (json : Codec NetworkMessage) (len : ℕ) (reader : Reader) :
    Except (Closing × Reader) (Option NetworkMessage × Reader) :=
  match reader.readExact len with
  | (.error read, reader) => .error (.dataCut read, reader)
  | (.ok data, reader) => .ok ((json.decode data).toOption, reader)

/-- One turn of the loop of `handle_connection`. -/
def receiveFrame (json : Codec NetworkMessage) (reader : Reader) :
    Except (Closing × Reader) (Option NetworkMessage × Reader) :=
  match reader.readExact 4 with
  | (.error read, reader) => .error (.closed read, reader)
  | (.ok lenBuf, reader) =>
    if maxMessageSize < fromBeBytes lenBuf then .error (.tooLarge (fromBeBytes lenBuf), reader)
    else if fromBeBytes lenBuf = 0 then .error (.emptyLength, reader)
    else receiveData json (fromBeBytes lenBuf) reader

namespace Plain

open Layout Ddl.Wal.Plain

/-- A message is written as its tag, its strings, words, bytes, entries and request id. -/
def networkMessage : Layout NetworkMessage :=
  (((word.pair string.list).pair (word.list.pair byte.list)).pair
    (entry.list.pair doubleWord)).via
    (fun msg =>
      match msg with
      | .push topic e => (((0, [topic]), ([], [])), ([e], 0))
      | .batchPush topic es => (((1, [topic]), ([], [])), (es, 0))
      | .subscribe topic id => (((2, [topic, id]), ([], [])), ([], 0))
      | .ack topic id => (((3, [topic]), ([id], [])), ([], 0))
      | .heartbeat => (((4, []), ([], [])), ([], 0))
      | .peerReq id source target key payload =>
        (((5, [key]), ([source, target], payload)), ([], id))
      | .peerResp id source success payload error =>
        (((6, error.toList), ([source, if success then 1 else 0], payload)), ([], id)))
    (fun p =>
      match p with
      | (((0, [topic]), _), ([e], _)) => some (.push topic e)
      | (((1, [topic]), _), (es, _)) => some (.batchPush topic es)
      | (((2, [topic, id]), _), _) => some (.subscribe topic id)
      | (((3, [topic]), ([id], _)), _) => some (.ack topic id)
      | (((4, _), _), _) => some .heartbeat
      | (((5, [key]), ([source, target], payload)), (_, id)) =>
        some (.peerReq id source target key payload)
      | (((6, error), ([source, success], payload)), (_, id)) =>
        some (.peerResp id source (success = 1) payload error.head?)
      | _ => none)
    fun msg => by
      cases msg with
      | peerResp id source success payload error => cases success <;> cases error <;> rfl
      | _ => rfl

def json : Codec NetworkMessage :=
  networkMessage.codec fun _ =>
    write_pair_ne_nil (write_pair_ne_nil (write_pair_ne_nil write_word_ne_nil)) _

end Plain

variable {json : Codec NetworkMessage} {reader reader' : Reader} {msg : Option NetworkMessage}
  {data rest : List UInt8} {n : ℕ}

theorem length_of_receiveData (h : receiveData json n reader = .ok (msg, reader')) :
    reader'.bytes.length + n = reader.bytes.length := by
  unfold receiveData at h
  split at h
  · cases h
  next hread =>
    cases h
    exact Reader.length_of_readExact hread

theorem length_of_receiveFrame (h : receiveFrame json reader = .ok (msg, reader')) :
    reader'.bytes.length < reader.bytes.length := by
  unfold receiveFrame at h
  split at h
  · cases h
  next hread =>
    have hlen := Reader.length_of_readExact hread
    split_ifs at h
    have := length_of_receiveData h
    omega

/-- What a connection has forwarded when it is left. -/
structure Received where
  forwarded : List NetworkMessage
  closing : Closing
  reader : Reader

def handleConnection (json : Codec NetworkMessage) (reader : Reader) : Received :=
  match hframe : receiveFrame json reader with
  | .error (closing, reader) => ⟨[], closing, reader⟩
  | .ok (msg, reader) =>
    have := length_of_receiveFrame hframe
    let received := handleConnection json reader
    { received with forwarded := msg.toList ++ received.forwarded }
  termination_by reader.bytes.length

theorem handleConnection_of_error {closing : Closing}
    (h : receiveFrame json reader = .error (closing, reader')) :
    handleConnection json reader = ⟨[], closing, reader'⟩ := by
  rw [handleConnection]
  split <;> cases h.symm.trans ‹_›
  rfl

theorem handleConnection_of_ok (h : receiveFrame json reader = .ok (msg, reader')) :
    handleConnection json reader =
      { handleConnection json reader' with
        forwarded := msg.toList ++ (handleConnection json reader').forwarded } := by
  rw [handleConnection]
  split <;> cases h.symm.trans ‹_›
  rfl

/-- The frame of the message is one that the other side reads. -/
def Fits (json : Codec NetworkMessage) (msg : NetworkMessage) : Prop :=
  1 ≤ (json.encode msg).length ∧ (json.encode msg).length ≤ maxMessageSize

variable (json) in
theorem receiveFrame_of_length {len : ℕ} (hpos : 1 ≤ len) (hmax : len ≤ maxMessageSize)
    (h : reader.bytes = toBeBytes 4 (len % 2 ^ 32) ++ rest) :
    ∃ reader', reader'.bytes = rest ∧
      receiveFrame json reader = receiveData json len reader' := by
  have hmod : len % 2 ^ 32 = len :=
    Nat.mod_eq_of_lt (Nat.lt_of_le_of_lt hmax (by decide))
  have hlen : fromBeBytes (toBeBytes 4 len) = len :=
    fromBeBytes_toBeBytes (Nat.lt_of_le_of_lt hmax (by decide))
  rw [hmod] at h
  obtain ⟨reader', hread, hrest⟩ := Reader.readExact_of_le (n := 4) (r := reader) (by simp [h])
  rw [h, List.take_left' (length_toBeBytes 4 len)] at hread
  rw [h, List.drop_left' (length_toBeBytes 4 len)] at hrest
  refine ⟨reader', hrest, ?_⟩
  simp only [receiveFrame, hread, hlen]
  rw [if_neg (Nat.not_lt.mpr hmax), if_neg (by omega)]

variable (json) in
theorem receiveFrame_frame (hpos : 1 ≤ data.length) (hmax : data.length ≤ maxMessageSize)
    (h : reader.bytes = frame data ++ rest) :
    ∃ reader', reader'.bytes = rest ∧
      receiveFrame json reader = .ok ((json.decode data).toOption, reader') := by
  rw [frame, List.append_assoc] at h
  obtain ⟨reader₁, hbytes, hframe⟩ := receiveFrame_of_length json hpos hmax h
  obtain ⟨reader₂, hread, hrest⟩ :=
    Reader.readExact_of_le (n := data.length) (r := reader₁) (by simp [hbytes])
  rw [hbytes, List.take_left] at hread
  rw [hbytes, List.drop_left] at hrest
  exact ⟨reader₂, hrest, by rw [hframe, receiveData, hread]⟩

variable (json) in
theorem receiveFrame_cut (hpos : 1 ≤ data.length) (hmax : data.length ≤ maxMessageSize)
    (h : reader.bytes = (frame data).take n) (hn : n < (frame data).length) :
    ∃ closing, receiveFrame json reader = .error (closing, .finished) := by
  rw [length_frame] at hn
  by_cases hlen : n < 4
  · -- The length itself is cut.
    have hread := Reader.readExact_of_lt (n := 4) (r := reader) (by simp [h]; omega)
    exact ⟨.closed reader.bytes, by rw [receiveFrame, hread]⟩
  · have hbytes : reader.bytes =
        toBeBytes 4 (data.length % 2 ^ 32) ++ data.take (n - 4) := by
      rw [h, frame, List.take_append, length_toBeBytes,
        List.take_of_length_le (by simp only [length_toBeBytes]; omega)]
    obtain ⟨reader', hrest, hframe⟩ := receiveFrame_of_length json hpos hmax hbytes
    have hread := Reader.readExact_of_lt (n := data.length) (r := reader')
      (by simp only [hrest, List.length_take]; omega)
    exact ⟨.dataCut reader'.bytes, by rw [hframe, receiveData, hread]⟩

theorem handleConnection_finished (h : reader.bytes = []) :
    handleConnection json reader = ⟨[], .closed [], .finished⟩ := by
  have hread := Reader.readExact_of_lt (n := 4) (r := reader) (by simp [h])
  refine handleConnection_of_error ?_
  rw [receiveFrame, hread, h]

/-- The messages of the frames that lie before the cut. -/
def complete (json : Codec NetworkMessage) : ℕ → List NetworkMessage → List NetworkMessage
  | _, [] => []
  | n, msg :: msgs =>
    if (frame (json.encode msg)).length ≤ n then
      msg :: complete json (n - (frame (json.encode msg)).length) msgs
    else []

theorem initial_complete (n : ℕ) (msgs : List NetworkMessage) : complete json n msgs <+: msgs := by
  induction msgs generalizing n with
  | nil => exact List.prefix_refl _
  | cons msg msgs ih =>
    unfold complete
    split_ifs
    · exact (List.prefix_cons_inj msg).mpr (ih _)
    · exact List.nil_prefix

theorem le_length_complete_iff {k : ℕ} {msgs : List NetworkMessage} (hk : k ≤ msgs.length) :
    k ≤ (complete json n msgs).length ↔ (writerTask json (msgs.take k)).length ≤ n := by
  induction msgs generalizing n k with
  | nil =>
    obtain rfl : k = 0 := by simpa using hk
    simp [writerTask]
  | cons msg msgs ih =>
    cases k with
    | zero => simp [writerTask]
    | succ k =>
      have hk' : k ≤ msgs.length := by simpa using hk
      simp only [complete, List.take_succ_cons, writerTask, List.length_append]
      split_ifs with hframe
      · rw [List.length_cons, Nat.succ_le_succ_iff, ih hk']
        omega
      · simp only [List.length_nil]
        omega

theorem handleConnection_whole {msgs : List NetworkMessage} (hfits : ∀ msg ∈ msgs, Fits json msg)
    (h : reader.bytes = writerTask json msgs) :
    handleConnection json reader = ⟨msgs, .closed [], .finished⟩ := by
  induction msgs generalizing reader with
  | nil => exact handleConnection_finished h
  | cons msg msgs ih =>
    obtain ⟨hpos, hmax⟩ := hfits msg List.mem_cons_self
    obtain ⟨reader', hrest, hframe⟩ := receiveFrame_frame json hpos hmax h
    have hlater := ih (fun m hm => hfits m (List.mem_cons_of_mem _ hm)) hrest
    rw [handleConnection_of_ok hframe, hlater, json.decode_encode]
    rfl

theorem forwarded_cut {msgs : List NetworkMessage} (hfits : ∀ msg ∈ msgs, Fits json msg)
    (h : reader.bytes = (writerTask json msgs).take n) :
    (handleConnection json reader).forwarded = complete json n msgs := by
  induction msgs generalizing reader n with
  | nil => rw [handleConnection_finished (by simpa [writerTask] using h), complete]
  | cons msg msgs ih =>
    obtain ⟨hpos, hmax⟩ := hfits msg List.mem_cons_self
    rw [writerTask, List.take_append] at h
    by_cases hn : (frame (json.encode msg)).length ≤ n
    · rw [List.take_of_length_le hn] at h
      obtain ⟨reader', hrest, hframe⟩ := receiveFrame_frame json hpos hmax h
      have hlater := ih (fun m hm => hfits m (List.mem_cons_of_mem _ hm)) hrest
      rw [handleConnection_of_ok hframe, json.decode_encode, complete, if_pos hn, hlater]
      rfl
    · rw [Nat.sub_eq_zero_of_le (Nat.le_of_not_le hn), List.take_zero, List.append_nil] at h
      obtain ⟨closing, hframe⟩ :=
        receiveFrame_cut json hpos hmax h (Nat.lt_of_not_le hn)
      rw [handleConnection_of_error hframe, complete, if_neg hn]

/-- A stream of fitting messages is forwarded as a whole, and a cut stream up to the cut. -/
theorem framing_lossless (json : Codec NetworkMessage) (msgs : List NetworkMessage)
    (hfits : ∀ msg ∈ msgs, Fits json msg) (segments : List Segment) :
    ((segments.map (·.1)).flatten = writerTask json msgs →
      handleConnection json ⟨[], segments⟩ = ⟨msgs, .closed [], .finished⟩) ∧
    ∀ n, (segments.map (·.1)).flatten = (writerTask json msgs).take n →
      (handleConnection json ⟨[], segments⟩).forwarded <+: msgs ∧
      ∀ k ≤ msgs.length, k ≤ (handleConnection json ⟨[], segments⟩).forwarded.length ↔
        (writerTask json (msgs.take k)).length ≤ n := by
  refine ⟨fun h => handleConnection_whole hfits h, fun n h => ?_⟩
  have hcut : (⟨[], segments⟩ : Reader).bytes = (writerTask json msgs).take n := h
  rw [forwarded_cut hfits hcut]
  exact ⟨initial_complete n msgs, fun k hk => le_length_complete_iff hk⟩

theorem framing_lossless_two :
    let msgs : List NetworkMessage := [.heartbeat, .ack "t" 3]
    let stream := writerTask Plain.json msgs
    (∀ msg ∈ msgs, Fits Plain.json msg) ∧
      handleConnection Plain.json ⟨[], [⟨stream.take 6, by decide +kernel⟩,
        ⟨stream.drop 6, by decide +kernel⟩]⟩ = ⟨msgs, .closed [], .finished⟩ := by
  intro msgs stream
  have hfits : ∀ msg ∈ msgs, Fits Plain.json msg := by
    simp only [msgs, List.forall_mem_cons, Fits]
    decide +kernel
  exact ⟨hfits, (framing_lossless Plain.json msgs hfits _).1 (by simp [stream])⟩

end DumbDistributedLog.Tcp
