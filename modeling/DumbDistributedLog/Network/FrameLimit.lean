import DumbDistributedLog.Library.TextCodec
import DumbDistributedLog.Network.Tcp

/-! # The limit of a frame

The receiver leaves the connection at a frame above its limit, and the writer sends such a frame
all the same. A message of more than 32 bits of length is announced with a part of it: the part
is no message, and the text after it is no length. So the messages up to the first one above the
limit are forwarded, and none after it.
-/

theorem List.takeWhile_eq_filter_iff {α : Type*} {p : α → Bool} {l : List α} :
    l.takeWhile p = l.filter p ↔ l.Pairwise fun earlier later => p later → p earlier := by
  induction l with
  | nil => simp
  | cons a l ih =>
    rw [List.pairwise_cons, ← ih]
    cases ha : p a with
    | true => simp [ha]
    | false =>
      constructor
      · intro hnil
        have hnone : l.filter p = [] := by simpa [ha] using hnil.symm
        have hfalse : ∀ b ∈ l, ¬ p b := List.filter_eq_nil_iff.mp hnone
        refine ⟨fun b hb hpb => absurd hpb (hfalse b hb), ?_⟩
        cases l with
        | nil => rfl
        | cons b l => rw [hnone, List.takeWhile_cons_of_neg (hfalse b List.mem_cons_self)]
      · rintro ⟨hnone, -⟩
        simpa [ha] using hnone

namespace DumbDistributedLog.Tcp

variable {json : TextCodec NetworkMessage} {msg : NetworkMessage} {msgs : List NetworkMessage}
  {reader : Reader} {rest : List UInt8}

/-- The message is forwarded from a connection that carries nothing else. -/
def Accepted (json : Codec NetworkMessage) (msg : NetworkMessage) : Prop :=
  (handleConnection json ⟨writerTask json [msg], []⟩).forwarded = [msg]

theorem fits_iff : Fits json.toCodec msg ↔ (json.encode msg).length ≤ maxMessageSize :=
  and_iff_right (List.length_pos_iff.mpr (json.encode_ne_nil msg))

/-- Text is no length within the limit. -/
theorem maxMessageSize_lt_fromBeBytes {bytes : List UInt8} (hlen : bytes.length = 4)
    (h : ∀ b ∈ bytes, 32 ≤ b) : maxMessageSize < fromBeBytes bytes := by
  match bytes with
  | [a, b, c, d] =>
    have ha : 32 ≤ a.toNat := UInt8.le_iff_toNat_le.mp (h a List.mem_cons_self)
    simp only [fromBeBytes, List.foldl_cons, List.foldl_nil, maxMessageSize]
    omega

variable (json) in
theorem forwarded_of_text {text : List UInt8} (hlen : 4 ≤ text.length) (h : ∀ b ∈ text, 32 ≤ b)
    (hbytes : reader.bytes = text ++ rest) :
    (handleConnection json.toCodec reader).forwarded = [] := by
  obtain ⟨reader', hread, -⟩ :=
    Reader.readExact_of_le (n := 4) (r := reader) (by simp [hbytes]; omega)
  rw [hbytes, List.take_append_of_le_length hlen] at hread
  have hlarge : maxMessageSize < fromBeBytes (text.take 4) :=
    maxMessageSize_lt_fromBeBytes (by simpa using hlen) fun b hb => h b (List.mem_of_mem_take hb)
  have hframe : receiveFrame json.toCodec reader =
      .error (.tooLarge (fromBeBytes (text.take 4)), reader') := by
    simp only [receiveFrame, hread, if_pos hlarge]
  rw [handleConnection_of_error hframe]

variable (json) in
theorem forwarded_of_length {len : ℕ} (hlen : ¬ (1 ≤ len % 2 ^ 32 ∧ len % 2 ^ 32 ≤ maxMessageSize))
    (hbytes : reader.bytes = toBeBytes 4 (len % 2 ^ 32) ++ rest) :
    (handleConnection json.toCodec reader).forwarded = [] := by
  obtain ⟨reader', hread, -⟩ := Reader.readExact_of_le (n := 4) (r := reader) (by simp [hbytes])
  rw [hbytes, List.take_left' (length_toBeBytes 4 _)] at hread
  have hval : fromBeBytes (toBeBytes 4 (len % 2 ^ 32)) = len % 2 ^ 32 :=
    fromBeBytes_toBeBytes (Nat.mod_lt _ (by decide))
  obtain ⟨closing, hframe⟩ : ∃ closing,
      receiveFrame json.toCodec reader = .error (closing, reader') := by
    simp only [receiveFrame, hread, hval]
    by_cases hlarge : maxMessageSize < len % 2 ^ 32
    · exact ⟨_, if_pos hlarge⟩
    · have hzero : len % 2 ^ 32 = 0 := by omega
      exact ⟨.emptyLength, by rw [if_neg hlarge, if_pos hzero]⟩
  rw [handleConnection_of_error hframe]

theorem forwarded_of_not_fits (hmsg : ¬ Fits json.toCodec msg)
    (hbytes : reader.bytes = frame (json.encode msg) ++ rest) :
    (handleConnection json.toCodec reader).forwarded = [] := by
  have hlarge : maxMessageSize < (json.encode msg).length := Nat.not_le.mp (mt fits_iff.mpr hmsg)
  rw [frame, List.append_assoc] at hbytes
  by_cases hlen : 1 ≤ (json.encode msg).length % 2 ^ 32 ∧
      (json.encode msg).length % 2 ^ 32 ≤ maxMessageSize
  · -- The announced part is cut off the text, and the rest of the text is taken for a length.
    obtain ⟨hpos, hmax⟩ := hlen
    have hlong : (json.encode msg).length % 2 ^ 32 + 4 ≤ (json.encode msg).length := by
      simp only [maxMessageSize] at hlarge hmax
      omega
    obtain ⟨reader₁, hrest, hframe⟩ :=
      receiveFrame_of_length json.toCodec hpos hmax (by rwa [Nat.mod_mod])
    obtain ⟨reader₂, hread, hafter⟩ := Reader.readExact_of_le
      (n := (json.encode msg).length % 2 ^ 32) (r := reader₁) (by simp [hrest]; omega)
    rw [hrest, List.take_append_of_le_length (by omega)] at hread
    rw [hrest, List.drop_append_of_le_length (by omega)] at hafter
    have hnone :
        (json.decode ((json.encode msg).take ((json.encode msg).length % 2 ^ 32))).toOption =
          none := by
      cases hdecode : json.decode ((json.encode msg).take ((json.encode msg).length % 2 ^ 32)) with
      | error e => rfl
      | ok a => exact absurd hdecode (json.decode_take msg _ (by omega) a)
    rw [receiveData, hread] at hframe
    rw [handleConnection_of_ok hframe, hnone]
    refine forwarded_of_text json (by simp; omega) (fun b hb => ?_) hafter
    exact json.printable msg b (List.mem_of_mem_drop hb)
  · exact forwarded_of_length json hlen hbytes

theorem forwarded_eq_takeWhile (hbytes : reader.bytes = writerTask json.toCodec msgs) :
    (handleConnection json.toCodec reader).forwarded =
      msgs.takeWhile fun msg => (json.encode msg).length ≤ maxMessageSize := by
  induction msgs generalizing reader with
  | nil => rw [handleConnection_finished hbytes, List.takeWhile_nil]
  | cons msg msgs ih =>
    by_cases hfits : Fits json.toCodec msg
    · obtain ⟨reader', hrest, hframe⟩ := receiveFrame_frame json.toCodec hfits.1 hfits.2 hbytes
      rw [handleConnection_of_ok hframe, ih hrest, json.decode_encode,
        List.takeWhile_cons_of_pos (by simpa using hfits.2)]
      rfl
    · rw [forwarded_of_not_fits hfits hbytes,
        List.takeWhile_cons_of_neg (by simpa using mt fits_iff.mpr hfits)]

theorem accepted_iff : Accepted json.toCodec msg ↔ (json.encode msg).length ≤ maxMessageSize := by
  rw [Accepted, forwarded_eq_takeWhile (List.append_nil _)]
  by_cases hfits : (json.encode msg).length ≤ maxMessageSize <;> simp [hfits]

instance (json : Codec NetworkMessage) (msg : NetworkMessage) : Decidable (Accepted json msg) :=
  inferInstanceAs (Decidable (_ = _))

theorem exists_segments (bytes : List UInt8) :
    ∃ segments : List Segment, (segments.map (·.1)).flatten = bytes := by
  by_cases hnil : bytes = []
  · exact ⟨[], hnil.symm⟩
  · exact ⟨[⟨bytes, hnil⟩], List.append_nil bytes⟩

/-- Whatever the segments, the messages that would be accepted on their own are forwarded in their
order exactly if none within the limit comes after one above it. -/
theorem accepted_forwarded (json : TextCodec NetworkMessage) (msgs : List NetworkMessage) :
    (∀ segments : List Segment, (segments.map (·.1)).flatten = writerTask json.toCodec msgs →
      (handleConnection json.toCodec ⟨[], segments⟩).forwarded =
        msgs.filter fun msg => Accepted json.toCodec msg) ↔
    msgs.Pairwise fun earlier later => (json.encode later).length ≤ maxMessageSize →
      (json.encode earlier).length ≤ maxMessageSize := by
  have hforwarded : ∀ segments : List Segment,
      (segments.map (·.1)).flatten = writerTask json.toCodec msgs →
      (handleConnection json.toCodec ⟨[], segments⟩).forwarded =
        msgs.takeWhile fun msg => (json.encode msg).length ≤ maxMessageSize := by
    intro segments hsegments
    have hbytes : (⟨[], segments⟩ : Reader).bytes = writerTask json.toCodec msgs := hsegments
    exact forwarded_eq_takeWhile hbytes
  have hlimit := List.takeWhile_eq_filter_iff (l := msgs)
    (p := fun msg => (json.encode msg).length ≤ maxMessageSize)
  simp only [decide_eq_true_eq] at hlimit
  simp only [accepted_iff]
  rw [← hlimit]
  constructor
  · intro hall
    obtain ⟨segments, hsegments⟩ := exists_segments (writerTask json.toCodec msgs)
    rw [← hforwarded segments hsegments, hall segments hsegments]
  · intro hfilter segments hsegments
    rw [hforwarded segments hsegments, hfilter]

namespace Plain

def text : TextCodec NetworkMessage := .ofCodec Plain.json

theorem length_lt_encode_peerReq {id : BitVec 128} {source target : UInt64} {key : String}
    {payload : List UInt8} :
    payload.length < (text.encode (.peerReq id source target key payload)).length := by
  have hlist := Layout.length_lt_writeList Ddl.Wal.Plain.byte payload
  simp only [text, TextCodec.ofCodec, TextCodec.length_armor, Plain.json, Layout.codec,
    networkMessage, Layout.via, Layout.pair, Layout.list, List.length_append]
  omega

def large : NetworkMessage := .peerReq 0 1 2 "cpu" (List.replicate maxMessageSize 0)

theorem maxMessageSize_lt_large : maxMessageSize < (text.encode large).length := by
  have hlarge : (List.replicate maxMessageSize (0 : UInt8)).length < (text.encode large).length :=
    length_lt_encode_peerReq
  rwa [List.length_replicate] at hlarge

end Plain

/-- A heartbeat is not forwarded when it is sent after a request above the limit. -/
theorem large_message_hides_later : Accepted Plain.text.toCodec .heartbeat ∧
    (handleConnection Plain.text.toCodec
      ⟨writerTask Plain.text.toCodec [Plain.large, .heartbeat], []⟩).forwarded = [] := by
  constructor
  · rw [accepted_iff]
    decide +kernel
  · rw [forwarded_eq_takeWhile (List.append_nil _), List.takeWhile_cons_of_neg]
    simpa using Plain.maxMessageSize_lt_large

end DumbDistributedLog.Tcp
