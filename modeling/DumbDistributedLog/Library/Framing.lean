import DumbDistributedLog.Library.Codec

/-! # Streams of frames

A stream of bytes reaches its reader in segments. A read of a given length joins and splits
them, and what it returns depends on the bytes alone. A frame is the length of its data in
four bytes and the data.
-/

/-- What one read of a stream returns; a read of nothing is the end of the stream. -/
abbrev Segment := {bytes : List UInt8 // bytes ≠ []}

/-- A stream that arrives in segments, read through a buffer. -/
structure Reader where
  buffer : List UInt8
  segments : List Segment

namespace Reader

variable {n : ℕ} {r : Reader}

def finished : Reader := ⟨[], []⟩

def bytes (r : Reader) : List UInt8 := r.buffer ++ (r.segments.map (·.1)).flatten

/-- Take bytes from the buffer, and from the segments while the buffer has too few. -/
def readFrom (n : ℕ) (buffer : List UInt8) :
    List Segment → Except (List UInt8) (List UInt8) × Reader
  | [] =>
    if n ≤ buffer.length then (.ok (buffer.take n), ⟨buffer.drop n, []⟩)
    else (.error buffer, finished)
  | segment :: segments =>
    if n ≤ buffer.length then (.ok (buffer.take n), ⟨buffer.drop n, segment :: segments⟩)
    else
      match readFrom (n - buffer.length) segment.1 segments with
      | (.ok read, r) => (.ok (buffer ++ read), r)
      | (.error read, r) => (.error (buffer ++ read), r)

/-- Read so many bytes, or all that are left if the stream ends before. -/
def readExact (n : ℕ) (r : Reader) : Except (List UInt8) (List UInt8) × Reader :=
  readFrom n r.buffer r.segments

theorem readExact_of_le (h : n ≤ r.bytes.length) :
    ∃ r', r.readExact n = (.ok (r.bytes.take n), r') ∧ r'.bytes = r.bytes.drop n := by
  obtain ⟨buffer, segments⟩ := r
  induction segments generalizing n buffer with
  | nil =>
    have hn : n ≤ buffer.length := by simpa [bytes] using h
    exact ⟨⟨buffer.drop n, []⟩, by simp [readExact, readFrom, bytes, hn], by simp [bytes]⟩
  | cons segment segments ih =>
    by_cases hn : n ≤ buffer.length
    · refine ⟨⟨buffer.drop n, segment :: segments⟩, ?_, ?_⟩
      · simp [readExact, readFrom, bytes, hn, List.take_append_of_le_length hn]
      · simp [bytes, List.drop_append_of_le_length hn]
    · have hle : n - buffer.length ≤ (⟨segment.1, segments⟩ : Reader).bytes.length := by
        simp only [bytes, List.map_cons, List.flatten_cons, List.length_append] at h ⊢
        omega
      obtain ⟨r', hread, hrest⟩ := ih segment.1 hle
      refine ⟨r', ?_, ?_⟩
      · rw [readExact] at hread
        simp only [readExact, readFrom, hn, if_false, hread]
        simp [bytes, List.take_append, List.take_of_length_le (Nat.le_of_not_le hn)]
      · rw [hrest]
        simp [bytes, List.drop_append, List.drop_of_length_le (Nat.le_of_not_le hn)]

theorem readExact_of_lt (h : r.bytes.length < n) :
    r.readExact n = (.error r.bytes, finished) := by
  obtain ⟨buffer, segments⟩ := r
  induction segments generalizing n buffer with
  | nil =>
    have hn : ¬ n ≤ buffer.length := by simpa [bytes] using h
    simp [readExact, readFrom, bytes, hn]
  | cons segment segments ih =>
    have hn : ¬ n ≤ buffer.length := by
      simp only [bytes, List.length_append] at h
      omega
    have hlt : (⟨segment.1, segments⟩ : Reader).bytes.length < n - buffer.length := by
      simp only [bytes, List.map_cons, List.flatten_cons, List.length_append] at h ⊢
      omega
    have hread := ih segment.1 hlt
    rw [readExact] at hread
    simp only [readExact, readFrom, hn, if_false, hread]
    simp [bytes]

theorem readExact_append {read rest : List UInt8} (h : r.bytes = read ++ rest) :
    ∃ r', r.readExact read.length = (.ok read, r') ∧ r'.bytes = rest := by
  obtain ⟨r', hread, hrest⟩ := readExact_of_le (n := read.length) (r := r) (by simp [h])
  rw [h, List.take_left] at hread
  rw [h, List.drop_left] at hrest
  exact ⟨r', hread, hrest⟩

theorem length_of_readExact {read : List UInt8} {r' : Reader} (h : r.readExact n = (.ok read, r')) :
    r'.bytes.length + n = r.bytes.length := by
  by_cases hn : n ≤ r.bytes.length
  · obtain ⟨r'', hread, hrest⟩ := readExact_of_le hn
    cases hread.symm.trans h
    rw [hrest, List.length_drop]
    omega
  · cases (readExact_of_lt (Nat.lt_of_not_le hn)).symm.trans h

end Reader

/-- A number in so many bytes, the highest first. -/
def toBeBytes (k n : ℕ) : List UInt8 := (Layout.writeBytes k n).reverse

def fromBeBytes (bytes : List UInt8) : ℕ := bytes.foldl (fun n b => 256 * n + b.toNat) 0

@[simp]
theorem length_toBeBytes (k n : ℕ) : (toBeBytes k n).length = k := by
  rw [toBeBytes, List.length_reverse]
  induction k generalizing n with
  | zero => rfl
  | succ k ih => simp [Layout.writeBytes, ih]

theorem fromBeBytes_toBeBytes {k n : ℕ} (h : n < 256 ^ k) : fromBeBytes (toBeBytes k n) = n := by
  rw [fromBeBytes, toBeBytes, List.foldl_reverse]
  induction k generalizing n with
  | zero =>
    obtain rfl : n = 0 := by simpa using h
    rfl
  | succ k ih =>
    have hdiv : n / 256 < 256 ^ k := by
      rw [Nat.pow_succ] at h
      omega
    have hbyte : (UInt8.ofNat n).toNat = n % 256 := UInt8.toNat_ofNat
    simp only [Layout.writeBytes, List.foldr_cons, ih hdiv, hbyte]
    omega

/-- The length of the data, as far as 32 bits hold it, and the data. -/
def frame (data : List UInt8) : List UInt8 := toBeBytes 4 (data.length % 2 ^ 32) ++ data

@[simp]
theorem length_frame (data : List UInt8) : (frame data).length = 4 + data.length := by
  simp [frame]

theorem Reader.readExact_frame {r : Reader} {data rest : List UInt8} (hlen : data.length < 2 ^ 32)
    (h : r.bytes = frame data ++ rest) :
    ∃ lenBytes r', r.readExact 4 = (.ok lenBytes, r') ∧ fromBeBytes lenBytes = data.length ∧
      r'.bytes = data ++ rest := by
  rw [frame, List.append_assoc, Nat.mod_eq_of_lt hlen] at h
  obtain ⟨r', hread, hrest⟩ := readExact_append h
  rw [length_toBeBytes] at hread
  exact ⟨_, r', hread, fromBeBytes_toBeBytes hlen, hrest⟩

theorem exists_of_prefix_frame {bytes data : List UInt8} (h : bytes <+: frame data) :
    bytes.length < 4 ∨
      ∃ start, start <+: data ∧ bytes = toBeBytes 4 (data.length % 2 ^ 32) ++ start := by
  have hlength : toBeBytes 4 (data.length % 2 ^ 32) <+: frame data := List.prefix_append _ _
  rcases List.prefix_or_prefix_of_prefix hlength h with ⟨start, rfl⟩ | hshort
  · exact .inr ⟨start, (List.prefix_append_right_inj _).mp h, rfl⟩
  · rcases Nat.lt_or_ge bytes.length 4 with hlt | hge
    · exact .inl hlt
    · have heq := hshort.eq_of_length_le (by rwa [length_toBeBytes])
      exact .inr ⟨[], List.nil_prefix, by rw [heq, List.append_nil]⟩

theorem fromBeBytes_take {bytes data rest : List UInt8} (hlen : data.length < 2 ^ 32)
    (hbytes : 4 ≤ bytes.length) (h : bytes <+: frame data ++ rest) :
    fromBeBytes (bytes.take 4) = data.length := by
  rw [frame, List.append_assoc, Nat.mod_eq_of_lt hlen] at h
  obtain ⟨tail, rfl⟩ := List.prefix_of_prefix_length_le (List.prefix_append _ _) h
    (by rwa [length_toBeBytes])
  rw [List.take_left' (length_toBeBytes 4 _)]
  exact fromBeBytes_toBeBytes hlen
