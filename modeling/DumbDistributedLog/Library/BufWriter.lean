import Mathlib.Tactic.Common

/-! # Buffered writing to a file that fills up

A file takes so many bytes and refuses the rest. A buffered writer collects pieces and hands
its buffer down when a piece does not fit any more; a piece as long as the buffer is handed
down itself. What is left when the writer is dropped is handed down as well, but nobody learns
what became of it.
-/

/-- The bytes that a file has taken, and the number of those that it will still take. -/
structure LimitedFile where
  contents : List UInt8
  room : ℕ
  deriving DecidableEq, Repr

/-- As much as there is room for is taken; less than everything is an error. -/
def LimitedFile.writeAll (f : LimitedFile) (bytes : List UInt8) : LimitedFile × Bool :=
  (⟨f.contents ++ bytes.take f.room, f.room - bytes.length⟩, bytes.length ≤ f.room)

structure BufWriter where
  capacity : ℕ
  buffer : List UInt8
  file : LimitedFile
  deriving DecidableEq, Repr

namespace BufWriter

def new (capacity : ℕ) (file : LimitedFile) : BufWriter := ⟨capacity, [], file⟩

variable (w : BufWriter)

def flushBuf : BufWriter × Bool :=
  let (file, ok) := w.file.writeAll w.buffer
  ({ w with buffer := w.buffer.drop w.file.room, file }, ok)

def spareCapacity : ℕ := w.capacity - w.buffer.length

def writeAll (piece : List UInt8) : BufWriter × Bool :=
  if piece.length < w.spareCapacity then ({ w with buffer := w.buffer ++ piece }, true)
  else
    let (flushed, ok) := if piece.length > w.spareCapacity then w.flushBuf else (w, true)
    if ok then
      if piece.length ≥ w.capacity then
        let (file, ok) := flushed.file.writeAll piece
        ({ flushed with file }, ok)
      else ({ flushed with buffer := flushed.buffer ++ piece }, true)
    else (flushed, false)

/-- The first error ends the writing. -/
def writePieces (w : BufWriter) : List (List UInt8) → BufWriter × Bool
  | [] => (w, true)
  | piece :: pieces =>
    let (next, ok) := w.writeAll piece
    if ok then writePieces next pieces else (next, false)

def drop : LimitedFile := (w.file.writeAll w.buffer).1

/-- The number of bytes that are handed down when a piece of some length is written after so
many bytes in the buffer. -/
def spill (capacity buffered length : ℕ) : ℕ :=
  if length < capacity - buffered then 0
  else (if length > capacity - buffered then buffered else 0) +
    if length ≥ capacity then length else 0

/-- The number of bytes that are handed down before the writer is dropped. -/
def spilled (capacity : ℕ) : ℕ → List (List UInt8) → ℕ
  | _, [] => 0
  | buffered, piece :: pieces =>
    let k := spill capacity buffered piece.length
    k + spilled capacity (buffered + piece.length - k) pieces

/-- The writer after so many of its bytes have been handed down. -/
def handDown (bytes : List UInt8) (k : ℕ) : BufWriter :=
  ⟨w.capacity, bytes.drop k, ⟨w.file.contents ++ bytes.take k, w.file.room - k⟩⟩

@[simp] theorem capacity_handDown (bytes : List UInt8) (k : ℕ) :
    (w.handDown bytes k).capacity = w.capacity := rfl

@[simp] theorem buffer_handDown (bytes : List UInt8) (k : ℕ) :
    (w.handDown bytes k).buffer = bytes.drop k := rfl

@[simp] theorem room_handDown (bytes : List UInt8) (k : ℕ) :
    (w.handDown bytes k).file.room = w.file.room - k := rfl

variable {w} {piece : List UInt8} {pieces : List (List UInt8)}

theorem spill_le (capacity buffered length : ℕ) :
    spill capacity buffered length ≤ buffered + length := by
  unfold spill
  split_ifs <;> omega

theorem writeAll_file_of_le {f : LimitedFile} {bytes : List UInt8} (h : bytes.length ≤ f.room) :
    f.writeAll bytes = (⟨f.contents ++ bytes, f.room - bytes.length⟩, true) := by
  simp [LimitedFile.writeAll, List.take_of_length_le h, h]

theorem writeAll_file_of_lt {f : LimitedFile} {bytes : List UInt8} (h : f.room < bytes.length) :
    (f.writeAll bytes).2 = false := by
  simp [LimitedFile.writeAll, h]

theorem flushBuf_of_le (h : w.buffer.length ≤ w.file.room) :
    w.flushBuf = (w.handDown w.buffer w.buffer.length, true) := by
  simp [flushBuf, handDown, writeAll_file_of_le h, List.drop_of_length_le h]

theorem writeAll_of_le (h : spill w.capacity w.buffer.length piece.length ≤ w.file.room) :
    w.writeAll piece =
      (w.handDown (w.buffer ++ piece) (spill w.capacity w.buffer.length piece.length), true) := by
  unfold writeAll spareCapacity
  unfold spill at h ⊢
  by_cases hfits : piece.length < w.capacity - w.buffer.length
  · simp [hfits, handDown]
  rw [if_neg hfits] at h ⊢
  rw [if_neg hfits]
  by_cases hmore : piece.length > w.capacity - w.buffer.length
  · rw [if_pos hmore] at h ⊢
    rw [if_pos hmore, flushBuf_of_le (by omega)]
    by_cases hlong : piece.length ≥ w.capacity
    · simp only [hlong, if_true] at h ⊢
      have hroom : piece.length ≤ (w.handDown w.buffer w.buffer.length).file.room := by
        rw [room_handDown]
        omega
      rw [writeAll_file_of_le hroom]
      simp [handDown, Nat.sub_sub, List.take_of_length_le]
    · simp [hlong, handDown]
  · rw [if_neg hmore] at h ⊢
    rw [if_neg hmore]
    by_cases hlong : piece.length ≥ w.capacity
    · simp only [hlong, if_true, Nat.zero_add] at h ⊢
      rw [writeAll_file_of_le h]
      -- A piece that is as long as the buffer and fits exactly meets an empty buffer.
      have hempty : w.buffer = [] ∨ piece = [] := by
        rw [← List.length_eq_zero_iff, ← List.length_eq_zero_iff]
        omega
      rcases hempty with hbuffer | hpiece
      · simp [handDown, hbuffer]
      · simp [handDown, hpiece]
    · simp [hlong, handDown]

theorem writeAll_of_lt (h : w.file.room < spill w.capacity w.buffer.length piece.length) :
    (w.writeAll piece).2 = false := by
  unfold writeAll spareCapacity
  unfold spill at h
  by_cases hfits : piece.length < w.capacity - w.buffer.length
  · rw [if_pos hfits] at h
    omega
  rw [if_neg hfits] at h ⊢
  by_cases hmore : piece.length > w.capacity - w.buffer.length
  · rw [if_pos hmore] at h ⊢
    by_cases hflush : w.buffer.length ≤ w.file.room
    · rw [flushBuf_of_le hflush]
      by_cases hlong : piece.length ≥ w.capacity
      · rw [if_pos hlong] at h
        simp only [if_true, hlong]
        refine writeAll_file_of_lt ?_
        simp only [room_handDown]
        omega
      · rw [if_neg hlong] at h
        omega
    · simp [flushBuf, LimitedFile.writeAll, hflush]
  · rw [if_neg hmore] at h ⊢
    by_cases hlong : piece.length ≥ w.capacity
    · rw [if_pos hlong] at h
      simp only [if_true, hlong]
      exact writeAll_file_of_lt (by omega)
    · rw [if_neg hlong] at h
      omega

theorem handDown_handDown {bytes rest : List UInt8} {k j : ℕ} (h : k ≤ bytes.length) :
    (w.handDown bytes k).handDown (bytes.drop k ++ rest) j =
      w.handDown (bytes ++ rest) (k + j) := by
  simp only [handDown, Nat.sub_sub]
  congr 1
  · rw [← List.drop_append_of_le_length h, List.drop_drop]
  · congr 1
    rw [List.append_assoc, ← List.drop_append_of_le_length h, List.take_add,
      List.take_append_of_le_length h]

theorem writePieces_of_le (h : spilled w.capacity w.buffer.length pieces ≤ w.file.room) :
    w.writePieces pieces = (w.handDown (w.buffer ++ pieces.flatten)
      (spilled w.capacity w.buffer.length pieces), true) := by
  induction pieces generalizing w with
  | nil => simp [writePieces, spilled, handDown]
  | cons piece pieces ih =>
    have hle := spill_le w.capacity w.buffer.length piece.length
    have hbytes : spill w.capacity w.buffer.length piece.length ≤ (w.buffer ++ piece).length := by
      simpa using hle
    simp only [spilled] at h ⊢
    rw [writePieces, writeAll_of_le (by omega)]
    simp only [if_true]
    rw [ih]
    · rw [buffer_handDown, handDown_handDown hbytes]
      simp
    · simp only [capacity_handDown, buffer_handDown, room_handDown, List.length_drop,
        List.length_append]
      omega

theorem writePieces_of_lt (h : w.file.room < spilled w.capacity w.buffer.length pieces) :
    (w.writePieces pieces).2 = false := by
  induction pieces generalizing w with
  | nil => exact absurd h (Nat.not_lt_zero _)
  | cons piece pieces ih =>
    simp only [spilled] at h
    rw [writePieces]
    by_cases hle : spill w.capacity w.buffer.length piece.length ≤ w.file.room
    · rw [writeAll_of_le hle]
      simp only [if_true]
      refine ih ?_
      simp only [capacity_handDown, buffer_handDown, room_handDown, List.length_drop,
        List.length_append]
      omega
    · have hfail := writeAll_of_lt (Nat.lt_of_not_le hle)
      simp [hfail]

theorem contents_drop_handDown {bytes : List UInt8} {k : ℕ} (h : k ≤ w.file.room) :
    (w.handDown bytes k).drop.contents = w.file.contents ++ bytes.take w.file.room := by
  simp only [drop, LimitedFile.writeAll, handDown, List.append_assoc]
  rw [← List.take_add, Nat.add_sub_cancel' h]

section Holds

theorem spilled_le (capacity buffered : ℕ) (pieces : List (List UInt8)) :
    spilled capacity buffered pieces ≤ buffered + pieces.flatten.length := by
  induction pieces generalizing buffered with
  | nil => exact Nat.zero_le _
  | cons piece pieces ih =>
    have hspill := spill_le capacity buffered piece.length
    have hrest := ih (buffered + piece.length - spill capacity buffered piece.length)
    simp only [spilled, List.flatten_cons, List.length_append]
    omega

/-- The writer has been given these bytes, and its file takes so many in all. -/
structure Holds (w : BufWriter) (bytes : List UInt8) (room : ℕ) : Prop where
  bytes : w.file.contents ++ w.buffer = bytes
  room : room ≤ w.file.contents.length + w.file.room

variable {bytes : List UInt8} {room : ℕ}

theorem holds_new {capacity given : ℕ} (h : room ≤ given) :
    (new capacity ⟨[], given⟩).Holds [] room := ⟨rfl, by simpa [new] using h⟩

theorem Holds.handDown {k : ℕ} (h : w.Holds bytes room) (more : List UInt8)
    (hk : k ≤ w.file.room) (hmore : k ≤ (w.buffer ++ more).length) :
    (w.handDown (w.buffer ++ more) k).Holds (bytes ++ more) room := by
  constructor
  · simp only [BufWriter.handDown, List.append_assoc, List.take_append_drop]
    rw [← h.bytes, List.append_assoc]
  · have hroom := h.room
    simp only [BufWriter.handDown, List.length_append, List.length_take_of_le hmore]
    omega

theorem Holds.length_buffer_le (h : w.Holds bytes room) (hfits : bytes.length ≤ room) :
    w.buffer.length ≤ w.file.room := by
  have hbytes := congrArg List.length h.bytes
  have hroom := h.room
  rw [List.length_append] at hbytes
  omega

theorem Holds.writePieces (h : w.Holds bytes room)
    (hfits : (bytes ++ pieces.flatten).length ≤ room) :
    (w.writePieces pieces).1.Holds (bytes ++ pieces.flatten) room := by
  have hspilled := spilled_le w.capacity w.buffer.length pieces
  have hbytes := congrArg List.length h.bytes
  have hroom := h.room
  rw [List.length_append] at hbytes hfits
  have hle : spilled w.capacity w.buffer.length pieces ≤ w.file.room := by omega
  rw [writePieces_of_le hle]
  exact h.handDown _ hle (by rw [List.length_append]; exact hspilled)

theorem Holds.flushBuf (h : w.Holds bytes room) (hfits : bytes.length ≤ room) :
    w.flushBuf.1.Holds bytes room := by
  rw [flushBuf_of_le (h.length_buffer_le hfits)]
  simpa using h.handDown [] (h.length_buffer_le hfits) (by simp)

theorem Holds.contents_drop (h : w.Holds bytes room) (hfits : bytes.length ≤ room) :
    w.drop.contents = bytes := by
  rw [drop, writeAll_file_of_le (h.length_buffer_le hfits)]
  exact h.bytes

end Holds

section New

variable {capacity room : ℕ}

/-- Writing to a new file succeeds exactly if there is room for what is handed down before the
writer is dropped. -/
theorem writePieces_new (capacity room : ℕ) (pieces : List (List UInt8)) :
    ((new capacity ⟨[], room⟩).writePieces pieces).2 =
      decide (spilled capacity 0 pieces ≤ room) := by
  by_cases h : spilled capacity 0 pieces ≤ room
  · rw [writePieces_of_le h]
    simp [h]
  · rw [writePieces_of_lt (Nat.lt_of_not_le h)]
    simp [h]

theorem contents_drop_new (h : spilled capacity 0 pieces ≤ room) :
    ((new capacity ⟨[], room⟩).writePieces pieces).1.drop.contents = pieces.flatten.take room := by
  rw [writePieces_of_le h]
  exact contents_drop_handDown h

end New

end BufWriter
