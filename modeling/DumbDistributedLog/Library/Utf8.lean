import Mathlib.Tactic.Common

/-! # Text as bytes

The bytes of a string in UTF-8, and the text that any bytes are taken for: where no character
begins, the longest part that could have been one is replaced. Read strictly, bytes are text only if
nothing has to be replaced.
-/

namespace Utf8

def encode (s : String) : List UInt8 := s.toList.flatMap String.utf8EncodeChar

/-- The character that the bytes begin with. -/
def decodeChar? (bytes : List UInt8) : Option Char := bytes.toByteArray.utf8DecodeChar? 0

/-- The second byte is one that may follow the first of three or four. -/
def acceptsSecond (first second : UInt8) : Bool :=
  if first = 0xE0 then 0xA0 ≤ second && second ≤ 0xBF
  else if first = 0xED then 0x80 ≤ second && second ≤ 0x9F
  else if first = 0xF0 then 0x90 ≤ second && second ≤ 0xBF
  else if first = 0xF4 then 0x80 ≤ second && second ≤ 0x8F
  else 0xE1 ≤ first && first ≤ 0xF3 && 0x80 ≤ second && second ≤ 0xBF

/-- The length of the part that is replaced where no character begins. -/
def invalidLength : List UInt8 → ℕ
  | first :: second :: rest =>
    if acceptsSecond first second then
      if 0xF0 ≤ first ∧ rest.head?.any fun third => 0x80 ≤ third && third ≤ 0xBF then 3 else 2
    else 1
  | _ => 1

def chunkLength (bytes : List UInt8) : ℕ :=
  (decodeChar? bytes).elim (invalidLength bytes) Char.utf8Size

theorem chunkLength_pos (bytes : List UInt8) : 0 < chunkLength bytes := by
  unfold chunkLength
  cases decodeChar? bytes with
  | some c => exact c.utf8Size_pos
  | none =>
    simp only [Option.elim_none, invalidLength]
    split
    · split_ifs <;> decide
    · decide

def lossyChars : List UInt8 → List Char
  | [] => []
  | b :: rest =>
    (decodeChar? (b :: rest)).getD '�' :: lossyChars ((b :: rest).drop (chunkLength (b :: rest)))
  termination_by bytes => bytes.length
  decreasing_by
    have := chunkLength_pos (b :: rest)
    simp only [List.length_drop, List.length_cons]
    omega

/-- The text of bytes that need not be text. -/
def fromUtf8Lossy (bytes : List UInt8) : String := String.ofList (lossyChars bytes)

/-- The text of bytes that are text. -/
def fromUtf8 (bytes : List UInt8) : Option String :=
  if encode (fromUtf8Lossy bytes) = bytes then some (fromUtf8Lossy bytes) else none

variable {c : Char} {s : String} {bytes : List UInt8}

theorem decodeChar?_append : decodeChar? (String.utf8EncodeChar c ++ bytes) = some c := by
  rw [decodeChar?, List.toByteArray_append]
  exact ByteArray.utf8DecodeChar?_utf8EncodeChar_append

theorem lossyChars_append :
    lossyChars (String.utf8EncodeChar c ++ bytes) = c :: lossyChars bytes := by
  have hlength : chunkLength (String.utf8EncodeChar c ++ bytes) =
      (String.utf8EncodeChar c).length := by
    rw [chunkLength, decodeChar?_append, String.length_utf8EncodeChar]
    rfl
  cases happend : String.utf8EncodeChar c ++ bytes with
  | nil =>
    have := String.length_utf8EncodeChar c
    have := c.utf8Size_pos
    simp_all
  | cons b rest =>
    rw [lossyChars, ← happend, decodeChar?_append, hlength, List.drop_left]
    rfl

theorem fromUtf8Lossy_encode : fromUtf8Lossy (encode s) = s := by
  have hchars : ∀ cs : List Char, lossyChars (cs.flatMap String.utf8EncodeChar) = cs := by
    intro cs
    induction cs with
    | nil => rw [List.flatMap_nil, lossyChars]
    | cons c cs ih => rw [List.flatMap_cons, lossyChars_append, ih]
  rw [fromUtf8Lossy, encode, hchars, String.ofList_toList]

theorem zero_mem_utf8EncodeChar : 0 ∈ String.utf8EncodeChar c ↔ c = '\x00' := by
  have hzero : ∀ n : ℕ, 0 = UInt8.ofNat n ↔ n % 256 = 0 := by
    intro n
    rw [eq_comm, ← UInt8.toNat_inj, UInt8.toNat_ofNat']
    rfl
  have hchar : c = '\x00' ↔ c.val.toNat = 0 := by
    rw [Char.ext_iff, ← UInt32.toNat_inj]
    rfl
  rw [hchar]
  simp only [String.utf8EncodeChar]
  split_ifs <;> simp only [List.mem_cons, List.not_mem_nil, or_false, hzero] <;> omega

theorem zero_mem_encode : 0 ∈ encode s ↔ '\x00' ∈ s.toList := by
  simp only [encode, List.mem_flatMap, zero_mem_utf8EncodeChar, exists_eq_right]

end Utf8
