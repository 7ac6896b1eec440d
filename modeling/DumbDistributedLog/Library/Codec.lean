import DumbDistributedLog.Library.Tables
import Mathlib.Algebra.Group.Nat.Defs

/-! # Byte encodings

A codec turns values into non-empty byte strings and back. A layout does so inside a
longer input: reading stops where writing ended. Layouts are put together from words,
pairs and lists, and a layout whose values take at least one byte is a codec.
-/

structure Codec (α : Type*) where
  encode : α → List UInt8
  decode : List UInt8 → Except String α
  decode_encode : ∀ a, decode (encode a) = .ok a
  encode_ne_nil : ∀ a, encode a ≠ []

structure Layout (α : Type*) where
  write : α → List UInt8
  read : List UInt8 → Option (α × List UInt8)
  read_write : ∀ a rest, read (write a ++ rest) = some (a, rest)

namespace Layout

variable {α β κ ν : Type*}

/-- Write a number as so many bytes, the lowest first. -/
def writeBytes : ℕ → ℕ → List UInt8
  | 0, _ => []
  | k + 1, n => UInt8.ofNat n :: writeBytes k (n / 256)

def readBytes : ℕ → List UInt8 → Option (ℕ × List UInt8)
  | 0, rest => some (0, rest)
  | _ + 1, [] => none
  | k + 1, b :: rest => (readBytes k rest).map fun p => (b.toNat + 256 * p.1, p.2)

theorem readBytes_writeBytes {k n : ℕ} (h : n < 256 ^ k) (rest : List UInt8) :
    readBytes k (writeBytes k n ++ rest) = some (n, rest) := by
  induction k generalizing n with
  | zero =>
    obtain rfl : n = 0 := by simpa using h
    rfl
  | succ k ih =>
    have hdiv : n / 256 < 256 ^ k := by
      rw [Nat.pow_succ] at h
      omega
    have hbyte : (UInt8.ofNat n).toNat = n % 256 := UInt8.toNat_ofNat
    simp only [writeBytes, List.cons_append, readBytes, ih hdiv, Option.map_some, hbyte,
      Option.some.injEq, Prod.mk.injEq, and_true]
    omega

def word : Layout UInt64 where
  write a := writeBytes 8 a.toNat
  read bytes := (readBytes 8 bytes).map fun p => (UInt64.ofNat p.1, p.2)
  read_write a rest := by
    rw [readBytes_writeBytes (by simpa using a.toNat_lt)]
    simp

def doubleWord : Layout (BitVec 128) where
  write a := writeBytes 16 a.toNat
  read bytes := (readBytes 16 bytes).map fun p => (BitVec.ofNat 128 p.1, p.2)
  read_write a rest := by
    rw [readBytes_writeBytes (by simpa using a.isLt)]
    simp

def pair (f : Layout α) (g : Layout β) : Layout (α × β) where
  write p := f.write p.1 ++ g.write p.2
  read bytes :=
    (f.read bytes).bind fun p => (g.read p.2).map fun q => ((p.1, q.1), q.2)
  read_write p rest := by
    simp [List.append_assoc, f.read_write, g.read_write]

/-- Read values, each after a byte 1, until a byte 0. -/
def readList (f : Layout α) : ℕ → List UInt8 → Option (List α × List UInt8)
  | _ + 1, 0 :: rest => some ([], rest)
  | k + 1, 1 :: rest =>
    (f.read rest).bind fun p => (readList f k p.2).map fun q => (p.1 :: q.1, q.2)
  | _, _ => none

def writeList (f : Layout α) : List α → List UInt8
  | [] => [0]
  | a :: as => 1 :: (f.write a ++ writeList f as)

theorem length_lt_writeList (f : Layout α) (as : List α) : as.length < (f.writeList as).length := by
  induction as with
  | nil => simp [writeList]
  | cons a as ih =>
    simp only [writeList, List.length_cons, List.length_append]
    omega

theorem readList_writeList (f : Layout α) (as : List α) (rest : List UInt8) {k : ℕ}
    (h : as.length < k) : f.readList k (f.writeList as ++ rest) = some (as, rest) := by
  induction as generalizing k with
  | nil =>
    obtain ⟨k, rfl⟩ : ∃ j, k = j + 1 := ⟨k - 1, by omega⟩
    rfl
  | cons a as ih =>
    obtain ⟨k, rfl⟩ : ∃ j, k = j + 1 := ⟨k - 1, by simp at h; omega⟩
    have hk : as.length < k := by simpa using h
    simp [writeList, readList, List.append_assoc, f.read_write, ih hk]

def list (f : Layout α) : Layout (List α) where
  write := f.writeList
  read bytes := f.readList bytes.length bytes
  read_write as rest := by
    refine f.readList_writeList as rest ?_
    have := f.length_lt_writeList as
    simp only [List.length_append]
    omega

def via (f : Layout α) (out : β → α) (back : α → Option β) (h : ∀ b, back (out b) = some b) :
    Layout β where
  write b := f.write (out b)
  read bytes := (f.read bytes).bind fun p => (back p.1).map fun b => (b, p.2)
  read_write b rest := by
    simp [f.read_write, h]

def string : Layout String :=
  word.list.via (fun s => s.toList.map fun c => UInt64.ofNat c.toNat)
    (fun ws => some (String.ofList (ws.map fun w => Char.ofNat w.toNat))) (by
      intro s
      have hchar : ∀ c : Char, Char.ofNat (UInt64.ofNat c.toNat).toNat = c := by
        intro c
        have hlt : c.toNat < UInt64.size := Nat.lt_trans c.val.toNat_lt (by decide)
        rw [UInt64.toNat_ofNat_of_lt' hlt, Char.ofNat_toNat]
      simp only [List.map_map, Function.comp_def, hchar, List.map_id', String.ofList_toList])

def table [Ord κ] [Std.TransOrd κ] [Std.LawfulEqOrd κ] (f : Layout κ) (g : Layout ν) :
    Layout (Table κ ν) :=
  (f.pair g).list.via (fun t => t.toList) (fun es => some (Std.ExtTreeMap.ofList es)) fun t => by
    rw [Table.ofList_toList]

theorem write_word_ne_nil (a : UInt64) : word.write a ≠ [] := List.cons_ne_nil _ _

theorem write_doubleWord_ne_nil (a : BitVec 128) : doubleWord.write a ≠ [] := List.cons_ne_nil _ _

theorem write_list_ne_nil (f : Layout α) (as : List α) : f.list.write as ≠ [] := by
  cases as with
  | nil => exact List.cons_ne_nil _ _
  | cons a as => exact List.cons_ne_nil _ _

theorem write_table_ne_nil [Ord κ] [Std.TransOrd κ] [Std.LawfulEqOrd κ] (f : Layout κ)
    (g : Layout ν) (t : Table κ ν) : (f.table g).write t ≠ [] :=
  write_list_ne_nil _ _

theorem write_pair_ne_nil {f : Layout α} {g : Layout β} (h : ∀ a, f.write a ≠ []) (p : α × β) :
    (f.pair g).write p ≠ [] :=
  List.append_ne_nil_of_left_ne_nil (h p.1) _

/-- A layout that writes at least one byte for every value. -/
def codec (f : Layout α) (h : ∀ a, f.write a ≠ []) : Codec α where
  encode := f.write
  decode bytes :=
    match f.read bytes with
    | some (a, _) => .ok a
    | none => .error "invalid data"
  decode_encode a := by
    have := f.read_write a []
    rw [List.append_nil] at this
    rw [this]
  encode_ne_nil := h

end Layout
