import DumbDistributedLog.Library.Codec

/-! # Text encodings

A codec that writes text has no control characters in it, and a text that is cut short is no
value. Any codec gives one when its bytes are written as pairs of letters with a mark at the end.
-/

structure TextCodec (α : Type*) extends Codec α where
  printable : ∀ a, ∀ b ∈ encode a, 32 ≤ b
  decode_take : ∀ a n, n < (encode a).length → ∀ a', decode ((encode a).take n) ≠ .ok a'

namespace TextCodec

variable {α : Type*}

/-- One of the sixteen letters from `a` on. -/
def letter (n : ℕ) : UInt8 := UInt8.ofNat (97 + n)

/-- Two letters for each byte, and a quotation mark. -/
def armor : List UInt8 → List UInt8
  | [] => [34]
  | b :: bs => letter (b.toNat / 16) :: letter (b.toNat % 16) :: armor bs

def strip : List UInt8 → Option (List UInt8)
  | [] => none
  | [mark] => if mark = 34 then some [] else none
  | high :: low :: rest =>
    (strip rest).map (UInt8.ofNat (16 * (high.toNat - 97) + (low.toNat - 97)) :: ·)

theorem toNat_letter {n : ℕ} (h : n < 16) : (letter n).toNat = 97 + n := by
  have hlt : 97 + n < UInt8.size := by simp only [UInt8.size]; omega
  exact UInt8.toNat_ofNat_of_lt' hlt

theorem length_armor (bs : List UInt8) : (armor bs).length = 2 * bs.length + 1 := by
  induction bs with
  | nil => rfl
  | cons b bs ih =>
    simp only [armor, List.length_cons, ih]
    omega

theorem strip_armor (bs : List UInt8) : strip (armor bs) = some bs := by
  induction bs with
  | nil => rfl
  | cons b bs ih =>
    have hb : b.toNat < 256 := b.toNat_lt
    have hbyte : UInt8.ofNat (16 * ((letter (b.toNat / 16)).toNat - 97) +
        ((letter (b.toNat % 16)).toNat - 97)) = b := by
      rw [toNat_letter (by omega), toNat_letter (by omega)]
      simp [Nat.div_add_mod]
    simp only [armor, strip, ih, hbyte, Option.map_some]

theorem strip_take_armor {bs : List UInt8} {n : ℕ} (h : n < (armor bs).length) :
    strip ((armor bs).take n) = none := by
  induction bs generalizing n with
  | nil =>
    obtain rfl : n = 0 := by simpa [armor] using h
    rfl
  | cons b bs ih =>
    match n with
    | 0 => rfl
    | 1 =>
      have hmark : letter (b.toNat / 16) ≠ 34 := by
        intro heq
        have hb : b.toNat < 256 := b.toNat_lt
        have hletter := toNat_letter (n := b.toNat / 16) (by omega)
        rw [heq] at hletter
        change 34 = 97 + b.toNat / 16 at hletter
        omega
      simp [armor, strip, hmark]
    | n + 2 =>
      have hn : n < (armor bs).length := by simpa [armor] using h
      simp [armor, strip, ih hn]

theorem printable_armor {bs : List UInt8} : ∀ b ∈ armor bs, 32 ≤ b := by
  induction bs with
  | nil => simp [armor]
  | cons b bs ih =>
    have hb : b.toNat < 256 := b.toNat_lt
    have hletter : ∀ n < 16, 32 ≤ letter n := by
      intro n hn
      rw [UInt8.le_iff_toNat_le, toNat_letter hn]
      exact Nat.le_add_right_of_le (by decide)
    simp only [armor, List.forall_mem_cons]
    exact ⟨hletter _ (by omega), hletter _ (by omega), ih⟩

def ofCodec (c : Codec α) : TextCodec α where
  encode a := armor (c.encode a)
  decode bytes := (strip bytes).elim (.error "invalid text") c.decode
  decode_encode a := by simp [strip_armor, c.decode_encode]
  encode_ne_nil a := List.ne_nil_of_length_pos (by simp [length_armor])
  printable _ := printable_armor
  decode_take a n h a' := by simp [strip_take_armor h]

end TextCodec
