import DumbDistributedLog.Library.Separators
import DumbDistributedLog.Library.Utf8
import DumbDistributedLog.Library.Words

/-! # Lines and words of a text

Bytes are read line by line until they end, or reading fails, or a line is no text. A line is split
into the words between its white space. White space at the ends of a line does not matter to its
words.
-/

namespace TextLines

open Separators Words

/-- The characters that Unicode calls white space. -/
def isWhitespace (c : Char) : Bool :=
  (9 ≤ c.toNat && c.toNat ≤ 13) || c.toNat == 0x20 || c.toNat == 0x85 || c.toNat == 0xA0 ||
    c.toNat == 0x1680 || (0x2000 ≤ c.toNat && c.toNat ≤ 0x200A) || c.toNat == 0x2028 ||
    c.toNat == 0x2029 || c.toNat == 0x202F || c.toNat == 0x205F || c.toNat == 0x3000

def trim (s : List Char) : List Char := (s.dropWhile isWhitespace).rdropWhile isWhitespace

def splitWhitespace (s : List Char) : List (List Char) := words (fun c => !isWhitespace c) s

def stripReturn (line : List Char) : List Char :=
  if line.getLast? = some '\r' then line.dropLast else line

inductive ReadError where
  | invalidText
  | broken
  deriving DecidableEq, Repr

/-- The next line of the bytes and what comes after it. Reading ends after the bytes, or fails there
if the input is broken. The last line may have no end. -/
def nextLine (input : List UInt8) (broken : Bool) :
    Except ReadError (Option (List Char × List UInt8)) :=
  match splitFirst 10 input with
  | some (line, rest) =>
    match Utf8.fromUtf8 line with
    | some text => .ok (some (stripReturn text.toList, rest))
    | none => .error .invalidText
  | none =>
    if broken then .error .broken
    else if input = [] then .ok none
    else
      match Utf8.fromUtf8 input with
      | some text => .ok (some (text.toList, []))
      | none => .error .invalidText

variable {s line : List Char} {input rest : List UInt8} {broken : Bool}

theorem length_of_nextLine (h : nextLine input broken = .ok (some (line, rest))) :
    rest.length < input.length := by
  unfold nextLine at h
  split at h
  next front back hsplit =>
    obtain ⟨rfl, -⟩ := splitFirst_eq_some.mp hsplit
    split at h
    · cases h
      simp only [List.length_append, List.length_cons]
      omega
    · cases h
  · split_ifs at h with hbroken hnil
    · cases h
    · split at h
      · cases h
        exact List.length_pos_iff.mpr hnil
      · cases h

def lines (input : List UInt8) (broken : Bool) : List (List Char) :=
  match hline : nextLine input broken with
  | .ok (some (line, rest)) =>
    have := length_of_nextLine hline
    line :: lines rest broken
  | _ => []
  termination_by input.length

theorem isWhitespace_newline : isWhitespace '\n' = true := by decide

theorem splitWhitespace_trim : splitWhitespace (trim s) = splitWhitespace s := by
  have hfront : splitWhitespace s = splitWhitespace (s.dropWhile isWhitespace) := by
    conv_lhs => rw [← List.takeWhile_append_dropWhile (p := isWhitespace) (l := s)]
    exact words_append_of_none_left fun c hc => by simp [List.mem_takeWhile_imp hc]
  have hback : splitWhitespace (s.dropWhile isWhitespace) = splitWhitespace (trim s) := by
    conv_lhs => rw [← List.rdropWhile_append_rtakeWhile (p := isWhitespace)
      (l := s.dropWhile isWhitespace)]
    exact words_append_of_none fun c hc => by simp [List.mem_rtakeWhile_imp hc]
  rw [hfront, hback]

theorem splitWhitespace_eq_nil :
    splitWhitespace s = [] ↔ ∀ c ∈ s, isWhitespace c = true := by
  simp [splitWhitespace, words_eq_nil]

theorem of_mem_splitWhitespace {word : List Char} (h : word ∈ splitWhitespace s) :
    word ≠ [] ∧ ∀ c ∈ word, isWhitespace c = false := by
  obtain ⟨hne, hword⟩ := of_mem_words h
  exact ⟨hne, fun c hc => by simpa using hword c hc⟩

theorem trim_eq_nil : trim s = [] ↔ splitWhitespace s = [] := by
  constructor
  · intro hnil
    rw [← splitWhitespace_trim, hnil]
    exact words_nil
  · intro hnil
    have hall := splitWhitespace_eq_nil.mp hnil
    rw [trim, List.rdropWhile_eq_nil_iff]
    exact fun c hc => hall c ((List.dropWhile_suffix _).subset hc)

theorem mem_of_mem_trim {c : Char} (h : c ∈ trim s) : c ∈ s :=
  (List.dropWhile_suffix _).subset ((List.rdropWhile_prefix _ _).subset h)

theorem isWhitespace_last_trim : ∀ c ∈ (trim s).getLast?, isWhitespace c = false := by
  intro c hc
  obtain ⟨hne, rfl⟩ := List.mem_getLast?_eq_getLast hc
  exact Bool.eq_false_iff.mpr (List.rdropWhile_last_not _ _ hne)

theorem trim_eq_self (hhead : ∀ c ∈ s.head?, isWhitespace c = false)
    (hlast : ∀ c ∈ s.getLast?, isWhitespace c = false) : trim s = s := by
  have hdrop : s.dropWhile isWhitespace = s := by
    cases s with
    | nil => rfl
    | cons c s => exact List.dropWhile_cons_of_neg (by simp [hhead c rfl])
  rw [trim, hdrop, List.rdropWhile_eq_self_iff]
  intro hne
  rw [hlast _ (List.getLast?_eq_some_getLast hne)]
  exact Bool.false_ne_true

theorem isWhitespace_of_isDigit {c : Char} (h : c.isDigit = true) : isWhitespace c = false := by
  have hrange : 48 ≤ c.toNat ∧ c.toNat ≤ 57 := by
    simpa [Char.isDigit, UInt32.le_iff_toNat_le] using h
  simp only [isWhitespace, Bool.or_eq_false_iff, Bool.and_eq_false_iff, decide_eq_false_iff_not,
    beq_eq_false_iff_ne]
  omega

end TextLines
