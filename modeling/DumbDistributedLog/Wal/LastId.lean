import DumbDistributedLog.Library.Runs
import DumbDistributedLog.Library.U64
import DumbDistributedLog.Wal.Log
import Mathlib.Order.MinMax

/-! # The last id of a log

The log gives its records ids of its own. An append and a new opening set the last id to the id of
a record, but reading the entries sets it to the id of an entry. The last id is that of the last
record throughout only if every reading finds this id to be the greatest of its entries.
-/

namespace DumbDistributedLog.Ddl.Wal

open Runs

structure LogEntry where
  id : UInt64
  data : List UInt8
  deriving DecidableEq, Repr

/-- A log whose records have increasing ids. -/
structure WriteAheadLog where
  records : List LogEntry
  increasing : records.Pairwise fun a b => a.id < b.id

namespace WriteAheadLog

def empty : WriteAheadLog := ⟨[], .nil⟩

variable (log : WriteAheadLog)

def Next (id : UInt64) : Prop := ∀ record ∈ log.records, record.id < id

instance (id : UInt64) : Decidable (log.Next id) :=
  inferInstanceAs (Decidable (∀ record ∈ log.records, record.id < id))

def append (id : UInt64) (data : List UInt8) (h : log.Next id) : WriteAheadLog where
  records := log.records ++ [⟨id, data⟩]
  increasing := by
    rw [List.pairwise_append]
    refine ⟨log.increasing, List.pairwise_singleton _ _, ?_⟩
    rintro record hrecord _ hlast
    rw [List.mem_singleton.mp hlast]
    exact h record hrecord

def lastRecordId : UInt64 := (log.records.getLast?.map (·.id)).getD 0

def entries (json : Codec Entry) : List Entry :=
  log.records.filterMap fun record => (json.decode record.data).toOption

end WriteAheadLog

structure OpenWal where
  wal : WriteAheadLog
  lastId : UInt64

inductive WalRequest where
  | append (entry : Entry) (outcome : Except WalError UInt64)
  | readEntries (outcome : Except WalError Unit)
  | reopen (outcome : Except WalError Unit)

namespace OpenWal

/-- The outcome is whether the records could be read. If not, the log is open all the same. -/
def openLog (wal : WriteAheadLog) : Except WalError Unit → OpenWal
  | .ok () => ⟨wal, (wal.records.map (·.id)).max?.getD 0⟩
  | .error _ => ⟨wal, 0⟩

variable (json : Codec Entry) (s : OpenWal)

/-- The outcome is the id that the log has given to the new record. Other ids than the next ones are
never given. -/
def append (entry : Entry) (outcome : Except WalError UInt64) :
    OpenWal × Except WalError UInt64 :=
  match outcome with
  | .error e => (s, .error e)
  | .ok id =>
    if h : s.wal.Next id then (⟨s.wal.append id (json.encode entry) h, id⟩, .ok id)
    else (s, .ok id)

/-- The entries in the order of their ids. The id of the last one is kept. -/
def readEntries (outcome : Except WalError Unit) : OpenWal × Except WalError (List Entry) :=
  match outcome with
  | .error e => (s, .error e)
  | .ok () =>
    let entries := (s.wal.entries json).insertionSort fun a b => a.id ≤ b.id
    match entries.getLast? with
    | some last => ({ s with lastId := last.id }, .ok entries)
    | none => (s, .ok entries)

def step : WalRequest → OpenWal
  | .append entry outcome => (s.append json entry outcome).1
  | .readEntries outcome => (s.readEntries json outcome).1
  | .reopen outcome => openLog s.wal outcome

/-- The last id is that of the last record. -/
def OneIdSpace : Prop := s.lastId = s.wal.lastRecordId

/-- If there are entries to read, the greatest of their ids is that of the last record, and it is
zero if the records cannot be read at an opening. -/
def SameIds : WalRequest → Prop
  | .append _ _ => True
  | .readEntries outcome => outcome = .ok () → s.wal.entries json ≠ [] →
      (∃ entry ∈ s.wal.entries json, entry.id = s.wal.lastRecordId) ∧
        ∀ entry ∈ s.wal.entries json, entry.id ≤ s.wal.lastRecordId
  | .reopen outcome => outcome ≠ .ok () → s.wal.lastRecordId = 0

variable {json s} {α : Type*} {l : List α} {key : α → UInt64} {last : α} {id : UInt64}

theorem key_getLast?_eq (h : l.Pairwise fun a b => key a ≤ key b) (hlast : l.getLast? = some last) :
    key last = id ↔ (∃ a ∈ l, key a = id) ∧ ∀ a ∈ l, key a ≤ id := by
  obtain ⟨front, rfl⟩ := List.getLast?_eq_some_iff.mp hlast
  have hgreatest : ∀ a ∈ front ++ [last], key a ≤ key last := by
    intro a ha
    rcases List.mem_append.mp ha with ha | ha
    · exact (List.pairwise_append.mp h).2.2 a ha last (List.mem_singleton_self last)
    · exact (List.mem_singleton.mp ha) ▸ le_rfl
  constructor
  · rintro rfl
    exact ⟨⟨last, List.mem_append_right _ (List.mem_singleton_self last), rfl⟩, hgreatest⟩
  · rintro ⟨⟨a, ha, rfl⟩, hall⟩
    exact le_antisymm (hall last (by simp)) (hgreatest a ha)

theorem openLog_lastId (wal : WriteAheadLog) :
    (openLog wal (.ok ())).lastId = wal.lastRecordId := by
  unfold openLog WriteAheadLog.lastRecordId
  cases hlast : wal.records.getLast? with
  | none =>
    rw [List.getLast?_eq_none_iff.mp hlast]
    rfl
  | some last =>
    obtain ⟨⟨record, hrecord, hid⟩, hgreatest⟩ :=
      (key_getLast?_eq (wal.increasing.imp le_of_lt) hlast).mp rfl
    have : Std.LawfulOrderMax UInt64 :=
      { max_le_iff := fun _ _ _ => max_le_iff, max_eq_or := max_choice }
    have hmax : (wal.records.map (·.id)).max? = some last.id := by
      rw [List.max?_eq_some_iff, List.forall_mem_map]
      exact ⟨hid ▸ List.mem_map_of_mem hrecord, hgreatest⟩
    rw [hmax]
    rfl

theorem OneIdSpace.append (h : s.OneIdSpace) (entry : Entry) (outcome : Except WalError UInt64) :
    (s.append json entry outcome).1.OneIdSpace := by
  unfold OpenWal.append
  cases outcome with
  | error e => exact h
  | ok id =>
    by_cases hnext : s.wal.Next id
    · simp [hnext, OneIdSpace, WriteAheadLog.lastRecordId, WriteAheadLog.append]
    · simpa only [hnext, dif_neg, not_false_eq_true] using h

theorem OneIdSpace.readEntries_iff (h : s.OneIdSpace) (outcome : Except WalError Unit) :
    (s.readEntries json outcome).1.OneIdSpace ↔ s.SameIds json (.readEntries outcome) := by
  have hperm := List.perm_insertionSort (fun a b => a.id ≤ b.id) (s.wal.entries json)
  have hsorted := List.pairwise_insertionSort (fun a b => a.id ≤ b.id) (s.wal.entries json)
  unfold OpenWal.readEntries SameIds
  cases outcome with
  | error e => exact iff_of_true h nofun
  | ok _ =>
    simp only [true_imp_iff]
    cases hlast : ((s.wal.entries json).insertionSort fun a b => a.id ≤ b.id).getLast? with
    | none =>
      rw [List.getLast?_eq_none_iff.mp hlast] at hperm
      exact iff_of_true h fun hne => absurd (List.nil_perm.mp hperm) hne
    | some last =>
      have hne : s.wal.entries json ≠ [] := by
        rintro hnil
        simp [hnil] at hlast
      have hid : last.id = s.wal.lastRecordId ↔ _ := key_getLast?_eq hsorted hlast
      simp only [hperm.mem_iff] at hid
      exact hid.trans ⟨fun hids _ => hids, fun hids => hids hne⟩

theorem reopen_iff (outcome : Except WalError Unit) :
    (openLog s.wal outcome).OneIdSpace ↔ s.SameIds json (.reopen outcome) := by
  cases outcome with
  | ok _ => exact iff_of_true (openLog_lastId s.wal) fun hfailed => absurd rfl hfailed
  | error e =>
    have hzero : (openLog s.wal (.error e)).OneIdSpace ↔ s.wal.lastRecordId = 0 := eq_comm
    exact hzero.trans ⟨fun hlast _ => hlast, fun hlast => hlast nofun⟩

theorem OneIdSpace.step_iff (h : s.OneIdSpace) (request : WalRequest) :
    (s.step json request).OneIdSpace ↔ s.SameIds json request := by
  cases request with
  | append entry outcome => exact iff_of_true (h.append entry outcome) trivial
  | readEntries outcome => exact h.readEntries_iff outcome
  | reopen outcome => exact reopen_iff outcome

/-- In every run the last id is that of the last record throughout, exactly if every reading of
entries finds it to be the greatest of their ids, and it is zero whenever the records cannot be
read at an opening. -/
theorem last_id_of_last_record (json : Codec Entry) (wal : WriteAheadLog)
    (requests : List WalRequest) :
    Always (step json) OneIdSpace (openLog wal (.ok ())) requests ↔
      Along (step json) (SameIds json) (openLog wal (.ok ())) requests :=
  always_iff_along (P := fun _ _ => True) (fun _ request h _ => h.step_iff request)
    (openLog_lastId wal) (along_of_forall fun _ _ _ => trivial)

/-- The first record has id 1 and its entry id 7: reading makes 7 of the last id. -/
theorem reading_changes_last_id :
    let appended := exec (step Plain.json) (openLog .empty (.ok ()))
      [.append ⟨7, 0, "t", []⟩ (.ok 1)]
    appended.lastId = 1 ∧ appended.wal.lastRecordId = 1 ∧
      (appended.step Plain.json (.readEntries (.ok ()))).lastId = 7 ∧
      (appended.step Plain.json (.readEntries (.ok ()))).wal.lastRecordId = 1 := by
  decide +kernel

end OpenWal

end DumbDistributedLog.Ddl.Wal
