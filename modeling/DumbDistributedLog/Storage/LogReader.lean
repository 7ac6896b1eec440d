import DumbDistributedLog.Library.Runs
import DumbDistributedLog.Storage.Machine

/-! # Log readers

A log reader is a clone with a copy of the log as it was when the reader was made.
What it returns for a range agrees with the storage for as long as the operations on
the storage leave the stored entries of that range alone.
-/

namespace DumbDistributedLog

open AutoqueuesRaftStorage Runs

inductive LogOp where
  | appendToLog (entries : List Entry) (flush : Except StorageError Unit)
  | deleteConflictLogsSince (logId : LogId) (flush : Except StorageError Unit)
  | purgeLogsUpto (logId : LogId) (flush : Except StorageError Unit)

def AutoqueuesRaftStorage.runLog (s : AutoqueuesRaftStorage) : LogOp → AutoqueuesRaftStorage
  | .appendToLog entries flush => (s.appendToLog entries flush).1
  | .deleteConflictLogsSince logId flush => (s.deleteConflictLogsSince logId flush).1
  | .purgeLogsUpto logId flush => (s.purgeLogsUpto logId flush).1

structure Reading where
  storage : AutoqueuesRaftStorage
  reader : AutoqueuesRaftStorage

def Reading.step (r : Reading) (op : LogOp) : Reading :=
  ⟨r.storage.runLog op, r.reader.follow (r.storage.runLog op)⟩

def Coherent (a b : UInt64) (r : Reading) : Prop :=
  r.reader.tryGetLogEntries (.included a) (.excluded b) =
    r.storage.tryGetLogEntries (.included a) (.excluded b)

def lastAt (entries : List Entry) (i : UInt64) : Option Entry :=
  (entries.filter fun e => e.logId.index = i).getLast?

/-- In the range, an append writes only what is stored there, and a truncation or a
purge meets nothing. -/
def Untouched (a b : UInt64) (s : AutoqueuesRaftStorage) : LogOp → Prop
  | .appendToLog entries _ => ∀ e ∈ entries, a ≤ e.logId.index → e.logId.index < b →
      s.log[e.logId.index]? = lastAt entries e.logId.index
  | .deleteConflictLogsSince logId _ => ∀ p ∈ s.log.toList, a ≤ p.1 → p.1 < b → p.1 < logId.index
  | .purgeLogsUpto logId _ => ∀ p ∈ s.log.toList, a ≤ p.1 → p.1 < b → logId.index < p.1

/-- The same for the indices with a property. -/
def UntouchedOn (p : UInt64 → Prop) (s : AutoqueuesRaftStorage) : LogOp → Prop
  | .appendToLog entries _ => ∀ e ∈ entries, p e.logId.index →
      s.log[e.logId.index]? = lastAt entries e.logId.index
  | .deleteConflictLogsSince logId _ => ∀ q ∈ s.log.toList, p q.1 → q.1 < logId.index
  | .purgeLogsUpto logId _ => ∀ q ∈ s.log.toList, p q.1 → logId.index < q.1

instance (a b : UInt64) : ∀ s op, Decidable (Untouched a b s op)
  | s, .appendToLog entries _ => inferInstanceAs (Decidable (∀ e ∈ entries, a ≤ e.logId.index →
      e.logId.index < b → s.log[e.logId.index]? = lastAt entries e.logId.index))
  | s, .deleteConflictLogsSince logId _ => inferInstanceAs (Decidable
      (∀ p ∈ s.log.toList, a ≤ p.1 → p.1 < b → p.1 < logId.index))
  | s, .purgeLogsUpto logId _ => inferInstanceAs (Decidable
      (∀ p ∈ s.log.toList, a ≤ p.1 → p.1 < b → logId.index < p.1))

def LogKeyed (s : AutoqueuesRaftStorage) : Prop :=
  ∀ (i : UInt64) (e : Entry), s.log[i]? = some e → e.logId.index = i

variable {s : AutoqueuesRaftStorage} {r : Reading} {op : LogOp} {a b : UInt64}
  {entries : List Entry}

theorem get_insertEntries (log : Table UInt64 Entry) (entries : List Entry) (i : UInt64) :
    (insertEntries log entries)[i]? = (lastAt entries i).or log[i]? := by
  induction entries generalizing log with
  | nil => rfl
  | cons e entries ih =>
    change (insertEntries (log.insert e.logId.index e) entries)[i]? = _
    rw [ih, Table.get_insert]
    by_cases he : e.logId.index = i
    · simp only [lastAt, he, List.filter_cons, decide_true, if_true, List.getLast?_cons]
      cases (entries.filter fun e => e.logId.index = i).getLast? <;> rfl
    · simp [lastAt, he]

theorem lastAt_eq_some {i : UInt64} {e : Entry} (h : lastAt entries i = some e) :
    e ∈ entries ∧ e.logId.index = i := by
  obtain ⟨hm, hi⟩ := List.mem_filter.mp (List.mem_of_getLast? h)
  exact ⟨hm, of_decide_eq_true hi⟩

theorem lastAt_isSome {e : Entry} (h : e ∈ entries) :
    ∃ e', lastAt entries e.logId.index = some e' := by
  have hne : (entries.filter fun e' => e'.logId.index = e.logId.index) ≠ [] :=
    List.ne_nil_of_mem (List.mem_filter.mpr ⟨h, decide_eq_true rfl⟩)
  exact ⟨_, List.getLast?_eq_some_getLast hne⟩

theorem filter_eq_self_iff {log : Table UInt64 Entry} {p : UInt64 → Prop} {f : UInt64 → Bool} :
    (∀ i : UInt64, p i → log[i]? = (log.filter fun k _ => f k)[i]?) ↔
      ∀ q ∈ log.toList, p q.1 → f q.1 := by
  simp only [Table.get_filter, Prod.forall, Std.ExtTreeMap.mem_toList_iff_getElem?_eq_some]
  constructor
  · intro h i e hi hp
    have := h i hp
    rw [hi] at this
    simpa [Option.filter] using this
  · intro h i hp
    cases hi : log[i]? with
    | none => rfl
    | some e => simp [Option.filter, h i e hi hp]

theorem LogKeyed.runLog (h : LogKeyed s) (op : LogOp) : LogKeyed (s.runLog op) := by
  intro i e he
  cases op with
  | appendToLog entries flush =>
    simp only [AutoqueuesRaftStorage.runLog, appendToLog, get_insertEntries,
      Option.or_eq_some_iff] at he
    rcases he with hlast | ⟨-, hlog⟩
    · exact (lastAt_eq_some hlast).2
    · exact h i e hlog
  | deleteConflictLogsSince logId flush =>
    simp only [AutoqueuesRaftStorage.runLog, deleteConflictLogsSince, Table.get_filter,
      Option.filter_eq_some_iff] at he
    exact h i e he.1
  | purgeLogsUpto logId flush =>
    simp only [AutoqueuesRaftStorage.runLog, purgeLogsUpto, Table.get_filter,
      Option.filter_eq_some_iff] at he
    exact h i e he.1

theorem untouchedOn_iff {p : UInt64 → Prop} : UntouchedOn p s op ↔
    ∀ i : UInt64, p i → s.log[i]? = (s.runLog op).log[i]? := by
  cases op with
  | appendToLog entries flush =>
    simp only [UntouchedOn, AutoqueuesRaftStorage.runLog, appendToLog, get_insertEntries]
    constructor
    · intro h i hp
      cases hi : lastAt entries i with
      | none => rfl
      | some e =>
        obtain ⟨he, rfl⟩ := lastAt_eq_some hi
        rw [h e he hp, hi]
        rfl
    · intro h e he hp
      obtain ⟨e', he'⟩ := lastAt_isSome he
      rw [h e.logId.index hp, he']
      rfl
  | deleteConflictLogsSince logId flush =>
    simp only [UntouchedOn, AutoqueuesRaftStorage.runLog, deleteConflictLogsSince]
    rw [filter_eq_self_iff]
    simp
  | purgeLogsUpto logId flush =>
    simp only [UntouchedOn, AutoqueuesRaftStorage.runLog, purgeLogsUpto]
    rw [filter_eq_self_iff]
    simp

theorem log_runLog_eq_iff : (s.runLog op).log = s.log ↔ UntouchedOn (fun _ => True) s op := by
  rw [untouchedOn_iff]
  constructor
  · intro h i _
    rw [h]
  · intro h
    exact Std.ExtTreeMap.ext_getElem? fun i => (h i trivial).symm

theorem untouched_iff : Untouched a b s op ↔
    ∀ i : UInt64, a ≤ i → i < b → s.log[i]? = (s.runLog op).log[i]? := by
  have hiff : UntouchedOn (fun i => a ≤ i ∧ i < b) s op ↔ _ := untouchedOn_iff
  simp only [and_imp] at hiff
  rw [← hiff]
  cases op <;> simp only [Untouched, UntouchedOn, and_imp]

theorem tryGetLogEntries_eq_iff {s' : AutoqueuesRaftStorage} (h : LogKeyed s) (h' : LogKeyed s')
    (hab : a ≤ b) : s.tryGetLogEntries (.included a) (.excluded b) =
      s'.tryGetLogEntries (.included a) (.excluded b) ↔
      ∀ i : UInt64, a ≤ i → i < b → s.log[i]? = s'.log[i]? := by
  have hiff := Table.filter_values_eq_iff (p := fun i => decide (a ≤ i ∧ i < b)) h h'
  simp only [tryGetLogEntries, rangeStart, rangeEnd, hab, if_true, Option.some.injEq]
  simp only [decide_eq_true_eq, and_imp] at hiff
  exact hiff

theorem Coherent.step_iff (h : Coherent a b r) (hr : LogKeyed r.storage) (hab : a ≤ b) :
    Coherent a b (r.step op) ↔ Untouched a b r.storage op := by
  have hreader : (r.step op).reader.tryGetLogEntries (.included a) (.excluded b) =
      r.storage.tryGetLogEntries (.included a) (.excluded b) := h
  rw [Coherent, hreader, untouched_iff]
  exact tryGetLogEntries_eq_iff hr (hr.runLog op) hab

theorem AutoqueuesRaftStorage.Created.logKeyed (h : Created s) : LogKeyed s := by
  intro i e he
  cases h with
  | new => simp [AutoqueuesRaftStorage.new] at he
  | withPersistence dataDir state entries vote =>
    simp only [AutoqueuesRaftStorage.withPersistence, get_insertEntries] at he
    exact (lastAt_eq_some (by simpa using he)).2

/-- A reader stays coherent with the storage over a range exactly if no later operation
touches the entries that are stored in it. -/
theorem reader_coherent_iff (s : AutoqueuesRaftStorage) (hs : Created s) (pre post : List LogOp)
    (a b : UInt64) (hab : a ≤ b) :
    Always Reading.step (Coherent a b) ⟨exec runLog s pre, (exec runLog s pre).getLogReader⟩ post ↔
      Along Reading.step (fun r op => Untouched a b r.storage op)
        ⟨exec runLog s pre, (exec runLog s pre).getLogReader⟩ post := by
  have hpre : LogKeyed (exec runLog s pre) := exec_inv (fun _ op h => h.runLog op) hs.logKeyed
  have hkeyed : ∀ r : Reading, LogKeyed r.storage →
      Along Reading.step (fun r _ => LogKeyed r.storage) r post := fun _ hr =>
    along_inv (I := fun r : Reading => LogKeyed r.storage) (fun _ op h => h.runLog op) hr
  exact always_iff_along (fun r op h hr => h.step_iff hr hab) rfl (hkeyed _ hpre)

theorem reader_coherent_below_append :
    let entry (i : UInt64) : Entry := ⟨⟨⟨1, 1⟩, i⟩, .blank⟩
    let pre : List LogOp := [.appendToLog [entry 0, entry 1] (.ok ())]
    let post : List LogOp := [.appendToLog [entry 2] (.ok ()), .purgeLogsUpto ⟨⟨1, 1⟩, 0⟩ (.ok ())]
    Always Reading.step (Coherent 1 2)
      ⟨exec runLog .new pre, (exec runLog .new pre).getLogReader⟩ post :=
  (reader_coherent_iff _ .new _ _ 1 2 (by decide)).mpr (by decide +kernel)

/-- A reader does not see an entry that is appended after it was made. -/
theorem reader_misses_append :
    let entry : Entry := ⟨⟨⟨1, 1⟩, 0⟩, .blank⟩
    ¬ Always Reading.step (Coherent 0 1) ⟨.new, AutoqueuesRaftStorage.new.getLogReader⟩
      [.appendToLog [entry] (.ok ())] := by
  intro entry h
  have hread := h [.appendToLog [entry] (.ok ())] (List.prefix_refl _)
  unfold Coherent at hread
  exact absurd hread (by decide +kernel)

end DumbDistributedLog
