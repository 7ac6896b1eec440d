import DumbDistributedLog.Library.Runs
import DumbDistributedLog.Storage.Effects

/-! # The applied position

The applied position should be that of the last applied entry or of the last
installed snapshot, whichever is later. Applying entries sets it so, but a purge sets
it to the purged position and installing a snapshot leaves it where it was. In runs
that follow the discipline of the Raft engine the position is exact throughout if and
only if every purge is made at the last applied entry and no snapshot is installed.
-/

namespace DumbDistributedLog

open AutoqueuesRaftStorage Runs

inductive StorageOp where
  | appendToLog (entries : List Entry) (flush : Except StorageError Unit)
  | applyToStateMachine (entries : List Entry) (flush : Except StorageError Unit)
  | deleteConflictLogsSince (logId : LogId) (flush : Except StorageError Unit)
  | purgeLogsUpto (logId : LogId) (flush : Except StorageError Unit)
  | installSnapshot (snapshotMeta : SnapshotMeta) (data : List UInt8)
      (flush : Except StorageError Unit)

def nextIndex : Option LogId → ℕ
  | none => 0
  | some logId => logId.index.toNat + 1

def later : Option LogId → Option LogId → Option LogId
  | some a, some b => if a.index < b.index then some b else some a
  | some a, none => some a
  | none, b => b

/-- A storage with the positions of the last applied entry and of the last installed
snapshot. -/
structure Tracked where
  storage : AutoqueuesRaftStorage
  lastEntry : Option LogId
  lastSnapshot : Option LogId

namespace Tracked

def init (storage : AutoqueuesRaftStorage) : Tracked := ⟨storage, none, none⟩

variable (decode : List UInt8 → Except String OwnershipState) (t : Tracked)

def expected : Option LogId := later t.lastEntry t.lastSnapshot

def step : StorageOp → Tracked
  | .appendToLog entries flush => { t with storage := (t.storage.appendToLog entries flush).1 }
  | .applyToStateMachine entries flush =>
    { t with
      storage := (t.storage.applyToStateMachine entries flush).1
      lastEntry := (entries.getLast?.map Entry.logId).or t.lastEntry }
  | .deleteConflictLogsSince logId flush =>
    { t with storage := (t.storage.deleteConflictLogsSince logId flush).1 }
  | .purgeLogsUpto logId flush => { t with storage := (t.storage.purgeLogsUpto logId flush).1 }
  | .installSnapshot snapshotMeta data flush =>
    let (storage, result) := t.storage.installSnapshot decode snapshotMeta data flush
    { t with
      storage
      lastSnapshot := if result = .ok () then snapshotMeta.lastLogId else t.lastSnapshot }

def Consecutive (start : ℕ) (entries : List Entry) : Prop :=
  entries.map (fun e => e.logId.index.toNat) = List.range' start entries.length

/-- How the Raft engine calls the storage: entries are appended after the last
position, applied in order from the log, and purged only once applied; snapshots are
newer than what has been applied. -/
def Disciplined : StorageOp → Prop
  | .appendToLog entries _ =>
    Consecutive (max (nextIndex t.expected)
      (t.storage.lastIndex.elim 0 fun i => i.toNat + 1)) entries
  | .applyToStateMachine entries _ => Consecutive (nextIndex t.expected) entries ∧
      ∀ e ∈ entries, t.storage.log[e.logId.index]? = some e
  | .deleteConflictLogsSince _ _ => True
  | .purgeLogsUpto logId _ => nextIndex (some logId) ≤ nextIndex t.expected
  | .installSnapshot snapshotMeta _ _ => nextIndex t.expected < nextIndex snapshotMeta.lastLogId

def Exact : Prop := t.storage.lastAppliedState.1 = t.expected

def Rises (op : StorageOp) : Prop :=
  nextIndex t.storage.lastAppliedState.1 ≤ nextIndex (t.step decode op).storage.lastAppliedState.1

/-- Purges are made at the last applied position, and no snapshot has data that are
empty or decode and can be written. -/
def KeepsApplied : StorageOp → Prop
  | .purgeLogsUpto logId _ => t.expected = some logId
  | .installSnapshot _ data flush =>
    ¬ data.isEmpty ∧ ((decode data).isOk → t.storage.dataFile.isSome ∧ ¬ flush.isOk)
  | _ => True

instance (start : ℕ) (entries : List Entry) : Decidable (Consecutive start entries) :=
  inferInstanceAs (Decidable (_ = _))

instance : ∀ op, Decidable (t.Disciplined op)
  | .appendToLog _ _ => inferInstanceAs (Decidable (Consecutive _ _))
  | .applyToStateMachine entries _ => inferInstanceAs (Decidable (Consecutive _ _ ∧
      ∀ e ∈ entries, t.storage.log[e.logId.index]? = some e))
  | .deleteConflictLogsSince _ _ => .isTrue trivial
  | .purgeLogsUpto _ _ => inferInstanceAs (Decidable (_ ≤ _))
  | .installSnapshot _ _ _ => inferInstanceAs (Decidable (_ < _))

instance : Decidable t.Exact := inferInstanceAs (Decidable (_ = _))

instance (op : StorageOp) : Decidable (t.Rises decode op) := inferInstanceAs (Decidable (_ ≤ _))

instance : ∀ op, Decidable (t.KeepsApplied decode op)
  | .appendToLog _ _ => .isTrue trivial
  | .applyToStateMachine _ _ => .isTrue trivial
  | .deleteConflictLogsSince _ _ => .isTrue trivial
  | .purgeLogsUpto _ _ => inferInstanceAs (Decidable (_ = _))
  | .installSnapshot _ data flush => inferInstanceAs (Decidable (¬ data.isEmpty ∧
      ((decode data).isOk → t.storage.dataFile.isSome ∧ ¬ flush.isOk)))

end Tracked

section Positions

variable {a b : Option LogId} {id : LogId}

theorem nextIndex_later : nextIndex (later a b) = max (nextIndex a) (nextIndex b) := by
  cases a with
  | none => simp [later, nextIndex]
  | some x =>
    cases b with
    | none => simp [later, nextIndex]
    | some y =>
      simp only [later]
      split
      · rename_i hlt
        have := UInt64.lt_iff_toNat_lt.mp hlt
        simp only [nextIndex]
        omega
      · rename_i hge
        have := UInt64.lt_iff_toNat_lt.not.mp hge
        simp only [nextIndex]
        omega

theorem later_of_entry (h : nextIndex b ≤ id.index.toNat) : later (some id) b = some id := by
  cases b with
  | none => rfl
  | some y =>
    have hge : ¬ id.index < y.index := by
      rw [UInt64.lt_iff_toNat_lt]
      simp only [nextIndex] at h
      omega
    exact if_neg hge

theorem later_of_snapshot (h : nextIndex a ≤ id.index.toNat) : later a (some id) = some id := by
  cases a with
  | none => rfl
  | some x =>
    have hlt : x.index < id.index := by
      rw [UInt64.lt_iff_toNat_lt]
      simp only [nextIndex] at h
      omega
    exact if_pos hlt

end Positions

namespace Tracked

variable {decode : List UInt8 → Except String OwnershipState} {t : Tracked} {op : StorageOp}
  {s : AutoqueuesRaftStorage} {entries : List Entry}

theorem lastApplied_applyToStateMachine (s : AutoqueuesRaftStorage) (entries : List Entry)
    (flush : Except StorageError Unit) : (s.applyToStateMachine entries flush).1.lastApplied =
      (entries.getLast?.map Entry.logId).or s.lastApplied := by
  rw [applyToStateMachine_eq, applyEntries_eq]

theorem lastApplied_installSnapshot (s : AutoqueuesRaftStorage) (snapshotMeta : SnapshotMeta)
    (data : List UInt8) (flush : Except StorageError Unit) :
    (s.installSnapshot decode snapshotMeta data flush).1.lastApplied = s.lastApplied := by
  obtain ⟨state, dirty, snapshot, heq⟩ := s.installSnapshot_eq decode snapshotMeta data flush
  rw [heq]

theorem installSnapshot_ok_iff (decode : List UInt8 → Except String OwnershipState)
    (s : AutoqueuesRaftStorage) (snapshotMeta : SnapshotMeta) (data : List UInt8)
    (flush : Except StorageError Unit) :
    (s.installSnapshot decode snapshotMeta data flush).2 = .ok () ↔
      ¬ (¬ data.isEmpty ∧ ((decode data).isOk → s.dataFile.isSome ∧ ¬ flush.isOk)) := by
  simp only [installSnapshot]
  split
  · simp_all
  · cases hd : decode data with
    | error e => simp_all [Except.isOk, Except.toBool]
    | ok state =>
      cases hf : s.dataFile <;> cases flush <;> simp_all [Except.isOk, Except.toBool]

theorem Consecutive.le_of_mem {start : ℕ} {e : Entry} (h : Consecutive start entries)
    (he : e ∈ entries) : start ≤ e.logId.index.toNat := by
  have hmem : e.logId.index.toNat ∈ List.range' start entries.length := by
    rw [← h]
    exact List.mem_map_of_mem he
  exact (List.mem_range'_1.mp hmem).1

theorem Consecutive.le_last {start : ℕ} {e : Entry} (h : Consecutive start entries)
    (he : entries.getLast? = some e) : start ≤ e.logId.index.toNat :=
  h.le_of_mem (List.mem_of_getLast? he)

theorem expected_apply {flush : Except StorageError Unit}
    (h : Consecutive (nextIndex t.expected) entries) :
    (t.step decode (.applyToStateMachine entries flush)).expected =
      (entries.getLast?.map Entry.logId).or t.expected := by
  cases he : entries.getLast? with
  | none => simp [step, expected, he]
  | some e =>
    have hle := h.le_last he
    rw [expected, nextIndex_later] at hle
    simp only [step, expected, he, Option.map_some, Option.some_or]
    exact later_of_entry (by omega)

theorem expected_install {snapshotMeta : SnapshotMeta} {data : List UInt8}
    {flush : Except StorageError Unit}
    (h : nextIndex t.expected < nextIndex snapshotMeta.lastLogId) :
    (t.step decode (.installSnapshot snapshotMeta data flush)).expected =
      if (t.storage.installSnapshot decode snapshotMeta data flush).2 = .ok () then
        snapshotMeta.lastLogId
      else t.expected := by
  simp only [step, expected]
  split
  · cases hid : snapshotMeta.lastLogId with
    | none => simp [hid, nextIndex] at h
    | some id =>
      rw [hid, expected, nextIndex_later] at h
      exact later_of_snapshot (Nat.le_of_lt_succ (lt_of_le_of_lt (le_max_left _ _) h))
  · rfl

theorem Disciplined.expected_le (hd : t.Disciplined op) :
    nextIndex t.expected ≤ nextIndex (t.step decode op).expected := by
  cases op with
  | applyToStateMachine entries flush =>
    rw [expected_apply hd.1]
    cases he : entries.getLast? with
    | none => simp
    | some e =>
      have hle := hd.1.le_last he
      simp only [Option.map_some, Option.some_or]
      rw [nextIndex]
      omega
  | installSnapshot snapshotMeta data flush =>
    rw [expected_install hd]
    split
    · exact hd.le
    · exact le_rfl
  | _ => exact le_rfl

theorem Exact.step_iff (h : t.Exact) (hd : t.Disciplined op) :
    (t.step decode op).Exact ↔ t.KeepsApplied decode op := by
  cases op with
  | appendToLog entries flush => exact iff_of_true h trivial
  | applyToStateMachine entries flush =>
    refine iff_of_true ?_ trivial
    rw [Exact, expected_apply hd.1]
    change (t.storage.applyToStateMachine entries flush).1.lastApplied = _
    rw [lastApplied_applyToStateMachine, show t.storage.lastApplied = t.expected from h]
  | deleteConflictLogsSince logId flush => exact iff_of_true h trivial
  | purgeLogsUpto logId flush => exact eq_comm
  | installSnapshot snapshotMeta data flush =>
    have hkept : (t.step decode (.installSnapshot snapshotMeta data flush)).storage.lastApplied =
        t.expected := (lastApplied_installSnapshot _ _ _ _).trans h
    have hne : t.expected ≠ snapshotMeta.lastLogId := fun heq => by
      simp [Disciplined, heq] at hd
    rw [Exact, lastAppliedState, hkept, expected_install hd]
    have hok := installSnapshot_ok_iff decode t.storage snapshotMeta data flush
    by_cases hk : t.KeepsApplied decode (.installSnapshot snapshotMeta data flush)
    · rw [if_neg fun hc => hok.mp hc hk]
      exact iff_of_true rfl hk
    · rw [if_pos (hok.mpr hk)]
      exact iff_of_false hne hk

theorem Exact.rises (h : t.Exact) (hd : t.Disciplined op) (hk : t.KeepsApplied decode op) :
    t.Rises decode op := by
  have hnext : (t.step decode op).storage.lastAppliedState.1 = (t.step decode op).expected :=
    (h.step_iff hd).mpr hk
  have hnow : t.storage.lastAppliedState.1 = t.expected := h
  rw [Rises, hnext, hnow]
  exact hd.expected_le

end Tracked

open Tracked in
/-- In a disciplined run the applied position is exact and never decreases if and only
if every purge is made at the last applied position and no snapshot is installed. -/
theorem lastApplied_exact_iff (decode : List UInt8 → Except String OwnershipState)
    (s : AutoqueuesRaftStorage) (hs : Created s) (ops : List StorageOp)
    (hd : Along (step decode) Disciplined (.init s) ops) :
    Always (step decode) Exact (.init s) ops ∧ Along (step decode) (Rises decode) (.init s) ops ↔
      Along (step decode) (KeepsApplied decode) (.init s) ops := by
  have hinit : Exact (.init s) := by
    cases hs <;> rfl
  have hexact : Always (step decode) Exact (.init s) ops ↔
      Along (step decode) (KeepsApplied decode) (.init s) ops :=
    always_iff_along (fun _ _ h hd => h.step_iff hd) hinit hd
  constructor
  · intro h
    exact hexact.mp h.1
  · intro h
    refine ⟨hexact.mpr h, (hd.and h).strengthen (fun t op ht hc => ?_) hinit⟩
    exact ⟨(ht.step_iff hc.1).mpr hc.2, ht.rises hc.1 hc.2⟩

open Tracked in
theorem lastApplied_exact_full_purge :
    let decode : List UInt8 → Except String OwnershipState := fun _ => .error "invalid"
    let entry (i : UInt64) : Entry := ⟨⟨⟨1, 1⟩, i⟩, .blank⟩
    let ops : List StorageOp :=
      [.appendToLog [entry 0, entry 1] (.ok ()), .applyToStateMachine [entry 0, entry 1] (.ok ()),
        .purgeLogsUpto ⟨⟨1, 1⟩, 1⟩ (.ok ()),
        .installSnapshot ⟨some ⟨⟨1, 1⟩, 7⟩, ⟨none, [], []⟩, "snapshot-0"⟩ [0] (.ok ())]
    Along (step decode) Disciplined (.init .new) ops ∧
      Always (step decode) Exact (.init .new) ops ∧
      Along (step decode) (Rises decode) (.init .new) ops :=
  ⟨by decide +kernel,
    (lastApplied_exact_iff _ _ .new _ (by decide +kernel)).mpr (by decide +kernel)⟩

open Tracked in
/-- A purge below the last applied entry moves the position back, and an installed
snapshot does not move it at all. -/
theorem purge_moves_lastApplied_back :
    let decode : List UInt8 → Except String OwnershipState := fun _ => .error "invalid"
    let entry (i : UInt64) : Entry := ⟨⟨⟨1, 1⟩, i⟩, .blank⟩
    let purge : List StorageOp :=
      [.appendToLog [entry 0, entry 1] (.ok ()), .applyToStateMachine [entry 0, entry 1] (.ok ()),
        .purgeLogsUpto ⟨⟨1, 1⟩, 0⟩ (.ok ())]
    let install : List StorageOp :=
      [.installSnapshot ⟨some ⟨⟨1, 1⟩, 7⟩, ⟨none, [], []⟩, "snapshot-0"⟩ [] (.ok ())]
    (Along (step decode) Disciplined (.init .new) purge ∧
        ¬ Along (step decode) (Rises decode) (.init .new) purge) ∧
      Along (step decode) Disciplined (.init .new) install ∧
      ¬ Always (step decode) Exact (.init .new) install := by
  refine ⟨⟨by decide +kernel, by decide +kernel⟩, by decide +kernel, fun h => ?_⟩
  exact absurd (h _ (List.prefix_refl _)) (by decide +kernel)

end DumbDistributedLog
