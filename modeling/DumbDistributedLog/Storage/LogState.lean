import DumbDistributedLog.Storage.Encoding
import DumbDistributedLog.Storage.Handles
import DumbDistributedLog.Storage.LogReader

/-! # The window of the log

The log state reports the applied position as the last purged one. The two agree after
a purge, until entries are applied again; in between the reported window is wrong,
since applied entries stay in the log.
-/

namespace DumbDistributedLog

open AutoqueuesRaftStorage Runs

/-- The reported log state is right: the last purged position is the argument of the
last purge, the log lies beyond it, and the last id is that of the greatest entry or, in
an empty log, the last purged one. -/
structure Window (h : Handles) : Prop where
  purged : h.storage.getLogState.lastPurgedLogId = h.purged
  beyond : ∀ (i : UInt64) (e : Entry), h.storage.log[i]? = some e →
    ∀ p ∈ h.storage.getLogState.lastPurgedLogId, p.index < e.logId.index
  last : (∃ (i : UInt64) (e : Entry), h.storage.log[i]? = some e ∧
      h.storage.getLogState.lastLogId = some e.logId ∧
      ∀ (j : UInt64) (e' : Entry), h.storage.log[j]? = some e' →
        e'.logId.index ≤ e.logId.index) ∨
    (∀ i : UInt64, h.storage.log[i]? = none) ∧
      h.storage.getLogState.lastLogId = h.storage.getLogState.lastPurgedLogId

def HandleOp.moves : HandleOp → Bool
  | .storage (.applyToStateMachine entries _) => entries ≠ []
  | .storage (.purgeLogsUpto _ _) => true
  | _ => false

def HandleOp.isPurge : HandleOp → Bool
  | .storage (.purgeLogsUpto _ _) => true
  | _ => false

def PurgesLast (ops : List HandleOp) : Prop :=
  ∀ op ∈ (ops.filter HandleOp.moves).getLast?, op.isPurge

instance (ops : List HandleOp) : Decidable (PurgesLast ops) :=
  inferInstanceAs (Decidable (∀ op ∈ (ops.filter HandleOp.moves).getLast?, op.isPurge))

variable {codec : Codec OwnershipState} {h : Handles} {op : HandleOp} {ops : List HandleOp}

theorem purgesLast_concat : PurgesLast (ops ++ [op]) ↔
    if op.moves then op.isPurge = true else PurgesLast ops := by
  unfold PurgesLast
  cases hm : op.moves <;> simp [List.filter_append, hm]

theorem lastLogId_cases {s : AutoqueuesRaftStorage} (hk : LogKeyed s) :
    (∃ (i : UInt64) (e : Entry), s.log[i]? = some e ∧ s.lastLogId = some e.logId ∧
      ∀ (j : UInt64) (e' : Entry), s.log[j]? = some e' → e'.logId.index ≤ e.logId.index) ∨
    (∀ i : UInt64, s.log[i]? = none) ∧ s.lastLogId = s.lastApplied := by
  cases hi : s.lastIndex with
  | none =>
    refine .inr ⟨(Table.keys_getLast?_eq_none _).mp hi, ?_⟩
    rw [lastLogId, hi]
  | some k =>
    obtain ⟨e, he⟩ := (Table.mem_keys_iff _).mp (List.mem_of_getLast? hi)
    refine .inl ⟨k, e, he, ?_, fun j e' hj => ?_⟩
    · rw [lastLogId, hi]
      simp [he]
    · rw [hk j e' hj, hk k e he]
      rcases Table.eq_or_lt_of_keys_getLast? _ hi hj with rfl | hlt
      · exact le_rfl
      · exact (compare_lt_iff_lt.mp hlt).le

structure Beyond (h : Handles) : Prop where
  keyed : LogKeyed h.storage
  expected : nextIndex h.purged ≤ nextIndex h.tracked.expected
  log : ∀ (i : UInt64) (e : Entry), h.storage.log[i]? = some e → nextIndex h.purged ≤ i.toNat

theorem Beyond.window_iff (hb : Beyond h) : Window h ↔ h.storage.lastApplied = h.purged := by
  constructor
  · intro hw
    exact hw.purged
  · intro heq
    refine ⟨heq, fun i e he p hp => ?_, lastLogId_cases hb.keyed⟩
    have hlog := hb.log i e he
    rw [← heq, show h.storage.lastApplied = some p from hp] at hlog
    rw [hb.keyed i e he, UInt64.lt_iff_toNat_lt]
    exact hlog

theorem Tracked.get_log_step {t : Tracked} {op : StorageOp} {i : UInt64} {e : Entry}
    (he : (t.step codec.decode op).storage.log[i]? = some e) :
    (t.storage.log[i]? = some e ∧ ∀ p ∈ op.purges, p.index < i) ∨
      ∃ entries flush, op = .appendToLog entries flush ∧ e ∈ entries ∧ e.logId.index = i := by
  cases op with
  | appendToLog entries flush =>
    change (insertEntries t.storage.log entries)[i]? = some e at he
    rw [get_insertEntries, Option.or_eq_some_iff] at he
    rcases he with hlast | ⟨-, hlog⟩
    · obtain ⟨hmem, hi⟩ := lastAt_eq_some hlast
      exact .inr ⟨entries, flush, rfl, hmem, hi⟩
    · exact .inl ⟨hlog, by simp [StorageOp.purges]⟩
  | deleteConflictLogsSince logId flush =>
    change (t.storage.log.filter fun k _ => ¬ k ≥ logId.index)[i]? = some e at he
    rw [Table.get_filter, Option.filter_eq_some_iff] at he
    exact .inl ⟨he.1, by simp [StorageOp.purges]⟩
  | purgeLogsUpto logId flush =>
    change (t.storage.log.filter fun k _ => ¬ k ≤ logId.index)[i]? = some e at he
    rw [Table.get_filter, Option.filter_eq_some_iff] at he
    refine .inl ⟨he.1, fun p hp => ?_⟩
    obtain rfl := Option.some.inj hp
    simpa using he.2
  | applyToStateMachine entries flush =>
    change (t.storage.applyToStateMachine entries flush).1.log[i]? = some e at he
    rw [applyToStateMachine_eq, applyEntries_eq] at he
    exact .inl ⟨he, by simp [StorageOp.purges]⟩
  | installSnapshot snapshotMeta data flush =>
    change (t.storage.installSnapshot codec.decode snapshotMeta data flush).1.log[i]? = some e at he
    obtain ⟨state, dirty, snapshot, heq⟩ :=
      t.storage.installSnapshot_eq codec.decode snapshotMeta data flush
    rw [heq] at he
    exact .inl ⟨he, by simp [StorageOp.purges]⟩

theorem Beyond.storage {op : StorageOp} (hb : Beyond h) (hd : h.Disciplined (.storage op)) :
    Beyond (h.step codec (.storage op)) := by
  have hd : h.tracked.Disciplined op := hd
  have hmono : nextIndex h.tracked.expected ≤
      nextIndex (h.tracked.step codec.decode op).expected := hd.expected_le
  have hle : nextIndex (op.purges.or h.purged) ≤ nextIndex h.tracked.expected := by
    cases op with
    | purgeLogsUpto logId flush => exact hd
    | _ => exact hb.expected
  refine ⟨fun i e he => ?_, hle.trans hmono, fun i e he => ?_⟩
  · rcases Tracked.get_log_step he with ⟨hlog, -⟩ | ⟨entries, flush, -, -, hi⟩
    · exact hb.keyed i e hlog
    · exact hi
  · change nextIndex (op.purges.or h.purged) ≤ i.toNat
    rcases Tracked.get_log_step he with ⟨hlog, hp⟩ | ⟨entries, flush, rfl, hmem, rfl⟩
    · cases hop : op.purges with
      | none => exact hb.log i e hlog
      | some p => exact UInt64.lt_iff_toNat_lt.mp (hp p hop)
    · have hstart : max (nextIndex h.tracked.expected) _ ≤ e.logId.index.toNat := hd.le_of_mem hmem
      omega

theorem Beyond.step (hb : Beyond h) (hd : h.Disciplined op) : Beyond (h.step codec op) := by
  cases op with
  | storage op => exact hb.storage hd
  | saveVote vote flush => exact ⟨hb.keyed, hb.expected, hb.log⟩
  | saveCommitted committed => exact ⟨hb.keyed, hb.expected, hb.log⟩
  | getSnapshotBuilder => exact ⟨hb.keyed, hb.expected, hb.log⟩
  | buildSnapshot i millis =>
    simp only [Handles.step]
    split
    · exact hb
    · exact ⟨hb.keyed, hb.expected, hb.log⟩

theorem Beyond.lastApplied_step_iff (hb : Beyond h) (hd : h.Disciplined op) :
    (h.step codec op).storage.lastApplied = (h.step codec op).purged ↔
      if op.moves then op.isPurge = true else h.storage.lastApplied = h.purged := by
  cases op with
  | storage op =>
    cases op with
    | purgeLogsUpto logId flush => exact iff_of_true rfl rfl
    | applyToStateMachine entries flush =>
      have hd : h.tracked.Disciplined (.applyToStateMachine entries flush) := hd
      change (h.storage.applyToStateMachine entries flush).1.lastApplied = h.purged ↔ _
      rw [Tracked.lastApplied_applyToStateMachine]
      cases he : entries.getLast? with
      | none =>
        obtain rfl := List.getLast?_eq_none_iff.mp he
        rfl
      | some e =>
        have hne : entries ≠ [] := List.ne_nil_of_mem (List.mem_of_getLast? he)
        have hle := hb.expected.trans (hd.1.le_last he)
        have hmoves : HandleOp.moves (.storage (.applyToStateMachine entries flush)) = true := by
          simp [HandleOp.moves, hne]
        rw [if_pos hmoves]
        refine iff_of_false (fun heq => ?_) (by simp [HandleOp.isPurge])
        rw [← heq] at hle
        exact absurd hle (Nat.not_succ_le_self _)
    | appendToLog entries flush => rfl
    | deleteConflictLogsSince logId flush => rfl
    | installSnapshot snapshotMeta data flush =>
      change (h.storage.installSnapshot codec.decode snapshotMeta data flush).1.lastApplied =
        h.purged ↔ _
      rw [Tracked.lastApplied_installSnapshot]
      rfl
  | buildSnapshot i millis =>
    simp only [Handles.step]
    split <;> rfl
  | _ => rfl

theorem beyond_init {s : AutoqueuesRaftStorage} (hs : Created s) : Beyond (.init s) :=
  ⟨hs.logKeyed, le_rfl, fun _ _ _ => Nat.zero_le _⟩

theorem lastApplied_eq_purged_iff {s : AutoqueuesRaftStorage} (hs : Created s)
    (hd : Along (Handles.step codec) Handles.Disciplined (.init s) ops) :
    Beyond (exec (Handles.step codec) (.init s) ops) ∧
      ((exec (Handles.step codec) (.init s) ops).storage.lastApplied =
        (exec (Handles.step codec) (.init s) ops).purged ↔ PurgesLast ops) := by
  induction ops using List.reverseRecOn with
  | nil =>
    have hnone : s.lastApplied = none := by
      cases hs <;> rfl
    exact ⟨beyond_init hs, iff_of_true hnone (by simp [PurgesLast])⟩
  | append_singleton ops op ih =>
    obtain ⟨hops, hop, -⟩ := along_append.mp hd
    obtain ⟨hb, hiff⟩ := ih hops
    rw [exec_append, purgesLast_concat]
    refine ⟨hb.step hop, ?_⟩
    rw [exec_cons, exec_nil, hb.lastApplied_step_iff hop, hiff]

/-- In a disciplined run the reported log state is right if and only if no entries have
been applied since the last purge. -/
theorem logState_window_iff (codec : Codec OwnershipState) (s : AutoqueuesRaftStorage)
    (hs : Created s) (ops : List HandleOp)
    (hd : Along (Handles.step codec) Handles.Disciplined (.init s) ops) :
    Window (exec (Handles.step codec) (.init s) ops) ↔ PurgesLast ops := by
  obtain ⟨hb, hiff⟩ := lastApplied_eq_purged_iff hs hd
  rw [hb.window_iff, hiff]

theorem logState_window_after_purge :
    let entry (i : UInt64) : Entry := ⟨⟨⟨1, 1⟩, i⟩, .blank⟩
    let ops : List HandleOp :=
      [.storage (.appendToLog [entry 0, entry 1] (.ok ())),
        .storage (.applyToStateMachine [entry 0, entry 1] (.ok ())), .getSnapshotBuilder,
        .storage (.purgeLogsUpto ⟨⟨1, 1⟩, 0⟩ (.ok ()))]
    Along (Handles.step Plain.oxicode.state) Handles.Disciplined (.init .new) ops ∧
      Window (exec (Handles.step Plain.oxicode.state) (.init .new) ops) :=
  ⟨by decide +kernel,
    (logState_window_iff _ _ .new _ (by decide +kernel)).mpr (by decide +kernel)⟩

/-- After an entry has been applied it is reported as purged while it is in the log. -/
theorem apply_moves_last_purged :
    let entry : Entry := ⟨⟨⟨1, 1⟩, 0⟩, .blank⟩
    let ops : List HandleOp :=
      [.storage (.appendToLog [entry] (.ok ())), .storage (.applyToStateMachine [entry] (.ok ()))]
    Along (Handles.step Plain.oxicode.state) Handles.Disciplined (.init .new) ops ∧
      ¬ Window (exec (Handles.step Plain.oxicode.state) (.init .new) ops) := by
  refine ⟨by decide +kernel, fun hw => ?_⟩
  exact absurd hw.purged (by decide +kernel)

end DumbDistributedLog
