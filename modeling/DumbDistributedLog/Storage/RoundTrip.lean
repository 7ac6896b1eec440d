import DumbDistributedLog.Library.Runs
import DumbDistributedLog.Storage.Persistence

/-! # The log and the vote on disk

The vote comes back from its file as it was written. The log comes back with every
membership entry turned into a blank one. Opening the directory again therefore gives
what is in memory exactly for as long as no membership entry is stored and no write
fails that would have changed something.
-/

namespace DumbDistributedLog

open AutoqueuesRaftStorage Runs

/-- If the directory were opened now, its log and vote would be those in memory. -/
def RoundTrip (codecs : Oxicode) (dataDir : String) (o : Opened) : Prop :=
  ∃ s, o.directory.withPersistence codecs dataDir = .ok s ∧
    s.log = o.storage.log ∧ s.readVote = o.storage.readVote

def NoMembership : LogOp → Prop
  | .appendToLog entries _ => ∀ e ∈ entries, lastAt entries e.logId.index = some e →
      e.storedMembership = none
  | _ => True

/-- A write that succeeds has no membership entry to store, and one that fails nothing to
change. -/
def Kept (s : AutoqueuesRaftStorage) : DiskOp → Prop
  | .log op => if op.flush.isOk then NoMembership op else UntouchedOn (fun _ => True) s op
  | .saveVote vote flush => flush.isOk ∨ s.vote = some vote
  | _ => True

instance : ∀ op, Decidable (NoMembership op)
  | .appendToLog entries _ => inferInstanceAs (Decidable (∀ e ∈ entries,
      lastAt entries e.logId.index = some e → e.storedMembership = none))
  | .deleteConflictLogsSince _ _ => .isTrue trivial
  | .purgeLogsUpto _ _ => .isTrue trivial

instance (p : UInt64 → Prop) [DecidablePred p] : ∀ s op, Decidable (UntouchedOn p s op)
  | s, .appendToLog entries _ => inferInstanceAs (Decidable (∀ e ∈ entries, p e.logId.index →
      s.log[e.logId.index]? = lastAt entries e.logId.index))
  | s, .deleteConflictLogsSince logId _ => inferInstanceAs (Decidable
      (∀ q ∈ s.log.toList, p q.1 → q.1 < logId.index))
  | s, .purgeLogsUpto logId _ => inferInstanceAs (Decidable
      (∀ q ∈ s.log.toList, p q.1 → logId.index < q.1))

instance : ∀ s op, Decidable (Kept s op)
  | s, .log op => inferInstanceAs (Decidable
      (if op.flush.isOk then NoMembership op else UntouchedOn (fun _ => True) s op))
  | s, .saveVote vote flush => inferInstanceAs (Decidable (flush.isOk ∨ s.vote = some vote))
  | _, .applyToStateMachine _ _ => .isTrue trivial
  | _, .restart _ => .isTrue trivial

variable {codecs : Oxicode} {dataDir : String} {o : Opened} {s : AutoqueuesRaftStorage}

section Mirror

theorem Entry.mirrored_eq_self_iff {e : Entry} : e.mirrored = e ↔ e.storedMembership = none := by
  obtain ⟨logId, payload⟩ := e
  cases payload <;>
    simp [Entry.mirrored, Entry.storedMembership, SerializableLogEntry.ofEntry,
      SerializableLogEntry.toEntry]

theorem SerializableLogEntry.storedMembership_toEntry (se : SerializableLogEntry) :
    se.toEntry.storedMembership = none := by
  obtain ⟨index, term, leaderId, command⟩ := se
  cases command <;> rfl

theorem get_insertEntries_mirrored (h : LogKeyed s) (i : UInt64) :
    (insertEntries ∅ (s.log.values.map Entry.mirrored))[i]? = s.log[i]?.map Entry.mirrored := by
  have hlast : ∀ e, lastAt (s.log.values.map Entry.mirrored) i = some e →
      s.log[i]?.map Entry.mirrored = some e := by
    intro e he
    obtain ⟨hmem, rfl⟩ := lastAt_eq_some he
    obtain ⟨e', he', rfl⟩ := List.mem_map.mp hmem
    obtain ⟨k, hk⟩ := s.log.mem_values.mp he'
    obtain rfl : e'.logId.index = k := h k e' hk
    change s.log[e'.logId.index]?.map Entry.mirrored = _
    rw [hk, Option.map_some]
  rw [get_insertEntries]
  cases hat : lastAt (s.log.values.map Entry.mirrored) i with
  | some e => rw [hlast e hat, Option.some_or]
  | none =>
    cases hi : s.log[i]? with
    | none => simp
    | some e =>
      obtain rfl := h i e hi
      have hmem : e.mirrored ∈ s.log.values.map Entry.mirrored :=
        List.mem_map_of_mem (s.log.mem_values.mpr ⟨_, hi⟩)
      obtain ⟨e', he'⟩ := lastAt_isSome hmem
      exact absurd (hat.symm.trans he') (by simp)

theorem insertEntries_mirrored_eq_iff (h : LogKeyed s) :
    insertEntries ∅ (s.log.values.map Entry.mirrored) = s.log ↔
      ∀ (i : UInt64) (e : Entry), s.log[i]? = some e → e.storedMembership = none := by
  constructor
  · intro heq i e hi
    have hget := get_insertEntries_mirrored h i
    rw [heq, hi] at hget
    exact Entry.mirrored_eq_self_iff.mp (Option.some.inj hget).symm
  · intro hnone
    refine Std.ExtTreeMap.ext_getElem? fun i => ?_
    rw [get_insertEntries_mirrored h]
    cases hi : s.log[i]? with
    | none => rfl
    | some e => rw [Option.map_some, Entry.mirrored_eq_self_iff.mpr (hnone i e hi)]

end Mirror

def LogSaved (codecs : Oxicode) (o : Opened) : Prop :=
  ∃ entries, o.directory.loadLog codecs = .ok entries ∧ insertEntries ∅ entries = o.storage.log

def VoteSaved (codecs : Oxicode) (o : Opened) : Prop :=
  o.directory.loadVote codecs = .ok o.storage.vote

theorem Opened.Valid.roundTrip_iff (h : o.Valid codecs) :
    RoundTrip codecs dataDir o ↔ LogSaved codecs o ∧ VoteSaved codecs o := by
  constructor
  · rintro ⟨s, hs, hlog, hvote⟩
    obtain ⟨state, entries, vote, -, hentries, hv, rfl⟩ := Directory.withPersistence_eq_ok.mp hs
    refine ⟨⟨entries, hentries, hlog⟩, ?_⟩
    rw [VoteSaved, hv]
    exact congrArg _ hvote
  · rintro ⟨⟨entries, hentries, hlog⟩, hvote⟩
    obtain ⟨state, hstate⟩ := h.state
    exact ⟨_, Directory.withPersistence_eq_ok.mpr ⟨state, entries, _, hstate, hentries, hvote, rfl⟩,
      hlog, rfl⟩

theorem LogSaved.storedMembership (h : LogSaved codecs o) (i : UInt64) (e : Entry)
    (he : o.storage.log[i]? = some e) : e.storedMembership = none := by
  obtain ⟨entries, hload, hlog⟩ := h
  rw [← hlog, get_insertEntries] at he
  have hmem : e ∈ entries := (lastAt_eq_some (by simpa using he)).1
  unfold Directory.loadLog at hload
  cases hfile : o.directory.raftLog with
  | none =>
    rw [hfile] at hload
    obtain rfl : [] = entries := Except.ok.inj hload
    exact absurd hmem (by simp)
  | some buffer =>
    rw [hfile] at hload
    simp only [loadIfExists, loadLogFromFile] at hload
    cases hread : readFile codecs.log.decode .logs buffer with
    | error err => simp [hread, Except.map] at hload
    | ok ses =>
      rw [hread] at hload
      obtain rfl : ses.map SerializableLogEntry.toEntry = entries := Except.ok.inj hload
      obtain ⟨se, -, rfl⟩ := List.mem_map.mp hmem
      exact se.storedMembership_toEntry

theorem noMembership_iff {op : LogOp}
    (h : ∀ (i : UInt64) (e : Entry), s.log[i]? = some e → e.storedMembership = none) :
    (∀ (i : UInt64) (e : Entry), (s.runLog op).log[i]? = some e → e.storedMembership = none) ↔
      NoMembership op := by
  cases op with
  | appendToLog entries flush =>
    simp only [runLog, appendToLog, get_insertEntries, NoMembership, Option.or_eq_some_iff]
    constructor
    · intro hall e _ hlast
      exact hall e.logId.index e (.inl hlast)
    · rintro hno i e (hlast | ⟨-, hlog⟩)
      · obtain ⟨hmem, rfl⟩ := lastAt_eq_some hlast
        exact hno e hmem hlast
      · exact h i e hlog
  | deleteConflictLogsSince logId flush =>
    refine iff_of_true (fun i e he => ?_) trivial
    simp only [runLog, deleteConflictLogsSince, Table.get_filter, Option.filter_eq_some_iff] at he
    exact h i e he.1
  | purgeLogsUpto logId flush =>
    refine iff_of_true (fun i e he => ?_) trivial
    simp only [runLog, purgeLogsUpto, Table.get_filter, Option.filter_eq_some_iff] at he
    exact h i e he.1

theorem LogSaved.log_iff (h : LogSaved codecs o) (hv : o.Valid codecs) (op : LogOp) :
    LogSaved codecs (o.log codecs op) ↔ Kept o.storage (.log op) := by
  have hdir := Opened.directory_log codecs hv.logFile op
  have hstorage : (o.log codecs op).storage = o.storage.runLog op := rfl
  unfold LogSaved
  rw [hdir, hstorage, Kept]
  by_cases hok : op.flush.isOk
  · rw [if_pos hok, if_pos hok, loadLog_encode _ rfl, ← noMembership_iff h.storedMembership,
      ← insertEntries_mirrored_eq_iff (hv.keyed.runLog op)]
    constructor
    · rintro ⟨entries, hload, heq⟩
      rwa [← Except.ok.inj hload] at heq
    · intro heq
      exact ⟨_, rfl, heq⟩
  · obtain ⟨entries, hload, hlog⟩ := h
    rw [if_neg hok, if_neg hok, ← log_runLog_eq_iff, eq_comm, ← hlog]
    constructor
    · rintro ⟨entries', hload', heq⟩
      rwa [← Except.ok.inj (hload.symm.trans hload')] at heq
    · intro heq
      exact ⟨entries, hload, heq⟩

theorem VoteSaved.saveVote_iff (h : VoteSaved codecs o) (hv : o.Valid codecs) (vote : Vote)
    (flush : Except StorageError Unit) :
    VoteSaved codecs (o.saveVote codecs vote flush) ↔ Kept o.storage (.saveVote vote flush) := by
  have hstorage : (o.saveVote codecs vote flush).storage.vote = some vote := rfl
  unfold VoteSaved
  rw [Opened.directory_saveVote codecs hv.logFile hv.voteFile, hstorage, Kept]
  by_cases hok : flush.isOk
  · rw [if_pos hok, loadVote_encode vote rfl]
    exact iff_of_true rfl (.inl hok)
  · rw [if_neg hok, or_iff_right hok]
    change o.directory.loadVote codecs = _ ↔ _
    rw [h, Except.ok.injEq]

theorem RoundTrip.step_iff (h : RoundTrip codecs dataDir o) (hv : o.Valid codecs) (op : DiskOp) :
    RoundTrip codecs dataDir (o.step codecs dataDir op) ↔ Kept o.storage op := by
  rw [(hv.step dataDir op).roundTrip_iff]
  obtain ⟨hlog, hvote⟩ := hv.roundTrip_iff.mp h
  cases op with
  | log op =>
    have hvote' : VoteSaved codecs (o.log codecs op) := by
      obtain ⟨log, lastApplied, heq⟩ := Opened.runLog_eq o.storage op
      have hstorage : (o.log codecs op).storage.vote = o.storage.vote := by
        change (o.storage.runLog op).vote = _
        rw [heq]
      rw [VoteSaved, hstorage, Opened.directory_log codecs hv.logFile]
      exact hvote
    rw [← hlog.log_iff hv op]
    exact and_iff_left hvote'
  | saveVote vote flush =>
    have hlog' : LogSaved codecs (o.saveVote codecs vote flush) := by
      rw [LogSaved, Opened.directory_saveVote codecs hv.logFile hv.voteFile]
      exact hlog
    rw [← hvote.saveVote_iff hv vote flush]
    exact and_iff_right hlog'
  | applyToStateMachine entries attempt =>
    refine iff_of_true ?_ trivial
    change LogSaved codecs (o.applyToStateMachine codecs entries attempt) ∧
      VoteSaved codecs (o.applyToStateMachine codecs entries attempt)
    rw [Opened.applyToStateMachine_eq codecs hv.dataFile]
    exact ⟨hlog, hvote⟩
  | restart dropped =>
    refine iff_of_true ?_ trivial
    obtain ⟨s, hs⟩ := hv.stopped dataDir dropped
    change LogSaved codecs (o.restart codecs dataDir dropped) ∧
      VoteSaved codecs (o.restart codecs dataDir dropped)
    rw [Opened.restart, hs]
    obtain ⟨state, entries, vote, -, hentries, hv, rfl⟩ := Directory.withPersistence_eq_ok.mp hs
    exact ⟨⟨entries, hentries, rfl⟩, hv⟩

/-- Over any directory that opens, the log and the vote in memory are always those that
the next process finds if and only if every operation keeps to what the files can hold. -/
theorem roundTrip_always_iff (codecs : Oxicode) (dataDir : String) (dir : Directory)
    (s : AutoqueuesRaftStorage) (h : dir.withPersistence codecs dataDir = .ok s)
    (ops : List DiskOp) :
    Always (Opened.step codecs dataDir) (RoundTrip codecs dataDir) ⟨s, dir⟩ ops ↔
      Along (Opened.step codecs dataDir) (fun o op => Kept o.storage op) ⟨s, dir⟩ ops := by
  have hvalid : Along (Opened.step codecs dataDir) (fun o _ => o.Valid codecs) ⟨s, dir⟩ ops :=
    along_inv (fun _ op hv => hv.step dataDir op) (.of_withPersistence h)
  exact always_iff_along (fun o op hr hv => hr.step_iff hv op) ⟨s, h, rfl, rfl⟩ hvalid

theorem roundTrip_of_commands :
    let entry (i : UInt64) : Entry := ⟨⟨⟨1, 1⟩, i⟩, .normal (.claimTopic "a" 1 0)⟩
    let ops : List DiskOp :=
      [.saveVote ⟨⟨1, 1⟩, true⟩ (.ok ()), .log (.appendToLog [entry 0, entry 1, entry 2] (.ok ())),
        .log (.deleteConflictLogsSince ⟨⟨1, 1⟩, 2⟩ (.ok ())),
        .log (.purgeLogsUpto ⟨⟨1, 1⟩, 0⟩ (.ok ())), .restart none]
    Always (Opened.step Plain.oxicode "data") (RoundTrip Plain.oxicode "data")
      ⟨.withPersistence "data" .new [] none, .empty⟩ ops := by
  intro entry ops
  refine (roundTrip_always_iff Plain.oxicode "data" .empty _ rfl ops).mpr ?_
  decide +kernel

/-- A membership entry comes back as a blank one. -/
theorem membership_entry_comes_back_blank :
    let entry : Entry := ⟨⟨⟨1, 1⟩, 0⟩, .membership ⟨[[1]], [(1, "n1")]⟩⟩
    let o := (⟨.withPersistence "data" .new [] none, .empty⟩ : Opened).step Plain.oxicode "data"
      (.log (.appendToLog [entry] (.ok ())))
    let reopened := (o.directory.withPersistence Plain.oxicode "data").toOption
    o.storage.log[(0 : UInt64)]? = some entry ∧
      reopened.map (fun s => s.log[(0 : UInt64)]?) = some (some ⟨entry.logId, .blank⟩) ∧
      ¬ RoundTrip Plain.oxicode "data" o := by
  intro entry o reopened
  have hmemory : o.storage.log[(0 : UInt64)]? = some entry := by decide +kernel
  have hdisk : reopened.map (fun s => s.log[(0 : UInt64)]?) =
      some (some ⟨entry.logId, .blank⟩) := by decide +kernel
  refine ⟨hmemory, hdisk, ?_⟩
  rintro ⟨s, hs, hlog, -⟩
  have hblank : s.log[(0 : UInt64)]? = some ⟨entry.logId, .blank⟩ := by
    simpa only [reopened, hs, Except.toOption, Option.map_some, Option.some.injEq] using hdisk
  rw [hlog, hmemory] at hblank
  exact absurd hblank (by decide)

end DumbDistributedLog
