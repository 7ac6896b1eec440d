import DumbDistributedLog.Ownership.Replay
import DumbDistributedLog.Storage.Persistence

/-! # Restarts

A process that opens the directory again finds the ownership state as it was last
flushed, but no applied position: the position is in no file. The two fit together
exactly for as long as no command has been flushed. The topics survive even when they
do not: entries that are applied once more leave them as they were.
-/

namespace DumbDistributedLog

open Runs

def lastCommand (entries : List Entry) : Option LogId :=
  (entries.filter fun e => e.command.isSome).getLast?.map Entry.logId

/-- A storage over its directory, with the entries whose effects are in the ownership
state in memory and those whose effects are in its file. -/
structure Restarting where
  opened : Opened
  applied : List Entry
  saved : List Entry

namespace Restarting

def init (s : AutoqueuesRaftStorage) (dir : Directory) (saved : List Entry) : Restarting :=
  ⟨⟨s, dir⟩, saved, saved⟩

def step (codecs : Oxicode) (dataDir : String) (r : Restarting) (op : DiskOp) : Restarting :=
  let opened := r.opened.step codecs dataDir op
  match op with
  | .applyToStateMachine entries _ =>
    let applied := r.applied ++ entries
    ⟨opened, applied, if r.opened.flushes op then applied else r.saved⟩
  | .restart _ =>
    let saved := if r.opened.flushes op then r.applied else r.saved
    ⟨opened, saved, saved⟩
  | _ => ⟨opened, r.applied, r.saved⟩

end Restarting

/-- If the process stopped now, the next one would find the effects of the saved entries
and the position of the last one that has an effect. -/
def RestartExact (codecs : Oxicode) (dataDir : String) (r : Restarting) : Prop :=
  ∃ s, r.opened.directory.withPersistence codecs dataDir = .ok s ∧
    s.ownershipState = OwnershipState.new.replay r.saved ∧
    s.lastAppliedState.1 = lastCommand r.saved

structure Restarting.Noted (codecs : Oxicode) (r : Restarting) : Prop where
  valid : r.opened.Valid codecs
  applied : r.opened.storage.ownershipState = OwnershipState.new.replay r.applied
  saved : r.opened.directory.loadState codecs = .ok (OwnershipState.new.replay r.saved)
  dirty : r.opened.storage.dirty → lastCommand r.applied ≠ none

variable {codecs : Oxicode} {dataDir : String} {dir : Directory} {s : AutoqueuesRaftStorage}
  {r : Restarting} {entries : List Entry}

theorem any_command_iff : (entries.any fun e => e.command.isSome) ↔ lastCommand entries ≠ none := by
  simp [lastCommand, Option.isSome_iff_ne_none]

theorem lastCommand_append_ne_none {rest : List Entry} : lastCommand (entries ++ rest) ≠ none ↔
    lastCommand entries ≠ none ∨ lastCommand rest ≠ none := by
  rw [← any_command_iff, ← any_command_iff, ← any_command_iff, List.any_append, Bool.or_eq_true]

namespace Restarting.Noted

theorem restartExact_iff (h : Noted codecs r) :
    RestartExact codecs dataDir r ↔ lastCommand r.saved = none := by
  obtain ⟨entries, hlog⟩ := h.valid.log
  obtain ⟨vote, hvote⟩ := h.valid.vote
  constructor
  · rintro ⟨s, hs, -, hposition⟩
    obtain ⟨state, entries, vote, -, -, -, rfl⟩ := Directory.withPersistence_eq_ok.mp hs
    exact hposition.symm
  · intro hnone
    refine ⟨.withPersistence dataDir (OwnershipState.new.replay r.saved) entries vote, ?_, rfl, ?_⟩
    · exact Directory.withPersistence_eq_ok.mpr ⟨_, entries, vote, h.saved, hlog, hvote, rfl⟩
    · exact hnone.symm

theorem init (h : dir.withPersistence codecs dataDir = .ok s)
    (hs : s.ownershipState = OwnershipState.new.replay entries) :
    Noted codecs (.init s dir entries) := by
  have hvalid := Opened.Valid.of_withPersistence h
  obtain ⟨state, _, _, hstate, -, -, rfl⟩ := Directory.withPersistence_eq_ok.mp h
  obtain rfl : state = OwnershipState.new.replay entries := hs
  exact ⟨hvalid, rfl, hstate, fun hd => absurd hd Bool.false_ne_true⟩

theorem lastCommand_applied (h : Noted codecs r)
    (hd : r.opened.storage.dirty ∨ entries.any fun e => e.command.isSome) :
    lastCommand (r.applied ++ entries) ≠ none := by
  rw [lastCommand_append_ne_none]
  rcases hd with hdirty | hany
  · exact .inl (h.dirty hdirty)
  · exact .inr (any_command_iff.mp hany)

theorem apply (h : Noted codecs r) (entries : List Entry) (attempt : FlushAttempt) :
    Noted codecs (r.step codecs dataDir (.applyToStateMachine entries attempt)) := by
  have hvalid := h.valid.step dataDir (.applyToStateMachine entries attempt)
  have heq := Opened.applyToStateMachine_eq codecs h.valid.dataFile entries attempt
  have hstate : r.opened.storage.ownershipState.replay entries =
      OwnershipState.new.replay (r.applied ++ entries) := by
    rw [h.applied, OwnershipState.replay_append]
  constructor
  · exact hvalid
  · change (r.opened.applyToStateMachine codecs entries attempt).storage.ownershipState = _
    rw [heq]
    exact hstate
  · change (r.opened.applyToStateMachine codecs entries attempt).directory.loadState codecs =
      .ok (OwnershipState.new.replay
        (if r.opened.flushes (.applyToStateMachine entries attempt) then r.applied ++ entries
          else r.saved))
    rw [heq, Opened.flushes]
    split
    · rw [loadState_encode _ rfl, hstate]
    · exact h.saved
  · change (r.opened.applyToStateMachine codecs entries attempt).storage.dirty →
      lastCommand (r.applied ++ entries) ≠ none
    rw [heq]
    intro hd
    simp only [Bool.and_eq_true, Bool.or_eq_true] at hd
    exact h.lastCommand_applied hd.1

theorem restart (h : Noted codecs r) (dropped : Option FlushAttempt) :
    Noted codecs (r.step codecs dataDir (.restart dropped)) := by
  obtain ⟨s, hs⟩ := h.valid.stopped dataDir dropped
  have heq : r.opened.restart codecs dataDir dropped = ⟨s, r.opened.stopped codecs dropped⟩ := by
    rw [Opened.restart, hs]
  have hload : (r.opened.stopped codecs dropped).loadState codecs = .ok (OwnershipState.new.replay
      (if r.opened.flushes (.restart dropped) then r.applied else r.saved)) := by
    rw [Opened.stopped_eq h.valid.dataFile]
    split
    · rw [loadState_encode _ rfl, h.applied]
    · exact h.saved
  have hstate : s.ownershipState = OwnershipState.new.replay
      (if r.opened.flushes (.restart dropped) then r.applied else r.saved) := by
    obtain ⟨state, _, _, hstate, -, -, rfl⟩ := Directory.withPersistence_eq_ok.mp hs
    exact Except.ok.inj (hstate.symm.trans hload)
  have hnoted := init hs hstate
  rwa [Restarting.init, ← heq] at hnoted

theorem step (h : Noted codecs r) (op : DiskOp) : Noted codecs (r.step codecs dataDir op) := by
  have hvalid := h.valid.step dataDir op
  cases op with
  | log op =>
    obtain ⟨log, lastApplied, heq⟩ := Opened.runLog_eq r.opened.storage op
    have hstorage : (r.opened.log codecs op).storage = { r.opened.storage with log, lastApplied } :=
      heq
    refine ⟨hvalid, ?_, ?_, ?_⟩
    · change (r.opened.log codecs op).storage.ownershipState = _
      rw [hstorage]
      exact h.applied
    · change (r.opened.log codecs op).directory.loadState codecs = _
      rw [Opened.directory_log codecs h.valid.logFile]
      exact h.saved
    · change (r.opened.log codecs op).storage.dirty → _
      rw [hstorage]
      exact h.dirty
  | saveVote vote flush =>
    refine ⟨hvalid, h.applied, ?_, h.dirty⟩
    change (r.opened.saveVote codecs vote flush).directory.loadState codecs = _
    rw [Opened.directory_saveVote codecs h.valid.logFile h.valid.voteFile]
    exact h.saved
  | applyToStateMachine entries attempt => exact h.apply entries attempt
  | restart dropped => exact h.restart dropped

theorem saved_step_iff (h : Noted codecs r) (hnone : lastCommand r.saved = none) (op : DiskOp) :
    lastCommand (r.step codecs dataDir op).saved = none ↔ ¬ r.opened.flushes op := by
  cases op with
  | applyToStateMachine entries attempt =>
    change lastCommand (if r.opened.flushes _ then r.applied ++ entries else r.saved) = none ↔ _
    split
    · rename_i hf
      refine iff_of_false ?_ (not_not_intro hf)
      simp only [Opened.flushes, Bool.and_eq_true, Bool.or_eq_true] at hf
      exact h.lastCommand_applied hf.1
    · rename_i hf
      exact iff_of_true hnone hf
  | restart dropped =>
    change lastCommand (if r.opened.flushes _ then r.applied else r.saved) = none ↔ _
    split
    · rename_i hf
      refine iff_of_false ?_ (not_not_intro hf)
      cases dropped with
      | none => exact absurd hf (by simp [Opened.flushes])
      | some attempt =>
        simp only [Opened.flushes, Bool.and_eq_true] at hf
        exact h.dirty hf.1
    · rename_i hf
      exact iff_of_true hnone hf
  | log op => exact iff_of_true hnone (by simp [Opened.flushes])
  | saveVote vote flush => exact iff_of_true hnone (by simp [Opened.flushes])

theorem ownershipState_reopened (h : Noted codecs r)
    (hs : r.opened.directory.withPersistence codecs dataDir = .ok s) :
    s.ownershipState = OwnershipState.new.replay r.saved := by
  obtain ⟨state, _, _, hstate, -, -, rfl⟩ := Directory.withPersistence_eq_ok.mp hs
  exact Except.ok.inj (hstate.symm.trans h.saved)

end Restarting.Noted

open Restarting in
/-- Wherever the process stops, the next one can apply the log from its first entry: it
ends with the topics of the log applied once. -/
theorem sameTopics_restarted (h : dir.withPersistence codecs dataDir = .ok s)
    (hs : s.ownershipState = .new) (ops : List DiskOp) :
    let r := exec (step codecs dataDir) (init s dir []) ops
    ∀ reopened, r.opened.directory.withPersistence codecs dataDir = .ok reopened →
      ∀ log, r.saved <+: log →
        SameTopics (reopened.ownershipState.replay log) (OwnershipState.new.replay log) := by
  rintro r reopened hreopened _ ⟨rest, rfl⟩
  have hnoted : Noted codecs r :=
    Runs.exec_inv (I := fun r : Restarting => Noted codecs r) (fun _ op h => h.step op)
      (Noted.init h hs)
  rw [hnoted.ownershipState_reopened hreopened]
  simp only [OwnershipState.replay, List.filterMap_append]
  exact sameTopics_reapplied _ _

open Restarting in
/-- Wherever the process stops, the next one finds the position of the last saved effect
if and only if the file has no effect to begin with and nothing is ever flushed to it. -/
theorem restart_exact_iff (codecs : Oxicode) (dataDir : String) (dir : Directory)
    (s : AutoqueuesRaftStorage) (h : dir.withPersistence codecs dataDir = .ok s)
    (saved : List Entry) (hs : s.ownershipState = OwnershipState.new.replay saved)
    (ops : List DiskOp) :
    Always (step codecs dataDir) (RestartExact codecs dataDir) (init s dir saved) ops ↔
      lastCommand saved = none ∧
        Along (step codecs dataDir) (fun r op => ¬ r.opened.flushes op) (init s dir saved) ops := by
  have hinit := Noted.init h hs
  have hnoted : Along (step codecs dataDir) (fun r _ => Noted codecs r) (init s dir saved) ops :=
    along_inv (fun _ op hr => hr.step op) hinit
  have hiff : lastCommand saved = none →
      (Always (step codecs dataDir) (RestartExact codecs dataDir) (init s dir saved) ops ↔
        Along (step codecs dataDir) (fun r op => ¬ r.opened.flushes op) (init s dir saved)
          ops) := by
    intro hnone
    refine always_iff_along (fun r op hr hn => ?_) (hinit.restartExact_iff.mpr hnone) hnoted
    rw [(hn.step op).restartExact_iff]
    exact hn.saved_step_iff (hn.restartExact_iff.mp hr) op
  constructor
  · intro ha
    have hnone := hinit.restartExact_iff.mp (ha [] List.nil_prefix)
    exact ⟨hnone, (hiff hnone).mp ha⟩
  · rintro ⟨hnone, halong⟩
    exact (hiff hnone).mpr halong

/-- A process that has applied nothing but a blank entry can stop anywhere. -/
theorem restart_exact_after_blank :
    let entry : Entry := ⟨⟨⟨1, 1⟩, 0⟩, .blank⟩
    let ops : List DiskOp :=
      [.log (.appendToLog [entry] (.ok ())), .saveVote ⟨⟨1, 1⟩, true⟩ (.ok ()),
        .applyToStateMachine [entry] ⟨false, .ok ()⟩, .restart none]
    Always (Restarting.step Plain.oxicode "data") (RestartExact Plain.oxicode "data")
      (.init (.withPersistence "data" .new [] none) .empty []) ops := by
  intro entry ops
  refine (restart_exact_iff Plain.oxicode "data" .empty _ rfl [] rfl ops).mpr ⟨rfl, ?_⟩
  decide +kernel

/-- A restart after one applied command finds its effect without its position. -/
theorem restart_forgets_position :
    let entry : Entry := ⟨⟨⟨1, 1⟩, 0⟩, .normal (.claimTopic "a" 1 0)⟩
    let ops : List DiskOp :=
      [.log (.appendToLog [entry] (.ok ())), .applyToStateMachine [entry] ⟨false, .ok ()⟩]
    let r := exec (Restarting.step Plain.oxicode "data")
      (.init (.withPersistence "data" .new [] none) .empty []) ops
    let reopened := (r.opened.directory.withPersistence Plain.oxicode "data").toOption
    reopened.map (fun s => s.ownershipState.getOwner "a") = some (some 1) ∧
      reopened.map (fun s => s.lastAppliedState.1) = some none ∧
      ¬ RestartExact Plain.oxicode "data" r := by
  intro entry ops r reopened
  have hsaved : lastCommand r.saved = some entry.logId := by decide +kernel
  have hposition : reopened.map (fun s => s.lastAppliedState.1) = some none := by decide +kernel
  refine ⟨by decide +kernel, hposition, ?_⟩
  rintro ⟨s, hs, -, hexact⟩
  have hnone : s.lastAppliedState.1 = none := by
    simpa only [reopened, hs, Except.toOption, Option.map_some, Option.some.injEq] using hposition
  rw [hexact, hsaved] at hnone
  exact Option.some_ne_none _ hnone

end DumbDistributedLog
