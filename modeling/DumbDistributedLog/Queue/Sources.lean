import DumbDistributedLog.Library.Runs
import DumbDistributedLog.Library.Tables
import DumbDistributedLog.Queue.Spmc
import Mathlib.Data.Rat.Defs

/-! # Sources of queues

A source calls a function at every tick and publishes what it returns. Its task looks at the flags
of the source at two places of its loop only, so a call of `pause` or `remove` may come too late
for one value. The registry starts the sources and keeps them under the names of their queues, but
nothing it does reaches a source again.
-/

namespace DumbDistributedLog.Sources

open Runs Spmc

variable {T : Type*} {N : ℕ}

/-- How often a source is polled. A source that is adaptive uses its first interval throughout. -/
inductive IntervalConfig where
  | constant (ms : UInt64)
  | adaptive (initialMs : UInt64)

def IntervalConfig.durationMs : IntervalConfig → UInt64
  | .constant ms => ms
  | .adaptive initialMs => initialMs

/-- Where the task of a source is in its loop, with the value it holds. -/
inductive TaskState (T : Type*) where
  | checkStop
  | waitTick
  | checkPaused
  | calling
  | publishing (result : T)
  | persisting (result : T)
  | ended

namespace TaskState

def unpublished : TaskState T → List T
  | .publishing result => [result]
  | _ => []

def unpersisted : TaskState T → List T
  | .publishing result | .persisting result => [result]
  | _ => []

/-- The calls of the function that the task makes before it looks whether it should stop. -/
def callsBeforeStop : TaskState T → ℕ
  | .waitTick | .checkPaused | .calling => 1
  | _ => 0

/-- The calls of the function that the task makes before it looks whether it is paused. -/
def callsBeforePause : TaskState T → ℕ
  | .calling => 1
  | _ => 0

/-- How many turns the task takes until it looks whether it should stop, and ends. -/
def turnsBeforeStop : TaskState T → ℕ
  | .ended => 0
  | .checkStop => 1
  | .persisting _ => 2
  | .publishing _ => 3
  | .calling => 4
  | .checkPaused => 5
  | .waitTick => 6

theorem turnsBeforeStop_le (task : TaskState T) : task.turnsBeforeStop ≤ 6 := by
  cases task <;> simp [turnsBeforeStop]

theorem eq_ended {task : TaskState T} (h : task.turnsBeforeStop = 0) : task = .ended := by
  cases task <;> first | rfl | cases h

end TaskState

/-- A source with its task, the queue it publishes to, and what has come out of the function, has
been published with a timestamp, and has been handed over to be persisted. -/
structure FunctionSource (T : Type*) (N : ℕ) where
  paused : Bool
  shouldStop : Bool
  task : TaskState T
  queue : SPMCLockFreeQueue T N
  poisoned : Bool
  results : List T
  published : List (UInt64 × T)
  persisted : List ℚ

/-- The turns of the task, in which the function returns a value or panics, a panic of someone
who holds the lock of the queue, and the calls that control the source. -/
inductive SourceStep (T : Type*) where
  | turn (now : UInt64) (result : Option T)
  | poison
  | pause
  | resume
  | remove

def SourceStep.isTurn : SourceStep T → Bool
  | .turn _ _ => true
  | _ => false

def SourceStep.isResume : SourceStep T → Bool
  | .resume => true
  | _ => false

namespace FunctionSource

/-- A source with these flags whose task has come to its loop. -/
def started (paused shouldStop : Bool) : FunctionSource T N where
  paused
  shouldStop
  task := .checkStop
  queue := .new
  poisoned := false
  results := []
  published := []
  persisted := []

/-- A source that is started with this interval. The ticks of `tokio` panic on a period of zero, so
the task ends before its loop. -/
def start (interval : IntervalConfig) (paused shouldStop : Bool) : FunctionSource T N :=
  { started paused shouldStop with
    task := if interval.durationMs = 0 then .ended else .checkStop }

variable (convertToF64 : T → Option ℚ) (persistence : Bool) (s : FunctionSource T N)

def persist (result : T) : Option ℚ := if persistence then convertToF64 result else none

/-- The task goes on to its next `await` or to its next access to what it shares. -/
def turn (now : UInt64) (result : Option T) : FunctionSource T N :=
  match s.task with
  | .checkStop => { s with task := if s.shouldStop then .ended else .waitTick }
  | .waitTick => { s with task := .checkPaused }
  | .checkPaused => { s with task := if s.paused then .checkStop else .calling }
  | .calling =>
    match result with
    | none => { s with task := .ended }
    | some value => { s with task := .publishing value, results := s.results ++ [value] }
  | .publishing value =>
    if s.poisoned then { s with task := .persisting value }
    else { s with
      task := .persisting value
      queue := s.queue.push now value
      published := s.published ++ [(now, value)] }
  | .persisting value => { s with
      task := .checkStop
      persisted := s.persisted ++ (persist convertToF64 persistence value).toList }
  | .ended => s

def step : SourceStep T → FunctionSource T N
  | .turn now result => s.turn convertToF64 persistence now result
  | .poison => { s with poisoned := true }
  | .pause => { s with paused := true }
  | .resume => { s with paused := false }
  | .remove => { s with shouldStop := true }

/-- What the function returned has been published in this order, up to the moment when the lock of
the queue was poisoned, and all of it is persisted. -/
structure Sound : Prop where
  queue : s.queue = .filled N s.published
  published : ∃ lost, s.results = s.published.map (·.2) ++ lost ++ s.task.unpublished ∧
    (s.poisoned = false → lost = [])
  persisted : s.results.filterMap (persist convertToF64 persistence) =
    s.persisted ++ s.task.unpersisted.filterMap (persist convertToF64 persistence)

variable {convertToF64 persistence s}

theorem sound_started (paused shouldStop : Bool) :
    (started paused shouldStop : FunctionSource T N).Sound convertToF64 persistence where
  queue := rfl
  published := ⟨[], rfl, fun _ => rfl⟩
  persisted := rfl

theorem Sound.goOn (hs : s.Sound convertToF64 persistence) {task : TaskState T}
    (hpublished : task.unpublished = s.task.unpublished)
    (hpersisted : task.unpersisted = s.task.unpersisted) :
    ({ s with task } : FunctionSource T N).Sound convertToF64 persistence := by
  refine ⟨hs.queue, ?_, ?_⟩
  · rw [hpublished]
    exact hs.published
  · rw [hpersisted]
    exact hs.persisted

theorem sound_turn (hs : s.Sound convertToF64 persistence) (now : UInt64) (result : Option T) :
    (s.turn convertToF64 persistence now result).Sound convertToF64 persistence := by
  obtain ⟨lost, hpublished, hlost⟩ := hs.published
  have hpersisted := hs.persisted
  unfold turn
  cases htask : s.task with
  | checkStop => refine hs.goOn ?_ ?_ <;> rw [htask] <;> split_ifs <;> rfl
  | waitTick => exact hs.goOn (htask ▸ rfl) (htask ▸ rfl)
  | checkPaused => refine hs.goOn ?_ ?_ <;> rw [htask] <;> split_ifs <;> rfl
  | calling =>
    rw [htask] at hpublished hpersisted
    cases result with
    | none => exact hs.goOn (htask ▸ rfl) (htask ▸ rfl)
    | some value =>
      simp only [TaskState.unpublished, TaskState.unpersisted, List.append_nil,
        List.filterMap_nil] at hpublished hpersisted
      refine ⟨hs.queue, ⟨lost, ?_, hlost⟩, ?_⟩
      · simp [hpublished, TaskState.unpublished]
      · simp only [List.filterMap_append, hpersisted, TaskState.unpersisted]
  | publishing value =>
    rw [htask] at hpublished hpersisted
    simp only
    split_ifs with hpoisoned
    · refine ⟨hs.queue, ⟨lost ++ [value], ?_, fun h => ?_⟩, hpersisted⟩
      · simp [hpublished, TaskState.unpublished]
      · exact absurd (hpoisoned.symm.trans h) nofun
    · obtain rfl := hlost (Bool.not_eq_true _ ▸ hpoisoned)
      refine ⟨?_, ⟨[], ?_, fun _ => rfl⟩, hpersisted⟩
      · simp [hs.queue, SPMCLockFreeQueue.filled]
      · simp [hpublished, TaskState.unpublished]
  | persisting value =>
    rw [htask] at hpublished hpersisted
    refine ⟨hs.queue, ⟨lost, hpublished, hlost⟩, ?_⟩
    rw [hpersisted]
    simp only [TaskState.unpersisted, List.filterMap_cons, List.filterMap_nil, List.append_nil]
    cases persist convertToF64 persistence value <;> rfl
  | ended => exact hs

theorem sound_step (hs : s.Sound convertToF64 persistence) (a : SourceStep T) :
    (s.step convertToF64 persistence a).Sound convertToF64 persistence := by
  cases a with
  | turn now result => exact sound_turn hs now result
  | poison =>
    obtain ⟨lost, hpublished, -⟩ := hs.published
    exact ⟨hs.queue, ⟨lost, hpublished, nofun⟩, hs.persisted⟩
  | pause | resume | remove => exact ⟨hs.queue, hs.published, hs.persisted⟩

/-- However the source is controlled, its values are published and persisted in the order in which
the function returned them, each of them once, and the queue holds the last of them. A value can be
persisted that was not published, namely when the lock of the queue has been poisoned. -/
theorem values_in_order (convertToF64 : T → Option ℚ) (persistence paused shouldStop : Bool)
    (steps : List (SourceStep T)) :
    let s : FunctionSource T N :=
      exec (step convertToF64 persistence) (started paused shouldStop) steps
    s.queue = .filled N s.published ∧
    (∃ lost, s.results = s.published.map (·.2) ++ lost ++ s.task.unpublished ∧
      (s.poisoned = false → lost = [])) ∧
    s.results.filterMap (persist convertToF64 persistence) =
      s.persisted ++ s.task.unpersisted.filterMap (persist convertToF64 persistence) := by
  intro s
  have hs : s.Sound convertToF64 persistence :=
    exec_inv (fun _ a h => sound_step h a) (sound_started paused shouldStop)
  exact ⟨hs.queue, hs.published, hs.persisted⟩

section Control

variable {count turns : ℕ}

structure Stopping (count turns : ℕ) (s : FunctionSource T N) : Prop where
  shouldStop : s.shouldStop = true
  calls : s.results.length + s.task.callsBeforeStop ≤ count
  turns : s.task.turnsBeforeStop ≤ turns

theorem stopping_turn (hs : s.Stopping count turns) (now : UInt64) (result : Option T) :
    (s.turn convertToF64 persistence now result).Stopping count (turns - 1) := by
  obtain ⟨hstop, hcalls, hturns⟩ := hs
  unfold turn
  cases htask : s.task <;>
    simp only [htask, TaskState.callsBeforeStop, TaskState.turnsBeforeStop] at hcalls hturns
  case checkStop =>
    simp only [hstop, if_true]
    exact ⟨rfl, hcalls, Nat.zero_le _⟩
  case waitTick => exact ⟨hstop, hcalls, Nat.le_sub_one_of_lt hturns⟩
  case checkPaused =>
    refine ⟨hstop, ?_, ?_⟩ <;> dsimp only <;> split_ifs <;>
      simp only [TaskState.callsBeforeStop, TaskState.turnsBeforeStop] <;> omega
  case calling =>
    cases result with
    | none => exact ⟨hstop, Nat.le_of_succ_le hcalls, Nat.zero_le _⟩
    | some value =>
      refine ⟨hstop, ?_, Nat.le_sub_one_of_lt hturns⟩
      simpa [TaskState.callsBeforeStop] using hcalls
  case publishing =>
    dsimp only
    split_ifs <;> exact ⟨hstop, hcalls, Nat.le_sub_one_of_lt hturns⟩
  case persisting => exact ⟨hstop, hcalls, Nat.le_sub_one_of_lt hturns⟩
  case ended =>
    refine ⟨hstop, ?_, ?_⟩
    · rw [htask]
      exact hcalls
    · rw [htask]
      exact Nat.zero_le _

theorem stopping_exec (hs : s.Stopping count turns) (steps : List (SourceStep T)) :
    (exec (step convertToF64 persistence) s steps).Stopping count
      (turns - steps.countP SourceStep.isTurn) := by
  induction steps generalizing s turns with
  | nil => exact hs
  | cons a steps ih =>
    cases a with
    | turn now result =>
      rw [List.countP_cons_of_pos rfl, Nat.add_comm, ← Nat.sub_sub]
      exact ih (stopping_turn hs now result)
    | poison | pause | resume => exact ih ⟨hs.shouldStop, hs.calls, hs.turns⟩
    | remove => exact ih ⟨rfl, hs.calls, hs.turns⟩

structure Pausing (count : ℕ) (s : FunctionSource T N) : Prop where
  paused : s.paused = true
  calls : s.results.length + s.task.callsBeforePause ≤ count

theorem pausing_step (hs : s.Pausing count) {a : SourceStep T} (ha : a.isResume = false) :
    (s.step convertToF64 persistence a).Pausing count := by
  obtain ⟨hpaused, hcalls⟩ := hs
  cases a with
  | poison => exact ⟨hpaused, hcalls⟩
  | pause => exact ⟨rfl, hcalls⟩
  | resume => cases ha
  | remove => exact ⟨hpaused, hcalls⟩
  | turn now result =>
    simp only [step]
    unfold turn
    cases htask : s.task <;> simp only [htask, TaskState.callsBeforePause] at hcalls
    case checkStop =>
      refine ⟨hpaused, ?_⟩
      dsimp only
      split_ifs <;> exact hcalls
    case checkPaused =>
      simp only [hpaused, if_true]
      exact ⟨rfl, hcalls⟩
    case calling =>
      cases result with
      | none => exact ⟨hpaused, Nat.le_of_succ_le hcalls⟩
      | some value => exact ⟨hpaused, by simpa [TaskState.callsBeforePause] using hcalls⟩
    case publishing =>
      dsimp only
      split_ifs <;> exact ⟨hpaused, hcalls⟩
    case ended => exact ⟨hpaused, by simpa only [htask, TaskState.callsBeforePause]⟩
    all_goals exact ⟨hpaused, hcalls⟩

/-- After `remove`, and after `pause` until it is resumed, the function is called at most once
more, and only if the task has already passed the place where it looks. After `remove` the task
ends within six turns. -/
theorem control_in_time (convertToF64 : T → Option ℚ) (persistence : Bool)
    (s : FunctionSource T N) (steps : List (SourceStep T)) :
    let run := exec (step (N := N) convertToF64 persistence)
    ((run s (.remove :: steps)).results.length ≤ s.results.length + s.task.callsBeforeStop ∧
      (6 ≤ steps.countP SourceStep.isTurn → (run s (.remove :: steps)).task = .ended)) ∧
    (steps.all (!·.isResume) →
      (run s (.pause :: steps)).results.length ≤ s.results.length + s.task.callsBeforePause) := by
  intro run
  have hremove : (s.step convertToF64 persistence .remove).Stopping
      (s.results.length + s.task.callsBeforeStop) 6 :=
    ⟨rfl, le_refl _, s.task.turnsBeforeStop_le⟩
  have hstopping : (run s (.remove :: steps)).Stopping _ _ := stopping_exec hremove steps
  refine ⟨⟨?_, fun hturns => ?_⟩, fun hresume => ?_⟩
  · exact Nat.le_of_add_right_le hstopping.calls
  · have hzero := hstopping.turns
    exact TaskState.eq_ended (by omega)
  · have hpause : (s.step convertToF64 persistence .pause).Pausing
        (s.results.length + s.task.callsBeforePause) := ⟨rfl, le_refl _⟩
    have halong : Along (step convertToF64 persistence)
        (fun _ a => a.isResume = false) (s.step convertToF64 persistence .pause) steps :=
      along_of_forall fun a ha _ => by simpa using List.all_eq_true.mp hresume a ha
    have hpausing := halong.exec_inv (I := Pausing _) (fun _ _ h ha => pausing_step h ha) hpause
    exact Nat.le_of_add_right_le hpausing.calls

end Control

theorem flags_turn (convertToF64 : T → Option ℚ) (persistence : Bool) (s : FunctionSource T N)
    (now : UInt64) (result : Option T) :
    (s.turn convertToF64 persistence now result).paused = s.paused ∧
      (s.turn convertToF64 persistence now result).shouldStop = s.shouldStop := by
  unfold turn
  split
  case h_4 => cases result <;> exact ⟨rfl, rfl⟩
  case h_5 => split_ifs <;> exact ⟨rfl, rfl⟩
  all_goals exact ⟨rfl, rfl⟩

theorem turn_of_ended (h : s.task = .ended) (now : UInt64) (result : Option T) :
    s.turn convertToF64 persistence now result = s := by
  simp only [turn, h]

theorem not_ended_turn (hstop : s.shouldStop = false) (htask : s.task ≠ .ended) (now : UInt64)
    (result : T) : (s.turn convertToF64 persistence now (some result)).task ≠ .ended := by
  unfold turn
  split
  case h_1 => simp [hstop]
  case h_3 => dsimp only; split_ifs <;> nofun
  case h_5 => split_ifs <;> nofun
  case h_7 h => exact absurd h htask
  all_goals nofun

end FunctionSource

inductive AutoQueuesError where
  | queueError (message : String)
  | sourceError (message : String)
  | queueNotFound (name : String)
  deriving DecidableEq, Repr

/-- A source that the registry has started, with the name of its queue, the type of its values and
whether they are persisted. -/
structure Registered (T : Type*) (N : ℕ) where
  name : String
  kind : String
  persistence : Bool
  source : FunctionSource T N

/-- The registry and the sources that it has started, by which the maps refer to the queue of a
source and to the source. Calls of `add_queue` and `remove` that are not finished have yet to
change one or both of the maps. -/
structure QueueRegistry (T : Type*) (N : ℕ) where
  queues : Table String ℕ
  sources : Table String ℕ
  started : List (Registered T N)
  storingQueue : List (String × ℕ)
  storingSource : List (String × ℕ)
  removing : List String

/-- The calls of the registry in the steps in which others see them, and the turns of the tasks
that it has started. A source can have been paused or stopped before it is added. -/
inductive RegistryStep (T : Type*) where
  | addQueue (name kind : String) (paused shouldStop enablePersistence : Bool)
      (interval : IntervalConfig) (enabled : Except String Unit)
  | storeQueue (i : ℕ)
  | storeSource (i : ℕ)
  | pause (name : String)
  | resume (name : String)
  | remove (name : String)
  | removeSource (i : ℕ)
  | turn (n : ℕ) (now : UInt64) (result : Option T)
  | poison (n : ℕ)

def RegistryStep.own (n : ℕ) : RegistryStep T → Option (SourceStep T)
  | .turn m now result => if m = n then some (.turn now result) else none
  | .poison m => if m = n then some .poison else none
  | _ => none

namespace QueueRegistry

def new : QueueRegistry T N := ⟨∅, ∅, [], [], [], []⟩

variable (convertToF64 : T → Option ℚ) (r : QueueRegistry T N)

/-- The source that is started, unless its values should be persisted and cannot be. -/
def registered (name kind : String) (paused shouldStop enablePersistence : Bool)
    (interval : IntervalConfig) (enabled : Except String Unit) :
    Except AutoQueuesError (Registered T N) :=
  match enablePersistence, enabled with
  | true, .error e => .error (.sourceError ("Persistence error: " ++ e))
  | _, _ => .ok ⟨name, kind, enablePersistence, .start interval paused shouldStop⟩

def addQueue (name kind : String) (paused shouldStop enablePersistence : Bool)
    (interval : IntervalConfig) (enabled : Except String Unit) : QueueRegistry T N :=
  match registered name kind paused shouldStop enablePersistence interval enabled with
  | .error _ => r
  | .ok source =>
    { r with
      started := r.started ++ [source]
      storingQueue := r.storingQueue ++ [(name, r.started.length)] }

def storeQueue (i : ℕ) : QueueRegistry T N :=
  match r.storingQueue[i]? with
  | none => r
  | some (name, n) =>
    { r with
      queues := r.queues.insert name n
      storingQueue := r.storingQueue.eraseIdx i
      storingSource := r.storingSource ++ [(name, n)] }

def storeSource (i : ℕ) : QueueRegistry T N :=
  match r.storingSource[i]? with
  | none => r
  | some (name, n) =>
    { r with
      sources := r.sources.insert name n
      storingSource := r.storingSource.eraseIdx i }

def removeSource (i : ℕ) : QueueRegistry T N :=
  match r.removing[i]? with
  | none => r
  | some name =>
    { r with sources := r.sources.erase name, removing := r.removing.eraseIdx i }

def runSource (n : ℕ) (a : SourceStep T) : QueueRegistry T N :=
  { r with
    started := r.started.modify n fun s =>
      { s with source := s.source.step convertToF64 s.persistence a } }

def getQueue (kind name : String) : Except AutoQueuesError ℕ :=
  match r.queues[name]? with
  | none => .error (.queueNotFound name)
  | some n =>
    if (r.started[n]?.map Registered.kind) = some kind then .ok n
    else .error (.queueError "Queue type mismatch")

def step : RegistryStep T → QueueRegistry T N
  | .addQueue name kind paused shouldStop enablePersistence interval enabled =>
    r.addQueue name kind paused shouldStop enablePersistence interval enabled
  | .storeQueue i => r.storeQueue i
  | .storeSource i => r.storeSource i
  -- The sources are looked up, and a line is printed.
  | .pause _ => r
  | .resume _ => r
  | .remove name =>
    { r with queues := r.queues.erase name, removing := r.removing ++ [name] }
  | .removeSource i => r.removeSource i
  | .turn n now result => r.runSource convertToF64 n (.turn now result)
  | .poison n => r.runSource convertToF64 n .poison

variable {convertToF64 r} {n : ℕ} {s : Registered T N} {a : RegistryStep T}

theorem registered_eq {name kind : String} {paused shouldStop enablePersistence : Bool}
    {interval : IntervalConfig} {enabled : Except String Unit}
    (h : registered name kind paused shouldStop enablePersistence interval enabled = .ok s) :
    s = ⟨name, kind, enablePersistence, .start interval paused shouldStop⟩ := by
  unfold registered at h
  split at h <;> cases h
  rfl

theorem started_runSource (m : ℕ) (b : SourceStep T) (hn : r.started[n]? = some s) :
    (r.runSource convertToF64 m b).started[n]? = some { s with
      source := exec (FunctionSource.step convertToF64 s.persistence) s.source
        (if m = n then [b] else []) } := by
  simp only [runSource, List.getElem?_modify, hn]
  split_ifs <;> rfl

theorem started_step (hn : r.started[n]? = some s) :
    (r.step convertToF64 a).started[n]? = some { s with
      source := exec (FunctionSource.step convertToF64 s.persistence) s.source
        (a.own n).toList } := by
  cases a with
  | addQueue name kind paused shouldStop enablePersistence interval enabled =>
    simp only [step, addQueue]
    split
    · exact hn
    · rw [List.getElem?_append_left (List.getElem?_eq_some_iff.mp hn).1]
      exact hn
  | storeQueue i =>
    simp only [step, storeQueue]
    split <;> exact hn
  | storeSource i =>
    simp only [step, storeSource]
    split <;> exact hn
  | removeSource i =>
    simp only [step, removeSource]
    split <;> exact hn
  | pause name | resume name | remove name => exact hn
  | turn m now result =>
    have hown : (RegistryStep.own n (.turn m now result)).toList =
        if m = n then [SourceStep.turn now result] else [] := by
      simp only [RegistryStep.own]
      split_ifs <;> rfl
    rw [hown]
    exact started_runSource m _ hn
  | poison m =>
    have hown : (RegistryStep.own (T := T) n (.poison m)).toList =
        if m = n then [SourceStep.poison] else [] := by
      simp only [RegistryStep.own]
      split_ifs <;> rfl
    rw [hown]
    exact started_runSource m _ hn

theorem added_of_started_step (hold : r.started[n]? = none)
    (hnew : (r.step convertToF64 a).started[n]? = some s) :
    r.started.length = n ∧ ∃ paused shouldStop interval enabled,
      a = .addQueue s.name s.kind paused shouldStop s.persistence interval enabled ∧
      s.source = .start interval paused shouldStop := by
  cases a with
  | addQueue name kind paused shouldStop enablePersistence interval enabled =>
    simp only [step, addQueue] at hnew
    split at hnew
    · rw [hold] at hnew
      cases hnew
    next s' hs' =>
      have hle : r.started.length ≤ n := List.getElem?_eq_none_iff.mp hold
      have hlt := (List.getElem?_eq_some_iff.mp hnew).1
      rw [List.length_append, List.length_singleton] at hlt
      rw [List.getElem?_append_right hle] at hnew
      obtain rfl := List.mem_singleton.mp (List.mem_of_getElem? hnew)
      obtain rfl := registered_eq hs'
      exact ⟨by omega, paused, shouldStop, interval, enabled, rfl, rfl⟩
  | storeQueue i =>
    simp only [step, storeQueue] at hnew
    split at hnew <;> cases hold.symm.trans hnew
  | storeSource i =>
    simp only [step, storeSource] at hnew
    split at hnew <;> cases hold.symm.trans hnew
  | removeSource i =>
    simp only [step, removeSource] at hnew
    split at hnew <;> cases hold.symm.trans hnew
  | pause name | resume name | remove name => cases hold.symm.trans hnew
  | turn m now result =>
    simp [step, runSource, List.getElem?_modify, hold] at hnew
  | poison m =>
    simp [step, runSource, List.getElem?_modify, hold] at hnew

def Has (r : QueueRegistry T N) (name : String) (n : ℕ) : Prop :=
  ∃ s, r.started[n]? = some s ∧ s.name = name

theorem Has.step {name : String} (h : r.Has name n) : (r.step convertToF64 a).Has name n := by
  obtain ⟨s, hn, hname⟩ := h
  exact ⟨_, started_step hn, hname⟩

structure Named (r : QueueRegistry T N) : Prop where
  queues : ∀ name n, r.queues[name]? = some n → r.Has name n
  sources : ∀ name n, r.sources[name]? = some n → r.Has name n
  storingQueue : ∀ p ∈ r.storingQueue, r.Has p.1 p.2
  storingSource : ∀ p ∈ r.storingSource, r.Has p.1 p.2

theorem named_new : (new : QueueRegistry T N).Named where
  queues name n h := by simp [new] at h
  sources name n h := by simp [new] at h
  storingQueue := nofun
  storingSource := nofun

/-- Where the entries of the maps, and of the calls that are not finished, come from. -/
structure Entries (r r' : QueueRegistry T N) : Prop where
  queues : ∀ name n, r'.queues[name]? = some n →
    r.queues[name]? = some n ∨ (name, n) ∈ r.storingQueue
  sources : ∀ name n, r'.sources[name]? = some n →
    r.sources[name]? = some n ∨ (name, n) ∈ r.storingSource
  storingQueue : ∀ p ∈ r'.storingQueue, p ∈ r.storingQueue ∨ r'.Has p.1 p.2
  storingSource : ∀ p ∈ r'.storingSource, p ∈ r.storingSource ∨ p ∈ r.storingQueue

theorem entries_of_started (started : List (Registered T N)) : Entries r { r with started } :=
  ⟨fun _ _ => .inl, fun _ _ => .inl, fun _ => .inl, fun _ => .inl⟩

theorem entries_step : Entries r (r.step convertToF64 a) := by
  cases a with
  | addQueue name kind paused shouldStop enablePersistence interval enabled =>
    simp only [step, addQueue]
    split
    · exact entries_of_started r.started
    next s hs =>
      refine ⟨fun _ _ => .inl, fun _ _ => .inl, fun p hp => ?_, fun _ => .inl⟩
      refine (List.mem_append.mp hp).imp id fun hp => ?_
      rw [List.mem_singleton.mp hp]
      exact ⟨s, List.getElem?_concat_length, congrArg Registered.name (registered_eq hs)⟩
  | storeQueue i =>
    simp only [step, storeQueue]
    split
    · exact entries_of_started r.started
    next name n hi =>
      have hmem := List.mem_of_getElem? hi
      refine ⟨fun name' m hm => ?_, fun _ _ => .inl, fun p hp => ?_, fun p hp => ?_⟩
      · rw [Table.get_insert] at hm
        split_ifs at hm with hname
        · subst hname
          exact .inr (Option.some.inj hm ▸ hmem)
        · exact .inl hm
      · exact .inl (List.mem_of_mem_eraseIdx hp)
      · refine (List.mem_append.mp hp).imp id fun hp => ?_
        rwa [List.mem_singleton.mp hp]
  | storeSource i =>
    simp only [step, storeSource]
    split
    · exact entries_of_started r.started
    next name n hi =>
      have hmem := List.mem_of_getElem? hi
      refine ⟨fun _ _ => .inl, fun name' m hm => ?_, fun _ => .inl, fun p hp => ?_⟩
      · rw [Table.get_insert] at hm
        split_ifs at hm with hname
        · subst hname
          exact .inr (Option.some.inj hm ▸ hmem)
        · exact .inl hm
      · exact .inl (List.mem_of_mem_eraseIdx hp)
  | pause name | resume name => exact entries_of_started r.started
  | remove name =>
    refine ⟨fun name' m hm => ?_, fun _ _ => .inl, fun _ => .inl, fun _ => .inl⟩
    exact .inl ((Table.get_erase_eq_some _).mp hm).2
  | removeSource i =>
    simp only [step, removeSource]
    split
    · exact entries_of_started r.started
    · refine ⟨fun _ _ => .inl, fun name' m hm => ?_, fun _ => .inl, fun _ => .inl⟩
      exact .inl ((Table.get_erase_eq_some _).mp hm).2
  | turn n now result => exact entries_of_started _
  | poison n => exact entries_of_started _

theorem named_step (h : r.Named) : (r.step convertToF64 a).Named where
  queues name n hn := by
    rcases entries_step.queues name n hn with hold | hnew
    · exact (h.queues name n hold).step
    · exact (h.storingQueue _ hnew).step
  sources name n hn := by
    rcases entries_step.sources name n hn with hold | hnew
    · exact (h.sources name n hold).step
    · exact (h.storingSource _ hnew).step
  storingQueue p hp := by
    rcases entries_step.storingQueue p hp with hold | hnew
    · exact (h.storingQueue p hold).step
    · exact hnew
  storingSource p hp := by
    rcases entries_step.storingSource p hp with hold | hnew
    · exact (h.storingSource p hold).step
    · exact (h.storingQueue p hnew).step

theorem getQueue_eq_ok {kind name : String} : r.getQueue kind name = .ok n ↔
    r.queues[name]? = some n ∧ r.started[n]?.map Registered.kind = some kind := by
  unfold getQueue
  split
  next h => simp [h]
  next m h =>
    split_ifs with hkind
    · simp only [h, Except.ok.injEq, Option.some.injEq]
      exact ⟨fun hm => ⟨hm, hm ▸ hkind⟩, And.left⟩
    · simp only [h, Option.some.injEq, false_iff]
      rintro ⟨rfl, hm⟩
      exact hkind hm

/-- Every source goes back to the call of `add_queue` that started it, and since then it has taken
its own steps. -/
theorem exists_added {steps : List (RegistryStep T)}
    (h : (exec (step convertToF64) new steps).started[n]? = some s) :
    ∃ before paused shouldStop interval enabled after,
      steps = before ++
        .addQueue s.name s.kind paused shouldStop s.persistence interval enabled :: after ∧
      (exec (step (N := N) convertToF64) new before).started.length = n ∧
      s.source = exec (FunctionSource.step convertToF64 s.persistence)
        (.start interval paused shouldStop) (after.filterMap (RegistryStep.own n)) := by
  induction steps using List.reverseRecOn generalizing s with
  | nil => cases h
  | append_singleton steps a ih =>
    rw [exec_append, exec_cons, exec_nil] at h
    cases hold : (exec (step convertToF64) new steps).started[n]? with
    | none =>
      obtain ⟨hn, paused, shouldStop, interval, enabled, rfl, hsource⟩ :=
        added_of_started_step hold h
      exact ⟨steps, paused, shouldStop, interval, enabled, [], rfl, hn, hsource⟩
    | some s' =>
      obtain rfl := Option.some.inj ((started_step hold).symm.trans h)
      obtain ⟨before, paused, shouldStop, interval, enabled, after, rfl, hn, hsource⟩ := ih hold
      refine ⟨before, paused, shouldStop, interval, enabled, after ++ [a], ?_, hn, ?_⟩
      · simp
      · simp only [List.filterMap_append, exec_append, ← hsource]
        cases hown : a.own n <;> simp [hown]

/-- The flags of a source are as they were when it was added. If it should not stop and has an
interval, then it has not ended unless its function has panicked; without one it has ended and has
never called its function. -/
structure Untouched (n : ℕ) (after : List (RegistryStep T)) (interval : IntervalConfig)
    (paused shouldStop : Bool) (s : FunctionSource T N) : Prop where
  paused : s.paused = paused
  shouldStop : s.shouldStop = shouldStop
  goesOn : interval.durationMs ≠ 0 → s.shouldStop = false → (∀ now, .turn n now none ∉ after) →
    s.task ≠ .ended
  ended : interval.durationMs = 0 → s.task = .ended ∧ s.results = []

theorem untouched_start (after : List (RegistryStep T)) (interval : IntervalConfig)
    (paused shouldStop : Bool) :
    Untouched n after interval paused shouldStop
      (.start interval paused shouldStop : FunctionSource T N) where
  paused := rfl
  shouldStop := rfl
  goesOn h _ _ := by simp [FunctionSource.start, h]
  ended h := ⟨by simp [FunctionSource.start, h], rfl⟩

theorem untouched_own (persistence : Bool) (interval : IntervalConfig) (paused shouldStop : Bool)
    (after : List (RegistryStep T)) :
    Untouched n after interval paused shouldStop
      (exec (FunctionSource.step (N := N) convertToF64 persistence)
        (.start interval paused shouldStop) (after.filterMap (RegistryStep.own n))) := by
  have hown : Along (FunctionSource.step (N := N) convertToF64 persistence)
      (fun _ b => ∃ a ∈ after, RegistryStep.own n a = some b) (.start interval paused shouldStop)
      (after.filterMap (RegistryStep.own n)) :=
    along_of_forall fun b hb _ => List.mem_filterMap.mp hb
  refine hown.exec_inv (I := Untouched n after interval paused shouldStop) ?_
    (untouched_start after interval paused shouldStop)
  rintro s b h ⟨a, ha, hb⟩
  cases a with
  | turn m now result =>
    simp only [RegistryStep.own] at hb
    split_ifs at hb with hm
    obtain ⟨rfl, rfl⟩ : m = n ∧ SourceStep.turn now result = b := ⟨hm, Option.some.inj hb⟩
    obtain ⟨hp, hs⟩ := FunctionSource.flags_turn convertToF64 persistence s now result
    refine ⟨hp.trans h.paused, hs.trans h.shouldStop, fun hpos hgo hreturns => ?_, fun hzero => ?_⟩
    · cases result with
      | none => exact absurd ha (hreturns now)
      | some value =>
        have hgo' := hs.symm.trans hgo
        exact FunctionSource.not_ended_turn hgo' (h.goesOn hpos hgo' hreturns) now value
    · obtain ⟨htask, hresults⟩ := h.ended hzero
      rw [FunctionSource.step, FunctionSource.turn_of_ended htask]
      exact ⟨htask, hresults⟩
  | poison m =>
    simp only [RegistryStep.own] at hb
    split_ifs at hb
    obtain rfl := Option.some.inj hb
    exact ⟨h.paused, h.shouldStop, h.goesOn, h.ended⟩
  | _ => cases hb

/-- Whatever is called on the registry, what it keeps under a name has been added under this name
with values of the type that is asked for, and a source takes its own steps and no others from the
moment it is added. It can neither be paused nor resumed nor stopped: not by `pause`, not by
`remove`, and not by a source that is added under the same name. -/
theorem sources_undisturbed (convertToF64 : T → Option ℚ) (steps : List (RegistryStep T)) :
    let r : QueueRegistry T N := exec (step convertToF64) new steps
    (∀ kind name n, r.getQueue kind name = .ok n →
      ∃ s, r.started[n]? = some s ∧ s.name = name ∧ s.kind = kind) ∧
    (∀ name n, r.sources[name]? = some n → r.Has name n) ∧
    ∀ n s, r.started[n]? = some s →
      ∃ before paused shouldStop interval enabled after,
        steps = before ++
          .addQueue s.name s.kind paused shouldStop s.persistence interval enabled :: after ∧
        (exec (step (N := N) convertToF64) new before).started.length = n ∧
        s.source = exec (FunctionSource.step convertToF64 s.persistence)
          (.start interval paused shouldStop) (after.filterMap (RegistryStep.own n)) ∧
        Untouched n after interval paused shouldStop s.source := by
  intro r
  have hnamed : r.Named := exec_inv (fun _ _ h => named_step h) named_new
  refine ⟨fun kind name n h => ?_, hnamed.sources, fun n s hn => ?_⟩
  · obtain ⟨hqueue, hkind⟩ := getQueue_eq_ok.mp h
    obtain ⟨s, hs, hname⟩ := hnamed.queues name n hqueue
    exact ⟨s, hs, hname, by simpa [hs] using hkind⟩
  obtain ⟨before, paused, shouldStop, interval, enabled, after, hsteps, hlength, hsource⟩ :=
    exists_added hn
  refine ⟨before, paused, shouldStop, interval, enabled, after, hsteps, hlength, hsource, ?_⟩
  rw [hsource]
  exact untouched_own s.persistence interval paused shouldStop after

end QueueRegistry

end DumbDistributedLog.Sources
