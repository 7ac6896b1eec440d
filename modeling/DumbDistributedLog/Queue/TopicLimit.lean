import DumbDistributedLog.Library.Calls
import DumbDistributedLog.Queue.Standalone

/-! # The limit on topics

Several threads ask for topics at once. Each looks its topic up, compares the counter of
topics with the limit and inserts what is missing. The last step counts what it inserts but
does not look at the limit again, so that calls which have passed the comparison together
insert more topics than are left.
-/

namespace DumbDistributedLog.Ddl

open Runs

inductive CallPhase where
  | lookup
  | check
  | recheck
  | refuse
  | insert
  | returned (result : Except DdlError TopicQueue)

structure TopicCall where
  topic : String
  phase : CallPhase

/-- One step of a call. The insertion and the increment are made under one lock. -/
def DdlDistributed.callStep (d : DdlDistributed) (topic : String) :
    CallPhase → DdlDistributed × CallPhase
  | .lookup =>
    match d.topics[topic]? with
    | some queue => (d, .returned (.ok queue))
    | none => (d, .check)
  | .check =>
    if d.config.maxTopics > 0 ∧ d.topicCount ≥ d.config.maxTopics then (d, .recheck)
    else (d, .insert)
  | .recheck =>
    match d.topics[topic]? with
    | some queue => (d, .returned (.ok queue))
    | none => (d, .refuse)
  | .refuse => (d, .returned (.error (.topicLimitExceeded d.config.maxTopics d.topicCount)))
  | .insert =>
    match d.topics[topic]? with
    | some queue => (d, .returned (.ok queue))
    | none =>
      let queue : TopicQueue := .new d.config.bufferSize
      ({ d with topics := d.topics.insert topic queue, topicCount := d.topicCount + 1 },
        .returned (.ok queue))
  | .returned result => (d, .returned result)

theorem callStep_alone (d : DdlDistributed) (topic : String) :
    (fun p : DdlDistributed × CallPhase => p.1.callStep topic p.2)^[4] (d, .lookup) =
      ((d.getOrCreateTopic topic).1, .returned (d.getOrCreateTopic topic).2) := by
  simp only [Function.iterate_succ, Function.iterate_zero, Function.comp_apply, id]
  unfold DdlDistributed.getOrCreateTopic
  cases hq : d.topics[topic]? with
  | some queue => simp [DdlDistributed.callStep, hq]
  | none =>
    by_cases hfull : d.config.maxTopics > 0 ∧ d.topicCount ≥ d.config.maxTopics
    · simp [DdlDistributed.callStep, hq, hfull]
    · simp [DdlDistributed.callStep, hq, hfull]

structure TopicCalls where
  log : DdlDistributed
  calls : List TopicCall

inductive CallStep where
  | call (topic : String)
  | advance (i : ℕ)
  deriving DecidableEq, Repr

namespace TopicCalls

def start (config : StandaloneConfig) : TopicCalls := ⟨.newStandalone config, []⟩

variable (s : TopicCalls)

def step : CallStep → TopicCalls
  | .call topic => { s with calls := s.calls ++ [⟨topic, .lookup⟩] }
  | .advance i =>
    match s.calls[i]? with
    | some c =>
      let (log, phase) := s.log.callStep c.topic c.phase
      ⟨log, s.calls.set i ⟨c.topic, phase⟩⟩
    | none => s

def inserts : CallStep → Option String
  | .call _ => none
  | .advance i => s.calls[i]?.bind fun c =>
    match c.phase with
    | .insert => if c.topic ∈ s.log.topics then none else some c.topic
    | _ => none

def Bounded : Prop := s.log.topics.size ≤ s.log.config.maxTopics

def Counted : Prop := s.log.topicCount = s.log.topics.size

/-- A call that inserts a topic would pass the comparison with the limit again. -/
def RoomLeft (a : CallStep) : Prop :=
  s.inserts a ≠ none → s.log.topicCount < s.log.config.maxTopics

instance : Decidable s.Bounded := inferInstanceAs (Decidable (_ ≤ _))

instance : Decidable s.Counted := inferInstanceAs (Decidable (_ = _))

instance (a : CallStep) : Decidable (s.RoomLeft a) := inferInstanceAs (Decidable (_ → _))

variable {s} {a : CallStep} {acts : List CallStep}

theorem log_step : (s.step a).log =
    (s.inserts a).elim s.log fun topic =>
      { s.log with
        topics := s.log.topics.insert topic (.new s.log.config.bufferSize)
        topicCount := s.log.topicCount + 1 } := by
  cases a with
  | call topic => rfl
  | advance i =>
    dsimp only [step, inserts]
    cases hc : s.calls[i]? with
    | none => rfl
    | some c =>
      obtain ⟨topic, phase⟩ := c
      cases phase with
      | lookup =>
        dsimp only [DdlDistributed.callStep]
        split <;> rfl
      | check =>
        dsimp only [DdlDistributed.callStep]
        split <;> rfl
      | recheck =>
        dsimp only [DdlDistributed.callStep]
        split <;> rfl
      | refuse => rfl
      | insert =>
        dsimp only [DdlDistributed.callStep, Option.bind_some]
        cases hq : s.log.topics[topic]? with
        | none =>
          have hmem : topic ∉ s.log.topics := by simpa using hq
          simp [hmem]
        | some queue =>
          have hmem : topic ∈ s.log.topics := (Table.mem_iff_get _).mpr ⟨queue, hq⟩
          simp [hmem]
      | returned result => rfl

theorem not_mem_of_inserts {topic : String} (h : s.inserts a = some topic) :
    topic ∉ s.log.topics := by
  cases a with
  | call _ => cases h
  | advance i =>
    obtain ⟨c, -, hins⟩ := Option.bind_eq_some_iff.mp h
    split at hins
    · split at hins
      · cases hins
      · cases hins
        assumption
    · cases hins

theorem config_step : (s.step a).log.config = s.log.config := by
  rw [log_step]
  cases s.inserts a <;> rfl

theorem size_step : (s.step a).log.topics.size =
    s.log.topics.size + (s.inserts a).toList.length := by
  rw [log_step]
  cases hins : s.inserts a with
  | none => rfl
  | some topic =>
    have hmem := not_mem_of_inserts hins
    simp [Std.ExtTreeMap.size_insert, hmem]

theorem topicCount_step : (s.step a).log.topicCount =
    s.log.topicCount + (s.inserts a).toList.length := by
  rw [log_step]
  cases s.inserts a <;> rfl

theorem Counted.step (hs : s.Counted) (a : CallStep) : (s.step a).Counted := by
  unfold Counted at *
  rw [size_step, topicCount_step, hs]

theorem bounded_step_iff (hc : s.Counted) (hs : s.Bounded) :
    (s.step a).Bounded ↔ s.RoomLeft a := by
  unfold Bounded RoomLeft Counted at *
  rw [size_step, config_step, hc]
  cases s.inserts a with
  | none => simpa using hs
  | some topic => exact ⟨fun h _ => h, fun h => h (Option.some_ne_none topic)⟩

theorem mem_topics_step {topic : String} (h : topic ∈ s.log.topics) :
    topic ∈ (s.step a).log.topics := by
  rw [log_step]
  cases s.inserts a with
  | none => exact h
  | some other => exact Std.ExtTreeMap.mem_insert.mpr (.inr h)

theorem get_calls_step {i : ℕ} {c : TopicCall} (hc : s.calls[i]? = some c) (ha : a ≠ .advance i) :
    (s.step a).calls[i]? = some c := by
  cases a with
  | call topic => exact Calls.get_append_of_some hc
  | advance j =>
    have hne : j ≠ i := fun heq => ha (heq ▸ rfl)
    dsimp only [step]
    split
    · rw [List.getElem?_set_ne hne, hc]
    · exact hc

theorem get_calls_advance {i : ℕ} {c : TopicCall} (hc : s.calls[i]? = some c) :
    (s.step (.advance i)).calls[i]? = some ⟨c.topic, (s.log.callStep c.topic c.phase).2⟩ := by
  dsimp only [step]
  rw [hc]
  exact List.getElem?_set_self (List.getElem?_eq_some_iff.mp hc).1

def Succeeded (i : ℕ) (topic : String) (s : TopicCalls) : Prop :=
  ∃ queue, s.calls[i]? = some ⟨topic, .returned (.ok queue)⟩

theorem Succeeded.step {i : ℕ} {topic : String} (hs : s.Succeeded i topic) (a : CallStep) :
    (s.step a).Succeeded i topic := by
  obtain ⟨queue, hc⟩ := hs
  by_cases ha : a = .advance i
  · rw [ha]
    exact ⟨queue, get_calls_advance hc⟩
  · exact ⟨queue, get_calls_step hc ha⟩

theorem succeeded_of_mem {i : ℕ} {topic : String} (hmem : topic ∈ s.log.topics)
    (hc : s.calls[i]? = some ⟨topic, .lookup⟩) (h : .advance i ∈ acts) :
    (exec step s acts).Succeeded i topic := by
  induction acts generalizing s with
  | nil => cases h
  | cons a acts ih =>
    by_cases ha : a = .advance i
    · subst ha
      rw [exec_cons]
      refine exec_inv (fun _ a hs => hs.step a) ?_
      obtain ⟨queue, hq⟩ := (Table.mem_iff_get _).mp hmem
      refine ⟨queue, (get_calls_advance hc).trans ?_⟩
      simp [DdlDistributed.callStep, hq]
    · refine ih (mem_topics_step hmem) (get_calls_step hc ha) ?_
      exact (List.mem_cons.mp h).resolve_left fun heq => ha heq.symm

/-- The limit is kept in exactly the runs in which a call that inserts a topic would pass the
comparison again. The counter is exact in all runs, and a call for a topic that is there
succeeds in all runs. -/
theorem topic_limit_iff (config : StandaloneConfig) (hnone : config.ownedTopics = [])
    (acts : List CallStep) :
    (Always step Bounded (start config) acts ↔ Along step RoomLeft (start config) acts) ∧
      Always step Counted (start config) acts ∧
      ∀ pre topic post, acts = pre ++ .call topic :: post →
        let s := exec step (start config) pre
        topic ∈ s.log.topics → .advance s.calls.length ∈ post →
          (exec step (start config) acts).Succeeded s.calls.length topic := by
  have hempty : (DdlDistributed.newStandalone config).topics.size = 0 := by
    simp [DdlDistributed.newStandalone, hnone]
  have hcounted : (start config).Counted := by
    simp [Counted, start, DdlDistributed.newStandalone, hnone]
  have hbounded : (start config).Bounded := by
    simp [Bounded, start, hempty]
  refine ⟨?_, ?_, ?_⟩
  · exact always_iff_along_of_inv (J := Counted) (P := fun _ _ => True)
      (fun _ a hc _ _ _ => hc.step a) (fun _ _ hc hs _ => bounded_step_iff hc hs) hcounted hbounded
      (along_of_forall fun _ _ _ => trivial)
  · rintro pre -
    exact exec_inv (fun _ a hs => hs.step a) hcounted
  · rintro pre topic post rfl s hmem hadvance
    rw [exec_append, exec_cons]
    refine succeeded_of_mem (mem_topics_step hmem) ?_ hadvance
    exact List.getElem?_concat_length

/-- Two threads that do not meet get one topic and one refusal. -/
theorem topic_limit_in_turn :
    let acts := [.call "a", .advance 0, .advance 0, .advance 0, .call "b", .advance 1, .advance 1]
    Always step Bounded (start ⟨⟨4, 4, .dropNewest⟩, [], 1⟩) acts :=
  (topic_limit_iff _ rfl _).1.mpr (by decide +kernel)

/-- Two threads pass the comparison before either of them inserts. -/
theorem topic_limit_race :
    let acts := [.call "a", .call "b", .advance 0, .advance 1, .advance 0, .advance 1,
      .advance 0, .advance 1]
    let s := exec step (start ⟨⟨4, 4, .dropNewest⟩, [], 1⟩) acts
    s.log.config.maxTopics = 1 ∧ s.log.topics.size = 2 ∧
      ¬ Always step Bounded (start ⟨⟨4, 4, .dropNewest⟩, [], 1⟩) acts := by
  intro acts s
  have hsize : s.log.topics.size = 2 := by decide +kernel
  have hmax : s.log.config.maxTopics = 1 := by decide +kernel
  refine ⟨hmax, hsize, fun h => ?_⟩
  have hlast : s.Bounded := h acts (List.prefix_refl acts)
  unfold Bounded at hlast
  omega

end TopicCalls

end DumbDistributedLog.Ddl
