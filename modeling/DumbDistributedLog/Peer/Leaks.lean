import Mathlib.Data.List.Nodup
import DumbDistributedLog.Peer.Metrics

/-! # Entries of calls that have returned

A call of `fetch_metric` leaves its entry in the tracker to the response or to `cancel_expired`. A
call that times out, or whose request is not sent, returns before either has come.
-/

namespace DumbDistributedLog.Peer

open Runs

def Sending.Fails (sending : Sending) : Prop :=
  sending.encoded ≠ .ok () ∨ sending.published ≠ some (.ok ())

theorem Sending.fails_iff {sending : Sending} :
    sending.Fails ↔ ∃ e, sending.result = .error e := by
  obtain ⟨encoded, published⟩ := sending
  rcases encoded with e | ⟨⟨⟩⟩
  · simp [Fails, result]
  · rcases published with _ | e | ⟨⟨⟩⟩
    · simp [Fails, result]
    · simp [Fails, result]
    · simp [Fails, result]

def FetchPhase.running : FetchPhase → Bool
  | .returned _ => false
  | _ => true

def FetchPhase.Owns (requestId : RequestId) : FetchPhase → Prop
  | .registered f => f.requestId = requestId ∧ f.answer = none
  | .waiting f => f.requestId = requestId ∧ f.answer = none
  | _ => False

theorem FetchPhase.Owns.unique {phase : FetchPhase} {id id' : RequestId} (h : phase.Owns id)
    (h' : phase.Owns id') : id = id' := by
  cases phase with
  | registered f => exact h.1.symm.trans h'.1
  | waiting f => exact h.1.symm.trans h'.1
  | _ => exact h.elim

theorem FetchPhase.Owns.running {phase : FetchPhase} {id : RequestId} (h : phase.Owns id) :
    phase.running = true := by
  cases phase with
  | returned result => exact h.elim
  | _ => rfl

namespace PeerFetcher

variable (s : PeerFetcher)

/-- The call that returns in a step, and the id that it has registered. -/
def exits : FetcherStep → Option (ℕ × RequestId)
  | .send c sending =>
    match s.fetching.calls[c]?, sending.result with
    | some (.registered f), .error _ => some (c, f.requestId)
    | _, _ => none
  | .poll c elapsed _ _ _ => (s.fetching.wait c elapsed).map fun x => (c, x.1.requestId)
  | _ => none

/-- The tracker has no entry for the id of a call that returns. -/
def Releases (a : FetcherStep) : Prop :=
  ∀ c id, s.exits a = some (c, id) → id ∉ (s.step a).fetching.pending.pending

def inProgress : ℕ := s.fetching.calls.countP FetchPhase.running

def Bounded : Prop := s.fetching.pending.pending.size ≤ s.inProgress

/-- There is no entry for the id of a call whose request cannot be sent. The entry of a call is gone
when its time is over without a response, and no other call is registered under its id. -/
def ReleasedBefore : FetcherStep → Prop
  | .send c sending => ∀ f, s.fetching.calls[c]? = some (.registered f) → sending.Fails →
      s.fetching.sender f.requestId = none
  | .poll c elapsed _ _ _ => ∀ f, s.fetching.calls[c]? = some (.waiting f) →
      (f.answer = none → elapsed = true → s.fetching.sender f.requestId ≠ some c) ∧
        ∀ i, s.fetching.sender f.requestId = some i → i = c
  | _ => True

end PeerFetcher

namespace Fetching

variable {s : Fetching} {c : ℕ} {old phase : FetchPhase} {id : RequestId} {response : PeerResponse}

def Owned (s : Fetching) : Prop :=
  ∀ id c, s.sender id = some c → ∃ phase, s.calls[c]? = some phase ∧ phase.Owns id

theorem Owned.owns (hs : s.Owned) (hold : s.calls[c]? = some old) (h : s.sender id = some c) :
    old.Owns id := by
  obtain ⟨phase, hphase, howns⟩ := hs id c h
  cases hold.symm.trans hphase
  exact howns

theorem Owned.setPhase (hs : s.Owned) (hold : s.calls[c]? = some old)
    (h : ∀ id, s.sender id = some c → phase.Owns id) : (s.setPhase c phase).Owned := by
  intro id i hi
  rw [calls_setPhase hold]
  split_ifs with hc
  · subst hc
    exact ⟨phase, rfl, h id hi⟩
  · exact hs id i hi

theorem Owned.of_sender {s' : Fetching} (hs : s.Owned) (hcalls : s'.calls = s.calls)
    (hsender : ∀ {id c}, s'.sender id = some c → s.sender id = some c) : s'.Owned := by
  intro id c hc
  rw [hcalls]
  exact hs id c (hsender hc)

theorem Owned.start (hs : s.Owned) (target : UInt64) (metricKey : MetricKey)
    (payload : List UInt8) : (s.step (.start target metricKey payload)).Owned := by
  intro id c hc
  obtain ⟨phase, hphase, howns⟩ := hs id c hc
  exact ⟨phase, Calls.get_append_of_some hphase, howns⟩

theorem Owned.create (hs : s.Owned) (c : ℕ) (now : UInt64) : (s.step (.create c now)).Owned := by
  dsimp only [step]
  split
  next hold =>
    have hdraw : s.draw.Owned := hs
    exact hdraw.setPhase hold fun id h => (hs.owns hold h).elim
  next => exact hs

theorem Owned.register (hs : s.Owned) (c now : ℕ) : (s.step (.register c now)).Owned := by
  dsimp only [step]
  split
  next requestId request hold =>
    intro id i hi
    rw [sender_register] at hi
    rw [calls_setPhase (s := s.register requestId c now) hold]
    by_cases hid : requestId = id
    · rw [if_pos hid, Option.some.injEq] at hi
      rw [if_pos hi]
      exact ⟨_, rfl, hid, rfl⟩
    · rw [if_neg hid] at hi
      rw [if_neg]
      · exact hs id i hi
      · rintro rfl
        exact hs.owns hold hi
  next => exact hs

theorem sender_completed_eq_some {id' : RequestId} (h : (s.completed id).sender id' = some c) :
    id ≠ id' ∧ s.sender id' = some c := by
  rw [sender_completed] at h
  split_ifs at h with hid
  exact ⟨hid, h⟩

theorem Owned.answered (hs : s.Owned) (hold : s.calls[c]? = some old) (h : s.sender id = some c)
    {id' : RequestId} (h' : (s.completed id).sender id' = some c) : False := by
  obtain ⟨hne, hsender⟩ := sender_completed_eq_some h'
  exact hne ((hs.owns hold h).unique (hs.owns hold hsender))

theorem Owned.respond (hs : s.Owned) (response : PeerResponse) :
    (s.step (.respond response)).Owned := by
  have hcompleted : (s.completed response.requestId).Owned :=
    hs.of_sender rfl fun h => (sender_completed_eq_some h).2
  cases hentry : s.pending.pending[response.requestId]? with
  | none =>
    have hstep : s.step (.respond response) = s := by
      simp [step, handleResponse, PendingRequestTracker.complete, hentry]
    rwa [hstep]
  | some entry =>
    have hsender : s.sender response.requestId = some entry.sender := by simp [sender, hentry]
    rw [step, handleResponse_of_entry hentry, Fetching.deliver]
    split
    next f hold => exact hcompleted.setPhase hold fun id h => (hs.answered hold hsender h).elim
    next f hold => exact hcompleted.setPhase hold fun id h => (hs.answered hold hsender h).elim
    next => exact hcompleted

theorem wait_of_gone {f : Fetch} (hold : s.calls[c]? = some (.waiting f))
    (h : s.sender f.requestId ≠ some c) (elapsed : Bool) :
    ∃ waited, s.wait c elapsed = some (f, waited) := by
  cases hanswer : f.answer with
  | none => exact ⟨.cancelled, by simp [wait, hold, hanswer, h]⟩
  | some response => exact ⟨.received response, by simp [wait, hold, hanswer]⟩

theorem elapsed_of_wait {elapsed : Bool} {f : Fetch}
    (h : s.wait c elapsed = some (f, .elapsed)) : f.answer = none ∧ elapsed = true := by
  unfold wait at h
  split at h
  next f' hold =>
    split at h
    next => cases h
    next hanswer =>
      split_ifs at h with hsender helapsed
      · cases h
        exact ⟨hanswer, helapsed⟩
      · cases h
  next => cases h

theorem sender_cancelExpired {now : ℕ} (h : (s.cancelExpired now).sender id = some c) :
    s.sender id = some c := by
  obtain ⟨entry, hentry, hsender⟩ := Option.map_eq_some_iff.mp h
  rw [sender, Table.get_of_foldl_erase _ hentry, Option.map_some, hsender]

theorem Owned.size_le (hs : s.Owned) :
    s.pending.pending.size ≤ s.calls.countP FetchPhase.running := by
  have howned : ∀ e ∈ s.pending.pending.toList,
      ∃ phase, s.calls[e.2.sender]? = some phase ∧ phase.Owns e.1 := by
    rintro ⟨id, entry⟩ he
    refine hs id entry.sender ?_
    rw [sender, Std.ExtTreeMap.mem_toList_iff_getElem?_eq_some.mp he, Option.map_some]
  have hnodup : (s.pending.pending.toList.map (·.2.sender)).Nodup := by
    refine List.Nodup.map_on ?_ (Table.nodup_toList _)
    rintro ⟨id, entry⟩ he ⟨id', entry'⟩ he' (heq : entry.sender = entry'.sender)
    obtain ⟨phase, hphase, howns⟩ := howned _ he
    obtain ⟨phase', hphase', howns'⟩ := howned _ he'
    rw [heq, hphase', Option.some.injEq] at hphase
    subst hphase
    obtain rfl : id = id' := howns.unique howns'
    rw [Std.ExtTreeMap.mem_toList_iff_getElem?_eq_some] at he he'
    cases he.symm.trans he'
    rfl
  calc s.pending.pending.size = (s.pending.pending.toList.map (·.2.sender)).length := by
        rw [List.length_map, Std.ExtTreeMap.length_toList]
    _ ≤ s.calls.countP FetchPhase.running := by
        refine Calls.length_le_countP hnodup fun i hi => ?_
        obtain ⟨e, he, rfl⟩ := List.mem_map.mp hi
        obtain ⟨phase, hphase, howns⟩ := howned e he
        exact ⟨phase, hphase, howns.running⟩

end Fetching

namespace PeerFetcher

open Fetching

variable {s : PeerFetcher} {a : FetcherStep} {c : ℕ} {id : RequestId}
  {acts : List FetcherStep}

theorem step_of_exits (h : s.exits a = some (c, id)) :
    ∃ old result, s.fetching.calls[c]? = some old ∧ (∀ id', old.Owns id' → id = id') ∧
      (s.step a).fetching = s.fetching.setPhase c (.returned result) := by
  cases a with
  | send c' sending =>
    dsimp only [exits] at h
    split at h
    next f e hold hresult =>
      cases h
      refine ⟨_, .error e, hold, fun id' howns => howns.1, ?_⟩
      simp only [PeerFetcher.step, Fetching.step, hold, hresult]
    next => cases h
  | poll c' elapsed now victim unix =>
    obtain ⟨⟨f, waited⟩, hwait, heq⟩ := Option.map_eq_some_iff.mp h
    cases heq
    obtain ⟨hold, -⟩ := ends_of_wait hwait
    refine ⟨_, (s.settled f waited).result, hold, fun id' howns => howns.1, ?_⟩
    simp only [PeerFetcher.step, hwait]
    rfl
  | _ => cases h

theorem releases_iff_sender :
    s.Releases a ↔ ∀ c id, s.exits a = some (c, id) → s.fetching.sender id = none := by
  refine forall₃_congr fun c id h => ?_
  obtain ⟨old, result, -, -, hstep⟩ := step_of_exits h
  rw [hstep, sender, Option.map_eq_none_iff, ← Option.not_isSome_iff_eq_none,
    Std.ExtTreeMap.mem_iff_isSome_getElem?]
  rfl

theorem sender_of_ends {f : Fetch} {waited : Waited} (hs : s.fetching.Owned)
    (hold : s.fetching.calls[c]? = some (.waiting f)) (hends : s.fetching.Ends c f waited)
    (helapsed : waited = .elapsed → s.fetching.sender f.requestId ≠ some c)
    (hother : ∀ i, s.fetching.sender f.requestId = some i → i = c) :
    s.fetching.sender f.requestId = none := by
  cases hsender : s.fetching.sender f.requestId with
  | none => rfl
  | some i =>
    obtain rfl := hother i hsender
    cases hends with
    | received hanswer =>
      have hnone := (hs.owns hold hsender).2
      rw [hanswer] at hnone
      cases hnone
    | cancelled hanswer hne => exact absurd hsender hne
    | elapsed hanswer _ => exact absurd hsender (helapsed rfl)

theorem sender_of_released (hs : s.fetching.Owned) (h : s.ReleasedBefore a)
    (hexits : s.exits a = some (c, id)) : s.fetching.sender id = none := by
  cases a with
  | send c' sending =>
    dsimp only [exits] at hexits
    split at hexits
    next f e hold hresult =>
      cases hexits
      exact h f hold (Sending.fails_iff.mpr ⟨e, hresult⟩)
    next => cases hexits
  | poll c' elapsed now victim unix =>
    obtain ⟨⟨f, waited⟩, hwait, heq⟩ := Option.map_eq_some_iff.mp hexits
    cases heq
    obtain ⟨hold, hends⟩ := ends_of_wait hwait
    obtain ⟨hown, hother⟩ := h f hold
    refine sender_of_ends hs hold hends ?_ hother
    rintro rfl
    obtain ⟨hanswer, helapsed⟩ := elapsed_of_wait hwait
    exact hown hanswer helapsed
  | _ => cases hexits

theorem releases_iff (hs : s.fetching.Owned) : s.Releases a ↔ s.ReleasedBefore a := by
  rw [releases_iff_sender]
  refine ⟨fun h => ?_, fun h c id hexits => sender_of_released hs h hexits⟩
  cases a with
  | send c sending =>
    intro f hold hfails
    obtain ⟨e, hresult⟩ := Sending.fails_iff.mp hfails
    exact h c f.requestId (by simp only [exits, hold, hresult])
  | poll c elapsed now victim unix =>
    intro f hold
    refine ⟨fun hanswer helapsed hsender => ?_, fun i hi => by_contra fun hne => ?_⟩
    · have hwait : s.fetching.wait c elapsed = some (f, .elapsed) := by
        simp [wait, hold, hanswer, hsender, helapsed]
      have hnone := h c f.requestId (by simp [exits, hwait])
      simp [hnone] at hsender
    · have hgone : s.fetching.sender f.requestId ≠ some c := by
        rw [hi]
        exact fun heq => hne (Option.some.inj heq)
      obtain ⟨waited, hwait⟩ := wait_of_gone hold hgone elapsed
      have hnone := h c f.requestId (by simp [exits, hwait])
      simp [hnone] at hi
  | _ => trivial

theorem owned_of_exits (hs : s.fetching.Owned) (h : s.ReleasedBefore a)
    (hexits : s.exits a = some (c, id)) : (s.step a).fetching.Owned := by
  obtain ⟨old, result, hold, howns, hstep⟩ := step_of_exits hexits
  rw [hstep]
  refine hs.setPhase hold fun id' hsender => ?_
  obtain rfl := howns id' (hs.owns hold hsender)
  rw [sender_of_released hs h hexits] at hsender
  cases hsender

theorem owned_step (hs : s.fetching.Owned) (h : s.ReleasedBefore a) :
    (s.step a).fetching.Owned := by
  cases hexits : s.exits a with
  | some x => exact owned_of_exits hs h hexits
  | none =>
    cases a with
    | call k payload now unix routed =>
      rcases s.fetching_fetchMetric payload now unix routed with heq | ⟨target, heq⟩
      · rwa [PeerFetcher.step, heq]
      · rw [PeerFetcher.step, heq]
        exact hs.start target k payload
    | create c now => exact hs.create c now
    | register c now => exact hs.register c now
    | send c sending =>
      dsimp only [PeerFetcher.step, Fetching.step]
      split
      next f hold =>
        cases hresult : sending.result with
        | ok _ =>
          refine hs.setPhase hold fun id hsender => ?_
          have howns : (FetchPhase.registered f).Owns id := hs.owns hold hsender
          exact howns
        | error e => simp [exits, hold, hresult] at hexits
      next => exact hs
    | respond response => exact hs.respond response
    | poll c elapsed now victim unix =>
      have hwait : s.fetching.wait c elapsed = none := Option.map_eq_none_iff.mp hexits
      simp only [PeerFetcher.step, hwait]
      exact hs
    | cancelExpired now => exact hs.of_sender rfl sender_cancelExpired
    | forget key => exact hs
    | draw => exact hs

/-- No entry outlives its call, and there are no more entries than calls in progress, exactly if
no call is left with its entry when its time is over or its request is not sent, and none returns
while another one is registered under its id. -/
theorem no_leak_iff (nodeId requestTimeoutSecs : UInt64) (defaultTtl maxEntries : ℕ)
    (threshold : UInt32) (resetTimeout : UInt64) (acts : List FetcherStep) :
    let s := new nodeId requestTimeoutSecs defaultTtl maxEntries threshold resetTimeout
    (Along step Releases s acts ∧ Always step Bounded s acts) ↔
      Along step ReleasedBefore s acts := by
  intro s
  have hnew : s.fetching.Owned := by
    intro id c hc
    simp [s, new, Fetching.new, sender] at hc
  have hiff : Along step Releases s acts ↔ Along step ReleasedBefore s acts :=
    along_congr_of_inv (I := fun s => s.fetching.Owned) (R := fun _ _ => True)
      (fun s a hs _ h => owned_step hs h) (fun s a hs _ => releases_iff hs) hnew
      (along_of_forall fun _ _ _ => trivial)
  rw [hiff]
  refine ⟨fun h => h.1, fun h => ⟨h, ?_⟩⟩
  rintro pre ⟨post, rfl⟩
  have howned : (exec step s pre).fetching.Owned :=
    (along_append.mp h).1.exec_inv (I := fun s => s.fetching.Owned)
      (fun s a hs h => owned_step hs h) hnew
  exact howned.size_le

/-- Two calls, of which one times out and the other has no coordinator to send its request with.
Both have returned, and both entries are left. -/
theorem entries_left :
    let acts : List FetcherStep := [.call "cpu" [] 0 0 (.ok 2), .create 0 0, .register 0 0,
      .send 0 ⟨.ok (), some (.ok ())⟩, .call "mem" [] 0 0 (.ok 2), .create 1 0, .register 1 0,
      .send 1 ⟨.ok (), none⟩]
    let s := exec step (new 1 5 60 1000 5 30) acts
    let s' := s.step (.poll 0 true 5 0 5)
    s'.fetching.calls.map (·.result.map (·.toOption)) = [some none, some none] ∧
      s'.inProgress = 0 ∧ s'.fetching.pending.pending.size = 2 ∧
      ¬ s.Releases (.poll 0 true 5 0 5) ∧ ¬ s'.Bounded := by
  intro acts s s'
  have hprogress : s'.inProgress = 0 := by decide +kernel
  have hsize : s'.fetching.pending.pending.size = 2 := by decide +kernel
  refine ⟨by decide +kernel, hprogress, hsize, fun h => ?_, ?_⟩
  · have hexits : s.exits (.poll 0 true 5 0 5) = some (0, .new 1 0) := by decide +kernel
    exact h 0 (.new 1 0) hexits (by decide +kernel)
  · rw [Bounded, hprogress, hsize]
    decide

end PeerFetcher

end DumbDistributedLog.Peer
