import DumbDistributedLog.Library.Calls
import DumbDistributedLog.Library.Runs
import DumbDistributedLog.Library.U64
import DumbDistributedLog.Peer.Messages

/-! # Correlating responses with requests

A call of `fetch_metric` draws an id, makes a request and registers the id it drew. The request
draws an id of its own, and this is the one that is sent. A response carries the id of the
request, under which no call is registered.
-/

namespace DumbDistributedLog.Peer

open Runs

/-- The sender is known by the call that holds its receiver. -/
structure PendingEntry where
  requestId : RequestId
  sender : ℕ
  expiresAt : ℕ
  deriving DecidableEq, Repr

structure PendingRequestTracker where
  pending : Table RequestId PendingEntry
  defaultTimeout : UInt64

namespace PendingRequestTracker

def register (t : PendingRequestTracker) (requestId : RequestId) (sender now : ℕ) :
    PendingRequestTracker :=
  { t with
    pending := t.pending.insert requestId ⟨requestId, sender, now + t.defaultTimeout.toNat⟩ }

/-- The sender whose entry is removed, if there is one. -/
def complete (t : PendingRequestTracker) (requestId : RequestId) :
    PendingRequestTracker × Option ℕ :=
  match t.pending[requestId]? with
  | some entry => ({ t with pending := t.pending.erase requestId }, some entry.sender)
  | none => (t, none)

end PendingRequestTracker

/-- What a call has made: the id it registers, the request it sends and the response that its
receiver holds. -/
structure Fetch where
  requestId : RequestId
  request : PeerRequest
  answer : Option PeerResponse
  deriving DecidableEq, Repr

/-- How far a call has come after the cache, the router and the circuit breaker. -/
inductive FetchPhase where
  | drawn (requestId : RequestId) (target : UInt64) (metricKey : MetricKey) (payload : List UInt8)
  | created (requestId : RequestId) (request : PeerRequest)
  | registered (f : Fetch)
  | waiting (f : Fetch)
  | returned (result : Except PeerError (List UInt8))

/-- How the request was encoded and, if there is a coordinator, published. -/
structure Sending where
  encoded : Except String Unit
  published : Option (Except String Unit)

def Sending.result (sending : Sending) : Except PeerError Unit :=
  match sending.encoded, sending.published with
  | .error e, _ => .error (.codecError e)
  | .ok (), some (.ok ()) => .ok ()
  | .ok (), some (.error e) => .error (.routingError s!"Gossip publish failed: {e}")
  | .ok (), none => .error (.routingError "No gossip coordinator available")

/-- The calls of one fetcher and the counter of its process. -/
structure Fetching where
  nodeId : UInt64
  requestTimeoutSecs : UInt64
  sequence : UInt64
  pending : PendingRequestTracker
  calls : List FetchPhase

inductive FetchStep where
  | start (target : UInt64) (metricKey : MetricKey) (payload : List UInt8)
  | create (c : ℕ) (now : UInt64)
  | register (c now : ℕ)
  | send (c : ℕ) (sending : Sending)
  | respond (response : PeerResponse)
  | resolve (c : ℕ)
  | timeout (c : ℕ)
  /-- An id is drawn elsewhere in the process. -/
  | draw

namespace Fetching

def new (nodeId requestTimeoutSecs : UInt64) : Fetching :=
  ⟨nodeId, requestTimeoutSecs, 0, ⟨∅, requestTimeoutSecs⟩, []⟩

variable (s : Fetching)

def nextId : RequestId := .new s.nodeId s.sequence

def sender (requestId : RequestId) : Option ℕ :=
  s.pending.pending[requestId]?.map (·.sender)

def draw : Fetching := { s with sequence := s.sequence + 1 }

def register (requestId : RequestId) (c now : ℕ) : Fetching :=
  { s with pending := s.pending.register requestId c now }

def setPhase (c : ℕ) (phase : FetchPhase) : Fetching := { s with calls := s.calls.set c phase }

/-- The response is handed to the receiver, unless the call has dropped it. -/
def deliver (c : ℕ) (response : PeerResponse) : Fetching :=
  match s.calls[c]? with
  | some (.registered f) => s.setPhase c (.registered { f with answer := some response })
  | some (.waiting f) => s.setPhase c (.waiting { f with answer := some response })
  | _ => s

def handleResponse (response : PeerResponse) : Fetching × Bool :=
  match s.pending.complete response.requestId with
  | (pending, some sender) => ({ s with pending := pending }.deliver sender response, true)
  | (_, none) => (s, false)

/-- The receiver has its response, or its sender is gone. -/
def resolve (c : ℕ) (f : Fetch) : Fetching :=
  match f.answer with
  | some response => s.setPhase c (.returned (.ok response.payload))
  | none =>
    if s.sender f.requestId = some c then s
    else s.setPhase c (.returned (.error (.requestCancelled (toString f.requestId.toNat))))

def step : FetchStep → Fetching
  | .start target metricKey payload =>
    { s.draw with calls := s.calls ++ [.drawn s.nextId target metricKey payload] }
  | .create c now =>
    match s.calls[c]? with
    | some (.drawn requestId target metricKey payload) =>
      s.draw.setPhase c
        (.created requestId ⟨s.nextId, s.nodeId, target, metricKey, now, payload⟩)
    | _ => s
  | .register c now =>
    match s.calls[c]? with
    | some (.created requestId request) =>
      (s.register requestId c now).setPhase c (.registered ⟨requestId, request, none⟩)
    | _ => s
  | .send c sending =>
    match s.calls[c]? with
    | some (.registered f) =>
      match sending.result with
      | .ok () => s.setPhase c (.waiting f)
      | .error e => s.setPhase c (.returned (.error e))
    | _ => s
  | .respond response => (s.handleResponse response).1
  | .resolve c =>
    match s.calls[c]? with
    | some (.waiting f) => s.resolve c f
    | _ => s
  | .timeout c =>
    match s.calls[c]? with
    | some (.waiting f) =>
      -- The receiver is asked before the clock.
      if f.answer.isSome then s
      else s.setPhase c (.returned (.error (.timeout (s.requestTimeoutSecs * 1000))))
    | _ => s
  | .draw => s.draw

end Fetching

def FetchPhase.fetch : FetchPhase → Option Fetch
  | .created requestId request => some ⟨requestId, request, none⟩
  | .registered f => some f
  | .waiting f => some f
  | _ => none

def FetchPhase.awaits : FetchPhase → Option RequestId
  | .registered f => if f.answer.isSome then none else some f.request.requestId
  | .waiting f => if f.answer.isSome then none else some f.request.requestId
  | _ => none

namespace Fetching

variable (s : Fetching)

def fetch (c : ℕ) : Option Fetch := s.calls[c]?.bind FetchPhase.fetch

def awaits (c : ℕ) : Option RequestId := s.calls[c]?.bind FetchPhase.awaits

def Completes (response : PeerResponse) (c : ℕ) : Prop :=
  s.awaits c ≠ none ∧
    ((s.handleResponse response).1.fetch c).bind (·.answer) = some response

/-- Calls register the ids that they send, and a response completes the call whose request has
its id and no other. -/
def Correlated : Prop :=
  (∀ c f, s.fetch c = some f → f.requestId = f.request.requestId) ∧
    ∀ response c, s.Completes response c ↔ s.awaits c = some response.requestId

/-- The counter is back at the number that the call drew first, and no other call waits under
the id that is registered. -/
def Recurs : FetchStep → Prop
  | .create c _ =>
    match s.calls[c]? with
    | some (.drawn requestId ..) => s.nextId = requestId
    | _ => True
  | .register c _ =>
    match s.calls[c]? with
    | some (.created requestId _) => ∀ i, s.awaits i ≠ some requestId
    | _ => True
  | _ => True

end Fetching

/-- An entry of the tracker may belong to a call in this phase. -/
def FetchPhase.RegisteredAs (requestId : RequestId) : FetchPhase → Prop
  | .drawn .. => False
  | .created .. => False
  | .registered f => f.requestId = requestId
  | .waiting f => f.requestId = requestId
  | .returned _ => True

def FetchPhase.first : FetchPhase → Option RequestId
  | .drawn requestId .. => some requestId
  | .created requestId _ => some requestId
  | .registered f => some f.requestId
  | .waiting f => some f.requestId
  | .returned _ => none

/-- A call that is registered goes on: it may stop waiting, but its ids stay as they are. -/
structure FetchPhase.Follows (old new : FetchPhase) : Prop where
  awaits : new.awaits = old.awaits ∨ new.awaits = none
  fetch : ∀ f', new.fetch = some f' →
    ∃ f, old.fetch = some f ∧ f.requestId = f'.requestId ∧ f.request = f'.request
  first : ∀ id, new.first = some id → old.first = some id
  registeredAs : ∀ id, old.RegisteredAs id → new.RegisteredAs id

namespace FetchPhase

variable {f : Fetch} {phase : FetchPhase}

theorem follows_returned (result : Except PeerError (List UInt8)) :
    phase.Follows (.returned result) where
  awaits := .inr rfl
  fetch := by simp [fetch]
  first := by simp [first]
  registeredAs _ _ := trivial

theorem follows_waiting : (registered f).Follows (.waiting f) where
  awaits := .inl rfl
  fetch f' h := ⟨f', h, rfl, rfl⟩
  first _ h := h
  registeredAs _ h := h

theorem follows_registered_answered (response : PeerResponse) :
    (registered f).Follows (.registered { f with answer := some response }) where
  awaits := .inr rfl
  fetch f' h := ⟨f, rfl, by cases h; exact ⟨rfl, rfl⟩⟩
  first _ h := h
  registeredAs _ h := h

theorem follows_waiting_answered (response : PeerResponse) :
    (waiting f).Follows (.waiting { f with answer := some response }) where
  awaits := .inr rfl
  fetch f' h := ⟨f, rfl, by cases h; exact ⟨rfl, rfl⟩⟩
  first _ h := h
  registeredAs _ h := h

end FetchPhase

namespace Fetching

open FetchPhase

variable {s s' : Fetching} {c i : ℕ} {old phase : FetchPhase} {a : FetchStep}
  {acts : List FetchStep} {id : RequestId} {response : PeerResponse}

theorem calls_setPhase (h : s.calls[c]? = some old) :
    (s.setPhase c phase).calls[i]? = if c = i then some phase else s.calls[i]? :=
  Calls.get_set h

theorem sender_register {now : ℕ} {id' : RequestId} :
    ((s.register id c now).setPhase i phase).sender id' =
      if id = id' then some c else s.sender id' := by
  simp only [sender, setPhase, register, PendingRequestTracker.register, Table.get_insert]
  split_ifs <;> rfl

/-- The calls with one entry of the tracker taken out. -/
def completed (s : Fetching) (id : RequestId) : Fetching :=
  { s with pending := (s.pending.complete id).1 }

theorem sender_completed {id' : RequestId} :
    (s.completed id).sender id' = if id = id' then none else s.sender id' := by
  cases hentry : s.pending.pending[id]? with
  | none =>
    simp only [sender, completed, PendingRequestTracker.complete, hentry]
    split_ifs with hid
    · rw [← hid, hentry, Option.map_none]
    · rfl
  | some entry =>
    simp only [sender, completed, PendingRequestTracker.complete, hentry, Table.get_erase]
    split_ifs <;> rfl

theorem handleResponse_of_entry {entry : PendingEntry}
    (h : s.pending.pending[response.requestId]? = some entry) :
    s.handleResponse response =
      ((s.completed response.requestId).deliver entry.sender response, true) := by
  simp only [handleResponse, completed, PendingRequestTracker.complete, h]

theorem sender_completed_iff {id' : RequestId} (hsender : s.sender id = some c) (hne : c ≠ i) :
    (s.completed id).sender id' = some i ↔ s.sender id' = some i := by
  rw [sender_completed]
  split_ifs with hid
  · subst hid
    rw [hsender, Option.some.injEq]
    exact iff_of_false (by simp) hne
  · exact Iff.rfl

inductive Moves (s : Fetching) : FetchStep → Fetching → Prop
  | stays {a : FetchStep} (h : s.Recurs a) : Moves s a s
  | goesOn {a : FetchStep} {c : ℕ} {old phase : FetchPhase} (h : s.Recurs a)
      (hold : s.calls[c]? = some old) (hphase : old.Follows phase) : Moves s a (s.setPhase c phase)
  | draws : Moves s .draw s.draw
  | starts {target : UInt64} {metricKey : MetricKey} {payload : List UInt8} :
      Moves s (.start target metricKey payload)
      { s.draw with calls := s.calls ++ [.drawn s.nextId target metricKey payload] }
  | creates {c : ℕ} {now : UInt64} {id : RequestId} {target : UInt64} {metricKey : MetricKey}
      {payload : List UInt8}
      (hold : s.calls[c]? = some (.drawn id target metricKey payload)) :
      Moves s (.create c now) (s.draw.setPhase c
        (.created id ⟨s.nextId, s.nodeId, target, metricKey, now, payload⟩))
  | registers {c now : ℕ} {id : RequestId} {request : PeerRequest}
      (hold : s.calls[c]? = some (.created id request)) :
      Moves s (.register c now)
        ((s.register id c now).setPhase c (.registered ⟨id, request, none⟩))
  | answers {response : PeerResponse} {c : ℕ} {old phase : FetchPhase}
      (hsender : s.sender response.requestId = some c) (hold : s.calls[c]? = some old)
      (hphase : old.Follows phase) (hdone : phase.awaits = none) :
      Moves s (.respond response) ((s.completed response.requestId).setPhase c phase)
  | drops {response : PeerResponse} {c : ℕ} (hsender : s.sender response.requestId = some c)
      (hidle : s.awaits c = none) : Moves s (.respond response) (s.completed response.requestId)

theorem moves_respond (s : Fetching) (response : PeerResponse) :
    s.Moves (.respond response) (s.step (.respond response)) := by
  cases hentry : s.pending.pending[response.requestId]? with
  | none =>
    have hstep : s.step (.respond response) = s := by
      simp [step, handleResponse, PendingRequestTracker.complete, hentry]
    rw [hstep]
    exact .stays trivial
  | some entry =>
    have hsender : s.sender response.requestId = some entry.sender := by simp [sender, hentry]
    rw [step, handleResponse_of_entry hentry, deliver]
    split
    next f hf =>
      exact .answers hsender hf (follows_registered_answered response) rfl
    next f hf =>
      exact .answers hsender hf (follows_waiting_answered response) rfl
    next hnone hnone' =>
      refine .drops hsender ?_
      rw [awaits]
      cases hc : s.calls[entry.sender]? with
      | none => rfl
      | some phase =>
        cases phase with
        | registered f => exact absurd hc (hnone f)
        | waiting f => exact absurd hc (hnone' f)
        | _ => rfl

theorem moves_resolve {f : Fetch} (h : s.calls[c]? = some (.waiting f)) :
    s.Moves (.resolve c) (s.resolve c f) := by
  unfold resolve
  split
  · exact .goesOn trivial h (follows_returned _)
  · split_ifs
    · exact .stays trivial
    · exact .goesOn trivial h (follows_returned _)

theorem moves_step (s : Fetching) (a : FetchStep) : s.Moves a (s.step a) := by
  cases a with
  | start target metricKey payload => exact .starts
  | draw => exact .draws
  | respond response => exact moves_respond s response
  | create c now =>
    dsimp only [step]
    split
    next hold => exact .creates hold
    next hno => exact .stays (by simp [Recurs])
  | register c now =>
    dsimp only [step]
    split
    next hold => exact .registers hold
    next hno => exact .stays (by simp [Recurs])
  | send c sending =>
    dsimp only [step]
    split
    next f hold =>
      cases sending.result with
      | ok _ => exact .goesOn trivial hold follows_waiting
      | error e => exact .goesOn trivial hold (follows_returned _)
    next => exact .stays trivial
  | resolve c =>
    dsimp only [step]
    split
    next f hold => exact moves_resolve hold
    next => exact .stays trivial
  | timeout c =>
    dsimp only [step]
    split
    next f hold =>
      split_ifs
      · exact .stays trivial
      · exact .goesOn trivial hold (follows_returned _)
    next => exact .stays trivial

theorem calls_of_awaits (h : s.awaits c ≠ none) :
    ∃ f, f.answer = none ∧
      (s.calls[c]? = some (.registered f) ∨ s.calls[c]? = some (.waiting f)) := by
  rw [awaits] at h
  cases hc : s.calls[c]? with
  | none => simp [hc] at h
  | some phase =>
    cases phase with
    | registered f => exact ⟨f, by simpa [hc, FetchPhase.awaits] using h, .inl rfl⟩
    | waiting f => exact ⟨f, by simpa [hc, FetchPhase.awaits] using h, .inr rfl⟩
    | _ => simp [hc, FetchPhase.awaits] at h

theorem fetch_deliver_of_ne (h : c ≠ i) : (s.deliver c response).fetch i = s.fetch i := by
  unfold deliver
  split
  next hold => rw [fetch, calls_setPhase hold, if_neg h, fetch]
  next hold => rw [fetch, calls_setPhase hold, if_neg h, fetch]
  next => rfl

theorem fetch_deliver_self {f : Fetch}
    (h : s.calls[c]? = some (.registered f) ∨ s.calls[c]? = some (.waiting f)) :
    (s.deliver c response).fetch c = some { f with answer := some response } := by
  rcases h with h | h
  · simp [deliver, h, fetch, calls_setPhase h, FetchPhase.fetch]
  · simp [deliver, h, fetch, calls_setPhase h, FetchPhase.fetch]

theorem completes_iff :
    s.Completes response c ↔ s.sender response.requestId = some c ∧ s.awaits c ≠ none := by
  rw [Completes, and_comm]
  refine and_congr_left fun hwaits => ?_
  obtain ⟨f, hanswer, hcall⟩ := calls_of_awaits hwaits
  have hfetch : s.fetch c = some f := by
    rcases hcall with hcall | hcall <;> simp [fetch, hcall, FetchPhase.fetch]
  cases hentry : s.pending.pending[response.requestId]? with
  | none =>
    simp [handleResponse, PendingRequestTracker.complete, sender, hentry, hfetch, hanswer]
  | some entry =>
    rw [handleResponse_of_entry hentry, sender, hentry, Option.map_some, Option.some.injEq]
    by_cases hc : entry.sender = c
    · subst hc
      have hcall' : (s.completed response.requestId).calls[entry.sender]? = some (.registered f) ∨
          (s.completed response.requestId).calls[entry.sender]? = some (.waiting f) := hcall
      rw [fetch_deliver_self hcall']
      exact iff_of_true rfl rfl
    · have hkept : (s.completed response.requestId).fetch c = some f := hfetch
      rw [fetch_deliver_of_ne hc, hkept]
      exact iff_of_false (by simp [hanswer]) hc

theorem correlated_iff : s.Correlated ↔
    (∀ c f, s.fetch c = some f → f.requestId = f.request.requestId) ∧
      ∀ id c, (s.sender id = some c ∧ s.awaits c ≠ none) ↔ s.awaits c = some id := by
  refine and_congr_right fun _ => ⟨fun h id c => ?_, fun h response c => ?_⟩
  · have hid := h (.ofSuccess id 0 [] 0) c
    rwa [completes_iff] at hid
  · rw [completes_iff]
    exact h response.requestId c

/-- No call begins to wait, and the entries of the calls that wait stay. -/
structure Fewer (s s' : Fetching) : Prop where
  awaits : ∀ c, s'.awaits c = s.awaits c ∨ s'.awaits c = none
  sender : ∀ id c, s'.awaits c ≠ none → (s'.sender id = some c ↔ s.sender id = some c)
  fetch : ∀ c f', s'.fetch c = some f' →
    ∃ f, s.fetch c = some f ∧ f.requestId = f'.requestId ∧ f.request = f'.request

theorem Fewer.of_calls (hcalls : s'.calls = s.calls)
    (hsender : ∀ id c, s'.awaits c ≠ none → (s'.sender id = some c ↔ s.sender id = some c)) :
    Fewer s s' where
  awaits c := .inl (by rw [Fetching.awaits, hcalls, Fetching.awaits])
  sender := hsender
  fetch c f h := ⟨f, by rwa [Fetching.fetch, hcalls] at h, rfl, rfl⟩

theorem Fewer.setPhase (h : s'.calls = s.calls) (hold : s.calls[c]? = some old)
    (hphase : old.Follows phase)
    (hsender : ∀ id i, (s'.setPhase c phase).awaits i ≠ none →
      (s'.sender id = some i ↔ s.sender id = some i)) : Fewer s (s'.setPhase c phase) where
  awaits i := by
    rw [Fetching.awaits, Fetching.awaits, calls_setPhase (h ▸ hold), h]
    split_ifs with hc
    · subst hc
      simpa [hold] using hphase.awaits
    · exact .inl rfl
  sender := hsender
  fetch i f' hf := by
    rw [Fetching.fetch, calls_setPhase (h ▸ hold), h] at hf
    split_ifs at hf with hc
    · subst hc
      rw [Fetching.fetch, hold]
      exact hphase.fetch f' hf
    · exact ⟨f', hf, rfl, rfl⟩

theorem Fewer.correlated (h : Fewer s s') (hs : s.Correlated) : s'.Correlated := by
  rw [correlated_iff] at hs ⊢
  refine ⟨fun c f' hf' => ?_, fun id c => ?_⟩
  · obtain ⟨f, hf, hid, hrequest⟩ := h.fetch c f' hf'
    rw [← hid, ← hrequest]
    exact hs.1 c f hf
  · by_cases hwaits : s'.awaits c = none
    · simp [hwaits]
    · have hsame := (h.awaits c).resolve_right hwaits
      rw [h.sender id c hwaits, hsame]
      exact hs.2 id c

def Registered (s : Fetching) : Prop :=
  ∀ id c, s.sender id = some c → ∃ phase, s.calls[c]? = some phase ∧ phase.RegisteredAs id

theorem Registered.setPhase (hs : s.Registered) (hold : s.calls[c]? = some old)
    (h : ∀ id, old.RegisteredAs id → phase.RegisteredAs id) : (s.setPhase c phase).Registered := by
  intro id i hi
  obtain ⟨phase', hcall, hregistered⟩ := hs id i hi
  rw [calls_setPhase hold]
  split_ifs with hc
  · subst hc
    cases hold.symm.trans hcall
    exact ⟨phase, rfl, h id hregistered⟩
  · exact ⟨phase', hcall, hregistered⟩

theorem Registered.completed (hs : s.Registered) (id : RequestId) :
    (s.completed id).Registered := by
  intro id' c hc
  rw [sender_completed] at hc
  split_ifs at hc
  exact hs id' c hc

theorem Registered.step (hs : s.Registered) (a : FetchStep) : (s.step a).Registered := by
  have hmoves := s.moves_step a
  generalize s.step a = s' at hmoves
  cases hmoves with
  | stays _ => exact hs
  | goesOn _ hold hphase => exact hs.setPhase hold hphase.registeredAs
  | draws => exact hs
  | starts =>
    intro id c hc
    obtain ⟨phase, hcall, hregistered⟩ := hs id c hc
    exact ⟨phase, Calls.get_append_of_some hcall, hregistered⟩
  | creates hold =>
    have hdraw : s.draw.Registered := hs
    exact hdraw.setPhase hold fun id h => h.elim
  | @registers c now id request hold =>
    have hold' : (s.register id c now).calls[c]? = some (.created id request) := hold
    intro id' i hi
    rw [sender_register] at hi
    rw [calls_setPhase hold']
    split_ifs at hi with hid
    · cases hi
      exact ⟨_, if_pos rfl, hid⟩
    · obtain ⟨phase, hcall, hregistered⟩ := hs id' i hi
      split_ifs with hc
      · subst hc
        cases hold.symm.trans hcall
        exact hregistered.elim
      · exact ⟨phase, hcall, hregistered⟩
  | answers hsender hold hphase hdone =>
    exact (hs.completed _).setPhase hold hphase.registeredAs
  | drops hsender hidle => exact hs.completed _

theorem awaits_starts {target : UInt64} {metricKey : MetricKey} {payload : List UInt8} :
    ({ s.draw with calls := s.calls ++ [.drawn id target metricKey payload] } :
      Fetching).awaits i = s.awaits i ∧
    ({ s.draw with calls := s.calls ++ [.drawn id target metricKey payload] } :
      Fetching).fetch i = s.fetch i := by
  simp only [awaits, fetch, Calls.get_append]
  split_ifs with hi
  · rw [List.getElem?_eq_none (Nat.le_of_eq hi)]
    exact ⟨rfl, rfl⟩
  · exact ⟨rfl, rfl⟩

theorem Correlated.draw (hs : s.Correlated) : s.draw.Correlated := by
  have hfewer : Fewer s s.draw := .of_calls rfl fun _ _ _ => Iff.rfl
  exact hfewer.correlated hs

theorem correlated_create_iff (hs : s.Correlated) {request : PeerRequest} {target : UInt64}
    {metricKey : MetricKey} {payload : List UInt8}
    (hold : s.calls[c]? = some (.drawn id target metricKey payload)) :
    (s.setPhase c (.created id request)).Correlated ↔ request.requestId = id := by
  have hawaits : ∀ i, (s.setPhase c (.created id request)).awaits i = s.awaits i := by
    intro i
    rw [awaits, awaits, calls_setPhase hold]
    split_ifs with hc
    · rw [← hc, hold]
      rfl
    · rfl
  rw [correlated_iff] at hs ⊢
  constructor
  · intro h
    exact (h.1 c ⟨id, request, none⟩ (by simp [fetch, calls_setPhase hold, FetchPhase.fetch])).symm
  · intro h
    refine ⟨fun i f hf => ?_, fun id' i => by rw [hawaits]; exact hs.2 id' i⟩
    rw [fetch, calls_setPhase hold] at hf
    split_ifs at hf
    · cases hf
      exact h.symm
    · exact hs.1 i f hf

theorem correlated_register_iff (hs : s.Correlated) (hregistered : s.Registered) {now : ℕ}
    {request : PeerRequest} (hold : s.calls[c]? = some (.created id request)) :
    ((s.register id c now).setPhase c (.registered ⟨id, request, none⟩)).Correlated ↔
      ∀ i, s.awaits i ≠ some id := by
  rw [correlated_iff] at hs ⊢
  have hsame : id = request.requestId :=
    hs.1 c ⟨id, request, none⟩ (by simp [fetch, hold, FetchPhase.fetch])
  have hsender : ∀ id', s.sender id' ≠ some c := by
    intro id' h
    obtain ⟨phase, hcall, hphase⟩ := hregistered id' c h
    cases hold.symm.trans hcall
    exact hphase
  have hold' : (s.register id c now).calls[c]? = some (.created id request) := hold
  have hawaits : ∀ i, ((s.register id c now).setPhase c
      (.registered ⟨id, request, none⟩)).awaits i = if c = i then some id else s.awaits i := by
    intro i
    rw [awaits, calls_setPhase hold']
    split_ifs
    · simp [FetchPhase.awaits, hsame]
    · rfl
  constructor
  · intro h i hi
    have hne : c ≠ i := by
      rintro rfl
      simp [awaits, hold, FetchPhase.awaits] at hi
    have hi' := (h.2 id i).mpr (by rw [hawaits, if_neg hne, hi])
    rw [sender_register, if_pos rfl] at hi'
    exact hne (Option.some.inj hi'.1)
  · intro h
    refine ⟨fun i f hf => ?_, fun id' i => ?_⟩
    · rw [fetch, calls_setPhase hold'] at hf
      split_ifs at hf
      · cases hf
        exact hsame
      · exact hs.1 i f hf
    · rw [sender_register, hawaits]
      split_ifs with hid hc hc
      · subst hid hc
        simp
      · subst hid
        exact iff_of_false (fun hi => hc (Option.some.inj hi.1)) (h i)
      · subst hc
        exact iff_of_false (fun hi => hsender id' hi.1) fun hi => hid (Option.some.inj hi)
      · exact hs.2 id' i

theorem correlated_step_iff (hregistered : s.Registered) (hs : s.Correlated) (a : FetchStep) :
    (s.step a).Correlated ↔ s.Recurs a := by
  have hmoves := s.moves_step a
  generalize s.step a = s' at hmoves
  cases hmoves with
  | stays h => exact iff_of_true hs h
  | goesOn h hold hphase =>
    exact iff_of_true ((Fewer.setPhase rfl hold hphase fun _ _ _ => Iff.rfl).correlated hs) h
  | draws => exact iff_of_true hs.draw trivial
  | starts =>
    refine iff_of_true (Fewer.correlated ⟨fun i => .inl awaits_starts.1, fun _ _ _ => Iff.rfl,
      fun i f hf => ⟨f, by rwa [awaits_starts.2] at hf, rfl, rfl⟩⟩ hs) trivial
  | creates hold =>
    refine (correlated_create_iff hs.draw hold).trans ?_
    simp only [Recurs, hold]
  | registers hold =>
    refine (correlated_register_iff hs hregistered hold).trans ?_
    simp only [Recurs, hold]
  | @answers response c old phase hsender hold hphase hdone =>
    have hfewer : Fewer s ((s.completed response.requestId).setPhase c phase) := by
      refine .setPhase rfl hold hphase fun id i hi => sender_completed_iff hsender ?_
      rintro rfl
      have hold' : (s.completed response.requestId).calls[c]? = some old := hold
      exact hi (by simp [awaits, calls_setPhase hold', hdone])
    exact iff_of_true (hfewer.correlated hs) trivial
  | @drops response c hsender hidle =>
    have hfewer : Fewer s (s.completed response.requestId) := by
      refine .of_calls rfl fun id i hi => sender_completed_iff hsender ?_
      rintro rfl
      exact hi hidle
    exact iff_of_true (hfewer.correlated hs) trivial

/-- The calls have drawn their ids from the numbers below the counter, of which there are at
most so many. -/
def DrawnBelow (n : ℕ) (s : Fetching) : Prop :=
  s.sequence.toNat ≤ n ∧ ∀ (c : ℕ) phase id, s.calls[c]? = some phase → phase.first = some id →
    ∃ k, k < s.sequence ∧ id = .new s.nodeId k

theorem lt_draw {n : ℕ} (h : s.DrawnBelow n) (hn : n + 1 < 2 ^ 64) {k : UInt64} :
    s.draw.sequence.toNat ≤ n + 1 ∧ (k < s.draw.sequence ↔ k ≤ s.sequence) := by
  have hle := h.1
  have hnext : s.draw.sequence.toNat = s.sequence.toNat + 1 := by
    rw [draw, UInt64.toNat_add]
    exact Nat.mod_eq_of_lt (by simp only [UInt64.toNat_one]; omega)
  rw [UInt64.lt_iff_toNat_lt, UInt64.le_iff_toNat_le, hnext]
  omega

theorem DrawnBelow.draw {n : ℕ} (h : s.DrawnBelow n) (hn : n + 1 < 2 ^ 64) :
    s.draw.DrawnBelow (n + 1) := by
  refine ⟨(lt_draw h hn (k := 0)).1, fun c phase id hcall hfirst => ?_⟩
  obtain ⟨k, hk, hid⟩ := h.2 c phase id hcall hfirst
  exact ⟨k, (lt_draw h hn).2.mpr (UInt64.le_of_lt hk), hid⟩

theorem DrawnBelow.setPhase {n : ℕ} (h : s.DrawnBelow n) (hold : s.calls[c]? = some old)
    (hphase : ∀ id, phase.first = some id → old.first = some id) :
    (s.setPhase c phase).DrawnBelow n := by
  refine ⟨h.1, fun i phase' id hcall hfirst => ?_⟩
  rw [calls_setPhase hold] at hcall
  split_ifs at hcall
  · cases hcall
    exact h.2 c old id hold (hphase id hfirst)
  · exact h.2 i phase' id hcall hfirst

theorem DrawnBelow.succ {n : ℕ} (h : s.DrawnBelow n) : s.DrawnBelow (n + 1) :=
  ⟨Nat.le_succ_of_le h.1, h.2⟩

theorem DrawnBelow.step {n : ℕ} (h : s.DrawnBelow n) (hn : n + 1 < 2 ^ 64) (a : FetchStep) :
    (s.step a).DrawnBelow (n + 1) := by
  have hmoves := s.moves_step a
  generalize s.step a = s' at hmoves
  cases hmoves with
  | stays _ => exact h.succ
  | goesOn _ hold hphase => exact h.succ.setPhase hold hphase.first
  | draws => exact h.draw hn
  | starts =>
    refine ⟨(h.draw hn).1, fun c phase id hcall hfirst => ?_⟩
    rcases List.mem_append.mp (List.mem_of_getElem? hcall) with hmem | hmem
    · obtain ⟨i, hi⟩ := List.mem_iff_getElem?.mp hmem
      exact (h.draw hn).2 i phase id hi hfirst
    · cases List.mem_singleton.mp hmem
      cases hfirst
      exact ⟨s.sequence, (lt_draw h hn).2.mpr (UInt64.le_refl _), rfl⟩
  | creates hold => exact (h.draw hn).setPhase hold fun _ hfirst => hfirst
  | @registers c now id request hold =>
    have hregister : (s.register id c now).DrawnBelow (n + 1) := h.succ
    exact hregister.setPhase hold fun _ hfirst => hfirst
  | @answers response c old phase _ hold hphase _ =>
    have hcompleted : (s.completed response.requestId).DrawnBelow (n + 1) := h.succ
    exact hcompleted.setPhase hold hphase.first
  | drops _ _ => exact h.succ

theorem drawnBelow_exec {n : ℕ} (h : s.DrawnBelow n) (hn : n + acts.length < 2 ^ 64) :
    (exec step s acts).DrawnBelow (n + acts.length) := by
  induction acts generalizing s n with
  | nil => exact h
  | cons a acts ih =>
    rw [List.length_cons] at hn ⊢
    have hrest := ih (h.step (by omega) a) (by omega)
    rwa [Nat.add_assoc, Nat.add_comm 1] at hrest

/-- A request takes another number than its call, until the counter has gone all the way
round. -/
theorem not_recurs_create (nodeId requestTimeoutSecs : UInt64) {now : UInt64} {target : UInt64}
    {metricKey : MetricKey} {payload : List UInt8} (hlength : acts.length < 2 ^ 64)
    (hold : (exec step (new nodeId requestTimeoutSecs) acts).calls[c]? =
      some (.drawn id target metricKey payload)) :
    ¬ (exec step (new nodeId requestTimeoutSecs) acts).Recurs (.create c now) := by
  have hnew : (new nodeId requestTimeoutSecs).DrawnBelow 0 := ⟨Nat.le_refl 0, by simp [new]⟩
  obtain ⟨k, hk, hid⟩ := (drawnBelow_exec hnew (by omega)).2 c _ id hold rfl
  intro h
  simp only [Recurs, hold] at h
  rw [hid, nextId, RequestId.new_inj] at h
  exact UInt64.lt_irrefl _ (h ▸ hk)

/-- Responses are correlated with their requests exactly if every request meets the number of
its call again. -/
theorem correlation_iff (nodeId requestTimeoutSecs : UInt64) (acts : List FetchStep) :
    Always step Correlated (new nodeId requestTimeoutSecs) acts ↔
      Along step Recurs (new nodeId requestTimeoutSecs) acts := by
  have hregistered : (new nodeId requestTimeoutSecs).Registered := by
    intro id c hc
    simp [sender, new] at hc
  have hcorrelated : (new nodeId requestTimeoutSecs).Correlated := by
    rw [correlated_iff]
    simp [fetch, awaits, new]
  exact always_iff_along_of_inv (P := fun _ _ => True) (fun s a hs _ _ _ => hs.step a)
    (fun s a hreg hs _ => correlated_step_iff hreg hs a) hregistered hcorrelated
    (along_of_forall fun _ _ _ => trivial)

/-- One call, answered with the id of its request: the response completes nobody. -/
theorem answered_call_times_out :
    let sent : RequestId := .new 1 1
    let acts : List FetchStep := [.start 2 "cpu" [], .create 0 5, .register 0 0,
      .send 0 ⟨.ok (), some (.ok ())⟩]
    let s := exec step (new 1 30) acts
    let response : PeerResponse := .ofSuccess sent 2 [7] 6
    s.fetch 0 = some ⟨.new 1 0, ⟨sent, 1, 2, "cpu", 5, []⟩, none⟩ ∧
      (s.handleResponse response).2 = false ∧
      (exec step s [.respond response, .timeout 0]).calls.map
          (fun | .returned result => some result.toOption | _ => none) = [some none] ∧
      ¬ s.Correlated := by
  intro sent acts s response
  have hfetch : s.fetch 0 = some ⟨.new 1 0, ⟨sent, 1, 2, "cpu", 5, []⟩, none⟩ := by
    decide +kernel
  refine ⟨hfetch, by decide +kernel, by decide +kernel, fun h => ?_⟩
  have hids := h.1 0 _ hfetch
  exact absurd hids (by decide)

end Fetching

end DumbDistributedLog.Peer
