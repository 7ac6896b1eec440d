import DumbDistributedLog.Peer.Cache
import DumbDistributedLog.Peer.CircuitBreaker
import DumbDistributedLog.Peer.Tracker

/-! # Fetching metrics

A call of `fetch_metric` asks the cache, the router and the circuit breaker before it sends its
request. When its wait is over it takes the payload of any response, a failed one as well, and
keeps it under the metric key alone.
-/

namespace DumbDistributedLog.Peer

open Runs

inductive Waited where
  | received (response : PeerResponse)
  | cancelled
  | elapsed
  deriving DecidableEq, Repr

/-- What a call does after its wait: what it returns, the value that it stores in the cache and
whether it records a success or a failure. -/
structure Settlement where
  result : Except PeerError (List UInt8)
  stored : Option (List UInt8)
  success : Bool

/-- A call that has got a response, with what it has asked for. -/
structure Exchange where
  metricKey : MetricKey
  payload : List UInt8
  response : PeerResponse
  deriving DecidableEq, Repr

/-- The state of a fetcher, and the calls that have got a response, the last one first. -/
structure PeerFetcher where
  fetching : Fetching
  cache : PeerCache (List UInt8)
  breaker : CircuitBreaker
  answered : List Exchange

inductive FetcherStep where
  | call (metricKey : MetricKey) (payload : List UInt8) (now : ℕ) (unix : UInt64)
      (routed : Except PeerError UInt64)
  | create (c : ℕ) (now : UInt64)
  | register (c now : ℕ)
  | send (c : ℕ) (sending : Sending)
  | respond (response : PeerResponse)
  | poll (c : ℕ) (elapsed : Bool) (now victim : ℕ) (unix : UInt64)
  | cancelExpired (now : ℕ)
  /-- A call removes a key of the cache that it has looked at before. -/
  | forget (key : String)
  | draw

namespace Fetching

def cancelExpired (s : Fetching) (now : ℕ) : Fetching :=
  { s with pending := (s.pending.cancelExpired now).1 }

/-- The receiver is asked before the clock. -/
def wait (s : Fetching) (c : ℕ) (elapsed : Bool) : Option (Fetch × Waited) :=
  match s.calls[c]? with
  | some (.waiting f) =>
    match f.answer with
    | some response => some (f, .received response)
    | none =>
      if s.sender f.requestId = some c then
        if elapsed then some (f, .elapsed) else none
      else some (f, .cancelled)
  | _ => none

end Fetching

namespace PeerFetcher

def new (nodeId requestTimeoutSecs : UInt64) (defaultTtl maxEntries : ℕ) (threshold : UInt32)
    (resetTimeout : UInt64) : PeerFetcher :=
  ⟨.new nodeId requestTimeoutSecs, .new defaultTtl maxEntries, .new threshold resetTimeout, []⟩

variable (s : PeerFetcher)

/-- `fetch_metric` up to the id that it draws, with the result of a call that goes no further. -/
def fetchMetric (metricKey : MetricKey) (payload : List UInt8) (now : ℕ) (unix : UInt64)
    (routed : Except PeerError UInt64) :
    PeerFetcher × Option (Except PeerError (List UInt8)) :=
  let asked := { s with cache := (s.cache.get metricKey now).1 }
  match (s.cache.get metricKey now).2 with
  | some cached => (asked, some (.ok cached))
  | none =>
    match routed with
    | .error e => (asked, some (.error e))
    | .ok target =>
      let allowed := { asked with breaker := (s.breaker.allowRequest unix).1 }
      if (s.breaker.allowRequest unix).2 then
        ({ allowed with fetching := s.fetching.step (.start target metricKey payload) }, none)
      else (allowed, some (.error (.circuitOpen target)))

def settle (requestTimeoutSecs : UInt64) (requestId : RequestId) : Waited → Settlement
  | .received response => ⟨.ok response.payload, some response.payload, true⟩
  | .cancelled => ⟨.error (.requestCancelled (toString requestId.toNat)), none, false⟩
  | .elapsed => ⟨.error (.timeout (requestTimeoutSecs * 1000)), none, false⟩

def settled (f : Fetch) (waited : Waited) : Settlement :=
  settle s.fetching.requestTimeoutSecs f.requestId waited

def store (metricKey : MetricKey) (value : Option (List UInt8)) (now victim : ℕ) :
    PeerCache (List UInt8) :=
  match value with
  | some value => s.cache.set metricKey value none now victim
  | none => s.cache

def record (success : Bool) (unix : UInt64) : CircuitBreaker :=
  if success then s.breaker.recordSuccess else s.breaker.recordFailure unix

end PeerFetcher

def FetchPhase.result : FetchPhase → Option (Except PeerError (List UInt8))
  | .returned result => some result
  | _ => none

def Waited.exchange (request : PeerRequest) : Waited → Option Exchange
  | .received response => some ⟨request.metricKey, request.payload, response⟩
  | _ => none

namespace PeerFetcher

variable (s : PeerFetcher)

def finish (c : ℕ) (f : Fetch) (waited : Waited) (now victim : ℕ) (unix : UInt64) :
    PeerFetcher where
  fetching := s.fetching.setPhase c (.returned (s.settled f waited).result)
  cache := s.store f.request.metricKey (s.settled f waited).stored now victim
  breaker := s.record (s.settled f waited).success unix
  answered := (waited.exchange f.request).toList ++ s.answered

def step : FetcherStep → PeerFetcher
  | .call metricKey payload now unix routed =>
    (s.fetchMetric metricKey payload now unix routed).1
  | .create c now => { s with fetching := s.fetching.step (.create c now) }
  | .register c now => { s with fetching := s.fetching.step (.register c now) }
  | .send c sending => { s with fetching := s.fetching.step (.send c sending) }
  | .respond response => { s with fetching := s.fetching.step (.respond response) }
  | .poll c elapsed now victim unix =>
    match s.fetching.wait c elapsed with
    | some (f, waited) => s.finish c f waited now victim unix
    | none => s
  | .cancelExpired now => { s with fetching := s.fetching.cancelExpired now }
  | .forget key => { s with cache := s.cache.remove key }
  | .draw => { s with fetching := s.fetching.step .draw }

/-- A response is taken for data only if it is a success. After a failure the call has returned an
error, the cache is as it was and a failure is recorded. -/
def KeepsErrors : FetcherStep → Prop
  | .poll c elapsed now victim unix => ∀ f response,
      s.fetching.wait c elapsed = some (f, .received response) →
      let s' := s.step (.poll c elapsed now victim unix)
      (((∃ value, s'.fetching.calls[c]? = some (.returned (.ok value))) ∨
          (s.settled f (.received response)).stored ≠ none ∨
          (s.settled f (.received response)).success = true) → response.success = true) ∧
        (response.success = false →
          (∃ e, s'.fetching.calls[c]? = some (.returned (.error e))) ∧
            s'.cache = s.cache ∧ s'.breaker = s.breaker.recordFailure unix)
  | _ => True

def AnsweredWell : FetcherStep → Prop
  | .poll c elapsed _ _ _ => ∀ f response,
      s.fetching.wait c elapsed = some (f, .received response) → response.success = true
  | _ => True

/-- What is served from the cache was the response to an earlier call with this payload. -/
def ServesSame : FetcherStep → Prop
  | .call metricKey payload now unix routed => ∀ value,
      (s.fetchMetric metricKey payload now unix routed).2 = some (.ok value) →
        ∃ x ∈ s.answered, x.metricKey = metricKey ∧ x.payload = payload ∧ x.response.payload = value
  | _ => True

/-- What the last call for a key has got that was answered. -/
def lastAnswer (metricKey : MetricKey) : Option (List UInt8) :=
  (s.answered.find? (·.metricKey == metricKey)).map (·.response.payload)

/-- If the key is in the cache and has not expired, an earlier call with this payload has got what
the last one that was answered for the key has got. -/
def RepeatsAnswered : FetcherStep → Prop
  | .call metricKey payload now _ _ => ∀ entry, s.cache.entries[metricKey]? = some entry →
      now < entry.expiresAt → ∃ x ∈ s.answered, x.metricKey = metricKey ∧ x.payload = payload ∧
        s.lastAnswer metricKey = some x.response.payload
  | _ => True

end PeerFetcher

namespace Fetching

variable {s : Fetching} {c : ℕ} {elapsed : Bool} {f : Fetch} {waited : Waited}

inductive Ends (s : Fetching) (c : ℕ) (f : Fetch) : Waited → Prop
  | received {response : PeerResponse} (hanswer : f.answer = some response) :
      Ends s c f (.received response)
  | cancelled (hanswer : f.answer = none) (hsender : s.sender f.requestId ≠ some c) :
      Ends s c f .cancelled
  | elapsed (hanswer : f.answer = none) (hsender : s.sender f.requestId = some c) :
      Ends s c f .elapsed

theorem ends_of_wait (h : s.wait c elapsed = some (f, waited)) :
    s.calls[c]? = some (.waiting f) ∧ s.Ends c f waited := by
  unfold wait at h
  split at h
  next f' hold =>
    split at h
    next response hanswer =>
      cases h
      exact ⟨hold, .received hanswer⟩
    next hanswer =>
      split_ifs at h with hsender helapsed
      · cases h
        exact ⟨hold, .elapsed hanswer hsender⟩
      · cases h
        exact ⟨hold, .cancelled hanswer hsender⟩
  next => cases h

end Fetching

namespace PeerFetcher

variable {s s' : PeerFetcher} {a : FetcherStep} {acts : List FetcherStep} {k : MetricKey}

theorem fetching_fetchMetric (s : PeerFetcher) (payload : List UInt8) (now : ℕ) (unix : UInt64)
    (routed : Except PeerError UInt64) :
    (s.fetchMetric k payload now unix routed).1.fetching = s.fetching ∨
      ∃ target, (s.fetchMetric k payload now unix routed).1.fetching =
        s.fetching.step (.start target k payload) := by
  unfold fetchMetric
  split
  · exact .inl rfl
  · split
    · exact .inl rfl
    · split_ifs
      · exact .inr ⟨_, rfl⟩
      · exact .inl rfl

theorem keepsErrors_iff (s : PeerFetcher) (a : FetcherStep) :
    s.KeepsErrors a ↔ s.AnsweredWell a := by
  cases a with
  | poll c elapsed now victim unix =>
    refine forall₃_congr fun f response _ => ⟨fun h => ?_, fun h => ?_⟩
    · exact h.1 (.inr (.inr rfl))
    · exact ⟨fun _ => h, fun hfailure => by simp [h] at hfailure⟩
  | _ => exact Iff.rfl

/-- Calls keep errors apart from data exactly if no failed response reaches one that waits. -/
theorem errors_kept_iff (s : PeerFetcher) (acts : List FetcherStep) :
    Along step KeepsErrors s acts ↔ Along step AnsweredWell s acts :=
  along_congr (I := fun _ => True) (fun _ _ _ => trivial) (fun s a _ => s.keepsErrors_iff a) trivial

/-- A failed response reaches the call that waits under its id. The call returns its empty payload,
and so does the next one, which is served from the cache. -/
theorem failure_is_cached :
    let response : PeerResponse := .failure (.new 1 0) 2 "no such metric" 0
    let s := exec step (new 1 5 60 1000 5 30) [.call "cpu" [] 0 0 (.ok 2), .create 0 0,
      .register 0 0, .send 0 ⟨.ok (), some (.ok ())⟩, .respond response]
    let s' := s.step (.poll 0 false 1 0 1)
    response.success = false ∧
      s'.fetching.calls.map (·.result.map (·.toOption)) = [some (some [])] ∧
      s'.cache.entries["cpu"]? = some ⟨[], 61⟩ ∧
      s'.breaker = s.breaker.recordSuccess ∧
      (s'.fetchMetric "cpu" [] 2 2 (.ok 2)).2.map (·.toOption) = some (some []) ∧
      ¬ s.KeepsErrors (.poll 0 false 1 0 1) := by
  intro response s s'
  have hwait : (s.fetching.wait 0 false).map (·.2) = some (.received response) := by
    decide +kernel
  refine ⟨rfl, by decide +kernel, by decide +kernel, by decide +kernel, by decide +kernel,
    fun h => ?_⟩
  obtain ⟨⟨f, waited⟩, hf, rfl⟩ := Option.map_eq_some_iff.mp hwait
  have hsuccess := (h f response hf).1 (.inr (.inr rfl))
  cases hsuccess

theorem fetchMetric_eq_ok {payload value : List UInt8} {now : ℕ} {unix : UInt64}
    {routed : Except PeerError UInt64} :
    (s.fetchMetric k payload now unix routed).2 = some (.ok value) ↔
      (s.cache.get k now).2 = some value := by
  unfold fetchMetric
  cases (s.cache.get k now).2 with
  | some cached => simp
  | none =>
    cases routed with
    | error e => simp
    | ok target => by_cases hallowed : (s.breaker.allowRequest unix).2 <;> simp [hallowed]

theorem frame_fetchMetric (s : PeerFetcher) (payload : List UInt8) (now : ℕ) (unix : UInt64)
    (routed : Except PeerError UInt64) :
    (s.fetchMetric k payload now unix routed).1.cache = (s.cache.get k now).1 ∧
      (s.fetchMetric k payload now unix routed).1.answered = s.answered := by
  unfold fetchMetric
  split
  · exact ⟨rfl, rfl⟩
  · split
    · exact ⟨rfl, rfl⟩
    · split_ifs <;> exact ⟨rfl, rfl⟩

/-- What is in the cache is what the last call that was answered for the key has got. -/
def Stored (s : PeerFetcher) : Prop :=
  ∀ k entry, s.cache.entries[k]? = some entry → s.lastAnswer k = some entry.value

theorem Stored.of_entries (hs : s.Stored) (hanswered : s'.answered = s.answered)
    (hcache : ∀ (k : MetricKey) (entry : CacheEntry (List UInt8)),
      s'.cache.entries[k]? = some entry → s.cache.entries[k]? = some entry) : s'.Stored := by
  intro k entry hentry
  rw [lastAnswer, hanswered]
  exact hs k entry (hcache k entry hentry)

theorem Stored.finish (hs : s.Stored) (c : ℕ) (f : Fetch) (waited : Waited) (now victim : ℕ)
    (unix : UInt64) : (s.finish c f waited now victim unix).Stored := by
  cases waited with
  | received response =>
    intro k entry hentry
    rcases PeerCache.entries_set hentry with ⟨rfl, hvalue⟩ | ⟨hne, hold⟩
    · simp [lastAnswer, PeerFetcher.finish, Waited.exchange, hvalue]
    · have hlast := hs k entry hold
      simpa [lastAnswer, PeerFetcher.finish, Waited.exchange, hne] using hlast
  | cancelled => exact hs
  | elapsed => exact hs

theorem Stored.step (hs : s.Stored) (a : FetcherStep) : (s.step a).Stored := by
  cases a with
  | call k payload now unix routed =>
    obtain ⟨hcache, hanswered⟩ := s.frame_fetchMetric payload now unix routed
    refine hs.of_entries hanswered fun k' entry hentry => ?_
    rw [PeerFetcher.step, hcache] at hentry
    exact PeerCache.entries_get hentry
  | poll c elapsed now victim unix =>
    dsimp only [PeerFetcher.step]
    split
    · exact hs.finish _ _ _ _ _ _
    · exact hs
  | forget key => exact hs.of_entries rfl fun k entry h => PeerCache.entries_remove h
  | _ => exact hs

theorem servesSame_iff (hs : s.Stored) (a : FetcherStep) :
    s.ServesSame a ↔ s.RepeatsAnswered a := by
  cases a with
  | call k payload now unix routed =>
    constructor
    · intro h entry hentry hnow
      obtain ⟨x, hx, hkey, hpayload, hvalue⟩ :=
        h entry.value (fetchMetric_eq_ok.mpr (PeerCache.get_eq_some.mpr ⟨entry, hentry, hnow, rfl⟩))
      exact ⟨x, hx, hkey, hpayload, by rw [hs k entry hentry, hvalue]⟩
    · intro h value hvalue
      obtain ⟨entry, hentry, hnow, rfl⟩ :=
        PeerCache.get_eq_some.mp (fetchMetric_eq_ok.mp hvalue)
      obtain ⟨x, hx, hkey, hpayload, hlast⟩ := h entry hentry hnow
      rw [hs k entry hentry, Option.some.injEq] at hlast
      exact ⟨x, hx, hkey, hpayload, hlast.symm⟩
  | _ => exact Iff.rfl

/-- The cache answers only the same request exactly if every call that finds its key has a payload
that was answered before with what is in the cache. -/
theorem cache_serves_same_iff (nodeId requestTimeoutSecs : UInt64) (defaultTtl maxEntries : ℕ)
    (threshold : UInt32) (resetTimeout : UInt64) (acts : List FetcherStep) :
    let s := new nodeId requestTimeoutSecs defaultTtl maxEntries threshold resetTimeout
    Along step ServesSame s acts ↔ Along step RepeatsAnswered s acts := by
  intro s
  refine along_congr (I := Stored) (fun s a hs => hs.step a) (fun s a hs => servesSame_iff hs a) ?_
  intro k entry hentry
  simp [s, new, PeerCache.new] at hentry

/-- The payload of the second call has not been sent, and it gets the answer of the first one. -/
theorem cache_serves_other :
    let s := exec step (new 1 5 60 1000 5 30) [.call "cpu" [1] 0 0 (.ok 2), .create 0 0,
      .register 0 0, .send 0 ⟨.ok (), some (.ok ())⟩, .respond (.ofSuccess (.new 1 0) 2 [7] 0),
      .poll 0 false 1 0 1]
    s.answered = [⟨"cpu", [1], .ofSuccess (.new 1 0) 2 [7] 0⟩] ∧
      (s.fetchMetric "cpu" [2] 2 2 (.ok 2)).2.map (·.toOption) = some (some [7]) ∧
      ¬ s.ServesSame (.call "cpu" [2] 2 2 (.ok 2)) := by
  intro s
  have hanswered : s.answered = [⟨"cpu", [1], .ofSuccess (.new 1 0) 2 [7] 0⟩] := by decide +kernel
  have hget : (s.cache.get "cpu" 2).2 = some [7] := by decide +kernel
  refine ⟨hanswered, by decide +kernel, fun h => ?_⟩
  obtain ⟨x, hx, -, hpayload, -⟩ := h [7] (fetchMetric_eq_ok.mpr hget)
  rw [hanswered, List.mem_singleton] at hx
  subst hx
  exact absurd hpayload (by decide)

end PeerFetcher

end DumbDistributedLog.Peer
