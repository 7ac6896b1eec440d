import DumbDistributedLog.Library.Runs
import DumbDistributedLog.Library.U64

/-! # The circuit breaker

The breaker opens when the failures reach the threshold, and lets a request through again when
the time of its reset has come. Its three cells follow from the history of its calls: how many
failures there were since the last success that counted, when the last one was, and whether a
request has been let through since.
-/

namespace DumbDistributedLog.Peer

open Runs

inductive BreakerState where
  | closed
  | opened
  | halfOpen
  deriving DecidableEq, Repr

structure CircuitBreaker where
  state : BreakerState
  failureCount : UInt32
  lastFailure : UInt64
  threshold : UInt32
  resetTimeout : UInt64
  deriving DecidableEq, Repr

namespace CircuitBreaker

def new (threshold : UInt32) (resetTimeout : UInt64) : CircuitBreaker :=
  ⟨.closed, 0, 0, threshold, resetTimeout⟩

variable (b : CircuitBreaker)

def allowRequest (now : UInt64) : CircuitBreaker × Bool :=
  match b.state with
  | .closed => (b, true)
  | .opened =>
    if b.lastFailure + b.resetTimeout ≤ now then ({ b with state := .halfOpen }, true)
    else (b, false)
  | .halfOpen => (b, true)

def recordSuccess : CircuitBreaker :=
  if b.state = .opened then b else { b with state := .closed, failureCount := 0 }

def recordFailure (now : UInt64) : CircuitBreaker :=
  let count := b.failureCount + 1
  if b.threshold ≤ count then
    { b with state := .opened, failureCount := count, lastFailure := now }
  else { b with failureCount := count }

end CircuitBreaker

inductive BreakerCall where
  | allowRequest (now : UInt64)
  | recordSuccess
  | recordFailure (now : UInt64)
  deriving DecidableEq, Repr

def BreakerCall.failedAt : BreakerCall → Option UInt64
  | .recordFailure now => some now
  | _ => none

/-- A call, the state in which it found the breaker and whether it has let a request through. -/
structure BreakerEvent where
  call : BreakerCall
  before : BreakerState
  granted : Bool
  deriving DecidableEq, Repr

def BreakerEvent.resets (e : BreakerEvent) : Bool :=
  e.call == .recordSuccess && e.before != .opened

/-- The events of a breaker, the last one first. -/
abbrev BreakerHistory := List BreakerEvent

namespace BreakerHistory

variable (h : BreakerHistory)

/-- The failures since the last success made while the breaker was not open. -/
def failures : ℕ := (h.takeWhile fun e => !e.resets).countP fun e => e.call.failedAt.isSome

/-- A request has been let through since the last failure. -/
def grantedSince : Bool := (h.takeWhile fun e => e.call.failedAt.isNone).any (·.granted)

def lastFailure : Option UInt64 := h.findSome? fun e => e.call.failedAt

variable {h} {e : BreakerEvent}

theorem failures_cons : failures (e :: h) =
    if e.resets then 0 else failures h + if e.call.failedAt.isSome then 1 else 0 := by
  cases hr : e.resets <;> simp [failures, hr, List.countP_cons]

theorem grantedSince_cons : grantedSince (e :: h) =
    if e.call.failedAt.isSome then false else e.granted || grantedSince h := by
  cases hf : e.call.failedAt <;> simp [grantedSince, hf]

theorem lastFailure_cons : lastFailure (e :: h) = e.call.failedAt.or (lastFailure h) := by
  cases hf : e.call.failedAt <;> simp [lastFailure, hf]

theorem failures_le : failures h ≤ h.countP fun e => e.call.failedAt.isSome :=
  (List.takeWhile_sublist _).countP_le

end BreakerHistory

namespace CircuitBreaker

def step (b : CircuitBreaker) : BreakerCall → CircuitBreaker × Bool
  | .allowRequest now => b.allowRequest now
  | .recordSuccess => (b.recordSuccess, false)
  | .recordFailure now => (b.recordFailure now, false)

/-- The cells of a breaker agree with a number of failures, with whether a request has been let
through since the last one and with its time. -/
structure Agrees (b : CircuitBreaker) (failures : ℕ) (granted : Bool) (last : Option UInt64) :
    Prop where
  positive : 0 < b.threshold.toNat
  count : b.failureCount.toNat = failures
  closed : b.state = .closed ↔ failures < b.threshold.toNat
  opened : b.state = .opened ↔ b.threshold.toNat ≤ failures ∧ granted = false
  last : b.threshold.toNat ≤ failures → last = some b.lastFailure

variable {b : CircuitBreaker} {failures : ℕ} {granted : Bool} {last : Option UInt64}
  {now : UInt64}

theorem agrees_new {threshold : UInt32} {resetTimeout : UInt64} (ht : 1 ≤ threshold) :
    (new threshold resetTimeout).Agrees 0 false none := by
  have hpos : 0 < threshold.toNat := UInt32.le_iff_toNat_le.mp ht
  constructor <;> simp [new] <;> omega

theorem Agrees.allowRequest (h : b.Agrees failures granted last) :
    (b.allowRequest now).1.Agrees failures ((b.allowRequest now).2 || granted) last := by
  obtain ⟨hpos, hcount, hclosed, hopened, hlast⟩ := h
  cases hs : b.state with
  | closed =>
    have hlt := hclosed.mp hs
    constructor <;> simp [CircuitBreaker.allowRequest, hs, hpos, hcount, hlt]
  | opened =>
    obtain ⟨hle, hgranted⟩ := hopened.mp hs
    by_cases hdue : b.lastFailure + b.resetTimeout ≤ now <;> constructor <;>
      simp [CircuitBreaker.allowRequest, hs, hdue, hpos, hcount, hle, hgranted, hlast]
  | halfOpen =>
    have hle : b.threshold.toNat ≤ failures := by simpa [hs] using hclosed
    constructor <;> simp [CircuitBreaker.allowRequest, hs, hpos, hcount, hle, hlast]

theorem Agrees.recordSuccess (h : b.Agrees failures granted last) (hs : b.state ≠ .opened) :
    b.recordSuccess.Agrees 0 granted last := by
  have hpos := h.positive
  constructor <;> simp [CircuitBreaker.recordSuccess, hs] <;> omega

theorem Agrees.recordFailure (h : b.Agrees failures granted last) (hlt : failures + 1 < 2 ^ 32) :
    (b.recordFailure now).Agrees (failures + 1) false (some now) := by
  obtain ⟨hpos, hcount, hclosed, hopened, hlast⟩ := h
  have hsucc : (b.failureCount + 1).toNat = failures + 1 := by
    rw [UInt32.toNat_add, hcount]
    exact Nat.mod_eq_of_lt hlt
  by_cases hle : b.threshold.toNat ≤ failures + 1
  · have hreached : b.threshold ≤ b.failureCount + 1 := by
      rwa [UInt32.le_iff_toNat_le, hsucc]
    constructor <;> simp [CircuitBreaker.recordFailure, hreached, hpos, hsucc, hle]
  · have hbelow : ¬ b.threshold ≤ b.failureCount + 1 := by
      rwa [UInt32.le_iff_toNat_le, hsucc]
    have hs : b.state = .closed := hclosed.mpr (by omega)
    constructor <;> simp [CircuitBreaker.recordFailure, hbelow, hpos, hsucc, hs] <;> omega

theorem allowRequest_eq_false (h : b.Agrees failures granted last)
    (hsum : ∀ time, last = some time → time.toNat + b.resetTimeout.toNat < 2 ^ 64) :
    (b.allowRequest now).2 = false ↔ b.threshold.toNat ≤ failures ∧ granted = false ∧
      ∃ time, last = some time ∧ now.toNat < time.toNat + b.resetTimeout.toNat := by
  rw [← and_assoc, ← h.opened]
  cases hs : b.state with
  | closed => simp [CircuitBreaker.allowRequest, hs]
  | halfOpen => simp [CircuitBreaker.allowRequest, hs]
  | opened =>
    have hlast := h.last (h.opened.mp hs).1
    have hadd : (b.lastFailure + b.resetTimeout).toNat =
        b.lastFailure.toNat + b.resetTimeout.toNat := by
      rw [UInt64.toNat_add]
      exact Nat.mod_eq_of_lt (hsum _ hlast)
    by_cases hdue : b.lastFailure + b.resetTimeout ≤ now
    · have := UInt64.le_iff_toNat_le.mp hdue
      simp [CircuitBreaker.allowRequest, hs, hdue, hlast]
      omega
    · have := mt UInt64.le_iff_toNat_le.mpr hdue
      simp [CircuitBreaker.allowRequest, hs, hdue, hlast]
      omega

end CircuitBreaker

/-- A breaker with the history of its calls. -/
structure TracedBreaker where
  breaker : CircuitBreaker
  history : BreakerHistory

namespace TracedBreaker

open BreakerHistory

def new (threshold : UInt32) (resetTimeout : UInt64) : TracedBreaker :=
  ⟨.new threshold resetTimeout, []⟩

def step (t : TracedBreaker) (call : BreakerCall) : TracedBreaker where
  breaker := (t.breaker.step call).1
  history := ⟨call, t.breaker.state, (t.breaker.step call).2⟩ :: t.history

def Agrees (t : TracedBreaker) : Prop :=
  t.breaker.Agrees t.history.failures t.history.grantedSince t.history.lastFailure

variable {t : TracedBreaker} {call : BreakerCall}

def failed (t : TracedBreaker) : ℕ := t.history.countP fun e => e.call.failedAt.isSome

theorem failed_step :
    (t.step call).failed = t.failed + if call.failedAt.isSome then 1 else 0 := by
  simp [failed, step, List.countP_cons]

theorem Agrees.step (h : t.Agrees) (hlt : (t.step call).failed < 2 ^ 32) :
    (t.step call).Agrees := by
  have hle : t.history.failures ≤ t.failed := failures_le
  rw [failed_step] at hlt
  unfold Agrees at h ⊢
  unfold TracedBreaker.step
  simp only [failures_cons, grantedSince_cons, lastFailure_cons, BreakerEvent.resets]
  cases call with
  | allowRequest now => exact h.allowRequest
  | recordSuccess =>
    by_cases hs : t.breaker.state = .opened
    · simpa [CircuitBreaker.step, CircuitBreaker.recordSuccess, hs, BreakerCall.failedAt] using h
    · simpa [CircuitBreaker.step, hs, BreakerCall.failedAt] using h.recordSuccess hs
  | recordFailure now => exact h.recordFailure (Nat.lt_of_le_of_lt (Nat.succ_le_succ hle) hlt)

theorem failed_exec {calls : List BreakerCall} : (exec step t calls).failed =
    t.failed + calls.countP fun call => call.failedAt.isSome := by
  induction calls generalizing t with
  | nil => rfl
  | cons call calls ih =>
    rw [exec_cons, ih, failed_step, List.countP_cons]
    omega

def after (threshold : UInt32) (resetTimeout : UInt64) (calls : List BreakerCall) :
    TracedBreaker :=
  exec step (new threshold resetTimeout) calls

variable {threshold : UInt32} {resetTimeout : UInt64} {calls : List BreakerCall}

theorem agrees_after (ht : 1 ≤ threshold)
    (hlt : calls.countP (fun call => call.failedAt.isSome) < 2 ^ 32) :
    (after threshold resetTimeout calls).Agrees := by
  refine exec_inv (I := fun t : TracedBreaker => t.failed < 2 ^ 32 → t.Agrees)
    (fun t call h hlt => ?_) (fun _ => CircuitBreaker.agrees_new ht) ?_
  · refine Agrees.step (h ?_) hlt
    rw [failed_step] at hlt
    omega
  · rw [failed_exec]
    simpa [failed, new] using hlt

theorem settings_step : (t.step call).breaker.threshold = t.breaker.threshold ∧
    (t.step call).breaker.resetTimeout = t.breaker.resetTimeout := by
  cases call with
  | allowRequest now =>
    simp only [step, CircuitBreaker.step, CircuitBreaker.allowRequest]
    cases t.breaker.state <;> simp [apply_ite]
  | recordSuccess => simp [step, CircuitBreaker.step, CircuitBreaker.recordSuccess, apply_ite]
  | recordFailure now => simp [step, CircuitBreaker.step, CircuitBreaker.recordFailure, apply_ite]

theorem settings_after : (after threshold resetTimeout calls).breaker.threshold = threshold ∧
    (after threshold resetTimeout calls).breaker.resetTimeout = resetTimeout := by
  refine exec_inv (I := fun t : TracedBreaker => t.breaker.threshold = threshold ∧
    t.breaker.resetTimeout = resetTimeout) (fun t call h => ?_) ⟨rfl, rfl⟩
  rwa [settings_step.1, settings_step.2]

/-- After every run the breaker is closed exactly while the failures since the last success that
counted are below the threshold, and it refuses a request exactly when they are not, nothing has
been let through since the last failure and its reset is still to come. -/
theorem breaker_follows_history (threshold : UInt32) (resetTimeout : UInt64)
    (calls : List BreakerCall) (ht : 1 ≤ threshold)
    (hlt : calls.countP (fun call => call.failedAt.isSome) < 2 ^ 32) :
    ((after threshold resetTimeout calls).breaker.state = .closed ↔
      (after threshold resetTimeout calls).history.failures < threshold.toNat) ∧
    ∀ now : UInt64,
      (∀ time, (after threshold resetTimeout calls).history.lastFailure = some time →
        time.toNat + resetTimeout.toNat < 2 ^ 64) →
      (((after threshold resetTimeout calls).breaker.allowRequest now).2 = false ↔
        threshold.toNat ≤ (after threshold resetTimeout calls).history.failures ∧
        (after threshold resetTimeout calls).history.grantedSince = false ∧
        ∃ time, (after threshold resetTimeout calls).history.lastFailure = some time ∧
          now.toNat < time.toNat + resetTimeout.toNat) := by
  have hagrees : (after threshold resetTimeout calls).Agrees := agrees_after ht hlt
  obtain ⟨hthreshold, hreset⟩ : (after threshold resetTimeout calls).breaker.threshold = _ ∧
    (after threshold resetTimeout calls).breaker.resetTimeout = _ := settings_after
  constructor
  · rw [hagrees.closed, hthreshold]
  · intro now hsum
    rw [CircuitBreaker.allowRequest_eq_false hagrees (by rwa [hreset]), hthreshold, hreset]

/-- A success that comes while the breaker is open does not count, and a failure of the request
let through after the reset opens it again. -/
theorem breaker_follows_history_reopened :
    (1 : UInt32) ≤ 2 ∧
    ((after 2 30 [.recordFailure 10, .recordFailure 12, .recordSuccess, .allowRequest 42,
      .recordFailure 43]).breaker.allowRequest 60).2 = false := by
  refine ⟨by decide, ?_⟩
  refine ((breaker_follows_history 2 30 _ (by decide) (by decide)).2 60 ?_).mpr
    ⟨by decide, by decide, 43, by decide, by decide⟩
  intro time htime
  cases htime
  decide

end TracedBreaker

end DumbDistributedLog.Peer
