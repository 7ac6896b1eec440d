import DumbDistributedLog.Cluster.Locks
import DumbDistributedLog.Library.Runs

/-! # The budget of poison recoveries

A panic while the write guard is held poisons the lock, and the lock stays poisoned. Every later
acquisition is counted, not every panic, so a single panic uses up the budget of recoveries.
-/

namespace DumbDistributedLog

open Runs

/-- A lock with its guards, the critical sections that have panicked and the acquisitions that
have found it poisoned. -/
structure GuardedLock (α : Type*) where
  lock : RecoverableLock α
  readers : ℕ
  writing : Bool
  panics : ℕ
  recoveries : ℕ

inductive LockStep (α : Type*) where
  | readRecover
  | writeRecover
  | endRead (panicked : Bool)
  | endWrite (value : α) (panicked : Bool)

variable {α : Type*} [Validate α]

def LockStep.Valid : LockStep α → Prop
  | .endWrite value _ => Validate.validate value = .ok ()
  | _ => True

namespace GuardedLock

def new (value : α) : GuardedLock α := ⟨⟨value, false, 0⟩, 0, false, 0, 0⟩

variable (s : GuardedLock α)

/-- Readers share the lock, a writer holds it alone. Other calls wait. -/
def admits : LockStep α → Bool
  | .readRecover => !s.writing
  | .writeRecover => !s.writing && s.readers == 0
  | _ => false

def acquire : LockStep α → RecoverableLock α × Except LockError α
  | .readRecover => s.lock.readRecover
  | _ => s.lock.writeRecover

def step (a : LockStep α) : GuardedLock α :=
  match a with
  | .readRecover =>
    if s.admits a then
      { s with
        lock := (s.acquire a).1
        readers := if (s.acquire a).2.isOk then s.readers + 1 else s.readers
        recoveries := if s.lock.poisoned then s.recoveries + 1 else s.recoveries }
    else s
  | .writeRecover =>
    if s.admits a then
      { s with
        lock := (s.acquire a).1
        writing := (s.acquire a).2.isOk
        recoveries := if s.lock.poisoned then s.recoveries + 1 else s.recoveries }
    else s
  | .endRead panicked =>
    if s.readers = 0 then s
    else { s with readers := s.readers - 1, panics := s.panics + panicked.toNat }
  | .endWrite value panicked =>
    if s.writing then
      { s with
        lock := { s.lock with value := value, poisoned := s.lock.poisoned || panicked }
        writing := false
        panics := s.panics + panicked.toNat }
    else s

/-- An acquisition succeeds while no more critical sections have panicked than can be recovered,
and too many poisonings are reported only after more. -/
def Budgeted (a : LockStep α) : Prop :=
  s.admits a → (s.panics ≤ maxPoisonRecoveries.toNat → (s.acquire a).2.isOk) ∧
    ∀ count, (s.acquire a).2 = .error (.tooManyPoisons count) →
      maxPoisonRecoveries.toNat < s.panics

/-- Whoever finds the lock poisoned is among the first to do so, as a counter of 64 bits has it,
or comes after more panics than can be recovered. -/
def AmongFirst (a : LockStep α) : Prop :=
  s.admits a → s.lock.poisoned →
    s.recoveries % 2 ^ 64 < maxPoisonRecoveries.toNat ∨ maxPoisonRecoveries.toNat < s.panics

/-- The counter of the lock has counted the acquisitions that have found it poisoned, and the
data passes its check. -/
structure Counted : Prop where
  count : s.lock.poisonCount.toNat = s.recoveries % 2 ^ 64
  valid : Validate.validate s.lock.value = .ok ()

variable {s} {a : LockStep α}

theorem acquire_of_poisoned (hp : s.lock.poisoned) (h : Validate.validate s.lock.value = .ok ()) :
    s.acquire a = ({ s.lock with poisonCount := s.lock.poisonCount + 1 },
      if s.lock.poisonCount ≥ maxPoisonRecoveries then
        .error (.tooManyPoisons s.lock.poisonCount) else .ok s.lock.value) := by
  cases a <;> simp [acquire, RecoverableLock.readRecover, RecoverableLock.writeRecover, hp, h]
  all_goals split <;> rfl

theorem acquire_of_not_poisoned (hp : ¬ s.lock.poisoned) :
    s.acquire a = (s.lock, .ok s.lock.value) := by
  cases a <;> simp [acquire, RecoverableLock.readRecover, RecoverableLock.writeRecover, hp]

theorem Counted.acquired {t : GuardedLock α} (h : s.Counted) (hlock : t.lock = (s.acquire a).1)
    (hrecoveries : t.recoveries = if s.lock.poisoned then s.recoveries + 1 else s.recoveries) :
    t.Counted := by
  by_cases hp : s.lock.poisoned
  · rw [acquire_of_poisoned hp h.valid] at hlock
    rw [if_pos hp] at hrecoveries
    constructor
    · simp [hlock, hrecoveries, UInt64.toNat_add, h.count]
    · simpa [hlock] using h.valid
  · rw [acquire_of_not_poisoned hp] at hlock
    rw [if_neg hp] at hrecoveries
    constructor
    · simpa [hlock, hrecoveries] using h.count
    · simpa [hlock] using h.valid

theorem Counted.step (h : s.Counted) (ha : a.Valid) : (s.step a).Counted := by
  cases a with
  | readRecover =>
    by_cases hadmits : s.admits .readRecover
    · simp only [GuardedLock.step, if_pos hadmits]
      exact h.acquired rfl rfl
    · simpa only [GuardedLock.step, if_neg hadmits] using h
  | writeRecover =>
    by_cases hadmits : s.admits .writeRecover
    · simp only [GuardedLock.step, if_pos hadmits]
      exact h.acquired rfl rfl
    · simpa only [GuardedLock.step, if_neg hadmits] using h
  | endRead panicked =>
    simp only [GuardedLock.step]
    split_ifs
    · exact h
    · exact ⟨h.count, h.valid⟩
  | endWrite value panicked =>
    simp only [GuardedLock.step]
    split_ifs
    · exact ⟨h.count, ha⟩
    · exact h

theorem Counted.budgeted_iff (h : s.Counted) : s.Budgeted a ↔ s.AmongFirst a := by
  unfold Budgeted AmongFirst
  refine imp_congr_right fun _ => ?_
  by_cases hp : s.lock.poisoned
  · have hcount : s.lock.poisonCount ≥ maxPoisonRecoveries ↔
        ¬ s.recoveries % 2 ^ 64 < maxPoisonRecoveries.toNat := by
      rw [← h.count, Nat.not_lt]
      exact UInt64.le_iff_toNat_le
    rw [acquire_of_poisoned hp h.valid]
    by_cases hge : s.lock.poisonCount ≥ maxPoisonRecoveries
    · simp only [if_pos hge, hcount.mp hge, false_or, hp, true_imp_iff]
      constructor
      · exact fun hbudget => hbudget.2 _ rfl
      · exact fun hmany => ⟨fun hfew => absurd hfew (Nat.not_le.mpr hmany), fun _ _ => hmany⟩
    · have hfirst := Decidable.not_not.mp (mt hcount.mpr hge)
      simp only [if_neg hge]
      exact iff_of_true ⟨fun _ => rfl, nofun⟩ fun _ => .inl hfirst
  · rw [acquire_of_not_poisoned hp]
    exact iff_of_true ⟨fun _ => rfl, nofun⟩ fun hpoisoned => absurd hpoisoned hp

/-- In every run with valid data, the acquisitions keep to the budget of panics exactly if each
one that finds the lock poisoned is among the first or comes after too many panics. -/
theorem recoveries_count_panics (value : α) (steps : List (LockStep α))
    (hvalue : Validate.validate value = .ok ()) (hsteps : ∀ a ∈ steps, a.Valid) :
    Along step Budgeted (new value) steps ↔ Along step AmongFirst (new value) steps := by
  refine along_congr_of_inv (I := Counted) (R := fun _ a => a.Valid)
    (fun s a h ha _ => h.step ha) (fun s a h _ => h.budgeted_iff) ⟨rfl, hvalue⟩ ?_
  exact along_of_forall fun a ha _ => hsteps a ha

end GuardedLock

structure InvalidState where
  shouldFail : Bool

instance : Validate InvalidState where
  validate state := if state.shouldFail then .error (.custom "Intentional failure") else .ok ()

namespace GuardedLock

def onePanic : List (LockStep InvalidState) :=
  [.writeRecover, .endWrite ⟨false⟩ true, .readRecover]

/-- The first acquisition after a panic recovers the lock. -/
theorem recoveries_count_panics_once : Validate.validate (InvalidState.mk false) = .ok () ∧
    (∀ a ∈ onePanic, a.Valid) ∧ Along step Budgeted (new ⟨false⟩) onePanic := by
  have hsteps : ∀ a ∈ onePanic, a.Valid := by simp [onePanic, LockStep.Valid, Validate.validate]
  refine ⟨rfl, hsteps, (recoveries_count_panics ⟨false⟩ onePanic rfl hsteps).mpr ?_⟩
  unfold AmongFirst
  decide

def threeReaders : GuardedLock InvalidState :=
  exec step (new ⟨false⟩) (onePanic ++
    [.endRead false, .readRecover, .endRead false, .readRecover, .endRead false])

/-- The fourth is told that there were too many panics. -/
theorem one_panic_uses_up_budget : threeReaders.panics = 1 ∧
    threeReaders.admits .readRecover = true ∧
    (threeReaders.acquire .readRecover).2 = .error (.tooManyPoisons 3) :=
  ⟨rfl, rfl, rfl⟩

end GuardedLock

end DumbDistributedLog
