import DumbDistributedLog.Library.U64

/-! # Locks that recover

A lock whose holder panicked is poisoned. Taking it for writing counts the poisoning and
hands out the data only if the data passes its check, and only a few times.
-/

namespace DumbDistributedLog

inductive ValidationError where
  | topicCountMismatch
  | orphanedKeyLease
  | danglingLease
  | leaseIdInconsistency
  | invalidLeaseExpiration
  | ownershipCountMismatch
  | custom (msg : String)
  deriving DecidableEq, Repr

def ValidationError.display : ValidationError → String
  | .topicCountMismatch => "Topic count mismatch"
  | .orphanedKeyLease => "Orphaned key lease"
  | .danglingLease => "Dangling lease"
  | .leaseIdInconsistency => "Lease ID inconsistency"
  | .invalidLeaseExpiration => "Invalid lease expiration"
  | .ownershipCountMismatch => "Ownership count mismatch"
  | .custom msg => s!"Validation error: {msg}"

class Validate (α : Type*) where
  validate : α → Except ValidationError Unit

inductive LockError where
  | wouldBlock
  | dataValidationFailed (reason : String)
  | tooManyPoisons (count : UInt64)
  deriving DecidableEq, Repr

def maxPoisonRecoveries : UInt64 := 3

/-- A lock with its data, whether it is poisoned, and how often it was found so. -/
structure RecoverableLock (α : Type*) where
  value : α
  poisoned : Bool
  poisonCount : UInt64

variable {α ε : Type*}

/-- Take the lock for writing. The lock stays poisoned when it is recovered. -/
def RecoverableLock.writeRecover [Validate α] (lock : RecoverableLock α) :
    RecoverableLock α × Except LockError α :=
  if lock.poisoned then
    let counted := { lock with poisonCount := lock.poisonCount + 1 }
    if lock.poisonCount ≥ maxPoisonRecoveries then
      (counted, .error (.tooManyPoisons lock.poisonCount))
    else
      match Validate.validate lock.value with
      | .ok () => (counted, .ok lock.value)
      | .error e => (counted, .error (.dataValidationFailed e.display))
  else (lock, .ok lock.value)

/-- Take the lock for reading. The data of a poisoned lock is not checked. -/
def RecoverableLock.readRecover (lock : RecoverableLock α) :
    RecoverableLock α × Except LockError α :=
  if lock.poisoned then
    let counted := { lock with poisonCount := lock.poisonCount + 1 }
    if lock.poisonCount ≥ maxPoisonRecoveries then
      (counted, .error (.tooManyPoisons lock.poisonCount))
    else (counted, .ok lock.value)
  else (lock, .ok lock.value)

theorem RecoverableLock.writeRecover_of_error [Validate α] (lock : RecoverableLock α)
    {e : ValidationError} (hp : lock.poisoned) (hcount : lock.poisonCount < maxPoisonRecoveries)
    (he : Validate.validate lock.value = .error e) :
    lock.writeRecover.2 = .error (.dataValidationFailed e.display) := by
  simp [writeRecover, hp, not_le.mpr hcount, he]

theorem RecoverableLock.writeRecover_rejects_iff [Validate α] (lock : RecoverableLock α) :
    (∃ reason, lock.writeRecover.2 = .error (.dataValidationFailed reason)) ↔
      lock.poisoned ∧ lock.poisonCount < maxPoisonRecoveries ∧
        Validate.validate lock.value ≠ .ok () := by
  constructor
  · rintro ⟨reason, h⟩
    unfold writeRecover at h
    split at h
    · rename_i hp
      split at h
      · cases h
      · rename_i hcount
        refine ⟨hp, not_le.mp hcount, fun hok => ?_⟩
        rw [hok] at h
        cases h
    · cases h
  · rintro ⟨hp, hcount, hfails⟩
    cases he : Validate.validate lock.value with
    | ok => exact absurd he hfails
    | error e => exact ⟨e.display, lock.writeRecover_of_error hp hcount he⟩

theorem seq_eq_ok {a b : Except ε Unit} : (do a; b) = .ok () ↔ a = .ok () ∧ b = .ok () := by
  cases a with
  | ok => simp [bind, Except.bind]
  | error e => simp [bind, Except.bind]

theorem forM_eq_ok {xs : List α} {check : α → Except ε Unit} :
    xs.forM check = .ok () ↔ ∀ x ∈ xs, check x = .ok () := by
  induction xs with
  | nil => exact iff_of_true rfl (by simp)
  | cons x xs ih =>
    rw [List.forall_mem_cons, ← ih]
    exact seq_eq_ok

end DumbDistributedLog
