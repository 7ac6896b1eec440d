import DumbDistributedLog.Storage.Effects

/-! # Batches

The ownership state after a log does not depend on how the log is cut into batches, nor on
the order in which a sweep meets the leases. The map of the leases has no order of its own:
a sweep collects the expired keys as the iteration of that moment gives them.
-/

namespace DumbDistributedLog

/-- An order in which the map of the leases may be iterated. -/
structure Iteration where
  leases : Table UInt64 LeaseEntry → List LeaseEntry
  perm : ∀ table, (leases table).Perm table.values

namespace Iteration

def listed : Iteration := ⟨fun table => table.values, fun _ => .refl _⟩

def reversed : Iteration := ⟨fun table => table.values.reverse, fun _ => List.reverse_perm _⟩

end Iteration

structure Orders where
  apply : Iteration
  respond : Iteration

namespace OwnershipState

section Orders

variable (s : OwnershipState) (it : Iteration)

def expiredKeysIn (now : UInt64) : List String :=
  ((it.leases s.leases).filter fun lease => lease.expiresAt ≤ now).map fun lease => lease.key

def expireLeasesIn (now : UInt64) : OwnershipState × ℕ :=
  let keys := s.expiredKeysIn it now
  (keys.foldl forgetKey s, keys.length)

/-- Only a sweep iterates the map. -/
def applyIn : OwnershipCommand → OwnershipState
  | .expireLeases now => (s.expiredKeysIn it now).foldl forgetKey s
  | cmd => s.apply cmd

def respondIn : OwnershipCommand → OwnershipState × OwnershipResponse
  | .expireLeases now =>
    let (swept, count) := s.expireLeasesIn it now
    (swept, .leaseCount count)
  | cmd => s.respond cmd

end Orders

variable {s : OwnershipState} {it : Iteration} {now : UInt64}

theorem forget_eq (keys : List String) : keys.foldl forgetKey s =
    { s with
      keyLeases := (keys.foldl forgetKey s).keyLeases
      leases := (keys.foldl forgetKey s).leases } := by
  induction keys generalizing s with
  | nil => rfl
  | cons key keys ih =>
    rw [List.foldl_cons, ih]
    rfl

theorem forget_congr {keys keys' : List String} (h : ∀ k, k ∈ keys ↔ k ∈ keys') :
    keys.foldl forgetKey s = keys'.foldl forgetKey s := by
  have hindex : (keys.foldl forgetKey s).keyLeases = (keys'.foldl forgetKey s).keyLeases := by
    refine Std.ExtTreeMap.ext_getElem? fun k => ?_
    rw [get_keyLeases_forget, get_keyLeases_forget]
    simp only [h]
  have hleases : (keys.foldl forgetKey s).leases = (keys'.foldl forgetKey s).leases := by
    refine Std.ExtTreeMap.ext_getElem? fun i => ?_
    rw [get_leases_forget, get_leases_forget]
    simp only [h]
  rw [forget_eq keys, forget_eq keys', hindex, hleases]

theorem perm_expiredKeysIn : (s.expiredKeysIn it now).Perm (s.expiredKeys now) :=
  ((it.perm s.leases).filter _).map _

theorem expireLeasesIn_eq : s.expireLeasesIn it now = s.expireLeases now :=
  Prod.ext (forget_congr fun _ => perm_expiredKeysIn.mem_iff) perm_expiredKeysIn.length_eq

theorem applyIn_eq (cmd : OwnershipCommand) : s.applyIn it cmd = s.apply cmd := by
  cases cmd with
  | expireLeases now => exact congrArg Prod.fst expireLeasesIn_eq
  | _ => rfl

theorem respondIn_eq (cmd : OwnershipCommand) : s.respondIn it cmd = s.respond cmd := by
  cases cmd with
  | expireLeases now => simp only [respondIn, respond, expireLeasesIn_eq]
  | _ => rfl

end OwnershipState

namespace AutoqueuesRaftStorage

section Orders

variable (s : AutoqueuesRaftStorage)

def applyEntryIn (entry : Entry) (orders : Orders) : AutoqueuesRaftStorage × OwnershipResponse :=
  match entry.payload with
  | .normal cmd =>
    let applied := s.ownershipState.applyIn orders.apply cmd
    let (state, response) := applied.respondIn orders.respond cmd
    ({ s with lastApplied := some entry.logId, ownershipState := state, dirty := true }, response)
  | .membership _ => ({ s with lastApplied := some entry.logId }, .owner "" none)
  | .blank => ({ s with lastApplied := some entry.logId }, .owner "" none)

def applyEntriesIn (s : AutoqueuesRaftStorage) :
    List (Entry × Orders) → AutoqueuesRaftStorage × List OwnershipResponse
  | [] => (s, [])
  | (entry, orders) :: batch =>
    let (next, response) := s.applyEntryIn entry orders
    let (last, result) := applyEntriesIn next batch
    (last, response :: result)

/-- A batch, each entry with the orders in which its sweeps meet the leases. -/
def applyToStateMachineIn (batch : List (Entry × Orders)) (flush : Except StorageError Unit) :
    AutoqueuesRaftStorage × Except StorageError (List OwnershipResponse) :=
  let (applied, result) := s.applyEntriesIn batch
  if applied.dataFile.isSome && applied.dirty then
    match flush with
    | .error e => (applied, .error e)
    | .ok () => ({ applied with dirty := false }, .ok result)
  else (applied, .ok result)

end Orders

variable {s s' : AutoqueuesRaftStorage}

theorem applyEntryIn_eq (entry : Entry) (orders : Orders) :
    s.applyEntryIn entry orders = s.applyEntry entry := by
  obtain ⟨logId, payload⟩ := entry
  cases payload with
  | blank => rfl
  | normal cmd =>
    simp only [applyEntryIn, applyEntry, OwnershipState.applyIn_eq, OwnershipState.respondIn_eq]
  | membership m => rfl

theorem applyEntriesIn_eq (batch : List (Entry × Orders)) :
    s.applyEntriesIn batch = s.applyEntries (batch.map Prod.fst) := by
  induction batch generalizing s with
  | nil => rfl
  | cons step batch ih =>
    obtain ⟨entry, orders⟩ := step
    simp only [applyEntriesIn, List.map_cons, applyEntries, applyEntryIn_eq, ih]

theorem applyToStateMachineIn_eq (batch : List (Entry × Orders))
    (flush : Except StorageError Unit) :
    s.applyToStateMachineIn batch flush =
      s.applyToStateMachine (batch.map Prod.fst) flush := by
  rcases flush with e | ⟨⟩
  · simp only [applyToStateMachineIn, applyToStateMachine, applyEntriesIn_eq]
  · simp only [applyToStateMachineIn, applyToStateMachine, applyEntriesIn_eq]

theorem length_applyEntries (entries : List Entry) :
    (s.applyEntries entries).2.length = entries.length := by
  induction entries generalizing s with
  | nil => rfl
  | cons entry entries ih => exact congrArg (· + 1) ih

theorem applyEntries_append (entries rest : List Entry) :
    (s.applyEntries (entries ++ rest)).2 =
      (s.applyEntries entries).2 ++ ((s.applyEntries entries).1.applyEntries rest).2 := by
  induction entries generalizing s with
  | nil => rfl
  | cons entry entries ih => exact congrArg ((s.applyEntry entry).2 :: ·) ih

theorem response_congr (h : s.ownershipState = s'.ownershipState) (entry : Entry) :
    (s.applyEntry entry).2 = (s'.applyEntry entry).2 := by
  unfold applyEntry
  rw [h]
  split <;> rfl

theorem responses_congr (h : s.ownershipState = s'.ownershipState) (entries : List Entry) :
    (s.applyEntries entries).2 = (s'.applyEntries entries).2 := by
  induction entries generalizing s s' with
  | nil => rfl
  | cons entry entries ih =>
    have hnext : (s.applyEntry entry).1.ownershipState =
        (s'.applyEntry entry).1.ownershipState := by
      rw [applyEntry_eq, applyEntry_eq, h]
    exact congrArg₂ List.cons (response_congr h entry) (ih hnext)

theorem applyToStateMachine_ok (entries : List Entry) :
    (s.applyToStateMachine entries (.ok ())).2 = .ok (s.applyEntries entries).2 := by
  simp only [applyToStateMachine]
  split <;> rfl

theorem applyToStateMachine_append (entries rest : List Entry) :
    (s.applyToStateMachine (entries ++ rest) (.ok ())).1 =
      ((s.applyToStateMachine entries (.ok ())).1.applyToStateMachine rest (.ok ())).1 := by
  have hdirty : ∀ dirty applied later flushed : Bool,
      ((dirty || (applied || later)) && !flushed) =
        (((dirty || applied) && !flushed || later) && !flushed) := by decide
  simp only [applyToStateMachine_eq, applyEntries_eq, OwnershipState.replay_append,
    List.getLast?_append, List.any_append, Option.map_or, Option.or_assoc]
  rw [hdirty]

/-- A log may be cut into batches anywhere, and its sweeps may meet the leases in any order:
the storage and the responses are the same, the ownership state is that of the commands one
after the other, and every entry is answered once. -/
theorem apply_in_batches (s : AutoqueuesRaftStorage) (batch first rest : List (Entry × Orders))
    (hcut : batch.map Prod.fst = first.map Prod.fst ++ rest.map Prod.fst)
    (cmds : List (OwnershipCommand × Iteration))
    (hcmds : cmds.map Prod.fst = (batch.map Prod.fst).filterMap Entry.command) :
    let whole := s.applyToStateMachineIn batch (.ok ())
    let one := s.applyToStateMachineIn first (.ok ())
    let two := one.1.applyToStateMachineIn rest (.ok ())
    whole.1 = two.1 ∧
      (∃ result result', one.2 = .ok result ∧ two.2 = .ok result' ∧
        whole.2 = .ok (result ++ result')) ∧
      whole.1.ownershipState = cmds.foldl (fun state c => state.applyIn c.2 c.1) s.ownershipState ∧
      ∃ result, whole.2 = .ok result ∧ result.length = batch.length := by
  intro whole one two
  have hwhole : whole = s.applyToStateMachine (first.map Prod.fst ++ rest.map Prod.fst) (.ok ()) :=
    (applyToStateMachineIn_eq batch _).trans (by rw [hcut])
  have hone : one = s.applyToStateMachine (first.map Prod.fst) (.ok ()) :=
    applyToStateMachineIn_eq first _
  have htwo : two = one.1.applyToStateMachine (rest.map Prod.fst) (.ok ()) :=
    applyToStateMachineIn_eq rest _
  have hresult : whole.2 = .ok (s.applyEntries (first.map Prod.fst ++ rest.map Prod.fst)).2 := by
    rw [hwhole, applyToStateMachine_ok]
  refine ⟨?_, ⟨(s.applyEntries (first.map Prod.fst)).2,
    (one.1.applyEntries (rest.map Prod.fst)).2, ?_, ?_, ?_⟩, ?_, ⟨_, hresult, ?_⟩⟩
  · rw [hwhole, htwo, hone, applyToStateMachine_append]
  · rw [hone, applyToStateMachine_ok]
  · rw [htwo, applyToStateMachine_ok]
  · rw [hresult, applyEntries_append]
    congr 2
    refine responses_congr ?_ _
    rw [hone, ownershipState_applyToStateMachine, applyEntries_eq]
  · simp only [OwnershipState.applyIn_eq]
    rw [hwhole, ownershipState_applyToStateMachine, OwnershipState.replay, ← hcut, ← hcmds,
      List.foldl_map]
  · rw [length_applyEntries, ← hcut, List.length_map]

/-- Two leases are swept in one batch, or in two with the opposite orders. -/
theorem apply_in_batches_sweep :
    let entry := fun i cmd => (⟨⟨⟨1, 1⟩, i⟩, .normal cmd⟩ : Entry)
    let acquire := entry 1 (.acquireLease "a" 1 0 1 0)
    let another := entry 2 (.acquireLease "b" 2 1 1 0)
    let sweep := entry 3 (.expireLeases 1000000000)
    let orders : Orders := ⟨.listed, .reversed⟩
    let others : Orders := ⟨.reversed, .listed⟩
    let whole := new.applyToStateMachineIn [(acquire, orders), (another, orders), (sweep, orders)]
      (.ok ())
    let one := new.applyToStateMachineIn [(acquire, others), (another, others)] (.ok ())
    whole.1 = (one.1.applyToStateMachineIn [(sweep, others)] (.ok ())).1 ∧
      one.1.ownershipState.leases.size = 2 ∧ whole.1.ownershipState.leases.size = 0 := by
  intro entry acquire another sweep orders others whole one
  refine ⟨?_, by decide +kernel, by decide +kernel⟩
  exact (apply_in_batches new [(acquire, orders), (another, orders), (sweep, orders)]
    [(acquire, others), (another, others)] [(sweep, others)] rfl
    [(.acquireLease "a" 1 0 1 0, .listed), (.acquireLease "b" 2 1 1 0, .listed),
      (.expireLeases 1000000000, .reversed)] rfl).1

end AutoqueuesRaftStorage

end DumbDistributedLog
