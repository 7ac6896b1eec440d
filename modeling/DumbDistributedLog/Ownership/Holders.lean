import DumbDistributedLog.Library.Grants
import DumbDistributedLog.Ownership.Leases

/-! # The holders of keys

Through its two tables the state says which lease each key is under. As long as
grants take free ids and sweeps are safe, a command changes these holders as its
event changes an abstract table of time-limited grants.
-/

namespace DumbDistributedLog

open OwnershipState Runs

variable {s : OwnershipState} {c : OwnershipCommand} {cmds : List OwnershipCommand}
  {k : String} {l : LeaseEntry}

def leaseScheme : Grants.Scheme LeaseEntry UInt64 UInt64 where
  id := LeaseEntry.id
  ends := LeaseEntry.expiresAt
  renew := LeaseEntry.renew
  id_renew l timestamp := (l.renew_key timestamp).2
  renew_ended _ _ h := if_neg (not_lt.mpr h)

def OwnershipCommand.event : OwnershipCommand → Grants.Event String LeaseEntry UInt64 UInt64
  | .acquireLease key owner leaseId ttlSecs timestamp =>
    .acquire key (.acquired key owner leaseId ttlSecs timestamp) timestamp
  | .renewLease leaseId timestamp => .renew leaseId timestamp
  | .releaseLease key => .release key
  | .expireLeases now => .sweep now
  | _ => .idle

def OwnershipCommand.time : OwnershipCommand → Option UInt64
  | .claimTopic _ _ timestamp => some timestamp
  | .acquireLease _ _ _ _ timestamp => some timestamp
  | .renewLease _ timestamp => some timestamp
  | .expireLeases now => some now
  | _ => none

def LeaseEntry.after (l : LeaseEntry) : OwnershipCommand → LeaseEntry
  | .renewLease leaseId timestamp => if l.id = leaseId then l.renew timestamp else l
  | _ => l

/-- The commands that may take a key from a lease: its release, or an acquisition or
a sweep once the lease has expired. -/
def OwnershipCommand.Ends (l : LeaseEntry) : OwnershipCommand → Prop
  | .acquireLease key _ _ _ timestamp => key = l.key ∧ l.expiresAt ≤ timestamp
  | .releaseLease key => key = l.key
  | .expireLeases now => l.expiresAt ≤ now
  | _ => False

/-- A sweep meets no key with an expired record beside an unexpired current lease. -/
def SweepsSafely (s : OwnershipState) (c : OwnershipCommand) : Prop :=
  ∀ now ∈ c.sweepsAt, SweepSafe s now

instance : Decidable (SweepsSafely s c) :=
  U64.decidableForallMem c.sweepsAt

/-- Grants take free ids and sweeps are safe. -/
def Orderly (s : OwnershipState) (c : OwnershipCommand) : Prop :=
  TakesFreeId s c ∧ SweepsSafely s c

instance : Decidable (Orderly s c) :=
  inferInstanceAs (Decidable (TakesFreeId s c ∧ SweepsSafely s c))

theorem accepts_iff_not_held {timestamp : UInt64} : s.Accepts k timestamp ↔
    ¬ ∃ l ∈ s.holder k, timestamp < leaseScheme.ends l := by
  rw [accepts_iff]
  constructor
  · rintro h ⟨l, hl, hlt⟩
    exact not_le.mpr hlt (h l hl)
  · intro h l hl
    exact not_lt.mp fun hlt => h ⟨l, hl, hlt⟩

theorem holder_grant (hf : FreeId s l.key l.id) :
    (s.grant l).holder = Function.update s.holder l.key (some l) := by
  funext k
  rcases eq_or_ne k l.key with rfl | hk
  · simp [holder]
  · rw [Function.update_of_ne hk]
    exact holder_grant_of_ne hk.symm fun hi => hk (hf.eq hi)

theorem KeyIndex.holder_renew (h : KeyIndex s) (leaseId timestamp : UInt64) :
    (s.apply (.renewLease leaseId timestamp)).holder k =
      (s.holder k).map fun l => if l.id = leaseId then l.renew timestamp else l := by
  simp only [OwnershipState.holder, OwnershipState.apply]
  cases hi : s.keyLeases[k]? with
  | none => rfl
  | some i =>
    obtain ⟨l, hl, _, rfl⟩ := h k i hi
    rcases eq_or_ne leaseId l.id with rfl | hne
    · simp [hl]
    · simp [Table.get_modify, hne, hne.symm, hl]

theorem KeyIndex.holder_release (h : KeyIndex s) (key : String) :
    (s.apply (.releaseLease key)).holder = Function.update s.holder key none := by
  funext k
  simp only [OwnershipState.apply]
  split
  · rename_i i hi
    obtain ⟨l, hl, hkey, _⟩ := h key i hi
    rcases eq_or_ne k key with rfl | hk
    · simp [OwnershipState.holder]
    · rw [Function.update_of_ne hk, OwnershipState.holder, OwnershipState.holder]
      simp only [Table.get_erase, if_neg hk.symm]
      cases hj : s.keyLeases[k]? with
      | none => rfl
      | some j =>
        obtain ⟨l', hl', hkey', _⟩ := h k j hj
        have hne : i ≠ j := by
          rintro rfl
          obtain rfl := Option.some.inj (hl.symm.trans hl')
          exact hk (hkey'.symm.trans hkey)
        simp [hne]
  · rename_i hi
    rcases eq_or_ne k key with rfl | hk
    · simp [OwnershipState.holder, hi]
    · rw [Function.update_of_ne hk]

/-- The holders after a command are those after its event. -/
theorem KeyIndex.holder_apply (h : KeyIndex s) (hc : Orderly s c) :
    (s.apply c).holder = Grants.step leaseScheme s.holder c.event := by
  cases c with
  | claimTopic topic nodeId timestamp =>
    simp only [OwnershipState.apply]
    split <;> rfl
  | releaseTopic topic nodeId =>
    simp only [OwnershipState.apply]
    split <;> rfl
  | transferTopic topic fromNode toNode =>
    simp only [OwnershipState.apply]
    split <;> rfl
  | acquireLease key owner leaseId ttlSecs timestamp =>
    simp only [OwnershipState.apply, OwnershipCommand.event, Grants.step]
    split
    · rename_i l hl
      obtain ⟨hl, hlt⟩ := Option.filter_eq_some_iff.mp hl
      rw [if_pos ⟨l, hl, of_decide_eq_true hlt⟩]
    · rename_i ha
      rw [if_neg (accepts_iff_not_held.mp ha)]
      exact holder_grant (hc.1 (.acquired key owner leaseId ttlSecs timestamp) (if_pos ha))
  | renewLease leaseId timestamp =>
    funext k
    exact h.holder_renew leaseId timestamp
  | releaseLease key => exact h.holder_release key
  | expireLeases now =>
    funext k
    exact h.holder_sweep (hc.2 now rfl) k

theorem KeyIndex.exec (h : KeyIndex s) (hc : Along OwnershipState.apply Orderly s cmds) :
    KeyIndex (exec OwnershipState.apply s cmds) :=
  hc.exec_inv (fun _ c h hc => h.perform (.apply c) hc.1) h

theorem KeyIndex.holder_exec (h : KeyIndex s) (hc : Along OwnershipState.apply Orderly s cmds) :
    (Runs.exec OwnershipState.apply s cmds).holder =
      Runs.exec (Grants.step leaseScheme) s.holder (cmds.map OwnershipCommand.event) := by
  induction cmds generalizing s with
  | nil => rfl
  | cons c cmds ih =>
    rw [List.map_cons, exec_cons, exec_cons, ← h.holder_apply hc.1]
    exact ih (h.perform (.apply c) hc.1.1) hc.2

theorem grantedLease_eq_some {c : OwnershipCommand} (h : s.grantedLease c = some l) :
    c = .acquireLease l.key l.owner l.id l.ttlSecs l.acquiredAt ∧
      l = .acquired l.key l.owner l.id l.ttlSecs l.acquiredAt ∧ s.Accepts l.key l.acquiredAt := by
  cases c with
  | acquireLease key owner leaseId ttlSecs timestamp =>
    simp only [grantedLease] at h
    split at h
    · rename_i ha
      obtain rfl := Option.some.inj h
      exact ⟨rfl, rfl, ha⟩
    · cases h
  | _ => cases h

theorem holder_granted {c : OwnershipCommand} (h : s.grantedLease c = some l) :
    (s.apply c).holder l.key = some l := by
  obtain ⟨hc, hl, ha⟩ := grantedLease_eq_some h
  rw [hc]
  simp only [apply, show s.liveLease l.key l.acquiredAt = none from ha]
  rw [← hl]
  simp [holder]

theorem exec_after : exec LeaseEntry.after l cmds =
    exec (Grants.follow leaseScheme) l (cmds.map OwnershipCommand.event) := by
  induction cmds generalizing l with
  | nil => rfl
  | cons c cmds ih =>
    rw [List.map_cons, exec_cons, exec_cons, ih]
    cases c <;> rfl

theorem LeaseEntry.after_eq (l : LeaseEntry) (c : OwnershipCommand) :
    (l.after c).key = l.key ∧ (l.after c).id = l.id ∧ (l.after c).owner = l.owner := by
  cases c with
  | renewLease leaseId timestamp =>
    unfold LeaseEntry.after LeaseEntry.renew
    dsimp only
    split
    · split <;> exact ⟨rfl, rfl, rfl⟩
    · exact ⟨rfl, rfl, rfl⟩
  | _ => exact ⟨rfl, rfl, rfl⟩

theorem KeyIndex.holder_kept (h : KeyIndex s) (hc : Orderly s c) (hl : s.holder k = some l)
    (hk : l.key = k) (he : ¬ c.Ends l) : (s.apply c).holder k = some (l.after c) := by
  subst k
  rw [h.holder_apply hc]
  cases c <;> exact Grants.step_kept hl he

end DumbDistributedLog
