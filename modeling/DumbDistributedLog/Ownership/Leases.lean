import DumbDistributedLog.Library.Runs
import DumbDistributedLog.Ownership.Machine

/-! # The lease tables

A key names a lease id and the id names a record. Granting a key over an expired
lease leaves the expired record behind, so a key may come to have several records
of which it names one. The sweep collects the keys of expired records and then
removes by key; it is exact when the records of a key expire together.
-/

namespace DumbDistributedLog

def OwnershipCommand.sweepsAt : OwnershipCommand → Option UInt64
  | .expireLeases now => some now
  | _ => none

def OwnershipCommand.releases : OwnershipCommand → Option String
  | .releaseLease key => some key
  | _ => none

def MachineOp.sweepsAt : MachineOp → Option UInt64
  | .apply cmd => cmd.sweepsAt
  | .expireLeases now => some now
  | _ => none

def MachineOp.releases : MachineOp → Option String
  | .apply cmd => cmd.releases
  | _ => none

namespace OwnershipState

variable {s : OwnershipState} {k key : String} {i id now timestamp : UInt64} {l : LeaseEntry}

def Accepts (s : OwnershipState) (key : String) (timestamp : UInt64) : Prop :=
  s.liveLease key timestamp = none

instance : Decidable (s.Accepts key timestamp) :=
  inferInstanceAs (Decidable (s.liveLease key timestamp = none))

def grantedLease (s : OwnershipState) : OwnershipCommand → Option LeaseEntry
  | .acquireLease key owner leaseId ttlSecs timestamp =>
    if s.Accepts key timestamp then some (.acquired key owner leaseId ttlSecs timestamp) else none
  | _ => none

def granted (s : OwnershipState) : MachineOp → Option LeaseEntry
  | .apply cmd => s.grantedLease cmd
  | .acquireLease key owner ttlSecs timestamp =>
    if s.Accepts key timestamp then
      some (.acquired key owner s.nextLeaseId ttlSecs timestamp)
    else none
  | _ => none

theorem holder_eq_some : s.holder k = some l ↔
    ∃ i, s.keyLeases[k]? = some i ∧ s.leases[i]? = some l := by
  simp [holder, Option.bind_eq_some_iff]

theorem holder_congr {s' : OwnershipState} (hl : s'.leases = s.leases)
    (hk : s'.keyLeases = s.keyLeases) (key : String) : s'.holder key = s.holder key := by
  simp only [holder, hl, hk]

theorem accepts_iff :
    s.Accepts key timestamp ↔ ∀ l, s.holder key = some l → l.expiresAt ≤ timestamp := by
  simp [Accepts, liveLease, Option.filter_eq_none_iff]

@[simp] theorem get_leases_grant (l : LeaseEntry) :
    (s.grant l).leases[i]? = if l.id = i then some l else s.leases[i]? :=
  Table.get_insert _ _ _ _

@[simp] theorem get_keyLeases_grant (l : LeaseEntry) :
    (s.grant l).keyLeases[k]? = if l.key = k then some l.id else s.keyLeases[k]? :=
  Table.get_insert _ _ _ _

theorem holder_grant_of_ne (hkey : l.key ≠ key) (hid : s.keyLeases[key]? ≠ some l.id) :
    (s.grant l).holder key = s.holder key := by
  rw [holder, holder, get_keyLeases_grant, if_neg hkey]
  cases hi : s.keyLeases[key]? with
  | none => rfl
  | some i =>
    have hne : l.id ≠ i := by
      rintro rfl
      exact hid hi
    simp [hne]

theorem get_leases_forget (keys : List String) :
    (keys.foldl forgetKey s).leases[i]? = s.leases[i]?.filter fun l => l.key ∉ keys := by
  induction keys generalizing s with
  | nil =>
    rw [List.foldl_nil]
    cases s.leases[i]? <;> simp [Option.filter]
  | cons key keys ih =>
    rw [List.foldl_cons, ih, forgetKey, Table.get_filter, Option.filter_filter]
    congr 1
    ext l
    simp [not_or]

theorem get_keyLeases_forget (keys : List String) :
    (keys.foldl forgetKey s).keyLeases[k]? = if k ∈ keys then none else s.keyLeases[k]? := by
  induction keys generalizing s with
  | nil => simp
  | cons key keys ih =>
    rw [List.foldl_cons, ih, forgetKey, Table.get_erase]
    by_cases hk : k ∈ keys
    · simp [hk]
    · by_cases he : key = k
      · simp [he]
      · simp [hk, he, Ne.symm he]

theorem get_leases_forget_eq_some {keys : List String} :
    (keys.foldl forgetKey s).leases[i]? = some l ↔ s.leases[i]? = some l ∧ l.key ∉ keys := by
  rw [get_leases_forget, Option.filter_eq_some_iff, decide_eq_true_eq]

theorem get_keyLeases_forget_eq_some {keys : List String} :
    (keys.foldl forgetKey s).keyLeases[k]? = some i ↔ k ∉ keys ∧ s.keyLeases[k]? = some i := by
  rw [get_keyLeases_forget]
  split <;> simp_all

theorem mem_expiredKeys :
    k ∈ s.expiredKeys now ↔ ∃ l ∈ s.leases.values, l.expiresAt ≤ now ∧ l.key = k := by
  simp [expiredKeys, and_assoc]

theorem expiredKeys_eq_nil_iff :
    s.expiredKeys now = [] ↔ ∀ l ∈ s.leases.values, now < l.expiresAt := by
  simp [expiredKeys]

theorem key_mem_expiredKeys_iff (hl : l ∈ s.leases.values)
    (hsame : ∀ a ∈ s.leases.values, a.key = l.key → a.expiresAt ≤ now → l.expiresAt ≤ now) :
    l.key ∈ s.expiredKeys now ↔ l.expiresAt ≤ now := by
  rw [mem_expiredKeys]
  constructor
  · rintro ⟨a, ha, hexp, hkey⟩
    exact hsame a ha hkey hexp
  · intro hexp
    exact ⟨l, hl, hexp, rfl⟩

theorem expiredKeys_sweep (s : OwnershipState) (now : UInt64) :
    ((s.expiredKeys now).foldl forgetKey s).expiredKeys now = [] := by
  refine List.eq_nil_iff_forall_not_mem.mpr fun k hk => ?_
  obtain ⟨l, hl, hexp, rfl⟩ := mem_expiredKeys.mp hk
  obtain ⟨i, hi⟩ := (Table.mem_values _).mp hl
  obtain ⟨hget, hn⟩ := get_leases_forget_eq_some.mp hi
  exact hn (mem_expiredKeys.mpr ⟨l, (Table.mem_values _).mpr ⟨i, hget⟩, hexp, rfl⟩)

theorem expiredKeys_apply (s : OwnershipState) (now : UInt64) :
    (s.apply (.expireLeases now)).expiredKeys now = [] :=
  expiredKeys_sweep s now

theorem expireLeases_eq_self_iff :
    (s.expireLeases now).1 = s ↔ ∀ l ∈ s.leases.values, now < l.expiresAt := by
  rw [← expiredKeys_eq_nil_iff]
  constructor
  · intro h
    have hswept := expiredKeys_sweep s now
    rwa [show (s.expiredKeys now).foldl forgetKey s = s from h] at hswept
  · intro h
    rw [expireLeases, h, List.foldl_nil]

/-- What an operation can do to the two lease tables. -/
theorem perform_cases {motive : OwnershipState → Prop} (op : MachineOp)
    (keep : ∀ s' : OwnershipState, s'.leases = s.leases → s'.keyLeases = s.keyLeases →
      s.granted op = none → (∀ key ∈ op.releases, s.keyLeases[key]? = none) →
      op.sweepsAt = none → motive s')
    (grant : ∀ (l : LeaseEntry) (s' : OwnershipState), s.granted op = some l →
      s'.leases = (s.grant l).leases → s'.keyLeases = (s.grant l).keyLeases → motive s')
    (renew : ∀ leaseId timestamp, op = .apply (.renewLease leaseId timestamp) →
      motive { s with leases := s.leases.modify leaseId fun lease => lease.renew timestamp })
    (release : ∀ key leaseId, op = .apply (.releaseLease key) → s.keyLeases[key]? = some leaseId →
      motive { s with keyLeases := s.keyLeases.erase key, leases := s.leases.erase leaseId })
    (sweep : ∀ now, op.sweepsAt = some now → s.granted op = none → op.releases = none →
      motive ((s.expiredKeys now).foldl forgetKey s)) :
    motive (s.perform op) := by
  have hno : ∀ key ∈ (none : Option String), s.keyLeases[key]? = none := by simp
  cases op with
  | apply cmd =>
    cases cmd with
    | claimTopic topic nodeId timestamp =>
      simp only [perform, apply]
      split <;> exact keep _ rfl rfl rfl hno rfl
    | releaseTopic topic nodeId =>
      simp only [perform, apply]
      split <;> exact keep _ rfl rfl rfl hno rfl
    | transferTopic topic fromNode toNode =>
      simp only [perform, apply]
      split <;> exact keep _ rfl rfl rfl hno rfl
    | acquireLease key owner leaseId ttlSecs timestamp =>
      simp only [perform, apply]
      split
      · rename_i ha
        exact keep _ rfl rfl (if_neg (by simp [Accepts, ha])) hno rfl
      · rename_i ha
        exact grant _ _ (if_pos ha) rfl rfl
    | renewLease leaseId timestamp => exact renew leaseId timestamp rfl
    | releaseLease key =>
      simp only [perform, apply]
      split
      · rename_i leaseId hid
        exact release key leaseId rfl hid
      · rename_i hid
        refine keep _ rfl rfl rfl (fun k hk => ?_) rfl
        obtain rfl := Option.some.inj hk
        exact hid
    | expireLeases now => exact sweep now rfl rfl rfl
  | acquireLease key owner ttlSecs timestamp =>
    simp only [perform, acquireLease]
    split
    · rename_i ha
      exact keep _ rfl rfl (if_neg (by simp [Accepts, ha])) hno rfl
    · rename_i ha
      exact grant _ _ (if_pos ha) rfl rfl
  | expireLeases now => exact sweep now rfl rfl rfl
  | nextLeaseId => exact keep _ rfl rfl rfl hno rfl

end OwnershipState

open OwnershipState

variable {s : OwnershipState} {c : OwnershipCommand} {now : UInt64} {l : LeaseEntry}

/-- Every key names a record that carries it. -/
def KeyIndex (s : OwnershipState) : Prop :=
  ∀ (k : String) (i : UInt64), s.keyLeases[k]? = some i →
    ∃ l, s.leases[i]? = some l ∧ l.key = k ∧ l.id = i

/-- No key but the given one names the id. -/
def FreeId (s : OwnershipState) (key : String) (id : UInt64) : Prop :=
  ∀ p ∈ s.keyLeases.toList, p.2 = id → p.1 = key

instance (key : String) (id : UInt64) : Decidable (FreeId s key id) :=
  inferInstanceAs (Decidable (∀ p ∈ s.keyLeases.toList, p.2 = id → p.1 = key))

theorem FreeId.eq {k key : String} {id : UInt64} (h : FreeId s key id)
    (hk : s.keyLeases[k]? = some id) : k = key :=
  h (k, id) (Std.ExtTreeMap.mem_toList_iff_getElem?_eq_some.mpr hk) rfl

/-- A grant does not take the id that another key names. -/
def TakesFreeId (s : OwnershipState) (c : OwnershipCommand) : Prop :=
  ∀ l ∈ s.grantedLease c, FreeId s l.key l.id

instance : Decidable (TakesFreeId s c) :=
  inferInstanceAs (Decidable (∀ l ∈ s.grantedLease c, FreeId s l.key l.id))

theorem KeyIndex.holder {k : String} (h : KeyIndex s) (hl : s.holder k = some l) :
    s.keyLeases[k]? = some l.id ∧ s.leases[l.id]? = some l ∧ l.key = k := by
  obtain ⟨i, hi, hl⟩ := holder_eq_some.mp hl
  obtain ⟨l', hl', hk, rfl⟩ := h k i hi
  obtain rfl : l' = l := Option.some.inj (hl'.symm.trans hl)
  exact ⟨hi, hl, hk⟩

theorem keyIndex_new : KeyIndex new := by
  intro k i h
  simp [new] at h

theorem KeyIndex.grant (h : KeyIndex s) (hf : FreeId s l.key l.id) : KeyIndex (s.grant l) := by
  intro k i hk
  rw [get_keyLeases_grant] at hk
  split at hk
  · rename_i he
    obtain rfl := Option.some.inj hk
    exact ⟨l, by simp, he, rfl⟩
  · rename_i he
    obtain ⟨l', hl', hkey, hid⟩ := h k i hk
    have hne : l.id ≠ i := by
      rintro rfl
      exact he (hf.eq hk).symm
    exact ⟨l', by simp [hne, hl'], hkey, hid⟩

theorem LeaseEntry.renew_key (l : LeaseEntry) (timestamp : UInt64) :
    (l.renew timestamp).key = l.key ∧ (l.renew timestamp).id = l.id := by
  unfold LeaseEntry.renew
  split <;> exact ⟨rfl, rfl⟩

theorem KeyIndex.congr {s' : OwnershipState} (h : KeyIndex s) (hl : s'.leases = s.leases)
    (hk : s'.keyLeases = s.keyLeases) : KeyIndex s' := by
  simpa only [KeyIndex, hl, hk] using h

theorem KeyIndex.perform (h : KeyIndex s) (op : MachineOp)
    (hop : ∀ l ∈ s.granted op, FreeId s l.key l.id) : KeyIndex (s.perform op) := by
  refine perform_cases op ?keep ?grant ?renew ?release ?sweep
  case keep => exact fun s' hl hk _ _ _ => h.congr hl hk
  case grant => exact fun l s' hl hle hke => (h.grant (hop l hl)).congr hle hke
  case renew =>
    intro leaseId timestamp _ k i hk
    obtain ⟨l, hl, hkey, hid⟩ := h k i hk
    rcases eq_or_ne leaseId i with rfl | hi
    · have hr := l.renew_key timestamp
      exact ⟨l.renew timestamp, by simp [hl], hr.1.trans hkey, hr.2.trans hid⟩
    · exact ⟨l, by simp [Table.get_modify, hi, hl], hkey, hid⟩
  case release =>
    intro key i _ hi k j hk
    obtain ⟨hne, hk⟩ := (Table.get_erase_eq_some _).mp hk
    obtain ⟨l, hl, hkey, hid⟩ := h k j hk
    obtain ⟨l', hl', hkey', _⟩ := h key i hi
    have hij : i ≠ j := by
      rintro rfl
      obtain rfl : l' = l := Option.some.inj (hl'.symm.trans hl)
      exact hne (hkey'.symm.trans hkey)
    exact ⟨l, (Table.get_erase_eq_some _).mpr ⟨hij, hl⟩, hkey, hid⟩
  case sweep =>
    intro now _ _ _ k i hk
    obtain ⟨hn, hk⟩ := get_keyLeases_forget_eq_some.mp hk
    obtain ⟨l, hl, hkey, hid⟩ := h k i hk
    exact ⟨l, get_leases_forget_eq_some.mpr ⟨hl, hkey ▸ hn⟩, hkey, hid⟩

/-- No key has an expired record while the lease that it names is unexpired. -/
def SweepSafe (s : OwnershipState) (now : UInt64) : Prop :=
  ∀ l ∈ s.leases.values, l.expiresAt ≤ now → ∀ l' ∈ s.holder l.key, l'.expiresAt ≤ now

instance : Decidable (SweepSafe s now) :=
  inferInstanceAs (Decidable (∀ l ∈ s.leases.values, l.expiresAt ≤ now →
    ∀ l' ∈ s.holder l.key, l'.expiresAt ≤ now))

theorem KeyIndex.holder_sweep (h : KeyIndex s) (hs : SweepSafe s now) (k : String) :
    ((s.expiredKeys now).foldl forgetKey s).holder k =
      (s.holder k).filter fun l => now < l.expiresAt := by
  cases hl : s.holder k with
  | none =>
    have hno : ∀ i : UInt64, s.keyLeases[k]? ≠ some i := by
      intro i hi
      obtain ⟨l, hl', _⟩ := h k i hi
      exact absurd hl (by simp [OwnershipState.holder, hi, hl'])
    have hnone := Option.eq_none_iff_forall_ne_some.mpr hno
    simp [OwnershipState.holder, get_keyLeases_forget, hnone]
  | some l =>
    obtain ⟨hid, hget, rfl⟩ := h.holder hl
    have hmem : l.key ∈ s.expiredKeys now ↔ l.expiresAt ≤ now := by
      rw [mem_expiredKeys]
      constructor
      · rintro ⟨a, ha, hexp, hkey⟩
        exact hs a ha hexp l (hkey ▸ hl)
      · intro hexp
        exact ⟨l, (Table.mem_values _).mpr ⟨l.id, hget⟩, hexp, rfl⟩
    rcases le_or_gt l.expiresAt now with hexp | hlt
    · simp [OwnershipState.holder, get_keyLeases_forget, hmem.mpr hexp, Option.filter, hexp]
    · have hn : l.key ∉ s.expiredKeys now := fun hc => not_le.mpr hlt (hmem.mp hc)
      simp [OwnershipState.holder, get_keyLeases_forget, get_leases_forget, hid, hget, hn,
        Option.filter, hlt]

section AcceptedIds

open Runs

def OwnershipState.acceptedIds : OwnershipState → List OwnershipCommand → List UInt64
  | _, [] => []
  | s, c :: cmds => (s.grantedLease c).toList.map (fun l => l.id) ++ (s.apply c).acceptedIds cmds

def OwnershipCommand.leaseId : OwnershipCommand → Option UInt64
  | .acquireLease _ _ leaseId _ _ => some leaseId
  | _ => none

theorem acceptedIds_sublist (s : OwnershipState) (cmds : List OwnershipCommand) :
    (s.acceptedIds cmds).Sublist (cmds.filterMap OwnershipCommand.leaseId) := by
  induction cmds generalizing s with
  | nil => exact .slnil
  | cons c cmds ih =>
    cases c with
    | acquireLease key owner leaseId ttlSecs timestamp =>
      simp only [acceptedIds, grantedLease]
      split
      · exact (ih _).cons_cons leaseId
      · exact (ih _).cons leaseId
    | _ => exact ih _

theorem keyLeases_perform {k : String} {i : UInt64} (op : MachineOp)
    (h : (s.perform op).keyLeases[k]? = some i) :
    s.keyLeases[k]? = some i ∨ ∃ l ∈ s.granted op, l.key = k ∧ l.id = i := by
  refine perform_cases
    (motive := fun s' => s'.keyLeases[k]? = some i →
      s.keyLeases[k]? = some i ∨ ∃ l ∈ s.granted op, l.key = k ∧ l.id = i)
    op ?keep ?grant ?renew ?release ?sweep h
  case keep => exact fun s' _ hk _ _ _ h => Or.inl (hk ▸ h)
  case grant =>
    intro l s' hl _ hk h
    rw [hk, get_keyLeases_grant] at h
    split at h
    · rename_i hkey
      exact Or.inr ⟨l, hl, hkey, Option.some.inj h⟩
    · exact Or.inl h
  case renew => exact fun _ _ _ h => Or.inl h
  case release => exact fun _ _ _ _ h => Or.inl ((Table.get_erase_eq_some _).mp h).2
  case sweep => exact fun _ _ _ _ h => Or.inl (get_keyLeases_forget_eq_some.mp h).2

theorem along_takesFreeId {cmds : List OwnershipCommand} (seen : List UInt64)
    (hseen : ∀ (k : String) (i : UInt64), s.keyLeases[k]? = some i → i ∈ seen)
    (hn : (seen ++ s.acceptedIds cmds).Nodup) :
    Along OwnershipState.apply TakesFreeId s cmds := by
  induction cmds generalizing s seen with
  | nil => trivial
  | cons c cmds ih =>
    rw [acceptedIds, ← List.append_assoc] at hn
    refine ⟨fun l hl => ?_, ih _ (fun k i hk => ?_) hn⟩
    · rintro ⟨k, i⟩ hp rfl
      have hi := hseen k _ (Std.ExtTreeMap.mem_toList_iff_getElem?_eq_some.mp hp)
      have hd := (List.nodup_append.mp (List.nodup_append.mp hn).1).2.2
      exact (hd _ hi _ (List.mem_map_of_mem (Option.mem_toList.mpr hl)) rfl).elim
    · rcases keyLeases_perform (.apply c) hk with h | ⟨l, hl, _, rfl⟩
      · exact List.mem_append_left _ (hseen k i h)
      · exact List.mem_append_right _ (List.mem_map_of_mem (Option.mem_toList.mpr hl))

theorem along_takesFreeId_new {cmds : List OwnershipCommand} (hn : (new.acceptedIds cmds).Nodup) :
    Along OwnershipState.apply TakesFreeId new cmds :=
  along_takesFreeId [] (fun k i hk => by simp [new] at hk) hn

theorem keyIndex_exec {cmds : List OwnershipCommand} (hn : (new.acceptedIds cmds).Nodup) :
    KeyIndex (exec OwnershipState.apply new cmds) :=
  (along_takesFreeId_new hn).exec_inv (fun _ c h hc => h.perform (.apply c) hc) keyIndex_new

end AcceptedIds

end DumbDistributedLog
