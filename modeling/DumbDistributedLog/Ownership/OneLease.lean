import DumbDistributedLog.Ownership.Leases

/-! # One lease for each key

The two lease tables are meant to be inverse to each other. Every operation keeps
them so except a grant, which overwrites the id of its key without removing the
record that the key named. The tables stay inverse throughout a run exactly when
no grant meets a record that shares its key but not its id, or its id but not its
key.
-/

namespace DumbDistributedLog

open OwnershipState Runs

def MachineOp.commandId : MachineOp → Option UInt64
  | .apply cmd => cmd.leaseId
  | _ => none

variable {s s' : OwnershipState} {c : OwnershipCommand} {op : MachineOp} {l : LeaseEntry}

/-- Keys and records name each other, and no two records share a key. -/
structure OneLeasePerKey (s : OwnershipState) : Prop where
  inverse : ∀ (k : String) (i : UInt64),
    s.keyLeases[k]? = some i ↔ ∃ l, s.leases[i]? = some l ∧ l.key = k ∧ l.id = i
  unique : ∀ (i j : UInt64) (a b : LeaseEntry), s.leases[i]? = some a → s.leases[j]? = some b →
    a.key = b.key → i = j

def StoredById (s : OwnershipState) : Prop :=
  ∀ (i : UInt64) (l : LeaseEntry), s.leases[i]? = some l → l.id = i

/-- An `AcquireLease` command does not reuse an id that is in the table. -/
def FreshCommand (s : OwnershipState) (op : MachineOp) : Prop :=
  ∀ id ∈ op.commandId, s.leases[id]? = none

/-- A grant meets no record with only its key or only its id. -/
def CleanGrant (s : OwnershipState) (op : MachineOp) : Prop :=
  ∀ l ∈ s.granted op, ∀ p ∈ s.leases.toList, p.2.key = l.key ↔ p.1 = l.id

instance : Decidable (FreshCommand s op) :=
  U64.decidableForallMem op.commandId

instance : Decidable (CleanGrant s op) :=
  inferInstanceAs (Decidable (∀ l ∈ s.granted op, ∀ p ∈ s.leases.toList,
    p.2.key = l.key ↔ p.1 = l.id))

/-- The keys name exactly the ids whose records carry them. -/
def Inverse (s : OwnershipState) : Prop :=
  ∀ (k : String) (i : UInt64), s.keyLeases[k]? = some i ↔ ∃ l, s.leases[i]? = some l ∧ l.key = k

theorem StoredById.oneLeasePerKey_iff (h : StoredById s) : OneLeasePerKey s ↔ Inverse s := by
  have hid : ∀ (k : String) (i : UInt64), (∃ l, s.leases[i]? = some l ∧ l.key = k) ↔
      ∃ l, s.leases[i]? = some l ∧ l.key = k ∧ l.id = i := by
    intro k i
    constructor
    · rintro ⟨l, hl, hk⟩
      exact ⟨l, hl, hk, h i l hl⟩
    · rintro ⟨l, hl, hk, _⟩
      exact ⟨l, hl, hk⟩
  constructor
  · intro ho k i
    rw [ho.inverse, hid]
  · intro ho
    refine ⟨fun k i => by rw [ho k i, hid], fun i j a b ha hb hab => ?_⟩
    have hi := (ho a.key i).mpr ⟨a, ha, rfl⟩
    have hj := (ho a.key j).mpr ⟨b, hb, hab.symm⟩
    exact Option.some.inj (hi.symm.trans hj)

theorem StoredById.perform (h : StoredById s) (op : MachineOp) : StoredById (s.perform op) := by
  refine perform_cases op ?keep ?grant ?renew ?release ?sweep
  case keep =>
    intro s' hl _ _ _ _
    simpa only [StoredById, hl] using h
  case grant =>
    intro l s' _ hl _ i l' hl'
    rw [hl, get_leases_grant] at hl'
    split at hl'
    · rename_i hi
      obtain rfl := Option.some.inj hl'
      exact hi
    · exact h i l' hl'
  case renew =>
    intro leaseId timestamp _ i l hl
    rw [Table.get_modify] at hl
    split at hl
    · rename_i hi
      obtain ⟨l', hl', rfl⟩ := Option.map_eq_some_iff.mp hl
      exact (l'.renew_key timestamp).2.trans ((h leaseId l' hl').trans hi)
    · exact h i l hl
  case release =>
    intro key leaseId _ _ i l hl
    exact h i l ((Table.get_erase_eq_some _).mp hl).2
  case sweep =>
    intro now _ _ _ i l hl
    exact h i l (get_leases_forget_eq_some.mp hl).1

theorem Inverse.grant_iff (h : Inverse s) : Inverse (s.grant l) ↔
    ∀ p ∈ s.leases.toList, p.2.key = l.key ↔ p.1 = l.id := by
  simp only [Prod.forall, Std.ExtTreeMap.mem_toList_iff_getElem?_eq_some]
  constructor
  · intro hg i a ha
    constructor
    · intro hkey
      by_contra hne
      have hi : (s.grant l).keyLeases[l.key]? = some i :=
        (hg l.key i).mpr ⟨a, by simp [Ne.symm hne, ha], hkey⟩
      rw [get_keyLeases_grant, if_pos rfl] at hi
      exact hne (Option.some.inj hi).symm
    · rintro rfl
      by_contra hne
      have hi : s.keyLeases[a.key]? = some l.id := (h a.key l.id).mpr ⟨a, ha, rfl⟩
      have hi' : (s.grant l).keyLeases[a.key]? = some l.id := by simp [Ne.symm hne, hi]
      obtain ⟨b, hb, hbk⟩ := (hg a.key l.id).mp hi'
      rw [get_leases_grant, if_pos rfl] at hb
      obtain rfl := Option.some.inj hb
      exact hne hbk.symm
  · intro hm k i
    rw [get_keyLeases_grant, get_leases_grant]
    by_cases hk : l.key = k
    · subst k
      by_cases hi : l.id = i
      · subst i; simp
      · have hno : ¬ ∃ a, s.leases[i]? = some a ∧ a.key = l.key := by
          rintro ⟨a, ha, hkey⟩
          exact hi ((hm i a ha).mp hkey).symm
        simp [hi, hno]
    · by_cases hi : l.id = i
      · subst i
        have hno : ¬ s.keyLeases[k]? = some l.id := by
          rw [h]
          rintro ⟨a, ha, rfl⟩
          exact hk ((hm l.id a ha).mpr rfl).symm
        simp [hk, hno]
      · simp [hk, hi, h k i]

theorem Inverse.forget (h : Inverse s) (keys : List String) : Inverse (keys.foldl forgetKey s) := by
  intro k i
  simp only [get_keyLeases_forget_eq_some, get_leases_forget_eq_some]
  constructor
  · rintro ⟨hn, hk⟩
    obtain ⟨l, hl, rfl⟩ := (h k i).mp hk
    exact ⟨l, ⟨hl, hn⟩, rfl⟩
  · rintro ⟨l, ⟨hl, hn⟩, rfl⟩
    exact ⟨hn, (h l.key i).mpr ⟨l, hl, rfl⟩⟩

theorem Inverse.renew (h : Inverse s) (leaseId timestamp : UInt64) :
    Inverse { s with leases := s.leases.modify leaseId fun lease => lease.renew timestamp } := by
  intro k i
  rw [Table.get_modify]
  change s.keyLeases[k]? = some i ↔ _
  rw [h]
  split
  · rename_i hi
    subst i
    cases s.leases[leaseId]? with
    | none => simp
    | some l => simp [l.renew_key timestamp]
  · rfl

theorem Inverse.release {key : String} {id : UInt64} (h : Inverse s)
    (hid : s.keyLeases[key]? = some id) :
    Inverse { s with keyLeases := s.keyLeases.erase key, leases := s.leases.erase id } := by
  intro k i
  obtain ⟨a, ha, hkey⟩ := (h key id).mp hid
  simp only [Table.get_erase]
  by_cases hk : key = k
  · subst k
    by_cases hi : id = i
    · simp [hi]
    · have hno : ¬ ∃ l, s.leases[i]? = some l ∧ l.key = key := fun hl =>
        hi (Option.some.inj (hid.symm.trans ((h key i).mpr hl)))
      simp [hi, hno]
  · by_cases hi : id = i
    · subst i
      have hno : ¬ s.keyLeases[k]? = some id := by
        rw [h]
        rintro ⟨l, hl, rfl⟩
        obtain rfl := Option.some.inj (ha.symm.trans hl)
        exact hk hkey.symm
      simp [hk, hno]
    · simp [hk, hi, h k i]

theorem Inverse.congr (hl : s'.leases = s.leases) (hk : s'.keyLeases = s.keyLeases) :
    Inverse s' ↔ Inverse s := by
  simp only [Inverse, hl, hk]

theorem Inverse.perform_iff (h : Inverse s) (op : MachineOp) :
    Inverse (s.perform op) ↔ CleanGrant s op := by
  have hclean : s.granted op = none → CleanGrant s op := by
    intro hg l hl
    rw [hg] at hl
    cases hl
  refine perform_cases (motive := fun s' => Inverse s' ↔ CleanGrant s op)
    op ?keep ?grant ?renew ?release ?sweep
  case keep => exact fun s' hl hk hg _ _ => iff_of_true ((congr hl hk).mpr h) (hclean hg)
  case grant =>
    intro l s' hg hl hk
    rw [congr hl hk, h.grant_iff]
    simp only [CleanGrant, hg, Option.mem_def, Option.some.injEq, forall_eq']
  case renew =>
    rintro leaseId timestamp rfl
    exact iff_of_true (h.renew leaseId timestamp) (hclean rfl)
  case release =>
    rintro key leaseId rfl hid
    exact iff_of_true (h.release hid) (hclean rfl)
  case sweep => exact fun now _ hg _ => iff_of_true (h.forget _) (hclean hg)

theorem inverse_new : Inverse new := by
  intro k i
  simp [new]

theorem storedById_new : StoredById new := by
  intro i l hl
  simp [new] at hl

/-- Throughout a run each key has exactly its own record if and only if every grant
of the run is clean. -/
theorem oneLeasePerKey_always_iff (ops : List MachineOp) :
    Always perform OneLeasePerKey new ops ↔ Along perform CleanGrant new ops := by
  have hstored : Along perform (fun s _ => StoredById s) new ops :=
    along_inv (fun _ op h => h.perform op) storedById_new
  refine always_iff_along (fun s op h hs => ?_)
    (storedById_new.oneLeasePerKey_iff.mpr inverse_new) hstored
  rw [(hs.perform op).oneLeasePerKey_iff]
  exact (hs.oneLeasePerKey_iff.mp h).perform_iff op

/-- A key acquired again after its lease expired has two records, although no id
was reused. -/
theorem regrant_leaves_two_records :
    let ops : List MachineOp :=
      [.apply (.acquireLease "a" 1 0 1 0), .apply (.acquireLease "a" 2 1 10 2000000000)]
    Along perform FreshCommand new ops ∧ ¬ OneLeasePerKey (exec perform new ops) := by
  refine ⟨by decide, fun h => ?_⟩
  have hij := h.unique 0 1 ⟨0, "a", 1, 0, 1, 1000000000⟩
    ⟨1, "a", 2, 2000000000, 10, 12000000000⟩ (by decide) (by decide) rfl
  exact absurd hij (by decide)

end DumbDistributedLog
