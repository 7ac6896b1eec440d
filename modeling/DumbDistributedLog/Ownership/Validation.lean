import Mathlib.Data.List.Nodup
import DumbDistributedLog.Cluster.Locks
import DumbDistributedLog.Ownership.Boundaries
import DumbDistributedLog.Ownership.OneLease
import DumbDistributedLog.Ownership.Topics

/-! # The consistency check

The check runs through the tables one after the other and returns the first fault it
finds. What it lets pass is less than what the state keeps: two keys may name one record,
a record may carry another id than its own, and a list may repeat a topic. What it asks
is in one point more: the end of a lease must be its term after its acquisition, which a
renewal moves.
-/

namespace DumbDistributedLog

open Runs

namespace OwnershipState

variable (s : OwnershipState)

def checkKeyLease (entry : String × UInt64) : Except ValidationError Unit :=
  if s.leases.contains entry.2 then .ok () else .error .orphanedKeyLease

def checkLeaseKey (entry : UInt64 × LeaseEntry) : Except ValidationError Unit :=
  match s.keyLeases[entry.2.key]? with
  | some mappedId => if mappedId ≠ entry.1 then .error .leaseIdInconsistency else .ok ()
  | none => .error .danglingLease

def checkExpiration (entry : UInt64 × LeaseEntry) : Except ValidationError Unit :=
  if entry.2.expiresAt ≠ leaseExpiry entry.2.acquiredAt entry.2.ttlSecs then
    .error .invalidLeaseExpiration
  else .ok ()

def checkOwner (topic : String) (owner : NodeId) : Except ValidationError Unit :=
  match s.nodeTopics[owner]? with
  | some topics =>
    if topics.contains topic then .ok ()
    else .error (.custom s!"Topic {topic} owned by {owner} not in owner's topic list")
  | none => .error (.custom s!"Owner {owner} has no topic list but owns topic {topic}")

def checkListed (nodeId : NodeId) (topic : String) : Except ValidationError Unit :=
  match s.ownership[topic]? with
  | some owner =>
    if owner = nodeId then .ok ()
    else .error (.custom s!"Topic {topic} in node {nodeId}'s list but owned by {owner}")
  | none => .error (.custom s!"Topic {topic} in node {nodeId}'s list but has no owner")

/-- Check the consistency of the tables, each in the order of its keys. -/
def validate : Except ValidationError Unit := do
  s.keyLeases.toList.forM s.checkKeyLease
  s.leases.toList.forM s.checkLeaseKey
  s.leases.toList.forM checkExpiration
  s.ownership.toList.forM fun entry => s.checkOwner entry.1 entry.2
  s.nodeTopics.toList.forM fun entry => entry.2.forM (s.checkListed entry.1)

instance : Validate OwnershipState := ⟨validate⟩

end OwnershipState

open OwnershipState

variable {s : OwnershipState} {c : OwnershipCommand} {k : String} {i : UInt64} {l : LeaseEntry}

structure ValidLeases (s : OwnershipState) : Prop where
  named : ∀ (k : String) (i : UInt64), s.keyLeases[k]? = some i → ∃ l, s.leases[i]? = some l
  tracked : ∀ (i : UInt64) (l : LeaseEntry), s.leases[i]? = some l → s.keyLeases[l.key]? = some i
  ends : ∀ (i : UInt64) (l : LeaseEntry), s.leases[i]? = some l →
    l.expiresAt = leaseExpiry l.acquiredAt l.ttlSecs

def ValidTopics (s : OwnershipState) : Prop :=
  ∀ (t : String) (n : NodeId), s.ownership[t]? = some n ↔ t ∈ s.getNodeTopics n

/-- The condition under which a command keeps a valid state valid. Acquisitions must not
leave a record of the key behind, renewals must not move an end, and releases and sweeps
must not remove a record that another key names. -/
def KeepsValid (s : OwnershipState) : OwnershipCommand → Prop
  | .acquireLease key _ leaseId _ timestamp => s.Accepts key timestamp →
    ∀ p ∈ s.leases.toList, p.2.key = key → p.1 = leaseId
  | .renewLease leaseId timestamp => ∀ l ∈ s.leases[leaseId]?, timestamp < l.expiresAt →
    leaseExpiry timestamp l.ttlSecs = l.expiresAt
  | .releaseLease key => ∀ leaseId ∈ s.keyLeases[key]?, FreeId s key leaseId
  | .expireLeases now => ∀ p ∈ s.leases.toList, p.2.expiresAt ≤ now → FreeId s p.2.key p.1
  | _ => True

theorem checkKeyLease_eq_ok {entry : String × UInt64} :
    s.checkKeyLease entry = .ok () ↔ ∃ l, s.leases[entry.2]? = some l := by
  rw [← Option.isSome_iff_exists, ← Std.ExtTreeMap.contains_eq_isSome_getElem?]
  unfold checkKeyLease
  cases s.leases.contains entry.2 <;> simp

theorem checkLeaseKey_eq_ok {entry : UInt64 × LeaseEntry} :
    s.checkLeaseKey entry = .ok () ↔ s.keyLeases[entry.2.key]? = some entry.1 := by
  unfold checkLeaseKey
  cases s.keyLeases[entry.2.key]? with
  | none => simp
  | some mappedId => by_cases h : mappedId = entry.1 <;> simp [h]

theorem checkExpiration_eq_ok {entry : UInt64 × LeaseEntry} : checkExpiration entry = .ok () ↔
    entry.2.expiresAt = leaseExpiry entry.2.acquiredAt entry.2.ttlSecs := by
  unfold checkExpiration
  split <;> simp_all

theorem checkOwner_eq_ok {t : String} {n : NodeId} :
    s.checkOwner t n = .ok () ↔ t ∈ s.getNodeTopics n := by
  rw [mem_getNodeTopics]
  unfold checkOwner
  cases s.nodeTopics[n]? with
  | none => simp
  | some topics => by_cases h : t ∈ topics <;> simp [h]

theorem checkListed_eq_ok {t : String} {n : NodeId} :
    s.checkListed n t = .ok () ↔ s.ownership[t]? = some n := by
  unfold checkListed
  cases s.ownership[t]? with
  | none => simp
  | some owner => by_cases h : owner = n <;> simp [h]

theorem validate_eq_ok_iff : s.validate = .ok () ↔ ValidLeases s ∧ ValidTopics s := by
  unfold validate
  simp only [seq_eq_ok, forM_eq_ok, Prod.forall, Std.ExtTreeMap.mem_toList_iff_getElem?_eq_some,
    checkKeyLease_eq_ok, checkLeaseKey_eq_ok, checkExpiration_eq_ok, checkOwner_eq_ok,
    checkListed_eq_ok]
  constructor
  · rintro ⟨hnamed, htracked, hends, howned, hlisted⟩
    refine ⟨⟨hnamed, htracked, hends⟩, fun t n => ⟨howned t n, fun ht => ?_⟩⟩
    obtain ⟨topics, htopics, ht⟩ := mem_getNodeTopics.mp ht
    exact hlisted n topics htopics t ht
  · rintro ⟨⟨hnamed, htracked, hends⟩, howner⟩
    refine ⟨hnamed, htracked, hends, fun t n => (howner t n).mp, fun n topics htopics t ht => ?_⟩
    exact (howner t n).mpr (mem_getNodeTopics.mpr ⟨topics, htopics, ht⟩)

theorem freeId_iff : FreeId s k i ↔ ∀ k' : String, s.keyLeases[k']? = some i → k' = k := by
  constructor
  · intro h k' hk'
    exact h.eq hk'
  · rintro h ⟨k', j⟩ hp rfl
    exact h k' (Std.ExtTreeMap.mem_toList_iff_getElem?_eq_some.mp hp)

/-- Topic commands move a topic in both tables alike, whether or not a list repeats it. -/
theorem ValidTopics.apply (h : ValidTopics s) (c : OwnershipCommand) : ValidTopics (s.apply c) := by
  intro u m
  have hu : s.getOwner u = some m ↔ u ∈ s.getNodeTopics m := h u m
  refine (iff_of_eq (congrArg (· = some m) (getOwner_apply c))).trans ?_
  cases c with
  | claimTopic topic nodeId timestamp =>
    cases ho : s.ownership[topic]? with
    | none =>
      have hnone : topic ∉ s.getNodeTopics m := by simp [← h topic m, ho]
      simp only [OwnershipState.apply, ho, mem_getNodeTopics_listTopic, getNodeTopics_setOwner]
      grind
    | some prevOwner =>
      have hprev : topic ∈ s.getNodeTopics m ↔ prevOwner = m := by simp [← h topic m, ho]
      simp only [OwnershipState.apply, ho, mem_getNodeTopics_listTopic, getNodeTopics_setOwner,
        mem_getNodeTopics_dropTopic]
      grind
  | releaseTopic topic nodeId =>
    by_cases ho : s.ownership[topic]? = some nodeId
    · have hprev : topic ∈ s.getNodeTopics m ↔ nodeId = m := by simp [← h topic m, ho]
      have hmem : u ∈ (s.apply (.releaseTopic topic nodeId)).getNodeTopics m ↔
          u ∈ s.getNodeTopics m ∧ ¬ (nodeId = m ∧ u = topic) := by
        simp only [OwnershipState.apply, if_pos ho]
        exact mem_getNodeTopics_dropTopic
      grind
    · have hown : ¬ s.getOwner topic = some nodeId := ho
      simp only [OwnershipState.apply, if_neg ho]
      grind
  | transferTopic topic fromNode toNode =>
    by_cases ho : s.ownership[topic]? = some fromNode
    · have hprev : topic ∈ s.getNodeTopics m ↔ fromNode = m := by simp [← h topic m, ho]
      have hown : s.getOwner topic = some fromNode := ho
      simp only [OwnershipState.apply, if_pos ho, mem_getNodeTopics_listTopic,
        mem_getNodeTopics_dropTopic, getNodeTopics_setOwner]
      grind
    · have hown : ¬ s.getOwner topic = some fromNode := ho
      simp only [OwnershipState.apply, if_neg ho]
      grind
  | acquireLease key owner leaseId ttlSecs timestamp =>
    simp only [OwnershipState.apply]
    split <;> exact hu
  | renewLease leaseId timestamp => exact hu
  | releaseLease key =>
    simp only [OwnershipState.apply]
    split <;> exact hu
  | expireLeases now =>
    rw [getNodeTopics, show (s.apply (.expireLeases now)).nodeTopics = s.nodeTopics from
      (foldl_forgetKey_topics _).2]
    exact hu

namespace ValidLeases

theorem congr {s' : OwnershipState} (h : ValidLeases s) (hl : s'.leases = s.leases)
    (hk : s'.keyLeases = s.keyLeases) : ValidLeases s' := by
  refine ⟨?_, ?_, ?_⟩
  · simpa only [hl, hk] using h.named
  · simpa only [hl, hk] using h.tracked
  · simpa only [hl] using h.ends

theorem eq_of_key {j : UInt64} {a : LeaseEntry} (h : ValidLeases s) (hi : s.leases[i]? = some l)
    (hj : s.leases[j]? = some a) (hkey : a.key = l.key) : j = i ∧ a = l := by
  have hnamed := h.tracked j a hj
  rw [hkey, h.tracked i l hi] at hnamed
  obtain rfl := Option.some.inj hnamed
  exact ⟨rfl, Option.some.inj (hj.symm.trans hi)⟩

theorem mem_expiredKeys_iff {now : UInt64} (h : ValidLeases s) (hi : s.leases[i]? = some l) :
    l.key ∈ s.expiredKeys now ↔ l.expiresAt ≤ now := by
  refine key_mem_expiredKeys_iff ((Table.mem_values _).mpr ⟨i, hi⟩) fun a ha hkey hexp => ?_
  obtain ⟨j, hj⟩ := (Table.mem_values _).mp ha
  obtain ⟨-, rfl⟩ := h.eq_of_key hi hj hkey
  exact hexp

theorem grant_iff (h : ValidLeases s) (hend : l.expiresAt = leaseExpiry l.acquiredAt l.ttlSecs) :
    ValidLeases (s.grant l) ↔ ∀ p ∈ s.leases.toList, p.2.key = l.key → p.1 = l.id := by
  simp only [Prod.forall, Std.ExtTreeMap.mem_toList_iff_getElem?_eq_some]
  constructor
  · intro h' j a ha hkey
    by_contra hne
    have hget : (s.grant l).leases[j]? = some a := by simp [Ne.symm hne, ha]
    have hnamed := h'.tracked j a hget
    rw [get_keyLeases_grant, if_pos hkey.symm] at hnamed
    exact hne (Option.some.inj hnamed).symm
  · intro honly
    refine ⟨fun k j hk => ?_, fun j a ha => ?_, fun j a ha => ?_⟩
    · rw [get_keyLeases_grant] at hk
      rw [get_leases_grant]
      split
      · exact ⟨l, rfl⟩
      · rename_i hne
        split at hk
        · exact absurd (Option.some.inj hk) hne
        · exact h.named k j hk
    · rw [get_leases_grant] at ha
      rw [get_keyLeases_grant]
      split at ha
      · rename_i hid
        obtain rfl := Option.some.inj ha
        rw [if_pos rfl, hid]
      · rename_i hid
        rw [if_neg fun hkey => hid (honly j a ha hkey.symm).symm]
        exact h.tracked j a ha
    · rw [get_leases_grant] at ha
      split at ha
      · obtain rfl := Option.some.inj ha
        exact hend
      · exact h.ends j a ha

theorem renew_iff (h : ValidLeases s) (i t : UInt64) :
    ValidLeases (s.apply (.renewLease i t)) ↔ KeepsValid s (.renewLease i t) := by
  constructor
  · intro h' l hl ht
    have hend := h'.ends i _ (get_leases_renew hl)
    rw [LeaseEntry.renew, if_pos ht] at hend
    exact hend.trans (h.ends i l hl).symm
  · intro hkeep
    have hself : s.apply (.renewLease i t) = s := by
      refine apply_renewLease_eq_self fun l hl => ?_
      unfold LeaseEntry.renew
      split
      · rename_i ht
        rw [hkeep l hl ht]
      · rfl
    rwa [hself]

theorem release_iff (h : ValidLeases s) (hk : s.keyLeases[k]? = some i) :
    ValidLeases { s with keyLeases := s.keyLeases.erase k, leases := s.leases.erase i } ↔
      FreeId s k i := by
  rw [freeId_iff]
  constructor
  · intro h' k' hk'
    by_contra hne
    obtain ⟨l, hl⟩ := h'.named k' i ((Table.get_erase_eq_some _).mpr ⟨Ne.symm hne, hk'⟩)
    exact ((Table.get_erase_eq_some _).mp hl).1 rfl
  · intro hfree
    refine ⟨fun k' j hj => ?_, fun j a ha => ?_, fun j a ha => ?_⟩
    · obtain ⟨hne, hj⟩ := (Table.get_erase_eq_some _).mp hj
      obtain ⟨a, ha⟩ := h.named k' j hj
      refine ⟨a, (Table.get_erase_eq_some _).mpr ⟨?_, ha⟩⟩
      rintro rfl
      exact hne (hfree k' hj).symm
    · obtain ⟨hne, ha⟩ := (Table.get_erase_eq_some _).mp ha
      have hnamed := h.tracked j a ha
      refine (Table.get_erase_eq_some _).mpr ⟨?_, hnamed⟩
      rintro rfl
      exact hne (Option.some.inj (hk.symm.trans hnamed))
    · exact h.ends j a ((Table.get_erase_eq_some _).mp ha).2

theorem sweep_iff (h : ValidLeases s) (now : UInt64) :
    ValidLeases (s.apply (.expireLeases now)) ↔ KeepsValid s (.expireLeases now) := by
  simp only [KeepsValid, Prod.forall, Std.ExtTreeMap.mem_toList_iff_getElem?_eq_some, freeId_iff]
  constructor
  · intro h' i l hl hexp k hk
    by_contra hne
    have hmem : k ∉ s.expiredKeys now := by
      intro hmem
      obtain ⟨a, ha, -, rfl⟩ := mem_expiredKeys.mp hmem
      obtain ⟨j, hj⟩ := (Table.mem_values _).mp ha
      obtain rfl := Option.some.inj ((h.tracked j a hj).symm.trans hk)
      obtain rfl := Option.some.inj (hj.symm.trans hl)
      exact hne rfl
    obtain ⟨a, ha⟩ := h'.named k i (get_keyLeases_forget_eq_some.mpr ⟨hmem, hk⟩)
    obtain ⟨ha, hkept⟩ := get_leases_forget_eq_some.mp ha
    obtain rfl := Option.some.inj (ha.symm.trans hl)
    exact hkept ((h.mem_expiredKeys_iff hl).mpr hexp)
  · intro hfree
    refine ⟨fun k i hk => ?_, fun i l hl => ?_, fun i l hl => ?_⟩
    · obtain ⟨hmem, hk⟩ := get_keyLeases_forget_eq_some.mp hk
      obtain ⟨l, hl⟩ := h.named k i hk
      refine ⟨l, get_leases_forget_eq_some.mpr ⟨hl, fun hexp => ?_⟩⟩
      have hle := (h.mem_expiredKeys_iff hl).mp hexp
      exact hmem (hfree i l hl hle k hk ▸ hexp)
    · obtain ⟨hl, hkept⟩ := get_leases_forget_eq_some.mp hl
      exact get_keyLeases_forget_eq_some.mpr ⟨hkept, h.tracked i l hl⟩
    · exact h.ends i l (get_leases_forget_eq_some.mp hl).1

theorem apply_iff (h : ValidLeases s) (c : OwnershipCommand) :
    ValidLeases (s.apply c) ↔ KeepsValid s c := by
  cases c with
  | claimTopic | releaseTopic | transferTopic =>
    refine iff_of_true (h.congr ?_ ?_) trivial <;>
    · simp only [OwnershipState.apply]
      split <;> rfl
  | acquireLease key owner leaseId ttlSecs timestamp =>
    by_cases ha : s.Accepts key timestamp
    · have hlive : s.liveLease key timestamp = none := ha
      have hgrant := h.grant_iff (l := .acquired key owner leaseId ttlSecs timestamp) rfl
      simp only [OwnershipState.apply, hlive]
      constructor
      · intro h' _
        exact hgrant.mp (h'.congr rfl rfl)
      · intro hkeep
        exact (hgrant.mpr (hkeep ha)).congr rfl rfl
    · rw [apply_acquireLease_of_not_accepts ha]
      exact iff_of_true h fun ha' => absurd ha' ha
  | renewLease leaseId timestamp => exact h.renew_iff leaseId timestamp
  | releaseLease key =>
    cases hk : s.keyLeases[key]? with
    | none =>
      simp only [OwnershipState.apply, hk]
      exact iff_of_true h (by simp [KeepsValid, hk])
    | some leaseId =>
      simp only [OwnershipState.apply, hk]
      rw [h.release_iff hk]
      simp [KeepsValid, hk]
  | expireLeases now => exact h.sweep_iff now

end ValidLeases

theorem validate_apply_iff (h : s.validate = .ok ()) (c : OwnershipCommand) :
    (s.apply c).validate = .ok () ↔ KeepsValid s c := by
  obtain ⟨hleases, htopics⟩ := validate_eq_ok_iff.mp h
  rw [validate_eq_ok_iff, hleases.apply_iff]
  exact and_iff_left (htopics.apply c)

theorem validate_new : new.validate = .ok () := rfl

theorem validate_always_iff (cmds : List OwnershipCommand) :
    Always OwnershipState.apply (fun s => s.validate = .ok ()) new cmds ↔
      Along OwnershipState.apply KeepsValid new cmds :=
  always_iff_along (P := fun _ _ => True) (fun _ c h _ => validate_apply_iff h c) validate_new
    (along_of_forall fun _ _ _ => trivial)

/-- The state passes the check, and no lock that holds it is refused for its data. -/
def Recoverable (s : OwnershipState) : Prop :=
  s.validate = .ok () ∧ ∀ lock : RecoverableLock OwnershipState, lock.value = s →
    ∀ reason, lock.writeRecover.2 ≠ .error (.dataValidationFailed reason)

theorem recoverable_iff : Recoverable s ↔ s.validate = .ok () := by
  refine and_iff_left_of_imp ?_
  rintro hvalid lock rfl reason hreject
  obtain ⟨-, -, hfails⟩ := lock.writeRecover_rejects_iff.mp ⟨reason, hreject⟩
  exact hfails hvalid

/-- What a command makes of a valid state can be recovered exactly if the command meets its
condition. -/
theorem recoverable_apply_iff (s : OwnershipState) (h : s.validate = .ok ())
    (c : OwnershipCommand) : Recoverable (s.apply c) ↔ KeepsValid s c := by
  rw [recoverable_iff, validate_apply_iff h]

/-- A release that leaves a claimed topic and another lease behind. -/
theorem recoverable_after_release :
    let s := exec OwnershipState.apply new
      [.claimTopic "t" 1 0, .acquireLease "a" 1 0 10 0, .acquireLease "b" 2 1 10 0]
    Recoverable (s.apply (.releaseLease "a")) := by
  intro s
  refine (recoverable_apply_iff s (by decide +kernel) (.releaseLease "a")).mpr ?_
  intro leaseId hid
  have hzero : s.keyLeases["a"]? = some 0 := by decide +kernel
  obtain rfl := Option.some.inj (hzero.symm.trans hid)
  decide +kernel

/-- A lease renewed in time fails the check, and a poisoned lock that holds it is refused.
So does the release or the sweep of a record that two keys name. -/
theorem renewed_lease_fails_validation :
    let s := new.apply (.acquireLease "a" 1 0 10 0)
    let renewed := s.apply (.renewLease 0 5000000000)
    let shared := s.apply (.acquireLease "b" 2 0 10 0)
    (s.validate = .ok () ∧ renewed.validate = .error .invalidLeaseExpiration ∧
      (RecoverableLock.mk renewed true 0).writeRecover.2 =
        .error (.dataValidationFailed "Invalid lease expiration") ∧ ¬ Recoverable renewed) ∧
    shared.validate = .ok () ∧
      (shared.apply (.releaseLease "a")).validate = .error .orphanedKeyLease ∧
      (shared.apply (.expireLeases 10000000000)).validate = .error .orphanedKeyLease := by
  intro s renewed shared
  have hrenewed : renewed.validate = .error .invalidLeaseExpiration := by decide +kernel
  refine ⟨⟨by decide +kernel, hrenewed, ?_, ?_⟩, by decide +kernel, by decide +kernel,
    by decide +kernel⟩
  · exact RecoverableLock.writeRecover_of_error ⟨renewed, true, 0⟩ rfl (by decide) hrenewed
  · rw [recoverable_iff, hrenewed]
    intro heq
    cases heq

/-- What a valid state is taken to be: keys name their own records and no two the same one,
records are stored under their ids, and every topic is listed once, by its owner. -/
structure Consistent (s : OwnershipState) : Prop where
  info_key : ∀ k info, s.getLeaseInfo k = some info → info.key = k
  ids_distinct : ∀ (k k' : String) (i : UInt64),
    s.keyLeases[k]? = some i → s.keyLeases[k']? = some i → k = k'
  stored : ∀ (i : UInt64) (l : LeaseEntry), s.leases[i]? = some l → l.id = i
  listed_once : ∀ (t : String) (n : NodeId), s.ownership[t]? = some n →
    s.nodeTopics.values.flatten.count t = 1 ∧ t ∈ s.getNodeTopics n

def OwnershipState.listedCount (s : OwnershipState) : ℕ := s.nodeTopics.values.flatten.length

/-- The counts that the check leaves out: as many named keys as records, as many listed
topics as owned ones, and every record under its own id. -/
structure Counted (s : OwnershipState) : Prop where
  keys : s.keyLeases.size = s.leases.size
  topics : s.listedCount = s.ownership.size
  stored : ∀ p ∈ s.leases.toList, p.2.id = p.1

instance : Decidable (Counted s) :=
  decidable_of_iff (s.keyLeases.size = s.leases.size ∧ s.listedCount = s.ownership.size ∧
    ∀ p ∈ s.leases.toList, p.2.id = p.1)
    ⟨fun h => ⟨h.1, h.2.1, h.2.2⟩, fun h => ⟨h.keys, h.topics, h.stored⟩⟩

def CarriesKey (s : OwnershipState) : Prop :=
  ∀ (k : String) (i : UInt64) (l : LeaseEntry), s.keyLeases[k]? = some i →
    s.leases[i]? = some l → l.key = k

namespace ValidLeases

theorem ids_distinct_iff (h : ValidLeases s) :
    (∀ (k k' : String) (i : UInt64),
      s.keyLeases[k]? = some i → s.keyLeases[k']? = some i → k = k') ↔ CarriesKey s := by
  constructor
  · intro hdistinct k i l hk hl
    exact hdistinct l.key k i (h.tracked i l hl) hk
  · intro hcarries k k' i hk hk'
    obtain ⟨l, hl⟩ := h.named k i hk
    exact (hcarries k i l hk hl).symm.trans (hcarries k' i l hk' hl)

/-- The keys that records carry are distinct and named, so they are all the named keys
exactly if there are as many. -/
theorem size_eq_iff (h : ValidLeases s) :
    s.keyLeases.size = s.leases.size ↔ CarriesKey s := by
  have hnodup : (s.leases.toList.map fun p => p.2.key).Nodup := by
    refine s.leases.nodup_toList.map_on ?_
    rintro ⟨i, l⟩ hi ⟨j, a⟩ hj hkey
    rw [Std.ExtTreeMap.mem_toList_iff_getElem?_eq_some] at hi hj
    obtain ⟨rfl, rfl⟩ := h.eq_of_key hj hi hkey
    rfl
  have hsub : ∀ k ∈ s.leases.toList.map fun p => p.2.key, k ∈ s.keyLeases.keys := by
    intro k hk
    obtain ⟨⟨i, l⟩, hl, rfl⟩ := List.mem_map.mp hk
    rw [Std.ExtTreeMap.mem_toList_iff_getElem?_eq_some] at hl
    exact s.keyLeases.mem_keys_iff.mpr ⟨i, h.tracked i l hl⟩
  have hall := s.keyLeases.length_eq_size_iff hnodup hsub
  rw [List.length_map, Std.ExtTreeMap.length_toList] at hall
  rw [eq_comm, hall]
  constructor
  · intro hkeys k i l hk hl
    obtain ⟨⟨j, a⟩, ha, rfl⟩ := List.mem_map.mp (hkeys k (s.keyLeases.mem_keys_iff.mpr ⟨i, hk⟩))
    rw [Std.ExtTreeMap.mem_toList_iff_getElem?_eq_some] at ha
    obtain rfl := Option.some.inj ((h.tracked j a ha).symm.trans hk)
    exact congrArg LeaseEntry.key (Option.some.inj (hl.symm.trans ha))
  · intro hcarries k hk
    obtain ⟨i, hk⟩ := s.keyLeases.mem_keys_iff.mp hk
    obtain ⟨l, hl⟩ := h.named k i hk
    refine List.mem_map.mpr ⟨(i, l), ?_, hcarries k i l hk hl⟩
    exact Std.ExtTreeMap.mem_toList_iff_getElem?_eq_some.mpr hl

end ValidLeases

theorem info_key_iff : (∀ k info, s.getLeaseInfo k = some info → info.key = k) ↔ CarriesKey s := by
  constructor
  · intro hinfo k i l hk hl
    have hholder : s.holder k = some l := holder_eq_some.mpr ⟨i, hk, hl⟩
    exact hinfo k (.ofEntry l) (by rw [getLeaseInfo, hholder]; rfl)
  · intro hcarries k info hinfo
    obtain ⟨l, hl, rfl⟩ := Option.map_eq_some_iff.mp hinfo
    obtain ⟨i, hk, hl⟩ := holder_eq_some.mp hl
    exact hcarries k i l hk hl

theorem mem_listed {t : String} :
    t ∈ s.nodeTopics.values.flatten ↔ ∃ n, t ∈ s.getNodeTopics n := by
  simp only [List.mem_flatten, Table.mem_values, mem_getNodeTopics]
  constructor
  · rintro ⟨topics, ⟨n, hn⟩, ht⟩
    exact ⟨n, topics, hn, ht⟩
  · rintro ⟨n, topics, hn, ht⟩
    exact ⟨topics, ⟨n, hn⟩, ht⟩

theorem ValidTopics.mem_listed_iff (h : ValidTopics s) (t : String) :
    t ∈ s.nodeTopics.values.flatten ↔ t ∈ s.ownership.keys := by
  rw [mem_listed, Table.mem_keys_iff]
  exact exists_congr fun n => (h t n).symm

theorem ValidTopics.listedCount_eq_iff (h : ValidTopics s) :
    s.listedCount = s.ownership.size ↔ ∀ (t : String) (n : NodeId), s.ownership[t]? = some n →
      s.nodeTopics.values.flatten.count t = 1 ∧ t ∈ s.getNodeTopics n := by
  have hnodup := s.ownership.nodup_iff_length_eq_size h.mem_listed_iff
  refine hnodup.symm.trans ?_
  constructor
  · intro hn t n ho
    have hmem := (h.mem_listed_iff t).mpr (s.ownership.mem_keys_iff.mpr ⟨n, ho⟩)
    exact ⟨List.count_eq_one_of_mem hn hmem, (h t n).mp ho⟩
  · intro honce
    refine List.nodup_iff_count_le_one.mpr fun t => ?_
    by_cases hmem : t ∈ s.nodeTopics.values.flatten
    · obtain ⟨n, ho⟩ := s.ownership.mem_keys_iff.mp ((h.mem_listed_iff t).mp hmem)
      exact (honce t n ho).1.le
    · rw [List.count_eq_zero_of_not_mem hmem]
      exact Nat.zero_le 1

/-- A state that passes the check is consistent exactly if its counts are right. -/
theorem consistent_iff_counted (s : OwnershipState) (h : s.validate = .ok ()) :
    Consistent s ↔ Counted s := by
  obtain ⟨hleases, htopics⟩ := validate_eq_ok_iff.mp h
  have hstored : (∀ p ∈ s.leases.toList, p.2.id = p.1) ↔
      ∀ (i : UInt64) (l : LeaseEntry), s.leases[i]? = some l → l.id = i := by
    simp only [Prod.forall, Std.ExtTreeMap.mem_toList_iff_getElem?_eq_some]
  constructor
  · intro hc
    refine ⟨hleases.size_eq_iff.mpr (info_key_iff.mp hc.info_key),
      htopics.listedCount_eq_iff.mpr hc.listed_once, hstored.mpr hc.stored⟩
  · intro hc
    have hcarries := hleases.size_eq_iff.mp hc.keys
    exact ⟨info_key_iff.mpr hcarries, hleases.ids_distinct_iff.mpr hcarries,
      hstored.mp hc.stored, htopics.listedCount_eq_iff.mp hc.topics⟩

/-- A claimed topic and two leases. -/
theorem consistent_two_leases :
    let s := exec OwnershipState.apply new
      [.claimTopic "t" 1 0, .acquireLease "a" 1 0 10 0, .acquireLease "b" 2 1 10 0]
    Consistent s := by
  intro s
  exact (consistent_iff_counted s (by decide +kernel)).mpr (by decide +kernel)

/-- The check passes a state in which the key of one lease names the record of another, as it
is left by two acquisitions under one id, and states that no run leads to: a record under an
id that is not its own, and a list that repeats a topic. -/
theorem valid_state_inconsistent :
    let shared := exec OwnershipState.apply new
      [.acquireLease "a" 1 5 10 0, .acquireLease "b" 2 5 10 0]
    let misfiled : OwnershipState :=
      { new with
        leases := new.leases.insert 1 (.acquired "a" 1 2 10 0)
        keyLeases := new.keyLeases.insert "a" 1 }
    let repeated : OwnershipState :=
      { new with
        ownership := new.ownership.insert "t" 1
        nodeTopics := new.nodeTopics.insert 1 ["t", "t"] }
    (shared.validate = .ok () ∧ (shared.getLeaseInfo "a").map LeaseInfo.key = some "b" ∧
      ¬ Consistent shared) ∧
    (misfiled.validate = .ok () ∧ ¬ Consistent misfiled) ∧
    repeated.validate = .ok () ∧ ¬ Consistent repeated := by
  intro shared misfiled repeated
  refine ⟨⟨by decide +kernel, by decide +kernel, fun h => ?_⟩, ⟨by decide +kernel, fun h => ?_⟩,
    by decide +kernel, fun h => ?_⟩
  · have hkeys := h.ids_distinct "a" "b" 5 (by decide +kernel) (by decide +kernel)
    exact absurd hkeys (by decide)
  · have hid := h.stored 1 (.acquired "a" 1 2 10 0) (by decide +kernel)
    exact absurd hid (by decide)
  · have honce := (h.listed_once "t" 1 (by decide +kernel)).1
    exact absurd honce (by decide +kernel)

end DumbDistributedLog
