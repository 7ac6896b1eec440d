import DumbDistributedLog.Ownership.LeaseIds
import DumbDistributedLog.Ownership.Topics

/-! # The holdings behind the state machine

What the state machine is for is to say who holds what: an owner for each topic and a lease for each
key. The machine keeps either relation in two tables. As long as no grant meets an old record, the
tables are these holdings: every operation changes them as it should, and every query is answered
from them.
-/

namespace DumbDistributedLog

open OwnershipState Runs

/-- The owner of each topic, the lease of each key and the next id for a lease. -/
@[ext] structure Holdings where
  owner : String → Option NodeId
  lease : String → Option LeaseEntry
  nextLeaseId : UInt64

namespace Holdings

def empty : Holdings := ⟨fun _ => none, fun _ => none, 0⟩

variable (d : Holdings)

def held (key : String) (timestamp : UInt64) : Option LeaseEntry :=
  (d.lease key).filter fun lease => timestamp < lease.expiresAt

def acquire (lease : LeaseEntry) (nextLeaseId : UInt64) : Holdings :=
  if d.held lease.key lease.acquiredAt = none then
    { d with lease := Function.update d.lease lease.key (some lease), nextLeaseId }
  else d

def renew (leaseId timestamp : UInt64) : Holdings :=
  { d with
    lease := fun key => (d.lease key).map fun lease =>
      if lease.id = leaseId then lease.renew timestamp else lease }

def expire (now : UInt64) : Holdings :=
  { d with lease := fun key => (d.lease key).filter fun lease => now < lease.expiresAt }

def apply : OwnershipCommand → Holdings
  | .claimTopic topic nodeId _ => { d with owner := Function.update d.owner topic (some nodeId) }
  | .releaseTopic topic nodeId =>
    if d.owner topic = some nodeId then { d with owner := Function.update d.owner topic none }
    else d
  | .transferTopic topic fromNode toNode =>
    if d.owner topic = some fromNode then
      { d with owner := Function.update d.owner topic (some toNode) }
    else d
  | .acquireLease key owner leaseId ttlSecs timestamp =>
    d.acquire (.acquired key owner leaseId ttlSecs timestamp)
      (if leaseId ≥ d.nextLeaseId then leaseId + 1 else d.nextLeaseId)
  | .renewLease leaseId timestamp => d.renew leaseId timestamp
  | .releaseLease key => { d with lease := Function.update d.lease key none }
  | .expireLeases now => d.expire now

def perform : MachineOp → Holdings
  | .apply cmd => d.apply cmd
  | .acquireLease key owner ttlSecs timestamp =>
    d.acquire (.acquired key owner d.nextLeaseId ttlSecs timestamp) (d.nextLeaseId + 1)
  | .expireLeases now => d.expire now
  | .nextLeaseId => { d with nextLeaseId := d.nextLeaseId + 1 }

/-- The answer to a query. Lists are given without repetitions, in some order. -/
def Answers : OwnershipQuery → OwnershipResponse → Prop
  | .getOwner topic, response => response = .owner topic (d.owner topic)
  | .listTopics nodeId, response => ∃ topics, response = .topics topics ∧ topics.Nodup ∧
      ∀ topic, topic ∈ topics ↔ d.owner topic = some nodeId
  | .listAll, response => ∃ ownership, response = .all ownership ∧
      ∀ topic : String, ownership[topic]? = d.owner topic
  | .getLeaseOwner key, response =>
      response = .leaseOwner key ((d.lease key).map LeaseInfo.ofEntry)
  | .listLeases owner, response => ∃ leases, response = .leases leases ∧ leases.Nodup ∧
      ∀ info, info ∈ leases ↔
        ∃ key lease, d.lease key = some lease ∧ lease.owner = owner ∧ info = .ofEntry lease
  | .getLease leaseId, response => ∃ result, response = .leaseResult result none ∧
      ∀ lease, result = some lease ↔ ∃ key, d.lease key = some lease ∧ lease.id = leaseId

def acquireLease (key : String) (timestamp : UInt64) : Except LeaseError UInt64 :=
  (d.held key timestamp).elim (.ok d.nextLeaseId) fun lease => .error (.leaseHeld key lease.owner)

/-- The answer to a direct sweep is how many keys have a lease that has expired. -/
def Expires (now : UInt64) (count : ℕ) : Prop :=
  ∃ keys : List String, keys.Nodup ∧ keys.length = count ∧
    ∀ key, key ∈ keys ↔ ∃ lease, d.lease key = some lease ∧ lease.expiresAt ≤ now

end Holdings

def OwnershipState.holdings (s : OwnershipState) : Holdings :=
  ⟨s.getOwner, s.holder, s.nextLeaseId⟩

/-- Each relation is kept in its two tables in the same way. -/
structure Indexed (s : OwnershipState) : Prop where
  topics : TopicIndex s
  inverse : Inverse s
  stored : StoredById s

variable {s : OwnershipState} {op : MachineOp} {c : OwnershipCommand} {l l' : LeaseEntry}
  {now : UInt64}

namespace Indexed

theorem keyIndex (h : Indexed s) : KeyIndex s := by
  intro k i hi
  obtain ⟨l, hl, hkey⟩ := (h.inverse k i).mp hi
  exact ⟨l, hl, hkey, h.stored i l hl⟩

theorem holder_iff (h : Indexed s) {k : String} :
    s.holder k = some l ↔ s.leases[l.id]? = some l ∧ l.key = k := by
  constructor
  · intro hl
    exact (h.keyIndex.holder hl).2
  · rintro ⟨hl, rfl⟩
    exact holder_eq_some.mpr ⟨l.id, (h.inverse l.key l.id).mpr ⟨l, hl, rfl⟩, hl⟩

/-- Every record is the lease of its key, so a sweep takes no other one with it. -/
theorem sweepSafe (h : Indexed s) (now : UInt64) : SweepSafe s now := by
  intro l hl hexpired l' hl'
  obtain ⟨i, hi⟩ := (Table.mem_values _).mp hl
  obtain rfl := h.stored i l hi
  have hholder := h.holder_iff.mpr ⟨hi, rfl⟩
  rwa [← Option.some.inj (hholder.symm.trans hl')]

theorem freeId (h : Indexed s) (hclean : CleanGrant s op) (hl : s.granted op = some l) :
    FreeId s l.key l.id := by
  rintro ⟨k, i⟩ hp hi
  subst hi
  have hk := Std.ExtTreeMap.mem_toList_iff_getElem?_eq_some.mp hp
  obtain ⟨a, ha, rfl⟩ := (h.inverse k l.id).mp hk
  exact (hclean l hl (l.id, a) (Std.ExtTreeMap.mem_toList_iff_getElem?_eq_some.mpr ha)).mpr rfl

theorem perform (h : Indexed s) (hclean : CleanGrant s op) : Indexed (s.perform op) := by
  refine ⟨?_, (h.inverse.perform_iff op).mpr hclean, h.stored.perform op⟩
  cases op with
  | apply cmd => exact h.topics.apply cmd
  | acquireLease key owner ttlSecs timestamp =>
    simp only [OwnershipState.perform, OwnershipState.acquireLease]
    split
    · exact h.topics
    · exact h.topics.congr rfl rfl
  | expireLeases now =>
    obtain ⟨ho, hn⟩ := foldl_forgetKey_topics (s := s) (s.expiredKeys now)
    exact h.topics.congr ho hn
  | nextLeaseId => exact h.topics.congr rfl rfl

end Indexed

theorem indexed_new : Indexed new :=
  ⟨topicIndex_new, inverse_new, storedById_new⟩

/-! ### Operations -/

theorem holdings_expire (h : Indexed s) (now : UInt64) :
    ((s.expiredKeys now).foldl forgetKey s).holdings = s.holdings.expire now := by
  refine Holdings.ext (funext fun topic => ?_) (funext fun key => ?_) (nextLeaseId_forget _)
  · exact congrArg (·[topic]?) (foldl_forgetKey_topics _).1
  · exact h.keyIndex.holder_sweep (h.sweepSafe now) key

theorem getOwner_insert (topic : String) (nodeId : NodeId) :
    (fun t : String => (s.ownership.insert topic nodeId)[t]?) =
      Function.update s.getOwner topic (some nodeId) := by
  funext t
  rw [Table.get_insert, Function.update_apply]
  simp only [eq_comm, getOwner]

theorem getOwner_erase (topic : String) :
    (fun t : String => (s.ownership.erase topic)[t]?) =
      Function.update s.getOwner topic none := by
  funext t
  rw [Table.get_erase, Function.update_apply]
  simp only [eq_comm, getOwner]

theorem holdings_grant (hf : FreeId s l.key l.id) (ha : s.liveLease l.key l.acquiredAt = none)
    (nextLeaseId : UInt64) :
    { s.grant l with nextLeaseId }.holdings = s.holdings.acquire l nextLeaseId := by
  rw [Holdings.acquire, if_pos (show s.holdings.held l.key l.acquiredAt = none from ha)]
  exact Holdings.ext rfl (holder_grant hf) rfl

theorem holdings_held (hl : s.liveLease l.key l.acquiredAt = some l') (nextLeaseId : UInt64) :
    s.holdings = s.holdings.acquire l nextLeaseId := by
  refine (if_neg ?_).symm
  change s.liveLease l.key l.acquiredAt ≠ none
  rw [hl]
  exact Option.some_ne_none l'

theorem holdings_apply (h : Indexed s) (hclean : CleanGrant s (.apply c)) :
    (s.apply c).holdings = s.holdings.apply c := by
  cases c with
  | claimTopic topic nodeId timestamp =>
    simp only [OwnershipState.apply]
    split <;> exact Holdings.ext (getOwner_insert topic nodeId) rfl rfl
  | releaseTopic topic nodeId =>
    simp only [OwnershipState.apply, Holdings.apply]
    split
    · next ho =>
      rw [if_pos (show s.holdings.owner topic = some nodeId from ho)]
      exact Holdings.ext (getOwner_erase topic) rfl rfl
    · next ho => rw [if_neg (show ¬ s.holdings.owner topic = some nodeId from ho)]
  | transferTopic topic fromNode toNode =>
    simp only [OwnershipState.apply, Holdings.apply]
    split
    · next ho =>
      rw [if_pos (show s.holdings.owner topic = some fromNode from ho)]
      exact Holdings.ext (getOwner_insert topic toNode) rfl rfl
    · next ho => rw [if_neg (show ¬ s.holdings.owner topic = some fromNode from ho)]
  | acquireLease key owner leaseId ttlSecs timestamp =>
    simp only [OwnershipState.apply]
    split
    · next l hl => exact holdings_held hl _
    · next ha =>
      exact holdings_grant (h.freeId hclean (if_pos ha)) ha _
  | renewLease leaseId timestamp =>
    exact Holdings.ext rfl (funext fun key => h.keyIndex.holder_renew leaseId timestamp) rfl
  | releaseLease key =>
    refine Holdings.ext (funext fun topic => getOwner_apply _) (h.keyIndex.holder_release key) ?_
    simp only [OwnershipState.apply]
    split <;> rfl
  | expireLeases now => exact holdings_expire h now

theorem holdings_perform (h : Indexed s) (hclean : CleanGrant s op) :
    (s.perform op).holdings = s.holdings.perform op := by
  cases op with
  | apply cmd => exact holdings_apply h hclean
  | acquireLease key owner ttlSecs timestamp =>
    simp only [OwnershipState.perform, OwnershipState.acquireLease]
    split
    · next l hl => exact holdings_held hl _
    · next ha =>
      exact holdings_grant (h.freeId hclean (if_pos ha)) ha _
  | expireLeases now => exact holdings_expire h now
  | nextLeaseId => rfl

/-! ### Queries -/

theorem acquireLease_holdings (s : OwnershipState) (key : String) (owner : NodeId)
    (ttlSecs timestamp : UInt64) :
    (s.acquireLease key owner ttlSecs timestamp).2 = s.holdings.acquireLease key timestamp := by
  have hheld : s.holdings.held key timestamp = s.liveLease key timestamp := rfl
  simp only [OwnershipState.acquireLease, Holdings.acquireLease, hheld]
  split
  · next l hl => rw [hl]; rfl
  · next hl => rw [hl]; rfl

namespace Indexed

theorem holder_exists (h : Indexed s) (i : UInt64) (hl : s.leases[i]? = some l) :
    s.holder l.key = some l := by
  obtain rfl := h.stored i l hl
  exact h.holder_iff.mpr ⟨hl, rfl⟩

theorem mem_values_iff (h : Indexed s) :
    l ∈ s.leases.values ↔ ∃ key, s.holder key = some l := by
  rw [Table.mem_values]
  constructor
  · rintro ⟨i, hl⟩
    exact ⟨l.key, h.holder_exists i hl⟩
  · rintro ⟨key, hl⟩
    exact ⟨l.id, (h.holder_iff.mp hl).1⟩

theorem answers (h : Indexed s) (q : OwnershipQuery) : s.holdings.Answers q (s.query q) := by
  cases q with
  | getOwner topic => exact rfl
  | listTopics nodeId =>
    exact ⟨_, rfl, h.topics.nodup nodeId, fun topic => (h.topics.owner_iff topic nodeId).symm⟩
  | listAll => exact ⟨_, rfl, fun topic => rfl⟩
  | getLeaseOwner key => exact rfl
  | listLeases owner =>
    refine ⟨_, rfl, ?_, fun info => ?_⟩
    · have hinfos : (s.leases.values.map LeaseInfo.ofEntry).Nodup := by
        refine Table.nodup_map_values s.leases fun i j a b ha hb hab => ?_
        calc i = a.id := (h.stored i a ha).symm
          _ = b.id := congrArg LeaseInfo.id hab
          _ = j := h.stored j b hb
      exact hinfos.sublist (List.filter_sublist.map LeaseInfo.ofEntry)
    · simp only [OwnershipState.listLeases, List.mem_map, List.mem_filter, h.mem_values_iff,
        decide_eq_true_eq]
      constructor
      · rintro ⟨lease, ⟨⟨key, hl⟩, ho⟩, rfl⟩
        exact ⟨key, lease, hl, ho, rfl⟩
      · rintro ⟨key, lease, hl, ho, rfl⟩
        exact ⟨lease, ⟨⟨key, hl⟩, ho⟩, rfl⟩
  | getLease leaseId =>
    refine ⟨_, rfl, fun lease => ?_⟩
    constructor
    · intro hl
      exact ⟨lease.key, h.holder_exists leaseId hl, h.stored leaseId lease hl⟩
    · rintro ⟨key, hl, rfl⟩
      exact (h.holder_iff.mp hl).1

theorem expires (h : Indexed s) (now : UInt64) :
    s.holdings.Expires now (s.expireLeases now).2 := by
  refine ⟨s.expiredKeys now, ?_, rfl, fun key => ?_⟩
  · have hkeys : (s.leases.values.map LeaseEntry.key).Nodup := by
      refine Table.nodup_map_values s.leases fun i j a b ha hb hab => ?_
      have hi := (h.inverse a.key i).mpr ⟨a, ha, rfl⟩
      have hj := (h.inverse a.key j).mpr ⟨b, hb, hab.symm⟩
      exact Option.some.inj (hi.symm.trans hj)
    exact hkeys.sublist (List.filter_sublist.map LeaseEntry.key)
  · simp only [mem_expiredKeys, h.mem_values_iff]
    constructor
    · rintro ⟨lease, ⟨k, hl⟩, hexp, rfl⟩
      obtain ⟨-, rfl⟩ := h.holder_iff.mp hl
      exact ⟨lease, hl, hexp⟩
    · rintro ⟨lease, hl, hexp⟩
      exact ⟨lease, ⟨key, hl⟩, hexp, (h.holder_iff.mp hl).2⟩

end Indexed

theorem holdings_new : new.holdings = .empty :=
  Holdings.ext (funext fun topic => by simp [holdings, getOwner, new, Holdings.empty])
    (funext fun key => by simp [holdings, holder, new, Holdings.empty]) rfl

/-- As long as no grant meets an old record, the queries of the state machine, its direct
acquisitions and its direct sweeps are answered from the holdings after the same operations. -/
theorem refines_holdings (ops : List MachineOp) (h : Along perform CleanGrant new ops) :
    let s := exec perform new ops
    let d := exec Holdings.perform .empty ops
    (∀ q, d.Answers q (s.query q)) ∧
    (∀ key owner ttlSecs timestamp,
      (s.acquireLease key owner ttlSecs timestamp).2 = d.acquireLease key timestamp) ∧
    ∀ now, d.Expires now (s.expireLeases now).2 := by
  have hs : Indexed (exec perform new ops) :=
    h.exec_inv (fun _ _ hs hclean => hs.perform hclean) indexed_new
  have hd : (exec perform new ops).holdings = exec Holdings.perform .empty ops := by
    rw [h.exec_view (fun s op hs hclean => ⟨hs.perform hclean, holdings_perform hs hclean⟩)
      indexed_new, holdings_new]
  rw [← hd]
  exact ⟨hs.answers, acquireLease_holdings _, hs.expires⟩

/-- A key is swept and taken again while its topic changes hands. -/
theorem refines_holdings_swept :
    let ops : List MachineOp :=
      [.apply (.claimTopic "t" 1 0), .apply (.acquireLease "k" 1 0 1 0),
        .expireLeases 2000000000, .acquireLease "k" 2 5 2000000000,
        .apply (.transferTopic "t" 1 2)]
    let s := exec perform new ops
    let d := exec Holdings.perform .empty ops
    Along perform CleanGrant new ops ∧
    s.getLeaseInfo "k" = some ⟨1, "k", 2, 2000000000, 7000000000, 5⟩ ∧
    (∀ q, d.Answers q (s.query q)) ∧
    (s.acquireLease "k" 3 1 6000000000).2 = d.acquireLease "k" 6000000000 ∧
    d.Expires 7000000000 (s.expireLeases 7000000000).2 := by
  intro ops s d
  have hclean : Along perform CleanGrant new ops := by decide +kernel
  obtain ⟨hanswers, hacquire, hexpires⟩ := refines_holdings ops hclean
  exact ⟨hclean, by decide +kernel, hanswers, hacquire _ _ _ _, hexpires _⟩

end DumbDistributedLog
