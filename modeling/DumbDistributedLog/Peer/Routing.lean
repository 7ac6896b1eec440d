import DumbDistributedLog.Peer.Messages
import DumbDistributedLog.Peer.Registry

/-! # Routing a metric to a peer

The router takes the first unexpired advertisement of the metric that the iteration comes to, and
only then asks whether its node is alive. If it is not, the next alive peer of the rotation is
taken, whatever it offers. So a live provider is preferred, for every order and every state of the
rotation, only if no dead node advertises the metric or nothing but providers is alive.
-/

namespace DumbDistributedLog.Peer

structure ServiceAdvertisement where
  nodeId : UInt64
  metricsOffered : List String
  address : String
  timestamp : UInt64
  deriving DecidableEq, Repr

structure AdvertisementManager where
  advertisements : Table UInt64 ServiceAdvertisement
  insertedAt : Table UInt64 ℕ
  ttl : ℕ
  keyed : ∀ (id : UInt64) (ad : ServiceAdvertisement),
    advertisements[id]? = some ad → ad.nodeId = id

namespace AdvertisementManager

def new (ttl : ℕ) : AdvertisementManager where
  advertisements := ∅
  insertedAt := ∅
  ttl := ttl
  keyed _ _ h := by simp at h

variable (m : AdvertisementManager)

def advertise (ad : ServiceAdvertisement) (now : ℕ) : AdvertisementManager where
  advertisements := m.advertisements.insert ad.nodeId ad
  insertedAt := m.insertedAt.insert ad.nodeId now
  ttl := m.ttl
  keyed id other h := by
    rw [Table.get_insert] at h
    split_ifs at h with hid
    · cases h
      exact hid
    · exact m.keyed id other h

def remove (nodeId : UInt64) : AdvertisementManager × Option ServiceAdvertisement where
  fst := {
    advertisements := m.advertisements.erase nodeId
    insertedAt := m.insertedAt.erase nodeId
    ttl := m.ttl
    keyed := fun id ad h => m.keyed id ad ((Table.get_erase_eq_some _).mp h).2 }
  snd := m.advertisements[nodeId]?

/-- An advertisement without a time of insertion is expired. -/
def isExpired (nodeId : UInt64) (now : ℕ) : Bool :=
  match m.insertedAt[nodeId]? with
  | some instant => m.ttl < now - instant
  | none => true

def findProvider (order : m.advertisements.Iteration) (metricKey : MetricKey) (now : ℕ) :
    Option ServiceAdvertisement :=
  (order.entries.find? fun entry =>
    entry.2.metricsOffered.any (· == metricKey) && !m.isExpired entry.1 now).map Prod.snd

def Offers (metricKey : MetricKey) (now : ℕ) (nodeId : UInt64) : Prop :=
  ∃ ad, m.advertisements[nodeId]? = some ad ∧ metricKey ∈ ad.metricsOffered ∧
    m.isExpired nodeId now = false

variable {m} {order : m.advertisements.Iteration} {metricKey : MetricKey} {now : ℕ}
  {ad : ServiceAdvertisement} {nodeId : UInt64}

theorem offers_of_findProvider (h : m.findProvider order metricKey now = some ad) :
    m.Offers metricKey now ad.nodeId := by
  obtain ⟨⟨id, ad⟩, hfind, rfl⟩ := Option.map_eq_some_iff.mp h
  have hget : m.advertisements[id]? = some ad :=
    order.mem_entries.mp (List.mem_of_find?_eq_some hfind)
  have hoffered := List.find?_some hfind
  simp only [Bool.and_eq_true, List.any_beq', List.contains_iff_mem, Bool.not_eq_true'] at hoffered
  obtain rfl := m.keyed id ad hget
  exact ⟨ad, hget, hoffered⟩

theorem findProvider_eq_none (h : m.findProvider order metricKey now = none) :
    ¬ m.Offers metricKey now nodeId := by
  rintro ⟨ad, hget, hoffered, hexpired⟩
  have hnone := List.find?_eq_none.mp (Option.map_eq_none_iff.mp h) _ (order.mem_entries.mpr hget)
  simp [hoffered, hexpired] at hnone

theorem exists_findProvider (h : m.Offers metricKey now nodeId) :
    ∃ order ad, m.findProvider order metricKey now = some ad ∧ ad.nodeId = nodeId := by
  obtain ⟨ad, hget, hoffered, hexpired⟩ := h
  obtain ⟨order, rest, hentries⟩ := Table.Iteration.exists_cons hget
  refine ⟨order, ad, ?_, m.keyed nodeId ad hget⟩
  simp [findProvider, hentries, hoffered, hexpired]

end AdvertisementManager

structure PeerRouter where
  registry : PeerRegistry
  advertisementMgr : AdvertisementManager
  roundRobinCounter : UInt64

namespace PeerRouter

variable (r : PeerRouter)

def rotate (alive : List PeerInfo) : PeerRouter × Except PeerError UInt64 :=
  if h : alive = [] then (r, .error (.routingError "no alive peers"))
  else
    ({ r with roundRobinCounter := r.roundRobinCounter + 1 },
      .ok (alive.get ⟨r.roundRobinCounter.toNat % alive.length,
        Nat.mod_lt _ (List.length_pos_iff.mpr h)⟩).nodeId)

def route (ads : r.advertisementMgr.advertisements.Iteration) (peers : r.registry.peers.Iteration)
    (mk : MetricKey) (now : ℕ) : PeerRouter × Except PeerError UInt64 :=
  match r.advertisementMgr.findProvider ads mk now with
  | some ad =>
    if (r.registry.get ad.nodeId).any (·.isAlive) then (r, .ok ad.nodeId)
    else r.rotate (r.registry.listAlive peers)
  | none => r.rotate (r.registry.listAlive peers)

def LiveProvider (mk : MetricKey) (now : ℕ) (nodeId : UInt64) : Prop :=
  r.registry.Alive nodeId ∧ r.advertisementMgr.Offers mk now nodeId

/-- A live provider is returned if there is one, an alive peer otherwise, and an error only if
no peer is alive. -/
structure RoutedWell (mk : MetricKey) (now : ℕ) (result : Except PeerError UInt64) : Prop where
  provider : (∃ id, r.LiveProvider mk now id) → ∃ id, result = .ok id ∧ r.LiveProvider mk now id
  alive : ∀ id, result = .ok id → r.registry.Alive id
  error : ∀ e, result = .error e → ∀ id, ¬ r.registry.Alive id

variable {r} {mk : MetricKey} {now : ℕ} {ads : r.advertisementMgr.advertisements.Iteration}
  {peers : r.registry.peers.Iteration} {id : UInt64} {e : PeerError}

theorem rotate_ok (h : (r.rotate (r.registry.listAlive peers)).2 = .ok id) :
    r.registry.Alive id := by
  unfold rotate at h
  split_ifs at h with hnil
  · cases h
    obtain ⟨hget, halive⟩ :=
      PeerRegistry.mem_listAlive.mp (List.get_mem (r.registry.listAlive peers) _)
    exact ⟨_, hget, halive⟩

theorem rotate_error (h : (r.rotate (r.registry.listAlive peers)).2 = .error e) :
    ¬ r.registry.Alive id := by
  unfold rotate at h
  split_ifs at h with hnil
  · exact PeerRegistry.listAlive_eq_nil.mp hnil id

/-- Either a live provider is found, or what is found is dead and the rotation decides. -/
theorem route_cases :
    (∃ id, (r.route ads peers mk now).2 = .ok id ∧ r.LiveProvider mk now id) ∨
    ((∀ id, r.advertisementMgr.Offers mk now id →
        ∃ dead, r.advertisementMgr.Offers mk now dead ∧ ¬ r.registry.Alive dead) ∧
      (r.route ads peers mk now).2 = (r.rotate (r.registry.listAlive peers)).2) := by
  unfold route
  cases hfind : r.advertisementMgr.findProvider ads mk now with
  | none =>
    right
    exact ⟨fun id hoffers => absurd hoffers (AdvertisementManager.findProvider_eq_none hfind), rfl⟩
  | some ad =>
    have hoffers := AdvertisementManager.offers_of_findProvider hfind
    by_cases halive : r.registry.Alive ad.nodeId
    · left
      exact ⟨ad.nodeId, by simp [PeerRegistry.alive_iff.mp halive], halive, hoffers⟩
    · right
      refine ⟨fun _ _ => ⟨ad.nodeId, hoffers, halive⟩, ?_⟩
      simp only [if_neg (mt PeerRegistry.alive_iff.mpr halive)]

theorem LiveProvider.routedWell (h : r.LiveProvider mk now id) :
    r.RoutedWell mk now (.ok id) := by
  constructor
  · exact fun _ => ⟨id, rfl, h⟩
  · rintro _ ⟨⟩
    exact h.1
  · rintro e ⟨⟩

theorem rotate_routedWell (h : (∃ id, r.LiveProvider mk now id) →
      ∀ id, r.registry.Alive id → r.advertisementMgr.Offers mk now id) :
    r.RoutedWell mk now (r.rotate (r.registry.listAlive peers)).2 := by
  constructor
  · rintro ⟨id, hlive⟩
    cases hresult : (r.rotate (r.registry.listAlive peers)).2 with
    | error e => exact absurd hlive.1 (rotate_error hresult)
    | ok other =>
      have halive := rotate_ok hresult
      exact ⟨other, rfl, halive, h ⟨id, hlive⟩ other halive⟩
  · exact fun id hresult => rotate_ok hresult
  · exact fun e hresult id => rotate_error hresult

/-- There is no live provider, no dead node advertises the metric, or every alive peer does. -/
def Unambiguous (r : PeerRouter) (mk : MetricKey) (now : ℕ) : Prop :=
  (¬ ∃ id, r.LiveProvider mk now id) ∨
    (∀ id, r.advertisementMgr.Offers mk now id → r.registry.Alive id) ∨
    ∀ id, r.registry.Alive id → r.advertisementMgr.Offers mk now id

theorem Unambiguous.routedWell (h : r.Unambiguous mk now) :
    r.RoutedWell mk now (r.route ads peers mk now).2 := by
  rcases route_cases with ⟨id, hresult, hlive⟩ | ⟨hfound, hroute⟩
  · rw [hresult]
    exact hlive.routedWell
  · rw [hroute]
    apply rotate_routedWell
    rintro ⟨id, hlive⟩ other halive
    rcases h with hnone | hoffering | hproviding
    · exact absurd ⟨id, hlive⟩ hnone
    · obtain ⟨dead, hoffers, hdead⟩ := hfound id hlive.2
      exact absurd (hoffering dead hoffers) hdead
    · exact hproviding other halive

/-- A dead node that advertises the metric may be found first, and the rotation may then come to
an alive peer that does not. -/
theorem exists_not_routedWell (h : ¬ r.Unambiguous mk now) :
    ∃ ads peers, ¬ r.RoutedWell mk now
      (({ r with roundRobinCounter := 0 } : PeerRouter).route ads peers mk now).2 := by
  simp only [Unambiguous, not_or, not_not, not_forall, exists_prop] at h
  obtain ⟨hlive, ⟨dead, hoffers, hdead⟩, other, ⟨info, hget, halive⟩, hother⟩ := h
  obtain ⟨ads, ad, hfind, rfl⟩ := AdvertisementManager.exists_findProvider hoffers
  obtain ⟨peers, rest, hlist⟩ := PeerRegistry.exists_listAlive_cons hget halive
  refine ⟨ads, peers, fun hwell => ?_⟩
  obtain ⟨id, hresult, -, hprovides⟩ := hwell.provider hlive
  have hid : info.nodeId = other := r.registry.keyed other info hget
  simp [route, hfind, mt PeerRegistry.alive_iff.mpr hdead, rotate, hlist, hid] at hresult
  exact hother (hresult ▸ hprovides)

/-- Whatever the orders and the rotation, a live provider is preferred exactly if there is none,
no dead node advertises the metric, or every alive peer does. -/
theorem route_prefers_live_provider (r : PeerRouter) (mk : MetricKey) (now : ℕ) :
    (∀ (counter : UInt64) (ads : r.advertisementMgr.advertisements.Iteration)
        (peers : r.registry.peers.Iteration), r.RoutedWell mk now
      (({ r with roundRobinCounter := counter } : PeerRouter).route ads peers mk now).2) ↔
    (¬ ∃ id, r.LiveProvider mk now id) ∨
      (∀ id, r.advertisementMgr.Offers mk now id → r.registry.Alive id) ∨
      ∀ id, r.registry.Alive id → r.advertisementMgr.Offers mk now id := by
  constructor
  · intro hwell
    by_contra hcond
    obtain ⟨ads, peers, hbad⟩ := exists_not_routedWell hcond
    exact hbad (hwell 0 ads peers)
  · intro hcond counter ads peers
    have hsame : ({ r with roundRobinCounter := counter } : PeerRouter).Unambiguous mk now := hcond
    obtain ⟨hprovider, halive, herror⟩ := hsame.routedWell
    exact ⟨hprovider, halive, herror⟩

/-- Nodes 1 and 2 advertise a metric, 1 has died since, and 3 offers nothing. -/
def deadProvider : PeerRouter where
  registry := (((((PeerRegistry.new 30).register ⟨1, "h1:1", [], 0, true⟩).1.register
    ⟨2, "h2:1", [], 0, true⟩).1.register ⟨3, "h3:1", [], 0, true⟩).1.markDead 1).1
  advertisementMgr := ((AdvertisementManager.new 60).advertise ⟨1, ["cpu"], "h1:1", 0⟩ 0).advertise
    ⟨2, ["cpu"], "h2:1", 0⟩ 0
  roundRobinCounter := 1

/-- The metric is routed to a peer that does not offer it although an alive one does. -/
theorem route_misses_live_provider :
    deadProvider.LiveProvider "cpu" 5 2 ∧
    (deadProvider.route (.sorted _) (.sorted _) "cpu" 5).2 = .ok 3 ∧
    ¬ deadProvider.LiveProvider "cpu" 5 3 := by
  refine ⟨⟨⟨⟨2, "h2:1", [], 0, true⟩, by decide +kernel, rfl⟩,
    ⟨⟨2, ["cpu"], "h2:1", 0⟩, by decide +kernel, by decide, by decide +kernel⟩⟩,
    by decide +kernel, ?_⟩
  rintro ⟨-, ad, hget, -⟩
  have hnone : deadProvider.advertisementMgr.advertisements[(3 : UInt64)]? = none := by
    decide +kernel
  rw [hnone] at hget
  cases hget

end PeerRouter

end DumbDistributedLog.Peer
