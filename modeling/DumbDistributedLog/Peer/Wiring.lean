import DumbDistributedLog.Gossip.Coordinator
import DumbDistributedLog.Peer.Metrics
import DumbDistributedLog.Peer.Routing

/-! # How a node connects its peer components

The registry and the advertisements that the router reads are made for the router, and nothing else
gets hold of them. The advertisements that the gossip coordinator hears go to a manager of its own,
and the responses that it hears go to the fetcher it has been given, which is none. So the router
finds no peer, and no metric is ever fetched, whatever the peers have advertised.
-/

namespace DumbDistributedLog.Peer

open Runs Gossip

/-- The fields of `PeerConfig` that the fetcher and its parts take. -/
structure FetcherConfig where
  requestTimeoutSecs : UInt64
  circuitBreakerThreshold : UInt32
  circuitBreakerResetSecs : UInt64
  deriving DecidableEq, Repr

inductive FetchError where
  | peerRequest (message : String)
  deriving DecidableEq, Repr

/-- What the gossip coordinator has for peers: its own advertisements, and whether it has been given
the fetcher. -/
structure CoordinatorPeers where
  advertisementManager : AdvertisementManager
  hasFetcher : Bool

structure RoutedFetcher where
  router : PeerRouter
  fetcher : PeerFetcher

structure PeerNode where
  gossip : Option CoordinatorPeers
  peerFetcher : Option RoutedFetcher

/-- The orders in which the maps of a router are iterated. -/
structure Orders where
  ads : ∀ t : Table UInt64 ServiceAdvertisement, t.Iteration
  peers : ∀ t : Table UInt64 PeerInfo, t.Iteration

inductive PeerNodeStep where
  | fetchMetric (metricKey : MetricKey) (payload : List UInt8) (now : ℕ) (unix : UInt64)
      (orders : Orders)
  /-- A call that is under way goes on, or a response is given to the fetcher by hand. -/
  | proceed (a : FetcherStep)
  | receive (msg : GossipMessage) (now : ℕ)

def secs (n : ℕ) : ℕ := n * 1000000000

namespace PeerNode

/-- The peer components that `new_distributed` makes. -/
def newDistributed (nodeId : UInt64) (peerConfig : Option FetcherConfig) (gossipEnabled : Bool) :
    PeerNode where
  gossip := if gossipEnabled then some ⟨.new (secs 300), false⟩ else none
  peerFetcher := peerConfig.map fun config =>
    ⟨⟨.new (secs 300), .new (secs 300), 0⟩,
      .new nodeId config.requestTimeoutSecs (secs 60) 1000 config.circuitBreakerThreshold
        config.circuitBreakerResetSecs⟩

end PeerNode

namespace RoutedFetcher

variable (f : RoutedFetcher)

/-- The router is asked when the cache has no answer. -/
def fetchMetric (metricKey : MetricKey) (payload : List UInt8) (now : ℕ) (unix : UInt64)
    (orders : Orders) : RoutedFetcher × Option (Except PeerError (List UInt8)) :=
  let routed := f.router.route (orders.ads _) (orders.peers _) metricKey now
  let called := f.fetcher.fetchMetric metricKey payload now unix routed.2
  let router := if (f.fetcher.cache.get metricKey now).2.isSome then f.router else routed.1
  (⟨router, called.1⟩, called.2)

def proceed : FetcherStep → RoutedFetcher
  | .call _ _ _ _ _ => f
  | a => { f with fetcher := f.fetcher.step a }

end RoutedFetcher

namespace PeerNode

variable (s : PeerNode)

/-- `fetch_metric` of the node, with the result of a call that ends at once. -/
def fetchMetric (metricKey : MetricKey) (payload : List UInt8) (now : ℕ) (unix : UInt64)
    (orders : Orders) : PeerNode × Option (Except FetchError (List UInt8)) :=
  match s.peerFetcher with
  | some f =>
    let called := f.fetchMetric metricKey payload now unix orders
    ({ s with peerFetcher := some called.1 },
      called.2.map fun result => result.mapError fun e => .peerRequest e.display)
  | none =>
    (s, some (.error (.peerRequest "Peer fetching not available in standalone mode")))

/-- What the coordinator makes of the messages that are about peers. -/
def receive (msg : GossipMessage) (now : ℕ) : PeerNode :=
  match s.gossip, msg with
  | some g, .serviceAdvertise nodeId metricsOffered address timestamp =>
    { s with
      gossip := some { g with
        advertisementManager := g.advertisementManager.advertise
          ⟨nodeId, metricsOffered, address, timestamp⟩ now } }
  | some g, .peerResponse requestId sourceNode success payload timestamp errorMessage =>
    if g.hasFetcher then
      { s with
        peerFetcher := s.peerFetcher.map fun f =>
          f.proceed (.respond ⟨requestId, sourceNode, success, payload, timestamp, errorMessage⟩) }
    else s
  | _, _ => s

def step : PeerNodeStep → PeerNode
  | .fetchMetric metricKey payload now unix orders =>
    (s.fetchMetric metricKey payload now unix orders).1
  | .proceed a => { s with peerFetcher := s.peerFetcher.map (·.proceed a) }
  | .receive msg now => s.receive msg now

end PeerNode

/-! ### The router knows no peer -/

theorem Fetching.deliver_of_nil {s : Fetching} (h : s.calls = []) (c : ℕ)
    (response : PeerResponse) : s.deliver c response = s := by
  rw [deliver, h]
  rfl

theorem Fetching.calls_handleResponse {s : Fetching} (h : s.calls = []) (response : PeerResponse) :
    (s.handleResponse response).1.calls = [] := by
  unfold handleResponse
  split
  · next pending sender _ =>
    have hnil : { s with pending }.calls = [] := h
    rw [deliver_of_nil hnil]
    exact h
  · exact h

theorem Fetching.calls_step {s : Fetching} (h : s.calls = []) (a : FetchStep)
    (ha : ∀ target metricKey payload, a ≠ .start target metricKey payload) :
    (s.step a).calls = [] := by
  cases a with
  | start target metricKey payload => exact absurd rfl (ha target metricKey payload)
  | respond response => exact calls_handleResponse h response
  | draw => exact h
  | _ => simp [step, h]

namespace RoutedFetcher

structure Idle (f : RoutedFetcher) : Prop where
  peers : ∀ id : UInt64, f.router.registry.peers[id]? = none
  ads : ∀ id : UInt64, f.router.advertisementMgr.advertisements[id]? = none
  cache : ∀ key : String, f.fetcher.cache.entries[key]? = none
  calls : f.fetcher.fetching.calls = []

variable {f : RoutedFetcher}

theorem Idle.route (h : f.Idle) (orders : Orders) (metricKey : MetricKey) (now : ℕ) :
    f.router.route (orders.ads _) (orders.peers _) metricKey now =
      (f.router, .error (.routingError "no alive peers")) := by
  have hnone : f.router.advertisementMgr.findProvider (orders.ads _) metricKey now = none := by
    refine Option.eq_none_iff_forall_ne_some.mpr fun ad hfind => ?_
    obtain ⟨ad', hget, -⟩ := AdvertisementManager.offers_of_findProvider hfind
    rw [h.ads] at hget
    cases hget
  have halive : f.router.registry.listAlive (orders.peers _) = [] := by
    refine PeerRegistry.listAlive_eq_nil.mpr fun id hid => ?_
    obtain ⟨info, hget, -⟩ := hid
    rw [PeerRegistry.get, h.peers] at hget
    cases hget
  rw [PeerRouter.route, hnone]
  exact dif_pos halive

theorem Idle.fetchMetric (h : f.Idle) (metricKey : MetricKey) (payload : List UInt8) (now : ℕ)
    (unix : UInt64) (orders : Orders) :
    (f.fetchMetric metricKey payload now unix orders).1.Idle ∧
    (f.fetchMetric metricKey payload now unix orders).2 =
      some (.error (.routingError "no alive peers")) := by
  have hget : f.fetcher.cache.get metricKey now = (f.fetcher.cache.remove metricKey, none) := by
    rw [PeerCache.get, h.cache]
  simp only [RoutedFetcher.fetchMetric, PeerFetcher.fetchMetric, h.route, hget]
  refine ⟨⟨h.peers, h.ads, fun key => ?_, h.calls⟩, trivial⟩
  rw [PeerCache.remove, Table.get_erase, h.cache, ite_self]

theorem Idle.proceed (h : f.Idle) (a : FetcherStep) : (f.proceed a).Idle := by
  cases a with
  | call metricKey payload now unix routed => exact h
  | create c now => exact ⟨h.peers, h.ads, h.cache, Fetching.calls_step h.calls _ (by simp)⟩
  | register c now => exact ⟨h.peers, h.ads, h.cache, Fetching.calls_step h.calls _ (by simp)⟩
  | send c sending => exact ⟨h.peers, h.ads, h.cache, Fetching.calls_step h.calls _ (by simp)⟩
  | respond response =>
    exact ⟨h.peers, h.ads, h.cache, Fetching.calls_step h.calls _ (by simp)⟩
  | poll c elapsed now victim unix =>
    have hwait : f.fetcher.fetching.wait c elapsed = none := by simp [Fetching.wait, h.calls]
    have hstep : f.fetcher.step (.poll c elapsed now victim unix) = f.fetcher := by
      rw [PeerFetcher.step, hwait]
    change RoutedFetcher.Idle { f with fetcher := f.fetcher.step _ }
    rw [hstep]
    exact h
  | cancelExpired now => exact ⟨h.peers, h.ads, h.cache, h.calls⟩
  | forget key =>
    refine ⟨h.peers, h.ads, fun k => ?_, h.calls⟩
    exact (Table.get_erase _ _ _).trans (by rw [h.cache, ite_self])
  | draw => exact ⟨h.peers, h.ads, h.cache, h.calls⟩

end RoutedFetcher

/-- The advertisement of the node that the step brings to the coordinator. -/
def PeerNodeStep.advertised (nodeId : UInt64) : PeerNodeStep → Option ServiceAdvertisement
  | .receive (.serviceAdvertise id metricsOffered address timestamp) _ =>
    if id = nodeId then some ⟨id, metricsOffered, address, timestamp⟩ else none
  | _ => none

namespace PeerNode

variable {s : PeerNode} {nodeId : UInt64} {peerConfig : Option FetcherConfig} {gossipEnabled : Bool}

def Idle (s : PeerNode) (peerConfig : Option FetcherConfig) : Prop :=
  s.peerFetcher.isSome = peerConfig.isSome ∧ ∀ f, s.peerFetcher = some f → f.Idle

theorem idle_newDistributed : (newDistributed nodeId peerConfig gossipEnabled).Idle peerConfig := by
  refine ⟨by simp [newDistributed], fun f hf => ?_⟩
  obtain ⟨config, -, rfl⟩ := Option.map_eq_some_iff.mp hf
  exact ⟨fun id => by simp [PeerRegistry.new], fun id => by simp [AdvertisementManager.new],
    fun key => by simp [PeerFetcher.new, PeerCache.new], rfl⟩

theorem Idle.map (h : s.Idle peerConfig) {g : RoutedFetcher → RoutedFetcher}
    (hg : ∀ f, f.Idle → (g f).Idle) (gossip : Option CoordinatorPeers) :
    Idle ⟨gossip, s.peerFetcher.map g⟩ peerConfig := by
  refine ⟨by simpa using h.1, fun f hf => ?_⟩
  obtain ⟨f', hf', rfl⟩ := Option.map_eq_some_iff.mp hf
  exact hg f' (h.2 f' hf')

theorem Idle.step (h : s.Idle peerConfig) (a : PeerNodeStep) : (s.step a).Idle peerConfig := by
  cases a with
  | fetchMetric metricKey payload now unix orders =>
    simp only [PeerNode.step, PeerNode.fetchMetric]
    split
    · next f hf =>
      refine ⟨by rw [← h.1, hf]; rfl, fun f' hf' => ?_⟩
      cases hf'
      exact ((h.2 f hf).fetchMetric metricKey payload now unix orders).1
    · exact h
  | proceed a => exact h.map (fun f hf => hf.proceed a) s.gossip
  | receive msg now =>
    simp only [PeerNode.step, PeerNode.receive]
    split
    · exact h
    · split_ifs
      · exact h.map (fun f hf => hf.proceed _) s.gossip
      · exact h
    · exact h

theorem gossip_step {g : CoordinatorPeers} (a : PeerNodeStep) (hg : (s.step a).gossip = some g) :
    ∃ g', s.gossip = some g' ∧ ∀ id, g.advertisementManager.advertisements[id]? =
      (a.advertised id).or g'.advertisementManager.advertisements[id]? := by
  cases a with
  | fetchMetric metricKey payload now unix orders =>
    refine ⟨g, ?_, fun id => rfl⟩
    rw [← hg, PeerNode.step, PeerNode.fetchMetric]
    split <;> rfl
  | proceed a => exact ⟨g, hg, fun id => rfl⟩
  | receive msg now =>
    cases hgossip : s.gossip with
    | none => simp [PeerNode.step, PeerNode.receive, hgossip] at hg
    | some g' =>
      refine ⟨g', rfl, fun id => ?_⟩
      cases msg with
      | serviceAdvertise nodeId metricsOffered address timestamp =>
        simp only [PeerNode.step, PeerNode.receive, hgossip, Option.some.injEq] at hg
        rw [← hg]
        simp only [AdvertisementManager.advertise, Table.get_insert, PeerNodeStep.advertised]
        split <;> rfl
      | peerResponse requestId sourceNode success payload timestamp errorMessage =>
        simp only [PeerNode.step, PeerNode.receive, hgossip] at hg
        split at hg
        · rw [Option.some.inj hg]
          rfl
        · rw [Option.some.inj (hgossip.symm.trans hg)]
          rfl
      | _ =>
        simp only [PeerNode.step, PeerNode.receive, hgossip, Option.some.injEq] at hg
        rw [hg]
        rfl

theorem advertisements_exec (steps : List PeerNodeStep) {g : CoordinatorPeers}
    (hg : (exec step (newDistributed nodeId peerConfig gossipEnabled) steps).gossip = some g)
    (id : UInt64) :
    g.advertisementManager.advertisements[id]? =
      (steps.filterMap (PeerNodeStep.advertised id)).getLast? := by
  induction steps using List.reverseRecOn generalizing g with
  | nil =>
    cases gossipEnabled with
    | false => cases hg
    | true =>
      cases hg
      simp [AdvertisementManager.new]
  | append_singleton steps a ih =>
    rw [exec_append] at hg
    obtain ⟨g', hg', hads⟩ := gossip_step a hg
    rw [hads, ih hg', List.filterMap_append, List.getLast?_append]
    cases ha : a.advertised id with
    | none => simp [ha]
    | some ad => simp [ha]

/-- After any run, whatever has been advertised and whatever has come back, a metric is not fetched:
every call ends at once with the same error, and no request has ever been made. What the
coordinator has heard is what each node has advertised last. -/
theorem fetch_metric_unanswered (nodeId : UInt64) (peerConfig : Option FetcherConfig)
    (gossipEnabled : Bool) (steps : List PeerNodeStep) :
    let s := exec step (newDistributed nodeId peerConfig gossipEnabled) steps
    (∀ metricKey payload now unix orders,
      (s.fetchMetric metricKey payload now unix orders).2 = some (.error (.peerRequest
        (if peerConfig.isSome then "routing error: no alive peers"
          else "Peer fetching not available in standalone mode")))) ∧
    (∀ f, s.peerFetcher = some f → f.fetcher.fetching.calls = []) ∧
    ∀ g, s.gossip = some g → ∀ id, g.advertisementManager.advertisements[id]? =
      (steps.filterMap (PeerNodeStep.advertised id)).getLast? := by
  intro s
  have hs : s.Idle peerConfig :=
    exec_inv (I := fun s : PeerNode => s.Idle peerConfig) (fun _ a h => h.step a)
      idle_newDistributed
  refine ⟨fun metricKey payload now unix orders => ?_, fun f hf => (hs.2 f hf).calls,
    fun g hg id => advertisements_exec steps hg id⟩
  unfold PeerNode.fetchMetric
  split
  · next f hf =>
    have hsome : peerConfig.isSome = true := by rw [← hs.1, hf, Option.isSome_some]
    simp only [((hs.2 f hf).fetchMetric metricKey payload now unix orders).2, hsome, if_true]
    rfl
  · next hf =>
    have hnone : peerConfig.isSome = false := by rw [← hs.1, hf, Option.isSome_none]
    simp [hnone]

end PeerNode

end DumbDistributedLog.Peer
