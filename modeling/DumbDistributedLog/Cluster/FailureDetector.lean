import DumbDistributedLog.Library.Runs
import DumbDistributedLog.Library.Tables

/-! # Failure detection by heartbeats

A check marks a peer as failed when its last heartbeat is too long ago, and unmarks it when
another one has come. Both changes are announced. Adding a peer anew takes its mark away as well,
without an announcement.
-/

namespace DumbDistributedLog.Membership

open Runs

structure PeerState where
  lastHeartbeat : ℕ
  addr : String
  isFailed : Bool
  deriving DecidableEq, Repr

inductive MembershipEvent where
  | nodeFailed (nodeId : UInt64)
  | nodeRecovered (nodeId : UInt64)
  deriving DecidableEq, Repr

def MembershipEvent.nodeId : MembershipEvent → UInt64
  | .nodeFailed nodeId => nodeId
  | .nodeRecovered nodeId => nodeId

/-- The peers by their ids, with the events that have been sent so far. -/
structure FailureDetector where
  peers : Table UInt64 PeerState
  heartbeatTimeout : ℕ
  events : List MembershipEvent

/-- The peer after a check at the given time, with the event that is sent. -/
def PeerState.check (peer : PeerState) (nodeId : UInt64) (heartbeatTimeout now : ℕ) :
    PeerState × Option MembershipEvent :=
  if now - peer.lastHeartbeat > heartbeatTimeout then
    if !peer.isFailed then ({ peer with isFailed := true }, some (.nodeFailed nodeId))
    else (peer, none)
  else if peer.isFailed then ({ peer with isFailed := false }, some (.nodeRecovered nodeId))
  else (peer, none)

inductive DetectorCall where
  | addPeer (nodeId : UInt64) (addr : String) (now : ℕ)
  | removePeer (nodeId : UInt64)
  | recordHeartbeat (nodeId : UInt64) (now : ℕ)
  | checkFailures (order : List UInt64) (now : ℕ)
  deriving DecidableEq, Repr

namespace FailureDetector

def new (heartbeatTimeout : ℕ) : FailureDetector := ⟨∅, heartbeatTimeout, []⟩

variable (d : FailureDetector)

def addPeer (nodeId : UInt64) (addr : String) (now : ℕ) : FailureDetector :=
  { d with peers := d.peers.insert nodeId ⟨now, addr, false⟩ }

def removePeer (nodeId : UInt64) : FailureDetector := { d with peers := d.peers.erase nodeId }

def recordHeartbeat (nodeId : UInt64) (now : ℕ) : FailureDetector :=
  { d with peers := d.peers.modify nodeId fun peer => { peer with lastHeartbeat := now } }

def checkPeer (now : ℕ) (nodeId : UInt64) : FailureDetector :=
  match d.peers[nodeId]? with
  | none => d
  | some peer =>
    let checked := peer.check nodeId d.heartbeatTimeout now
    { d with
      peers := d.peers.insert nodeId checked.1
      events := d.events ++ checked.2.toList }

def checkFailures (order : List UInt64) (now : ℕ) : FailureDetector :=
  order.foldl (fun d nodeId => d.checkPeer now nodeId) d

def isPeerFailed (nodeId : UInt64) : Bool := (d.peers[nodeId]?.map PeerState.isFailed).getD true

def step : DetectorCall → FailureDetector
  | .addPeer nodeId addr now => d.addPeer nodeId addr now
  | .removePeer nodeId => d.removePeer nodeId
  | .recordHeartbeat nodeId now => d.recordHeartbeat nodeId now
  | .checkFailures order now => d.checkFailures order now

def eventsOf (nodeId : UInt64) : List MembershipEvent := d.events.filter fun e => e.nodeId = nodeId

end FailureDetector

/-- Failures and recoveries in turn, beginning with a failure. -/
def alternation (nodeId : UInt64) (count : ℕ) : List MembershipEvent :=
  (List.range count).map fun i => if i % 2 = 0 then .nodeFailed nodeId else .nodeRecovered nodeId

theorem alternation_succ (nodeId : UInt64) (count : ℕ) : alternation nodeId (count + 1) =
    alternation nodeId count ++
      [if count % 2 = 0 then .nodeFailed nodeId else .nodeRecovered nodeId] := by
  rw [alternation, List.range_succ, List.map_append, alternation, List.map_singleton]

theorem getLast?_alternation (nodeId : UInt64) (count : ℕ) :
    (alternation nodeId count).getLast? = some (.nodeFailed nodeId) ↔ count % 2 = 1 := by
  cases count with
  | zero => simp [alternation]
  | succ count =>
    rw [alternation_succ, List.getLast?_concat, Option.some.injEq]
    split_ifs with heven
    · exact iff_of_true rfl (by omega)
    · exact iff_of_false (by simp) (by omega)

namespace FailureDetector

/-- The events of every node alternate, and a peer is marked exactly if its last event was a
failure. -/
def Alternating (d : FailureDetector) : Prop :=
  ∀ nodeId, (∃ count, d.eventsOf nodeId = alternation nodeId count) ∧
    (nodeId ∈ d.peers → (d.isPeerFailed nodeId = true ↔
      (d.eventsOf nodeId).getLast? = some (.nodeFailed nodeId)))

/-- A peer is added only if its last event was not a failure. -/
def AddsHealthy (d : FailureDetector) : DetectorCall → Prop
  | .addPeer nodeId _ _ => (d.eventsOf nodeId).getLast? ≠ some (.nodeFailed nodeId)
  | _ => True

/-- The node has had so many events in turn, and its mark goes with their number. -/
def Turns (d : FailureDetector) (nodeId : UInt64) : Prop :=
  ∃ count, d.eventsOf nodeId = alternation nodeId count ∧
    ∀ peer, d.peers[nodeId]? = some peer → (peer.isFailed = true ↔ count % 2 = 1)

variable {d d' : FailureDetector} {nodeId : UInt64}

theorem alternating_iff : d.Alternating ↔ ∀ nodeId, d.Turns nodeId := by
  refine forall_congr' fun nodeId => ?_
  have hflag : ∀ peer, d.peers[nodeId]? = some peer →
      d.isPeerFailed nodeId = peer.isFailed := by
    intro peer hpeer
    rw [isPeerFailed, hpeer]
    rfl
  constructor
  · rintro ⟨⟨count, hevents⟩, hmark⟩
    refine ⟨count, hevents, fun peer hpeer => ?_⟩
    rw [← hflag peer hpeer, hmark ((Table.mem_iff_get _).mpr ⟨peer, hpeer⟩), hevents,
      getLast?_alternation]
  · rintro ⟨count, hevents, hmark⟩
    refine ⟨⟨count, hevents⟩, fun hmem => ?_⟩
    obtain ⟨peer, hpeer⟩ := (Table.mem_iff_get _).mp hmem
    rw [hflag peer hpeer, hmark peer hpeer, hevents, getLast?_alternation]

theorem Turns.of_events (h : d.Turns nodeId) (hevents : d'.events = d.events)
    (hpeers : ∀ peer', d'.peers[nodeId]? = some peer' →
      ∃ peer, d.peers[nodeId]? = some peer ∧ peer.isFailed = peer'.isFailed) :
    d'.Turns nodeId := by
  obtain ⟨count, hcount, hmark⟩ := h
  refine ⟨count, by rw [eventsOf, hevents, ← hcount, eventsOf], fun peer' hpeer' => ?_⟩
  obtain ⟨peer, hpeer, hfailed⟩ := hpeers peer' hpeer'
  rw [← hfailed]
  exact hmark peer hpeer

theorem check_eq (peer : PeerState) (nodeId : UInt64) (heartbeatTimeout now : ℕ) :
    peer.check nodeId heartbeatTimeout now = (peer, none) ∨
      peer.check nodeId heartbeatTimeout now = ({ peer with isFailed := !peer.isFailed },
        some (if peer.isFailed then .nodeRecovered nodeId else .nodeFailed nodeId)) := by
  unfold PeerState.check
  by_cases hlate : now - peer.lastHeartbeat > heartbeatTimeout
  · cases hfailed : peer.isFailed with
    | false => simp [hlate]
    | true => simp [hlate]
  · cases hfailed : peer.isFailed with
    | false => simp [hlate]
    | true => simp [hlate]

theorem eventsOf_append {e : MembershipEvent} (h : d'.events = d.events ++ [e]) (nodeId : UInt64) :
    d'.eventsOf nodeId = if e.nodeId = nodeId then d.eventsOf nodeId ++ [e]
      else d.eventsOf nodeId := by
  rw [eventsOf, h, List.filter_append]
  split_ifs with he <;> simp [he, eventsOf]

theorem Turns.next {peer peer' : PeerState} (h : d.Turns nodeId)
    (hpeer : d.peers[nodeId]? = some peer) (hpeer' : d'.peers[nodeId]? = some peer')
    (hfailed : peer'.isFailed = !peer.isFailed)
    (hevents : d'.eventsOf nodeId = d.eventsOf nodeId ++
      [if peer.isFailed then .nodeRecovered nodeId else .nodeFailed nodeId]) :
    d'.Turns nodeId := by
  obtain ⟨count, hcount, hmark⟩ := h
  have hodd := hmark peer hpeer
  refine ⟨count + 1, ?_, fun p hp => ?_⟩
  · rw [hevents, hcount, alternation_succ]
    congr 2
    by_cases hfail : peer.isFailed = true
    · rw [if_pos hfail, if_neg (by rw [hodd.mp hfail]; decide)]
    · rw [if_neg hfail, if_pos (by have := mt hodd.mpr hfail; omega)]
  · cases hpeer'.symm.trans hp
    rw [hfailed, Bool.not_eq_true', ← Bool.not_eq_true, hodd]
    omega

theorem turns_checkPeer (h : ∀ nodeId, d.Turns nodeId) (now : ℕ) (nodeId n : UInt64) :
    (d.checkPeer now nodeId).Turns n := by
  unfold checkPeer
  cases hpeer : d.peers[nodeId]? with
  | none => exact h n
  | some peer =>
    have hget : ∀ checked : PeerState, (d.peers.insert nodeId checked)[n]? =
        if nodeId = n then some checked else d.peers[n]? := fun _ => Table.get_insert _ _ _ _
    dsimp only
    rcases check_eq peer nodeId d.heartbeatTimeout now with hcheck | hcheck
    · rw [hcheck]
      refine (h n).of_events (by simp) fun peer' hpeer' => ⟨peer', ?_, rfl⟩
      rw [hget] at hpeer'
      split_ifs at hpeer' with hn
      · rw [← hn, hpeer, hpeer']
      · exact hpeer'
    · rw [hcheck]
      have hnode : (if peer.isFailed then MembershipEvent.nodeRecovered nodeId
          else .nodeFailed nodeId).nodeId = nodeId := by split <;> rfl
      by_cases hn : nodeId = n
      · subst hn
        refine (h nodeId).next hpeer (by rw [hget, if_pos rfl]) rfl ?_
        rw [eventsOf_append rfl, if_pos hnode]
      · obtain ⟨count, hcount, hmark⟩ := h n
        refine ⟨count, ?_, fun peer' hpeer' => hmark peer' ?_⟩
        · rw [eventsOf_append rfl, hnode, if_neg hn, hcount]
        · rwa [hget, if_neg hn] at hpeer'

theorem turns_checkFailures (h : ∀ nodeId, d.Turns nodeId) (order : List UInt64) (now : ℕ) :
    ∀ nodeId, (d.checkFailures order now).Turns nodeId := by
  unfold checkFailures
  induction order generalizing d with
  | nil => exact h
  | cons nodeId order ih => exact ih (turns_checkPeer h now nodeId)

theorem turns_addPeer (h : ∀ nodeId, d.Turns nodeId) (addr : String) (now : ℕ)
    (hadd : (d.eventsOf nodeId).getLast? ≠ some (.nodeFailed nodeId)) (n : UInt64) :
    (d.addPeer nodeId addr now).Turns n := by
  obtain ⟨count, hcount, hmark⟩ := h n
  refine ⟨count, hcount, fun peer hpeer => ?_⟩
  rw [addPeer, Table.get_insert] at hpeer
  split_ifs at hpeer with hn
  · subst hn
    cases hpeer
    rw [hcount, ne_eq, getLast?_alternation] at hadd
    exact iff_of_false (by simp) hadd
  · exact hmark peer hpeer

theorem alternating_step_iff (h : d.Alternating) (call : DetectorCall) :
    (d.step call).Alternating ↔ d.AddsHealthy call := by
  have hturns := alternating_iff.mp h
  cases call with
  | addPeer nodeId addr now =>
    constructor
    · intro hstep hlast
      have hget : (d.addPeer nodeId addr now).peers[nodeId]? = some ⟨now, addr, false⟩ := by
        rw [addPeer, Table.get_insert, if_pos rfl]
      have hmark := (hstep nodeId).2 ((Table.mem_iff_get _).mpr ⟨_, hget⟩)
      have hfailed : (d.addPeer nodeId addr now).isPeerFailed nodeId = true := hmark.mpr hlast
      simp [isPeerFailed, hget] at hfailed
    · intro hadd
      exact alternating_iff.mpr (turns_addPeer hturns addr now hadd)
  | removePeer nodeId =>
    refine iff_of_true (alternating_iff.mpr fun n => ?_) trivial
    refine (hturns n).of_events rfl fun peer hpeer => ⟨peer, ?_, rfl⟩
    exact ((Table.get_erase_eq_some _).mp hpeer).2
  | recordHeartbeat nodeId now =>
    refine iff_of_true (alternating_iff.mpr fun n => ?_) trivial
    refine (hturns n).of_events rfl fun peer hpeer => ?_
    rw [step, recordHeartbeat, Table.get_modify] at hpeer
    split_ifs at hpeer with hn
    · subst hn
      obtain ⟨peer', hpeer', rfl⟩ := Option.map_eq_some_iff.mp hpeer
      exact ⟨peer', hpeer', rfl⟩
    · exact ⟨peer, hpeer, rfl⟩
  | checkFailures order now =>
    exact iff_of_true (alternating_iff.mpr (turns_checkFailures hturns order now)) trivial

/-- The events alternate, and the marks follow them, exactly if no peer is added whose last event
was a failure. -/
theorem alternating_iff_addsHealthy (heartbeatTimeout : ℕ) (calls : List DetectorCall) :
    Always step Alternating (new heartbeatTimeout) calls ↔
      Along step AddsHealthy (new heartbeatTimeout) calls := by
  have hnew : (new heartbeatTimeout).Alternating :=
    alternating_iff.mpr fun nodeId => ⟨0, rfl, fun peer hpeer => by simp [new] at hpeer⟩
  exact always_iff_along (P := fun _ _ => True) (fun _ call h _ => alternating_step_iff h call) hnew
    (along_of_forall fun _ _ _ => trivial)

/-- A peer that has failed is added anew. It is healthy without having recovered, and fails
twice in a row. -/
theorem fails_twice :
    let calls : List DetectorCall := [.addPeer 2 "b:1" 0, .checkFailures [2] 6,
      .addPeer 2 "b:1" 7, .checkFailures [2] 13]
    let d := exec step (new 5) calls
    (exec step (new 5) (calls.take 3)).isPeerFailed 2 = false ∧
      d.events = [.nodeFailed 2, .nodeFailed 2] ∧
      ¬ Always step Alternating (new 5) calls := by
  intro calls d
  refine ⟨by decide +kernel, by decide +kernel, fun h => ?_⟩
  obtain ⟨⟨count, hcount⟩, -⟩ := h calls List.prefix_rfl 2
  have hevents : [.nodeFailed 2, .nodeFailed 2] = d.eventsOf 2 := by decide +kernel
  have htwice := hevents.trans hcount
  obtain rfl : count = 2 := by simpa [alternation] using (congrArg List.length htwice).symm
  exact absurd htwice (by decide)

end FailureDetector

end DumbDistributedLog.Membership
