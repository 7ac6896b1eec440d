import DumbDistributedLog.Library.Runs
import DumbDistributedLog.Library.Tables

/-! # The known peers and their announcements

Calls about peers change the table under its lock and announce the change after they have given the
lock back, whereas failure detection announces while it holds it. A subscriber who replays the
announcements comes to the table as long as no call changes an entry whose last change has not been
announced yet; two calls that overlap can be announced the other way round.
-/

namespace DumbDistributedLog.Gossip.Peers

open Runs

inductive MembershipEventType where
  | nodeJoined (nodeId : UInt64) (addr : String)
  | nodeLeft (nodeId : UInt64)
  | nodeFailed (nodeId : UInt64)
  deriving DecidableEq, Repr

structure InternalPeerInfo where
  addr : String
  lastSeen : ℕ
  deriving DecidableEq, Repr

structure NodeInfo where
  nodeId : UInt64
  addr : String
  lastSeen : ℕ
  isLeader : Bool
  deriving DecidableEq, Repr

/-- The peers, what the channel of events has been sent if there is one, and the events of the calls
that have changed the table and not come to announce it. -/
structure PeerTable where
  peers : Table UInt64 InternalPeerInfo
  membershipTx : Option (List MembershipEventType)
  unsent : List MembershipEventType

inductive PeerStep where
  | peerJoined (nodeId : UInt64) (addr : String) (now : ℕ)
  | peerLeft (nodeId : UInt64)
  | peerFailed (nodeId : UInt64)
  | peerHeartbeat (nodeId : UInt64) (now : ℕ)
  | announce (event : MembershipEventType)
  | detectFailures (order : List UInt64) (now : ℕ)
  deriving DecidableEq, Repr

namespace MembershipEventType

def nodeId : MembershipEventType → UInt64
  | nodeJoined nodeId _ => nodeId
  | nodeLeft nodeId => nodeId
  | nodeFailed nodeId => nodeId

def addr : MembershipEventType → Option String
  | nodeJoined _ addr => some addr
  | _ => none

end MembershipEventType

namespace PeerTable

def new (membershipTx : Option (List MembershipEventType)) : PeerTable := ⟨∅, membershipTx, []⟩

variable (s : PeerTable)

def emitEvent (event : MembershipEventType) : PeerTable :=
  { s with membershipTx := s.membershipTx.map (· ++ [event]) }

def peerJoined (nodeId : UInt64) (addr : String) (now : ℕ) : PeerTable :=
  { s with
    peers := s.peers.insert nodeId ⟨addr, now⟩
    unsent := s.unsent ++ [.nodeJoined nodeId addr] }

def peerLeft (nodeId : UInt64) : PeerTable :=
  { s with peers := s.peers.erase nodeId, unsent := s.unsent ++ [.nodeLeft nodeId] }

def peerFailed (nodeId : UInt64) : PeerTable :=
  { s with peers := s.peers.erase nodeId, unsent := s.unsent ++ [.nodeFailed nodeId] }

def peerHeartbeat (nodeId : UInt64) (now : ℕ) : PeerTable :=
  { s with peers := s.peers.modify nodeId fun peer => { peer with lastSeen := now } }

def announce (event : MembershipEventType) : PeerTable :=
  if s.unsent.contains event then { s with unsent := s.unsent.erase event }.emitEvent event else s

/-- The peers that were last seen too long ago, in the order in which the map lists them. A peer
that was seen after the given time is not among them. -/
def failedPeers (timeout : ℕ) (order : List UInt64) (now : ℕ) : List UInt64 :=
  order.filter fun nodeId => s.peers[nodeId]?.any fun peer => now - peer.lastSeen > timeout

def failPeer (nodeId : UInt64) : PeerTable :=
  { s with peers := s.peers.erase nodeId }.emitEvent (.nodeFailed nodeId)

def detectFailures (timeout : ℕ) (order : List UInt64) (now : ℕ) : PeerTable :=
  (s.failedPeers timeout order now).foldl failPeer s

def members : Table UInt64 NodeInfo :=
  s.peers.map fun nodeId peer => ⟨nodeId, peer.addr, peer.lastSeen, false⟩

def step (timeout : ℕ) (s : PeerTable) : PeerStep → PeerTable
  | .peerJoined nodeId addr now => s.peerJoined nodeId addr now
  | .peerLeft nodeId => s.peerLeft nodeId
  | .peerFailed nodeId => s.peerFailed nodeId
  | .peerHeartbeat nodeId now => s.peerHeartbeat nodeId now
  | .announce event => s.announce event
  | .detectFailures order now => s.detectFailures timeout order now

def addr (nodeId : UInt64) : Option String := s.peers[nodeId]?.map InternalPeerInfo.addr

def sent : List MembershipEventType := s.membershipTx.getD []

def Announced (nodeId : UInt64) : Prop := ∀ event ∈ s.unsent, event.nodeId ≠ nodeId

instance (nodeId : UInt64) : Decidable (s.Announced nodeId) :=
  inferInstanceAs (Decidable (∀ event ∈ s.unsent, event.nodeId ≠ nodeId))

/-- A step changes no entry whose last change has not been announced. -/
def Alone (timeout : ℕ) (s : PeerTable) : PeerStep → Prop
  | .peerJoined nodeId _ _ => s.Announced nodeId
  | .peerLeft nodeId => s.Announced nodeId
  | .peerFailed nodeId => s.Announced nodeId
  | .detectFailures order now => ∀ nodeId ∈ s.failedPeers timeout order now, s.Announced nodeId
  | _ => True

instance (timeout : ℕ) (s : PeerTable) : DecidablePred (s.Alone timeout)
  | .peerJoined nodeId _ _ => inferInstanceAs (Decidable (s.Announced nodeId))
  | .peerLeft nodeId => inferInstanceAs (Decidable (s.Announced nodeId))
  | .peerFailed nodeId => inferInstanceAs (Decidable (s.Announced nodeId))
  | .peerHeartbeat _ _ => .isTrue trivial
  | .announce _ => .isTrue trivial
  -- over the peers that the sweep removes, not over every node id
  | .detectFailures order now => List.decidableBAll s.Announced (s.failedPeers timeout order now)

end PeerTable

/-- What a subscriber makes of an event: the addresses of the members. -/
def observe (view : UInt64 → Option String) (event : MembershipEventType) :
    UInt64 → Option String :=
  Function.update view event.nodeId event.addr

def replay (events : List MembershipEventType) : UInt64 → Option String :=
  exec observe (fun _ => none) events

theorem replay_append (events : List MembershipEventType) (event : MembershipEventType) :
    replay (events ++ [event]) = Function.update (replay events) event.nodeId event.addr :=
  exec_append

namespace PeerTable

variable {s s' : PeerTable} {timeout now : ℕ} {nodeId : UInt64} {event : MembershipEventType}

theorem get_members (nodeId : UInt64) : s.members[nodeId]? =
    s.peers[nodeId]?.map fun peer => ⟨nodeId, peer.addr, peer.lastSeen, false⟩ := by
  simp [members]

theorem addr_members (nodeId : UInt64) :
    s.members[nodeId]?.map NodeInfo.addr = s.addr nodeId := by
  rw [get_members, Option.map_map]
  rfl

theorem addr_insert (peer : InternalPeerInfo) (h : s'.peers = s.peers.insert nodeId peer) :
    s'.addr = Function.update s.addr nodeId (some peer.addr) := by
  funext n
  rw [addr, h, Table.get_insert, Function.update_apply]
  by_cases hn : nodeId = n
  · rw [if_pos hn, if_pos hn.symm, Option.map_some]
  · rw [if_neg hn, if_neg (Ne.symm hn), addr]

theorem addr_erase (h : s'.peers = s.peers.erase nodeId) :
    s'.addr = Function.update s.addr nodeId none := by
  funext n
  rw [addr, h, Table.get_erase, Function.update_apply]
  by_cases hn : nodeId = n
  · rw [if_pos hn, if_pos hn.symm, Option.map_none]
  · rw [if_neg hn, if_neg (Ne.symm hn), addr]

theorem addr_heartbeat (nodeId : UInt64) (now : ℕ) :
    (s.peerHeartbeat nodeId now).addr = s.addr := by
  funext n
  rw [addr, peerHeartbeat, Table.get_modify]
  split
  · next hn =>
    rw [hn, Option.map_map, addr]
    rfl
  · rfl

theorem sent_emitEvent (h : s.membershipTx = some s.sent) (event : MembershipEventType) :
    (s.emitEvent event).membershipTx = some (s.sent ++ [event]) := by
  rw [emitEvent, h, Option.map_some]

theorem announce_of_mem (h : event ∈ s.unsent) :
    s.announce event = { s with unsent := s.unsent.erase event }.emitEvent event :=
  if_pos (List.contains_iff_mem.mpr h)

theorem sent_of_membershipTx {events : List MembershipEventType}
    (h : s.membershipTx = some events) : s.sent = events := by
  rw [sent, h, Option.getD_some]

/-- Each node has at most one announcement to come, and with it the subscriber is right about the
node. -/
structure Followed (s : PeerTable) : Prop where
  connected : s.membershipTx = some s.sent
  announced : ∀ nodeId, s.Announced nodeId → replay s.sent nodeId = s.addr nodeId
  unsent : ∀ event ∈ s.unsent, event.addr = s.addr event.nodeId
  single : s.unsent.Pairwise fun event event' => event.nodeId ≠ event'.nodeId

namespace Followed

theorem change (h : s.Followed) (event : MembershipEventType) (hann : s.Announced event.nodeId)
    (haddr : s'.addr = Function.update s.addr event.nodeId event.addr)
    (htx : s'.membershipTx = s.membershipTx) (hunsent : s'.unsent = s.unsent ++ [event]) :
    s'.Followed := by
  have hsent : s'.sent = s.sent := by rw [sent, sent, htx]
  refine ⟨?_, fun n hn => ?_, fun e he => ?_, ?_⟩
  · rw [htx, hsent, h.connected]
  · rw [Announced, hunsent] at hn
    have hne : n ≠ event.nodeId := (hn event (by simp)).symm
    rw [hsent, haddr, Function.update_of_ne hne]
    exact h.announced n fun e he => hn e (List.mem_append_left _ he)
  · rw [haddr]
    rw [hunsent, List.mem_append, List.mem_singleton] at he
    obtain he | rfl := he
    · rw [Function.update_of_ne (hann e he)]
      exact h.unsent e he
    · rw [Function.update_self]
  · rw [hunsent]
    refine List.pairwise_append.mpr ⟨h.single, List.pairwise_singleton _ _, fun e he e' he' => ?_⟩
    obtain rfl := List.mem_singleton.mp he'
    exact hann e he

theorem announced_at_once (h : s.Followed) (event : MembershipEventType)
    (hann : s.Announced event.nodeId)
    (haddr : s'.addr = Function.update s.addr event.nodeId event.addr)
    (htx : s'.membershipTx = some (s.sent ++ [event])) (hunsent : s'.unsent = s.unsent) :
    s'.Followed := by
  have hsent : s'.sent = s.sent ++ [event] := by rw [sent, htx, Option.getD_some]
  refine ⟨by rw [htx, hsent], fun n hn => ?_, fun e he => ?_, by rw [hunsent]; exact h.single⟩
  · rw [hsent, replay_append, haddr]
    by_cases hne : n = event.nodeId
    · rw [hne, Function.update_self, Function.update_self]
    · rw [Function.update_of_ne hne, Function.update_of_ne hne]
      rw [Announced, hunsent] at hn
      exact h.announced n hn
  · rw [hunsent] at he
    rw [haddr, Function.update_of_ne (hann e he)]
    exact h.unsent e he

theorem failPeer (h : s.Followed) (hann : s.Announced nodeId) : (s.failPeer nodeId).Followed :=
  h.announced_at_once (.nodeFailed nodeId) hann (addr_erase rfl)
    (sent_emitEvent h.connected (.nodeFailed nodeId)) rfl

theorem detectFailures (h : s.Followed) (order : List UInt64)
    (hann : ∀ nodeId ∈ s.failedPeers timeout order now, s.Announced nodeId) :
    (s.detectFailures timeout order now).Followed := by
  unfold PeerTable.detectFailures
  generalize s.failedPeers timeout order now = failed at hann
  induction failed generalizing s with
  | nil => exact h
  | cons nodeId failed ih =>
    refine ih (h.failPeer (hann nodeId List.mem_cons_self)) fun n hn => ?_
    exact hann n (List.mem_cons_of_mem nodeId hn)

theorem peerHeartbeat (h : s.Followed) (nodeId : UInt64) (now : ℕ) :
    (s.peerHeartbeat nodeId now).Followed := by
  refine ⟨h.connected, fun n hn => ?_, fun e he => ?_, h.single⟩
  · rw [addr_heartbeat]
    exact h.announced n hn
  · rw [addr_heartbeat]
    exact h.unsent e he

theorem tx_announce (h : s.Followed) (hmem : event ∈ s.unsent) :
    (s.announce event).membershipTx = some (s.sent ++ [event]) := by
  rw [announce_of_mem hmem]
  exact sent_emitEvent (s := { s with unsent := s.unsent.erase event }) h.connected event

theorem announce_mem (h : s.Followed) (hmem : event ∈ s.unsent) : (s.announce event).Followed := by
  have htx := h.tx_announce hmem
  have hsent := sent_of_membershipTx htx
  have hperm := List.perm_cons_erase hmem
  have hunsent : (s.announce event).unsent = s.unsent.erase event := by
    rw [announce_of_mem hmem]
    rfl
  have haddr : (s.announce event).addr = s.addr := by
    rw [announce_of_mem hmem]
    rfl
  refine ⟨by rw [hsent, htx], fun n hn => ?_, fun e he => ?_, ?_⟩
  · rw [hsent, replay_append, haddr]
    by_cases hne : n = event.nodeId
    · rw [hne, Function.update_self]
      exact h.unsent event hmem
    · rw [Function.update_of_ne hne]
      refine h.announced n fun e he => ?_
      obtain rfl | he := List.mem_cons.mp (hperm.mem_iff.mp he)
      · exact Ne.symm hne
      · exact hn e (by rwa [hunsent])
  · rw [hunsent] at he
    rw [haddr]
    exact h.unsent e (List.mem_of_mem_erase he)
  · rw [hunsent]
    exact h.single.sublist List.erase_sublist

theorem announce (h : s.Followed) (event : MembershipEventType) : (s.announce event).Followed := by
  by_cases hmem : event ∈ s.unsent
  · exact h.announce_mem hmem
  · rw [PeerTable.announce, if_neg (by rwa [List.contains_iff_mem])]
    exact h

theorem step (h : s.Followed) (a : PeerStep) (halone : s.Alone timeout a) :
    (s.step timeout a).Followed := by
  cases a with
  | peerJoined nodeId addr now =>
    exact h.change (.nodeJoined nodeId addr) halone (addr_insert ⟨addr, now⟩ rfl) rfl rfl
  | peerLeft nodeId => exact h.change (.nodeLeft nodeId) halone (addr_erase rfl) rfl rfl
  | peerFailed nodeId => exact h.change (.nodeFailed nodeId) halone (addr_erase rfl) rfl rfl
  | peerHeartbeat nodeId now => exact h.peerHeartbeat nodeId now
  | announce event => exact h.announce event
  | detectFailures order now => exact h.detectFailures order halone

theorem replay_rest (h : s.Followed) {rest : List MembershipEventType}
    (hrest : rest.Perm s.unsent) : replay (s.sent ++ rest) = s.addr := by
  induction rest generalizing s with
  | nil =>
    rw [List.append_nil]
    funext n
    refine h.announced n fun e he => ?_
    rw [hrest.symm.eq_nil] at he
    cases he
  | cons event rest ih =>
    have hmem : event ∈ s.unsent := hrest.mem_iff.mp List.mem_cons_self
    have hunsent : rest.Perm (s.announce event).unsent := by
      rw [announce_of_mem hmem]
      exact (List.cons_perm_iff_perm_erase.mp hrest).2
    have hnext := ih (h.announce_mem hmem) hunsent
    rw [sent_of_membershipTx (h.tx_announce hmem), List.append_assoc] at hnext
    rw [List.singleton_append] at hnext
    rw [hnext, announce_of_mem hmem]
    rfl

end Followed

theorem followed_new : (new (some [])).Followed :=
  ⟨rfl, fun _ _ => by simp [replay, sent, new, addr, exec], by simp [new], .nil⟩

/-- As long as no step changes an entry whose last change has not been announced, a subscriber who
replays the events knows the address of every member about which nothing is left to announce, and
of all members when the calls under way have made their announcements, in any order. -/
theorem replay_members (timeout : ℕ) (steps : List PeerStep)
    (h : Along (step timeout) (Alone timeout) (new (some [])) steps) :
    let s := exec (step timeout) (new (some [])) steps
    (∀ nodeId, s.Announced nodeId →
      replay s.sent nodeId = s.members[nodeId]?.map NodeInfo.addr) ∧
    ∀ rest : List MembershipEventType, rest.Perm s.unsent →
      ∀ nodeId, replay (s.sent ++ rest) nodeId = s.members[nodeId]?.map NodeInfo.addr := by
  intro s
  have hs : s.Followed := h.exec_inv (fun _ a hs halone => hs.step a halone) followed_new
  refine ⟨fun nodeId hann => ?_, fun rest hrest nodeId => ?_⟩
  · rw [addr_members]
    exact hs.announced nodeId hann
  · rw [addr_members, hs.replay_rest hrest]

/-- A node leaves while another one fails. When a node leaves before its joining is announced, the
subscriber can be left with a member that is none. -/
theorem replay_members_leaving :
    let steps : List PeerStep :=
      [.peerJoined 1 "a" 0, .announce (.nodeJoined 1 "a"), .peerJoined 2 "b" 10,
        .peerHeartbeat 1 20, .announce (.nodeJoined 2 "b"), .peerLeft 1, .detectFailures [2] 50]
    let s := exec (step 30) (new (some [])) steps
    let overlapping : List PeerStep :=
      [.peerJoined 1 "a" 0, .peerLeft 1, .announce (.nodeLeft 1), .announce (.nodeJoined 1 "a")]
    let s' := exec (step 30) (new (some [])) overlapping
    Along (step 30) (Alone 30) (new (some [])) steps ∧
    s.sent = [.nodeJoined 1 "a", .nodeJoined 2 "b", .nodeFailed 2] ∧ s.unsent = [.nodeLeft 1] ∧
    (∀ nodeId, replay (s.sent ++ [.nodeLeft 1]) nodeId = s.members[nodeId]?.map NodeInfo.addr) ∧
    s'.unsent = [] ∧ replay s'.sent 1 = some "a" ∧ s'.members[(1 : UInt64)]? = none := by
  intro steps s overlapping s'
  have halone : Along (step 30) (Alone 30) (new (some [])) steps := by decide +kernel
  have hunsent : s.unsent = [.nodeLeft 1] := by decide +kernel
  have hrest : [.nodeLeft 1].Perm s.unsent := .of_eq hunsent.symm
  exact ⟨halone, by decide +kernel, hunsent, (replay_members 30 steps halone).2 _ hrest,
    by decide +kernel, by decide +kernel, by decide +kernel⟩

/-! ### Failure detection -/

def lastSeen (s : PeerTable) (nodeId : UInt64) : Option ℕ :=
  s.peers[nodeId]?.map InternalPeerInfo.lastSeen

theorem get_foldl_failPeer (failed : List UInt64) (n : UInt64) :
    (failed.foldl failPeer s).peers[n]? = if n ∈ failed then none else s.peers[n]? := by
  induction failed generalizing s with
  | nil => simp
  | cons nodeId failed ih =>
    rw [List.foldl_cons, ih, failPeer, emitEvent, Table.get_erase]
    by_cases hmem : n ∈ failed
    · simp [hmem]
    · by_cases hn : nodeId = n
      · simp [hn]
      · simp [hmem, hn, Ne.symm hn]

theorem membershipTx_foldl_failPeer (failed : List UInt64) :
    (failed.foldl failPeer s).membershipTx =
      s.membershipTx.map (· ++ failed.map MembershipEventType.nodeFailed) := by
  induction failed generalizing s with
  | nil => simp
  | cons nodeId failed ih =>
    rw [List.foldl_cons, ih, failPeer, emitEvent, Option.map_map]
    congr 1
    funext events
    simp

theorem mem_failedPeers {order : List UInt64} (horder : order.Perm s.peers.keys) :
    nodeId ∈ s.failedPeers timeout order now ↔
      ∃ t, s.lastSeen nodeId = some t ∧ timeout < now - t := by
  rw [failedPeers, List.mem_filter, horder.mem_iff, Table.mem_keys_iff, lastSeen]
  cases s.peers[nodeId]? with
  | none => simp
  | some peer => simp

end PeerTable

def PeerStep.Sees (nodeId : UInt64) (time : ℕ) (s : PeerTable) : PeerStep → Prop
  | .peerJoined n _ now => n = nodeId ∧ now = time
  | .peerHeartbeat n now => n = nodeId ∧ now = time ∧ nodeId ∈ s.peers
  | _ => False

def PeerStep.Concerns (timeout : ℕ) (nodeId : UInt64) (s : PeerTable) : PeerStep → Prop
  | .peerJoined n _ _ => n = nodeId
  | .peerLeft n => n = nodeId
  | .peerFailed n => n = nodeId
  | .peerHeartbeat n _ => n = nodeId
  | .announce _ => False
  | .detectFailures order now => nodeId ∈ s.failedPeers timeout order now

namespace PeerTable

theorem lastSeen_step {time : ℕ} (a : PeerStep) : (s.step timeout a).lastSeen nodeId = some time ↔
    a.Sees nodeId time s ∨ s.lastSeen nodeId = some time ∧ ¬ a.Concerns timeout nodeId s := by
  cases a with
  | peerJoined n addr now =>
    simp only [step, peerJoined, lastSeen, Table.get_insert, PeerStep.Sees, PeerStep.Concerns]
    by_cases hn : n = nodeId <;> simp [hn]
  | peerLeft n =>
    simp only [step, peerLeft, lastSeen, Table.get_erase, PeerStep.Sees, PeerStep.Concerns]
    by_cases hn : n = nodeId <;> simp [hn]
  | peerFailed n =>
    simp only [step, peerFailed, lastSeen, Table.get_erase, PeerStep.Sees, PeerStep.Concerns]
    by_cases hn : n = nodeId <;> simp [hn]
  | peerHeartbeat n now =>
    simp only [step, peerHeartbeat, lastSeen, Table.get_modify, PeerStep.Sees, PeerStep.Concerns,
      Table.mem_iff_get]
    by_cases hn : n = nodeId
    · cases hpeer : s.peers[nodeId]? with
      | none => simp [hn, hpeer]
      | some peer => simp [hn, hpeer]
    · simp [hn]
  | announce event =>
    have hpeers : (s.announce event).peers = s.peers := by
      unfold announce
      split <;> rfl
    simp [step, lastSeen, hpeers, PeerStep.Sees, PeerStep.Concerns]
  | detectFailures order now =>
    simp only [step, detectFailures, lastSeen, get_foldl_failPeer, PeerStep.Sees, PeerStep.Concerns]
    by_cases hn : nodeId ∈ s.failedPeers timeout order now <;> simp [hn]

/-- The node is a member that was last seen at the given time of the run. -/
def LastSeenAt (timeout : ℕ) (steps : List PeerStep) (nodeId : UInt64) (time : ℕ) : Prop :=
  ∃ pre a post, steps = pre ++ a :: post ∧
    a.Sees nodeId time (exec (step timeout) (new (some [])) pre) ∧
    Along (step timeout) (fun s b => ¬ b.Concerns timeout nodeId s)
      (exec (step timeout) (new (some [])) (pre ++ [a])) post

theorem lastSeen_exec {steps : List PeerStep} {time : ℕ} :
    (exec (step timeout) (new (some [])) steps).lastSeen nodeId = some time ↔
      LastSeenAt timeout steps nodeId time := by
  have hnew : (new (some [])).lastSeen nodeId ≠ some time := by simp [lastSeen, new]
  refine (holds_exec_iff (I := fun s : PeerTable => s.lastSeen nodeId = some time)
    fun s a => lastSeen_step a).trans ?_
  exact or_iff_right fun h => hnew h.1

/-- After any run, a round of failure detection announces exactly the members that were last seen
too long ago, each of them once, and takes away exactly these. -/
theorem detection_exact (timeout : ℕ) (steps : List PeerStep) (order : List UInt64) (now : ℕ)
    (horder : order.Perm (exec (step timeout) (new (some [])) steps).peers.keys) :
    let s := exec (step timeout) (new (some [])) steps
    let s' := s.step timeout (.detectFailures order now)
    ∃ failed : List UInt64, failed.Nodup ∧
      (∀ nodeId, nodeId ∈ failed ↔
        ∃ time, LastSeenAt timeout steps nodeId time ∧ timeout < now - time) ∧
      s'.membershipTx = s.membershipTx.map (· ++ failed.map .nodeFailed) ∧
      ∀ nodeId, s'.members[nodeId]? = if nodeId ∈ failed then none else s.members[nodeId]? := by
  intro s s'
  refine ⟨s.failedPeers timeout order now, ?_, fun nodeId => ?_, membershipTx_foldl_failPeer _,
    fun nodeId => ?_⟩
  · exact (horder.nodup_iff.mpr (Table.nodup_keys _)).filter _
  · simp only [← lastSeen_exec]
    exact mem_failedPeers horder
  · rw [get_members, get_members]
    change ((s.failedPeers timeout order now).foldl failPeer s).peers[nodeId]?.map _ = _
    rw [get_foldl_failPeer]
    split <;> rfl

/-- One of two peers has been silent for too long. -/
theorem detection_exact_silent :
    let steps : List PeerStep :=
      [.peerJoined 1 "a" 0, .peerJoined 2 "b" 10, .announce (.nodeJoined 1 "a"),
        .peerHeartbeat 1 30, .peerHeartbeat 3 40]
    let s := exec (step 30) (new (some [])) steps
    [2, 1].Perm s.peers.keys ∧
    ((s.step 30 (.detectFailures [2, 1] 50)).sent = [.nodeJoined 1 "a", .nodeFailed 2]) ∧
    ∃ failed : List UInt64, failed.Nodup ∧
      (∀ nodeId, nodeId ∈ failed ↔ ∃ time, LastSeenAt 30 steps nodeId time ∧ 30 < 50 - time) ∧
      (s.step 30 (.detectFailures [2, 1] 50)).membershipTx =
        s.membershipTx.map (· ++ failed.map .nodeFailed) := by
  intro steps s
  have horder : [2, 1].Perm s.peers.keys := by decide +kernel
  obtain ⟨failed, hnodup, hfailed, htx, -⟩ := detection_exact 30 steps [2, 1] 50 horder
  exact ⟨horder, by decide +kernel, failed, hnodup, hfailed, htx⟩

end PeerTable
end DumbDistributedLog.Gossip.Peers
