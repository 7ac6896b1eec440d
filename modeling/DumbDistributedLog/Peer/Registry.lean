import DumbDistributedLog.Library.Tables

/-! # The registry of peers

A peer is stored under its own id. A heartbeat makes it alive, and marking it dead asks nothing.
-/

namespace DumbDistributedLog.Peer

structure PeerInfo where
  nodeId : UInt64
  address : String
  capabilities : List String
  lastSeen : ℕ
  isAlive : Bool
  deriving DecidableEq, Repr

structure PeerRegistry where
  peers : Table UInt64 PeerInfo
  defaultTtl : ℕ
  keyed : ∀ (id : UInt64) (info : PeerInfo), peers[id]? = some info → info.nodeId = id

namespace PeerRegistry

def new (defaultTtl : ℕ) : PeerRegistry where
  peers := ∅
  defaultTtl := defaultTtl
  keyed _ _ h := by simp at h

variable (r : PeerRegistry)

def register (info : PeerInfo) : PeerRegistry × Option PeerInfo where
  fst := {
    peers := r.peers.insert info.nodeId info
    defaultTtl := r.defaultTtl
    keyed := by
      intro id peer h
      rw [Table.get_insert] at h
      split_ifs at h with hid
      · cases h
        exact hid
      · exact r.keyed id peer h }
  snd := r.peers[info.nodeId]?

def unregister (nodeId : UInt64) : PeerRegistry × Option PeerInfo where
  fst := {
    peers := r.peers.erase nodeId
    defaultTtl := r.defaultTtl
    keyed := fun id info h => r.keyed id info ((Table.get_erase_eq_some _).mp h).2 }
  snd := r.peers[nodeId]?

def get (nodeId : UInt64) : Option PeerInfo := r.peers[nodeId]?

def listAlive (order : r.peers.Iteration) : List PeerInfo :=
  (order.entries.filter fun entry => entry.2.isAlive).map Prod.snd

def modify (nodeId : UInt64) (f : PeerInfo → PeerInfo)
    (hf : ∀ info, (f info).nodeId = info.nodeId) : PeerRegistry where
  peers := r.peers.modify nodeId f
  defaultTtl := r.defaultTtl
  keyed id info h := by
    rw [Table.get_modify] at h
    split_ifs at h with hid
    · obtain ⟨old, hold, rfl⟩ := Option.map_eq_some_iff.mp h
      rw [hf, r.keyed nodeId old hold, hid]
    · exact r.keyed id info h

def updateHeartbeat (nodeId : UInt64) (now : ℕ) : PeerRegistry × Bool :=
  (r.modify nodeId (fun info => { info with lastSeen := now, isAlive := true }) fun _ => rfl,
    r.peers.contains nodeId)

def markDead (nodeId : UInt64) : PeerRegistry × Bool :=
  (r.modify nodeId (fun info => { info with isAlive := false }) fun _ => rfl,
    r.peers.contains nodeId)

def Alive (nodeId : UInt64) : Prop := ∃ info, r.get nodeId = some info ∧ info.isAlive = true

variable {r} {order : r.peers.Iteration} {info : PeerInfo} {nodeId id : UInt64}

theorem updateHeartbeat_snd {now : ℕ} :
    (r.updateHeartbeat nodeId now).2 = (r.get nodeId).isSome := by
  simp [updateHeartbeat, get]

theorem get_updateHeartbeat {now : ℕ} : (r.updateHeartbeat nodeId now).1.get id =
    if nodeId = id then
      (r.get nodeId).map fun info => { info with lastSeen := now, isAlive := true }
    else r.get id :=
  Table.get_modify _ _ _ _

theorem get_markDead : (r.markDead nodeId).1.get id =
    if nodeId = id then (r.get nodeId).map fun info => { info with isAlive := false }
    else r.get id :=
  Table.get_modify _ _ _ _

theorem alive_iff : r.Alive nodeId ↔ (r.get nodeId).any (·.isAlive) = true := by
  cases h : r.get nodeId <;> simp [Alive, h]

theorem mem_listAlive :
    info ∈ r.listAlive order ↔ r.get info.nodeId = some info ∧ info.isAlive = true := by
  simp only [listAlive, List.mem_map, List.mem_filter, Prod.exists, exists_eq_right,
    order.mem_entries]
  constructor
  · rintro ⟨id, hid, halive⟩
    obtain rfl := r.keyed id info hid
    exact ⟨hid, halive⟩
  · rintro ⟨hget, halive⟩
    exact ⟨info.nodeId, hget, halive⟩

theorem listAlive_eq_nil : r.listAlive order = [] ↔ ∀ nodeId, ¬ r.Alive nodeId := by
  constructor
  · rintro hnil nodeId ⟨info, hget, halive⟩
    have hid : info.nodeId = nodeId := r.keyed nodeId info hget
    have hmem : info ∈ r.listAlive order := mem_listAlive.mpr ⟨hid ▸ hget, halive⟩
    rw [hnil] at hmem
    cases hmem
  · intro hnone
    refine List.eq_nil_iff_forall_not_mem.mpr fun info hmem => ?_
    obtain ⟨hget, halive⟩ := mem_listAlive.mp hmem
    exact hnone info.nodeId ⟨info, hget, halive⟩

theorem exists_listAlive_cons (h : r.get nodeId = some info) (halive : info.isAlive = true) :
    ∃ (order : r.peers.Iteration) (rest : List PeerInfo), r.listAlive order = info :: rest := by
  obtain ⟨order, rest, hentries⟩ := Table.Iteration.exists_cons h
  refine ⟨order, (rest.filter fun entry => entry.2.isAlive).map Prod.snd, ?_⟩
  simp [listAlive, hentries, halive]

end PeerRegistry

end DumbDistributedLog.Peer
