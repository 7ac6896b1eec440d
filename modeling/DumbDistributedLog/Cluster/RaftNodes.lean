import DumbDistributedLog.Cluster.TopicCount

/-! # The nodes of a Raft cluster

A node enters itself under its own id, and then its peers under their positions in the
configuration, counted from two. The two kinds of ids are not kept apart: a node whose own id is
one of the numbers replaces itself by a peer.
-/

namespace DumbDistributedLog.Ddl

structure NodeConfig where
  nodeId : NodeId
  host : String
  communicationPort : UInt16
  coordinationPort : UInt16
  deriving DecidableEq, Repr

def NodeConfig.ofHost (nodeId : NodeId) (host : String) : NodeConfig := ⟨nodeId, host, 8080, 9090⟩

def peerNodeId (i : ℕ) : NodeId := UInt64.ofNat (i + 2)

/-- The map that `create_raft_cluster` makes the Raft node with. -/
def raftNodes (nodeId : NodeId) (peers : List String) : Table NodeId NodeConfig :=
  peers.zipIdx.foldl
    (fun nodes p => nodes.insert (peerNodeId p.2) (.ofHost (peerNodeId p.2) p.1))
    ((∅ : Table NodeId NodeConfig).insert nodeId (.ofHost nodeId "localhost"))

/-- The node and every peer have an entry of their own. -/
structure FaithfulNodes (nodeId : NodeId) (peers : List String)
    (nodes : Table NodeId NodeConfig) : Prop where
  size : nodes.size = 1 + peers.length
  self : nodes[nodeId]? = some (.ofHost nodeId "localhost")
  peer : ∀ host ∈ peers, ∃! id, id ≠ nodeId ∧ nodes[id]?.map NodeConfig.host = some host

/-- No peer is listed twice or numbered like the node itself. -/
def NumberedApart (nodeId : NodeId) (peers : List String) : Prop :=
  peers.Nodup ∧ ∀ i < peers.length, peerNodeId i ≠ nodeId

instance (nodeId : NodeId) (peers : List String) : Decidable (NumberedApart nodeId peers) :=
  inferInstanceAs (Decidable (_ ∧ _))

section Entries

variable {nodeId : NodeId} {peers : List String}

def raftEntries (nodeId : NodeId) (peers : List String) : List (NodeId × NodeConfig) :=
  (nodeId, .ofHost nodeId "localhost") ::
    peers.zipIdx.map fun p => (peerNodeId p.2, .ofHost (peerNodeId p.2) p.1)

theorem raftNodes_eq_ofList (nodeId : NodeId) (peers : List String) :
    raftNodes nodeId peers = Std.ExtTreeMap.ofList (raftEntries nodeId peers) := by
  rw [raftEntries, Std.ExtTreeMap.ofList_cons, Std.ExtTreeMap.insertMany_list_eq_foldl,
    List.foldl_map, raftNodes]

theorem map_fst_raftEntries : (raftEntries nodeId peers).map Prod.fst =
    nodeId :: (List.range peers.length).map peerNodeId := by
  have hsnd : peers.zipIdx.map Prod.snd = List.range peers.length := by
    rw [List.zipIdx_map_snd, List.range_eq_range']
  rw [raftEntries, List.map_cons, List.map_map, ← hsnd, List.map_map]
  rfl

theorem mem_raftEntries {id : NodeId} {config : NodeConfig} :
    (id, config) ∈ raftEntries nodeId peers ↔
      id = nodeId ∧ config = .ofHost nodeId "localhost" ∨
        ∃ i host, peers[i]? = some host ∧ id = peerNodeId i ∧ config = .ofHost id host := by
  simp only [raftEntries, List.mem_cons, Prod.mk.injEq, List.mem_map, Prod.exists,
    List.mem_zipIdx_iff_getElem?]
  refine or_congr_right ⟨?_, ?_⟩
  · rintro ⟨host, i, hhost, rfl, rfl⟩
    exact ⟨i, host, hhost, rfl, rfl⟩
  · rintro ⟨i, host, hhost, rfl, rfl⟩
    exact ⟨host, i, hhost, rfl, rfl⟩

theorem size_raftNodes :
    (raftNodes nodeId peers).size = 1 + peers.length ↔
      ((raftEntries nodeId peers).map Prod.fst).Nodup := by
  have hmem : ∀ id, id ∈ (raftEntries nodeId peers).map Prod.fst ↔
      id ∈ (raftNodes nodeId peers).keys := by
    intro id
    rw [raftNodes_eq_ofList, Std.ExtTreeMap.mem_keys, Std.ExtTreeMap.mem_ofList,
      List.contains_iff_mem]
  rw [Table.nodup_iff_length_eq_size _ hmem, map_fst_raftEntries, List.length_cons,
    List.length_map, List.length_range, Nat.add_comm, eq_comm]

/-- Numbers repeat only once all ids have been given. -/
theorem nodup_map_fst_raftEntries : ((raftEntries nodeId peers).map Prod.fst).Nodup ↔
    ∀ i < peers.length, peerNodeId i ≠ nodeId := by
  rw [map_fst_raftEntries, List.nodup_cons]
  constructor
  · rintro ⟨hself, -⟩ i hi heq
    exact hself (List.mem_map.mpr ⟨i, List.mem_range.mpr hi, heq⟩)
  · intro h
    have hlength : peers.length ≤ 2 ^ 64 := by
      by_contra hlong
      have hlt : (nodeId - 2).toNat < peers.length := by
        have := (nodeId - 2).toNat_lt
        omega
      refine h _ hlt ?_
      rw [peerNodeId, UInt64.ofNat_add, UInt64.ofNat_toNat]
      exact UInt64.sub_add_cancel _ _
    refine ⟨?_, ?_⟩
    · rw [List.mem_map]
      rintro ⟨i, hi, heq⟩
      exact h i (List.mem_range.mp hi) heq
    · refine List.Nodup.map_on (fun i hi j hj heq => ?_) List.nodup_range
      have hi' := List.mem_range.mp hi
      have hj' := List.mem_range.mp hj
      have heq' := congrArg UInt64.toNat heq
      rw [peerNodeId, peerNodeId, UInt64.toNat_ofNat', UInt64.toNat_ofNat'] at heq'
      omega

theorem host_raftNodes (hapart : ∀ i < peers.length, peerNodeId i ≠ nodeId) {id : NodeId}
    {host : String} (hid : id ≠ nodeId) :
    (raftNodes nodeId peers)[id]?.map NodeConfig.host = some host ↔
      ∃ i, peers[i]? = some host ∧ id = peerNodeId i := by
  have hnodup := nodup_map_fst_raftEntries.mpr hapart
  simp only [raftNodes_eq_ofList, Option.map_eq_some_iff, Table.get_ofList_eq_some hnodup,
    mem_raftEntries, hid, false_and, false_or]
  constructor
  · rintro ⟨config, ⟨i, host', hhost, hi, rfl⟩, rfl⟩
    exact ⟨i, hhost, hi⟩
  · rintro ⟨i, hhost, hi⟩
    exact ⟨_, ⟨i, host, hhost, hi, rfl⟩, rfl⟩

theorem peerNodeId_inj (hapart : ∀ i < peers.length, peerNodeId i ≠ nodeId) {i j : ℕ}
    (hi : i < peers.length) (hj : j < peers.length) (h : peerNodeId i = peerNodeId j) : i = j := by
  have hnodup := nodup_map_fst_raftEntries.mpr hapart
  rw [map_fst_raftEntries, List.nodup_cons] at hnodup
  exact List.inj_on_of_nodup_map hnodup.2 (List.mem_range.mpr hi) (List.mem_range.mpr hj) h

end Entries

/-- The map is faithful exactly if no peer is listed twice or numbered like the node. -/
theorem raftNodes_faithful_iff (nodeId : NodeId) (peers : List String) :
    FaithfulNodes nodeId peers (raftNodes nodeId peers) ↔ NumberedApart nodeId peers := by
  constructor
  · rintro ⟨hsize, -, hunique⟩
    have hapart := nodup_map_fst_raftEntries.mp (size_raftNodes.mp hsize)
    refine ⟨List.nodup_iff_getElem?_ne_getElem?.mpr fun i j hij hj heq => ?_, hapart⟩
    have hi : i < peers.length := hij.trans hj
    obtain ⟨id, -, hid⟩ := hunique peers[j] (List.getElem_mem hj)
    have hhost : ∀ k, k < peers.length → peers[k]? = some peers[j] → peerNodeId k = id := by
      intro k hk hget
      exact hid _ ⟨hapart k hk, (host_raftNodes hapart (hapart k hk)).mpr ⟨k, hget, rfl⟩⟩
    have hj' : peers[j]? = some peers[j] := List.getElem?_eq_getElem hj
    have hsame := (hhost i hi (heq.trans hj')).trans (hhost j hj hj').symm
    exact hij.ne (peerNodeId_inj hapart hi hj hsame)
  · rintro ⟨hdistinct, hapart⟩
    have hnodup := nodup_map_fst_raftEntries.mpr hapart
    refine ⟨size_raftNodes.mpr hnodup, ?_, fun host hhost => ?_⟩
    · rw [raftNodes_eq_ofList, Table.get_ofList_eq_some hnodup]
      exact List.mem_cons_self
    · obtain ⟨i, hi⟩ := List.mem_iff_getElem?.mp hhost
      have hlt := (List.getElem?_eq_some_iff.mp hi).1
      refine ⟨peerNodeId i, ⟨hapart i hlt, ?_⟩, ?_⟩
      · exact (host_raftNodes hapart (hapart i hlt)).mpr ⟨i, hi, rfl⟩
      · rintro id ⟨hid, hhost'⟩
        obtain ⟨j, hj, rfl⟩ := (host_raftNodes hapart hid).mp hhost'
        rw [(List.getElem?_inj hlt hdistinct).mp (hi.trans hj.symm)]

/-- The second node of a cluster is replaced by its first peer, and a peer that is listed twice
has two entries. -/
theorem raftNodes_not_faithful :
    (raftNodes 2 ["a:1"]).toList = [(2, .ofHost 2 "a:1")] ∧
      ¬ FaithfulNodes 2 ["a:1"] (raftNodes 2 ["a:1"]) ∧
      (raftNodes 1 ["a:1", "a:1"]).toList =
        [(1, .ofHost 1 "localhost"), (2, .ofHost 2 "a:1"), (3, .ofHost 3 "a:1")] ∧
      ¬ FaithfulNodes 1 ["a:1", "a:1"] (raftNodes 1 ["a:1", "a:1"]) := by
  refine ⟨by decide +kernel, fun h => ?_, by decide +kernel, fun h => ?_⟩
  · exact absurd h.size (by decide +kernel)
  · obtain ⟨id, -, hid⟩ := h.peer "a:1" List.mem_cons_self
    have hsame : (2 : NodeId) = 3 :=
      (hid 2 (by decide +kernel)).trans (hid 3 (by decide +kernel)).symm
    exact absurd hsame (by decide)

end DumbDistributedLog.Ddl
