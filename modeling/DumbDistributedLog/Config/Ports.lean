import DumbDistributedLog.Config.Nodes
import Mathlib.Data.List.Induction
import Mathlib.Data.List.Nodup

/-! # Generated ports

The generators give each node four ports, a hundred above those of the node before. The ports are
computed in 16 bits, so they are the ports that were meant only while these fit, and then no two
nodes share one.
-/

namespace DumbDistributedLog

def NodeConfig.onPort (host : String) (port : UInt16) : NodeConfig :=
  ⟨host, port, port + 2, port + 3, port + 4⟩

def NodeConfig.ports (node : NodeConfig) : List UInt16 :=
  [node.communicationPort, node.queryPort, node.coordinationPort, node.pubsubPort]

namespace ConfigGenerator

structure Numbered where
  name : String
  host : String
  number : ℕ

def generateNodes (basePort : UInt16) (entries : List Numbered) : Table String NodeConfig :=
  entries.foldl (fun nodes entry => nodes.insert entry.name
    (.onPort entry.host (basePort + UInt16.ofNat entry.number * 100))) ∅

def localNodes (numNodes : UInt64) : List Numbered :=
  (List.range' 1 numNodes.toNat).map fun i => ⟨nodeName (UInt64.ofNat i), "127.0.0.1", i⟩

def productionNodes (nodes : List (String × String)) : List Numbered :=
  nodes.zipIdx.map fun entry => ⟨entry.1.1, entry.1.2, entry.2⟩

def commonMetrics : Table String String :=
  ((∅ : Table String String).insert "cpu" "function:cpu").insert "memory" "function:memory"
    |>.insert "memory_free" "function:memory_free"

def localTest (numNodes : UInt64) (basePort : UInt16) : Config where
  nodes := generateNodes basePort (localNodes numNodes)
  localMetrics := commonMetrics.insert "temperature" "function:sensor_temp"
  globalMetrics := (((∅ : Table String GlobalMetricConfig).insert "cpu_avg"
    ⟨"avg", ["cpu"], 1000, none⟩).insert "temperature_max"
    ⟨"max", ["temperature"], 2000, none⟩).insert "node_health_score"
    ⟨"avg", ["cpu", "memory_free"], 1000, some "(100 - cpu) + memory_free"⟩
  debug := ⟨true, true⟩

def production (nodes : List (String × String)) : Config where
  nodes := generateNodes 6967 (productionNodes nodes)
  localMetrics := commonMetrics
  globalMetrics := ∅
  debug := ⟨false, false⟩

/-- The ports that are meant for a number, without a bound. -/
def meantPorts (basePort : UInt16) (number : ℕ) : List ℕ :=
  [basePort.toNat + 100 * number, basePort.toNat + 100 * number + 2,
    basePort.toNat + 100 * number + 3, basePort.toNat + 100 * number + 4]

/-- Every node has the ports that were meant for it, and no two nodes share one. -/
structure PortsValid (basePort : UInt16) (entries : List Numbered)
    (nodes : Table String NodeConfig) : Prop where
  exact : ∀ entry ∈ entries, ∃ node, nodes[entry.name]? = some node ∧
    node.ports.map (·.toNat) = meantPorts basePort entry.number
  disjoint : ∀ (name name' : String) (node node' : NodeConfig), nodes[name]? = some node →
    nodes[name']? = some node' → name ≠ name' → node.ports.Disjoint node'.ports

variable {basePort : UInt16} {entries : List Numbered} {name host : String} {node : NodeConfig}
  {number : ℕ}

theorem get_generateNodes (h : (entries.map (·.name)).Nodup) :
    (generateNodes basePort entries)[name]? = some node ↔ ∃ entry ∈ entries, entry.name = name ∧
      node = .onPort entry.host (basePort + UInt16.ofNat entry.number * 100) := by
  induction entries using List.reverseRecOn with
  | nil => simp [generateNodes]
  | append_singleton entries last ih =>
    rw [List.map_append, List.nodup_append'] at h
    obtain ⟨hentries, -, hlast⟩ := h
    have hnew : ∀ entry ∈ entries, entry.name ≠ last.name := fun entry hentry heq =>
      hlast (List.mem_map_of_mem hentry) (by simp [heq])
    rw [generateNodes, List.foldl_append, List.foldl_cons, List.foldl_nil, ← generateNodes,
      Table.get_insert]
    simp only [List.mem_append, List.mem_singleton, or_and_right, exists_or, exists_eq_left]
    by_cases hname : last.name = name
    · subst hname
      simp only [if_true, Option.some.injEq, true_and, eq_comm]
      refine (or_iff_right ?_).symm
      rintro ⟨entry, hentry, heq, -⟩
      exact hnew entry hentry heq.symm
    · simp only [hname, if_false, false_and, or_false]
      exact ih hentries

theorem ports_onPort : ((NodeConfig.onPort host
    (basePort + UInt16.ofNat number * 100)).ports.map (·.toNat)) = meantPorts basePort number ↔
      basePort.toNat + 100 * number + 4 < 2 ^ 16 := by
  have hbase : basePort.toNat < 2 ^ 16 := basePort.toNat_lt
  have hconst : UInt16.toNat 100 = 100 ∧ UInt16.toNat 2 = 2 ∧ UInt16.toNat 3 = 3 ∧
      UInt16.toNat 4 = 4 := by decide
  simp only [NodeConfig.onPort, NodeConfig.ports, meantPorts, List.map_cons, List.map_nil,
    List.cons.injEq, UInt16.toNat_add, UInt16.toNat_mul, UInt16.toNat_ofNat', and_true, hconst]
  omega

theorem disjoint_meantPorts {other : ℕ} (h : number ≠ other) :
    (meantPorts basePort number).Disjoint (meantPorts basePort other) := by
  simp only [List.Disjoint, meantPorts, List.mem_cons, List.not_mem_nil, or_false]
  omega

theorem portsValid_iff (hnames : (entries.map (·.name)).Nodup)
    (hnumbers : (entries.map (·.number)).Nodup) :
    PortsValid basePort entries (generateNodes basePort entries) ↔
      ∀ entry ∈ entries, basePort.toNat + 100 * entry.number + 4 < 2 ^ 16 := by
  constructor
  · intro hvalid entry hentry
    obtain ⟨node, hget, hports⟩ := hvalid.exact entry hentry
    have hown : (generateNodes basePort entries)[entry.name]? = _ :=
      (get_generateNodes hnames).mpr ⟨entry, hentry, rfl, rfl⟩
    rw [hget] at hown
    rw [Option.some.inj hown] at hports
    exact ports_onPort.mp hports
  · intro hfit
    constructor
    · intro entry hentry
      exact ⟨_, (get_generateNodes hnames).mpr ⟨entry, hentry, rfl, rfl⟩,
        ports_onPort.mpr (hfit entry hentry)⟩
    · intro name name' node node' hget hget' hne port hport hport'
      obtain ⟨entry, hentry, rfl, rfl⟩ := (get_generateNodes hnames).mp hget
      obtain ⟨entry', hentry', rfl, rfl⟩ := (get_generateNodes hnames).mp hget'
      have hnumber : entry.number ≠ entry'.number := fun heq =>
        hne (congrArg _ (List.inj_on_of_nodup_map hnumbers hentry hentry' heq))
      apply disjoint_meantPorts hnumber
      · rw [← ports_onPort.mpr (hfit entry hentry)]
        exact List.mem_map_of_mem hport
      · rw [← ports_onPort.mpr (hfit entry' hentry')]
        exact List.mem_map_of_mem hport'

theorem nodup_localNodes {numNodes : UInt64} : ((localNodes numNodes).map (·.name)).Nodup ∧
    ((localNodes numNodes).map (·.number)).Nodup := by
  have hbound : ∀ i ∈ List.range' 1 numNodes.toNat, i < 2 ^ 64 := by
    intro i hi
    have hlt : numNodes.toNat < 2 ^ 64 := numNodes.toNat_lt
    have := (List.mem_range'_1.mp hi).2
    omega
  simp only [localNodes, List.map_map]
  constructor
  · apply List.Nodup.map_on _ List.nodup_range'
    intro i hi j hj heq
    have hsame : (UInt64.ofNat i).toNat = (UInt64.ofNat j).toNat :=
      congrArg UInt64.toNat (nodeName_injective heq)
    rwa [UInt64.toNat_ofNat_of_lt' (hbound i hi), UInt64.toNat_ofNat_of_lt' (hbound j hj)] at hsame
  · simpa [Function.comp_def] using List.nodup_range'

theorem nodup_productionNodes {nodes : List (String × String)} (h : (nodes.map Prod.fst).Nodup) :
    ((productionNodes nodes).map (·.name)).Nodup ∧
      ((productionNodes nodes).map (·.number)).Nodup := by
  have hnames : (productionNodes nodes).map (·.name) = nodes.map Prod.fst := by
    have hfst := congrArg (List.map Prod.fst) (List.zipIdx_map_fst 0 nodes)
    rw [List.map_map] at hfst
    rw [productionNodes, List.map_map]
    exact hfst
  have hnumbers : (productionNodes nodes).map (·.number) = List.range' 0 nodes.length := by
    rw [← List.zipIdx_map_snd 0 nodes]
    simp [productionNodes, Function.comp_def]
  rw [hnames, hnumbers]
  exact ⟨h, List.nodup_range'⟩

/-- The ports of a local test are valid exactly if there are no nodes or the last one fits in
16 bits, and those of a production configuration of distinct names exactly if there are at most
586 nodes. -/
theorem generated_ports_valid (numNodes : UInt64) (basePort : UInt16)
    (nodes : List (String × String)) :
    (PortsValid basePort (localNodes numNodes) (localTest numNodes basePort).nodes ↔
      numNodes = 0 ∨ basePort.toNat + 100 * numNodes.toNat + 4 < 2 ^ 16) ∧
    ((nodes.map Prod.fst).Nodup →
      (PortsValid 6967 (productionNodes nodes) (production nodes).nodes ↔ nodes.length ≤ 586)) := by
  constructor
  · have hvalid :
        PortsValid basePort (localNodes numNodes) (localTest numNodes basePort).nodes ↔ _ :=
      portsValid_iff nodup_localNodes.1 nodup_localNodes.2
    rw [hvalid, ← UInt64.toNat_inj]
    simp only [localNodes, List.forall_mem_map, List.mem_range'_1, UInt64.toNat_zero]
    constructor
    · intro hfit
      by_cases hzero : numNodes.toNat = 0
      · exact .inl hzero
      · exact .inr (hfit numNodes.toNat (by omega))
    · rintro hbound i ⟨hpos, hle⟩
      omega
  · intro hnames
    have hvalid : PortsValid 6967 (productionNodes nodes) (production nodes).nodes ↔ _ :=
      portsValid_iff (nodup_productionNodes hnames).1 (nodup_productionNodes hnames).2
    have hbase : UInt16.toNat 6967 = 6967 := by decide
    rw [hvalid]
    simp only [productionNodes, List.forall_mem_map, hbase]
    constructor
    · intro hfit
      by_contra hmany
      have hlt : 586 < nodes.length := Nat.lt_of_not_le hmany
      have hlast := hfit (nodes.get ⟨586, hlt⟩, 586) (by simp [List.mem_zipIdx_iff_getElem?])
      omega
    · intro hfew entry hentry
      have hlt := (List.mem_zipIdx hentry).2.1
      omega

/-- The first port of the sixth node from port 65000 is meant to be 65600 and becomes 64. -/
theorem generated_port_wraps :
    meantPorts 65000 6 = [65600, 65602, 65603, 65604] ∧
    (localTest 6 65000).nodes["node6"]? = some ⟨"127.0.0.1", 64, 66, 67, 68⟩ := by
  decide +kernel

end ConfigGenerator

end DumbDistributedLog
