import DumbDistributedLog.Library.Decimals
import DumbDistributedLog.Library.Tables
import Mathlib.Algebra.Group.Nat.Defs

/-! # Nodes of a configuration

The node of a number is the one called `node` and the number. The number of a host is the place
at which an iteration of the table comes to its name, which is another thing: the two agree in
every order only if no name is that of the host, or the first of them is decided by other means.
-/

namespace DumbDistributedLog

structure NodeConfig where
  host : String
  communicationPort : UInt16
  queryPort : UInt16
  coordinationPort : UInt16
  pubsubPort : UInt16
  deriving DecidableEq, Repr

structure GlobalMetricConfig where
  aggregation : String
  sources : List String
  intervalMs : UInt64
  expression : Option String
  deriving DecidableEq, Repr

structure DebugConfig where
  verbose : Bool
  simulateSensors : Bool
  deriving DecidableEq, Repr

structure Config where
  nodes : Table String NodeConfig
  localMetrics : Table String String
  globalMetrics : Table String GlobalMetricConfig
  debug : DebugConfig

inductive ConfigError where
  | invalidValue (message : String)
  | nodeNotFound (name : String)
  deriving DecidableEq, Repr

structure Environment where
  nodeId : Option String
  hostname : Option String
  host : Option String

/-- The lower case of a string, which for ASCII is that of its characters. -/
structure Lowercase where
  toLowercase : String → String
  ascii : ∀ s : String, s.toList.all (·.toNat < 128) = true →
    toLowercase s = String.ofList (s.toList.map Char.toLower)

def Lowercase.ofAscii : Lowercase where
  toLowercase s := String.ofList (s.toList.map Char.toLower)
  ascii _ _ := rfl

def nodeName (nodeId : UInt64) : String := "node" ++ toString nodeId.toNat

/-- A number of 64 bits in decimal digits, perhaps with a plus sign. -/
def parseU64 (s : String) : Option UInt64 :=
  let digits := if s.toList.head? = some '+' then s.toList.tail else s.toList
  if digits ≠ [] ∧ digits.all Char.isDigit ∧ Decimals.value digits < 2 ^ 64 then
    some (UInt64.ofNat (Decimals.value digits))
  else none

theorem nodeName_injective : Function.Injective nodeName := by
  intro a b h
  have hrepr : a.toNat.repr = b.toNat.repr := (String.append_right_inj "node").mp h
  rw [← UInt64.toNat_inj, ← Decimals.value_repr a.toNat, hrepr, Decimals.value_repr]

namespace Config

variable (config : Config) (l : Lowercase) (hostname : String)

def new : Config := ⟨∅, ∅, ∅, ⟨false, false⟩⟩

def myNode (nodeId : UInt64) : Except ConfigError NodeConfig :=
  match config.nodes[nodeName nodeId]? with
  | some node => .ok node
  | none => .error (.nodeNotFound (nodeName nodeId))

/-- The loop of `detect_node_id` from a place on. -/
def findHost : ℕ → List (String × NodeConfig) → Except ConfigError UInt64
  | _, [] => .error (.invalidValue s!"Hostname '{hostname}' not found in node list")
  | i, (name, _) :: rest =>
    if l.toLowercase name = l.toLowercase hostname then .ok (UInt64.ofNat (i + 1))
    else if (config.myNode (UInt64.ofNat (i + 1))).toOption.any (·.host == hostname) then
      .ok (UInt64.ofNat (i + 1))
    else findHost (i + 1) rest

def detectNodeId (env : Environment) (order : config.nodes.Iteration) : Except ConfigError UInt64 :=
  match env.nodeId with
  | some id =>
    match parseU64 id with
    | some nodeId => .ok nodeId
    | none => .error (.invalidValue "Invalid NODE_ID")
  | none =>
    match env.hostname.or env.host with
    | some hostname => config.findHost l hostname 0 order.entries
    | none => .error (.invalidValue "Cannot determine hostname")

/-- The node of the number has the name of the host, in any case, or its address. -/
def Denotes (nodeId : UInt64) : Prop :=
  ∃ node, config.myNode nodeId = .ok node ∧
    (l.toLowercase (nodeName nodeId) = l.toLowercase hostname ∨ node.host = hostname)

def HostedBy (nodeId : UInt64) : Prop :=
  ∃ node, config.nodes[nodeName nodeId]? = some node ∧ node.host = hostname

variable {config l hostname} {nodeId : UInt64} {node : NodeConfig} {i : ℕ}
  {entries : List (String × NodeConfig)}

theorem myNode_eq_ok : config.myNode nodeId = .ok node ↔
    config.nodes[nodeName nodeId]? = some node := by
  unfold myNode
  cases config.nodes[nodeName nodeId]? <;> simp

theorem hostedBy_iff :
    config.HostedBy hostname nodeId ↔ (config.myNode nodeId).toOption.any (·.host == hostname) := by
  unfold HostedBy myNode
  cases config.nodes[nodeName nodeId]? <;> simp [Except.toOption]

theorem HostedBy.denotes (h : config.HostedBy hostname nodeId) :
    config.Denotes l hostname nodeId := by
  obtain ⟨node, hget, hhost⟩ := h
  exact ⟨node, myNode_eq_ok.mpr hget, .inr hhost⟩

theorem findHost_cons {name : String} {rest : List (String × NodeConfig)} :
    config.findHost l hostname i ((name, node) :: rest) =
      if l.toLowercase name = l.toLowercase hostname ∨
          (config.myNode (UInt64.ofNat (i + 1))).toOption.any (·.host == hostname) then
        .ok (UInt64.ofNat (i + 1))
      else config.findHost l hostname (i + 1) rest := by
  rw [findHost]
  split_ifs <;> simp_all

theorem toLowercase_nodeName_one : l.toLowercase (nodeName 1) = "node1" := by
  rw [l.ascii _ (by decide +kernel)]
  decide +kernel

theorem toLowercase_nodeName_two : l.toLowercase (nodeName 2) = "node2" := by
  rw [l.ascii _ (by decide +kernel)]
  decide +kernel

theorem denotes_of_no_name
    (hnone : ∀ entry ∈ entries, l.toLowercase entry.1 ≠ l.toLowercase hostname)
    (h : config.findHost l hostname i entries = .ok nodeId) :
    config.Denotes l hostname nodeId := by
  induction entries generalizing i with
  | nil => cases h
  | cons entry rest ih =>
    rw [findHost_cons] at h
    split_ifs at h with hstop
    · cases h
      have hhost := hstop.resolve_left (hnone entry List.mem_cons_self)
      exact (hostedBy_iff.mpr hhost).denotes
    · exact ih (fun e he => hnone e (List.mem_cons_of_mem entry he)) h

theorem denotes_of_hostedBy_one (hhost : config.HostedBy hostname 1)
    (h : config.findHost l hostname 0 entries = .ok nodeId) : config.Denotes l hostname nodeId := by
  cases entries with
  | nil => cases h
  | cons entry rest =>
    rw [findHost_cons, if_pos (.inr (hostedBy_iff.mp hhost))] at h
    cases h
    exact hhost.denotes

theorem denotes_of_named_one {node : NodeConfig} (hget : config.nodes["node1"]? = some node)
    (hname : l.toLowercase hostname = "node1")
    (hother : (∀ entry ∈ entries, l.toLowercase entry.1 = l.toLowercase hostname) ∨
      config.HostedBy hostname 2)
    (h : config.findHost l hostname 0 entries = .ok nodeId) : config.Denotes l hostname nodeId := by
  cases entries with
  | nil => cases h
  | cons first rest =>
    rw [findHost_cons] at h
    split_ifs at h with hstop
    · cases h
      exact ⟨node, myNode_eq_ok.mpr hget, .inl (toLowercase_nodeName_one.trans hname.symm)⟩
    · have hhost : config.HostedBy hostname 2 :=
        hother.resolve_left fun hall => hstop (.inl (hall first List.mem_cons_self))
      cases rest with
      | nil => cases h
      | cons second rest =>
        rw [findHost_cons, if_pos (.inr (hostedBy_iff.mp hhost))] at h
        cases h
        exact hhost.denotes

/-- What the table must be like for every order to return a number of the host. -/
def OrderFree (config : Config) (l : Lowercase) (hostname : String) : Prop :=
  (∀ name ∈ config.nodes, l.toLowercase name ≠ l.toLowercase hostname) ∨
    config.HostedBy hostname 1 ∨
    l.toLowercase hostname = "node1" ∧ "node1" ∈ config.nodes ∧
      ((∀ name ∈ config.nodes, l.toLowercase name = l.toLowercase hostname) ∨
        config.HostedBy hostname 2)

theorem OrderFree.denotes {order : config.nodes.Iteration} (hfree : config.OrderFree l hostname)
    (h : config.findHost l hostname 0 order.entries = .ok nodeId) :
    config.Denotes l hostname nodeId := by
  have hmem : ∀ entry ∈ order.entries, entry.1 ∈ config.nodes := fun entry hentry =>
    (Table.mem_iff_get _).mpr ⟨entry.2, order.mem_entries.mp hentry⟩
  rcases hfree with hnone | hhost | ⟨hname, hone, hother⟩
  · exact denotes_of_no_name (fun entry hentry => hnone entry.1 (hmem entry hentry)) h
  · exact denotes_of_hostedBy_one hhost h
  · obtain ⟨node, hget⟩ := (Table.mem_iff_get _).mp hone
    refine denotes_of_named_one hget hname (hother.imp_left fun hall entry hentry => ?_) h
    exact hall entry.1 (hmem entry hentry)

theorem denotes_one_of_name {name : String} (hmem : name ∈ config.nodes)
    (hname : l.toLowercase name = l.toLowercase hostname)
    (h : ∀ (order : config.nodes.Iteration) (nodeId : UInt64),
      config.findHost l hostname 0 order.entries = .ok nodeId → config.Denotes l hostname nodeId) :
    config.Denotes l hostname 1 := by
  obtain ⟨node, hget⟩ := (Table.mem_iff_get _).mp hmem
  obtain ⟨order, rest, hentries⟩ := Table.Iteration.exists_cons hget
  refine h order 1 ?_
  rw [hentries, findHost_cons, if_pos (.inl hname)]
  rfl

theorem denotes_two_of_names {name other : String} (hmem : name ∈ config.nodes)
    (hname : l.toLowercase name = l.toLowercase hostname) (hother : other ∈ config.nodes)
    (hne : l.toLowercase other ≠ l.toLowercase hostname) (hone : ¬ config.HostedBy hostname 1)
    (h : ∀ (order : config.nodes.Iteration) (nodeId : UInt64),
      config.findHost l hostname 0 order.entries = .ok nodeId → config.Denotes l hostname nodeId) :
    config.Denotes l hostname 2 := by
  obtain ⟨node, hget⟩ := (Table.mem_iff_get _).mp hmem
  obtain ⟨otherNode, hgetOther⟩ := (Table.mem_iff_get _).mp hother
  have hfront : [(other, otherNode), (name, node)].Subperm config.nodes.toList := by
    apply List.subperm_of_subset
    · have hdiff : other ≠ name := fun heq => hne (heq ▸ hname)
      simp [hdiff]
    · simp [Std.ExtTreeMap.mem_toList_iff_getElem?_eq_some, hget, hgetOther]
  obtain ⟨order, rest, hentries⟩ := Table.Iteration.exists_append hfront
  refine h order 2 ?_
  have hskip : ¬ (l.toLowercase other = l.toLowercase hostname ∨
      (config.myNode (UInt64.ofNat (0 + 1))).toOption.any (·.host == hostname)) :=
    not_or.mpr ⟨hne, mt hostedBy_iff.mpr hone⟩
  rw [hentries, List.cons_append, List.cons_append, findHost_cons, if_neg hskip, findHost_cons,
    if_pos (.inl hname)]
  rfl

theorem orderFree_of_denotes
    (h : ∀ (order : config.nodes.Iteration) (nodeId : UInt64),
      config.findHost l hostname 0 order.entries = .ok nodeId → config.Denotes l hostname nodeId) :
    config.OrderFree l hostname := by
  by_cases hnone : ∀ name ∈ config.nodes, l.toLowercase name ≠ l.toLowercase hostname
  · exact .inl hnone
  · right
    push Not at hnone
    obtain ⟨name, hmem, hname⟩ := hnone
    obtain ⟨node, hnode, hdenotes⟩ := denotes_one_of_name hmem hname h
    have hget : config.nodes["node1"]? = some node := myNode_eq_ok.mp hnode
    by_cases hhost : config.HostedBy hostname 1
    · exact .inl hhost
    · right
      have hlower : l.toLowercase hostname = "node1" := by
        rcases hdenotes with hlower | hhosted
        · exact hlower.symm.trans toLowercase_nodeName_one
        · exact absurd ⟨node, hget, hhosted⟩ hhost
      refine ⟨hlower, (Table.mem_iff_get _).mpr ⟨node, hget⟩, ?_⟩
      by_contra! hneither
      obtain ⟨⟨other, hother, hne⟩, htwo⟩ := hneither
      obtain ⟨second, hsecond, hdenotes⟩ := denotes_two_of_names hmem hname hother hne hhost h
      rcases hdenotes with hsame | hhosted
      · rw [toLowercase_nodeName_two, hlower] at hsame
        exact absurd hsame (by decide)
      · exact htwo ⟨second, myNode_eq_ok.mp hsecond, hhosted⟩

theorem detectNodeId_of_unset {env : Environment} {order : config.nodes.Iteration}
    (hunset : env.nodeId = none) (hhostname : env.hostname.or env.host = some hostname) :
    config.detectNodeId l env order = config.findHost l hostname 0 order.entries := by
  simp only [detectNodeId, hunset, hhostname]

/-- Whatever the order, a detected number is that of a node with the name or the address of the
host, exactly if no node has its name, the first numbered node has its address, or the host is
called `node1` and either all names are its own or the second numbered node has its address. -/
theorem detected_node_is_host (config : Config) (l : Lowercase) (env : Environment)
    (hostname : String) (hunset : env.nodeId = none)
    (hhostname : env.hostname.or env.host = some hostname) :
    (∀ (order : config.nodes.Iteration) (nodeId : UInt64),
      config.detectNodeId l env order = .ok nodeId → config.Denotes l hostname nodeId) ↔
    (∀ name ∈ config.nodes, l.toLowercase name ≠ l.toLowercase hostname) ∨
      config.HostedBy hostname 1 ∨
      l.toLowercase hostname = "node1" ∧ "node1" ∈ config.nodes ∧
        ((∀ name ∈ config.nodes, l.toLowercase name = l.toLowercase hostname) ∨
          config.HostedBy hostname 2) := by
  simp only [detectNodeId_of_unset hunset hhostname]
  exact ⟨orderFree_of_denotes, fun hfree order nodeId h => OrderFree.denotes hfree h⟩

def single (name host : String) : Config :=
  { new with nodes := (∅ : Table String NodeConfig).insert name ⟨host, 1, 3, 4, 5⟩ }

/-- A node that is found by its address, with the host known from `HOST` alone. -/
theorem detected_node_is_host_by_address :
    (Environment.mk none none (some "h1")).nodeId = none ∧
    (Environment.mk none none (some "h1")).hostname.or (some "h1") = some "h1" ∧
    ∀ (order : (single "node1" "h1").nodes.Iteration) (nodeId : UInt64),
      (single "node1" "h1").detectNodeId .ofAscii ⟨none, none, some "h1"⟩ order = .ok nodeId →
        (single "node1" "h1").Denotes .ofAscii "h1" nodeId := by
  refine ⟨rfl, rfl, (detected_node_is_host _ _ ⟨none, none, some "h1"⟩ "h1" rfl rfl).mpr ?_⟩
  exact .inr (.inl ⟨⟨"h1", 1, 3, 4, 5⟩, by decide +kernel, rfl⟩)

/-- A host whose name is that of the only node is given a number that is the number of no node. -/
theorem detected_node_missing :
    (single "alpha" "10.0.0.1").detectNodeId .ofAscii ⟨none, some "alpha", none⟩ (.sorted _) =
      .ok 1 ∧
    (single "alpha" "10.0.0.1").myNode 1 = .error (.nodeNotFound "node1") := by
  decide +kernel

end Config

end DumbDistributedLog
