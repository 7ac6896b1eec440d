import DumbDistributedLog.Library.Codec
import DumbDistributedLog.Library.Ranks
import DumbDistributedLog.Library.Runs
import DumbDistributedLog.Library.Tables
import DumbDistributedLog.Network.ZmqFrames
import DumbDistributedLog.Queue.PersistedLines
import Mathlib.Order.WithBot

/-! # The metrics of a node

A node publishes what it measures and subscribes to every other node. Of what it receives it keeps
the last value for each metric and node, and from these and its own values it computes the global
metrics. The tasks share the values and take turns in any order, and a publication can be lost
before it reaches the subscriber. The addresses to which a node subscribes are written without a
transport, so what it hears depends on whether ZeroMQ takes such an address.
-/

namespace DumbDistributedLog.AutoQueues

open Persistence Runs

/-- The finite values of `f64` between its infinities. -/
abbrev Extended := WithBot (WithTop ℚ)

def finite (value : ℚ) : Extended := (value : WithTop ℚ)

namespace Aggregation

variable (f : F64) (values : List ℚ)

def sum : ℚ := values.foldl (fun total value => f.round (total + value)) 0

def avg : ℚ := if values = [] then 0 else f.round (sum f values / f.round values.length)

def max : Extended := values.foldl (fun m value => m ⊔ finite value) ⊥

def min : Extended := values.foldl (fun m value => m ⊓ finite value) ⊤

def place (p : ℚ) (n : ℕ) : ℕ :=
  Nat.min ⌊f.round (f.round (p / 100) * f.round (n - 1 : ℕ)) + 1 / 2⌋.toNat (n - 1)

def percentile (p : ℚ) : ℚ :=
  if values = [] then 0 else (values.mergeSort (· ≤ ·)).getD (place f p values.length) 0

end Aggregation

structure GlobalMetricConfig where
  aggregation : String
  sources : List String
  expression : Option String

abbrev RemoteValues := Table String (Table UInt64 ℚ)

section Aggregates

variable (f : F64) (localValues : Table String ℚ) (remoteValues : RemoteValues)
  (order : ∀ nodes : Table UInt64 ℚ, nodes.Iteration)

def remoteOf (source : String) : List ℚ :=
  (remoteValues[source]?.map fun nodes => (order nodes).entries.map (·.2)).getD []

def collectAllValues (sources : List String) : List ℚ :=
  sources.flatMap fun source =>
    localValues[source]?.toList ++ remoteOf remoteValues order source

def contains (expression source : String) : Bool := source.toList <:+: expression.toList

def evalExpression (expression : String) : ℚ :=
  if contains expression "100 - cpu" && contains expression "memory_free" then
    f.round (f.round (100 - localValues["cpu"]?.getD 0) + localValues["memory_free"]?.getD 0)
  else
    Aggregation.sum f (["cpu", "memory", "temperature", "vibration"].flatMap fun source =>
      if contains expression source then localValues[source]?.toList else [])

def computeExpression (expression : String) (sources : List String) : ℚ :=
  Aggregation.avg f (evalExpression f localValues expression ::
    sources.flatMap (remoteOf remoteValues order))

/-- One global metric of a turn of `aggregate_global`. -/
def aggregate (config : GlobalMetricConfig) : Extended :=
  let values := collectAllValues localValues remoteValues order config.sources
  match config.aggregation with
  | "avg" => finite (Aggregation.avg f values)
  | "max" => Aggregation.max values
  | "min" => Aggregation.min values
  | "sum" => finite (Aggregation.sum f values)
  | "p95" => finite (Aggregation.percentile f values 95)
  | "p99" => finite (Aggregation.percentile f values 99)
  | "p50" | "median" => finite (Aggregation.percentile f values 50)
  | _ =>
    match config.expression with
    | some expression =>
      finite (computeExpression f localValues remoteValues order expression config.sources)
    | none => finite 0

end Aggregates

/-- The value has so many values below or equal to it, and the others above or equal to it. -/
def Ranked (values : List ℚ) (k : ℕ) (v : ℚ) : Prop :=
  v ∈ values ∧ k + 1 ≤ values.countP (· ≤ v) ∧ values.length - k ≤ values.countP (v ≤ ·)

/-- The rank of the value that an aggregation takes from so many, if it takes one of them. -/
def rank (f : F64) (aggregation : String) (n : ℕ) : Option ℕ :=
  match aggregation with
  | "max" => some (n - 1)
  | "min" => some 0
  | "p95" => some (Aggregation.place f 95 n)
  | "p99" => some (Aggregation.place f 99 n)
  | "p50" | "median" => some (Aggregation.place f 50 n)
  | _ => none

section Orders

variable {f : F64} {values : List ℚ} {v : ℚ} {k : ℕ}

def atPlace (values : List ℚ) (k : ℕ) : ℚ := (values.mergeSort (· ≤ ·)).getD k 0

theorem ranked_atPlace (hk : k < values.length) : Ranked values k (atPlace values k) := by
  obtain ⟨v, hmem, hv, hbelow, habove⟩ := Ranks.rank_mergeSort hk
  have heq : atPlace values k = v := by simp [atPlace, List.getD, hv]
  rw [heq]
  exact ⟨hmem, hbelow, habove⟩

theorem Ranked.le (h : Ranked values (values.length - 1) v) : ∀ w ∈ values, w ≤ v := by
  obtain ⟨hmem, hbelow, -⟩ := h
  have hpos := List.length_pos_of_mem hmem
  have hall : values.countP (· ≤ v) = values.length :=
    le_antisymm List.countP_le_length (by omega)
  simpa using List.countP_eq_length.mp hall

theorem Ranked.ge (h : Ranked values 0 v) : ∀ w ∈ values, v ≤ w := by
  have hall : values.countP (v ≤ ·) = values.length :=
    le_antisymm List.countP_le_length (by simpa using h.2.2)
  simpa using List.countP_eq_length.mp hall

theorem finite_le_finite {a b : ℚ} : finite a ≤ finite b ↔ a ≤ b :=
  WithBot.coe_le_coe.trans WithTop.coe_le_coe

theorem Aggregation.max_eq (hv : values ≠ []) :
    Aggregation.max values = finite (atPlace values (values.length - 1)) := by
  have hpos := List.length_pos_iff.mpr hv
  have hranked := ranked_atPlace (by omega : values.length - 1 < values.length)
  refine Ranks.foldl_sup_eq (fun w hw => ?_) bot_le (.inl hranked.1)
  exact finite_le_finite.mpr (hranked.le w hw)

theorem Aggregation.min_eq (hv : values ≠ []) :
    Aggregation.min values = finite (atPlace values 0) := by
  have hranked := ranked_atPlace (List.length_pos_iff.mpr hv)
  refine Ranks.foldl_sup_eq (β := Extendedᵒᵈ) (fun w hw => ?_) (bot_le (α := Extendedᵒᵈ))
    (.inl hranked.1)
  exact finite_le_finite.mpr (hranked.ge w hw)

theorem Aggregation.percentile_eq (hv : values ≠ []) (p : ℚ) :
    Aggregation.percentile f values p = atPlace values (Aggregation.place f p values.length) :=
  if_neg hv

theorem Aggregation.place_lt {n : ℕ} (hn : 0 < n) (p : ℚ) : Aggregation.place f p n < n := by
  have : Aggregation.place f p n ≤ n - 1 := Nat.min_le_right _ _
  omega

theorem aggregate_eq {localValues : Table String ℚ} {remoteValues : RemoteValues}
    {order : ∀ nodes : Table UInt64 ℚ, nodes.Iteration} {config : GlobalMetricConfig}
    (hvalues : collectAllValues localValues remoteValues order config.sources = values)
    (hv : values ≠ []) (hrank : rank f config.aggregation values.length = some k) :
    k < values.length ∧
      aggregate f localValues remoteValues order config = finite (atPlace values k) := by
  have hpos := List.length_pos_iff.mpr hv
  unfold rank at hrank
  unfold aggregate
  rw [hvalues]
  split at hrank <;> cases hrank
  all_goals rename_i haggregation; simp only [haggregation]
  · exact ⟨by omega, Aggregation.max_eq hv⟩
  · exact ⟨hpos, Aggregation.min_eq hv⟩
  all_goals exact ⟨Aggregation.place_lt hpos _, congrArg finite (Aggregation.percentile_eq hv _)⟩

theorem collectAllValues_perm (localValues : Table String ℚ) (remoteValues : RemoteValues)
    (order order' : ∀ nodes : Table UInt64 ℚ, nodes.Iteration) (sources : List String) :
    (collectAllValues localValues remoteValues order sources).Perm
      (collectAllValues localValues remoteValues order' sources) := by
  refine List.Perm.flatMap_left _ fun source _ => List.Perm.append_left _ ?_
  unfold remoteOf
  cases remoteValues[source]? with
  | none => exact .refl _
  | some nodes => exact ((order nodes).perm.trans (order' nodes).perm.symm).map _

/-- In whatever order the maps are iterated, the greatest and the least value and the percentiles
are the same: the value that has its rank among all that were collected. -/
theorem aggregate_ranked (f : F64) (localValues : Table String ℚ) (remoteValues : RemoteValues)
    (config : GlobalMetricConfig) (k : ℕ) :
    let collected := fun order : ∀ nodes : Table UInt64 ℚ, nodes.Iteration =>
      collectAllValues localValues remoteValues order config.sources
    collected .sorted ≠ [] → rank f config.aggregation (collected .sorted).length = some k →
      ∃ v, ∀ order, aggregate f localValues remoteValues order config = finite v ∧
        Ranked (collected order) k v := by
  intro collected hv hrank
  refine ⟨atPlace (collected .sorted) k, fun order => ?_⟩
  have hperm : (collected order).Perm (collected .sorted) :=
    collectAllValues_perm localValues remoteValues order .sorted config.sources
  have hne : collected order ≠ [] := fun hnil => hv (List.nil_perm.mp (hnil ▸ hperm))
  obtain ⟨hk, haggregate⟩ := aggregate_eq rfl hne (hperm.length_eq ▸ hrank)
  have hplace : atPlace (collected order) k = atPlace (collected .sorted) k := by
    rw [atPlace, atPlace, Ranks.mergeSort_eq_of_perm hperm]
  rw [← hplace]
  exact ⟨haggregate, ranked_atPlace hk⟩

theorem aggregate_ranked_three :
    let localValues : Table String ℚ := (∅ : Table String ℚ).insert "cpu" 3
    let nodes : Table UInt64 ℚ := ((∅ : Table UInt64 ℚ).insert 1 5).insert 2 4
    let remoteValues : RemoteValues := (∅ : RemoteValues).insert "cpu" nodes
    ∃ v, ∀ order, aggregate F64.ideal localValues remoteValues order ⟨"max", ["cpu"], none⟩ =
        finite v ∧
      Ranked (collectAllValues localValues remoteValues order ["cpu"]) 2 v := by
  intro localValues nodes remoteValues
  exact aggregate_ranked F64.ideal localValues remoteValues ⟨"max", ["cpu"], none⟩ 2
    (by decide +kernel) (by decide +kernel)

end Orders

structure MetricMessage where
  nodeId : UInt64
  metricName : String
  value : ℚ
  timestamp : UInt64
  deriving DecidableEq

inductive LocalMetric where
  | cpu
  | memory
  | memoryFree
  | temperature
  | vibration
  deriving DecidableEq, Repr

namespace LocalMetric

def name : LocalMetric → String
  | .cpu => "cpu"
  | .memory => "memory"
  | .memoryFree => "memory_free"
  | .temperature => "temperature"
  | .vibration => "vibration"

def all : List LocalMetric := [.cpu, .memory, .memoryFree, .temperature, .vibration]

end LocalMetric

structure AutoQueuesNode where
  localValues : Table String ℚ
  globalValues : Table String Extended
  remoteValues : RemoteValues

/-- The address of a node, as it is written. -/
structure SocketAddr where
  text : String
  written : text.toList.all fun c => c.isAlphanum || ['.', ':', '[', ']', '%'].contains c
  deriving DecidableEq

/-- The encoding of a message. All of it is read back as it was written, but a number may come back
as one next to it. -/
structure MetricJson where
  encode : MetricMessage → List UInt8
  decode : List UInt8 → Except String MetricMessage
  reread : ℚ → ℚ
  decode_encode : ∀ msg, decode (encode msg) = .ok { msg with value := reread msg.value }

abbrev Publication := LocalMetric × ℚ × UInt64

/-- A node and the sockets of its subscriptions by their ids, with the frames that each of them has
not yet received. -/
structure Watcher where
  node : AutoQueuesNode
  subscribers : Table String (List (List UInt8))

/-- The turns of the tasks of the node, and the publications of the nodes at the other addresses,
which can be lost. -/
inductive NodeStep where
  | collect (readings : LocalMetric → ℚ)
  | publish (addr : SocketAddr) (publication : Publication) (lost : Bool)
  | receive (addr : SocketAddr)
  | aggregate (order : ∀ nodes : Table UInt64 ℚ, nodes.Iteration)
      (configs : List (String × GlobalMetricConfig))

def stripPrefix (front s : String) : Option String :=
  if front.toList.isPrefixOf s.toList then some (String.ofList (s.toList.drop front.length))
  else none

namespace AutoQueuesNode

variable (node : AutoQueuesNode)

/-- The turn of `collect_and_publish` that stores what was measured. -/
def collect (readings : LocalMetric → ℚ) : AutoQueuesNode :=
  { node with
    localValues := LocalMetric.all.foldl (fun values metric =>
      values.insert metric.name (readings metric)) node.localValues }

/-- What `subscribe_and_receive` does with a message: the metric is taken from the topic, the node
from the data. -/
def record (topic : String) (msg : MetricMessage) : AutoQueuesNode :=
  let metricName := (stripPrefix "metric:" topic).getD topic
  { node with
    remoteValues := node.remoteValues.insert metricName
      ((node.remoteValues[metricName]?.getD ∅).insert msg.nodeId msg.value) }

/-- What comes from a socket. A frame without a topic, or without a message, is dropped. -/
def receiveFrame (json : MetricJson) (frame : List UInt8) : AutoQueuesNode :=
  match Zmq.receive (some (.ok frame)) with
  | .ok (some (topic, data)) =>
    match json.decode data with
    | .ok msg => node.record topic msg
    | .error _ => node
  | _ => node

/-- A turn of `aggregate_global`, which keeps all values from changing meanwhile. -/
def aggregateGlobal (f : F64) (order : ∀ nodes : Table UInt64 ℚ, nodes.Iteration)
    (configs : List (String × GlobalMetricConfig)) : AutoQueuesNode :=
  { node with
    globalValues := configs.foldl (fun values entry =>
      values.insert entry.1 (aggregate f node.localValues node.remoteValues order entry.2))
      node.globalValues }

def remoteValue (metric : String) (nodeId : UInt64) : Option ℚ :=
  node.remoteValues[metric]?.bind (·[nodeId]?)

end AutoQueuesNode

def metricFrame (json : MetricJson) (nodeId : UInt64) (publication : Publication) : List UInt8 :=
  Zmq.publishFrame ("metric:" ++ publication.1.name)
    (json.encode ⟨nodeId, publication.1.name, publication.2.1, publication.2.2⟩)

def subscriberId (addr : SocketAddr) : String := "metric:@" ++ addr.text

namespace Watcher

variable (json : MetricJson) (f : F64) (nodeAt : SocketAddr → UInt64) (connect : String → Bool)
  (s : Watcher)

/-- A subscription to an address. When no socket can be made or connected, the error is dropped. -/
def subscribe (addr : SocketAddr) : Watcher :=
  if connect addr.text then { s with subscribers := s.subscribers.insert (subscriberId addr) [] }
  else s

def start (otherNodes : List SocketAddr) : Watcher :=
  otherNodes.foldl (subscribe connect) ⟨⟨∅, ∅, ∅⟩, ∅⟩

/-- The frame reaches the socket that is connected to the address of the node, if there is one. -/
def publish (addr : SocketAddr) (publication : Publication) : Watcher :=
  match s.subscribers[subscriberId addr]? with
  | none => s
  | some frames =>
    { s with
      subscribers := s.subscribers.insert (subscriberId addr)
        (frames ++ [metricFrame json (nodeAt addr) publication]) }

def receive (addr : SocketAddr) : Watcher :=
  match s.subscribers[subscriberId addr]? with
  | some (frame :: frames) =>
    ⟨s.node.receiveFrame json frame, s.subscribers.insert (subscriberId addr) frames⟩
  | _ => s

def step : NodeStep → Watcher
  | .collect readings => { s with node := s.node.collect readings }
  | .publish addr publication lost => if lost then s else s.publish json nodeAt addr publication
  | .receive addr => s.receive json addr
  | .aggregate order configs => { s with node := s.node.aggregateGlobal f order configs }

end Watcher

/-- The publications of a node that have reached the subscriber: those it has received, and those
that wait for it. -/
structure Inbox where
  received : List Publication
  pending : List Publication

namespace Inbox

def deliver (inbox : Inbox) (publication : Publication) : Inbox :=
  { inbox with pending := inbox.pending ++ [publication] }

def take : Inbox → Inbox
  | ⟨received, publication :: pending⟩ => ⟨received ++ [publication], pending⟩
  | ⟨received, []⟩ => ⟨received, []⟩

def step (addr : SocketAddr) (inbox : Inbox) : NodeStep → Inbox
  | .publish addr' publication lost =>
    if addr' = addr ∧ lost = false then inbox.deliver publication else inbox
  | .receive addr' => if addr' = addr then inbox.take else inbox
  | _ => inbox

def latest (inbox : Inbox) (metric : LocalMetric) : Option ℚ :=
  (inbox.received.filter (·.1 = metric)).getLast?.map (·.2.1)

end Inbox

def inboxOf (addr : SocketAddr) (steps : List NodeStep) : Inbox :=
  exec (Inbox.step addr) ⟨[], []⟩ steps

/-- The publication of the node at this address that is not lost. -/
def NodeStep.delivers (addr : SocketAddr) : NodeStep → Option Publication
  | .publish addr' publication lost =>
    if addr' = addr ∧ lost = false then some publication else none
  | _ => none

namespace Plain

open Layout

/-- A rational number is written as its sign and, each as so many words, its numerator and its
denominator. -/
def rational : Layout ℚ :=
  (word.pair (word.list.pair word.list)).via
    (fun q => (if q.num < 0 then 1 else 0,
      (List.replicate q.num.natAbs 0, List.replicate q.den 0)))
    (fun p => some (mkRat (if p.1 = 1 then -p.2.1.length else p.2.1.length) p.2.2.length))
    fun q => by
      have hnum : (if (if q.num < 0 then (1 : UInt64) else 0) = 1 then -(q.num.natAbs : ℤ)
          else q.num.natAbs) = q.num := by
        split_ifs <;> first | omega | contradiction
      simp only [List.length_replicate, hnum, Rat.mkRat_self]

def message : Layout MetricMessage :=
  ((word.pair string).pair (rational.pair word)).via
    (fun msg => ((msg.nodeId, msg.metricName), (msg.value, msg.timestamp)))
    (fun p => some ⟨p.1.1, p.1.2, p.2.1, p.2.2⟩) (fun _ => rfl)

/-- An encoding as it is assumed, in which numbers are rounded to halves. -/
def json : MetricJson where
  encode msg := message.write { msg with value := ⌊2 * msg.value⌋ / 2 }
  decode bytes := ((message.read bytes).map Prod.fst).elim (.error "invalid data") .ok
  reread value := ⌊2 * value⌋ / 2
  decode_encode msg := by
    have h := message.read_write { msg with value := ⌊2 * msg.value⌋ / 2 } []
    rw [List.append_nil] at h
    rw [h]
    rfl

end Plain

section Inboxes

variable {addr : SocketAddr}

theorem inboxOf_append (steps : List NodeStep) (a : NodeStep) :
    inboxOf addr (steps ++ [a]) = (inboxOf addr steps).step addr a := by
  simp [inboxOf]

theorem delivered_eq (steps : List NodeStep) :
    steps.filterMap (NodeStep.delivers addr) =
      (inboxOf addr steps).received ++ (inboxOf addr steps).pending := by
  induction steps using List.reverseRecOn with
  | nil => rfl
  | append_singleton steps a ih =>
    rw [List.filterMap_append, ih, inboxOf_append]
    generalize inboxOf addr steps = inbox
    cases a with
    | collect readings => simp [NodeStep.delivers, Inbox.step]
    | aggregate order configs => simp [NodeStep.delivers, Inbox.step]
    | publish addr' publication lost =>
      by_cases h : addr' = addr ∧ lost = false
      · simp [NodeStep.delivers, Inbox.step, Inbox.deliver, h]
      · simp [NodeStep.delivers, Inbox.step, h]
    | receive addr' =>
      obtain ⟨received, pending⟩ := inbox
      by_cases h : addr' = addr
      · cases pending <;> simp [NodeStep.delivers, Inbox.step, Inbox.take, h]
      · simp [NodeStep.delivers, Inbox.step, h]

end Inboxes

section Receiving

variable {json : MetricJson} {f : F64} {nodeAt : SocketAddr → UInt64} {connect : String → Bool}
  {s : Watcher} {node : AutoQueuesNode} {nodeId : UInt64} {addr : SocketAddr}

theorem LocalMetric.name_injective : Function.Injective LocalMetric.name := by
  intro a b h
  cases a <;> cases b <;> first | rfl | exact absurd h (by decide)

theorem subscriberId_injective : Function.Injective subscriberId := by
  rintro ⟨text, _⟩ ⟨text', _⟩ h
  obtain rfl : text = text' := by simpa [subscriberId, ← String.toList_inj] using h
  rfl

theorem receive_metricFrame (publication : Publication) :
    node.receiveFrame json (metricFrame json nodeId publication) =
      { node with
        remoteValues := node.remoteValues.insert publication.1.name
          ((node.remoteValues[publication.1.name]?.getD ∅).insert nodeId
            (json.reread publication.2.1)) } := by
  obtain ⟨metric, value, timestamp⟩ := publication
  have hzero : '\x00' ∉ ("metric:" ++ metric.name).toList := by cases metric <;> decide
  have hname : (stripPrefix "metric:" ("metric:" ++ metric.name)).getD
      ("metric:" ++ metric.name) = metric.name := by cases metric <;> rfl
  unfold AutoQueuesNode.receiveFrame metricFrame
  simp only [Zmq.receive, Zmq.splitFrame_publishFrame.mpr hzero, json.decode_encode,
    AutoQueuesNode.record, hname]

theorem remoteValue_receive (publication : Publication) (metric : String) (id : UInt64) :
    (node.receiveFrame json (metricFrame json nodeId publication)).remoteValue metric id =
      if publication.1.name = metric ∧ nodeId = id then some (json.reread publication.2.1)
      else node.remoteValue metric id := by
  rw [receive_metricFrame]
  simp only [AutoQueuesNode.remoteValue, Table.get_insert]
  by_cases hmetric : publication.1.name = metric
  · subst hmetric
    rw [if_pos rfl, Option.bind_some, Table.get_insert]
    by_cases hid : nodeId = id
    · rw [if_pos hid, if_pos ⟨rfl, hid⟩]
    · rw [if_neg hid, if_neg fun h => hid h.2]
      cases node.remoteValues[publication.1.name]? with
      | none => simp
      | some nodes => rfl
  · rw [if_neg hmetric, if_neg fun h => hmetric h.1]

/-- What waits for the subscriber is in its socket, and it has the last value of each metric that
it has received. -/
structure Heard (json : MetricJson) (nodeAt : SocketAddr → UInt64) (addr : SocketAddr)
    (inbox : Inbox) (s : Watcher) : Prop where
  socket : s.subscribers[subscriberId addr]? =
    some (inbox.pending.map (metricFrame json (nodeAt addr)))
  latest : ∀ metric : LocalMetric, s.node.remoteValue metric.name (nodeAt addr) =
    (inbox.latest metric).map json.reread

variable {inbox : Inbox}

theorem Heard.publish (h : Heard json nodeAt addr inbox s) (addr' : SocketAddr)
    (publication : Publication) :
    Heard json nodeAt addr (inbox.step addr (.publish addr' publication false))
      (s.publish json nodeAt addr' publication) := by
  unfold Watcher.publish
  by_cases haddr : addr' = addr
  · subst haddr
    rw [h.socket]
    refine ⟨?_, fun metric => ?_⟩
    · simp [Inbox.step, Inbox.deliver]
    · simpa [Inbox.step, Inbox.deliver, Inbox.latest] using h.latest metric
  · have hid : subscriberId addr' ≠ subscriberId addr := fun h =>
      haddr (subscriberId_injective h)
    simp only [Inbox.step, haddr, false_and, if_false]
    split
    · exact h
    · exact ⟨by simpa [Table.get_insert, hid] using h.socket, h.latest⟩

theorem Inbox.latest_take (received pending : List Publication) (publication : Publication)
    (metric : LocalMetric) :
    (Inbox.mk (received ++ [publication]) pending).latest metric =
      if publication.1 = metric then some publication.2.1
      else (Inbox.mk received pending).latest metric := by
  unfold Inbox.latest
  by_cases h : publication.1 = metric <;> simp [h]

theorem receive_of_nil (h : s.subscribers[subscriberId addr]? = some []) :
    s.receive json addr = s := by
  simp only [Watcher.receive, h]

theorem receive_of_cons {frame : List UInt8} {frames : List (List UInt8)}
    (h : s.subscribers[subscriberId addr]? = some (frame :: frames)) :
    s.receive json addr =
      ⟨s.node.receiveFrame json frame, s.subscribers.insert (subscriberId addr) frames⟩ := by
  simp only [Watcher.receive, h]

theorem Heard.receive (h : Heard json nodeAt addr inbox s) :
    Heard json nodeAt addr inbox.take (s.receive json addr) := by
  obtain ⟨received, pending⟩ := inbox
  cases pending with
  | nil =>
    rw [receive_of_nil h.socket]
    exact h
  | cons publication pending =>
    rw [receive_of_cons h.socket]
    refine ⟨by simp [Inbox.take], fun metric => ?_⟩
    rw [Inbox.take, Inbox.latest_take, remoteValue_receive]
    by_cases hmetric : publication.1 = metric
    · simp [hmetric]
    · have hname : publication.1.name ≠ metric.name := fun h =>
        hmetric (LocalMetric.name_injective h)
      rw [if_neg hmetric, if_neg fun h => hname h.1]
      exact h.latest metric

theorem Heard.receive_cases (h : Heard json nodeAt addr inbox s) :
    s.receive json addr = s ∨ ∃ publication pending, s.receive json addr =
      ⟨s.node.receiveFrame json (metricFrame json (nodeAt addr) publication),
        s.subscribers.insert (subscriberId addr) pending⟩ := by
  have hsocket := h.socket
  cases hpending : inbox.pending with
  | nil =>
    rw [hpending] at hsocket
    exact .inl (receive_of_nil hsocket)
  | cons publication pending =>
    rw [hpending] at hsocket
    exact .inr ⟨publication, _, receive_of_cons hsocket⟩

theorem Heard.receive_other (h : Heard json nodeAt addr inbox s) {addr' : SocketAddr}
    {inbox' : Inbox} (h' : Heard json nodeAt addr' inbox' s) (haddr : addr' ≠ addr)
    (hnode : nodeAt addr' ≠ nodeAt addr) : Heard json nodeAt addr inbox (s.receive json addr') := by
  have hid : subscriberId addr' ≠ subscriberId addr := fun h => haddr (subscriberId_injective h)
  rcases h'.receive_cases with hsame | ⟨publication, pending, hreceive⟩
  · rwa [hsame]
  · rw [hreceive]
    refine ⟨by simpa [Table.get_insert, hid] using h.socket, fun metric => ?_⟩
    rw [remoteValue_receive, if_neg fun h => hnode h.2]
    exact h.latest metric

/-- After these steps the node has heard of the nodes whose addresses could be connected, and of no
one else. -/
structure Listening (json : MetricJson) (nodeAt : SocketAddr → UInt64) (reached : List SocketAddr)
    (steps : List NodeStep) (s : Watcher) : Prop where
  heard : ∀ addr ∈ reached, Heard json nodeAt addr (inboxOf addr steps) s
  unheard : ∀ addr ∉ reached, s.subscribers[subscriberId addr]? = none
  silent : ∀ metric, ∀ id ∉ reached.map nodeAt, s.node.remoteValue metric id = none

variable {reached : List SocketAddr} {steps : List NodeStep} {a : NodeStep}

theorem start_eq (connect : String → Bool) (otherNodes : List SocketAddr) :
    (Watcher.start connect otherNodes).node = ⟨∅, ∅, ∅⟩ ∧
    ∀ addr, (Watcher.start connect otherNodes).subscribers[subscriberId addr]? =
      if addr ∈ otherNodes.filter (connect ·.text) then some [] else none := by
  unfold Watcher.start
  induction otherNodes using List.reverseRecOn with
  | nil => exact ⟨rfl, fun addr => by simp⟩
  | append_singleton otherNodes addr' ih =>
    obtain ⟨hnode, hsockets⟩ := ih
    simp only [List.foldl_append, List.foldl_cons, List.foldl_nil, List.filter_append,
      List.mem_append]
    generalize otherNodes.foldl _ _ = s at hnode hsockets
    unfold Watcher.subscribe
    split_ifs with hconnect
    · refine ⟨hnode, fun addr => ?_⟩
      rw [Table.get_insert, hsockets]
      by_cases haddr : addr' = addr
      · subst haddr
        simp [hconnect]
      · have hid : subscriberId addr' ≠ subscriberId addr := fun h =>
          haddr (subscriberId_injective h)
        simp [hid, hconnect, Ne.symm haddr]
    · refine ⟨hnode, fun addr => ?_⟩
      simp [hsockets, hconnect]

theorem listening_start (otherNodes : List SocketAddr) :
    Listening json nodeAt (otherNodes.filter (connect ·.text)) []
      (Watcher.start connect otherNodes) := by
  obtain ⟨hnode, hsockets⟩ := start_eq connect otherNodes
  refine ⟨fun addr haddr => ⟨?_, fun metric => ?_⟩, fun addr haddr => ?_, fun metric id _ => ?_⟩
  · rw [hsockets, if_pos haddr]
    rfl
  · simp [hnode, AutoQueuesNode.remoteValue, inboxOf, Inbox.latest]
  · rw [hsockets, if_neg haddr]
  · simp [hnode, AutoQueuesNode.remoteValue]

theorem Listening.skip (h : Listening json nodeAt reached steps s) {node : AutoQueuesNode}
    (hnode : node.remoteValues = s.node.remoteValues)
    (ha : ∀ addr ∈ reached, ∀ inbox : Inbox, inbox.step addr a = inbox) :
    Listening json nodeAt reached (steps ++ [a]) { s with node } := by
  have hvalue : ∀ metric id, node.remoteValue metric id = s.node.remoteValue metric id := by
    simp [AutoQueuesNode.remoteValue, hnode]
  refine ⟨fun addr haddr => ?_, h.unheard, fun metric id hid => ?_⟩
  · rw [inboxOf_append, ha addr haddr]
    have hheard := h.heard addr haddr
    exact ⟨hheard.socket, fun metric => (hvalue _ _).trans (hheard.latest metric)⟩
  · rw [hvalue, h.silent metric id hid]

theorem listening_publish (h : Listening json nodeAt reached steps s) (addr' : SocketAddr)
    (publication : Publication) :
    Listening json nodeAt reached (steps ++ [.publish addr' publication false])
      (s.publish json nodeAt addr' publication) := by
  refine ⟨fun addr haddr => ?_, fun addr haddr => ?_, ?_⟩
  · rw [inboxOf_append]
    exact (h.heard addr haddr).publish addr' publication
  · have hnone := h.unheard addr haddr
    unfold Watcher.publish
    split
    · exact hnone
    next frames hframes =>
      have hid : subscriberId addr' ≠ subscriberId addr := by
        rintro heq
        rw [heq, hnone] at hframes
        cases hframes
      rwa [Table.get_insert, if_neg hid]
  · unfold Watcher.publish
    split <;> exact h.silent

theorem listening_receive
    (hnodes : ∀ addr ∈ reached, ∀ addr' ∈ reached, nodeAt addr = nodeAt addr' → addr = addr')
    (h : Listening json nodeAt reached steps s) (addr' : SocketAddr) :
    Listening json nodeAt reached (steps ++ [.receive addr']) (s.receive json addr') := by
  by_cases haddr' : addr' ∈ reached
  · have hheard' := h.heard addr' haddr'
    refine ⟨fun addr haddr => ?_, fun addr haddr => ?_, fun metric id hid => ?_⟩
    · rw [inboxOf_append]
      by_cases heq : addr' = addr
      · subst heq
        simpa [Inbox.step] using hheard'.receive
      · have hnode : nodeAt addr' ≠ nodeAt addr := fun hsame =>
          heq (hnodes addr' haddr' addr haddr hsame)
        simpa [Inbox.step, heq] using (h.heard addr haddr).receive_other hheard' heq hnode
    · have hid : subscriberId addr' ≠ subscriberId addr := fun heq =>
        haddr (subscriberId_injective heq ▸ haddr')
      rcases hheard'.receive_cases with hsame | ⟨publication, pending, hreceive⟩
      · rw [hsame]
        exact h.unheard addr haddr
      · rw [hreceive]
        simpa [Table.get_insert, hid] using h.unheard addr haddr
    · rcases hheard'.receive_cases with hsame | ⟨publication, pending, hreceive⟩
      · rw [hsame]
        exact h.silent metric id hid
      · have hne : nodeAt addr' ≠ id := fun heq => hid (heq ▸ List.mem_map_of_mem haddr')
        rw [hreceive, remoteValue_receive, if_neg fun heq => hne heq.2]
        exact h.silent metric id hid
  · have hsame : s.receive json addr' = s := by simp [Watcher.receive, h.unheard addr' haddr']
    rw [hsame]
    refine h.skip rfl fun addr haddr inbox => if_neg ?_
    rintro rfl
    exact haddr' haddr

theorem listening_step
    (hnodes : ∀ addr ∈ reached, ∀ addr' ∈ reached, nodeAt addr = nodeAt addr' → addr = addr')
    (h : Listening json nodeAt reached steps s) :
    Listening json nodeAt reached (steps ++ [a]) (s.step json f nodeAt a) := by
  cases a with
  | collect readings => exact h.skip rfl fun _ _ _ => rfl
  | publish addr publication lost =>
    cases lost with
    | true => exact h.skip rfl fun addr' _ inbox => by simp [Inbox.step]
    | false => exact listening_publish h addr publication
  | receive addr => exact listening_receive hnodes h addr
  | aggregate order configs => exact h.skip rfl fun _ _ _ => rfl

theorem listening_exec {otherNodes : List SocketAddr}
    (hnodes : ∀ addr ∈ otherNodes, ∀ addr' ∈ otherNodes, nodeAt addr = nodeAt addr' → addr = addr')
    (steps : List NodeStep) :
    Listening json nodeAt (otherNodes.filter (connect ·.text)) steps
      (exec (Watcher.step json f nodeAt) (.start connect otherNodes) steps) := by
  induction steps using List.reverseRecOn with
  | nil => exact listening_start otherNodes
  | append_singleton steps a ih =>
    rw [exec_append]
    refine listening_step (fun addr haddr addr' haddr' => ?_) ih
    exact hnodes addr (List.mem_of_mem_filter haddr) addr' (List.mem_of_mem_filter haddr')

end Receiving

section Unconnected

variable {json : MetricJson} {f : F64} {nodeAt : SocketAddr → UInt64} {connect : String → Bool}

theorem not_contains_transport (addr : SocketAddr) : contains addr.text "://" = false := by
  rw [contains, decide_eq_false_iff_not]
  intro h
  have hslash : '/' ∈ addr.text.toList := h.subset (by decide)
  exact absurd (List.all_eq_true.mp addr.written '/' hslash) (by decide)

theorem start_of_refused (hconnect : ∀ addr, connect addr = true → contains addr "://" = true)
    (otherNodes : List SocketAddr) : Watcher.start connect otherNodes = ⟨⟨∅, ∅, ∅⟩, ∅⟩ := by
  have hrefused : ∀ addr : SocketAddr, connect addr.text = false := by
    intro addr
    by_contra h
    have := hconnect addr.text (by simpa using h)
    rw [not_contains_transport] at this
    cases this
  unfold Watcher.start
  induction otherNodes with
  | nil => rfl
  | cons addr otherNodes ih => simpa [Watcher.subscribe, hrefused] using ih

structure Alone (s : Watcher) : Prop where
  subscribers : s.subscribers = ∅
  remoteValues : s.node.remoteValues = ∅

theorem alone_step {s : Watcher} (h : Alone s) (a : NodeStep) :
    Alone (s.step json f nodeAt a) := by
  cases a with
  | collect readings => exact ⟨h.subscribers, h.remoteValues⟩
  | publish addr publication lost =>
    cases lost with
    | true => exact h
    | false => simpa [Watcher.step, Watcher.publish, h.subscribers] using h
  | receive addr => simpa [Watcher.step, Watcher.receive, h.subscribers] using h
  | aggregate order configs => exact ⟨h.subscribers, h.remoteValues⟩

theorem collectAllValues_empty (localValues : Table String ℚ)
    (order : ∀ nodes : Table UInt64 ℚ, nodes.Iteration) (sources : List String) :
    collectAllValues localValues ∅ order sources =
      sources.flatMap fun source => localValues[source]?.toList := by
  simp [collectAllValues, remoteOf]

end Unconnected

/-- Whatever is lost and however the tasks take turns, what a node has of another node's metric is
the last value that it received of it. The publications that reach the node are received in the
order in which they were made, so the value never goes back to an earlier one, and once the socket
is empty it is the last one that was not lost. But this is so only for addresses that could be
connected. If ZeroMQ takes none without a transport, a node never has a value of another node, and
its global metrics are computed from its own values. -/
theorem remote_values_latest (json : MetricJson) (f : F64) (connect : String → Bool)
    (nodeAt : SocketAddr → UInt64) (otherNodes : List SocketAddr)
    (hnodes : ∀ addr ∈ otherNodes, ∀ addr' ∈ otherNodes, nodeAt addr = nodeAt addr' → addr = addr')
    (steps : List NodeStep) :
    let s := exec (Watcher.step json f nodeAt) (.start connect otherNodes) steps
    (∀ addr ∈ otherNodes, connect addr.text = true →
      let inbox := inboxOf addr steps
      steps.filterMap (NodeStep.delivers addr) = inbox.received ++ inbox.pending ∧
      s.subscribers[subscriberId addr]? =
        some (inbox.pending.map (metricFrame json (nodeAt addr))) ∧
      ∀ metric : LocalMetric, s.node.remoteValue metric.name (nodeAt addr) =
        (inbox.latest metric).map json.reread) ∧
    (∀ id, (∀ addr ∈ otherNodes, connect addr.text = true → nodeAt addr ≠ id) →
      ∀ metric, s.node.remoteValue metric id = none) ∧
    ((∀ addr, connect addr = true → contains addr "://" = true) →
      s.node.remoteValues = ∅ ∧
      ∀ order sources, collectAllValues s.node.localValues s.node.remoteValues order sources =
        sources.flatMap fun source => s.node.localValues[source]?.toList) := by
  intro s
  have h : Listening json nodeAt (otherNodes.filter (connect ·.text)) steps s :=
    listening_exec hnodes steps
  refine ⟨fun addr haddr hconnect => ?_, fun id hid metric => ?_, fun hconnect => ?_⟩
  · have hheard := h.heard addr (List.mem_filter.mpr ⟨haddr, hconnect⟩)
    exact ⟨delivered_eq steps, hheard.socket, hheard.latest⟩
  · refine h.silent metric id fun hmem => ?_
    obtain ⟨addr, haddr, hnode⟩ := List.mem_map.mp hmem
    obtain ⟨haddr, hconnect⟩ := List.mem_filter.mp haddr
    exact hid addr haddr hconnect hnode
  · have hstart : Alone (.start connect otherNodes) := by
      rw [start_of_refused hconnect]
      exact ⟨rfl, rfl⟩
    have halone : Alone s := exec_inv (fun _ a h => alone_step h a) hstart
    refine ⟨halone.remoteValues, fun order sources => ?_⟩
    rw [halone.remoteValues]
    exact collectAllValues_empty _ order sources

/-- Of three values of which the second is lost the first has been received, as it is read. Where an
address without a transport is refused, there is none. -/
theorem remote_values_latest_two :
    let first : SocketAddr := ⟨"10.0.0.8:6967", by decide⟩
    let second : SocketAddr := ⟨"[fd00::9]:6967", by decide⟩
    let nodeAt := fun addr : SocketAddr => if addr = first then (8 : UInt64) else 9
    let steps : List NodeStep := [.publish first (.cpu, 13 / 4, 1) false,
      .publish first (.cpu, 4, 2) true, .publish second (.cpu, 7, 2) false,
      .publish first (.cpu, 5, 3) false, .receive first, .receive second]
    let run := fun connect =>
      exec (Watcher.step Plain.json F64.ideal nodeAt) (.start connect [first, second]) steps
    (run fun _ => true).node.remoteValue "cpu" 8 = some 3 ∧
      (run fun _ => true).node.remoteValue "cpu" 9 = some 7 ∧
      (run (contains · "://")).node.remoteValues = ∅ := by
  intro first second nodeAt steps run
  have hnodes : ∀ addr ∈ [first, second], ∀ addr' ∈ [first, second],
      nodeAt addr = nodeAt addr' → addr = addr' := by decide
  have h := remote_values_latest Plain.json F64.ideal (fun _ => true) nodeAt _ hnodes steps
  have hrefused :=
    remote_values_latest Plain.json F64.ideal (contains · "://") nodeAt _ hnodes steps
  refine ⟨?_, ?_, (hrefused.2.2 fun _ => id).1⟩
  · rw [show (8 : UInt64) = nodeAt first by decide]
    exact ((h.1 first (by decide) rfl).2.2 .cpu).trans (by decide +kernel)
  · rw [show (9 : UInt64) = nodeAt second by decide]
    exact ((h.1 second (by decide) rfl).2.2 .cpu).trans (by decide +kernel)

end DumbDistributedLog.AutoQueues
