import DumbDistributedLog.Config.Nodes
import DumbDistributedLog.Library.Runs
import DumbDistributedLog.Library.Separators
import DumbDistributedLog.Library.TextLines

/-! # The arguments of a node

The arguments are options in any order. Most take the next word as their value, whatever it looks
like. An option that is given again replaces its value, except that the peers of all options are
taken together. Of two options, and only of these, the value may be missing at the end, and the
option then counts for nothing.
-/

namespace DumbDistributedLog.NodeArgs

open Runs TextLines

@[ext] structure Args where
  id : UInt64
  port : UInt16
  peers : List (UInt64 × String)
  bootstrap : Bool
  dataDir : String
  host : String
  apiPort : UInt16
  deriving DecidableEq, Repr

/-- How the program ends without a node: with its help, or with an error. -/
inductive Exit where
  | help
  | failure (message : String)
  deriving DecidableEq, Repr

inductive Flag where
  | id
  | port
  | peers
  | bootstrap
  | dataDir
  | host
  | apiPort
  | help
  deriving DecidableEq, Repr

def Flag.ofArg (arg : String) : Option Flag :=
  if arg = "--id" ∨ arg = "-i" then some .id
  else if arg = "--port" ∨ arg = "-p" then some .port
  else if arg = "--peers" then some .peers
  else if arg = "--bootstrap" ∨ arg = "-b" then some .bootstrap
  else if arg = "--data-dir" ∨ arg = "-d" then some .dataDir
  else if arg = "--host" ∨ arg = "-h" then some .host
  else if arg = "--api-port" ∨ arg = "-a" then some .apiPort
  else if arg = "--help" then some .help
  else none

@[ext] structure Parsed where
  id : Option UInt64
  port : Option UInt16
  rawPeers : List (UInt64 × String)
  bootstrap : Bool
  dataDir : Option String
  host : String
  apiPort : Option UInt16
  deriving DecidableEq, Repr

def Parsed.initial : Parsed := ⟨none, none, [], false, none, "0.0.0.0", none⟩

def parseU16 (s : String) : Option UInt16 :=
  let digits := if s.toList.head? = some '+' then s.toList.tail else s.toList
  if digits ≠ [] ∧ digits.all Char.isDigit ∧ Decimals.value digits < 2 ^ 16 then
    some (UInt16.ofNat (Decimals.value digits))
  else none

def parsePeer (peerStr : List Char) : Except Exit (UInt64 × String) :=
  match peerStr.splitOn '@' with
  | [nodeId, addr] =>
    match parseU64 (String.ofList nodeId) with
    | some id => .ok (id, String.ofList addr)
    | none => .error (.failure s!"Invalid node_id in peer: {String.ofList nodeId}")
  | _ => .error (.failure
    s!"Invalid peer format '{String.ofList peerStr}'. Expected: node_id@host:port")

def peerTexts (peersStr : String) : List (List Char) :=
  ((peersStr.toList.splitOn ',').map trim).filter (· ≠ [])

def parsePeers (peersStr : String) : Except Exit (List (UInt64 × String)) :=
  (peerTexts peersStr).mapM parsePeer

def numeric {α : Type} (option : String) (parse : String → Option α) (value : Option String) :
    Except Exit α :=
  match value.bind parse with
  | some n => .ok n
  | none => .error (.failure s!"{option} requires a numeric argument")

def Flag.set (p : Parsed) (value : Option String) : Flag → Except Exit Parsed
  | .id => (numeric "--id" parseU64 value).map fun n => { p with id := some n }
  | .port => (numeric "--port" parseU16 value).map fun n => { p with port := some n }
  | .peers =>
    match value with
    | some peersStr => (parsePeers peersStr).map fun peers =>
      { p with rawPeers := p.rawPeers ++ peers }
    | none => .error (.failure "--peers requires an argument")
  | .bootstrap => .ok { p with bootstrap := true }
  | .dataDir => .ok { p with dataDir := value.or p.dataDir }
  | .host => .ok { p with host := value.getD p.host }
  | .apiPort => (numeric "--api-port" parseU16 value).map fun n => { p with apiPort := some n }
  | .help => .error .help

def parseWords : List String → Parsed → Except Exit Parsed
  | [], p => .ok p
  | arg :: rest, p =>
    match Flag.ofArg arg with
    | none => .error (.failure s!"Unknown argument: {arg}")
    | some .help => .error .help
    | some .bootstrap => parseWords rest { p with bootstrap := true }
    | some flag =>
      match rest with
      | [] => flag.set p none
      | value :: rest => (flag.set p (some value)).bind fun p => parseWords rest p

/-- The defaults, with the path of a name in the temporary directory. -/
def finish (inTempDir : String → String) (p : Parsed) : Except Exit Args :=
  match p.id with
  | none => .error (.failure "--id is required")
  | some id => .ok {
      id
      port := p.port.getD 6967
      peers := p.rawPeers
      bootstrap := p.bootstrap
      dataDir := p.dataDir.getD (inTempDir s!"ddl-node-{id}")
      host := p.host
      apiPort := p.apiPort.getD 8080 }

def parseArgs (inTempDir : String → String) (words : List String) : Except Exit Args :=
  (parseWords words .initial).bind (finish inTempDir)

/-! ### What the arguments say -/

inductive Setting where
  | id (n : UInt64)
  | port (n : UInt16)
  | peers (peers : List (UInt64 × String))
  | bootstrap
  | dataDir (dir : String)
  | host (host : String)
  | apiPort (n : UInt16)
  deriving DecidableEq, Repr

/-- The part of a list of peers that stands for a peer. -/
def PeerText (text : List Char) (peer : UInt64 × String) : Prop :=
  ∃ nodeId : List Char, text = nodeId ++ '@' :: peer.2.toList ∧ '@' ∉ nodeId ∧
    '@' ∉ peer.2.toList ∧ parseU64 (String.ofList nodeId) = some peer.1

/-- The value of an option stands for what the option sets. -/
inductive Flag.Means : Flag → String → Setting → Prop where
  | id {value : String} {n : UInt64} (h : parseU64 value = some n) : Means .id value (.id n)
  | port {value : String} {n : UInt16} (h : parseU16 value = some n) : Means .port value (.port n)
  | peers {value : String} {peers : List (UInt64 × String)}
      (h : List.Forall₂ PeerText (peerTexts value) peers) : Means .peers value (.peers peers)
  | dataDir (value : String) : Means .dataDir value (.dataDir value)
  | host (value : String) : Means .host value (.host value)
  | apiPort {value : String} {n : UInt16} (h : parseU16 value = some n) :
      Means .apiPort value (.apiPort n)

/-- The words are options that set the given things in turn. -/
inductive Reads : List String → List Setting → Prop where
  | nil : Reads [] []
  | bootstrap {arg : String} {rest : List String} {settings : List Setting}
      (harg : Flag.ofArg arg = some .bootstrap) (hrest : Reads rest settings) :
      Reads (arg :: rest) (.bootstrap :: settings)
  | valued {arg value : String} {flag : Flag} {setting : Setting} {rest : List String}
      {settings : List Setting} (harg : Flag.ofArg arg = some flag)
      (hvalue : flag.Means value setting) (hrest : Reads rest settings) :
      Reads (arg :: value :: rest) (setting :: settings)
  | bare {arg : String} (harg : Flag.ofArg arg = some .dataDir ∨ Flag.ofArg arg = some .host) :
      Reads [arg] []

namespace Setting

def apply (p : Parsed) : Setting → Parsed
  | .id n => { p with id := some n }
  | .port n => { p with port := some n }
  | .peers list => { p with rawPeers := p.rawPeers ++ list }
  | .bootstrap => { p with bootstrap := true }
  | .dataDir dir => { p with dataDir := some dir }
  | .host name => { p with host := name }
  | .apiPort n => { p with apiPort := some n }

def id? : Setting → Option UInt64
  | .id n => some n
  | _ => none

def port? : Setting → Option UInt16
  | .port n => some n
  | _ => none

def peers? : Setting → Option (List (UInt64 × String))
  | .peers list => some list
  | _ => none

def dataDir? : Setting → Option String
  | .dataDir dir => some dir
  | _ => none

def host? : Setting → Option String
  | .host name => some name
  | _ => none

def apiPort? : Setting → Option UInt16
  | .apiPort n => some n
  | _ => none

end Setting

/-- The last value of each option counts, the peers of all of them, and the rest are defaults. -/
structure Describes (inTempDir : String → String) (settings : List Setting) (args : Args) :
    Prop where
  id : (settings.filterMap Setting.id?).getLast? = some args.id
  port : args.port = (settings.filterMap Setting.port?).getLast?.getD 6967
  peers : args.peers = (settings.filterMap Setting.peers?).flatten
  bootstrap : args.bootstrap = true ↔ .bootstrap ∈ settings
  dataDir : args.dataDir =
    (settings.filterMap Setting.dataDir?).getLast?.getD (inTempDir s!"ddl-node-{args.id}")
  host : args.host = (settings.filterMap Setting.host?).getLast?.getD "0.0.0.0"
  apiPort : args.apiPort = (settings.filterMap Setting.apiPort?).getLast?.getD 8080

/-! ### Arguments written out -/

structure Listable (addr : String) : Prop where
  comma : ',' ∉ addr.toList
  at_sign : '@' ∉ addr.toList
  last : ∀ c ∈ addr.toList.getLast?, isWhitespace c = false

def peerWord (peer : UInt64 × String) : List Char :=
  (toString peer.1).toList ++ '@' :: peer.2.toList

def Flag.word : Flag → String
  | .id => "--id"
  | .port => "--port"
  | .peers => "--peers"
  | .bootstrap => "--bootstrap"
  | .dataDir => "--data-dir"
  | .host => "--host"
  | .apiPort => "--api-port"
  | .help => "--help"

def Setting.words : Setting → List String
  | .id n => [Flag.id.word, toString n]
  | .port n => [Flag.port.word, toString n]
  | .peers list => [Flag.peers.word, String.ofList ([','].intercalate (list.map peerWord))]
  | .bootstrap => [Flag.bootstrap.word]
  | .dataDir dir => [Flag.dataDir.word, dir]
  | .host name => [Flag.host.word, name]
  | .apiPort n => [Flag.apiPort.word, toString n]

def Args.settings (args : Args) : List Setting :=
  .id args.id :: .port args.port :: .peers args.peers :: .dataDir args.dataDir ::
    .host args.host :: .apiPort args.apiPort :: if args.bootstrap then [.bootstrap] else []

/-! ### What is accepted -/

variable {p p' : Parsed} {value : String} {flag : Flag} {words : List String}
  {settings : List Setting} {inTempDir : String → String} {args : Args}

theorem parsePeer_eq_ok {text : List Char} {peer : UInt64 × String} :
    parsePeer text = .ok peer ↔ PeerText text peer := by
  obtain ⟨id, addr⟩ := peer
  constructor
  · intro h
    unfold parsePeer at h
    split at h
    · next nodeId addr' hsplit =>
      obtain ⟨htext, hnodeId, haddr⟩ := Separators.splitOn_eq_pair_iff.mp hsplit
      split at h
      · next id' hid =>
        cases h
        exact ⟨nodeId, by rw [htext, String.toList_ofList], hnodeId,
          by rwa [String.toList_ofList], hid⟩
      · cases h
    · cases h
  · rintro ⟨nodeId, rfl, hnodeId, haddr, hid⟩
    rw [parsePeer, Separators.splitOn_eq_pair_iff.mpr ⟨rfl, hnodeId, haddr⟩]
    simp only [hid, String.ofList_toList]

theorem mapM_eq_ok {α β ε : Type} {f : α → Except ε β} {l : List α} {l' : List β} :
    l.mapM f = .ok l' ↔ List.Forall₂ (fun a b => f a = .ok b) l l' := by
  induction l generalizing l' with
  | nil =>
    rw [List.mapM_nil, List.forall₂_nil_left_iff]
    exact ⟨fun h => (Except.ok.inj h).symm, fun h => by rw [h]; rfl⟩
  | cons a l ih =>
    rw [List.mapM_cons, List.forall₂_cons_left_iff]
    simp only [← ih]
    cases f a with
    | error e => simp [bind, Except.bind]
    | ok b =>
      cases l.mapM f with
      | error e => simp [bind, Except.bind]
      | ok bs => simp [bind, Except.bind, pure, Except.pure, eq_comm]

theorem parsePeers_eq_ok {peers : List (UInt64 × String)} :
    parsePeers value = .ok peers ↔ List.Forall₂ PeerText (peerTexts value) peers := by
  simp only [parsePeers, mapM_eq_ok, parsePeer_eq_ok]

theorem map_eq_ok {α β ε : Type} {x : Except ε α} {f : α → β} {b : β} :
    x.map f = .ok b ↔ ∃ a, x = .ok a ∧ f a = b := by
  cases x <;> simp [Except.map]

theorem numeric_eq_ok {α : Type} {option : String} {parse : String → Option α} {f : α → Parsed} :
    (numeric option parse (some value)).map f = .ok p' ↔ ∃ n, parse value = some n ∧ f n = p' := by
  rw [map_eq_ok, numeric, Option.bind_some]
  cases parse value <;> simp

theorem set_some_eq_ok (hhelp : flag ≠ .help) (hbootstrap : flag ≠ .bootstrap) :
    flag.set p (some value) = .ok p' ↔
      ∃ setting : Setting, flag.Means value setting ∧ setting.apply p = p' := by
  cases flag with
  | id =>
    refine numeric_eq_ok.trans ⟨fun ⟨n, hn, hp⟩ => ⟨.id n, .id hn, hp⟩, ?_⟩
    rintro ⟨setting, hmeans, hp⟩
    cases hmeans with
    | id hn => exact ⟨_, hn, hp⟩
  | port =>
    refine numeric_eq_ok.trans ⟨fun ⟨n, hn, hp⟩ => ⟨.port n, .port hn, hp⟩, ?_⟩
    rintro ⟨setting, hmeans, hp⟩
    cases hmeans with
    | port hn => exact ⟨_, hn, hp⟩
  | peers =>
    rw [Flag.set, map_eq_ok]
    simp only [parsePeers_eq_ok]
    refine ⟨fun ⟨peers, hpeers, hp⟩ => ⟨.peers peers, .peers hpeers, hp⟩, ?_⟩
    rintro ⟨setting, hmeans, hp⟩
    cases hmeans with
    | peers hpeers => exact ⟨_, hpeers, hp⟩
  | bootstrap => exact absurd rfl hbootstrap
  | dataDir =>
    refine ⟨fun h => ⟨.dataDir value, .dataDir value, Except.ok.inj h⟩, ?_⟩
    rintro ⟨setting, ⟨⟩, rfl⟩
    rfl
  | host =>
    refine ⟨fun h => ⟨.host value, .host value, Except.ok.inj h⟩, ?_⟩
    rintro ⟨setting, ⟨⟩, rfl⟩
    rfl
  | apiPort =>
    refine numeric_eq_ok.trans ⟨fun ⟨n, hn, hp⟩ => ⟨.apiPort n, .apiPort hn, hp⟩, ?_⟩
    rintro ⟨setting, hmeans, hp⟩
    cases hmeans with
    | apiPort hn => exact ⟨_, hn, hp⟩
  | help => exact absurd rfl hhelp

theorem set_none_eq_ok (hbootstrap : flag ≠ .bootstrap) : flag.set p none = .ok p' ↔
    (flag = .dataDir ∨ flag = .host) ∧ p = p' := by
  cases flag <;> simp_all [Flag.set, numeric, Except.map]

theorem bind_eq_ok {α β ε : Type} {x : Except ε α} {f : α → Except ε β} {b : β} :
    x.bind f = .ok b ↔ ∃ a, x = .ok a ∧ f a = .ok b := by
  cases x <;> simp [Except.bind]

theorem not_reads {arg : String} {rest : List String}
    (h : Flag.ofArg arg = none ∨ Flag.ofArg arg = some .help) : ¬ Reads (arg :: rest) settings := by
  intro hreads
  cases hreads with
  | bootstrap harg hrest => simp [harg] at h
  | valued harg hvalue hrest =>
    rw [harg] at h
    obtain h | h := h <;> cases h
    cases hvalue
  | bare harg => obtain harg | harg := harg <;> simp [harg] at h

theorem reads_bootstrap {arg : String} {rest : List String}
    (h : Flag.ofArg arg = some .bootstrap) : Reads (arg :: rest) settings ↔
      ∃ settings', Reads rest settings' ∧ settings = .bootstrap :: settings' := by
  constructor
  · intro hreads
    cases hreads with
    | bootstrap harg hrest => exact ⟨_, hrest, rfl⟩
    | valued harg hvalue hrest =>
      cases h.symm.trans harg
      cases hvalue
    | bare harg => simp [h] at harg
  · rintro ⟨settings', hrest, rfl⟩
    exact .bootstrap h hrest

theorem reads_bare {arg : String} (h : Flag.ofArg arg = some flag)
    (hbootstrap : flag ≠ .bootstrap) :
    Reads [arg] settings ↔ (flag = .dataDir ∨ flag = .host) ∧ settings = [] := by
  constructor
  · intro hreads
    cases hreads with
    | bootstrap harg hrest => exact absurd (Option.some.inj (h.symm.trans harg)) hbootstrap
    | bare harg => exact ⟨by simpa [h] using harg, rfl⟩
  · rintro ⟨hflag, rfl⟩
    exact .bare (by simpa [h] using hflag)

theorem reads_valued {arg : String} {rest : List String} (h : Flag.ofArg arg = some flag)
    (hbootstrap : flag ≠ .bootstrap) : Reads (arg :: value :: rest) settings ↔
      ∃ setting settings', flag.Means value setting ∧ Reads rest settings' ∧
        settings = setting :: settings' := by
  constructor
  · intro hreads
    cases hreads with
    | bootstrap harg hrest => exact absurd (Option.some.inj (h.symm.trans harg)) hbootstrap
    | valued harg hvalue hrest =>
      cases h.symm.trans harg
      exact ⟨_, _, hvalue, hrest, rfl⟩
  · rintro ⟨setting, settings', hvalue, hrest, rfl⟩
    exact .valued h hvalue hrest

/-- The loop reads exactly the options, and does what they say. -/
theorem parseWords_eq_ok :
    parseWords words p = .ok p' ↔ ∃ settings, Reads words settings ∧
      exec Setting.apply p settings = p' := by
  fun_induction parseWords words p with
  | case1 p =>
    constructor
    · rintro ⟨⟩
      exact ⟨[], .nil, rfl⟩
    · rintro ⟨settings, hreads, rfl⟩
      cases hreads
      rfl
  | case2 arg rest p hflag =>
    refine iff_of_false (by simp) ?_
    rintro ⟨settings, hreads, -⟩
    exact not_reads (.inl hflag) hreads
  | case3 arg rest p hflag =>
    refine iff_of_false (by simp) ?_
    rintro ⟨settings, hreads, -⟩
    exact not_reads (.inr hflag) hreads
  | case4 arg rest p hflag ih =>
    rw [ih]
    constructor
    · rintro ⟨settings, hreads, hexec⟩
      exact ⟨.bootstrap :: settings, (reads_bootstrap hflag).mpr ⟨settings, hreads, rfl⟩, hexec⟩
    · rintro ⟨settings, hreads, hexec⟩
      obtain ⟨settings', hrest, rfl⟩ := (reads_bootstrap hflag).mp hreads
      exact ⟨settings', hrest, hexec⟩
  | case5 arg p flag hhelp hbootstrap hflag =>
    rw [set_none_eq_ok hbootstrap]
    simp only [reads_bare hflag hbootstrap]
    constructor
    · rintro ⟨hbare, hp⟩
      exact ⟨[], ⟨hbare, rfl⟩, hp⟩
    · rintro ⟨settings, ⟨hbare, rfl⟩, hp⟩
      exact ⟨hbare, hp⟩
  | case6 arg p flag hhelp hbootstrap hflag value rest ih =>
    rw [bind_eq_ok]
    simp only [ih, set_some_eq_ok hhelp hbootstrap, reads_valued hflag hbootstrap]
    constructor
    · rintro ⟨_, ⟨setting, hvalue, rfl⟩, settings, hrest, hexec⟩
      exact ⟨_, ⟨setting, settings, hvalue, hrest, rfl⟩, hexec⟩
    · rintro ⟨_, ⟨setting, settings, hvalue, hrest, rfl⟩, hexec⟩
      exact ⟨_, ⟨setting, hvalue, rfl⟩, settings, hrest, hexec⟩

section Settings

variable (settings) (p)

theorem exec_id : (exec Setting.apply p settings).id =
    (settings.filterMap Setting.id?).getLast?.or p.id :=
  exec_last fun p setting => by cases setting <;> rfl

theorem exec_port : (exec Setting.apply p settings).port =
    (settings.filterMap Setting.port?).getLast?.or p.port :=
  exec_last fun p setting => by cases setting <;> rfl

theorem exec_dataDir : (exec Setting.apply p settings).dataDir =
    (settings.filterMap Setting.dataDir?).getLast?.or p.dataDir :=
  exec_last fun p setting => by cases setting <;> rfl

theorem exec_apiPort : (exec Setting.apply p settings).apiPort =
    (settings.filterMap Setting.apiPort?).getLast?.or p.apiPort :=
  exec_last fun p setting => by cases setting <;> rfl

theorem exec_host : some (exec Setting.apply p settings).host =
    (settings.filterMap Setting.host?).getLast?.or (some p.host) :=
  exec_last (f := fun p : Parsed => some p.host) fun p setting => by cases setting <;> rfl

theorem exec_rawPeers : (exec Setting.apply p settings).rawPeers =
    p.rawPeers ++ (settings.filterMap Setting.peers?).flatten := by
  induction settings generalizing p with
  | nil => simp
  | cons setting settings ih =>
    rw [exec_cons, ih]
    cases setting <;> simp [Setting.apply, Setting.peers?, List.filterMap_cons]

theorem exec_bootstrap : (exec Setting.apply p settings).bootstrap = true ↔
    p.bootstrap = true ∨ .bootstrap ∈ settings := by
  induction settings generalizing p with
  | nil => simp
  | cons setting settings ih =>
    rw [exec_cons, ih]
    cases setting <;> simp [Setting.apply]

end Settings

theorem exec_initial : exec Setting.apply .initial settings = {
    id := (settings.filterMap Setting.id?).getLast?
    port := (settings.filterMap Setting.port?).getLast?
    rawPeers := (settings.filterMap Setting.peers?).flatten
    bootstrap := decide (.bootstrap ∈ settings)
    dataDir := (settings.filterMap Setting.dataDir?).getLast?
    host := (settings.filterMap Setting.host?).getLast?.getD "0.0.0.0"
    apiPort := (settings.filterMap Setting.apiPort?).getLast? } := by
  refine Parsed.ext ?_ ?_ ?_ ?_ ?_ ?_ ?_
  · rw [exec_id, Parsed.initial, Option.or_none]
  · rw [exec_port, Parsed.initial, Option.or_none]
  · rw [exec_rawPeers, Parsed.initial, List.nil_append]
  · rw [Bool.eq_iff_iff, exec_bootstrap, decide_eq_true_iff]
    simp [Parsed.initial]
  · rw [exec_dataDir, Parsed.initial, Option.or_none]
  · have hhost := exec_host .initial settings
    rw [Option.or_some] at hhost
    exact Option.some.inj hhost
  · rw [exec_apiPort, Parsed.initial, Option.or_none]

theorem finish_eq_ok : finish inTempDir (exec Setting.apply .initial settings) = .ok args ↔
    Describes inTempDir settings args := by
  rw [exec_initial, finish]
  constructor
  · intro h
    split at h
    · cases h
    · next id hid =>
      cases h
      exact ⟨hid, rfl, rfl, decide_eq_true_iff, rfl, rfl, rfl⟩
  · intro h
    simp only [h.id]
    congr 1
    refine Args.ext rfl h.port.symm h.peers.symm ?_ h.dataDir.symm h.host.symm h.apiPort.symm
    rw [Bool.eq_iff_iff, decide_eq_true_iff, h.bootstrap]

theorem reads_of_parseArgs (h : parseArgs inTempDir words = .ok args) :
    ∃ settings, Reads words settings ∧ Describes inTempDir settings args := by
  obtain ⟨p, hwords, hfinish⟩ := bind_eq_ok.mp h
  obtain ⟨settings, hreads, rfl⟩ := parseWords_eq_ok.mp hwords
  exact ⟨settings, hreads, finish_eq_ok.mp hfinish⟩

theorem parseArgs_of_reads (hreads : Reads words settings)
    (hdescribes : Describes inTempDir settings args) : parseArgs inTempDir words = .ok args :=
  bind_eq_ok.mpr ⟨_, parseWords_eq_ok.mpr ⟨settings, hreads, rfl⟩, finish_eq_ok.mpr hdescribes⟩

theorem ofArg_word (flag : Flag) : Flag.ofArg flag.word = some flag := by
  cases flag <;> decide +kernel

theorem digits_repr (n : ℕ) : (if n.repr.toList.head? = some '+' then n.repr.toList.tail
    else n.repr.toList) = n.repr.toList :=
  if_neg fun hplus =>
    absurd (Decimals.isDigit_of_mem_repr (List.mem_of_mem_head? hplus)) (by decide)

theorem all_isDigit_repr (n : ℕ) : n.repr.toList.all Char.isDigit = true :=
  List.all_eq_true.mpr fun _ => Decimals.isDigit_of_mem_repr

theorem parseU64_toString (n : UInt64) : parseU64 (toString n) = some n := by
  have hlt := UInt64.toNat_lt n
  change parseU64 n.toNat.repr = some n
  rw [parseU64, digits_repr, Decimals.value_repr,
    if_pos ⟨Decimals.repr_ne_nil, all_isDigit_repr _, hlt⟩, UInt64.ofNat_toNat]

theorem parseU16_toString (n : UInt16) : parseU16 (toString n) = some n := by
  have hlt := UInt16.toNat_lt n
  change parseU16 n.toNat.repr = some n
  rw [parseU16, digits_repr, Decimals.value_repr,
    if_pos ⟨Decimals.repr_ne_nil, all_isDigit_repr _, hlt⟩, UInt16.ofNat_toNat]

section Listed

variable {peer : UInt64 × String} {peers : List (UInt64 × String)}

theorem isDigit_of_mem_toString {n : UInt64} {c : Char} (h : c ∈ (toString n).toList) :
    c.isDigit = true :=
  Decimals.isDigit_of_mem_repr h

theorem getLast?_peer (nodeId addr : List Char) :
    (nodeId ++ '@' :: addr).getLast? = some (addr.getLast?.getD '@') := by
  simp [List.getLast?_append, List.getLast?_cons]

theorem trim_peerWord (h : Listable peer.2) : trim (peerWord peer) = peerWord peer := by
  apply trim_eq_self
  · intro c hc
    have hne : (toString peer.1).toList ≠ [] := Decimals.repr_ne_nil
    rw [peerWord, List.head?_append_of_ne_nil _ hne] at hc
    exact isWhitespace_of_isDigit (isDigit_of_mem_toString (List.mem_of_mem_head? hc))
  · intro c hc
    rw [peerWord, getLast?_peer, Option.mem_some_iff] at hc
    cases hlast : peer.2.toList.getLast? with
    | none =>
      rw [← hc, hlast]
      decide
    | some d =>
      rw [← hc, hlast]
      exact h.last d hlast

theorem peerText_peerWord (h : Listable peer.2) : PeerText (peerWord peer) peer := by
  refine ⟨(toString peer.1).toList, rfl, ?_, h.at_sign, ?_⟩
  · exact Decimals.not_mem_of_digits (fun c => isDigit_of_mem_toString) (by decide)
  · rw [String.ofList_toList, parseU64_toString]

theorem comma_notMem_peerWord (h : Listable peer.2) : ',' ∉ peerWord peer := by
  have hdigits : ',' ∉ (toString peer.1).toList :=
    Decimals.not_mem_of_digits (fun c => isDigit_of_mem_toString) (by decide)
  simp [peerWord, hdigits, h.comma]

theorem peerTexts_join (h : ∀ peer ∈ peers, Listable peer.2) :
    peerTexts (String.ofList ([','].intercalate (peers.map peerWord))) = peers.map peerWord := by
  cases peers with
  | nil => rfl
  | cons peer peers =>
    have hcomma : ∀ text ∈ (peer :: peers).map peerWord, ',' ∉ text := by
      intro text htext
      obtain ⟨peer', hpeer, rfl⟩ := List.mem_map.mp htext
      exact comma_notMem_peerWord (h peer' hpeer)
    have htrim : ((peer :: peers).map peerWord).map trim = (peer :: peers).map peerWord := by
      rw [List.map_map]
      exact List.map_congr_left fun peer' hpeer => trim_peerWord (h peer' hpeer)
    rw [peerTexts, String.toList_ofList, List.splitOn_intercalate _ hcomma (by simp), htrim,
      List.filter_eq_self]
    intro text htext
    obtain ⟨peer', -, rfl⟩ := List.mem_map.mp htext
    simp [peerWord]

theorem means_peers (h : ∀ peer ∈ peers, Listable peer.2) :
    Flag.peers.Means (String.ofList ([','].intercalate (peers.map peerWord))) (.peers peers) := by
  refine .peers ?_
  rw [peerTexts_join h, List.forall₂_map_left_iff, List.forall₂_same]
  exact fun peer hpeer => peerText_peerWord (h peer hpeer)

theorem listable_of_peerText {text : List Char} (h : PeerText text peer) (hcomma : ',' ∉ text)
    (hlast : ∀ c ∈ text.getLast?, isWhitespace c = false) : Listable peer.2 := by
  obtain ⟨nodeId, rfl, -, hat, -⟩ := h
  refine ⟨fun hmem => hcomma (by simp [hmem]), hat, ?_⟩
  intro c hc
  refine hlast c ?_
  rw [getLast?_peer, Option.mem_def.mp hc]
  rfl

theorem listable_of_peerTexts (h : List.Forall₂ PeerText (peerTexts value) peers) :
    ∀ peer ∈ peers, Listable peer.2 := by
  have htexts : ∀ text ∈ peerTexts value,
      ',' ∉ text ∧ ∀ c ∈ text.getLast?, isWhitespace c = false := by
    intro text htext
    obtain ⟨htext, -⟩ := List.mem_filter.mp htext
    obtain ⟨part, hpart, rfl⟩ := List.mem_map.mp htext
    exact ⟨fun hmem => Separators.not_mem_of_mem_splitOn hpart (mem_of_mem_trim hmem),
      isWhitespace_last_trim⟩
  have hlistable : List.Forall₂ (fun peer text => Listable peer.2 ∧ True) peers (peerTexts value) :=
    (((List.forall₂_and_left _ _).mpr ⟨htexts, h⟩).imp fun text peer ⟨⟨hcomma, hlast⟩, hmeans⟩ =>
      ⟨listable_of_peerText hmeans hcomma hlast, trivial⟩).flip
  exact ((List.forall₂_and_left _ _).mp hlistable).1

end Listed

theorem reads_words (h : ∀ peers, .peers peers ∈ settings → ∀ peer ∈ peers, Listable peer.2) :
    Reads (settings.flatMap Setting.words) settings := by
  induction settings with
  | nil => exact .nil
  | cons setting settings ih =>
    have hrest := ih fun peers hmem => h peers (List.mem_cons_of_mem _ hmem)
    cases setting with
    | id n => exact .valued (ofArg_word .id) (.id (parseU64_toString n)) hrest
    | port n => exact .valued (ofArg_word .port) (.port (parseU16_toString n)) hrest
    | peers peers =>
      exact .valued (ofArg_word .peers) (means_peers (h peers List.mem_cons_self)) hrest
    | bootstrap => exact .bootstrap (ofArg_word .bootstrap) hrest
    | dataDir dir => exact .valued (ofArg_word .dataDir) (.dataDir dir) hrest
    | host name => exact .valued (ofArg_word .host) (.host name) hrest
    | apiPort n => exact .valued (ofArg_word .apiPort) (.apiPort (parseU16_toString n)) hrest

theorem listable_of_reads (h : Reads words settings) :
    ∀ peers, .peers peers ∈ settings → ∀ peer ∈ peers, Listable peer.2 := by
  induction h with
  | nil => simp
  | bootstrap harg hrest ih => simpa using ih
  | valued harg hvalue hrest ih =>
    intro peers hmem
    rcases List.mem_cons.mp hmem with heq | hmem
    · cases hvalue with
      | peers hpeers =>
        cases heq
        exact listable_of_peerTexts hpeers
      | _ => cases heq
    · exact ih peers hmem
  | bare harg => simp

theorem Setting.eq_peers_of_peers? {setting : Setting} {peers : List (UInt64 × String)}
    (h : setting.peers? = some peers) : setting = .peers peers := by
  cases setting <;> simp_all [Setting.peers?]

theorem filterMap_of_perm {β : Type} {f : Setting → Option β} {b : β}
    (h : settings.Perm args.settings) (hf : args.settings.filterMap f = [b]) :
    settings.filterMap f = [b] :=
  List.perm_singleton.mp (hf ▸ h.filterMap f)

theorem describes_of_perm (h : settings.Perm args.settings) :
    Describes inTempDir settings args := by
  obtain ⟨id, port, peers, bootstrap, dataDir, host, apiPort⟩ := args
  have hid : settings.filterMap Setting.id? = [id] :=
    filterMap_of_perm h (by cases bootstrap <;> rfl)
  have hport : settings.filterMap Setting.port? = [port] :=
    filterMap_of_perm h (by cases bootstrap <;> rfl)
  have hpeers : settings.filterMap Setting.peers? = [peers] :=
    filterMap_of_perm h (by cases bootstrap <;> rfl)
  have hdataDir : settings.filterMap Setting.dataDir? = [dataDir] :=
    filterMap_of_perm h (by cases bootstrap <;> rfl)
  have hhost : settings.filterMap Setting.host? = [host] :=
    filterMap_of_perm h (by cases bootstrap <;> rfl)
  have hapiPort : settings.filterMap Setting.apiPort? = [apiPort] :=
    filterMap_of_perm h (by cases bootstrap <;> rfl)
  refine ⟨by rw [hid]; rfl, by rw [hport]; rfl, by simp [hpeers], ?_, by rw [hdataDir]; rfl,
    by rw [hhost]; rfl, by rw [hapiPort]; rfl⟩
  rw [h.mem_iff]
  cases bootstrap <;> simp [Args.settings]

/-- Arguments that are written out in any order are read back exactly if the addresses of the peers
can stand in a list. -/
theorem parse_args_render (inTempDir : String → String) (args : Args) (settings : List Setting)
    (h : settings.Perm args.settings) :
    parseArgs inTempDir (settings.flatMap Setting.words) = .ok args ↔
      ∀ peer ∈ args.peers, Listable peer.2 := by
  constructor
  · intro hparse peer hpeer
    obtain ⟨settings', hreads, hdescribes⟩ := reads_of_parseArgs hparse
    rw [hdescribes.peers] at hpeer
    obtain ⟨peers, hpeers, hpeer⟩ := List.mem_flatten.mp hpeer
    obtain ⟨setting, hsetting, heq⟩ := List.mem_filterMap.mp hpeers
    obtain rfl := Setting.eq_peers_of_peers? heq
    exact listable_of_reads hreads peers hsetting peer hpeer
  · intro hlistable
    refine parseArgs_of_reads (reads_words ?_) (describes_of_perm h)
    intro peers hpeers
    obtain rfl : peers = args.peers := by
      have hmem := h.mem_iff.mp hpeers
      cases hbootstrap : args.bootstrap <;> simpa [Args.settings, hbootstrap] using hmem
    exact hlistable

/-- A node with a peer, with its options from the last to the first. -/
theorem parse_args_render_reversed :
    let args : Args := ⟨2, 7001, [(1, "localhost:7000")], true, "data", "::1", 0⟩
    parseArgs ("/tmp/" ++ ·) (args.settings.reverse.flatMap Setting.words) = .ok args :=
  (parse_args_render _ _ _ (List.reverse_perm _)).mpr (List.forall_mem_singleton.mpr
    ⟨by decide +kernel, by decide +kernel, fun c hc => by cases hc; decide +kernel⟩)

end DumbDistributedLog.NodeArgs
