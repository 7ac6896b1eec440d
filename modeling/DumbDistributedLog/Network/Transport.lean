import DumbDistributedLog.Library.Runs
import DumbDistributedLog.Library.Tables
import DumbDistributedLog.Network.Tcp
import Mathlib.Logic.Function.Basic

/-! # Transports that send to each other

A transport opens a connection to a peer and puts messages into its channel. A task writes them
to the stream as far as it gets, another transport accepts the connection while it has a permit
for it, and its handler puts what it reads into the channel that the application receives from.
All tasks take their turns in any order, and each of them can stop at any time. A later connection
to a peer takes the place of an earlier one, which is still drained.
-/

namespace DumbDistributedLog.Tcp

open Runs

inductive TransportError where
  | peerNotFound (nodeId : String)
  | sendFailed (nodeId : String)
  deriving DecidableEq, Repr

inductive Handler where
  | waiting
  | running
  | stopped
  deriving DecidableEq, Repr

/-- A connection that a transport has opened under the id of a peer, with the messages that its
channel has accepted and those that its handler has forwarded. -/
structure Connection where
  source : ℕ
  nodeId : String
  target : ℕ
  accepted : List NetworkMessage
  forwarded : List NetworkMessage
  channel : List NetworkMessage
  writing : Bool
  wire : List UInt8
  arrived : List UInt8
  handler : Handler
  deriving DecidableEq

inductive LinkStep where
  | write
  | writeFails (n : ℕ)
  | writerEnds
  | arrive (n : ℕ)
  | accept
  | turn
  | leave
  deriving DecidableEq

/-- The handler can go on: it has a whole frame or a length that is out of bounds. -/
def frameReady (arrived : List UInt8) : Bool :=
  4 ≤ arrived.length &&
    (maxMessageSize < fromBeBytes (arrived.take 4) || fromBeBytes (arrived.take 4) = 0 ||
      4 + fromBeBytes (arrived.take 4) ≤ arrived.length)

namespace Connection

variable (json : Codec NetworkMessage) (c : Connection)

def opened (source : ℕ) (nodeId : String) (target : ℕ) : Connection where
  source
  nodeId
  target
  accepted := []
  forwarded := []
  channel := []
  writing := true
  wire := []
  arrived := []
  handler := .waiting

def offer (msg : NetworkMessage) : Connection :=
  { c with accepted := c.accepted ++ [msg], channel := c.channel ++ [msg] }

/-- The writer takes a message from the channel, and of its frame so much gets out. -/
def writeFrame (sent : List UInt8 → List UInt8) (writing : Bool) : Connection :=
  match c.channel with
  | [] => c
  | msg :: channel =>
    if c.writing then { c with channel, writing, wire := c.wire ++ sent (frame (json.encode msg)) }
    else c

/-- A turn of the loop of `handle_connection`, with the message that it forwards. -/
def turn : Connection × Option NetworkMessage :=
  if c.handler = .running ∧ frameReady c.arrived then
    match receiveFrame json ⟨c.arrived, []⟩ with
    | .error (_, reader) => ({ c with arrived := reader.bytes, handler := .stopped }, none)
    | .ok (msg, reader) =>
      ({ c with arrived := reader.bytes, forwarded := c.forwarded ++ msg.toList }, msg)
  else (c, none)

def step : LinkStep → Connection × Option NetworkMessage
  | .write => (c.writeFrame json id true, none)
  | .writeFails n => (c.writeFrame json (List.take n) false, none)
  | .writerEnds => ({ c with writing := false }, none)
  | .arrive n => ({ c with wire := c.wire.drop n, arrived := c.arrived ++ c.wire.take n }, none)
  | .accept => (if c.handler = .waiting then { c with handler := .running } else c, none)
  | .turn => c.turn json
  | .leave => (if c.handler = .running then { c with handler := .stopped } else c, none)

/-- The accepted messages are those forwarded, those on their way and, while the connection is
written to, those in the channel. What is on its way is never more than its frames. -/
structure Sound : Prop where
  fits : ∀ msg ∈ c.accepted, Fits json msg
  inFlight : ∃ unread rest, c.accepted = c.forwarded ++ unread ++ rest ∧
    c.arrived ++ c.wire <+: writerTask json unread ∧
    (c.writing → c.arrived ++ c.wire = writerTask json unread ∧ rest = c.channel)
  bounded : c.channel.length ≤ 100

end Connection

structure TcpTransport where
  peers : Table String ℕ
  maxConnections : ℕ
  receiver : List (ℕ × NetworkMessage)
  received : List (ℕ × NetworkMessage)

/-- The transports, and the connections between them in the order in which they were opened. A
received message comes with the number of its connection. -/
structure Transports where
  nodes : ℕ → TcpTransport
  connections : List Connection

inductive TransportStep where
  | connect (source : ℕ) (nodeId : String) (target : ℕ)
  | send (source : ℕ) (nodeId : String) (msg : NetworkMessage)
  | link (i : ℕ) (a : LinkStep)
  | recv (node : ℕ)

/-- A message that is sent can be read by the other side. -/
def TransportStep.Fits (json : Codec NetworkMessage) : TransportStep → Prop
  | .send _ _ msg => Tcp.Fits json msg
  | _ => True

/-- The turns that a connection needs of its writer, the network, its handler and the application
it delivers to. -/
def TransportStep.Serves (i node : ℕ) : TransportStep → Prop
  | .link j a => j = i ∧ (a = .write ∨ a = .accept ∨ a = .turn ∨ ∃ n, a = .arrive n)
  | .recv node' => node' = node
  | _ => False

namespace Transports

variable (json : Codec NetworkMessage) (s : Transports)

def new (maxConnections : ℕ → ℕ) : Transports where
  nodes node := ⟨∅, maxConnections node, [], []⟩
  connections := []

def connectToPeer (source : ℕ) (nodeId : String) (target : ℕ) : Transports where
  nodes := Function.update s.nodes source
    { s.nodes source with
      peers := (s.nodes source).peers.insert nodeId s.connections.length }
  connections := s.connections ++ [.opened source nodeId target]

/-- The result of the call, or nothing while it waits for room in the channel. -/
def sendToPeer (source : ℕ) (nodeId : String) (msg : NetworkMessage) :
    Option (Except TransportError Unit) × Transports :=
  match (s.nodes source).peers[nodeId]? with
  | none => (some (.error (.peerNotFound nodeId)), s)
  | some i =>
    match s.connections[i]? with
    | none => (none, s)
    | some c =>
      if c.writing = false then (some (.error (.sendFailed nodeId)), s)
      else if c.channel.length < 100 then
        (some (.ok ()), { s with connections := s.connections.set i (c.offer msg) })
      else (none, s)

def recv (node : ℕ) : Transports :=
  { s with
    nodes := Function.update s.nodes node
      { s.nodes node with
        receiver := (s.nodes node).receiver.tail
        received := (s.nodes node).received ++ (s.nodes node).receiver.head?.toList } }

def running (node : ℕ) : ℕ :=
  s.connections.countP fun c => c.target = node ∧ c.handler = .running

/-- A writer ends when its channel is closed and drained; a connection is accepted with a permit,
and a message is forwarded when there is room for it. -/
def Ready (i : ℕ) (c : Connection) : LinkStep → Prop
  | .writerEnds => (s.nodes c.source).peers[c.nodeId]? ≠ some i ∧ c.channel = []
  | .accept => s.running c.target < (s.nodes c.target).maxConnections
  | .turn => (s.nodes c.target).receiver.length < 1000
  | _ => True

instance (i : ℕ) (c : Connection) : ∀ a, Decidable (s.Ready i c a)
  | .writerEnds => inferInstanceAs (Decidable (_ ∧ _))
  | .accept => inferInstanceAs (Decidable (_ < _))
  | .turn => inferInstanceAs (Decidable (_ < _))
  | .write | .writeFails _ | .arrive _ | .leave => .isTrue trivial

def put (i : ℕ) (node : ℕ) (next : Connection × Option NetworkMessage) : Transports where
  nodes := Function.update s.nodes node
    { s.nodes node with
      receiver := (s.nodes node).receiver ++ next.2.toList.map (i, ·) }
  connections := s.connections.set i next.1

def step : TransportStep → Transports
  | .connect source nodeId target => s.connectToPeer source nodeId target
  | .send source nodeId msg => (s.sendToPeer source nodeId msg).2
  | .link i a =>
    match s.connections[i]? with
    | none => s
    | some c => if s.Ready i c a then s.put i c.target (c.step json a) else s
  | .recv node => s.recv node

def inbox (node : ℕ) : List (ℕ × NetworkMessage) :=
  (s.nodes node).received ++ (s.nodes node).receiver

def deliveredFrom (node i : ℕ) : List NetworkMessage :=
  ((s.inbox node).filter (·.1 = i)).map (·.2)

end Transports

variable {json : Codec NetworkMessage} {arrived wire : List UInt8} {unread : List NetworkMessage}
  {msg : NetworkMessage}

theorem writerTask_append (msgs msgs' : List NetworkMessage) :
    writerTask json (msgs ++ msgs') = writerTask json msgs ++ writerTask json msgs' := by
  induction msgs with
  | nil => rfl
  | cons msg msgs ih => simp only [List.cons_append, writerTask, ih, List.append_assoc]

theorem Fits.length_lt (h : Fits json msg) : (json.encode msg).length < 2 ^ 32 :=
  Nat.lt_of_le_of_lt h.2 (by decide)

theorem frameReady_iff (h : Fits json msg)
    (hpre : arrived <+: frame (json.encode msg) ++ wire) :
    frameReady arrived ↔ frame (json.encode msg) <+: arrived := by
  constructor
  · intro hready
    simp only [frameReady, Bool.and_eq_true, Bool.or_eq_true, decide_eq_true_eq] at hready
    obtain ⟨hfour, hready⟩ := hready
    rw [fromBeBytes_take h.length_lt hfour hpre] at hready
    refine List.prefix_of_prefix_length_le (List.prefix_append _ _) hpre ?_
    rw [length_frame]
    obtain ⟨hpos, hmax⟩ := h
    omega
  · intro hframe
    have hlen := hframe.length_le
    rw [length_frame] at hlen
    have hfour : 4 ≤ arrived.length := by omega
    simp only [frameReady, Bool.and_eq_true, Bool.or_eq_true, decide_eq_true_eq]
    rw [fromBeBytes_take h.length_lt hfour hpre]
    exact ⟨hfour, .inr hlen⟩

theorem exists_of_frameReady (hfits : ∀ msg ∈ unread, Fits json msg)
    (hpre : arrived <+: writerTask json unread) (hready : frameReady arrived) :
    ∃ msg later arrived', unread = msg :: later ∧
      arrived = frame (json.encode msg) ++ arrived' := by
  cases unread with
  | nil =>
    have hnil : arrived = [] := List.prefix_nil.mp hpre
    rw [hnil] at hready
    cases hready
  | cons msg later =>
    obtain ⟨arrived', h⟩ := (frameReady_iff (hfits msg List.mem_cons_self) hpre).mp hready
    exact ⟨msg, later, arrived', rfl, h.symm⟩

namespace Connection

variable {c : Connection}

theorem sound_opened (source : ℕ) (nodeId : String) (target : ℕ) :
    (opened source nodeId target).Sound json where
  fits := fun _ hmsg => absurd hmsg List.not_mem_nil
  inFlight := ⟨[], [], rfl, List.prefix_refl _, fun _ => ⟨rfl, rfl⟩⟩
  bounded := Nat.zero_le _

theorem sound_offer (hc : c.Sound json) (hmsg : Fits json msg) (hroom : c.channel.length < 100) :
    (c.offer msg).Sound json := by
  obtain ⟨unread, rest, haccepted, hpre, hwriting⟩ := hc.inFlight
  refine ⟨?_, ⟨unread, rest ++ [msg], ?_, hpre, fun hw => ⟨(hwriting hw).1, ?_⟩⟩, ?_⟩
  · intro msg' hmsg'
    rcases List.mem_append.mp hmsg' with hold | hnew
    · exact hc.fits msg' hold
    · rwa [List.mem_singleton.mp hnew]
  · simp only [offer, haccepted, List.append_assoc]
  · simp only [offer, (hwriting hw).2]
  · simp only [offer, List.length_append, List.length_singleton]
    omega

/-- The frame that is written belongs to the first message of the channel, so the messages on
their way stay in the order in which they were accepted. -/
theorem sound_writeFrame (hc : c.Sound json) {sent : List UInt8 → List UInt8} {writing : Bool}
    (hsent : ∀ bytes, sent bytes <+: bytes) (hall : writing → ∀ bytes, sent bytes = bytes) :
    (c.writeFrame json sent writing).Sound json := by
  unfold writeFrame
  split
  · exact hc
  next msg channel hchannel =>
    split_ifs with hw
    · obtain ⟨unread, rest, haccepted, -, hwriting⟩ := hc.inFlight
      obtain ⟨hbytes, rfl⟩ := hwriting hw
      rw [hchannel] at haccepted
      refine ⟨hc.fits, ⟨unread ++ [msg], channel, ?_, ?_, fun hw' => ⟨?_, rfl⟩⟩, ?_⟩
      · rw [haccepted]
        simp
      · simp only [writerTask_append, writerTask, List.append_nil, ← List.append_assoc, hbytes]
        exact (List.prefix_append_right_inj _).mpr (hsent _)
      · simp only [writerTask_append, writerTask, List.append_nil, ← List.append_assoc, hbytes,
          hall hw']
      · have hbounded := hc.bounded
        rw [hchannel, List.length_cons] at hbounded
        exact Nat.le_of_succ_le hbounded
    · exact hc

theorem turn_eq (hfits : ∀ msg ∈ unread, Fits json msg)
    (hpre : c.arrived ++ c.wire <+: writerTask json unread) (hrunning : c.handler = .running)
    (hready : frameReady c.arrived) :
    ∃ msg later arrived, unread = msg :: later ∧
      c.arrived = frame (json.encode msg) ++ arrived ∧
      c.turn json = ({ c with arrived, forwarded := c.forwarded ++ [msg] }, some msg) := by
  obtain ⟨msg, later, arrived, rfl, harrived⟩ :=
    exists_of_frameReady hfits ((List.prefix_append _ _).trans hpre) hready
  obtain ⟨hpos, hmax⟩ := hfits msg List.mem_cons_self
  have hbytes : (⟨c.arrived, []⟩ : Reader).bytes = frame (json.encode msg) ++ arrived := by
    simpa [Reader.bytes] using harrived
  obtain ⟨reader, hreader, hframe⟩ := receiveFrame_frame json hpos hmax hbytes
  refine ⟨msg, later, arrived, rfl, harrived, ?_⟩
  rw [json.decode_encode] at hframe
  rw [turn, if_pos ⟨hrunning, hready⟩, hframe]
  simp [hreader, Except.toOption]

theorem sound_turn (hc : c.Sound json) : (c.turn json).1.Sound json := by
  by_cases h : c.handler = .running ∧ frameReady c.arrived
  · obtain ⟨unread, rest, haccepted, hpre, hwriting⟩ := hc.inFlight
    have hfits : ∀ msg ∈ unread, Fits json msg := fun msg hmsg =>
      hc.fits msg (by simp [haccepted, hmsg])
    obtain ⟨msg, later, arrived, rfl, harrived, hturn⟩ := turn_eq hfits hpre h.1 h.2
    rw [harrived, writerTask, List.append_assoc] at hpre hwriting
    rw [hturn]
    refine ⟨hc.fits, ⟨later, rest, ?_, ?_, fun hw => ⟨?_, (hwriting hw).2⟩⟩, hc.bounded⟩
    · simpa using haccepted
    · exact (List.prefix_append_right_inj _).mp hpre
    · exact List.append_cancel_left (hwriting hw).1
  · rwa [turn, if_neg h]

theorem sound_step (hc : c.Sound json) (a : LinkStep) : (c.step json a).1.Sound json := by
  cases a with
  | write => exact sound_writeFrame hc (fun _ => List.prefix_refl _) fun _ _ => rfl
  | writeFails n => exact sound_writeFrame hc (fun _ => List.take_prefix n _) nofun
  | writerEnds =>
    obtain ⟨unread, rest, haccepted, hpre, -⟩ := hc.inFlight
    exact ⟨hc.fits, ⟨unread, rest, haccepted, hpre, nofun⟩, hc.bounded⟩
  | arrive n =>
    have hbytes : (c.step json (.arrive n)).1.arrived ++ (c.step json (.arrive n)).1.wire =
        c.arrived ++ c.wire := by
      simp [step, List.append_assoc]
    refine ⟨hc.fits, ?_, hc.bounded⟩
    rw [hbytes]
    exact hc.inFlight
  | accept =>
    simp only [step]
    split_ifs
    · exact ⟨hc.fits, hc.inFlight, hc.bounded⟩
    · exact hc
  | turn => exact sound_turn hc
  | leave =>
    simp only [step]
    split_ifs
    · exact ⟨hc.fits, hc.inFlight, hc.bounded⟩
    · exact hc

theorem step_frame (json : Codec NetworkMessage) (c : Connection) (a : LinkStep) :
    (c.step json a).1.target = c.target ∧
    (c.step json a).1.forwarded = c.forwarded ++ (c.step json a).2.toList ∧
    ((c.step json a).1.handler = .running → a = .accept ∨ c.handler = .running) := by
  cases a with
  | write | writeFails _ =>
    simp only [step, writeFrame]
    split
    · simp
    · split_ifs <;> simp
  | turn =>
    simp only [step, turn]
    split_ifs with hready
    · split <;> simp [hready.1]
    · simp
  | accept | leave =>
    simp only [step]
    split_ifs <;> simp_all
  | writerEnds | arrive _ => simp [step]

theorem message_of_step {a : LinkStep} (h : (c.step json a).2 ≠ none) : a = .turn := by
  cases a with
  | turn => rfl
  | _ => exact absurd rfl h

end Connection

namespace Transports

variable {s : Transports} {i j node : ℕ} {c : Connection}

/-- Every connection is sound, what has been forwarded is what its handlers took from it, and no
channel or semaphore holds more than it may. -/
structure Sound (json : Codec NetworkMessage) (s : Transports) : Prop where
  link : ∀ c ∈ s.connections, c.Sound json
  delivered : ∀ i c, s.connections[i]? = some c → s.deliveredFrom c.target i = c.forwarded
  known : ∀ node, ∀ p ∈ s.inbox node, p.1 < s.connections.length
  room : ∀ node, (s.nodes node).receiver.length ≤ 1000
  permits : ∀ node, s.running node ≤ (s.nodes node).maxConnections

theorem inbox_recv (node' : ℕ) : (s.recv node').inbox node = s.inbox node := by
  simp only [inbox, recv, Function.update_apply]
  split_ifs with h
  · subst h
    cases (s.nodes node).receiver <;> simp
  · rfl

theorem inbox_connectToPeer (source : ℕ) (nodeId : String) (target : ℕ) :
    (s.connectToPeer source nodeId target).inbox node = s.inbox node := by
  simp only [inbox, connectToPeer, Function.update_apply]
  split_ifs with h
  · rw [h]
  · rfl

theorem inbox_put (node' : ℕ) (next : Connection × Option NetworkMessage) :
    (s.put i node' next).inbox node =
      s.inbox node ++ if node = node' then next.2.toList.map (i, ·) else [] := by
  simp only [inbox, put, Function.update_apply]
  split_ifs with h
  · rw [h, List.append_assoc]
  · simp

theorem deliveredFrom_put (node' : ℕ) (next : Connection × Option NetworkMessage) :
    (s.put i node' next).deliveredFrom node j =
      s.deliveredFrom node j ++ if node = node' ∧ i = j then next.2.toList else [] := by
  rw [deliveredFrom, inbox_put, List.filter_append, List.map_append, deliveredFrom]
  congr 1
  split_ifs with hnode h h
  · simp [h.2, List.filter_map, Function.comp_def]
  · have : i ≠ j := fun hij => h ⟨hnode, hij⟩
    simp [List.filter_map, Function.comp_def, this]
  · exact absurd h.1 hnode
  · rfl

theorem countP_set_le {p : Connection → Bool} {l : List Connection} {c' : Connection}
    (hi : l[i]? = some c) :
    (l.set i c').countP p ≤ l.countP p + 1 ∧
      ((p c' → p c) → (l.set i c').countP p ≤ l.countP p) := by
  obtain ⟨hlt, rfl⟩ := List.getElem?_eq_some_iff.mp hi
  rw [List.countP_set hlt]
  refine ⟨by split_ifs <;> omega, fun hp => ?_⟩
  by_cases hc : p l[i] = true
  · have hpos : 0 < l.countP p := List.countP_pos_iff.mpr ⟨l[i], List.getElem_mem hlt, hc⟩
    split_ifs <;> omega
  · rw [if_neg fun hc' => hc (hp hc')]
    omega

theorem sound_connectToPeer (hs : s.Sound json) (source : ℕ) (nodeId : String) (target : ℕ) :
    (s.connectToPeer source nodeId target).Sound json where
  link := by
    intro c hc
    rcases List.mem_append.mp hc with hold | hnew
    · exact hs.link c hold
    · rw [List.mem_singleton.mp hnew]
      exact Connection.sound_opened source nodeId target
  delivered := by
    intro i c hc
    rw [deliveredFrom, inbox_connectToPeer]
    rw [connectToPeer, List.getElem?_append] at hc
    split_ifs at hc with hi
    · exact hs.delivered i c hc
    · -- Nothing has come from a connection that did not exist.
      have hnone : (s.inbox c.target).filter (·.1 = i) = [] := by
        refine List.filter_eq_nil_iff.mpr fun p hp => ?_
        have := hs.known c.target p hp
        simp only [decide_eq_true_eq]
        omega
      rw [hnone, List.mem_singleton.mp (List.mem_of_getElem? hc)]
      rfl
  known := by
    intro node p hp
    rw [inbox_connectToPeer] at hp
    have := hs.known node p hp
    simp only [connectToPeer, List.length_append, List.length_singleton]
    omega
  room := by
    intro node
    simp only [connectToPeer, Function.update_apply]
    split_ifs with h
    · exact hs.room source
    · exact hs.room node
  permits := by
    intro node
    have hrunning : (s.connectToPeer source nodeId target).running node = s.running node := by
      simp [running, connectToPeer, Connection.opened]
    rw [hrunning]
    simp only [connectToPeer, Function.update_apply]
    split_ifs with h
    · exact h ▸ hs.permits node
    · exact hs.permits node

theorem sound_recv (hs : s.Sound json) (node : ℕ) : (s.recv node).Sound json where
  link := hs.link
  delivered := by
    intro i c hc
    rw [deliveredFrom, inbox_recv]
    exact hs.delivered i c hc
  known := by
    intro node' p hp
    rw [inbox_recv] at hp
    exact hs.known node' p hp
  room := by
    intro node'
    simp only [recv, Function.update_apply]
    split_ifs with h
    · have := hs.room node
      simp only [List.length_tail]
      omega
    · exact hs.room node'
  permits := by
    intro node'
    simp only [recv, Function.update_apply]
    split_ifs with h
    · exact h ▸ hs.permits node'
    · exact hs.permits node'

theorem sound_sendToPeer (hs : s.Sound json) (source : ℕ) (nodeId : String)
    (hmsg : Fits json msg) : (s.sendToPeer source nodeId msg).2.Sound json := by
  unfold sendToPeer
  split
  · exact hs
  next i _ =>
  split
  · exact hs
  next c hc =>
  split_ifs with hwriting hroom
  · exact hs
  · have hmem := List.mem_of_getElem? hc
    refine ⟨?_, ?_, ?_, hs.room, ?_⟩
    · intro d hd
      rcases List.mem_or_eq_of_mem_set hd with hold | rfl
      · exact hs.link d hold
      · exact Connection.sound_offer (hs.link c hmem) hmsg hroom
    · intro j d hd
      rw [List.getElem?_set] at hd
      split_ifs at hd with hij
      · obtain ⟨rfl, rfl⟩ : i = j ∧ c.offer msg = d := ⟨hij, Option.some.inj hd⟩
        exact hs.delivered i c hc
      · exact hs.delivered j d hd
    · intro node p hp
      simpa using hs.known node p hp
    · intro node
      have hcount : (s.connections.set i (c.offer msg)).countP _ ≤ s.running node :=
        (countP_set_le hc).2 id
      exact hcount.trans (hs.permits node)
  · exact hs

theorem sound_link (hs : s.Sound json) (hc : s.connections[i]? = some c) {a : LinkStep}
    (hready : s.Ready i c a) : (s.put i c.target (c.step json a)).Sound json := by
  obtain ⟨htarget, hforwarded, hrunning⟩ := Connection.step_frame json c a
  have hlt := (List.getElem?_eq_some_iff.mp hc).1
  refine ⟨?_, ?_, ?_, ?_, ?_⟩
  · intro d hd
    rcases List.mem_or_eq_of_mem_set hd with hold | rfl
    · exact hs.link d hold
    · exact Connection.sound_step (hs.link c (List.mem_of_getElem? hc)) a
  · intro j d hd
    rw [put, List.getElem?_set] at hd
    rw [deliveredFrom_put]
    split_ifs at hd with hij
    · obtain ⟨rfl, rfl⟩ : i = j ∧ (c.step json a).1 = d := ⟨hij, Option.some.inj hd⟩
      rw [if_pos ⟨htarget, rfl⟩, htarget, hforwarded, hs.delivered i c hc]
    · rw [if_neg fun h => hij h.2, List.append_nil]
      exact hs.delivered j d hd
  · intro node p hp
    rw [inbox_put] at hp
    rw [put, List.length_set]
    rcases List.mem_append.mp hp with hold | hnew
    · exact hs.known node p hold
    · split_ifs at hnew
      · obtain ⟨msg, -, rfl⟩ := List.mem_map.mp hnew
        exact hlt
      · cases hnew
  · intro node
    simp only [put, Function.update_apply]
    split_ifs with hnode
    · cases hmsg : (c.step json a).2 with
      | none => simpa using hs.room c.target
      | some msg =>
        obtain rfl := Connection.message_of_step (a := a) (by rw [hmsg]; nofun)
        have hroom : (s.nodes c.target).receiver.length < 1000 := hready
        simp only [Option.toList_some, List.map_singleton, List.length_append,
          List.length_singleton]
        omega
    · exact hs.room node
  · intro node
    have hmax : ((s.put i c.target (c.step json a)).nodes node).maxConnections =
        (s.nodes node).maxConnections := by
      simp only [put, Function.update_apply]
      split_ifs with hnode
      · rw [hnode]
      · rfl
    rw [hmax]
    have hcount : (s.put i c.target (c.step json a)).running node ≤ s.running node + 1 ∧ _ :=
      countP_set_le hc
    by_cases haccept : a = .accept ∧ c.target = node
    · obtain ⟨rfl, rfl⟩ := haccept
      exact hcount.1.trans hready
    · refine (hcount.2 fun h => ?_).trans (hs.permits node)
      simp only [decide_eq_true_eq] at h ⊢
      rw [htarget] at h
      refine ⟨h.1, (hrunning h.2).resolve_left fun ha => haccept ⟨ha, h.1⟩⟩

theorem sound_step (hs : s.Sound json) {a : TransportStep} (ha : a.Fits json) :
    (s.step json a).Sound json := by
  cases a with
  | connect source nodeId target => exact sound_connectToPeer hs source nodeId target
  | send source nodeId msg => exact sound_sendToPeer hs source nodeId ha
  | link i a =>
    simp only [step]
    split
    · exact hs
    next c hc =>
      split_ifs with hready
      · exact sound_link hs hc hready
      · exact hs
  | recv node => exact sound_recv hs node

/-- With turns of its own tasks the connection delivers all that it has accepted. -/
def Delivers (json : Codec NetworkMessage) (s : Transports) (i : ℕ) (c : Connection) : Prop :=
  ∃ turns : List TransportStep, (∀ a ∈ turns, a.Serves i c.target) ∧
    (exec (step json) s turns).deliveredFrom c.target i = c.accepted

theorem Delivers.of_step {a : TransportStep} (ha : a.Serves i c.target) {c' : Connection}
    (h : (s.step json a).Delivers json i c') (htarget : c'.target = c.target)
    (haccepted : c'.accepted = c.accepted) : s.Delivers json i c := by
  obtain ⟨turns, hturns, hdelivered⟩ := h
  rw [htarget] at hturns hdelivered
  refine ⟨a :: turns, ?_, hdelivered.trans haccepted⟩
  exact List.forall_mem_cons.mpr ⟨ha, hturns⟩

end Transports

end DumbDistributedLog.Tcp
