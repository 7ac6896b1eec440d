import DumbDistributedLog.Library.Runs
import DumbDistributedLog.Library.Separators
import DumbDistributedLog.Library.Tables

/-! # The subscriptions of the broker

The sockets are held under the pattern and the address joined by `@`, and the statistics come
from lists of addresses under the pattern alone. An id that is used twice or whose pattern has a
separator of its own sets the two apart.
-/

namespace DumbDistributedLog.Zmq

open Runs Separators

structure Socket where
  pattern : String
  addr : String
  deriving DecidableEq, Repr

def subscriberId (pattern addr : String) : String := pattern ++ "@" ++ addr

def splitOnce (s : String) (separator : Char) : Option (String × String) :=
  (splitFirst separator s.toList).map fun parts => (String.ofList parts.1, String.ofList parts.2)

structure Broker where
  subscribers : Table String Socket
  subscriptions : Table String (List String)

inductive BrokerCall where
  | subscribe (pattern addr : String)
  | unsubscribe (id : String)
  deriving DecidableEq, Repr

namespace Broker

def new : Broker := ⟨∅, ∅⟩

variable (s : Broker)

def subscribe (pattern addr : String) : Broker × String where
  fst :=
    { subscribers := s.subscribers.insert (subscriberId pattern addr) ⟨pattern, addr⟩
      subscriptions := s.subscriptions.alter pattern fun addrs => some (addrs.getD [] ++ [addr]) }
  snd := subscriberId pattern addr

def unsubscribe (id : String) : Broker where
  subscribers := s.subscribers.erase id
  subscriptions :=
    match splitOnce id '@' with
    | some (pattern, addr) => s.subscriptions.modify pattern (·.filter (· != addr))
    | none => s.subscriptions

def subscriptionStats : Table String ℕ := s.subscriptions.map fun _ addrs => addrs.length

def step : BrokerCall → Broker
  | .subscribe pattern addr => (s.subscribe pattern addr).1
  | .unsubscribe id => s.unsubscribe id

def liveSockets (pattern : String) : ℕ :=
  (s.subscribers.filter fun _ socket => socket.pattern == pattern).size

/-- The statistics of every pattern are the number of its sockets. -/
def StatsMatch : Prop :=
  ∀ pattern : String, s.subscriptionStats[pattern]?.getD 0 = s.liveSockets pattern

/-- A new subscription has an id of its own, and the pattern of a socket that is given up is
without the separator. -/
def Separate : BrokerCall → Prop
  | .subscribe pattern addr => subscriberId pattern addr ∉ s.subscribers
  | .unsubscribe id => ∀ socket, s.subscribers[id]? = some socket → '@' ∉ socket.pattern.toList

def addrs (pattern : String) : List String := s.subscriptions[pattern]?.getD []

/-- A socket is held under its id, and every address is listed once for its socket. -/
structure Listed : Prop where
  keyed : ∀ (id : String) (socket : Socket), s.subscribers[id]? = some socket →
    id = subscriberId socket.pattern socket.addr
  count : ∀ pattern addr : String, (s.addrs pattern).count addr =
    if s.subscribers[subscriberId pattern addr]? = some ⟨pattern, addr⟩ then 1 else 0

variable {s} {pattern addr p a id : String}

theorem toList_subscriberId : (subscriberId p a).toList = p.toList ++ '@' :: a.toList := by
  simp [subscriberId]

theorem subscriberId_inj : subscriberId p a = subscriberId p addr ↔ a = addr := by
  rw [← String.toList_inj, toList_subscriberId, toList_subscriberId, List.append_cancel_left_eq,
    List.cons.injEq, String.toList_inj]
  exact and_iff_right rfl

theorem splitOnce_eq_some {c : Char} {front back : String} :
    splitOnce id c = some (front, back) ↔
      id.toList = front.toList ++ c :: back.toList ∧ c ∉ front.toList := by
  rw [← splitFirst_eq_some, splitOnce, Option.map_eq_some_iff]
  constructor
  · rintro ⟨⟨front, back⟩, hsplit, heq⟩
    cases heq
    simpa using hsplit
  · intro hsplit
    exact ⟨_, hsplit, by simp⟩

theorem splitOnce_iff : splitOnce id '@' = some (p, a) ↔
    id = subscriberId p a ∧ '@' ∉ p.toList := by
  rw [splitOnce_eq_some, ← toList_subscriberId, String.toList_inj]

theorem splitOnce_ne_none : splitOnce (subscriberId p a) '@' ≠ none := by
  intro hnone
  have hmem := splitFirst_eq_none.mp (Option.map_eq_none_iff.mp hnone)
  rw [toList_subscriberId] at hmem
  exact hmem (List.mem_append_right _ List.mem_cons_self)

theorem length_filter_bne (addr : String) (l : List String) :
    (l.filter (· != addr)).length + l.count addr = l.length := by
  rw [List.length_eq_countP_add_countP (· == addr) (l := l), List.count, Nat.add_comm,
    List.countP_eq_length_filter (p := fun a => ¬ (a == addr))]
  congr 2
  refine List.filter_congr fun a _ => ?_
  cases hbeq : a == addr <;> simp [bne, hbeq]

theorem stats_eq : s.subscriptionStats[p]?.getD 0 = (s.addrs p).length := by
  simp only [subscriptionStats, addrs, Std.ExtTreeMap.getElem?_map]
  cases s.subscriptions[p]? <;> rfl

theorem addrs_subscribe : (s.subscribe pattern addr).1.addrs p =
    if pattern = p then s.addrs p ++ [addr] else s.addrs p := by
  simp only [addrs, subscribe, Table.get_alter]
  split_ifs with hp
  · rw [hp]
    rfl
  · rfl

theorem addrs_unsubscribe (h : splitOnce id '@' = some (pattern, addr)) :
    (s.unsubscribe id).addrs p =
      if pattern = p then (s.addrs p).filter (· != addr) else s.addrs p := by
  simp only [addrs, unsubscribe, h, Table.get_modify]
  split_ifs with hp
  · rw [hp]
    cases s.subscriptions[p]? <;> rfl
  · rfl

theorem get_subscribe : (s.subscribe pattern addr).1.subscribers[id]? =
    if subscriberId pattern addr = id then some ⟨pattern, addr⟩ else s.subscribers[id]? :=
  Table.get_insert _ _ _ _

theorem get_unsubscribe {other : String} : (s.unsubscribe id).subscribers[other]? =
    if id = other then none else s.subscribers[other]? :=
  Table.get_erase _ _ _

def holds (s : Broker) (id pattern : String) : Bool :=
  s.subscribers[id]?.any fun socket => socket.pattern == pattern

theorem liveSockets_subscribe : (s.subscribe pattern addr).1.liveSockets p +
    (s.holds (subscriberId pattern addr) p).toNat = s.liveSockets p + (pattern == p).toNat :=
  Table.size_filter_insert _ _ _ _

theorem liveSockets_unsubscribe :
    (s.unsubscribe id).liveSockets p + (s.holds id p).toNat = s.liveSockets p :=
  Table.size_filter_erase _ _ _

theorem holds_of_get {socket : Socket} (h : s.subscribers[id]? = some socket) :
    s.holds id p = (socket.pattern == p) := by
  rw [holds, h, Option.any_some]

theorem holds_of_get_none (h : s.subscribers[id]? = none) : s.holds id p = false := by
  rw [holds, h, Option.any_none]

theorem statsMatch_subscribe (h : s.StatsMatch) :
    (s.subscribe pattern addr).1.StatsMatch ↔ subscriberId pattern addr ∉ s.subscribers := by
  have hlength : ∀ p, ((s.subscribe pattern addr).1.addrs p).length =
      (s.addrs p).length + (pattern == p).toNat := by
    intro p
    rw [addrs_subscribe]
    by_cases hp : pattern = p <;> simp [hp]
  have hexact : (s.subscribe pattern addr).1.StatsMatch ↔
      ∀ p, s.holds (subscriberId pattern addr) p = false := by
    refine forall_congr' fun p => ?_
    have hlive : (s.subscribe pattern addr).1.liveSockets p + _ = _ := liveSockets_subscribe
    have hbefore := h p
    rw [stats_eq] at hbefore ⊢
    rw [hlength, ← Bool.toNat_eq_zero]
    omega
  rw [hexact]
  cases hget : s.subscribers[subscriberId pattern addr]? with
  | none =>
    refine iff_of_true (fun p => holds_of_get_none hget) ?_
    simp [Std.ExtTreeMap.mem_iff_isSome_getElem?, hget]
  | some socket =>
    refine iff_of_false (fun hnone => ?_) ?_
    · have hholds := hnone socket.pattern
      rw [holds_of_get hget, beq_self_eq_true] at hholds
      cases hholds
    · simp [Std.ExtTreeMap.mem_iff_isSome_getElem?, hget]

theorem Listed.get_of_split_none (h : s.Listed) (hsplit : splitOnce id '@' = none) :
    s.subscribers[id]? = none := by
  cases hget : s.subscribers[id]? with
  | none => rfl
  | some socket =>
    rw [h.keyed id socket hget] at hsplit
    exact absurd hsplit splitOnce_ne_none

theorem Listed.split_of_separate {socket : Socket} (h : s.Listed)
    (hseparate : s.Separate (.unsubscribe id)) (hget : s.subscribers[id]? = some socket) :
    splitOnce id '@' = some (socket.pattern, socket.addr) :=
  splitOnce_iff.mpr ⟨h.keyed id socket hget, hseparate socket hget⟩

theorem Listed.count_of_split (h : s.Listed) (hsplit : splitOnce id '@' = some (pattern, addr)) :
    (s.addrs pattern).count addr = (s.holds id pattern).toNat := by
  obtain ⟨rfl, -⟩ := splitOnce_iff.mp hsplit
  rw [h.count]
  cases hget : s.subscribers[subscriberId pattern addr]? with
  | none => simp [holds_of_get_none hget]
  | some socket =>
    rw [holds_of_get hget]
    by_cases hp : socket.pattern = pattern
    · have haddr : addr = socket.addr :=
        subscriberId_inj.mp ((h.keyed _ socket hget).trans (by rw [hp]))
      have hsocket : socket = ⟨pattern, addr⟩ := by rw [← hp, haddr]
      simp [hsocket]
    · have hsocket : socket ≠ ⟨pattern, addr⟩ := fun heq => hp (congrArg Socket.pattern heq)
      simp [beq_false_of_ne hp, hsocket]

/-- The statistics of a pattern are exact when an id is given up, exactly if its socket was created
for another pattern or for the one that the id is split into. -/
theorem Listed.stats_unsubscribe (h : s.Listed) (hmatch : s.StatsMatch)
    (hsplit : splitOnce id '@' = some (pattern, addr)) :
    (s.unsubscribe id).subscriptionStats[p]?.getD 0 = (s.unsubscribe id).liveSockets p ↔
      (s.holds id p = true → p = pattern) := by
  have hlive : (s.unsubscribe id).liveSockets p + _ = _ := liveSockets_unsubscribe
  have hbefore := hmatch p
  rw [stats_eq] at hbefore ⊢
  rw [addrs_unsubscribe hsplit]
  by_cases hp : pattern = p
  · subst hp
    have hcount := h.count_of_split hsplit
    have hlength := length_filter_bne addr (s.addrs pattern)
    rw [if_pos rfl]
    refine iff_of_true ?_ fun _ => rfl
    omega
  · rw [if_neg hp]
    cases hholds : s.holds id p with
    | false =>
      rw [hholds] at hlive
      simpa [hbefore] using hlive.symm
    | true =>
      rw [hholds] at hlive
      refine iff_of_false (fun heq => ?_) fun hsame => hp (hsame rfl).symm
      rw [Bool.toNat_true] at hlive
      omega

theorem Listed.statsMatch_unsubscribe (h : s.Listed) (hmatch : s.StatsMatch) :
    (s.unsubscribe id).StatsMatch ↔
      ∀ socket, s.subscribers[id]? = some socket → '@' ∉ socket.pattern.toList := by
  cases hsplit : splitOnce id '@' with
  | none =>
    have hget := h.get_of_split_none hsplit
    refine iff_of_true (fun p => ?_) (fun socket hsocket => by simp [hget] at hsocket)
    have hlive : (s.unsubscribe id).liveSockets p + _ = _ := liveSockets_unsubscribe
    rw [holds_of_get_none hget] at hlive
    have hsame : (s.unsubscribe id).subscriptionStats = s.subscriptionStats := by
      simp only [subscriptionStats, unsubscribe, hsplit]
    rw [hsame, hmatch p]
    exact hlive.symm
  | some parts =>
    obtain ⟨pattern, addr⟩ := parts
    obtain ⟨hid, hpattern⟩ := splitOnce_iff.mp hsplit
    have hexact : (s.unsubscribe id).StatsMatch ↔ ∀ p, s.holds id p = true → p = pattern :=
      forall_congr' fun p => h.stats_unsubscribe hmatch hsplit
    rw [hexact]
    constructor
    · intro hholds socket hget
      rw [hholds socket.pattern (by rw [holds_of_get hget, beq_self_eq_true])]
      exact hpattern
    · intro hseparate p hholds
      obtain ⟨socket, hget, hp⟩ := (Option.any_eq_true _ _).mp hholds
      obtain rfl : socket.pattern = p := by simpa using hp
      have hown := h.split_of_separate hseparate hget
      rw [hsplit] at hown
      exact (Prod.mk.inj (Option.some.inj hown)).1.symm

theorem Listed.subscribe (h : s.Listed) (hnew : subscriberId pattern addr ∉ s.subscribers) :
    (s.subscribe pattern addr).1.Listed := by
  have hnone : s.subscribers[subscriberId pattern addr]? = none :=
    Std.ExtTreeMap.getElem?_eq_none hnew
  constructor
  · intro id socket hget
    rw [get_subscribe] at hget
    split_ifs at hget with hid
    · cases hget
      exact hid.symm
    · exact h.keyed id socket hget
  · intro p a
    rw [addrs_subscribe, get_subscribe]
    by_cases hp : pattern = p
    · subst hp
      rw [if_pos rfl, List.count_append, h.count]
      by_cases ha : addr = a
      · subst ha
        simp [hnone]
      · simp [subscriberId_inj, ha]
    · rw [if_neg hp, h.count]
      by_cases hid : subscriberId pattern addr = subscriberId p a
      · simp [← hid, hnone, hp]
      · simp [hid]

theorem Listed.unsubscribe (h : s.Listed)
    (hseparate : ∀ socket, s.subscribers[id]? = some socket → '@' ∉ socket.pattern.toList) :
    (s.unsubscribe id).Listed := by
  constructor
  · intro other socket hget
    exact h.keyed other socket ((Table.get_erase_eq_some _).mp hget).2
  · intro p a
    rw [get_unsubscribe]
    cases hsplit : splitOnce id '@' with
    | none =>
      have hid : id ≠ subscriberId p a := fun heq => splitOnce_ne_none (heq ▸ hsplit)
      have hsame : (s.unsubscribe id).addrs p = s.addrs p := by
        simp only [addrs, Broker.unsubscribe, hsplit]
      rw [if_neg hid, hsame, h.count]
    | some parts =>
      obtain ⟨pattern, addr⟩ := parts
      rw [addrs_unsubscribe hsplit]
      obtain ⟨rfl, hpattern⟩ := splitOnce_iff.mp hsplit
      by_cases hp : pattern = p
      · subst hp
        rw [if_pos rfl]
        by_cases ha : addr = a
        · subst ha
          simp [List.count_eq_zero]
        · rw [List.count_filter (by simpa using Ne.symm ha), h.count,
            if_neg (mt subscriberId_inj.mp ha)]
      · rw [if_neg hp, h.count]
        by_cases hid : subscriberId pattern addr = subscriberId p a
        · have hother : s.subscribers[subscriberId p a]? ≠ some ⟨p, a⟩ := by
            intro hsocket
            have hown := h.split_of_separate hseparate (hid ▸ hsocket)
            rw [hsplit] at hown
            exact hp (Prod.mk.inj (Option.some.inj hown)).1
          rw [if_neg hother, if_pos hid, if_neg (by simp)]
        · rw [if_neg hid]

theorem Listed.step {call : BrokerCall} (h : s.Listed) (hseparate : s.Separate call) :
    (s.step call).Listed := by
  cases call with
  | subscribe pattern addr => exact h.subscribe hseparate
  | unsubscribe id => exact h.unsubscribe hseparate

/-- In every run the statistics are exact throughout exactly if every new subscription has an id of
its own and no socket with the separator in its pattern is given up. -/
theorem stats_match_sockets (calls : List BrokerCall) :
    Always step StatsMatch new calls ↔ Along step Separate new calls := by
  refine always_iff_along_of_inv (J := Listed) (P := fun _ _ => True)
    (fun s call h _ _ hseparate => h.step hseparate) (fun s call h hmatch _ => ?_) ?_ ?_
    (along_of_forall fun _ _ _ => trivial)
  · cases call with
    | subscribe pattern addr => exact statsMatch_subscribe hmatch
    | unsubscribe id => exact h.statsMatch_unsubscribe hmatch
  · constructor
    · intro id socket hget
      simp [new] at hget
    · intro p a
      simp [new, addrs]
  · intro p
    rw [stats_eq]
    rfl

/-- A second subscription to the same address is counted, but takes the place of the first, and the
socket of a pattern with a separator is given up without its entry. -/
theorem stats_miscount :
    ((exec step new [.subscribe "t" "a", .subscribe "t" "a"]).subscriptionStats["t"]? = some 2 ∧
      (exec step new [.subscribe "t" "a", .subscribe "t" "a"]).liveSockets "t" = 1) ∧
    ((exec step new [.subscribe "t@u" "a",
        .unsubscribe (subscriberId "t@u" "a")]).subscriptionStats["t@u"]? = some 1 ∧
      (exec step new [.subscribe "t@u" "a",
        .unsubscribe (subscriberId "t@u" "a")]).liveSockets "t@u" = 0) := by
  decide +kernel

end Broker

end DumbDistributedLog.Zmq
