import DumbDistributedLog.Library.Tables
import DumbDistributedLog.Queue.Retention
import DumbDistributedLog.Queue.Subscribers

/-! # Delivery to the subscribers of a topic

A push appends to the queue, reads the entry back and notifies the subscribers, and the
steps of several producers may be interleaved. If every entry is read back before it can
be overwritten and the notifications are made in the order of the ids, each subscriber
gets every later id once and in order.
-/

namespace DumbDistributedLog.Ddl

open Runs

/-- What pushes and subscriptions use of the configuration. -/
structure DdlConfig where
  bufferSize : UInt64
  subscriptionBufferSize : ℕ
  subscriptionBackpressure : BackpressureMode
  deriving DecidableEq, Repr

/-- A push under way: its id, and its entry once that has been read back. -/
structure PendingPush where
  id : UInt64
  entry : Option Entry
  deriving DecidableEq, Repr

/-- One topic, with the pushes under way by producer. -/
structure Delivery where
  queue : TopicQueue
  producers : Table ℕ PendingPush
  subscribers : List SubscriberInfo

inductive DeliveryOp where
  | append (producer : ℕ) (payload : List UInt8) (now : UInt64)
  | readBack (producer : ℕ)
  | notify (producer : ℕ)
  | subscribe
  | receive (subscriber : ℕ)
  | disconnect (subscriber : ℕ)
  | ack (id : UInt64)

def Channel.receive (c : Channel) : Channel :=
  if c.received < c.sent.length then { c with received := c.received + 1 } else c

def Channel.disconnect (c : Channel) : Channel := { c with connected := false }

namespace Delivery

def init (config : DdlConfig) : Delivery := ⟨.new config.bufferSize, ∅, []⟩

section Step

variable (config : DdlConfig) (topic : String) (d : Delivery)

/-- The first step of a push; a producer makes one push at a time. -/
def append (producer : ℕ) (payload : List UInt8) (now : UInt64) : Delivery :=
  match d.producers[producer]? with
  | some _ => d
  | none =>
    let (queue, result) := d.queue.push topic payload now
    match result with
    | some (.ok id) => { d with queue, producers := d.producers.insert producer ⟨id, none⟩ }
    | _ => { d with queue }

/-- The second step; a push whose entry cannot be read back ends here. -/
def readBack (producer : ℕ) : Delivery :=
  match d.producers[producer]? with
  | some ⟨id, none⟩ =>
    match d.queue.read id with
    | some entry => { d with producers := d.producers.insert producer ⟨id, some entry⟩ }
    | none => { d with producers := d.producers.erase producer }
  | _ => d

/-- The third step, which is not made while a subscriber has to be waited for. -/
def notify (producer : ℕ) : Delivery :=
  match d.producers[producer]? with
  | some ⟨_, some entry⟩ =>
    match notifySubscribers config.subscriptionBackpressure topic entry d.subscribers with
    | some (subscribers, _) => { d with subscribers, producers := d.producers.erase producer }
    | none => d
  | _ => d

def subscribe : Delivery :=
  let sender : Channel := ⟨config.subscriptionBufferSize, [], 0, true⟩
  { d with subscribers := d.subscribers ++ [⟨sender, d.queue.position.toNat⟩] }

def modifySender (subscriber : ℕ) (f : Channel → Channel) : Delivery :=
  { d with subscribers :=
      d.subscribers.modify subscriber fun info => { info with sender := f info.sender } }

def step : DeliveryOp → Delivery
  | .append producer payload now => d.append topic producer payload now
  | .readBack producer => d.readBack producer
  | .notify producer => d.notify config topic producer
  | .subscribe => d.subscribe config
  | .receive subscriber => d.modifySender subscriber Channel.receive
  | .disconnect subscriber => d.modifySender subscriber Channel.disconnect
  | .ack id => { d with queue := d.queue.ack id }

/-- No channel is full when the subscribers are notified. -/
def NeverFull : DeliveryOp → Prop
  | .notify _ => ∀ info ∈ d.subscribers, info.sender.isFull = false
  | _ => True

/-- An entry is read back before its slot is due again, and no push with a smaller id is
under way when the subscribers are notified. -/
def InTurn : DeliveryOp → Prop
  | .readBack producer => ∀ pending ∈ d.producers[producer]?,
      d.queue.position.toNat ≤ pending.id.toNat + d.queue.capacity.toNat
  | .notify producer => ∀ pending ∈ d.producers[producer]?, ∀ other ∈ d.producers.values,
      pending.id ≤ other.id
  | _ => True

instance : ∀ d op, Decidable (NeverFull d op)
  | d, .notify _ => inferInstanceAs (Decidable (∀ info ∈ d.subscribers, info.sender.isFull = false))
  | _, .append _ _ _ | _, .readBack _ | _, .subscribe | _, .receive _ | _, .disconnect _
  | _, .ack _ => .isTrue trivial

instance : ∀ d op, Decidable (InTurn d op)
  | d, .readBack producer => inferInstanceAs (Decidable (∀ pending ∈ d.producers[producer]?,
      d.queue.position.toNat ≤ pending.id.toNat + d.queue.capacity.toNat))
  | d, .notify producer => inferInstanceAs (Decidable (∀ pending ∈ d.producers[producer]?,
      ∀ other ∈ d.producers.values, pending.id ≤ other.id))
  | _, .append _ _ _ | _, .subscribe | _, .receive _ | _, .disconnect _ | _, .ack _ =>
    .isTrue trivial

end Step

def UnderWay (d : Delivery) (id : UInt64) : Prop :=
  ∃ (producer : ℕ) (pending : PendingPush),
    d.producers[producer]? = some pending ∧ pending.id = id

/-- The ids on the channel of a subscriber increase, and a connected subscriber has been
sent every id since it joined that is not of a push under way. -/
structure Served (d : Delivery) (info : SubscriberInfo) : Prop where
  increasing : (info.sender.sent.map Entry.id).Pairwise (· < ·)
  complete : info.sender.connected → ∀ id : UInt64, info.joined ≤ id.toNat → id < d.queue.position →
    (∃ e ∈ info.sender.sent, e.id = id) ∨ d.UnderWay id

def Ordered (d : Delivery) : Prop := ∀ info ∈ d.subscribers, d.Served info

/-- The pushes under way have different ids in the log, and nothing has been sent that is
not before all of them. -/
structure Consistent (d : Delivery) (log : List Entry) : Prop where
  tracks : Tracks d.queue log
  written : ∀ {producer : ℕ} {pending : PendingPush},
    d.producers[producer]? = some pending → pending.id.toNat < log.length
  held : ∀ {producer : ℕ} {pending : PendingPush} {entry : Entry},
    d.producers[producer]? = some pending → pending.entry = some entry → entry.id = pending.id
  distinct : ∀ {producer producer' : ℕ} {pending pending' : PendingPush},
    d.producers[producer]? = some pending → d.producers[producer']? = some pending' →
      pending.id = pending'.id → producer = producer'
  bounded : ∀ info ∈ d.subscribers, ∀ e ∈ info.sender.sent, e.id.toNat < log.length
  before : ∀ info ∈ d.subscribers, ∀ e ∈ info.sender.sent, ∀ {producer : ℕ} {pending : PendingPush},
    d.producers[producer]? = some pending → e.id < pending.id
  ordered : d.Ordered

variable {config : DdlConfig} {topic : String} {d : Delivery} {log : List Entry}

/-- A subscriber that has been sent the same stays served while the same ids are written
and no push under way is lost. -/
theorem Served.mono {d' : Delivery} {info info' : SubscriberInfo} (h : d.Served info)
    (hsent : info'.sender.sent = info.sender.sent) (hjoined : info'.joined = info.joined)
    (hconnected : info'.sender.connected → info.sender.connected)
    (hposition : d'.queue.position = d.queue.position)
    (hunder : ∀ id, d.UnderWay id → d'.UnderWay id) : d'.Served info' := by
  constructor
  · rw [hsent]
    exact h.increasing
  · rw [hsent, hjoined, hposition]
    intro hc id hid hlt
    exact (h.complete (hconnected hc) id hid hlt).imp_right (hunder id)

namespace Consistent

theorem init (config : DdlConfig) : Consistent (.init config) [] where
  tracks := .new config.bufferSize
  written h := by simp [Delivery.init] at h
  held h := by simp [Delivery.init] at h
  distinct h := by simp [Delivery.init] at h
  bounded _ h := by simp [Delivery.init] at h
  before _ h := by simp [Delivery.init] at h
  ordered _ h := by simp [Delivery.init] at h

theorem withQueue (h : Consistent d log) {queue : TopicQueue} (hq : Tracks queue log)
    (hpos : queue.position = d.queue.position) : Consistent { d with queue } log := by
  refine ⟨hq, h.written, h.held, h.distinct, h.bounded, h.before, fun info hinfo => ?_⟩
  exact (h.ordered info hinfo).mono rfl rfl id hpos fun _ hid => hid

theorem pushed (h : Consistent d log) {producer : ℕ} (hidle : d.producers[producer]? = none)
    {e : Entry} {queue : TopicQueue} (hp : d.queue.Pushed e queue) :
    Consistent { d with queue, producers := d.producers.insert producer ⟨e.id, none⟩ }
      (log ++ [e]) := by
  have hid : e.id.toNat = log.length := by rw [hp.id, h.tracks.position]
  have hlength : (log ++ [e]).length = log.length + 1 := by simp
  constructor
  · exact h.tracks.pushed hp
  · intro producer' pending hpending
    rw [Table.get_insert] at hpending
    split at hpending
    · obtain rfl := Option.some.inj hpending
      change e.id.toNat < _
      omega
    · have := h.written hpending
      omega
  · intro producer' pending entry hpending hentry
    rw [Table.get_insert] at hpending
    split at hpending
    · obtain rfl := Option.some.inj hpending
      exact absurd hentry (by simp)
    · exact h.held hpending hentry
  · intro p p' x x' hx hx' heq
    rw [Table.get_insert] at hx hx'
    split at hx <;> split at hx'
    · rename_i hp hp'
      exact hp.symm.trans hp'
    · obtain rfl := Option.some.inj hx
      have hlt := h.written hx'
      rw [← heq] at hlt
      change e.id.toNat < _ at hlt
      omega
    · obtain rfl := Option.some.inj hx'
      have hlt := h.written hx
      rw [heq] at hlt
      change e.id.toNat < _ at hlt
      omega
    · exact h.distinct hx hx' heq
  · intro info hinfo e' he'
    have := h.bounded info hinfo e' he'
    omega
  · intro info hinfo e' he' producer' pending hpending
    rw [Table.get_insert] at hpending
    split at hpending
    · obtain rfl := Option.some.inj hpending
      rw [UInt64.lt_iff_toNat_lt]
      change _ < e.id.toNat
      rw [hid]
      exact h.bounded info hinfo e' he'
    · exact h.before info hinfo e' he' hpending
  · intro info hinfo
    obtain ⟨hincreasing, hcomplete⟩ := h.ordered info hinfo
    refine ⟨hincreasing, fun hc id hjoined hlt => ?_⟩
    have hle : id.toNat ≤ log.length := by
      have hlt' := UInt64.lt_iff_toNat_lt.mp hlt
      change id.toNat < queue.writePos.toNat at hlt'
      rw [hp.writePos, ← h.tracks.position] at hlt'
      omega
    rcases Nat.lt_or_eq_of_le hle with hold | hnew
    · have hpos : id < d.queue.position := by
        rw [UInt64.lt_iff_toNat_lt, TopicQueue.position, ← h.tracks.position]
        exact hold
      rcases hcomplete hc id hjoined hpos with hsent | ⟨p, pending, hpending, hpid⟩
      · exact .inl hsent
      · refine .inr ⟨p, pending, ?_, hpid⟩
        have hne : producer ≠ p := by
          rintro rfl
          rw [hidle] at hpending
          exact absurd hpending (by simp)
        rw [Table.get_insert, if_neg hne]
        exact hpending
    · refine .inr ⟨producer, ⟨e.id, none⟩, ?_, ?_⟩
      · rw [Table.get_insert, if_pos rfl]
      · exact UInt64.toNat_inj.mp (hid.trans hnew.symm)

theorem append (h : Consistent d log) (producer : ℕ) (payload : List UInt8) (now : UInt64) :
    ∃ log', Consistent (d.append topic producer payload now) log' := by
  unfold Delivery.append
  cases hidle : d.producers[producer]? with
  | some pending => exact ⟨log, h⟩
  | none =>
    rcases d.queue.push_cases topic payload now with ⟨e, heq⟩ | ⟨hzero, heq⟩ | ⟨q', heq, hpushed⟩
    · rw [heq]
      exact ⟨log, h⟩
    · rw [heq]
      exact ⟨log, h.withQueue (h.tracks.poisoned hzero) rfl⟩
    · rw [heq]
      exact ⟨_, h.pushed hidle hpushed⟩

theorem withProducers (h : Consistent d log) {producers : Table ℕ PendingPush}
    (hids : ∀ producer : ℕ,
      producers[producer]?.map PendingPush.id = d.producers[producer]?.map PendingPush.id)
    (hheld : ∀ (producer : ℕ) (pending : PendingPush) (entry : Entry),
      producers[producer]? = some pending → pending.entry = some entry → entry.id = pending.id) :
    Consistent { d with producers } log := by
  have hback : ∀ {producer : ℕ} {pending : PendingPush}, producers[producer]? = some pending →
      ∃ old, d.producers[producer]? = some old ∧ old.id = pending.id := by
    intro producer pending hpending
    have hid := hids producer
    rw [hpending, Option.map_some] at hid
    exact Option.map_eq_some_iff.mp hid.symm
  constructor
  · exact h.tracks
  · intro producer pending hpending
    obtain ⟨old, hold, hid⟩ := hback hpending
    rw [← hid]
    exact h.written hold
  · exact fun hpending hentry => hheld _ _ _ hpending hentry
  · intro p p' x x' hx hx' heq
    obtain ⟨old, hold, hid⟩ := hback hx
    obtain ⟨old', hold', hid'⟩ := hback hx'
    exact h.distinct hold hold' (hid.trans (heq.trans hid'.symm))
  · exact h.bounded
  · intro info hinfo e he producer pending hpending
    obtain ⟨old, hold, hid⟩ := hback hpending
    rw [← hid]
    exact h.before info hinfo e he hold
  · intro info hinfo
    refine (h.ordered info hinfo).mono rfl rfl id rfl ?_
    rintro _ ⟨producer, old, hold, rfl⟩
    have hnew := hids producer
    rw [hold, Option.map_some] at hnew
    obtain ⟨pending, hpending, hpid⟩ := Option.map_eq_some_iff.mp hnew
    exact ⟨producer, pending, hpending, hpid⟩

theorem readBack (h : Consistent d log) {producer : ℕ} (hturn : d.InTurn (.readBack producer)) :
    Consistent (d.readBack producer) log := by
  unfold Delivery.readBack
  split
  · rename_i id hpending
    have hlt : id.toNat < log.length := h.written hpending
    have he := List.getElem?_eq_getElem hlt
    have hroom : log.length ≤ id.toNat + d.queue.capacity.toNat := by
      rw [h.tracks.position]
      exact hturn _ hpending
    have hid : log[id.toNat].id = id := UInt64.toNat_inj.mp (h.tracks.ids _ _ he)
    rw [h.tracks.read he hroom]
    refine h.withProducers (fun p => ?_) fun p pending entry hp hentry => ?_
    · rw [Table.get_insert]
      split
      · rename_i heq
        rw [← heq, hpending]
        rfl
      · rfl
    · rw [Table.get_insert] at hp
      split at hp
      · obtain rfl := Option.some.inj hp
        obtain rfl := Option.some.inj hentry
        exact hid
      · exact h.held hp hentry
  · exact h

theorem notified (h : Consistent d log) {producer : ℕ} {pending : PendingPush} {entry : Entry}
    (hpending : d.producers[producer]? = some pending) (hid : entry.id = pending.id)
    (hleast : ∀ other ∈ d.producers.values, pending.id ≤ other.id) :
    Consistent
      { d with
        subscribers := (d.subscribers.map (.deliver entry)).filter fun info => info.sender.connected
        producers := d.producers.erase producer } log := by
  have hsubscriber : ∀ info ∈ (d.subscribers.map (.deliver entry)).filter
      (fun info => info.sender.connected), ∃ old ∈ d.subscribers, old.sender.connected ∧
        info = { old with sender := old.sender.deliver entry } := by
    intro info hinfo
    obtain ⟨hmem, hc⟩ := List.mem_filter.mp hinfo
    obtain ⟨old, hold, rfl⟩ := List.mem_map.mp hmem
    by_cases hconnected : old.sender.connected
    · exact ⟨old, hold, hconnected, if_pos hconnected⟩
    · rw [SubscriberInfo.deliver, if_neg hconnected] at hc
      exact absurd hc hconnected
  constructor
  · exact h.tracks
  · intro p x hx
    exact h.written ((Table.get_erase_eq_some _).mp hx).2
  · intro p x e hx he
    exact h.held ((Table.get_erase_eq_some _).mp hx).2 he
  · intro p p' x x' hx hx' heq
    exact h.distinct ((Table.get_erase_eq_some _).mp hx).2
      ((Table.get_erase_eq_some _).mp hx').2 heq
  · intro info hinfo e he
    obtain ⟨old, hold, -, rfl⟩ := hsubscriber info hinfo
    rcases List.mem_append.mp he with hsent | hlast
    · exact h.bounded old hold e hsent
    · obtain rfl := List.mem_singleton.mp hlast
      rw [hid]
      exact h.written hpending
  · intro info hinfo e he p x hx
    obtain ⟨hne, hother⟩ := (Table.get_erase_eq_some _).mp hx
    obtain ⟨old, hold, -, rfl⟩ := hsubscriber info hinfo
    rcases List.mem_append.mp he with hsent | hlast
    · exact h.before old hold e hsent hother
    · rw [List.mem_singleton.mp hlast, hid]
      refine UInt64.lt_of_le_of_ne (hleast x (d.producers.mem_values.mpr ⟨p, hother⟩)) fun heq => ?_
      exact hne (h.distinct hpending hother heq)
  · intro info hinfo
    obtain ⟨old, hold, hc, rfl⟩ := hsubscriber info hinfo
    obtain ⟨hincreasing, hcomplete⟩ := h.ordered old hold
    constructor
    · change ((old.sender.sent ++ [entry]).map Entry.id).Pairwise (· < ·)
      rw [List.map_append, List.pairwise_append]
      refine ⟨hincreasing, List.pairwise_singleton _ _, fun i hi j hj => ?_⟩
      obtain ⟨e, he, rfl⟩ := List.mem_map.mp hi
      obtain rfl := List.mem_singleton.mp hj
      rw [hid]
      exact h.before old hold e he hpending
    · intro _ id hjoined hlt
      rcases hcomplete hc id hjoined hlt with ⟨e, he, heq⟩ | ⟨p, x, hx, hxid⟩
      · exact .inl ⟨e, List.mem_append_left _ he, heq⟩
      · by_cases hne : producer = p
        · subst hne
          obtain rfl := Option.some.inj (hpending.symm.trans hx)
          exact .inl ⟨entry, List.mem_append_right _ (List.mem_singleton_self _), hid.trans hxid⟩
        · exact .inr ⟨p, x, (Table.get_erase_eq_some _).mpr ⟨hne, hx⟩, hxid⟩

theorem notify (h : Consistent d log) {producer : ℕ} (hturn : d.InTurn (.notify producer))
    (hfull : d.NeverFull (.notify producer)) : Consistent (d.notify config topic producer) log := by
  unfold Delivery.notify
  split
  · rename_i id entry hpending
    rw [notifySubscribers_of_not_full hfull]
    exact h.notified hpending (h.held hpending rfl) (hturn _ hpending)
  · exact h

theorem subscribe (h : Consistent d log) : Consistent (d.subscribe config) log := by
  have hnew : ∀ info ∈ (d.subscribe config).subscribers, info ∈ d.subscribers ∨
      info = ⟨⟨config.subscriptionBufferSize, [], 0, true⟩, d.queue.position.toNat⟩ := by
    intro info hinfo
    simpa [Delivery.subscribe] using hinfo
  refine ⟨h.tracks, h.written, h.held, h.distinct, ?_, ?_, ?_⟩
  · intro info hinfo e he
    rcases hnew info hinfo with hold | rfl
    · exact h.bounded info hold e he
    · exact absurd he (by simp)
  · intro info hinfo e he
    rcases hnew info hinfo with hold | rfl
    · exact h.before info hold e he
    · exact absurd he (by simp)
  · intro info hinfo
    rcases hnew info hinfo with hold | rfl
    · exact (h.ordered info hold).mono rfl rfl id rfl fun _ hid => hid
    · refine ⟨List.Pairwise.nil, fun _ id hjoined hlt => ?_⟩
      have hlt' := UInt64.lt_iff_toNat_lt.mp hlt
      exact absurd hlt' (Nat.not_lt.mpr hjoined)

theorem modifySender (h : Consistent d log) (subscriber : ℕ) {f : Channel → Channel}
    (hsent : ∀ c, (f c).sent = c.sent) (hconnected : ∀ c, (f c).connected → c.connected) :
    Consistent (d.modifySender subscriber f) log := by
  have hold : ∀ info ∈ (d.modifySender subscriber f).subscribers, ∃ old ∈ d.subscribers,
      info.sender.sent = old.sender.sent ∧ info.joined = old.joined ∧
        (info.sender.connected → old.sender.connected) := by
    intro info hinfo
    obtain ⟨i, hi⟩ := List.mem_iff_getElem?.mp hinfo
    change (d.subscribers.modify subscriber _)[i]? = some info at hi
    rw [List.getElem?_modify] at hi
    obtain ⟨old, hget, rfl⟩ := Option.map_eq_some_iff.mp hi
    refine ⟨old, List.mem_of_getElem? hget, ?_⟩
    split
    · exact ⟨hsent _, rfl, hconnected _⟩
    · exact ⟨rfl, rfl, id⟩
  refine ⟨h.tracks, h.written, h.held, h.distinct, ?_, ?_, ?_⟩
  · intro info hinfo e he
    obtain ⟨old, hmem, heq, -, -⟩ := hold info hinfo
    exact h.bounded old hmem e (heq ▸ he)
  · intro info hinfo e he
    obtain ⟨old, hmem, heq, -, -⟩ := hold info hinfo
    exact h.before old hmem e (heq ▸ he)
  · intro info hinfo
    obtain ⟨old, hmem, heq, hjoined, hc⟩ := hold info hinfo
    exact (h.ordered old hmem).mono heq hjoined hc rfl fun _ hid => hid

theorem step (h : Consistent d log) {op : DeliveryOp} (hturn : d.InTurn op)
    (hfull : d.NeverFull op) : ∃ log', Consistent (d.step config topic op) log' := by
  cases op with
  | append producer payload now => exact h.append producer payload now
  | readBack producer => exact ⟨log, h.readBack hturn⟩
  | notify producer => exact ⟨log, h.notify hturn hfull⟩
  | subscribe => exact ⟨log, h.subscribe⟩
  | receive subscriber =>
    refine ⟨log, h.modifySender subscriber (fun c => ?_) fun c hc => ?_⟩
    · unfold Channel.receive
      split <;> rfl
    · unfold Channel.receive at hc
      split at hc <;> exact hc
  | disconnect subscriber =>
    refine ⟨log, h.modifySender subscriber (fun _ => rfl) fun c hc => ?_⟩
    exact absurd hc Bool.false_ne_true
  | ack id =>
    refine ⟨log, h.withQueue (h.tracks.ack id) ?_⟩
    unfold TopicQueue.ack
    split <;> rfl

end Consistent

/-- With channels that are never full, each subscriber gets every id since it joined once
and in order, in every interleaving that keeps the pushes in turn. -/
theorem delivery_ordered (config : DdlConfig) (topic : String) (ops : List DeliveryOp)
    (hfull : Along (step config topic) NeverFull (.init config) ops)
    (hturn : Along (step config topic) InTurn (.init config) ops) :
    Ordered (exec (step config topic) (.init config) ops) := by
  have hinv : ∃ log, Consistent (exec (step config topic) (.init config) ops) log :=
    (hfull.and hturn).exec_inv (I := fun d => ∃ log, Consistent d log)
      (fun d op ⟨log, hd⟩ hop => hd.step hop.2 hop.1) ⟨[], .init config⟩
  obtain ⟨log, hd⟩ := hinv
  exact hd.ordered

theorem delivery_ordered_of_two_producers :
    Ordered (exec (step ⟨4, 8, .dropOldest⟩ "t") (.init ⟨4, 8, .dropOldest⟩)
      [.subscribe, .append 0 [0] 10, .append 1 [1] 11, .readBack 1, .readBack 0, .notify 0,
        .subscribe, .notify 1, .ack 1, .receive 0]) :=
  delivery_ordered ⟨4, 8, .dropOldest⟩ "t" _ (by decide +kernel) (by decide +kernel)

/-- Two producers whose notifications cross, and two of which one reads back the entry that
has overwritten its own. -/
theorem interleaved_pushes_out_of_order :
    let crossed : List DeliveryOp :=
      [.subscribe, .append 0 [0] 10, .append 1 [1] 11, .readBack 0, .readBack 1, .notify 1,
        .notify 0]
    let overwritten : List DeliveryOp :=
      [.subscribe, .append 0 [0] 10, .ack 5, .append 1 [1] 11, .readBack 0, .readBack 1, .notify 0,
        .notify 1]
    let runs : List (UInt64 × List DeliveryOp × List UInt64) :=
      [(4, crossed, [1, 0]), (1, overwritten, [1, 1])]
    ∀ run ∈ runs,
      let config : DdlConfig := ⟨run.1, 8, .dropOldest⟩
      let d := exec (step config "t") (.init config) run.2.1
      Along (step config "t") NeverFull (.init config) run.2.1 ∧
        d.subscribers.map (fun info => info.sender.sent.map Entry.id) = [run.2.2] ∧
        ¬ Ordered d := by
  intro crossed overwritten runs run hrun config d
  have hlater : ∀ {ids : List UInt64},
      d.subscribers.map (fun info => info.sender.sent.map Entry.id) = [ids] →
      ¬ ids.Pairwise (· < ·) → ¬ Ordered d := by
    intro ids hids hne hordered
    obtain ⟨info, hinfo, rfl⟩ := List.map_eq_singleton_iff.mp hids
    exact hne (hordered info (by simp [hinfo])).increasing
  rcases List.mem_pair.mp hrun with rfl | rfl
  · have hids : d.subscribers.map (fun info => info.sender.sent.map Entry.id) = [[1, 0]] := by
      decide +kernel
    exact ⟨by decide +kernel, hids, hlater hids (by decide)⟩
  · have hids : d.subscribers.map (fun info => info.sender.sent.map Entry.id) = [[1, 1]] := by
      decide +kernel
    exact ⟨by decide +kernel, hids, hlater hids (by decide)⟩

end Delivery

end DumbDistributedLog.Ddl
