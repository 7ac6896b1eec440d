import DumbDistributedLog.Queue.Standalone

/-! # What a full channel keeps

Two modes let a push go on when the channel of a subscriber is full. Both drop the entry at
hand: they differ in how they find out that there is no room. The channel of a subscriber
that does not read keeps the first entries in either mode, so the mode that is meant to drop
the oldest entries does so only while nothing has to be dropped.
-/

namespace DumbDistributedLog.Ddl

open Runs

namespace Channel

def contents (c : Channel) : List Entry := c.sent.drop c.received

def accept (c : Channel) (entry : Entry) : Channel :=
  if c.connected && !c.isFull then c.deliver entry else c

variable {c : Channel} {entry : Entry}

@[simp] theorem accept_connected : (c.accept entry).connected = c.connected := by
  unfold accept
  split <;> rfl

@[simp] theorem accept_capacity : (c.accept entry).capacity = c.capacity := by
  unfold accept
  split <;> rfl

@[simp] theorem accept_received : (c.accept entry).received = c.received := by
  unfold accept
  split <;> rfl

theorem length_contents : c.contents.length = c.sent.length - c.received := List.length_drop

theorem sent_accept (hc : c.connected = true) (entry : Entry) : (c.accept entry).sent =
    if c.contents.length < c.capacity then c.sent ++ [entry] else c.sent := by
  have hfull : c.isFull = decide (c.capacity ≤ c.contents.length) := by
    rw [isFull, length_contents]
  unfold accept
  by_cases hroom : c.contents.length < c.capacity
  · simp [hc, hfull, hroom, deliver]
  · simp [hc, hfull, hroom, Nat.not_lt.mp hroom]

/-- A channel from which nothing is received keeps what it holds and the first entries that
are sent after, as far as they fit. -/
theorem contents_foldl_accept (entries : List Entry) (hc : c.connected = true)
    (hreceived : c.received ≤ c.sent.length) (hfits : c.contents.length ≤ c.capacity) :
    (entries.foldl accept c).contents = (c.contents ++ entries).take c.capacity := by
  induction entries generalizing c with
  | nil => rw [List.foldl_nil, List.append_nil, List.take_of_length_le hfits]
  | cons entry entries ih =>
    have hsent := sent_accept hc entry
    rw [List.foldl_cons]
    by_cases hroom : c.contents.length < c.capacity
    · rw [if_pos hroom] at hsent
      have hcontents : (c.accept entry).contents = c.contents ++ [entry] := by
        rw [contents, accept_received, hsent, List.drop_append_of_le_length hreceived, contents]
      rw [ih (by simpa using hc) (by simp [hsent]; omega) (by simp [hcontents]; omega),
        hcontents, accept_capacity, List.append_assoc, List.singleton_append]
    · rw [if_neg hroom] at hsent
      have hcontents : (c.accept entry).contents = c.contents := by
        rw [contents, accept_received, hsent, contents]
      have hlength : c.contents.length = c.capacity := by omega
      rw [ih (by simpa using hc) (by simpa [hsent] using hreceived) (by simp [hcontents, hlength]),
        hcontents, accept_capacity, ← hlength, List.take_left, List.take_left]

end Channel

/-- What a channel with room for a number of entries is meant to hold. -/
def BackpressureMode.kept (mode : BackpressureMode) (room : ℕ) (entries : List Entry) :
    List Entry :=
  match mode with
  | .dropOldest => entries.drop (entries.length - room)
  | .dropNewest => entries.take room
  | .block | .error => entries

theorem take_eq_drop_iff {α : Type*} {as : List α} {n : ℕ} (has : as.Nodup) (hn : 0 < n) :
    as.take n = as.drop (as.length - n) ↔ as.length ≤ n := by
  constructor
  · intro heq
    by_contra hlt
    have hfirst : (as.take n)[0]? = as[0]? := by rw [List.getElem?_take_of_lt hn]
    have hlast : (as.drop (as.length - n))[0]? = as[as.length - n]? := by
      rw [List.getElem?_drop, Nat.add_zero]
    rw [heq, hlast] at hfirst
    have := (List.getElem?_inj (by omega) has).mp hfirst
    omega
  · intro hle
    rw [List.take_of_length_le hle, Nat.sub_eq_zero_of_le hle, List.drop_zero]

section Notifications

variable {mode : BackpressureMode} {topic : String} {entry : Entry} {infos : List SubscriberInfo}

def SubscriberInfo.accept (entry : Entry) (info : SubscriberInfo) : SubscriberInfo :=
  { info with sender := info.sender.accept entry }

theorem SubscriberInfo.gone_accept (mode : BackpressureMode) (info : SubscriberInfo) :
    (info.accept entry).gone mode = info.gone mode := by
  have hconnected : (info.accept entry).sender.connected = info.sender.connected :=
    Channel.accept_connected
  cases hc : info.sender.connected with
  | true => simp [SubscriberInfo.gone, hconnected, hc]
  | false => simp [SubscriberInfo.accept, Channel.accept, hc]

theorem offerAll_of_drops (h : mode = .dropOldest ∨ mode = .dropNewest) (idx : ℕ) :
    offerAll mode topic entry idx infos =
      (infos.map (.accept entry), indicesFrom (SubscriberInfo.gone mode) idx infos, .done) := by
  have herror : mode ≠ .error := by rcases h with rfl | rfl <;> decide
  have hblock : mode ≠ .block := by rcases h with rfl | rfl <;> decide
  induction infos generalizing idx with
  | nil => rfl
  | cons info infos ih =>
    rw [offerAll, ih]
    rcases offer_cases mode entry info with ⟨heq, hc, hfull⟩ | ⟨heq, hfull, hgone, -⟩ |
      ⟨heq, hgone, -⟩ | ⟨-, hmode, -⟩ | ⟨-, hmode, -⟩
    · simp [heq, indicesFrom, SubscriberInfo.gone, SubscriberInfo.accept, Channel.accept, hc, hfull]
    · simp [heq, indicesFrom, hgone, SubscriberInfo.accept, Channel.accept, hfull]
    · have hc : info.sender.connected = false := by
        simpa using (Bool.and_eq_true_iff.mp hgone).1
      simp [heq, indicesFrom, hgone, SubscriberInfo.accept, Channel.accept, hc]
    · exact absurd hmode herror
    · exact absurd hmode hblock

theorem notifySubscribers_of_drops (h : mode = .dropOldest ∨ mode = .dropNewest) :
    notifySubscribers mode topic entry infos =
      some ((infos.filter fun info => !info.gone mode).map (.accept entry), .ok ()) := by
  have hremove := removeIndices_indicesFrom (SubscriberInfo.gone mode) (infos.map (.accept entry))
  rw [indicesFrom_map (SubscriberInfo.gone_accept mode), List.filter_map] at hremove
  rw [notifySubscribers, offerAll_of_drops h]
  simp only [hremove, Function.comp_def, SubscriberInfo.gone_accept]

theorem SubscriberInfo.accept_eq (entry : Entry) (info : SubscriberInfo) :
    info.accept entry = { info with sender := { info.sender with
      sent := if info.sender.connected = true ∧
          info.sender.contents.length < info.sender.capacity then
        info.sender.sent ++ [entry] else info.sender.sent } } := by
  have hroom : (info.sender.connected && !info.sender.isFull) = true ↔
      info.sender.connected = true ∧ info.sender.contents.length < info.sender.capacity := by
    rw [Channel.isFull, Channel.length_contents]
    simp
  rw [SubscriberInfo.accept, Channel.accept]
  simp only [hroom]
  split_ifs <;> rfl

/-- A notification in the mode that drops the oldest entries leaves exactly the connected
subscribers in their order. Of all the channels, those that it removes included, each that is
connected and not full has the entry once more, and the others are as they were. -/
theorem notified_once_and_cleaned (topic : String) (entry : Entry) (infos : List SubscriberInfo) :
    let notified : SubscriberInfo → SubscriberInfo := fun info =>
      { info with sender := { info.sender with
          sent := if info.sender.connected = true ∧
              info.sender.contents.length < info.sender.capacity then
            info.sender.sent ++ [entry] else info.sender.sent } }
    notifySubscribers .dropOldest topic entry infos =
        some ((infos.filter fun info => info.sender.connected).map notified, .ok ()) ∧
      offerAll .dropOldest topic entry 0 infos =
        (infos.map notified, indicesFrom (fun info => !info.sender.connected) 0 infos, .done) := by
  intro notified
  have hnotified : notified = .accept entry := funext fun info => (info.accept_eq entry).symm
  have hgone : SubscriberInfo.gone .dropOldest = fun info => !info.sender.connected := by
    funext info
    simp [SubscriberInfo.gone]
  rw [hnotified, notifySubscribers_of_drops (.inl rfl), offerAll_of_drops (.inl rfl), hgone]
  simp

end Notifications

namespace DdlDistributed

variable {d d' : DdlDistributed} {topic : String}

def channels (d : DdlDistributed) (topic : String) : List Channel :=
  ((d.subscribersOf topic).filter fun info => info.sender.connected).map SubscriberInfo.sender

theorem connected_of_mem_channels {c : Channel} (h : c ∈ d.channels topic) :
    c.connected = true := by
  obtain ⟨info, hinfo, rfl⟩ := List.mem_map.mp h
  exact (List.mem_filter.mp hinfo).2

theorem Made.channels_of_drops {entry : Entry} (h : Made d entry d')
    (hdrops : d.config.subscriptionBackpressure = .dropOldest ∨
      d.config.subscriptionBackpressure = .dropNewest) :
    d'.channels entry.topic = (d.channels entry.topic).map (·.accept entry) := by
  obtain ⟨result, hresult⟩ := h.notified (by rcases hdrops with hmode | hmode <;> simp [hmode])
  obtain ⟨hinfos, -⟩ :=
    Prod.mk.inj (Option.some.inj ((notifySubscribers_of_drops hdrops).symm.trans hresult))
  -- a connected subscriber is not found disconnected
  have hkept : ∀ info : SubscriberInfo, (info.sender.connected &&
      !info.gone d.config.subscriptionBackpressure) = info.sender.connected := by
    intro info
    cases hc : info.sender.connected <;> simp [SubscriberInfo.gone, hc]
  have hconnected : ((fun info : SubscriberInfo => info.sender.connected) ∘
      SubscriberInfo.accept entry) = fun info => info.sender.connected := by
    funext info
    exact Channel.accept_connected
  rw [channels, ← hinfos, List.filter_map, hconnected, List.filter_filter]
  simp only [hkept, List.map_map, channels]
  rfl

end DdlDistributed

structure Producer where
  log : DdlDistributed
  made : List Entry

namespace Producer

variable {topic : String} {p : Producer}

def push (topic : String) (p : Producer) (x : List UInt8 × UInt64) : Producer :=
  match p.log.push topic x.1 x.2 with
  | (d, some (.ok id)) => ⟨d, p.made ++ [⟨id, x.2, topic, x.1⟩]⟩
  | (d, _) => ⟨d, p.made⟩

/-- Every channel has been offered the entries of the producer one after the other. -/
structure Fed (topic : String) (d : DdlDistributed) (p : Producer) : Prop where
  config : p.log.config = d.config
  channels : p.log.channels topic = (d.channels topic).map fun c => p.made.foldl Channel.accept c
  written : ∀ e ∈ p.made, e.id.toNat < p.log.written topic
  nodup : p.made.Nodup

theorem Fed.push {d : DdlDistributed} (h : Fed topic d p)
    (hdrops : d.config.subscriptionBackpressure = .dropOldest ∨
      d.config.subscriptionBackpressure = .dropNewest)
    (x : List UInt8 × UInt64) : Fed topic d (p.push topic x) := by
  obtain ⟨payload, now⟩ := x
  by_cases haccepts : p.log.Accepts topic
  · obtain ⟨d', result, heq, hmade, hends⟩ :=
      DdlDistributed.push_of_accepts haccepts payload now
    rcases hends with _ | ⟨-, hmode, -⟩ | ⟨-, -, -, hmode⟩
    rotate_left
    · rw [h.config] at hmode
      rw [hmode] at hdrops
      exact absurd hdrops (by decide)
    · rw [h.config] at hmode
      rw [hmode] at hdrops
      exact absurd hdrops (by decide)
    · have hchannels := hmade.channels_of_drops (by rwa [h.config])
      have hwritten := hmade.written topic
      rw [DdlDistributed.entryOf_topic, if_pos rfl] at hwritten
      have hpush : p.push topic (payload, now) =
          ⟨d', p.made ++ [p.log.entryOf topic payload now]⟩ := by
        simp only [Producer.push, heq, Option.map, Except.map]
        rfl
      rw [hpush]
      constructor
      · exact hmade.config.trans h.config
      · rw [DdlDistributed.entryOf_topic, h.channels, List.map_map] at hchannels
        rw [hchannels]
        refine List.map_congr_left fun c _ => ?_
        rw [List.foldl_concat]
        rfl
      · intro e he
        rcases List.mem_append.mp he with hold | hnew
        · have := h.written e hold
          change e.id.toNat < d'.written topic
          omega
        · obtain rfl := List.mem_singleton.mp hnew
          change p.log.written topic < d'.written topic
          omega
      · refine List.nodup_append.mpr ⟨h.nodup, List.nodup_singleton _, ?_⟩
        rintro e he _ hnew rfl
        obtain rfl := List.mem_singleton.mp hnew
        exact Nat.lt_irrefl _ (h.written _ he)
  · obtain ⟨d', result, heq, hrefused⟩ := DdlDistributed.push_of_not_accepts haccepts payload now
    have hpush : p.push topic (payload, now) = ⟨d', p.made⟩ := by
      rw [Producer.push, heq]
      split
      · rename_i hid
        cases hid
        exact absurd rfl (hrefused.result _)
      · rename_i hid
        cases hid
        rfl
    rw [hpush]
    constructor
    · exact hrefused.config.trans h.config
    · rw [← h.channels, DdlDistributed.channels, DdlDistributed.subscribersOf,
        hrefused.subscribers]
      rfl
    · intro e he
      rw [hrefused.written]
      exact h.written e he
    · exact h.nodup

/-- A connected subscriber with an empty channel that does not read finds there what the mode
is meant to keep, exactly if no entry had to be dropped from the front. -/
theorem full_channel_keeps_iff (d : DdlDistributed) (topic : String)
    (pushes : List (List UInt8 × UInt64)) (mode : BackpressureMode) (k : ℕ) (c : Channel)
    (hmode : d.config.subscriptionBackpressure = mode)
    (hdrops : mode = .dropOldest ∨ mode = .dropNewest)
    (hsubscriber : (d.channels topic)[k]? = some c) (hempty : c.sent.length = c.received)
    (hroom : 1 ≤ c.capacity) :
    let p := exec (push topic) ⟨d, []⟩ pushes
    (∃ c', (p.log.channels topic)[k]? = some c' ∧ c'.contents = mode.kept c.capacity p.made) ↔
      (mode = .dropOldest → p.made.length ≤ c.capacity) := by
  intro p
  subst hmode
  have hfed : Fed topic d p :=
    exec_inv (fun _ x h => h.push hdrops x) ⟨rfl, by simp, by simp, List.nodup_nil⟩
  have hnone : c.contents = [] := List.drop_eq_nil_of_le (Nat.le_of_eq hempty)
  have hconnected := DdlDistributed.connected_of_mem_channels (List.mem_of_getElem? hsubscriber)
  have hcontents : (p.made.foldl Channel.accept c).contents = p.made.take c.capacity := by
    have := Channel.contents_foldl_accept p.made hconnected (Nat.le_of_eq hempty.symm)
      (by simp [hnone])
    rwa [hnone, List.nil_append] at this
  have hget : (p.log.channels topic)[k]? = some (p.made.foldl Channel.accept c) := by
    rw [hfed.channels, List.getElem?_map, hsubscriber]
    rfl
  have hkept : (∃ c', (p.log.channels topic)[k]? = some c' ∧
        c'.contents = d.config.subscriptionBackpressure.kept c.capacity p.made) ↔
      p.made.take c.capacity = d.config.subscriptionBackpressure.kept c.capacity p.made := by
    rw [hget, ← hcontents]
    simp
  rw [hkept]
  rcases hdrops with hmode | hmode
  · rw [hmode]
    simp only [BackpressureMode.kept, forall_const]
    exact take_eq_drop_iff hfed.nodup hroom
  · rw [hmode]
    simp [BackpressureMode.kept]

theorem full_channel_keeps_of_room :
    let d := ((DdlDistributed.newStandalone ⟨⟨4, 2, .dropOldest⟩, ["t"], 0⟩).subscribe "t").1
    let p := exec (push "t") ⟨d, []⟩ [([0], 10), ([1], 11)]
    ∃ c', (p.log.channels "t")[0]? = some c' ∧
      c'.contents = BackpressureMode.dropOldest.kept 2 p.made := by
  intro d p
  exact (full_channel_keeps_iff d "t" [([0], 10), ([1], 11)] .dropOldest 0 ⟨2, [], 0, true⟩ rfl
    (.inl rfl) (by decide +kernel) rfl (by decide)).mpr fun _ => by decide +kernel

/-- The third of three entries is dropped from a channel with room for two, which is meant to
drop the first. -/
theorem newest_entry_dropped :
    let d := ((DdlDistributed.newStandalone ⟨⟨4, 2, .dropOldest⟩, ["t"], 0⟩).subscribe "t").1
    let p := exec (push "t") ⟨d, []⟩ [([0], 10), ([1], 11), ([2], 12)]
    (p.log.channels "t").map (fun c => c.contents.map Entry.id) = [[0, 1]] ∧
      (BackpressureMode.dropOldest.kept 2 p.made).map Entry.id = [1, 2] := by
  decide +kernel

end Producer

end DumbDistributedLog.Ddl
