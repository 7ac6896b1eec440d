import DumbDistributedLog.Queue.TopicQueue
import Mathlib.Data.List.Sort

/-! # Subscribers

Every subscriber of a topic has a bounded channel. A notification offers the entry to
the channels one after the other and then removes those whose receivers are gone. What
a full channel does to the notification depends on the backpressure mode.
-/

namespace DumbDistributedLog.Ddl

inductive BackpressureMode where
  | block
  | dropOldest
  | dropNewest
  | error
  deriving DecidableEq, Repr

/-- A bounded channel, with all the entries that were ever sent on it and the number of
them that were received. -/
structure Channel where
  capacity : ℕ
  sent : List Entry
  received : ℕ
  connected : Bool
  deriving DecidableEq, Repr

inductive TrySendError where
  | full
  | disconnected
  deriving DecidableEq, Repr

namespace Channel

variable (c : Channel)

/-- The two ends of a channel stay where they are when its receiver goes away. -/
def isFull : Bool := decide (c.capacity ≤ c.sent.length - c.received)

def deliver (entry : Entry) : Channel := { c with sent := c.sent ++ [entry] }

def trySend (entry : Entry) : Except TrySendError Channel :=
  if !c.connected then .error .disconnected
  else if c.isFull then .error .full
  else .ok (c.deliver entry)

end Channel

/-- A subscriber, with the position of the queue when the subscription was made. -/
structure SubscriberInfo where
  sender : Channel
  joined : ℕ
  deriving DecidableEq, Repr

inductive Offer where
  | sent (sender : Channel)
  | dropped
  | disconnected
  | refused
  | waits
  deriving DecidableEq, Repr

def Offer.ofTrySend : Except TrySendError Channel → Offer
  | .ok sender => .sent sender
  | .error .full => .dropped
  | .error .disconnected => .disconnected

/-- Despite its name, the mode that drops the oldest entries drops the entry at hand. The two modes
that ask first whether the channel is full do not find out that a receiver has left it so. -/
def offer (mode : BackpressureMode) (entry : Entry) (sender : Channel) : Offer :=
  match mode with
  | .block =>
    if !sender.connected then .disconnected
    else if sender.isFull then .waits
    else .sent (sender.deliver entry)
  | .dropOldest => .ofTrySend (sender.trySend entry)
  | .dropNewest => if sender.isFull then .dropped else .ofTrySend (sender.trySend entry)
  | .error => if sender.isFull then .refused else .ofTrySend (sender.trySend entry)

/-- How the loop over the subscribers ends: at the end of the list, with an error at one that
refuses the entry, or for the time being at one that has to be waited for. -/
inductive LoopEnd where
  | done
  | failed (e : DdlError)
  | waits (subscriber : ℕ)
  deriving DecidableEq, Repr

/-- The loop over the subscribers from the given index on, with the indices of those that it finds
disconnected. -/
def offerAll (mode : BackpressureMode) (topic : String) (entry : Entry) :
    ℕ → List SubscriberInfo → List SubscriberInfo × List ℕ × LoopEnd
  | _, [] => ([], [], .done)
  | idx, info :: infos =>
    match offer mode entry info.sender with
    | .waits => (info :: infos, [], .waits idx)
    | .refused => (info :: infos, [], .failed (.subscriberBufferFull topic))
    | .sent sender =>
      let (rest, indices, ended) := offerAll mode topic entry (idx + 1) infos
      ({ info with sender } :: rest, indices, ended)
    | .dropped =>
      let (rest, indices, ended) := offerAll mode topic entry (idx + 1) infos
      (info :: rest, indices, ended)
    | .disconnected =>
      let (rest, indices, ended) := offerAll mode topic entry (idx + 1) infos
      (info :: rest, idx :: indices, ended)

/-- Remove the indices, the greatest first, so that the others stay valid. -/
def removeIndices (infos : List SubscriberInfo) (indices : List ℕ) : List SubscriberInfo :=
  (indices.insertionSort (· ≥ ·)).foldl
    (fun infos idx => if idx < infos.length then infos.eraseIdx idx else infos) infos

/-- A notification that nothing comes between. There is no result while it has to wait. -/
def notifySubscribers (mode : BackpressureMode) (topic : String) (entry : Entry)
    (infos : List SubscriberInfo) : Option (List SubscriberInfo × Except DdlError Unit) :=
  match offerAll mode topic entry 0 infos with
  | (offered, _, .failed e) => some (offered, .error e)
  | (offered, indices, .done) => some (removeIndices offered indices, .ok ())
  | (_, _, .waits _) => none

variable {mode : BackpressureMode} {topic : String} {entry : Entry} {infos : List SubscriberInfo}

def SubscriberInfo.deliver (entry : Entry) (info : SubscriberInfo) : SubscriberInfo :=
  if info.sender.connected then { info with sender := info.sender.deliver entry } else info

theorem removeIndices_sublist {indices : List ℕ} : (removeIndices infos indices).Sublist infos := by
  unfold removeIndices
  generalize indices.insertionSort (· ≥ ·) = order
  induction order generalizing infos with
  | nil => exact List.Sublist.refl _
  | cons idx order ih =>
    rw [List.foldl_cons]
    split
    · exact ih.trans (List.eraseIdx_sublist _ _)
    · exact ih

section Indices

variable {p : SubscriberInfo → Bool}

def indicesFrom (p : SubscriberInfo → Bool) : ℕ → List SubscriberInfo → List ℕ
  | _, [] => []
  | idx, info :: infos =>
    if p info then idx :: indicesFrom p (idx + 1) infos else indicesFrom p (idx + 1) infos

theorem le_of_mem_indicesFrom {idx i : ℕ} (h : i ∈ indicesFrom p idx infos) : idx ≤ i := by
  induction infos generalizing idx with
  | nil => simp [indicesFrom] at h
  | cons info infos ih =>
    rw [indicesFrom] at h
    split at h
    · rcases List.mem_cons.mp h with rfl | hmem
      · exact le_rfl
      · have := ih hmem
        omega
    · have := ih h
      omega

theorem sorted_indicesFrom (p : SubscriberInfo → Bool) (idx : ℕ) (infos : List SubscriberInfo) :
    (indicesFrom p idx infos).Pairwise (· < ·) := by
  induction infos generalizing idx with
  | nil => exact List.Pairwise.nil
  | cons info infos ih =>
    rw [indicesFrom]
    split
    · refine List.pairwise_cons.mpr ⟨fun i hi => ?_, ih (idx + 1)⟩
      have := le_of_mem_indicesFrom hi
      omega
    · exact ih (idx + 1)

theorem foldr_indicesFrom (kept infos : List SubscriberInfo) :
    (indicesFrom p kept.length infos).foldr
        (fun idx infos => if idx < infos.length then infos.eraseIdx idx else infos)
        (kept ++ infos) =
      kept ++ infos.filter fun info => !p info := by
  induction infos generalizing kept with
  | nil => rfl
  | cons info infos ih =>
    have hnext := ih (kept ++ [info])
    rw [List.length_append, List.length_singleton, List.append_assoc, List.singleton_append]
      at hnext
    rw [indicesFrom]
    split
    · rename_i hp
      rw [List.foldr_cons, hnext, List.filter_cons_of_neg (by simp [hp]), if_pos (by simp),
        List.append_assoc, List.eraseIdx_append_of_length_le le_rfl, Nat.sub_self]
      rfl
    · rename_i hp
      rw [hnext, List.filter_cons_of_pos (by simpa using hp), List.append_assoc,
        List.singleton_append]

theorem removeIndices_indicesFrom (p : SubscriberInfo → Bool) (infos : List SubscriberInfo) :
    removeIndices infos (indicesFrom p 0 infos) = infos.filter fun info => !p info := by
  have hsort : (indicesFrom p 0 infos).insertionSort (· ≥ ·) = (indicesFrom p 0 infos).reverse := by
    have hperm := (List.perm_insertionSort (· ≥ ·) (indicesFrom p 0 infos)).trans
      (List.reverse_perm _).symm
    exact hperm.eq_of_pairwise' (List.pairwise_insertionSort _ _)
      (List.pairwise_reverse.mpr ((sorted_indicesFrom p 0 infos).imp Nat.le_of_lt))
  rw [removeIndices, hsort, List.foldl_reverse]
  exact foldr_indicesFrom [] infos

theorem indicesFrom_map {f : SubscriberInfo → SubscriberInfo} (hf : ∀ info, p (f info) = p info)
    (idx : ℕ) : indicesFrom p idx (infos.map f) = indicesFrom p idx infos := by
  induction infos generalizing idx with
  | nil => rfl
  | cons info infos ih => rw [List.map_cons, indicesFrom, indicesFrom, ih, hf]

end Indices

def SubscriberInfo.gone (mode : BackpressureMode) (info : SubscriberInfo) : Bool :=
  !info.sender.connected && (mode == .block || mode == .dropOldest || !info.sender.isFull)

section NotFull

theorem offer_of_not_full {sender : Channel} (h : sender.isFull = false) :
    offer mode entry sender =
      if sender.connected then .sent (sender.deliver entry) else .disconnected := by
  cases hc : sender.connected <;> cases mode <;>
    simp [offer, Channel.trySend, Offer.ofTrySend, h, hc]

theorem offerAll_of_not_full (h : ∀ info ∈ infos, info.sender.isFull = false) (idx : ℕ) :
    offerAll mode topic entry idx infos =
      (infos.map (.deliver entry), indicesFrom (fun info => !info.sender.connected) idx infos,
        .done) := by
  induction infos generalizing idx with
  | nil => rfl
  | cons info infos ih =>
    obtain ⟨hinfo, hinfos⟩ := List.forall_mem_cons.mp h
    rw [offerAll, offer_of_not_full hinfo, ih hinfos]
    cases hc : info.sender.connected <;> simp [indicesFrom, SubscriberInfo.deliver, hc]

theorem SubscriberInfo.connected_deliver (info : SubscriberInfo) :
    (info.deliver entry).sender.connected = info.sender.connected := by
  unfold SubscriberInfo.deliver
  split <;> rfl

theorem notifySubscribers_of_not_full (h : ∀ info ∈ infos, info.sender.isFull = false) :
    notifySubscribers mode topic entry infos = some
      ((infos.map (.deliver entry)).filter (fun info => info.sender.connected), .ok ()) := by
  have hremove := removeIndices_indicesFrom (fun info => !info.sender.connected)
    (infos.map (.deliver entry))
  rw [indicesFrom_map fun info => by rw [SubscriberInfo.connected_deliver]] at hremove
  simp only [notifySubscribers, offerAll_of_not_full h, hremove, Bool.not_not]

end NotFull

section Offers

variable {idx : ℕ}

theorem offer_cases (mode : BackpressureMode) (entry : Entry) (info : SubscriberInfo) :
    (offer mode entry info.sender = .sent (info.sender.deliver entry) ∧
      info.sender.connected = true ∧ info.sender.isFull = false) ∨
    (offer mode entry info.sender = .dropped ∧ info.sender.isFull = true ∧
      info.gone mode = false ∧ mode ≠ .error ∧ mode ≠ .block) ∨
    (offer mode entry info.sender = .disconnected ∧ info.gone mode = true ∧
      (mode = .error → info.sender.isFull = false)) ∨
    (offer mode entry info.sender = .refused ∧ mode = .error ∧ info.sender.isFull = true) ∨
    (offer mode entry info.sender = .waits ∧ mode = .block ∧ info.sender.connected = true ∧
      info.sender.isFull = true) := by
  cases mode <;> cases hc : info.sender.connected <;> cases hf : info.sender.isFull <;>
    simp [offer, Channel.trySend, Offer.ofTrySend, SubscriberInfo.gone, hc, hf]

structure SubscriberInfo.Offered (entry : Entry) (info info' : SubscriberInfo) : Prop where
  connected : info'.sender.connected = info.sender.connected
  sent : info'.sender.sent = info.sender.sent ∨ info'.sender.sent = info.sender.sent ++ [entry]

theorem SubscriberInfo.Offered.refl (entry : Entry) (info : SubscriberInfo) :
    info.Offered entry info := ⟨rfl, .inl rfl⟩

theorem SubscriberInfo.Offered.mem_sent {info info' : SubscriberInfo} {e : Entry}
    (h : info.Offered entry info') (he : e ∈ info'.sender.sent) :
    e ∈ info.sender.sent ∨ e = entry := by
  rcases h.sent with hsame | hmore
  · exact .inl (hsame ▸ he)
  · rw [hmore] at he
    simpa using he

theorem SubscriberInfo.Offered.exists_of_mem {infos' : List SubscriberInfo}
    (h : List.Forall₂ (SubscriberInfo.Offered entry) infos infos') {info' : SubscriberInfo}
    (hmem : info' ∈ infos') : ∃ info ∈ infos, info.Offered entry info' := by
  induction h with
  | nil => cases hmem
  | cons hoffered _ ih =>
    rcases List.mem_cons.mp hmem with rfl | hrest
    · exact ⟨_, List.mem_cons_self, hoffered⟩
    · obtain ⟨info, hinfo, hoffered'⟩ := ih hrest
      exact ⟨info, List.mem_cons_of_mem _ hinfo, hoffered'⟩

def AnyFull (infos : List SubscriberInfo) : Prop := ∃ info ∈ infos, info.sender.isFull = true

def AnyBusy (infos : List SubscriberInfo) : Prop :=
  ∃ info ∈ infos, info.sender.connected = true ∧ info.sender.isFull = true

instance (infos : List SubscriberInfo) : Decidable (AnyFull infos) :=
  inferInstanceAs (Decidable (∃ info ∈ infos, info.sender.isFull = true))

instance (infos : List SubscriberInfo) : Decidable (AnyBusy infos) :=
  inferInstanceAs (Decidable (∃ info ∈ infos, _ ∧ _))

theorem anyFull_cons {info : SubscriberInfo} :
    AnyFull (info :: infos) ↔ info.sender.isFull = true ∨ AnyFull infos := by
  simp [AnyFull]

theorem anyBusy_cons {info : SubscriberInfo} : AnyBusy (info :: infos) ↔
    info.sender.connected = true ∧ info.sender.isFull = true ∨ AnyBusy infos := by
  simp [AnyBusy]

structure Scanned (mode : BackpressureMode) (topic : String) (entry : Entry) (idx : ℕ)
    (infos : List SubscriberInfo) (loop : List SubscriberInfo × List ℕ × LoopEnd) : Prop where
  offered : List.Forall₂ (SubscriberInfo.Offered entry) infos loop.1
  indices : loop.2.2 = .done → loop.2.1 = indicesFrom (SubscriberInfo.gone mode) idx infos
  failed : ∀ e, loop.2.2 = .failed e ↔
    e = .subscriberBufferFull topic ∧ mode = .error ∧ AnyFull infos
  waits : (∃ subscriber, loop.2.2 = .waits subscriber) ↔ mode = .block ∧ AnyBusy infos

theorem Scanned.cons {info info' : SubscriberInfo} {rest : List SubscriberInfo}
    {indices : List ℕ} {ended : LoopEnd}
    (h : Scanned mode topic entry (idx + 1) infos (rest, indices, ended)) (more : List ℕ)
    (hinfo : info.Offered entry info')
    (hmore : indicesFrom (SubscriberInfo.gone mode) idx (info :: infos) =
      more ++ indicesFrom (SubscriberInfo.gone mode) (idx + 1) infos)
    (hfull : ¬ (mode = .error ∧ info.sender.isFull = true))
    (hbusy : ¬ (mode = .block ∧ info.sender.connected = true ∧ info.sender.isFull = true)) :
    Scanned mode topic entry idx (info :: infos) (info' :: rest, more ++ indices, ended) where
  offered := .cons hinfo h.offered
  indices hdone := by
    rw [hmore, ← h.indices hdone]
  failed e := by
    rw [h.failed, anyFull_cons]
    exact and_congr_right fun _ => and_congr_right fun hmode =>
      (or_iff_right fun hhere => hfull ⟨hmode, hhere⟩).symm
  waits := by
    rw [h.waits, anyBusy_cons]
    exact and_congr_right fun hmode => (or_iff_right fun hhere => hbusy ⟨hmode, hhere⟩).symm

theorem scanned_offerAll (mode : BackpressureMode) (topic : String) (entry : Entry) (idx : ℕ)
    (infos : List SubscriberInfo) :
    Scanned mode topic entry idx infos (offerAll mode topic entry idx infos) := by
  induction infos generalizing idx with
  | nil => exact ⟨.nil, fun _ => rfl, by simp [offerAll, AnyFull], by simp [offerAll, AnyBusy]⟩
  | cons info infos ih =>
    have hsame : List.Forall₂ (SubscriberInfo.Offered entry) (info :: infos) (info :: infos) :=
      List.forall₂_same.mpr fun info _ => .refl entry info
    rw [offerAll]
    rcases offer_cases mode entry info with ⟨heq, hc, hfull⟩ | ⟨heq, hfull, hgone, hmode⟩ |
      ⟨heq, hgone, hfull⟩ | ⟨heq, rfl, hfull⟩ | ⟨heq, rfl, hc, hfull⟩ <;> rw [heq]
    · refine (ih (idx + 1)).cons [] ⟨rfl, .inr rfl⟩ ?_ (by simp [hfull]) (by simp [hfull])
      simp [indicesFrom, SubscriberInfo.gone, hc]
    · refine (ih (idx + 1)).cons [] (.refl entry info) ?_ (by simp [hmode]) (by simp [hmode])
      simp [indicesFrom, hgone]
    · refine (ih (idx + 1)).cons [idx] (.refl entry info) ?_ ?_ ?_
      · simp [indicesFrom, hgone]
      · rintro ⟨hmode, hhere⟩
        rw [hfull hmode] at hhere
        cases hhere
      · rintro ⟨-, hc, -⟩
        simp [SubscriberInfo.gone, hc] at hgone
    · exact ⟨hsame, by simp, by simp [anyFull_cons, hfull, eq_comm], by simp⟩
    · exact ⟨hsame, by simp, by simp, by simp [anyBusy_cons, hc, hfull]⟩

end Offers

end DumbDistributedLog.Ddl
