import DumbDistributedLog.Queue.Delivery

/-! # Cleanup of the subscribers

A notification collects the indices of the disconnected subscribers while it scans the
list and removes them under a second lock. Other notifications and subscriptions may come
in between. An index stays good as long as no subscriber has been removed since the scan.
-/

namespace DumbDistributedLog.Ddl

open Runs

/-- A notification between its scan and its removal, with the number of subscribers that
had been removed before the scan. -/
structure Scan where
  disconnectedIndices : List ℕ
  removed : ℕ
  deriving DecidableEq, Repr

/-- The subscribers of one topic, with the notifications under way by caller and the number
of subscribers removed so far. -/
structure Cleanup where
  subscribers : List SubscriberInfo
  scans : Table ℕ Scan
  removed : ℕ

inductive CleanupOp where
  | scan (caller : ℕ) (entry : Entry)
  | remove (caller : ℕ)
  | subscribe (joined : ℕ)
  | receive (subscriber : ℕ)
  | disconnect (subscriber : ℕ)
  deriving DecidableEq, Repr

def connections (infos : List SubscriberInfo) : List Bool :=
  infos.map fun info => info.sender.connected

def connectedOf (infos : List SubscriberInfo) : List SubscriberInfo :=
  infos.filter fun info => info.sender.connected

namespace Cleanup

def init : Cleanup := ⟨[], ∅, 0⟩

section Step

variable (config : DdlConfig) (topic : String) (c : Cleanup)

/-- The first half of a notification. It is not made while a subscriber has to be waited
for, and a subscriber that refuses the entry ends the notification. -/
def scan (caller : ℕ) (entry : Entry) : Cleanup :=
  match c.scans[caller]? with
  | some _ => c
  | none =>
    match offerAll config.subscriptionBackpressure topic entry 0 c.subscribers with
    | (_, _, .waits _) => c
    | (subscribers, _, .failed _) => { c with subscribers }
    | (subscribers, indices, .done) =>
      { c with subscribers, scans := c.scans.insert caller ⟨indices, c.removed⟩ }

def remove (caller : ℕ) : Cleanup :=
  match c.scans[caller]? with
  | none => c
  | some pending =>
    let subscribers := removeIndices c.subscribers pending.disconnectedIndices
    { subscribers
      scans := c.scans.erase caller
      removed := c.removed + (c.subscribers.length - subscribers.length) }

def subscribe (joined : ℕ) : Cleanup :=
  let sender : Channel := ⟨config.subscriptionBufferSize, [], 0, true⟩
  { c with subscribers := c.subscribers ++ [⟨sender, joined⟩] }

def modifySender (subscriber : ℕ) (f : Channel → Channel) : Cleanup :=
  { c with subscribers :=
      c.subscribers.modify subscriber fun info => { info with sender := f info.sender } }

def step : CleanupOp → Cleanup
  | .scan caller entry => c.scan config topic caller entry
  | .remove caller => c.remove caller
  | .subscribe joined => c.subscribe config joined
  | .receive subscriber => c.modifySender subscriber Channel.receive
  | .disconnect subscriber => c.modifySender subscriber Channel.disconnect

/-- A removal keeps the connected subscribers, and no other step removes anyone. -/
def Spares : CleanupOp → Prop
  | .remove caller => connectedOf (c.remove caller).subscribers = connectedOf c.subscribers
  | op => c.subscribers.length ≤ (c.step config topic op).subscribers.length

/-- No subscriber has been removed between the two halves of a notification. -/
def Undisturbed : CleanupOp → Prop
  | .remove caller => ∀ pending ∈ c.scans[caller]?, pending.removed = c.removed
  | _ => True

instance : ∀ c op, Decidable (Undisturbed c op)
  | c, .remove caller => inferInstanceAs (Decidable
      (∀ pending ∈ c.scans[caller]?, pending.removed = c.removed))
  | _, .scan _ _ | _, .subscribe _ | _, .receive _ | _, .disconnect _ => .isTrue trivial

end Step

end Cleanup

section Removal

variable {infos : List SubscriberInfo} {indices : List ℕ}

theorem filter_eraseIdx {α : Type*} {p : α → Bool} {as : List α} {i : ℕ}
    (h : ∀ a, as[i]? = some a → p a = false) : (as.eraseIdx i).filter p = as.filter p := by
  induction as generalizing i with
  | nil => rfl
  | cons a as ih =>
    cases i with
    | zero => simp [h a rfl]
    | succ i =>
      have htail : (as.eraseIdx i).filter p = as.filter p := ih fun b hb => h b (by simpa using hb)
      rw [List.eraseIdx_cons_succ, List.filter_cons, List.filter_cons, htail]

theorem connectedOf_foldl_eraseIdx (hdesc : indices.Pairwise (· > ·))
    (h : ∀ i ∈ indices, (connections infos)[i]? = some false) :
    connectedOf (indices.foldl
      (fun infos idx => if idx < infos.length then infos.eraseIdx idx else infos) infos) =
      connectedOf infos := by
  induction indices generalizing infos with
  | nil => rfl
  | cons idx indices ih =>
    obtain ⟨hlt, hdesc⟩ := List.pairwise_cons.mp hdesc
    obtain ⟨hidx, hindices⟩ := List.forall_mem_cons.mp h
    have hflag : ∀ info, infos[idx]? = some info → info.sender.connected = false := by
      intro info hinfo
      simpa [connections, hinfo] using hidx
    have hbound : idx < infos.length := by
      by_contra hge
      simp [connections, List.getElem?_eq_none (Nat.le_of_not_lt hge)] at hidx
    rw [List.foldl_cons, if_pos hbound, ih hdesc fun i hi => ?_]
    · exact filter_eraseIdx hflag
    · have hsame : (infos.eraseIdx idx)[i]? = infos[i]? := List.getElem?_eraseIdx_of_lt (hlt i hi)
      have hi := hindices i hi
      simp only [connections, List.getElem?_map] at hi ⊢
      rwa [hsame]

theorem connectedOf_removeIndices (hnodup : indices.Nodup)
    (h : ∀ i ∈ indices, (connections infos)[i]? = some false) :
    connectedOf (removeIndices infos indices) = connectedOf infos := by
  have hperm := List.perm_insertionSort (· ≥ ·) indices
  refine connectedOf_foldl_eraseIdx ?_ fun i hi => h i (hperm.mem_iff.mp hi)
  have hsorted := List.pairwise_insertionSort (· ≥ ·) indices
  refine (hsorted.and (hperm.nodup_iff.mpr hnodup)).imp ?_
  rintro a b ⟨hge, hne⟩
  exact Nat.lt_of_le_of_ne hge (Ne.symm hne)

end Removal

section Scanning

variable {mode : BackpressureMode} {topic : String} {entry : Entry} {idx : ℕ}
  {infos offered : List SubscriberInfo}

theorem connections_of_offered
    (h : List.Forall₂ (SubscriberInfo.Offered entry) infos offered) :
    connections offered = connections infos := by
  unfold connections
  induction h with
  | nil => rfl
  | cons hinfo _ ih => rw [List.map_cons, List.map_cons, hinfo.connected, ih]

theorem connections_of_mem_indicesFrom {i : ℕ}
    (h : i ∈ indicesFrom (SubscriberInfo.gone mode) idx infos) :
    (connections infos)[i - idx]? = some false := by
  induction infos generalizing idx with
  | nil => exact absurd h (by simp [indicesFrom])
  | cons info infos ih =>
    have hlater : i ∈ indicesFrom (SubscriberInfo.gone mode) (idx + 1) infos →
        (connections (info :: infos))[i - idx]? = some false := by
      intro hmem
      have hle := le_of_mem_indicesFrom hmem
      have hsucc : i - idx = i - (idx + 1) + 1 := by omega
      rw [hsucc]
      exact ih hmem
    rw [indicesFrom] at h
    split at h
    · rename_i hgone
      rcases List.mem_cons.mp h with rfl | hmem
      · have hc : info.sender.connected = false := by
          simpa using (Bool.and_eq_true_iff.mp hgone).1
        simp [connections, hc]
      · exact hlater hmem
    · exact hlater h

end Scanning

/-- The indices of a notification name disconnected subscribers, each once. -/
structure Scan.Good (infos : List SubscriberInfo) (pending : Scan) : Prop where
  nodup : pending.disconnectedIndices.Nodup
  disconnected : ∀ i ∈ pending.disconnectedIndices, (connections infos)[i]? = some false

namespace Cleanup

variable {config : DdlConfig} {topic : String} {c : Cleanup}

/-- The indices of every notification since whose scan nobody has been removed are good. -/
structure Sound (c : Cleanup) : Prop where
  before : ∀ {caller : ℕ} {pending : Scan}, c.scans[caller]? = some pending →
    pending.removed ≤ c.removed
  good : ∀ {caller : ℕ} {pending : Scan}, c.scans[caller]? = some pending →
    pending.removed = c.removed → pending.Good c.subscribers

namespace Sound

theorem init : Sound .init where
  before h := by simp [Cleanup.init] at h
  good h := by simp [Cleanup.init] at h

theorem withSubscribers (h : Sound c) {subscribers : List SubscriberInfo}
    (hflags : ∀ i : ℕ, (connections c.subscribers)[i]? = some false →
      (connections subscribers)[i]? = some false) : Sound { c with subscribers } := by
  refine ⟨h.before, fun hpending hremoved => ?_⟩
  obtain ⟨hnodup, hdisconnected⟩ := h.good hpending hremoved
  exact ⟨hnodup, fun i hi => hflags i (hdisconnected i hi)⟩

theorem scan (h : Sound c) (caller : ℕ) (entry : Entry) :
    Sound (c.scan config topic caller entry) := by
  have hscan := scanned_offerAll config.subscriptionBackpressure topic entry 0 c.subscribers
  have hflags := connections_of_offered hscan.offered
  unfold Cleanup.scan
  split
  · exact h
  · split
    · exact h
    · rename_i subscribers _ hoffer
      rw [hoffer] at hflags
      exact h.withSubscribers fun i hi => by rwa [hflags]
    · rename_i subscribers indices hoffer
      rw [hoffer] at hscan hflags
      have hkept : Sound { c with subscribers } := h.withSubscribers fun i hi => by rwa [hflags]
      constructor
      · intro caller' pending hpending
        rw [Table.get_insert] at hpending
        split at hpending
        · obtain rfl := Option.some.inj hpending
          exact le_rfl
        · exact hkept.before hpending
      · intro caller' pending hpending hremoved
        rw [Table.get_insert] at hpending
        split at hpending
        · obtain rfl := Option.some.inj hpending
          obtain rfl : indices = _ := hscan.indices rfl
          refine ⟨(sorted_indicesFrom _ 0 _).imp Nat.ne_of_lt, fun i hi => ?_⟩
          rw [hflags]
          exact connections_of_mem_indicesFrom hi
        · exact hkept.good hpending hremoved

/-- If a removal does not shorten the list it leaves it alone, and otherwise no other
notification is left whose indices are still trusted. -/
theorem remove (h : Sound c) (caller : ℕ) : Sound (c.remove caller) := by
  unfold Cleanup.remove
  split
  · exact h
  · rename_i pending _
    have hsub : (removeIndices c.subscribers pending.disconnectedIndices).Sublist c.subscribers :=
      removeIndices_sublist
    constructor
    · intro caller' other hother
      have := h.before ((Table.get_erase_eq_some _).mp hother).2
      exact Nat.le_add_right_of_le this
    · intro caller' other hother hremoved
      obtain ⟨-, hother⟩ := (Table.get_erase_eq_some _).mp hother
      have hle := h.before hother
      have hlength := hsub.length_le
      simp only at hremoved
      have hsame := hsub.eq_of_length (by omega)
      simp only [hsame]
      exact h.good hother (by omega)

theorem subscribe (h : Sound c) (joined : ℕ) : Sound (c.subscribe config joined) := by
  refine h.withSubscribers fun i hi => ?_
  rw [connections, List.map_append]
  exact List.getElem?_append_left (List.getElem?_eq_some_iff.mp hi).1 ▸ hi

theorem modifySender (h : Sound c) (subscriber : ℕ) {f : Channel → Channel}
    (hconnected : ∀ sender, sender.connected = false → (f sender).connected = false) :
    Sound (c.modifySender subscriber f) := by
  refine h.withSubscribers fun i hi => ?_
  rw [connections, List.getElem?_map] at hi ⊢
  obtain ⟨info, hinfo, hflag⟩ := Option.map_eq_some_iff.mp hi
  rw [List.getElem?_modify, hinfo]
  refine congrArg some ?_
  dsimp only
  split
  · exact hconnected _ hflag
  · exact hflag

theorem step (h : Sound c) (op : CleanupOp) : Sound (c.step config topic op) := by
  cases op with
  | scan caller entry => exact h.scan caller entry
  | remove caller => exact h.remove caller
  | subscribe joined => exact h.subscribe joined
  | receive subscriber =>
    refine h.modifySender subscriber fun sender hc => ?_
    unfold Channel.receive
    split <;> exact hc
  | disconnect subscriber => exact h.modifySender subscriber fun _ _ => rfl

end Sound

theorem length_scan (c : Cleanup) (caller : ℕ) (entry : Entry) :
    (c.scan config topic caller entry).subscribers.length = c.subscribers.length := by
  have hoffered :=
    (scanned_offerAll config.subscriptionBackpressure topic entry 0 c.subscribers).offered
  unfold Cleanup.scan
  split
  · rfl
  · split
    · rfl
    · rename_i hoffer
      rw [hoffer] at hoffered
      exact hoffered.length_eq.symm
    · rename_i hoffer
      rw [hoffer] at hoffered
      exact hoffered.length_eq.symm

theorem remove_scan {caller : ℕ} (hidle : c.scans[caller]? = none) (entry : Entry) :
    ((c.scan config topic caller entry).remove caller).subscribers =
      ((notifySubscribers config.subscriptionBackpressure topic entry c.subscribers).map
        Prod.fst).getD c.subscribers := by
  rw [Cleanup.scan, hidle, notifySubscribers]
  rcases offerAll config.subscriptionBackpressure topic entry 0 c.subscribers with
    ⟨subscribers, indices, _ | _ | _⟩
  · simp [Cleanup.remove]
  · simp [Cleanup.remove, hidle]
  · simp [Cleanup.remove, hidle]

theorem Sound.spares (h : Sound c) {op : CleanupOp} (hop : c.Undisturbed op) :
    c.Spares config topic op := by
  cases op with
  | remove caller =>
    change connectedOf (c.remove caller).subscribers = connectedOf c.subscribers
    unfold Cleanup.remove
    split
    · rfl
    · rename_i pending hpending
      obtain ⟨hnodup, hdisconnected⟩ := h.good hpending (hop pending hpending)
      exact connectedOf_removeIndices hnodup hdisconnected
  | scan caller entry => exact (length_scan c caller entry).ge
  | subscribe joined => simp [Spares, Cleanup.step, Cleanup.subscribe]
  | receive subscriber => simp [Spares, Cleanup.step, Cleanup.modifySender]
  | disconnect subscriber => simp [Spares, Cleanup.step, Cleanup.modifySender]

/-- In every interleaving in which nobody is removed between the two halves of a
notification, the connected subscribers stay. -/
theorem cleanup_spares_connected (config : DdlConfig) (topic : String) (ops : List CleanupOp)
    (h : Along (step config topic) Undisturbed .init ops) :
    Along (step config topic) (Spares config topic) .init ops :=
  h.strengthen (fun _ op hc hop => ⟨hc.step op, hc.spares hop⟩) Sound.init

theorem cleanup_spares_connected_of_turns :
    Along (step ⟨4, 8, .block⟩ "t") (Spares ⟨4, 8, .block⟩ "t") .init
      [.subscribe 0, .subscribe 0, .disconnect 0, .scan 0 ⟨0, 10, "t", [1]⟩, .subscribe 1,
        .remove 0, .scan 0 ⟨1, 11, "t", [2]⟩, .scan 1 ⟨2, 12, "t", [3]⟩, .remove 1, .remove 0] :=
  cleanup_spares_connected ⟨4, 8, .block⟩ "t" _ (by decide +kernel)

/-- Two notifications find the same subscriber gone, and the second one removes the next in
the list. -/
theorem overlapping_cleanups_remove_connected :
    let config : DdlConfig := ⟨4, 8, .block⟩
    let entry : Entry := ⟨0, 10, "t", [1]⟩
    let ops : List CleanupOp :=
      [.subscribe 0, .subscribe 0, .disconnect 0, .scan 0 entry, .scan 1 entry, .remove 0]
    let c := exec (step config "t") .init ops
    connections c.subscribers = [true] ∧ (c.remove 1).subscribers = [] ∧
      ¬ Along (step config "t") (Spares config "t") .init (ops ++ [.remove 1]) := by
  intro config entry ops c
  have hbefore : connections c.subscribers = [true] := by decide +kernel
  have hafter : (c.remove 1).subscribers = [] := by decide +kernel
  refine ⟨hbefore, hafter, fun h => ?_⟩
  have hspares : connectedOf (c.remove 1).subscribers = connectedOf c.subscribers :=
    (along_append.mp h).2.1
  obtain ⟨info, hinfo, hconnected⟩ := List.map_eq_singleton_iff.mp hbefore
  rw [hafter, hinfo] at hspares
  simp [connectedOf, hconnected] at hspares

end Cleanup

end DumbDistributedLog.Ddl
