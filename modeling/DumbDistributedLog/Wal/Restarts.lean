import DumbDistributedLog.Wal.Durable

/-! # Ids across restarts

The queues of a log that is made again start with the first id, whatever is on disk. The
ids in a file increase exactly if a topic only writes to a file that is its own since the
log was made.
-/

namespace DumbDistributedLog.Ddl.Wal

open Runs

namespace DdlWithWal

variable (json : Codec Entry) (d : DdlWithWal)

def Increasing : Prop := ∀ dir, ((d.disk.entries json dir).map Entry.id).Pairwise (· < ·)

def Succeeds : WalOp → Prop
  | .push topic payload now later outcome =>
    (d.push json topic payload now later outcome).2.any Except.isOk
  | _ => True

/-- What is in the file of the topic was written under this topic since the log was made. -/
def Owns (topic : String) : Prop :=
  d.opened.entries json (replaceUnsafe topic) = [] ∧
    ∀ e ∈ d.disk.entries json (replaceUnsafe topic), e.topic = topic

/-- A topic writes only to a file of its own. -/
def WritesOwn : WalOp → Prop
  | .push topic _ _ _ _ => d.Owns json topic
  | _ => True

instance : ∀ d op, Decidable (Succeeds json d op)
  | d, .push topic payload now later outcome => inferInstanceAs (Decidable
      ((d.push json topic payload now later outcome).2.any Except.isOk = true))
  | _, .resume _ _ _ | _, .subscribe _ | _, .ack _ _ | _, .receive _ _ | _, .disconnect _ _
  | _, .restart _ => .isTrue trivial

instance (topic : String) : Decidable (d.Owns json topic) :=
  inferInstanceAs (Decidable (_ ∧ ∀ e ∈ d.disk.entries json (replaceUnsafe topic), e.topic = topic))

instance : ∀ d op, Decidable (WritesOwn json d op)
  | d, .push topic _ _ _ _ => inferInstanceAs (Decidable (d.Owns json topic))
  | _, .resume _ _ _ | _, .subscribe _ | _, .ack _ _ | _, .receive _ _ | _, .disconnect _ _
  | _, .restart _ => .isTrue trivial

/-- The ids that were written since the log was made have been given out, a topic that has given
out an id owns its file, and no push waits. -/
structure Exclusive : Prop where
  retained : d.Extends json
  returned : d.inner.waiting = []
  given : ∀ dir, ∀ e ∈ d.sinceOpened json dir, e.id.toNat < d.inner.written e.topic
  owned : ∀ topic, d.inner.written topic ≠ 0 →
    d.Owns json topic ∧ d.disk.entries json (replaceUnsafe topic) ≠ []

variable {json d} {topic : String} {payload : List UInt8} {now later : UInt64}
  {outcome : Except WalError Unit}

def afterPush (json : Codec Entry) (d : DdlWithWal) (topic : String) (payload : List UInt8)
    (later : UInt64) (inner : DdlDistributed) : DdlWithWal :=
  { d with
    inner
    disk := (d.disk.append json topic ⟨(d.inner.queue topic).writePos, later, topic, payload⟩
      (.ok ())).1 }

theorem push_of_succeeds (h : d.Succeeds json (.push topic payload now later outcome)) :
    validateTopic topic = .ok () ∧ ∃ inner,
      (d.push json topic payload now later outcome).1 =
        afterPush json d topic payload later inner ∧
      inner.waiting = d.inner.waiting ∧
      ∀ t, inner.written t = if topic = t then d.inner.written t + 1 else d.inner.written t := by
  rw [Succeeds, push] at h
  rw [push]
  by_cases haccepts : d.inner.Accepts topic
  · obtain ⟨inner, result, heq, hmade, hends⟩ :=
      DdlDistributed.push_of_accepts haccepts payload now
    rw [heq] at h ⊢
    refine ⟨haccepts.1, inner, ?_⟩
    rcases hends with ⟨hwaiting, -⟩ | _ | _
    · refine ⟨?_, hwaiting, hmade.written⟩
      simp only [Option.map_some, Except.map, writeAhead, afterPush,
        Disk.append_of_valid haccepts.1] at h ⊢
      cases outcome with
      | error e => exact absurd h (by simp [Except.isOk, Except.toBool])
      | ok _ => rfl
    · exact absurd h (by simp [writeAhead, Except.map, Except.isOk, Except.toBool])
    · exact absurd h (by simp [writeAhead])
  · obtain ⟨inner, result, heq, hrefused⟩ :=
      DdlDistributed.push_of_not_accepts haccepts payload now
    rw [heq] at h
    rcases result with _ | e | id
    · exact absurd h (by simp [writeAhead])
    · exact absurd h (by simp [writeAhead, Except.isOk, Except.toBool])
    · exact absurd rfl (hrefused.result id)

namespace Exclusive

theorem new (config : StandaloneConfig) (disk : Disk) : Exclusive json (.new config disk) where
  retained _ := Nat.le_refl _
  returned := rfl
  given dir e he := absurd he (by simp [DdlWithWal.new, sinceOpened])
  owned topic h := absurd (DdlDistributed.written_newStandalone config topic) h

theorem withInner (h : d.Exclusive json) {inner : DdlDistributed}
    (hwaiting : inner.waiting = d.inner.waiting)
    (hwritten : ∀ t, inner.written t = d.inner.written t) : Exclusive json { d with inner } where
  retained := h.retained
  returned := hwaiting.trans h.returned
  given dir e he := by
    rw [hwritten]
    exact h.given dir e he
  owned topic hne := by
    rw [hwritten] at hne
    exact h.owned topic hne

theorem resume_eq (h : d.Exclusive json) (i : ℕ) (later : UInt64)
    (outcome : Except WalError Unit) : d.resume json i later outcome = (d, none) := by
  rw [resume, h.returned]
  rfl

theorem lt_written (h : d.Exclusive json) (howns : d.Owns json topic) :
    ∀ e ∈ d.disk.entries json (replaceUnsafe topic), e.id.toNat < d.inner.written topic := by
  intro e he
  have hsince : e ∈ d.sinceOpened json (replaceUnsafe topic) := by
    rw [sinceOpened, howns.1]
    exact he
  rw [← howns.2 e he]
  exact h.given _ e hsince

/-- A topic that does not own its file starts again with the first id, although there is
something in the file. -/
theorem restarts (h : d.Exclusive json) (howns : ¬ d.Owns json topic) :
    d.inner.written topic = 0 ∧ d.disk.entries json (replaceUnsafe topic) ≠ [] := by
  constructor
  · by_contra hne
    exact howns (h.owned topic hne).1
  · intro hnil
    have hretained := h.retained (replaceUnsafe topic)
    rw [hnil, List.length_nil, Nat.le_zero, List.length_eq_zero_iff] at hretained
    refine howns ⟨hretained, fun e he => ?_⟩
    rw [hnil] at he
    exact absurd he (by simp)

theorem entries_ne (h : d.Exclusive json) (howns : d.Owns json topic) {t : String}
    (ht : topic ≠ t) (hne : d.inner.written t ≠ 0) : replaceUnsafe topic ≠ replaceUnsafe t := by
  intro hfile
  obtain ⟨⟨-, hother⟩, hentries⟩ := h.owned t hne
  obtain ⟨e, he⟩ := List.exists_mem_of_ne_nil _ hentries
  exact ht ((howns.2 e (hfile ▸ he)).symm.trans (hother e he))

theorem logged (h : d.Exclusive json) (hvalid : validateTopic topic = .ok ())
    (howns : d.Owns json topic) {inner : DdlDistributed}
    (hwaiting : inner.waiting = d.inner.waiting)
    (hwritten : ∀ t, inner.written t =
      if topic = t then d.inner.written t + 1 else d.inner.written t)
    (payload : List UInt8) (later : UInt64) :
    Exclusive json (afterPush json d topic payload later inner) := by
  constructor
  · exact h.retained.append hvalid inner _
  · exact hwaiting.trans h.returned
  · intro dir e he
    have hmono : d.inner.written e.topic ≤ inner.written e.topic := by
      rw [hwritten]
      split <;> omega
    have hsince : e ∈ d.sinceOpened json dir ∨
        e = ⟨(d.inner.queue topic).writePos, later, topic, payload⟩ := by
      have hfile := sinceOpened_append h.retained hvalid inner
        ⟨(d.inner.queue topic).writePos, later, topic, payload⟩ dir
      rw [afterPush, hfile] at he
      split at he
      · simpa using he
      · exact .inl he
    rcases hsince with hold | rfl
    · exact Nat.lt_of_lt_of_le (h.given dir e hold) hmono
    · change (d.inner.queue topic).writePos.toNat < inner.written topic
      rw [hwritten, if_pos rfl]
      exact Nat.lt_succ_self _
  · intro t hne
    have hentries : ∀ dir, (afterPush json d topic payload later inner).disk.entries
        json dir = _ := Disk.entries_append hvalid
    rw [Owns, hentries]
    by_cases ht : topic = t
    · subst ht
      rw [if_pos rfl]
      refine ⟨⟨howns.1, fun e he => ?_⟩, by simp⟩
      rcases List.mem_append.mp he with hold | hnew
      · exact howns.2 e hold
      · rw [List.mem_singleton.mp hnew]
    · have hold : d.inner.written t ≠ 0 := by
        change inner.written t ≠ 0 at hne
        rwa [hwritten, if_neg ht] at hne
      rw [if_neg (h.entries_ne howns ht hold)]
      exact h.owned t hold

end Exclusive

theorem Increasing.logged_iff (h : d.Increasing json) (hexclusive : d.Exclusive json)
    (hvalid : validateTopic topic = .ok ()) (inner : DdlDistributed) (payload : List UInt8)
    (later : UInt64) :
    Increasing json (afterPush json d topic payload later inner) ↔
      d.Owns json topic := by
  have hentries : ∀ dir, (afterPush json d topic payload later inner).disk.entries
      json dir = _ := Disk.entries_append hvalid
  have hid : (d.inner.queue topic).writePos.toNat = d.inner.written topic := rfl
  constructor
  · intro h'
    by_contra howns
    obtain ⟨hzero, hne⟩ := hexclusive.restarts howns
    obtain ⟨e, he⟩ := List.exists_mem_of_ne_nil _ hne
    have hfile := h' (replaceUnsafe topic)
    rw [hentries, if_pos rfl, List.map_append, List.pairwise_append] at hfile
    have hlt := UInt64.lt_iff_toNat_lt.mp
      (hfile.2.2 e.id (List.mem_map_of_mem he) _ (List.mem_singleton_self _))
    rw [hid, hzero] at hlt
    exact Nat.not_lt_zero _ hlt
  · intro howns dir
    rw [hentries]
    split
    · rename_i hdir
      subst hdir
      rw [List.map_append, List.pairwise_append]
      refine ⟨h _, List.pairwise_singleton _ _, fun id hmem id' hid' => ?_⟩
      obtain ⟨e, he, rfl⟩ := List.mem_map.mp hmem
      obtain rfl := List.mem_singleton.mp hid'
      rw [UInt64.lt_iff_toNat_lt, hid]
      exact hexclusive.lt_written howns e he
    · exact h dir

theorem Exclusive.step (h : d.Exclusive json) {op : WalOp} (hsucceeds : d.Succeeds json op)
    (hown : d.WritesOwn json op) : Exclusive json (d.step json op) := by
  cases op with
  | push topic payload now later outcome =>
    obtain ⟨hvalid, inner, heq, hwaiting, hwritten⟩ := push_of_succeeds hsucceeds
    rw [DdlWithWal.step, heq]
    exact h.logged hvalid hown hwaiting hwritten payload later
  | resume i later outcome => rwa [DdlWithWal.step, h.resume_eq]
  | subscribe topic =>
    rw [DdlWithWal.step]
    split
    · exact h
    · have hsubscribed := d.inner.subscribed_subscribe topic
      exact h.withInner hsubscribed.waiting hsubscribed.written
  | ack topic entryId =>
    have hacked := d.inner.acked_ack topic entryId
    exact h.withInner hacked.waiting hacked.written
  | receive topic subscriber => exact h.withInner rfl fun _ => rfl
  | disconnect topic subscriber => exact h.withInner rfl fun _ => rfl
  | restart config => exact .new config d.disk

theorem Increasing.step_iff (h : d.Increasing json) (hexclusive : d.Exclusive json) {op : WalOp}
    (hsucceeds : d.Succeeds json op) : Increasing json (d.step json op) ↔ d.WritesOwn json op := by
  cases op with
  | push topic payload now later outcome =>
    obtain ⟨hvalid, inner, heq, -⟩ := push_of_succeeds hsucceeds
    rw [DdlWithWal.step, heq]
    exact h.logged_iff hexclusive hvalid inner payload later
  | resume i later outcome =>
    rw [DdlWithWal.step, hexclusive.resume_eq]
    exact iff_of_true h trivial
  | subscribe topic =>
    rw [DdlWithWal.step]
    split <;> exact iff_of_true h trivial
  | ack topic entryId => exact iff_of_true h trivial
  | receive topic subscriber => exact iff_of_true h trivial
  | disconnect topic subscriber => exact iff_of_true h trivial
  | restart config => exact iff_of_true h trivial

/-- In a history of successful pushes and restarts, the ids in the files increase throughout
exactly if every push is to a file that its topic owns. -/
theorem ids_increase_iff (json : Codec Entry) (config : StandaloneConfig) (ops : List WalOp)
    (hsucceeds : Along (step json) (Succeeds json) (.new config ∅) ops) :
    Always (step json) (Increasing json) (.new config ∅) ops ↔
      Along (step json) (WritesOwn json) (.new config ∅) ops :=
  always_iff_along_of_inv (fun _ _ hd _ hop hown => hd.step hop hown)
    (fun _ _ hd h hop => h.step_iff hd hop) (Exclusive.new config ∅)
    (fun _ => List.Pairwise.nil) hsucceeds

theorem ids_increase_in_own_files :
    let config : StandaloneConfig := ⟨⟨4, 8, .dropOldest⟩, [], 0⟩
    let ops : List WalOp :=
      [.push "a" [1] 10 11 (.ok ()), .push "b" [2] 12 13 (.ok ()), .restart config,
        .push "c" [3] 14 15 (.ok ()), .push "c" [4] 16 17 (.ok ())]
    Always (step Plain.json) (Increasing Plain.json) (.new config ∅) ops :=
  (ids_increase_iff Plain.json ⟨⟨4, 8, .dropOldest⟩, [], 0⟩ _ (by decide +kernel)).mpr
    (by decide +kernel)

/-- A topic is pushed to before and after a restart, and two topics share a file. -/
theorem ids_repeat_in_file :
    let config : StandaloneConfig := ⟨⟨4, 8, .dropOldest⟩, [], 0⟩
    let restarted : List WalOp :=
      [.push "t" [1] 10 11 (.ok ()), .restart config, .push "t" [2] 12 13 (.ok ())]
    let shared : List WalOp := [.push "a/b" [1] 10 11 (.ok ()), .push "a_b" [2] 12 13 (.ok ())]
    ∀ run ∈ [(restarted, "t"), (shared, "a_b")],
      let d := exec (step Plain.json) (.new config ∅) run.1
      Along (step Plain.json) (Succeeds Plain.json) (.new config ∅) run.1 ∧
        (d.disk.entries Plain.json run.2).map Entry.id = [0, 0] ∧ ¬ d.Increasing Plain.json := by
  intro config restarted shared run hrun d
  have hruns : ∀ run ∈ [(restarted, "t"), (shared, "a_b")],
      let d := exec (step Plain.json) (.new config ∅) run.1
      Along (step Plain.json) (Succeeds Plain.json) (.new config ∅) run.1 ∧
        (d.disk.entries Plain.json run.2).map Entry.id = [0, 0] := by
    decide +kernel
  obtain ⟨hsucceeds, hids⟩ := hruns run hrun
  refine ⟨hsucceeds, hids, fun h => ?_⟩
  have hfile := h run.2
  rw [hids] at hfile
  exact absurd hfile (by decide)

end DdlWithWal

end DumbDistributedLog.Ddl.Wal
