import DumbDistributedLog.Library.Calls
import DumbDistributedLog.Wal.Paths

/-! # One handle for the log of a topic

A call looks for the handle of its topic, opens the log if there is none, and then enters its own
handle. Nothing is held in between: of two calls that find none, each opens the log, and the second
replaces the handle of the first.
-/

namespace DumbDistributedLog.Ddl.Wal

open Runs Paths

/-- How far a call has come. A call that has returned a handle may append through it, and holds
the mutex of the log meanwhile. -/
inductive WalCall where
  | missed (topic : String)
  | opened (topic : String) (wal : TopicWal)
  | failed (e : WalError)
  | returned (topic : String) (wal : TopicWal)
  | appending (topic : String) (wal : TopicWal)
  deriving DecidableEq, Repr

structure WalManager where
  dataDir : Path
  dirs : Directories
  wals : Table String TopicWal
  opened : ℕ
  calls : List WalCall

inductive WalStep where
  | lookup (topic : String)
  | openTopic (c : ℕ) (created opened : Except WalError Unit)
  | insert (c : ℕ)
  | lock (c : ℕ)
  | unlock (c : ℕ)

def WalCall.ofOpen (topic : String) : Except WalError TopicWal → WalCall
  | .error e => .failed e
  | .ok wal => .opened topic wal

def WalCall.locks (wal : TopicWal) : WalCall → Bool
  | .appending _ wal' => wal'.wal == wal.wal
  | _ => false

def WalCall.handle : WalCall → Option (String × TopicWal)
  | .returned topic wal => some (topic, wal)
  | .appending topic wal => some (topic, wal)
  | _ => none

namespace WalManager

def new (dataDir : Path) (dirs : Directories) : WalManager :=
  ⟨dataDir, createDirAll dirs dataDir, ∅, 0, []⟩

variable (s : WalManager)

def setCall (c : ℕ) (call : WalCall) : WalManager := { s with calls := s.calls.set c call }

/-- A call of `get_or_create` looks for a handle, opens the log, and enters the handle. -/
def step : WalStep → WalManager
  | .lookup topic =>
    { s with calls := s.calls ++ [s.wals[topic]?.elim (.missed topic) (.returned topic)] }
  | .openTopic c created opened =>
    match s.calls[c]? with
    | some (.missed topic) =>
      let wal := TopicWal.openTopic s.dataDir s.dirs topic s.opened created opened
      { s.setCall c (.ofOpen topic wal.2) with dirs := wal.1, opened := s.opened + 1 }
    | _ => s
  | .insert c =>
    match s.calls[c]? with
    | some (.opened topic wal) =>
      { s.setCall c (.returned topic wal) with wals := s.wals.insert topic wal }
    | _ => s
  | .lock c =>
    match s.calls[c]? with
    | some (.returned topic wal) =>
      if s.calls.any (·.locks wal) then s else s.setCall c (.appending topic wal)
    | _ => s
  | .unlock c =>
    match s.calls[c]? with
    | some (.appending topic wal) => s.setCall c (.returned topic wal)
    | _ => s

def handle (c : ℕ) : Option (String × TopicWal) := s.calls[c]?.bind WalCall.handle

/-- All calls for a topic return the same handle, and no two append at once. -/
structure OneHandle : Prop where
  same : ∀ (i j : ℕ) topic wal wal', s.handle i = some (topic, wal) →
    s.handle j = some (topic, wal') → wal = wal'
  serialised : ∀ (i j : ℕ) topic wal wal', s.calls[i]? = some (.appending topic wal) →
    s.calls[j]? = some (.appending topic wal') → i = j

/-- A handle is entered only where there is none. -/
def InsertsFirst : WalStep → Prop
  | .insert c => ∀ topic wal, s.calls[c]? = some (.opened topic wal) → s.wals[topic]? = none
  | _ => True

inductive Moves : WalStep → WalManager → Prop
  | stays {a : WalStep} (h : s.InsertsFirst a) : Moves a s
  | finds {topic : String} {wal : TopicWal} (hfound : s.wals[topic]? = some wal) :
      Moves (.lookup topic) { s with calls := s.calls ++ [.returned topic wal] }
  | misses {topic : String} :
      Moves (.lookup topic) { s with calls := s.calls ++ [.missed topic] }
  | fails {c : ℕ} {created opened : Except WalError Unit} {topic : String} {e : WalError}
      {dirs : Directories} (hold : s.calls[c]? = some (.missed topic)) :
      Moves (.openTopic c created opened)
        { s.setCall c (.failed e) with dirs, opened := s.opened + 1 }
  | opens {c : ℕ} {created opened : Except WalError Unit} {topic : String} {wal : TopicWal}
      {dirs : Directories} (hold : s.calls[c]? = some (.missed topic)) (hwal : wal.wal = s.opened) :
      Moves (.openTopic c created opened)
        { s.setCall c (.opened topic wal) with dirs, opened := s.opened + 1 }
  | inserts {c : ℕ} {topic : String} {wal : TopicWal}
      (hold : s.calls[c]? = some (.opened topic wal)) :
      Moves (.insert c) { s.setCall c (.returned topic wal) with wals := s.wals.insert topic wal }
  | locks {c : ℕ} {topic : String} {wal : TopicWal}
      (hold : s.calls[c]? = some (.returned topic wal))
      (hfree : ∀ call ∈ s.calls, call.locks wal = false) :
      Moves (.lock c) (s.setCall c (.appending topic wal))
  | unlocks {c : ℕ} {topic : String} {wal : TopicWal}
      (hold : s.calls[c]? = some (.appending topic wal)) :
      Moves (.unlock c) (s.setCall c (.returned topic wal))

variable {s} {s' : WalManager} {a : WalStep}

theorem wal_openTopic {dataDir : Path} {dirs dirs' : Directories} {topic : String} {n : ℕ}
    {created opened : Except WalError Unit} {wal : TopicWal}
    (h : TopicWal.openTopic dataDir dirs topic n created opened = (dirs', .ok wal)) :
    wal.wal = n := by
  unfold TopicWal.openTopic at h
  split at h
  · cases h
  · dsimp only at h
    split at h <;> cases h
    rfl

theorem moves_step (s : WalManager) (a : WalStep) : s.Moves a (s.step a) := by
  cases a with
  | lookup topic =>
    dsimp only [step]
    cases hfound : s.wals[topic]? with
    | none => exact .misses
    | some wal => exact .finds hfound
  | openTopic c created opened =>
    dsimp only [step]
    split
    next topic hold =>
      rcases hopen : TopicWal.openTopic s.dataDir s.dirs topic s.opened created opened with
        ⟨dirs, e | wal⟩
      · exact .fails hold
      · exact .opens hold (wal_openTopic hopen)
    next => exact .stays trivial
  | insert c =>
    dsimp only [step]
    split
    next hold => exact .inserts hold
    next hno => exact .stays fun topic wal hold => absurd hold (hno topic wal)
  | lock c =>
    dsimp only [step]
    split
    next hold =>
      split_ifs with hlocked
      · exact .stays trivial
      · exact .locks hold (by simpa using hlocked)
    next => exact .stays trivial
  | unlock c =>
    dsimp only [step]
    split
    next hold => exact .unlocks hold
    next => exact .stays trivial

/-- The handles that have been returned are those that are entered. A log that has been opened and
not entered is nobody else's, and a mutex is held once. -/
structure Managed (s : WalManager) : Prop where
  entry : ∀ (topic : String) (wal : TopicWal), s.wals[topic]? = some wal →
    wal.wal < s.opened ∧ ∃ i, s.handle i = some (topic, wal)
  listed : ∀ i topic wal, s.handle i = some (topic, wal) → s.wals[topic]? = some wal
  fresh : ∀ (i : ℕ) topic wal, s.calls[i]? = some (.opened topic wal) → wal.wal < s.opened ∧
    ∀ (topic' : String) (wal' : TopicWal), s.wals[topic']? = some wal' → wal'.wal ≠ wal.wal
  apart : ∀ (i j : ℕ) topic topic' wal wal', s.calls[i]? = some (.opened topic wal) →
    s.calls[j]? = some (.opened topic' wal') → wal.wal = wal'.wal → i = j
  exclusive : ∀ (i j : ℕ) topic topic' wal wal', s.calls[i]? = some (.appending topic wal) →
    s.calls[j]? = some (.appending topic' wal') → wal.wal = wal'.wal → i = j

theorem managed_new (dataDir : Path) (dirs : Directories) : (new dataDir dirs).Managed where
  entry topic wal h := by simp [new] at h
  listed i topic wal h := by simp [new, handle] at h
  fresh i topic wal h := by simp [new] at h
  apart i j topic topic' wal wal' h := by simp [new] at h
  exclusive i j topic topic' wal wal' h := by simp [new] at h

theorem handle_of_get {c : ℕ} {call : WalCall} (h : s.calls[c]? = some call) :
    s.handle c = call.handle := by
  rw [handle, h]
  rfl

theorem Managed.oneHandle (h : s.Managed) : s.OneHandle where
  same i j topic wal wal' hi hj :=
    Option.some.inj ((h.listed i topic wal hi).symm.trans (h.listed j topic wal' hj))
  serialised i j topic wal wal' hi hj := by
    have hwal := h.listed i topic wal (handle_of_get hi)
    have hwal' := h.listed j topic wal' (handle_of_get hj)
    cases hwal.symm.trans hwal'
    exact h.exclusive i j topic topic wal wal hi hj rfl

theorem handle_of_calls {c i : ℕ} {call : WalCall}
    (h : ∀ i : ℕ, s'.calls[i]? = if c = i then some call else s.calls[i]?) :
    s'.handle i = if c = i then call.handle else s.handle i := by
  rw [handle, h]
  split_ifs <;> rfl

theorem calls_of_ne {c i : ℕ} {call call' : WalCall}
    (h : ∀ i : ℕ, s'.calls[i]? = if c = i then some call else s.calls[i]?) (hne : call ≠ call')
    (hi : s'.calls[i]? = some call') : c ≠ i ∧ s.calls[i]? = some call' := by
  rw [h] at hi
  split_ifs at hi with hc
  · exact absurd (Option.some.inj hi) hne
  · exact ⟨hc, hi⟩

theorem Managed.of_calls (h : s.Managed) {c : ℕ} {call : WalCall} (hwals : s'.wals = s.wals)
    (hopened : s.opened ≤ s'.opened)
    (hcalls : ∀ i : ℕ, s'.calls[i]? = if c = i then some call else s.calls[i]?)
    (hcall : ∀ topic wal, call ≠ .opened topic wal)
    (hkept : ∀ p, s.handle c = some p → call.handle = some p)
    (hlisted : ∀ topic wal, call.handle = some (topic, wal) → s.wals[topic]? = some wal)
    (hlock : ∀ topic wal, call = .appending topic wal → ∀ call' ∈ s.calls,
      call'.locks wal = false) : s'.Managed where
  entry topic wal hwal := by
    obtain ⟨hlt, i, hi⟩ := h.entry topic wal (hwals ▸ hwal)
    refine ⟨Nat.lt_of_lt_of_le hlt hopened, i, ?_⟩
    rw [handle_of_calls hcalls]
    split_ifs with hc
    · subst hc
      exact hkept _ hi
    · exact hi
  listed i topic wal hi := by
    rw [handle_of_calls hcalls] at hi
    rw [hwals]
    split_ifs at hi
    · exact hlisted topic wal hi
    · exact h.listed i topic wal hi
  fresh i topic wal hi := by
    obtain ⟨hlt, hne⟩ := h.fresh i topic wal (calls_of_ne hcalls (hcall topic wal) hi).2
    exact ⟨Nat.lt_of_lt_of_le hlt hopened, hwals ▸ hne⟩
  apart i j topic topic' wal wal' hi hj :=
    h.apart i j topic topic' wal wal' (calls_of_ne hcalls (hcall topic wal) hi).2
      (calls_of_ne hcalls (hcall topic' wal') hj).2
  exclusive i j topic topic' wal wal' hi hj heq := by
    rw [hcalls] at hi hj
    split_ifs at hi hj with hci hcj hcj
    · rw [← hci, hcj]
    · have hfree := hlock topic wal (Option.some.inj hi) _ (List.mem_of_getElem? hj)
      simp [WalCall.locks, heq] at hfree
    · have hfree := hlock topic' wal' (Option.some.inj hj) _ (List.mem_of_getElem? hi)
      simp [WalCall.locks, heq] at hfree
    · exact h.exclusive i j topic topic' wal wal' hi hj heq

theorem Managed.opens (h : s.Managed) {c : ℕ} {topic : String} {wal : TopicWal}
    (hold : s.calls[c]? = some (.missed topic)) (hwal : wal.wal = s.opened)
    (hwals : s'.wals = s.wals) (hopened : s'.opened = s.opened + 1)
    (hcalls : ∀ i : ℕ, s'.calls[i]? = if c = i then some (.opened topic wal) else s.calls[i]?) :
    s'.Managed := by
  have hhandle : ∀ i, s'.handle i = s.handle i := by
    intro i
    rw [handle_of_calls hcalls]
    split_ifs with hc
    · rw [← hc, handle_of_get hold]
      rfl
    · rfl
  constructor
  · intro topic' wal' hentry
    obtain ⟨hlt, i, hi⟩ := h.entry topic' wal' (hwals ▸ hentry)
    exact ⟨by omega, i, (hhandle i).trans hi⟩
  · intro i topic' wal' hi
    rw [hwals]
    exact h.listed i topic' wal' ((hhandle i).symm.trans hi)
  · intro i topic' wal' hi
    rw [hcalls] at hi
    rw [hwals]
    split_ifs at hi
    · cases hi
      refine ⟨by omega, fun topic'' wal'' hentry => ?_⟩
      exact Nat.ne_of_lt (hwal ▸ (h.entry topic'' wal'' hentry).1)
    · obtain ⟨hlt, hne⟩ := h.fresh i topic' wal' hi
      exact ⟨by omega, hne⟩
  · intro i j topic₁ topic₂ wal₁ wal₂ hi hj heq
    rw [hcalls] at hi hj
    split_ifs at hi hj with hci hcj hcj
    · rw [← hci, hcj]
    · cases hi
      have hlt := (h.fresh j topic₂ wal₂ hj).1
      omega
    · cases hj
      have hlt := (h.fresh i topic₁ wal₁ hi).1
      omega
    · exact h.apart i j topic₁ topic₂ wal₁ wal₂ hi hj heq
  · intro i j topic₁ topic₂ wal₁ wal₂ hi hj
    exact h.exclusive i j topic₁ topic₂ wal₁ wal₂ (calls_of_ne hcalls (by simp) hi).2
      (calls_of_ne hcalls (by simp) hj).2

theorem Managed.inserts (h : s.Managed) {c : ℕ} {topic : String} {wal : TopicWal}
    (hold : s.calls[c]? = some (.opened topic wal)) (hnone : s.wals[topic]? = none)
    (hwals : s'.wals = s.wals.insert topic wal) (hopened : s'.opened = s.opened)
    (hcalls : ∀ i : ℕ, s'.calls[i]? = if c = i then some (.returned topic wal) else s.calls[i]?) :
    s'.Managed := by
  have hget : ∀ topic', s'.wals[topic']? =
      if topic = topic' then some wal else s.wals[topic']? := by
    intro topic'
    rw [hwals, Table.get_insert]
  obtain ⟨hlt, hne⟩ := h.fresh c topic wal hold
  constructor
  · intro topic' wal' hentry
    rw [hget] at hentry
    rw [hopened]
    split_ifs at hentry with htopic
    · cases hentry
      exact ⟨hlt, c, by rw [handle_of_calls hcalls, if_pos rfl, ← htopic, WalCall.handle]⟩
    · obtain ⟨hlt', i, hi⟩ := h.entry topic' wal' hentry
      refine ⟨hlt', i, ?_⟩
      rw [handle_of_calls hcalls, if_neg, hi]
      rintro rfl
      cases (handle_of_get hold).symm.trans hi
  · intro i topic' wal' hi
    rw [handle_of_calls hcalls] at hi
    rw [hget]
    split_ifs at hi
    · cases hi
      exact if_pos rfl
    · have hentry := h.listed i topic' wal' hi
      rw [if_neg, hentry]
      rintro rfl
      cases hnone.symm.trans hentry
  · intro i topic' wal' hi
    obtain ⟨hc, hi⟩ := calls_of_ne hcalls (by simp) hi
    obtain ⟨hlt', hne'⟩ := h.fresh i topic' wal' hi
    refine ⟨hopened ▸ hlt', fun topic'' wal'' hentry => ?_⟩
    rw [hget] at hentry
    split_ifs at hentry
    · cases hentry
      exact fun heq => hc (h.apart c i topic topic' wal wal' hold hi heq)
    · exact hne' topic'' wal'' hentry
  · intro i j topic₁ topic₂ wal₁ wal₂ hi hj
    exact h.apart i j topic₁ topic₂ wal₁ wal₂ (calls_of_ne hcalls (by simp) hi).2
      (calls_of_ne hcalls (by simp) hj).2
  · intro i j topic₁ topic₂ wal₁ wal₂ hi hj
    exact h.exclusive i j topic₁ topic₂ wal₁ wal₂ (calls_of_ne hcalls (by simp) hi).2
      (calls_of_ne hcalls (by simp) hj).2

theorem handle_append_eq_none : s.handle s.calls.length = none := by
  rw [handle, List.getElem?_eq_none (Nat.le_refl _)]
  rfl

theorem Managed.step (h : s.Managed) (ha : s.InsertsFirst a) : (s.step a).Managed := by
  have hmoves := s.moves_step a
  generalize s.step a = s' at hmoves
  cases hmoves with
  | stays _ => exact h
  | finds hfound =>
    refine h.of_calls rfl (Nat.le_refl _) (fun i => Calls.get_append) ?_ ?_ ?_ ?_
    · rintro topic wal ⟨⟩
    · intro p hp
      cases handle_append_eq_none.symm.trans hp
    · rintro topic wal ⟨⟩
      exact hfound
    · rintro topic wal ⟨⟩
  | misses =>
    refine h.of_calls rfl (Nat.le_refl _) (fun i => Calls.get_append) ?_ ?_ ?_ ?_
    · rintro topic wal ⟨⟩
    · intro p hp
      cases handle_append_eq_none.symm.trans hp
    · rintro topic wal ⟨⟩
    · rintro topic wal ⟨⟩
  | fails hold =>
    refine h.of_calls rfl (Nat.le_succ _) (fun i => Calls.get_set hold) ?_ ?_ ?_ ?_
    · rintro topic wal ⟨⟩
    · intro p hp
      cases (handle_of_get hold).symm.trans hp
    · rintro topic wal ⟨⟩
    · rintro topic wal ⟨⟩
  | opens hold hwal => exact h.opens hold hwal rfl rfl fun i => Calls.get_set hold
  | inserts hold =>
    exact h.inserts hold (ha _ _ hold) rfl rfl fun i => Calls.get_set hold
  | locks hold hfree =>
    refine h.of_calls rfl (Nat.le_refl _) (fun i => Calls.get_set hold) ?_ ?_ ?_ ?_
    · rintro topic wal ⟨⟩
    · exact fun p hp => (handle_of_get hold).symm.trans hp
    · rintro topic wal ⟨⟩
      exact h.listed _ _ _ (handle_of_get hold)
    · rintro topic wal ⟨⟩
      exact hfree
  | unlocks hold =>
    refine h.of_calls rfl (Nat.le_refl _) (fun i => Calls.get_set hold) ?_ ?_ ?_ ?_
    · rintro topic wal ⟨⟩
    · exact fun p hp => (handle_of_get hold).symm.trans hp
    · rintro topic wal ⟨⟩
      exact h.listed _ _ _ (handle_of_get hold)
    · rintro topic wal ⟨⟩

/-- A handle that replaces another one is not that of the call that entered the other. -/
theorem insertsFirst_of_oneHandle (h : s.Managed) (hone : (s.step a).OneHandle) :
    s.InsertsFirst a := by
  cases a with
  | insert c =>
    intro topic wal hold
    by_contra hentry
    obtain ⟨wal', hentry⟩ := Option.ne_none_iff_exists'.mp hentry
    obtain ⟨-, i, hi⟩ := h.entry topic wal' hentry
    have hcalls : ∀ i : ℕ, (s.step (.insert c)).calls[i]? =
        if c = i then some (.returned topic wal) else s.calls[i]? := by
      intro i
      simp only [step, hold]
      exact Calls.get_set hold
    have hc : c ≠ i := by
      rintro rfl
      cases (handle_of_get hold).symm.trans hi
    have hsame := hone.same c i topic wal wal'
      (by rw [handle_of_calls hcalls, if_pos rfl]; rfl)
      (by rw [handle_of_calls hcalls, if_neg hc, hi])
    exact (h.fresh c topic wal hold).2 topic wal' hentry (by rw [hsame])
  | _ => trivial

/-- All calls for a topic share one handle exactly if every handle is entered where there is
none. -/
theorem oneHandle_iff (dataDir : Path) (dirs : Directories) (steps : List WalStep) :
    Always step OneHandle (new dataDir dirs) steps ↔
      Along step InsertsFirst (new dataDir dirs) steps := by
  have hnew := managed_new dataDir dirs
  refine always_iff_along_of_inv (P := fun _ _ => True) (J := Managed)
    (fun s a hs _ _ ha => hs.step ha) ?_ hnew hnew.oneHandle (along_of_forall fun _ _ _ => trivial)
  intro s a hs _ _
  exact ⟨insertsFirst_of_oneHandle hs, fun ha => (hs.step ha).oneHandle⟩

/-- Two calls look for the handle before either has entered one. Each opens the log, and they
append under different mutexes. -/
theorem two_handles :
    let steps : List WalStep := [.lookup "t", .lookup "t", .openTopic 0 (.ok ()) (.ok ()),
      .openTopic 1 (.ok ()) (.ok ()), .insert 0, .insert 1, .lock 0, .lock 1]
    let s := exec step (new ["data"] []) steps
    let path := ["data", "wal", "t", "entries.wal"]
    s.calls = [.appending "t" ⟨"t", path, 0⟩, .appending "t" ⟨"t", path, 1⟩] ∧ ¬ s.OneHandle := by
  intro steps s path
  have hcalls : s.calls = [.appending "t" ⟨"t", path, 0⟩, .appending "t" ⟨"t", path, 1⟩] := by
    decide +kernel
  refine ⟨hcalls, fun h => ?_⟩
  have heq := h.serialised 0 1 "t" ⟨"t", path, 0⟩ ⟨"t", path, 1⟩ (by rw [hcalls]; rfl)
    (by rw [hcalls]; rfl)
  cases heq

end WalManager

end DumbDistributedLog.Ddl.Wal
