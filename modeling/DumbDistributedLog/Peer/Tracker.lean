import DumbDistributedLog.Peer.Fetcher

/-! # The tracker of pending requests

A call of `register` reads the clock before its entry is in the map, a call of `complete` sends the
response after the entry is out of it, and `cancel_expired` collects the ids of expired entries
before it removes them one by one. Other calls run in between. A call that is not interrupted does
what the calls of the fetcher do in one step.
-/

namespace DumbDistributedLog.Peer

open Runs

instance : Std.TransOrd RequestId := inferInstance

namespace PendingRequestTracker

def expired (t : PendingRequestTracker) (now : ℕ) : List RequestId :=
  (t.pending.toList.filter fun e => e.2.expiresAt ≤ now).map (·.1)

/-- `cancel_expired` with no other call in between. -/
def cancelExpired (t : PendingRequestTracker) (now : ℕ) : PendingRequestTracker × ℕ :=
  ({ t with pending := (t.expired now).foldl (·.erase ·) t.pending }, (t.expired now).length)

end PendingRequestTracker

/-- A call of `register`, known as the receiver that it returns. -/
structure Registration where
  requestId : RequestId
  registeredAt : ℕ
  inserted : Bool
  deriving DecidableEq, Repr

inductive CompletePhase where
  | sending (sender : ℕ)
  | returned (found : Bool)
  deriving DecidableEq, Repr

structure Completion where
  requestId : RequestId
  response : PeerResponse
  phase : CompletePhase
  deriving DecidableEq, Repr

inductive SweepPhase where
  | collecting (expired : List RequestId)
  | removing (expired : List RequestId) (count : ℕ)
  | returned (count : ℕ)
  deriving DecidableEq, Repr

/-- A call of `cancel_expired` and the time that it has read. -/
structure Sweep where
  now : ℕ
  phase : SweepPhase
  deriving DecidableEq, Repr

/-- What a receiver resolves with: a response, or the news that its sender is gone. -/
inductive Resolution where
  | received (response : PeerResponse)
  | cancelled (now : ℕ)
  /-- Another entry has been inserted under the same id. -/
  | replaced
  deriving DecidableEq, Repr

structure Tracking where
  clock : ℕ
  defaultTimeout : ℕ
  pending : Table RequestId PendingEntry
  registrations : List Registration
  completions : List Completion
  sweeps : List Sweep
  resolutions : List (ℕ × Resolution)

inductive TrackerStep where
  | tick (d : ℕ)
  | register (requestId : RequestId)
  | insert (r : ℕ)
  | complete (requestId : RequestId) (response : PeerResponse)
  | send (c : ℕ)
  | cancelExpired
  /-- The iteration of a sweep comes to the entry of an id. -/
  | visit (w : ℕ) (requestId : RequestId)
  | collect (w : ℕ)
  | remove (w : ℕ)

namespace Tracking

def new (defaultTimeout : ℕ) : Tracking := ⟨0, defaultTimeout, ∅, [], [], [], []⟩

variable (s : Tracking)

def setSweep (w : ℕ) (sweep : Sweep) : Tracking := { s with sweeps := s.sweeps.set w sweep }

/-- The entry of an id leaves the map, and its sender is dropped. -/
def dropEntry (requestId : RequestId) (reason : Resolution) : Tracking :=
  match s.pending[requestId]? with
  | some entry =>
    { s with
      pending := s.pending.erase requestId
      resolutions := s.resolutions ++ [(entry.sender, reason)] }
  | none => s

def insertEntry (r : ℕ) (g : Registration) : Tracking :=
  { s with
    pending := s.pending.insert g.requestId ⟨g.requestId, r, g.registeredAt + s.defaultTimeout⟩
    registrations := s.registrations.set r { g with inserted := true } }

def complete (requestId : RequestId) (response : PeerResponse) : Tracking :=
  match s.pending[requestId]? with
  | some entry =>
    { s with
      pending := s.pending.erase requestId
      completions := s.completions ++ [⟨requestId, response, .sending entry.sender⟩] }
  | none =>
    { s with completions := s.completions ++ [⟨requestId, response, .returned false⟩] }

def send (c : ℕ) (call : Completion) : Tracking :=
  match call.phase with
  | .sending r =>
    { s with
      completions := s.completions.set c { call with phase := .returned true }
      resolutions := s.resolutions ++ [(r, .received call.response)] }
  | .returned _ => s

def visit (w : ℕ) (now : ℕ) (expired : List RequestId) (requestId : RequestId) : Tracking :=
  match s.pending[requestId]? with
  | some entry =>
    if entry.expiresAt ≤ now then s.setSweep w ⟨now, .collecting (expired ++ [requestId])⟩ else s
  | none => s

def step : TrackerStep → Tracking
  | .tick d => { s with clock := s.clock + d }
  | .register requestId =>
    { s with registrations := s.registrations ++ [⟨requestId, s.clock, false⟩] }
  | .insert r =>
    match s.registrations[r]? with
    | some ⟨requestId, registeredAt, false⟩ =>
      (s.dropEntry requestId .replaced).insertEntry r ⟨requestId, registeredAt, false⟩
    | _ => s
  | .complete requestId response => s.complete requestId response
  | .send c =>
    match s.completions[c]? with
    | some call => s.send c call
    | none => s
  | .cancelExpired => { s with sweeps := s.sweeps ++ [⟨s.clock, .collecting []⟩] }
  | .visit w requestId =>
    match s.sweeps[w]? with
    | some ⟨now, .collecting expired⟩ => s.visit w now expired requestId
    | _ => s
  | .collect w =>
    match s.sweeps[w]? with
    | some ⟨now, .collecting expired⟩ => s.setSweep w ⟨now, .removing expired expired.length⟩
    | _ => s
  | .remove w =>
    match s.sweeps[w]? with
    | some ⟨now, .removing (requestId :: expired) count⟩ =>
      (s.setSweep w ⟨now, .removing expired count⟩).dropEntry requestId (.cancelled s.clock)
    | some ⟨now, .removing [] count⟩ => s.setSweep w ⟨now, .returned count⟩
    | _ => s

end Tracking

def TrackerStep.registers : TrackerStep → Option RequestId
  | .register requestId => some requestId
  | _ => none

def CompletePhase.sender : CompletePhase → Option ℕ
  | .sending r => some r
  | .returned _ => none

def CompletePhase.found : CompletePhase → Bool
  | .sending _ => true
  | .returned found => found

def CompletePhase.result : CompletePhase → Option Bool
  | .sending _ => none
  | .returned found => some found

def SweepPhase.expired : SweepPhase → List RequestId
  | .collecting expired => expired
  | .removing expired _ => expired
  | .returned _ => []

namespace Tracking

def returned (s : Tracking) (c : ℕ) : Option Bool := s.completions[c]?.bind (·.phase.result)

/-- The receiver was registered for this id when the clock stood at this time. -/
def Registered (s : Tracking) (r : ℕ) (requestId : RequestId) (t : ℕ) : Prop :=
  ∃ inserted, s.registrations[r]? = some ⟨requestId, t, inserted⟩

def Inserted (s : Tracking) (r : ℕ) : Prop :=
  ∃ requestId t, s.registrations[r]? = some ⟨requestId, t, true⟩

inductive Moves (s : Tracking) : Tracking → Prop
  | stays : Moves s s
  | ticks (d : ℕ) : Moves s { s with clock := s.clock + d }
  | registers (id : RequestId) :
      Moves s { s with registrations := s.registrations ++ [⟨id, s.clock, false⟩] }
  | inserts {r t : ℕ} {id : RequestId} (hold : s.registrations[r]? = some ⟨id, t, false⟩) :
      Moves s ((s.dropEntry id .replaced).insertEntry r ⟨id, t, false⟩)
  | misses {id : RequestId} {response : PeerResponse} (hnone : s.pending[id]? = none) :
      Moves s { s with completions := s.completions ++ [⟨id, response, .returned false⟩] }
  | finds {id : RequestId} {response : PeerResponse} {entry : PendingEntry}
      (hentry : s.pending[id]? = some entry) :
      Moves s { s with
        pending := s.pending.erase id
        completions := s.completions ++ [⟨id, response, .sending entry.sender⟩] }
  | sends {c r : ℕ} {id : RequestId} {response : PeerResponse}
      (hold : s.completions[c]? = some ⟨id, response, .sending r⟩) :
      Moves s { s with
        completions := s.completions.set c ⟨id, response, .returned true⟩
        resolutions := s.resolutions ++ [(r, .received response)] }
  | sweeps : Moves s { s with sweeps := s.sweeps ++ [⟨s.clock, .collecting []⟩] }
  | goesOn {w now : ℕ} {old phase : SweepPhase} (hold : s.sweeps[w]? = some ⟨now, old⟩)
      (hphase : ∀ id ∈ phase.expired, id ∈ old.expired ∨
        ∃ entry, s.pending[id]? = some entry ∧ entry.expiresAt ≤ now) :
      Moves s (s.setSweep w ⟨now, phase⟩)
  | removes {w now count : ℕ} {id : RequestId} {expired : List RequestId} {entry : PendingEntry}
      (hold : s.sweeps[w]? = some ⟨now, .removing (id :: expired) count⟩)
      (hentry : s.pending[id]? = some entry) :
      Moves s { s.setSweep w ⟨now, .removing expired count⟩ with
        pending := s.pending.erase id
        resolutions := s.resolutions ++ [(entry.sender, .cancelled s.clock)] }

variable {s s' : Tracking} {a : TrackerStep} {acts : List TrackerStep} {id : RequestId}
  {r c k w now t t' : ℕ} {response : PeerResponse} {entry : PendingEntry}

theorem moves_step (s : Tracking) (a : TrackerStep) : s.Moves (s.step a) := by
  cases a with
  | tick d => exact .ticks d
  | register id => exact .registers id
  | insert r =>
    dsimp only [step]
    split
    next hold => exact .inserts hold
    next => exact .stays
  | complete id response =>
    dsimp only [step, complete]
    split
    next hentry => exact .finds hentry
    next hnone => exact .misses hnone
  | send c =>
    dsimp only [step]
    split
    next call hold =>
      obtain ⟨id, response, phase⟩ := call
      cases phase with
      | sending r => exact .sends hold
      | returned found => exact .stays
    next => exact .stays
  | cancelExpired => exact .sweeps
  | visit w id =>
    dsimp only [step]
    split
    next now expired hold =>
      dsimp only [visit]
      split
      next entry hentry =>
        split_ifs with hexp
        · refine .goesOn hold fun id' hid' => ?_
          rcases List.mem_append.mp hid' with hid' | hid'
          · exact .inl hid'
          · cases List.mem_singleton.mp hid'
            exact .inr ⟨entry, hentry, hexp⟩
        · exact .stays
      next => exact .stays
    next => exact .stays
  | collect w =>
    dsimp only [step]
    split
    next hold => exact .goesOn hold fun id hid => .inl hid
    next => exact .stays
  | remove w =>
    dsimp only [step]
    split
    next now id expired count hold =>
      dsimp only [dropEntry, setSweep]
      split
      next entry hentry => exact .removes hold hentry
      next => exact .goesOn hold fun id' hid' => .inl (List.mem_cons_of_mem id hid')
    next hold => exact .goesOn hold fun id hid => .inl hid
    next => exact .stays

theorem dropEntry_of_none {reason : Resolution} (h : s.pending[id]? = none) :
    s.dropEntry id reason = s := by
  simp only [dropEntry, h]

/-- What no step takes back. -/
structure Extends (s s' : Tracking) : Prop where
  defaultTimeout : s'.defaultTimeout = s.defaultTimeout
  clock : s.clock ≤ s'.clock
  registered : ∀ {r id t}, s.Registered r id t → s'.Registered r id t
  inserted : ∀ {r}, s.Inserted r → s'.Inserted r
  resolutions : s.resolutions ⊆ s'.resolutions

theorem Extends.of_registrations (htimeout : s'.defaultTimeout = s.defaultTimeout)
    (hclock : s.clock ≤ s'.clock) (hregs : s'.registrations = s.registrations)
    (hres : s.resolutions ⊆ s'.resolutions) : s.Extends s' where
  defaultTimeout := htimeout
  clock := hclock
  registered := by
    rintro r id t ⟨inserted, h⟩
    exact ⟨inserted, hregs ▸ h⟩
  inserted := by
    rintro r ⟨id, t, h⟩
    exact ⟨id, t, hregs ▸ h⟩
  resolutions := hres

theorem extends_dropEntry (s : Tracking) (id : RequestId) (reason : Resolution) :
    s.Extends (s.dropEntry id reason) := by
  unfold dropEntry
  split
  · exact .of_registrations rfl le_rfl rfl (List.subset_append_left _ _)
  · exact .of_registrations rfl le_rfl rfl (List.Subset.refl _)

theorem extends_insertEntry (hold : s.registrations[r]? = some ⟨id, t, false⟩) :
    s.Extends (s.insertEntry r ⟨id, t, false⟩) where
  defaultTimeout := rfl
  clock := le_rfl
  registered := by
    rintro r' id' t' ⟨inserted, h⟩
    rw [Registered, insertEntry, Calls.get_set hold]
    split_ifs with hr
    · subst hr
      rw [hold] at h
      cases h
      exact ⟨true, rfl⟩
    · exact ⟨inserted, h⟩
  inserted := by
    rintro r' ⟨id', t', h⟩
    rw [Inserted, insertEntry, Calls.get_set hold]
    split_ifs with hr
    · exact ⟨id, t, rfl⟩
    · exact ⟨id', t', h⟩
  resolutions := List.Subset.refl _

theorem Extends.trans {s'' : Tracking} (h : s.Extends s') (h' : s'.Extends s'') :
    s.Extends s'' where
  defaultTimeout := h'.defaultTimeout.trans h.defaultTimeout
  clock := h.clock.trans h'.clock
  registered := h'.registered ∘ h.registered
  inserted := h'.inserted ∘ h.inserted
  resolutions _ hx := h'.resolutions (h.resolutions hx)

@[simp] theorem registrations_dropEntry (s : Tracking) (id : RequestId) (reason : Resolution) :
    (s.dropEntry id reason).registrations = s.registrations := by
  unfold dropEntry
  split <;> rfl

@[simp] theorem sweeps_dropEntry (s : Tracking) (id : RequestId) (reason : Resolution) :
    (s.dropEntry id reason).sweeps = s.sweeps := by
  unfold dropEntry
  split <;> rfl

@[simp] theorem completions_dropEntry (s : Tracking) (id : RequestId) (reason : Resolution) :
    (s.dropEntry id reason).completions = s.completions := by
  unfold dropEntry
  split <;> rfl

theorem Moves.extends (hm : s.Moves s') : s.Extends s' := by
  cases hm with
  | stays => exact .of_registrations rfl le_rfl rfl (List.Subset.refl _)
  | ticks d => exact .of_registrations rfl (Nat.le_add_right _ _) rfl (List.Subset.refl _)
  | registers id =>
    refine ⟨rfl, le_rfl, ?_, ?_, List.Subset.refl _⟩
    · rintro r id' t ⟨inserted, h⟩
      exact ⟨inserted, Calls.get_append_of_some h⟩
    · rintro r ⟨id', t, h⟩
      exact ⟨id', t, Calls.get_append_of_some h⟩
  | inserts hold =>
    refine (extends_dropEntry s _ _).trans (extends_insertEntry ?_)
    rw [registrations_dropEntry, hold]
  | misses => exact .of_registrations rfl le_rfl rfl (List.Subset.refl _)
  | finds => exact .of_registrations rfl le_rfl rfl (List.Subset.refl _)
  | sends => exact .of_registrations rfl le_rfl rfl (List.subset_append_left _ _)
  | sweeps => exact .of_registrations rfl le_rfl rfl (List.Subset.refl _)
  | goesOn => exact .of_registrations rfl le_rfl rfl (List.Subset.refl _)
  | removes => exact .of_registrations rfl le_rfl rfl (List.subset_append_left _ _)

theorem defaultTimeout_exec (s : Tracking) (acts : List TrackerStep) :
    (exec step s acts).defaultTimeout = s.defaultTimeout :=
  exec_inv (I := fun s' => s'.defaultTimeout = s.defaultTimeout)
    (fun s' a h => (moves_step s' a).extends.defaultTimeout.trans h) rfl

/-- The map of calls that are atomic is that of calls in steps. -/
structure Tracks (s : Tracking) (tracker : PendingRequestTracker) : Prop where
  pending : s.pending = tracker.pending
  defaultTimeout : s.defaultTimeout = tracker.defaultTimeout.toNat

section Uninterrupted

variable {tracker : PendingRequestTracker} {ids expired : List RequestId} {count : ℕ}

theorem pending_dropEntry (s : Tracking) (id : RequestId) (reason : Resolution) :
    (s.dropEntry id reason).pending = s.pending.erase id := by
  unfold dropEntry
  split
  next => rfl
  next hnone =>
    refine Std.ExtTreeMap.ext_getElem? fun id' => ?_
    rw [Table.get_erase]
    split_ifs with hid
    · rw [← hid, hnone]
    · rfl

theorem defaultTimeout_dropEntry (s : Tracking) (id : RequestId) (reason : Resolution) :
    (s.dropEntry id reason).defaultTimeout = s.defaultTimeout :=
  (extends_dropEntry s id reason).defaultTimeout

theorem Tracks.register (h : s.Tracks tracker) :
    (exec step s [.register id, .insert s.registrations.length]).Tracks
      (tracker.register id s.registrations.length s.clock) := by
  have hget : (s.registrations ++ [⟨id, s.clock, false⟩])[s.registrations.length]? =
      some ⟨id, s.clock, false⟩ := List.getElem?_concat_length
  simp only [exec_cons, exec_nil, step, hget, insertEntry]
  refine ⟨?_, by rw [defaultTimeout_dropEntry, h.defaultTimeout]; rfl⟩
  refine Std.ExtTreeMap.ext_getElem? fun id' => ?_
  simp only [PendingRequestTracker.register, pending_dropEntry, defaultTimeout_dropEntry,
    Table.get_insert, Table.get_erase, h.defaultTimeout, h.pending]
  split_ifs <;> rfl

theorem Tracks.complete (h : s.Tracks tracker) :
    (exec step s [.complete id response, .send s.completions.length]).Tracks
        (tracker.complete id).1 ∧
      (exec step s [.complete id response, .send s.completions.length]).returned
        s.completions.length = some (tracker.complete id).2.isSome := by
  simp only [exec_cons, exec_nil, step, Tracking.complete, PendingRequestTracker.complete,
    ← h.pending]
  cases hentry : s.pending[id]? with
  | none =>
    simp only [List.getElem?_concat_length, send, returned, Option.bind_some,
      CompletePhase.result]
    exact ⟨⟨h.pending, h.defaultTimeout⟩, rfl⟩
  | some entry =>
    simp only [List.getElem?_concat_length, send, returned,
      Calls.get_set List.getElem?_concat_length, if_true, Option.bind_some, CompletePhase.result]
    exact ⟨⟨rfl, h.defaultTimeout⟩, rfl⟩

def isExpired (s : Tracking) (now : ℕ) (id : RequestId) : Bool :=
  s.pending[id]?.any fun entry => entry.expiresAt ≤ now

theorem step_visit (hw : s.sweeps[w]? = some ⟨now, .collecting expired⟩) :
    s.step (.visit w id) =
      s.setSweep w ⟨now, .collecting (expired ++ [id].filter (s.isExpired now))⟩ := by
  have hself : s.setSweep w ⟨now, .collecting expired⟩ = s := by
    rw [setSweep, Calls.set_self hw]
  simp only [step, hw, visit, List.filter_singleton, isExpired]
  cases s.pending[id]? with
  | none => simp [hself]
  | some entry => by_cases hexp : entry.expiresAt ≤ now <;> simp [hexp, hself]

theorem sweeps_begun (s : Tracking) :
    (s.step .cancelExpired).sweeps[s.sweeps.length]? = some ⟨s.clock, .collecting []⟩ :=
  List.getElem?_concat_length

theorem sweeps_setSweep {old sweep : Sweep} (hw : s.sweeps[w]? = some old) :
    (s.setSweep w sweep).sweeps[w]? = some sweep := by
  rw [setSweep, Calls.get_set hw, if_pos rfl]

theorem step_collect (hw : s.sweeps[w]? = some ⟨now, .collecting expired⟩) :
    s.step (.collect w) = s.setSweep w ⟨now, .removing expired expired.length⟩ := by
  simp only [step, hw]

theorem step_remove_nil (hw : s.sweeps[w]? = some ⟨now, .removing [] count⟩) :
    s.step (.remove w) = s.setSweep w ⟨now, .returned count⟩ := by
  simp only [step, hw]

theorem exec_visit (hw : s.sweeps[w]? = some ⟨now, .collecting expired⟩) :
    exec step s (ids.map (.visit w)) =
      s.setSweep w ⟨now, .collecting (expired ++ ids.filter (s.isExpired now))⟩ := by
  induction ids generalizing s expired with
  | nil => simp [setSweep, Calls.set_self hw]
  | cons id ids ih =>
    rw [List.map_cons, exec_cons, step_visit hw, ih (sweeps_setSweep hw), setSweep, setSweep,
      List.set_set, List.append_assoc, ← List.singleton_append (l := ids), List.filter_append]
    rfl

theorem exec_remove (hw : s.sweeps[w]? = some ⟨now, .removing ids count⟩) :
    (exec step s (List.replicate ids.length (.remove w))).pending =
        ids.foldl (·.erase ·) s.pending ∧
      (exec step s (List.replicate ids.length (.remove w))).sweeps[w]? =
        some ⟨now, .removing [] count⟩ := by
  induction ids generalizing s with
  | nil => exact ⟨rfl, hw⟩
  | cons id ids ih =>
    have hstep : (s.step (.remove w)).sweeps[w]? = some ⟨now, .removing ids count⟩ := by
      simp only [step, hw, sweeps_dropEntry]
      exact sweeps_setSweep hw
    have hpending : (s.step (.remove w)).pending = s.pending.erase id := by
      simp only [step, hw, pending_dropEntry, setSweep]
    rw [List.length_cons, List.replicate_succ, exec_cons, List.foldl_cons, ← hpending]
    exact ih hstep

/-- The steps of a sweep with no other call in between. -/
def sweepSteps (w : ℕ) (ids : List RequestId) (count : ℕ) : List TrackerStep :=
  .cancelExpired :: (ids.map (.visit w) ++ .collect w :: List.replicate (count + 1) (.remove w))

theorem sweepSteps_eq (w : ℕ) (ids : List RequestId) (count : ℕ) : sweepSteps w ids count =
    (TrackerStep.cancelExpired :: (ids.map (TrackerStep.visit w) ++ [TrackerStep.collect w])) ++
      List.replicate count (TrackerStep.remove w) ++ [TrackerStep.remove w] := by
  simp [sweepSteps, List.replicate_succ']

theorem filter_isExpired (h : s.Tracks tracker) :
    s.pending.keys.filter (s.isExpired now) = tracker.expired now := by
  rw [PendingRequestTracker.expired, ← h.pending, ← Std.ExtTreeMap.map_fst_toList_eq_keys,
    List.filter_map]
  refine congrArg _ (List.filter_congr fun e he => ?_)
  rw [Function.comp_apply, isExpired, Std.ExtTreeMap.mem_toList_iff_getElem?_eq_some.mp he]
  rfl

theorem exec_collect (h : s.Tracks tracker) :
    exec step s (.cancelExpired :: (s.pending.keys.map (.visit s.sweeps.length) ++
        [.collect s.sweeps.length])) =
      (s.step .cancelExpired).setSweep s.sweeps.length
        ⟨s.clock, .removing (tracker.expired s.clock) (tracker.expired s.clock).length⟩ := by
  have hids : s.pending.keys.filter ((s.step .cancelExpired).isExpired s.clock) =
      tracker.expired s.clock :=
    filter_isExpired (s := s.step .cancelExpired) ⟨h.pending, h.defaultTimeout⟩
  rw [exec_cons, exec_append, exec_visit (sweeps_begun s), hids, List.nil_append, exec_cons,
    exec_nil, step_collect (sweeps_setSweep (sweeps_begun s)), setSweep, setSweep, List.set_set]
  rfl

/-- A sweep that is not interrupted is `cancel_expired` at the time when it begins. -/
theorem Tracks.cancelExpired (h : s.Tracks tracker) :
    (exec step s (sweepSteps s.sweeps.length s.pending.keys
        (tracker.expired s.clock).length)).Tracks (tracker.cancelExpired s.clock).1 ∧
      (exec step s (sweepSteps s.sweeps.length s.pending.keys
        (tracker.expired s.clock).length)).sweeps[s.sweeps.length]? =
          some ⟨s.clock, .returned (tracker.cancelExpired s.clock).2⟩ := by
  have htimeout := defaultTimeout_exec s
    (sweepSteps s.sweeps.length s.pending.keys (tracker.expired s.clock).length)
  obtain ⟨hpending, hw⟩ := exec_remove (s := (s.step .cancelExpired).setSweep s.sweeps.length
    ⟨s.clock, .removing (tracker.expired s.clock) (tracker.expired s.clock).length⟩)
      (sweeps_setSweep (sweeps_begun s))
  rw [sweepSteps_eq, exec_append, exec_append, exec_collect h, exec_cons, exec_nil,
    step_remove_nil hw] at htimeout ⊢
  refine ⟨⟨?_, htimeout.trans h.defaultTimeout⟩, sweeps_setSweep hw⟩
  refine hpending.trans ?_
  simp only [PendingRequestTracker.cancelExpired, ← h.pending]
  rfl

end Uninterrupted

end Tracking

end DumbDistributedLog.Peer
