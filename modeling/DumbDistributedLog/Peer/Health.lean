import DumbDistributedLog.Library.Runs
import DumbDistributedLog.Peer.Registry

/-! # The health monitor

A scan takes the time, copies the alive peers and then marks dead, one after the other, those
whose copy is too old. Nothing is asked of the registry again, so a heartbeat that comes between
the copy and its check is lost.
-/

namespace DumbDistributedLog.Peer

open Runs

structure PeerConfig where
  heartbeatIntervalSecs : UInt64
  circuitBreakerThreshold : UInt32
  deriving DecidableEq, Repr

/-- The age from which a peer is taken for dead, in nanoseconds. -/
def PeerConfig.timeout (config : PeerConfig) : ℕ :=
  1000000000 * (config.heartbeatIntervalSecs * config.circuitBreakerThreshold.toUInt64).toNat

/-- Where the loop of the monitor is: waiting, with the time taken, or with the copies that are
still to be checked. -/
inductive Scan where
  | idle
  | woken (now : ℕ)
  | checking (now : ℕ) (copies : List PeerInfo)

def Scan.copies : Scan → List PeerInfo
  | .checking _ copies => copies
  | _ => []

def Scan.StartedBy (time : ℕ) : Scan → Prop
  | .idle => True
  | .woken now => now ≤ time
  | .checking now _ => now ≤ time

theorem Scan.StartedBy.mono {scan : Scan} {m n : ℕ} (h : scan.StartedBy m) (hle : m ≤ n) :
    scan.StartedBy n := by
  cases scan with
  | idle => trivial
  | woken now => exact Nat.le_trans h hle
  | checking now copies => exact Nat.le_trans h hle

/-- The registry, the clock and the scan, and the last heartbeat that each peer has sent. -/
structure HealthMonitor where
  registry : PeerRegistry
  clock : ℕ
  scan : Scan
  beats : Table UInt64 ℕ

inductive HealthStep where
  | pass (nanos : ℕ)
  | updateHeartbeat (nodeId : UInt64)
  | wake
  | list (order : ∀ t : Table UInt64 PeerInfo, t.Iteration)
  | check

namespace HealthMonitor

def new (registry : PeerRegistry) (clock : ℕ) : HealthMonitor := ⟨registry, clock, .idle, ∅⟩

variable (config : PeerConfig) (s : HealthMonitor)

def step : HealthStep → HealthMonitor
  | .pass nanos => { s with clock := s.clock + nanos }
  | .updateHeartbeat nodeId => { s with
      registry := (s.registry.updateHeartbeat nodeId s.clock).1
      beats := if (s.registry.updateHeartbeat nodeId s.clock).2 then s.beats.insert nodeId s.clock
        else s.beats }
  | .wake =>
    match s.scan with
    | .idle => { s with scan := .woken s.clock }
    | _ => s
  | .list order =>
    match s.scan with
    | .woken now => { s with scan := .checking now (s.registry.listAlive (order _)) }
    | _ => s
  | .check =>
    match s.scan with
    | .checking now (peer :: rest) => { s with
        registry := if config.timeout < now - peer.lastSeen then (s.registry.markDead peer.nodeId).1
          else s.registry
        scan := .checking now rest }
    | .checking _ [] => { s with scan := .idle }
    | _ => s

def lastSeen (id : UInt64) : Option ℕ := (s.registry.get id).map (·.lastSeen)

/-- Every peer that has sent a heartbeat less than the timeout ago is alive. -/
def Fresh : Prop :=
  ∀ (id : UInt64) (time : ℕ), s.beats[id]? = some time → s.clock < time + config.timeout →
    s.registry.Alive id

def condemned : Option PeerInfo :=
  match s.scan with
  | .checking now (peer :: _) => if config.timeout < now - peer.lastSeen then some peer else none
  | _ => none

/-- No peer is marked dead that the registry has seen less than the timeout ago. -/
def Spares : HealthStep → Prop
  | .check => ∀ peer seen, s.condemned config = some peer → s.lastSeen peer.nodeId = some seen →
      seen + config.timeout ≤ s.clock
  | _ => True

/-- A peer whose copy is too old has not been seen since it was copied, or only so long ago that
it is too old itself. -/
def Unseen : HealthStep → Prop
  | .check => ∀ peer seen, s.condemned config = some peer → s.lastSeen peer.nodeId = some seen →
      seen = peer.lastSeen ∨ seen + config.timeout ≤ s.clock
  | _ => True

/-- The last heartbeat of a peer is when the registry has seen it, a scan was started in the past,
and whoever has been seen since its copy was taken has sent a heartbeat. -/
structure Consistent : Prop where
  beats : ∀ (id : UInt64) (time : ℕ), s.beats[id]? = some time → s.lastSeen id = some time
  started : s.scan.StartedBy s.clock
  copies : ∀ peer ∈ s.scan.copies, ∀ seen, s.lastSeen peer.nodeId = some seen →
    seen = peer.lastSeen ∨ s.beats[peer.nodeId]? = some seen

variable {config s} {registry : PeerRegistry} {a : HealthStep} {nodeId id : UInt64}

theorem consistent_new {clock : ℕ} : (new registry clock).Consistent := by
  constructor
  · intro id time h
    simp [new] at h
  · trivial
  · rintro peer ⟨⟩

theorem alive_updateHeartbeat :
    (s.step config (.updateHeartbeat nodeId)).registry.Alive id ↔
      if nodeId = id then (s.registry.get nodeId).isSome = true else s.registry.Alive id := by
  have hget : (s.step config (.updateHeartbeat nodeId)).registry.get id = _ :=
    PeerRegistry.get_updateHeartbeat
  rw [PeerRegistry.Alive, hget]
  split_ifs with hid
  · cases s.registry.get nodeId <;> simp
  · rfl

theorem lastSeen_updateHeartbeat : (s.step config (.updateHeartbeat nodeId)).lastSeen id =
    if nodeId = id then (s.registry.get nodeId).map fun _ => s.clock else s.lastSeen id := by
  have hget : (s.step config (.updateHeartbeat nodeId)).registry.get id = _ :=
    PeerRegistry.get_updateHeartbeat
  rw [lastSeen, hget]
  split_ifs with hid
  · simp [Function.comp_def]
  · rfl

theorem beats_updateHeartbeat : (s.step config (.updateHeartbeat nodeId)).beats[id]? =
    if nodeId = id then ((s.registry.get nodeId).map fun _ => s.clock).or s.beats[id]?
    else s.beats[id]? := by
  simp only [step, PeerRegistry.updateHeartbeat_snd]
  cases s.registry.get nodeId <;> simp [Table.get_insert]

theorem Consistent.updateHeartbeat (h : s.Consistent) :
    (s.step config (.updateHeartbeat nodeId)).Consistent := by
  obtain ⟨hbeats, hstarted, hcopies⟩ := h
  constructor
  · intro id time
    rw [beats_updateHeartbeat, lastSeen_updateHeartbeat]
    split_ifs with hid
    · subst hid
      cases hget : s.registry.get nodeId with
      | none => simpa [lastSeen, hget] using hbeats nodeId time
      | some info => simp
    · exact hbeats id time
  · exact hstarted
  · intro peer hpeer seen
    rw [beats_updateHeartbeat, lastSeen_updateHeartbeat]
    split_ifs with hid
    · intro hseen
      right
      rw [hseen]
      rfl
    · exact hcopies peer hpeer seen

theorem get_check : (s.step config .check).registry.get id =
    if (s.condemned config).any (·.nodeId == id) then
      (s.registry.get id).map fun info => { info with isAlive := false }
    else s.registry.get id := by
  unfold condemned step
  cases s.scan with
  | idle => simp
  | woken now => simp
  | checking now copies =>
    cases copies with
    | nil => simp
    | cons peer rest =>
      by_cases hold : config.timeout < now - peer.lastSeen
      · by_cases hid : peer.nodeId = id
        · subst hid
          simp [hold, PeerRegistry.get_markDead]
        · simp [hold, hid, PeerRegistry.get_markDead]
      · simp [hold]

theorem lastSeen_check : (s.step config .check).lastSeen id = s.lastSeen id := by
  rw [lastSeen, get_check]
  split_ifs
  · simp [lastSeen, Function.comp_def]
  · rfl

theorem check_frame : (s.step config .check).clock = s.clock ∧
    (s.step config .check).beats = s.beats ∧
    (∀ time, s.scan.StartedBy time → (s.step config .check).scan.StartedBy time) ∧
    ∀ peer ∈ (s.step config .check).scan.copies, peer ∈ s.scan.copies := by
  unfold step
  cases hscan : s.scan with
  | idle => simp [hscan]
  | woken now => simp [hscan]
  | checking now copies =>
    cases copies with
    | nil => simp [Scan.StartedBy, Scan.copies]
    | cons peer rest => simp +contextual [Scan.StartedBy, Scan.copies]

theorem Consistent.check (h : s.Consistent) : (s.step config .check).Consistent := by
  constructor
  · intro id time
    rw [check_frame.2.1, lastSeen_check]
    exact h.beats id time
  · rw [check_frame.1]
    exact check_frame.2.2.1 _ h.started
  · intro peer hpeer seen
    rw [check_frame.2.1, lastSeen_check]
    exact h.copies peer (check_frame.2.2.2 peer hpeer) seen

theorem Consistent.step (h : s.Consistent) : (s.step config a).Consistent := by
  cases a with
  | pass nanos => exact ⟨h.beats, h.started.mono (Nat.le_add_right _ _), h.copies⟩
  | updateHeartbeat nodeId => exact h.updateHeartbeat
  | wake =>
    simp only [HealthMonitor.step]
    cases hscan : s.scan with
    | idle => exact ⟨h.beats, Nat.le_refl _, by rintro peer ⟨⟩⟩
    | woken now => exact h
    | checking now copies => exact h
  | list order =>
    simp only [HealthMonitor.step]
    cases hscan : s.scan with
    | idle => exact h
    | woken now =>
      have hnow : (Scan.woken now).StartedBy s.clock := hscan ▸ h.started
      refine ⟨h.beats, hnow, ?_⟩
      intro peer hpeer seen hseen
      left
      have hget := (PeerRegistry.mem_listAlive.mp hpeer).1
      simpa [lastSeen, hget, eq_comm] using hseen
    | checking now copies => exact h
  | check => exact h.check

theorem condemned_eq_some {peer : PeerInfo} (h : s.condemned config = some peer) :
    ∃ now rest, s.scan = .checking now (peer :: rest) ∧ config.timeout < now - peer.lastSeen := by
  unfold condemned at h
  cases hscan : s.scan with
  | idle => simp [hscan] at h
  | woken now => simp [hscan] at h
  | checking now copies =>
    cases copies with
    | nil => simp [hscan] at h
    | cons head rest =>
      simp only [hscan, Option.ite_none_right_eq_some, Option.some.injEq] at h
      obtain ⟨hold, rfl⟩ := h
      exact ⟨now, rest, rfl, hold⟩

/-- The copy of a condemned peer is too old for its heartbeat to have been sent lately. -/
theorem Consistent.condemned_old {peer : PeerInfo} (h : s.Consistent)
    (hpeer : s.condemned config = some peer) : peer.lastSeen + config.timeout ≤ s.clock := by
  obtain ⟨now, rest, hscan, hold⟩ := condemned_eq_some hpeer
  have hnow : (Scan.checking now (peer :: rest)).StartedBy s.clock := hscan ▸ h.started
  have : now ≤ s.clock := hnow
  omega

theorem Consistent.spares_iff (h : s.Consistent) : s.Spares config a ↔ s.Unseen config a := by
  cases a with
  | check =>
    constructor
    · exact fun hspares peer seen hpeer hseen => .inr (hspares peer seen hpeer hseen)
    · intro hunseen peer seen hpeer hseen
      rcases hunseen peer seen hpeer hseen with rfl | hold
      · exact h.condemned_old hpeer
      · exact hold
  | _ => exact Iff.rfl

theorem Fresh.updateHeartbeat (h : s.Fresh config) :
    (s.step config (.updateHeartbeat nodeId)).Fresh config := by
  intro id time
  rw [beats_updateHeartbeat, alive_updateHeartbeat]
  split_ifs with hid
  · subst hid
    cases hget : s.registry.get nodeId with
    | none =>
      intro hbeat hrecent
      obtain ⟨info, hinfo, -⟩ := h nodeId time (by simpa using hbeat) hrecent
      rw [hget] at hinfo
      cases hinfo
    | some info => simp
  · exact h id time

theorem Consistent.fresh_check (h : s.Consistent) (hfresh : s.Fresh config) :
    (s.step config .check).Fresh config ↔ s.Spares config .check := by
  unfold Fresh
  simp only [check_frame.1, check_frame.2.1, PeerRegistry.Alive, get_check]
  constructor
  · intro hafter peer seen hpeer hseen
    by_contra hrecent
    obtain ⟨now, rest, hscan, -⟩ := condemned_eq_some hpeer
    rcases h.copies peer (by simp [hscan, Scan.copies]) seen hseen with rfl | hbeat
    · exact hrecent (h.condemned_old hpeer)
    · have hdead := hafter peer.nodeId seen hbeat (by omega)
      simp only [hpeer, Option.any_some, beq_self_eq_true, if_true, Option.map_eq_some_iff] at hdead
      obtain ⟨_, ⟨old, -, rfl⟩, halive⟩ := hdead
      cases halive
  · intro hspares id time hbeat hrecent
    obtain ⟨info, hget, halive⟩ := hfresh id time hbeat hrecent
    cases hpeer : s.condemned config with
    | none => exact ⟨info, hget, halive⟩
    | some peer =>
      have hid : peer.nodeId ≠ id := by
        rintro rfl
        have := hspares peer time hpeer (h.beats _ time hbeat)
        omega
      exact ⟨info, by simpa [hid] using hget, halive⟩

theorem Consistent.fresh_step (h : s.Consistent) (hfresh : s.Fresh config) :
    (s.step config a).Fresh config ↔ s.Unseen config a := by
  cases a with
  | pass nanos =>
    refine iff_of_true (fun id time hbeat hrecent => ?_) trivial
    exact hfresh id time hbeat (Nat.lt_of_le_of_lt (Nat.le_add_right _ _) hrecent)
  | updateHeartbeat nodeId => exact iff_of_true hfresh.updateHeartbeat trivial
  | wake =>
    refine iff_of_true ?_ trivial
    simp only [HealthMonitor.step]
    cases s.scan <;> exact hfresh
  | list order =>
    refine iff_of_true ?_ trivial
    simp only [HealthMonitor.step]
    cases s.scan <;> exact hfresh
  | check => exact (h.fresh_check hfresh).trans h.spares_iff

/-- In every interleaving, the peers with a heartbeat less than the timeout ago are alive
throughout, and equally none is marked dead that has been seen so lately, exactly if no peer whose
copy is too old has been seen again before its check. -/
theorem heartbeating_stays_alive (config : PeerConfig) (registry : PeerRegistry) (clock : ℕ)
    (steps : List HealthStep) :
    (Always (step config) (Fresh config) (new registry clock) steps ↔
      Along (step config) (Unseen config) (new registry clock) steps) ∧
    (Along (step config) (Spares config) (new registry clock) steps ↔
      Along (step config) (Unseen config) (new registry clock) steps) := by
  constructor
  · refine always_iff_along_of_inv (J := Consistent) (P := fun _ _ => True)
      (fun s a h _ _ _ => h.step) (fun s a h hfresh _ => h.fresh_step hfresh) consistent_new ?_
      (along_of_forall fun _ _ _ => trivial)
    intro id time hbeat
    simp [new] at hbeat
  · exact along_congr (fun s a h => h.step) (fun s a h => h.spares_iff) consistent_new

/-- A peer of which nothing has been heard for two seconds, with a timeout of one. -/
def lateHeartbeat : HealthMonitor :=
  exec (step ⟨1, 1⟩) (new ((PeerRegistry.new 30).register ⟨7, "h7:1", [], 0, true⟩).1 2000000000)
    [.wake, .list fun t => .sorted t, .updateHeartbeat 7, .check]

/-- Its heartbeat comes between the copy and the check, and the peer is marked dead. -/
theorem heartbeat_lost : lateHeartbeat.beats[(7 : UInt64)]? = some lateHeartbeat.clock ∧
    ¬ lateHeartbeat.registry.Alive 7 := by
  rw [PeerRegistry.alive_iff]
  decide +kernel

end HealthMonitor

end DumbDistributedLog.Peer
