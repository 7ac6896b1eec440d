import Mathlib.Data.List.Nodup
import DumbDistributedLog.Library.Tokens
import DumbDistributedLog.Peer.Tracker

/-! # Each response is delivered once

The sender of a receiver is in the map, in a call of `complete` or gone, and a receiver resolves
when its sender goes. As the sender is in one place, the receiver resolves once. As an id is
registered once, what a sweep removes is what had expired when it read the clock.
-/

namespace DumbDistributedLog.Peer.Tracking

open Runs Tokens

/-- The id of the call of `complete` is in the map, and it was in the map at no earlier call for
this id. -/
def MeetsFirst (defaultTimeout : ℕ) (pre : List TrackerStep) (requestId : RequestId) : Prop :=
  requestId ∈ (exec step (new defaultTimeout) pre).pending ∧
    ∀ pre' response post', pre = pre' ++ .complete requestId response :: post' →
      requestId ∉ (exec step (new defaultTimeout) pre').pending

/-- Each receiver resolves at most once: with the response of the first call of `complete` that met
its id in the map, which is the one that returns true, or because it has expired. -/
structure DeliversOnce (defaultTimeout : ℕ) (acts : List TrackerStep) (s : Tracking) : Prop where
  once : (s.resolutions.map (·.1)).Nodup
  received : ∀ r response, (r, .received response) ∈ s.resolutions →
    ∃ requestId t pre post, s.Registered r requestId t ∧
      acts = pre ++ .complete requestId response :: post ∧
      MeetsFirst defaultTimeout pre requestId
  completed : ∀ pre requestId response post,
    acts = pre ++ .complete requestId response :: post →
    ∀ found, s.returned (exec step (new defaultTimeout) pre).completions.length = some found →
      (found = true ↔ MeetsFirst defaultTimeout pre requestId) ∧
        (found = true → ∃ r t, s.Registered r requestId t ∧ (r, .received response) ∈ s.resolutions)
  returns : ∀ c < s.completions.length, ((s.step (.send c)).returned c).isSome
  cancelled : ∀ r now, (r, .cancelled now) ∈ s.resolutions →
    ∃ requestId t, s.Registered r requestId t ∧ t + defaultTimeout ≤ now
  resolved : ∀ r, (r, .replaced) ∉ s.resolutions

inductive Place where
  | pending (requestId : RequestId)
  | sending (c : ℕ)
  | resolved (k : ℕ)
  deriving DecidableEq

/-- The sender at a place. A resolution has had its sender. -/
def held (s : Tracking) : Place → Option ℕ
  | .pending requestId => s.pending[requestId]?.map (·.sender)
  | .sending c => s.completions[c]?.bind (·.phase.sender)
  | .resolved k => s.resolutions[k]?.map (·.1)

def ids (s : Tracking) : List RequestId := s.registrations.map (·.requestId)

variable {s s' : Tracking} {a : TrackerStep} {acts : List TrackerStep} {id : RequestId}
  {r c k w now t t' : ℕ} {response : PeerResponse} {entry : PendingEntry}

theorem Registered.unique {r' : ℕ} (hd : s.ids.Nodup) (h : s.Registered r id t)
    (h' : s.Registered r' id t') : r = r' ∧ t = t' := by
  obtain ⟨inserted, h⟩ := h
  obtain ⟨inserted', h'⟩ := h'
  have hid : s.ids[r]? = some id := by rw [ids, List.getElem?_map, h, Option.map_some]
  have hid' : s.ids[r']? = some id := by rw [ids, List.getElem?_map, h', Option.map_some]
  have hr : r = r' :=
    (List.getElem?_inj (List.getElem?_eq_some_iff.mp hid).1 hd).mp (hid.trans hid'.symm)
  subst hr
  rw [h] at h'
  cases h'
  exact ⟨rfl, rfl⟩

theorem held_insertEntry (s : Tracking) (r t : ℕ) (id : RequestId) :
    (s.insertEntry r ⟨id, t, false⟩).held = put s.held (.pending id) r := by
  ext1 p
  cases p with
  | pending id' =>
    simp only [held, insertEntry, put, Table.get_insert, Place.pending.injEq, eq_comm (a := id)]
    split_ifs <;> rfl
  | sending c => rfl
  | resolved k => rfl

theorem held_misses (s : Tracking) (id : RequestId) (response : PeerResponse) :
    ({ s with completions := s.completions ++ [⟨id, response, .returned false⟩] } : Tracking).held =
      s.held := by
  ext1 p
  cases p with
  | pending id' => rfl
  | sending c =>
    simp only [held, Calls.get_append]
    split_ifs with hc
    · rw [List.getElem?_eq_none (Nat.le_of_eq hc), Option.bind_none]
      rfl
    · rfl
  | resolved k => rfl

theorem held_finds (hentry : s.pending[id]? = some entry) :
    ({ s with
      pending := s.pending.erase id
      completions := s.completions ++ [⟨id, response, .sending entry.sender⟩] } : Tracking).held =
      move s.held (.pending id) (.sending s.completions.length) := by
  ext1 p
  cases p with
  | pending id' =>
    simp only [held, move, reduceCtorEq, if_false, Table.get_erase, Place.pending.injEq,
      eq_comm (a := id)]
    split_ifs <;> rfl
  | sending c =>
    simp only [held, move, reduceCtorEq, if_false, Calls.get_append, Place.sending.injEq, hentry,
      eq_comm (b := c)]
    split_ifs <;> rfl
  | resolved k => rfl

theorem held_sends (hold : s.completions[c]? = some ⟨id, response, .sending r⟩) :
    ({ s with
      completions := s.completions.set c ⟨id, response, .returned true⟩
      resolutions := s.resolutions ++ [(r, .received response)] } : Tracking).held =
      move s.held (.sending c) (.resolved s.resolutions.length) := by
  ext1 p
  cases p with
  | pending id' => rfl
  | sending c' =>
    simp only [held, move, reduceCtorEq, if_false, Calls.get_set hold, Place.sending.injEq,
      eq_comm (a := c)]
    split_ifs <;> rfl
  | resolved k =>
    simp only [held, move, reduceCtorEq, if_false, Calls.get_append, Place.resolved.injEq, hold,
      eq_comm (b := k)]
    split_ifs <;> rfl

theorem held_removes {sweeps : List Sweep} {reason : Resolution}
    (hentry : s.pending[id]? = some entry) :
    ({ s with
      pending := s.pending.erase id
      sweeps := sweeps
      resolutions := s.resolutions ++ [(entry.sender, reason)] } : Tracking).held =
      move s.held (.pending id) (.resolved s.resolutions.length) := by
  ext1 p
  cases p with
  | pending id' =>
    simp only [held, move, reduceCtorEq, if_false, Table.get_erase, Place.pending.injEq,
      eq_comm (a := id)]
    split_ifs <;> rfl
  | sending c => rfl
  | resolved k =>
    simp only [held, move, reduceCtorEq, if_false, Calls.get_append, Place.resolved.injEq, hentry,
      eq_comm (b := k)]
    split_ifs <;> rfl

/-- Every sender is in one place, and the entry of an id holds the sender of a receiver that was
registered for it. -/
structure Placed (s : Tracking) : Prop where
  onePlace : OnePlace s.held
  inserted : ∀ {p r}, s.held p = some r → s.Inserted r
  entries : ∀ {id : RequestId} {entry : PendingEntry}, s.pending[id]? = some entry →
    ∃ t, s.Registered entry.sender id t ∧ entry.expiresAt = t + s.defaultTimeout

namespace Placed

theorem held_pending (h : s.pending[id]? = some entry) :
    s.held (.pending id) = some entry.sender := by
  rw [held, h, Option.map_some]

theorem pending_eq_none (hd : s.ids.Nodup) (h : s.Placed)
    (hold : s.registrations[r]? = some ⟨id, t, false⟩) : s.pending[id]? = none := by
  cases hentry : s.pending[id]? with
  | none => rfl
  | some entry =>
    obtain ⟨t', hreg, -⟩ := h.entries hentry
    obtain ⟨hr, -⟩ := Registered.unique hd ⟨false, hold⟩ hreg
    obtain ⟨id', t'', hins⟩ := h.inserted (held_pending hentry)
    rw [← hr, hold] at hins
    cases hins

theorem of_entries (h : s.Placed) (hx : s.Extends s') (hone : OnePlace s'.held)
    (hins : ∀ {p r}, s'.held p = some r → s'.Inserted r)
    (hpending : ∀ {id : RequestId} {entry : PendingEntry}, s'.pending[id]? = some entry →
      s.pending[id]? = some entry) : s'.Placed := by
  refine ⟨hone, hins, fun hentry => ?_⟩
  obtain ⟨t, hreg, hexp⟩ := h.entries (hpending hentry)
  exact ⟨t, hx.registered hreg, by rw [hexp, hx.defaultTimeout]⟩

theorem of_same (h : s.Placed) (hx : s.Extends s') (hheld : s'.held = s.held)
    (hpending : s'.pending = s.pending) : s'.Placed := by
  refine h.of_entries hx ?_ ?_ ?_
  · rw [hheld]
    exact h.onePlace
  · intro p r hp
    rw [hheld] at hp
    exact hx.inserted (h.inserted hp)
  · intro id entry hentry
    rwa [hpending] at hentry

theorem of_move {p q : Place} (h : s.Placed) (hx : s.Extends s')
    (hheld : s'.held = move s.held p q)
    (hpending : ∀ {id : RequestId} {entry : PendingEntry}, s'.pending[id]? = some entry →
      s.pending[id]? = some entry) : s'.Placed := by
  refine h.of_entries hx ?_ ?_ hpending
  · rw [hheld]
    exact h.onePlace.move
  · intro x r hr
    rw [hheld] at hr
    rcases move_eq_some hr with ⟨-, hp⟩ | ⟨-, hx'⟩
    · exact hx.inserted (h.inserted hp)
    · exact hx.inserted (h.inserted hx')

theorem insertEntry (h : s.Placed) (hold : s.registrations[r]? = some ⟨id, t, false⟩) :
    (s.insertEntry r ⟨id, t, false⟩).Placed := by
  have hx := extends_insertEntry hold
  have hreg : (s.insertEntry r ⟨id, t, false⟩).registrations[r]? = some ⟨id, t, true⟩ := by
    rw [Tracking.insertEntry, Calls.get_set hold, if_pos rfl]
  refine ⟨?_, ?_, ?_⟩
  · rw [held_insertEntry]
    refine h.onePlace.put fun p hp => ?_
    obtain ⟨id', t', hins⟩ := h.inserted hp
    rw [hold] at hins
    cases hins
  · intro p r' hp
    rw [held_insertEntry] at hp
    rcases put_eq_some hp with ⟨-, rfl⟩ | hp'
    · exact ⟨id, t, hreg⟩
    · exact hx.inserted (h.inserted hp')
  · intro id' entry hentry
    rw [Tracking.insertEntry, Table.get_insert] at hentry
    split_ifs at hentry with hid
    · cases hentry
      subst hid
      exact ⟨t, ⟨true, hreg⟩, rfl⟩
    · obtain ⟨t', hreg', hexp⟩ := h.entries hentry
      exact ⟨t', hx.registered hreg', hexp⟩

theorem moves (hd : s.ids.Nodup) (h : s.Placed) (hm : s.Moves s') : s'.Placed := by
  have hx := hm.extends
  cases hm with
  | stays => exact h
  | ticks d => exact h.of_same hx rfl rfl
  | registers id => exact h.of_same hx rfl rfl
  | inserts hold =>
    rw [dropEntry_of_none (h.pending_eq_none hd hold)]
    exact h.insertEntry hold
  | misses => exact h.of_same hx (held_misses s _ _) rfl
  | finds hentry =>
    exact h.of_move hx (held_finds hentry) fun he => ((Table.get_erase_eq_some _).mp he).2
  | sends hold => exact h.of_move hx (held_sends hold) id
  | sweeps => exact h.of_same hx rfl rfl
  | goesOn => exact h.of_same hx rfl rfl
  | removes hold hentry =>
    exact h.of_move hx (held_removes hentry) fun he => ((Table.get_erase_eq_some _).mp he).2

end Placed

/-- The calls of `complete` that return true are those whose responses are received. -/
structure Completed (s : Tracking) : Prop where
  sending : ∀ {c r : ℕ} {id : RequestId} {response : PeerResponse},
    s.completions[c]? = some ⟨id, response, .sending r⟩ → ∃ t, s.Registered r id t
  sent : ∀ {c : ℕ} {id : RequestId} {response : PeerResponse},
    s.completions[c]? = some ⟨id, response, .returned true⟩ →
      ∃ r t, s.Registered r id t ∧ (r, .received response) ∈ s.resolutions
  received : ∀ {r : ℕ} {response : PeerResponse}, (r, .received response) ∈ s.resolutions →
    ∃ (c : ℕ) (id : RequestId) (t : ℕ), s.Registered r id t ∧
      s.completions[c]? = some ⟨id, response, .returned true⟩

namespace Completed

theorem of_same (h : s.Completed) (hx : s.Extends s') (hcalls : s'.completions = s.completions)
    (hres : ∀ {r : ℕ} {response : PeerResponse}, (r, .received response) ∈ s'.resolutions →
      (r, .received response) ∈ s.resolutions) : s'.Completed := by
  refine ⟨fun hcall => ?_, fun hcall => ?_, fun hin => ?_⟩
  · rw [hcalls] at hcall
    obtain ⟨t, hreg⟩ := h.sending hcall
    exact ⟨t, hx.registered hreg⟩
  · rw [hcalls] at hcall
    obtain ⟨r, t, hreg, hin⟩ := h.sent hcall
    exact ⟨r, t, hx.registered hreg, hx.resolutions hin⟩
  · obtain ⟨c, id, t, hreg, hcall⟩ := h.received (hres hin)
    exact ⟨c, id, t, hx.registered hreg, by rw [hcalls, hcall]⟩

theorem of_append {phase : CompletePhase} (h : s.Completed) (hx : s.Extends s')
    (hcalls : s'.completions = s.completions ++ [⟨id, response, phase⟩])
    (hres : s'.resolutions = s.resolutions) (hphase : phase ≠ .returned true)
    (hsending : ∀ r, phase = .sending r → ∃ t, s.Registered r id t) : s'.Completed := by
  refine ⟨fun hcall => ?_, fun hcall => ?_, fun hin => ?_⟩
  · rw [hcalls, Calls.get_append] at hcall
    split_ifs at hcall with hc
    · cases hcall
      obtain ⟨t, hreg⟩ := hsending _ rfl
      exact ⟨t, hx.registered hreg⟩
    · obtain ⟨t, hreg⟩ := h.sending hcall
      exact ⟨t, hx.registered hreg⟩
  · rw [hcalls, Calls.get_append] at hcall
    split_ifs at hcall with hc
    · cases hcall
      exact absurd rfl hphase
    · obtain ⟨r, t, hreg, hin⟩ := h.sent hcall
      exact ⟨r, t, hx.registered hreg, hx.resolutions hin⟩
  · rw [hres] at hin
    obtain ⟨c, id, t, hreg, hold⟩ := h.received hin
    exact ⟨c, id, t, hx.registered hreg, by rw [hcalls, Calls.get_append_of_some hold]⟩

theorem of_send (h : s.Completed) (hx : s.Extends s')
    (hold : s.completions[c]? = some ⟨id, response, .sending r⟩)
    (hcalls : s'.completions = s.completions.set c ⟨id, response, .returned true⟩)
    (hres : s'.resolutions = s.resolutions ++ [(r, .received response)]) : s'.Completed := by
  have hget : ∀ i : ℕ, s'.completions[i]? =
      if c = i then some ⟨id, response, .returned true⟩ else s.completions[i]? := by
    intro i
    rw [hcalls, Calls.get_set hold]
  obtain ⟨t, hreg⟩ := h.sending hold
  refine ⟨fun hcall => ?_, fun hcall => ?_, fun hin => ?_⟩
  · rw [hget] at hcall
    split_ifs at hcall with hc
    · cases hcall
    · obtain ⟨t, hreg⟩ := h.sending hcall
      exact ⟨t, hx.registered hreg⟩
  · rw [hget] at hcall
    split_ifs at hcall with hc
    · cases hcall
      exact ⟨r, t, hx.registered hreg, by simp [hres]⟩
    · obtain ⟨r', t', hreg', hin⟩ := h.sent hcall
      exact ⟨r', t', hx.registered hreg', hx.resolutions hin⟩
  · rw [hres, List.mem_append, List.mem_singleton] at hin
    rcases hin with hin | hin
    · obtain ⟨c', id', t', hreg', hcall⟩ := h.received hin
      refine ⟨c', id', t', hx.registered hreg', ?_⟩
      rw [hget, if_neg, hcall]
      rintro rfl
      rw [hold] at hcall
      cases hcall
    · cases hin
      exact ⟨c, id, t, hx.registered hreg, by rw [hget, if_pos rfl]⟩

theorem moves (hd : s.ids.Nodup) (hp : s.Placed) (h : s.Completed) (hm : s.Moves s') :
    s'.Completed := by
  have hx := hm.extends
  cases hm with
  | stays => exact h
  | ticks d => exact h.of_same hx rfl id
  | registers id => exact h.of_same hx rfl fun hin => hin
  | inserts hold =>
    rw [dropEntry_of_none (hp.pending_eq_none hd hold)] at hx ⊢
    exact h.of_same hx rfl id
  | misses => exact h.of_append hx rfl rfl (by simp) (by simp)
  | finds hentry =>
    refine h.of_append hx rfl rfl (by simp) fun r hr => ?_
    cases hr
    obtain ⟨t, hreg, -⟩ := hp.entries hentry
    exact ⟨t, hreg⟩
  | sends hold => exact h.of_send hx hold rfl rfl
  | sweeps => exact h.of_same hx rfl id
  | goesOn => exact h.of_same hx rfl id
  | removes hold hentry => exact h.of_same hx rfl fun hin => by simpa using hin

end Completed

/-- What a sweep removes had expired when the sweep read the clock. -/
structure Swept (s : Tracking) : Prop where
  sweeps : ∀ {w now : ℕ} {phase : SweepPhase}, s.sweeps[w]? = some ⟨now, phase⟩ →
    now ≤ s.clock ∧ ∀ id ∈ phase.expired, ∃ r t, s.Registered r id t ∧ t + s.defaultTimeout ≤ now
  cancelled : ∀ {r now : ℕ}, (r, .cancelled now) ∈ s.resolutions →
    ∃ id t, s.Registered r id t ∧ t + s.defaultTimeout ≤ now
  replaced : ∀ r, (r, .replaced) ∉ s.resolutions

namespace Swept

theorem extend {ids : List RequestId} (hx : s.Extends s')
    (h : now ≤ s.clock ∧ ∀ id ∈ ids, ∃ r t, s.Registered r id t ∧ t + s.defaultTimeout ≤ now) :
    now ≤ s'.clock ∧ ∀ id ∈ ids, ∃ r t, s'.Registered r id t ∧ t + s'.defaultTimeout ≤ now := by
  refine ⟨h.1.trans hx.clock, fun id hid => ?_⟩
  obtain ⟨r, t, hreg, hle⟩ := h.2 id hid
  exact ⟨r, t, hx.registered hreg, by rwa [hx.defaultTimeout]⟩

theorem of_sweeps (h : s.Swept) (hx : s.Extends s')
    (hsweeps : ∀ {w now : ℕ} {phase : SweepPhase}, s'.sweeps[w]? = some ⟨now, phase⟩ →
      s.sweeps[w]? = some ⟨now, phase⟩ ∨ (now ≤ s.clock ∧ ∀ id ∈ phase.expired,
        ∃ r t, s.Registered r id t ∧ t + s.defaultTimeout ≤ now))
    (hres : ∀ {r : ℕ} {x : Resolution}, (r, x) ∈ s'.resolutions → (r, x) ∈ s.resolutions ∨
      (∃ response, x = .received response) ∨
        ∃ id t now, x = .cancelled now ∧ s.Registered r id t ∧ t + s.defaultTimeout ≤ now) :
    s'.Swept := by
  refine ⟨fun hw => ?_, fun hin => ?_, fun r hin => ?_⟩
  · rcases hsweeps hw with hold | hnew
    · exact extend hx (h.sweeps hold)
    · exact extend hx hnew
  · rcases hres hin with hold | ⟨response, hr⟩ | ⟨id, t, now, hc, hreg, hle⟩
    · obtain ⟨id, t, hreg, hle⟩ := h.cancelled hold
      exact ⟨id, t, hx.registered hreg, by rwa [hx.defaultTimeout]⟩
    · cases hr
    · cases hc
      exact ⟨id, t, hx.registered hreg, by rwa [hx.defaultTimeout]⟩
  · rcases hres hin with hold | ⟨response, hr⟩ | ⟨id, t, now, hc, -⟩
    · exact h.replaced r hold
    · cases hr
    · cases hc

theorem sweeps_set {old phase : SweepPhase} (h : s.Swept)
    (hold : s.sweeps[w]? = some ⟨now, old⟩)
    (hphase : ∀ id ∈ phase.expired, id ∈ old.expired ∨
      ∃ r t, s.Registered r id t ∧ t + s.defaultTimeout ≤ now)
    {w' now' : ℕ} {phase' : SweepPhase}
    (hw : (s.sweeps.set w ⟨now, phase⟩)[w']? = some ⟨now', phase'⟩) :
    s.sweeps[w']? = some ⟨now', phase'⟩ ∨ (now' ≤ s.clock ∧ ∀ id ∈ phase'.expired,
      ∃ r t, s.Registered r id t ∧ t + s.defaultTimeout ≤ now') := by
  rw [Calls.get_set hold] at hw
  split_ifs at hw with hww
  · cases hw
    obtain ⟨hle, hexp⟩ := h.sweeps hold
    exact .inr ⟨hle, fun id hid => (hphase id hid).elim (hexp id) fun hr => hr⟩
  · exact .inl hw

/-- The entry that a sweep removes is the one that had expired, as its id is registered once. -/
theorem entry_expired {phase : SweepPhase} (hd : s.ids.Nodup) (hp : s.Placed) (h : s.Swept)
    (hold : s.sweeps[w]? = some ⟨now, phase⟩) (hid : id ∈ phase.expired)
    (hentry : s.pending[id]? = some entry) :
    ∃ t, s.Registered entry.sender id t ∧ t + s.defaultTimeout ≤ s.clock := by
  obtain ⟨hle, hexp⟩ := h.sweeps hold
  obtain ⟨r, t, hreg, ht⟩ := hexp id hid
  obtain ⟨t', hreg', -⟩ := hp.entries hentry
  obtain ⟨rfl, rfl⟩ := Registered.unique hd hreg hreg'
  exact ⟨t, hreg, ht.trans hle⟩

theorem moves (hd : s.ids.Nodup) (hp : s.Placed) (h : s.Swept) (hm : s.Moves s') : s'.Swept := by
  have hx := hm.extends
  cases hm with
  | stays => exact h
  | ticks d => exact h.of_sweeps hx .inl .inl
  | registers id => exact h.of_sweeps hx .inl .inl
  | inserts hold =>
    rw [dropEntry_of_none (hp.pending_eq_none hd hold)] at hx ⊢
    exact h.of_sweeps hx .inl .inl
  | misses => exact h.of_sweeps hx .inl .inl
  | finds => exact h.of_sweeps hx .inl .inl
  | sends =>
    refine h.of_sweeps hx .inl fun hin => ?_
    rw [List.mem_append, List.mem_singleton] at hin
    rcases hin with hin | hin
    · exact .inl hin
    · cases hin
      exact .inr (.inl ⟨_, rfl⟩)
  | sweeps =>
    refine h.of_sweeps hx (fun hw => ?_) .inl
    rw [Calls.get_append] at hw
    split_ifs at hw with hlen
    · cases hw
      exact .inr ⟨le_rfl, by simp [SweepPhase.expired]⟩
    · exact .inl hw
  | goesOn hold hphase =>
    refine h.of_sweeps hx (h.sweeps_set hold fun id hid => ?_) .inl
    rcases hphase id hid with hid | ⟨entry, hentry, hle⟩
    · exact .inl hid
    · obtain ⟨t, hreg, hexp⟩ := hp.entries hentry
      exact .inr ⟨entry.sender, t, hreg, hexp ▸ hle⟩
  | removes hold hentry =>
    refine h.of_sweeps hx (fun hw => ?_) fun hin => ?_
    · refine h.sweeps_set hold ?_ hw
      exact fun id hid => .inl (List.mem_cons_of_mem _ hid)
    rw [List.mem_append, List.mem_singleton] at hin
    rcases hin with hin | hin
    · exact .inl hin
    · cases hin
      obtain ⟨t, hreg, hle⟩ := h.entry_expired hd hp hold List.mem_cons_self hentry
      exact .inr (.inr ⟨_, t, _, rfl, hreg, hle⟩)

end Swept

theorem frame_visit (s : Tracking) (w : ℕ) (id : RequestId) :
    (s.step (.visit w id)).registrations = s.registrations ∧
      (s.step (.visit w id)).completions = s.completions := by
  dsimp only [step, visit]
  split
  · split
    · split_ifs <;> exact ⟨rfl, rfl⟩
    · exact ⟨rfl, rfl⟩
  · exact ⟨rfl, rfl⟩

theorem frame_collect (s : Tracking) (w : ℕ) :
    (s.step (.collect w)).registrations = s.registrations ∧
      (s.step (.collect w)).completions = s.completions := by
  dsimp only [step]
  split <;> exact ⟨rfl, rfl⟩

theorem frame_remove (s : Tracking) (w : ℕ) :
    (s.step (.remove w)).registrations = s.registrations ∧
      (s.step (.remove w)).completions = s.completions := by
  dsimp only [step]
  split <;> simp [setSweep]

theorem ids_step (s : Tracking) (a : TrackerStep) :
    (s.step a).ids = s.ids ++ a.registers.toList := by
  cases a with
  | tick d => simp [step, ids, TrackerStep.registers]
  | register id => simp [step, ids, TrackerStep.registers]
  | insert r =>
    dsimp only [step]
    split
    next id t hold => simp [ids, insertEntry, TrackerStep.registers, Calls.map_set hold]
    next => simp [TrackerStep.registers]
  | complete id response =>
    dsimp only [step, complete]
    split <;> simp [ids, TrackerStep.registers]
  | send c =>
    dsimp only [step, send]
    split
    · split <;> simp [ids, TrackerStep.registers]
    · simp [TrackerStep.registers]
  | cancelExpired => simp [step, ids, TrackerStep.registers]
  | visit w id => simp [ids, frame_visit, TrackerStep.registers]
  | collect w => simp [ids, frame_collect, TrackerStep.registers]
  | remove w => simp [ids, frame_remove, TrackerStep.registers]

/-- The calls of `complete` so far, and whether each has found an entry. -/
def log (s : Tracking) : List (RequestId × PeerResponse × Bool) :=
  s.completions.map fun call => (call.requestId, call.response, call.phase.found)

def calls (s : Tracking) : TrackerStep → List (RequestId × PeerResponse × Bool)
  | .complete id response => [(id, response, decide (id ∈ s.pending))]
  | _ => []

theorem log_complete (s : Tracking) (id : RequestId) (response : PeerResponse) :
    (s.complete id response).log = s.log ++ [(id, response, decide (id ∈ s.pending))] := by
  cases hentry : s.pending[id]? with
  | none =>
    have hnot : id ∉ s.pending := by simp [Table.mem_iff_get, hentry]
    simp [complete, log, hnot, CompletePhase.found]
  | some entry =>
    have hin : id ∈ s.pending := by simp [Table.mem_iff_get, hentry]
    simp [complete, log, hin, CompletePhase.found]

theorem log_send {call : Completion} (hold : s.completions[c]? = some call) :
    (s.send c call).log = s.log := by
  obtain ⟨id, response, phase⟩ := call
  cases phase with
  | sending r => exact Calls.map_set hold rfl
  | returned found => rfl

theorem log_step (s : Tracking) (a : TrackerStep) : (s.step a).log = s.log ++ s.calls a := by
  cases a with
  | tick d => simp [step, log, calls]
  | register id => simp [step, log, calls]
  | insert r =>
    dsimp only [step]
    split <;> simp [log, insertEntry, calls]
  | complete id response => exact log_complete s id response
  | send c =>
    dsimp only [step]
    split
    next hold => simp [log_send hold, calls]
    next => simp [calls]
  | cancelExpired => simp [step, log, calls]
  | visit w id => simp [log, frame_visit, calls]
  | collect w => simp [log, frame_collect, calls]
  | remove w => simp [log, frame_remove, calls]

theorem log_prefix_step (s : Tracking) (a : TrackerStep) : s.log <+: (s.step a).log := by
  rw [log_step]
  exact List.prefix_append _ _

theorem log_prefix_exec (s : Tracking) (acts : List TrackerStep) :
    s.log <+: (exec step s acts).log :=
  exec_inv (I := fun s' => s.log <+: s'.log) (fun s' a h => h.trans (log_prefix_step s' a))
    List.prefix_rfl

theorem ids_exec (s : Tracking) (acts : List TrackerStep) :
    (exec step s acts).ids = s.ids ++ acts.filterMap TrackerStep.registers := by
  induction acts generalizing s with
  | nil => simp
  | cons a acts ih =>
    rw [exec_cons, ih, ids_step, List.append_assoc]
    cases ha : a.registers <;> simp [ha]

theorem log_of_split {pre post : List TrackerStep}
    (hsplit : acts = pre ++ .complete id response :: post) :
    (exec step s acts).log[(exec step s pre).completions.length]? =
      some (id, response, decide (id ∈ (exec step s pre).pending)) := by
  have hprefix : (exec step s pre).log ++ [(id, response, decide (id ∈ (exec step s pre).pending))]
      <+: (exec step s acts).log := by
    rw [hsplit, exec_append, exec_cons, ← log_complete]
    exact log_prefix_exec _ _
  have hlen : (exec step s pre).completions.length = (exec step s pre).log.length := by
    rw [log, List.length_map]
  obtain ⟨rest, hrest⟩ := hprefix
  rw [← hrest, hlen]
  simp

theorem split_of_log {found : Bool}
    (hc : (exec step (new t) acts).log[c]? = some (id, response, found)) :
    ∃ pre post, acts = pre ++ .complete id response :: post ∧
      (exec step (new t) pre).completions.length = c ∧
      found = decide (id ∈ (exec step (new t) pre).pending) := by
  induction acts using List.reverseRecOn with
  | nil => simp [new, log] at hc
  | append_singleton acts a ih =>
    rw [exec_append, exec_cons, exec_nil, log_step] at hc
    by_cases hlt : c < (exec step (new t) acts).log.length
    · rw [List.getElem?_append_left hlt] at hc
      obtain ⟨pre, post, hsplit, hrest⟩ := ih hc
      exact ⟨pre, post ++ [a], by simp [hsplit], hrest⟩
    · rw [List.getElem?_append_right (Nat.le_of_not_lt hlt)] at hc
      cases a with
      | complete id' response' =>
        rw [calls, List.getElem?_singleton] at hc
        split_ifs at hc with hzero
        cases hc
        refine ⟨acts, [], rfl, ?_, rfl⟩
        rw [log, List.length_map] at hlt hzero
        omega
      | _ => simp [calls] at hc

/-- What is known of the tracker when the ids are registered once. -/
structure Tracked (s : Tracking) : Prop where
  placed : s.Placed
  completed : s.Completed
  swept : s.Swept

theorem tracked_new (defaultTimeout : ℕ) : (new defaultTimeout).Tracked where
  placed := by
    refine ⟨?_, ?_, ?_⟩
    · rintro r (id | c | k) q hp hq <;> simp [held, new] at hp
    · rintro (id | c | k) r hp <;> simp [held, new] at hp
    · intro id entry hentry
      simp [new] at hentry
  completed := by constructor <;> simp [new]
  swept := by constructor <;> simp [new]

theorem Tracked.step (hd : s.ids.Nodup) (h : s.Tracked) (a : TrackerStep) :
    (s.step a).Tracked where
  placed := h.placed.moves hd (moves_step s a)
  completed := h.completed.moves hd h.placed (moves_step s a)
  swept := h.swept.moves hd h.placed (moves_step s a)

theorem tracked_exec {defaultTimeout : ℕ}
    (hd : (exec step (new defaultTimeout) acts).ids.Nodup) :
    (exec step (new defaultTimeout) acts).Tracked := by
  have hinv : (exec step (new defaultTimeout) acts).ids.Nodup →
      (exec step (new defaultTimeout) acts).Tracked := by
    refine exec_inv (I := fun s : Tracking => s.ids.Nodup → s.Tracked)
      (fun s a h hstep => ?_) fun _ => ?_
    · have hs : s.ids.Nodup := by
        rw [ids_step] at hstep
        exact hstep.of_append_left
      exact (h hs).step hs a
    · exact tracked_new defaultTimeout
  exact hinv hd

theorem Tracked.not_mem_of_found (hd : s.ids.Nodup) (h : s.Tracked)
    (hfound : s.log[c]? = some (id, response, true)) : id ∉ s.pending := by
  intro hin
  obtain ⟨entry, hentry⟩ := (Table.mem_iff_get _).mp hin
  obtain ⟨t, hreg, -⟩ := h.placed.entries hentry
  have hheld := Placed.held_pending hentry
  rw [log, List.getElem?_map, Option.map_eq_some_iff] at hfound
  obtain ⟨⟨id', response', phase⟩, hcall, heq⟩ := hfound
  cases phase with
  | sending r =>
    cases heq
    obtain ⟨t', hreg'⟩ := h.completed.sending hcall
    obtain ⟨rfl, -⟩ := hreg.unique hd hreg'
    have hsending : s.held (.sending c) = some entry.sender := by
      rw [held, hcall]
      rfl
    cases h.placed.onePlace _ _ _ hheld hsending
  | returned found =>
    obtain rfl : found = true := congrArg (·.2.2) heq
    cases heq
    obtain ⟨r, t', hreg', hres⟩ := h.completed.sent hcall
    obtain ⟨rfl, -⟩ := hreg.unique hd hreg'
    obtain ⟨k, hk⟩ := List.mem_iff_getElem?.mp hres
    have hresolved : s.held (.resolved k) = some entry.sender := by
      rw [held, hk, Option.map_some]
    cases h.placed.onePlace _ _ _ hheld hresolved

theorem meetsFirst_iff {defaultTimeout : ℕ} {pre : List TrackerStep}
    (hd : (exec step (new defaultTimeout) pre).ids.Nodup) :
    MeetsFirst defaultTimeout pre id ↔ id ∈ (exec step (new defaultTimeout) pre).pending := by
  refine ⟨fun h => h.1, fun hin => ⟨hin, fun pre' response post' hsplit hin' => ?_⟩⟩
  have hlog := log_of_split (s := new defaultTimeout) hsplit
  rw [decide_eq_true hin'] at hlog
  exact (tracked_exec hd).not_mem_of_found hd hlog hin

theorem nodup_resolutions (h : s.Placed) : (s.resolutions.map (·.1)).Nodup := by
  refine List.nodup_iff_getElem?_ne_getElem?.mpr fun i j hij hj heq => ?_
  rw [List.getElem?_map, List.getElem?_map] at heq
  have hlt : j < s.resolutions.length := by rwa [List.length_map] at hj
  have hheld : s.held (.resolved j) = some (s.resolutions[j].1) := by
    rw [held, List.getElem?_eq_getElem hlt, Option.map_some]
  cases h.onePlace _ (.resolved i) (.resolved j) (heq.trans hheld) hheld
  exact Nat.lt_irrefl _ hij

theorem isSome_returned_send (hc : c < s.completions.length) :
    ((s.step (.send c)).returned c).isSome := by
  obtain ⟨⟨id, response, phase⟩, hold⟩ : ∃ call, s.completions[c]? = some call :=
    ⟨s.completions[c], List.getElem?_eq_getElem hc⟩
  cases phase with
  | sending r => simp [step, hold, send, returned, Calls.get_set hold, CompletePhase.result]
  | returned found => simp [step, hold, send, returned, CompletePhase.result]

theorem nodup_ids_pre {defaultTimeout : ℕ} {pre post : List TrackerStep}
    (hd : (exec step (new defaultTimeout) acts).ids.Nodup) (hsplit : acts = pre ++ a :: post) :
    (exec step (new defaultTimeout) pre).ids.Nodup := by
  rw [hsplit, exec_append, ids_exec] at hd
  exact hd.of_append_left

theorem completion_of_returned {found : Bool} {pre post : List TrackerStep}
    (hsplit : acts = pre ++ .complete id response :: post)
    (hreturned : (exec step s acts).returned (exec step s pre).completions.length = some found) :
    (exec step s acts).completions[(exec step s pre).completions.length]? =
        some ⟨id, response, .returned found⟩ ∧
      found = decide (id ∈ (exec step s pre).pending) := by
  have hlog := log_of_split (s := s) hsplit
  rw [log, List.getElem?_map, Option.map_eq_some_iff] at hlog
  obtain ⟨⟨id', response', phase⟩, hcall, heq⟩ := hlog
  rw [returned, hcall] at hreturned
  cases phase with
  | sending r => cases hreturned
  | returned found' =>
    cases hreturned
    obtain ⟨rfl, rfl, hfound⟩ : id' = id ∧ response' = response ∧ _ := by simpa using heq
    exact ⟨hcall, hfound⟩

theorem received_first {defaultTimeout : ℕ}
    (hd : (exec step (new defaultTimeout) acts).ids.Nodup)
    (hin : (r, .received response) ∈ (exec step (new defaultTimeout) acts).resolutions) :
    ∃ id t pre post, (exec step (new defaultTimeout) acts).Registered r id t ∧
      acts = pre ++ .complete id response :: post ∧ MeetsFirst defaultTimeout pre id := by
  obtain ⟨c, id, t, hreg, hcall⟩ := (tracked_exec hd).completed.received hin
  have hlog : (exec step (new defaultTimeout) acts).log[c]? = some (id, response, true) := by
    rw [log, List.getElem?_map, hcall]
    rfl
  obtain ⟨pre, post, hsplit, -, hfound⟩ := split_of_log hlog
  refine ⟨id, t, pre, post, hreg, hsplit, ?_⟩
  exact (meetsFirst_iff (nodup_ids_pre hd hsplit)).mpr (of_decide_eq_true hfound.symm)

/-- Calls of `register`, `complete` and `cancel_expired` in any order, cut at any of their steps,
resolve every receiver at most once and as they should, if no id is registered twice. -/
theorem deliversOnce (defaultTimeout : ℕ) (acts : List TrackerStep)
    (hids : (acts.filterMap TrackerStep.registers).Nodup) :
    DeliversOnce defaultTimeout acts (exec step (new defaultTimeout) acts) := by
  have hd : (exec step (new defaultTimeout) acts).ids.Nodup := by rwa [ids_exec]
  have h := tracked_exec hd
  refine ⟨nodup_resolutions h.placed, fun r response hin => received_first hd hin, ?_,
    fun c hc => isSome_returned_send hc, fun r now hin => ?_, h.swept.replaced⟩
  · intro pre id response post hsplit found hreturned
    obtain ⟨hcall, hfound⟩ := completion_of_returned hsplit hreturned
    rw [meetsFirst_iff (nodup_ids_pre hd hsplit), hfound, decide_eq_true_iff]
    refine ⟨Iff.rfl, fun hin => ?_⟩
    rw [hfound, decide_eq_true hin] at hcall
    exact h.completed.sent hcall
  · obtain ⟨id, t, hreg, hle⟩ := h.swept.cancelled hin
    rw [defaultTimeout_exec] at hle
    exact ⟨id, t, hreg, hle⟩

/-- A response comes in time for the first id, and the second one expires. -/
theorem deliversOnce_swept :
    let acts : List TrackerStep := [.register 1, .insert 0, .register 2, .insert 1,
      .complete 1 (.ofSuccess 1 2 [7] 0), .tick 5, .cancelExpired, .visit 0 2, .send 0, .collect 0,
      .remove 0]
    (acts.filterMap TrackerStep.registers).Nodup ∧
      (exec step (new 5) acts).resolutions =
        [(0, .received (.ofSuccess 1 2 [7] 0)), (1, .cancelled 5)] ∧
      DeliversOnce 5 acts (exec step (new 5) acts) := by
  intro acts
  have hids : (acts.filterMap TrackerStep.registers).Nodup := by decide
  exact ⟨hids, by decide +kernel, deliversOnce 5 acts hids⟩

end DumbDistributedLog.Peer.Tracking
