import DumbDistributedLog.Ownership.Boundaries
import DumbDistributedLog.Ownership.Holders

/-! # Renewals out of order

A renewal sets the end of a lease from its own timestamp and looks at nothing but the
end that the record has. Timestamps of several nodes reach the log in any order, so a
late renewal may pull the end back, and a record whose key has gone to another lease
may be found unexpired by an old clock. Beside the state we keep, for each id, the
timestamp that set the end of its record and the one at which its key was taken over.
A run moves ends forward only, and only of current leases, exactly when its renewals
come after these.
-/

namespace DumbDistributedLog

open OwnershipState Runs

/-- If renewing changes the state, it moves the end of the record forward and does
nothing else, and the record is the one that its key names. -/
def RenewsForward (s : OwnershipState) (i t : UInt64) : Prop :=
  s.apply (.renewLease i t) ≠ s → ∃ l, s.leases[i]? = some l ∧ s.keyLeases[l.key]? = some i ∧
    ∃ e, l.expiresAt < e ∧
      s.apply (.renewLease i t) = { s with leases := s.leases.insert i { l with expiresAt := e } }

/-- A command moves no end but that of a current lease, and that one forward, by renewal. -/
def ForwardRenewal (s : OwnershipState) : OwnershipCommand → Prop
  | .renewLease i t => RenewsForward s i t
  | _ => True

/-- A state with the timestamp that set the end of each record and the timestamp of the
acquisition that took its key. -/
structure Timed where
  state : OwnershipState
  endSetAt : Table UInt64 UInt64
  replacedAt : Table UInt64 UInt64

namespace Timed

def new : Timed := ⟨.new, ∅, ∅⟩

/-- Note that the key of a granted lease leaves the id that it named. -/
def grant (d : Timed) (s : OwnershipState) (l : LeaseEntry) : Timed where
  state := s
  endSetAt := d.endSetAt.insert l.id l.acquiredAt
  replacedAt :=
    ((d.state.keyLeases[l.key]?.elim d.replacedAt) fun old => d.replacedAt.insert old l.acquiredAt)
      |>.erase l.id

/-- Note a renewal that finds its record unexpired. -/
def renew (d : Timed) (s : OwnershipState) (i t : UInt64) : Timed where
  state := s
  endSetAt := if d.state.isLeaseValid i t then d.endSetAt.insert i t else d.endSetAt
  replacedAt := d.replacedAt

def step (d : Timed) (c : OwnershipCommand) : Timed :=
  match c, d.state.grantedLease c with
  | _, some l => d.grant (d.state.apply c) l
  | .renewLease i t, none => d.renew (d.state.apply c) i t
  | _, none => { d with state := d.state.apply c }

/-- A renewal that is about to move the end of an unexpired record is not older than the
timestamp that set the end, nor than the one at which the key was taken over. -/
def InOrder (d : Timed) : OwnershipCommand → Prop
  | .renewLease i t => ∀ l ∈ d.state.leases[i]?, t < l.expiresAt →
    leaseExpiry t l.ttlSecs ≠ l.expiresAt →
      (∀ r ∈ d.endSetAt[i]?, r ≤ t) ∧ ∀ g ∈ d.replacedAt[i]?, g ≤ t
  | _ => True

instance (d : Timed) : DecidablePred d.InOrder
  | .renewLease i t =>
    have := U64.decidableForallMem (P := (· ≤ t)) d.endSetAt[i]?
    have := U64.decidableForallMem (P := (· ≤ t)) d.replacedAt[i]?
    inferInstanceAs (Decidable (∀ l ∈ d.state.leases[i]?, t < l.expiresAt →
      leaseExpiry t l.ttlSecs ≠ l.expiresAt →
        (∀ r ∈ d.endSetAt[i]?, r ≤ t) ∧ ∀ g ∈ d.replacedAt[i]?, g ≤ t))
  | .claimTopic .. | .releaseTopic .. | .transferTopic .. | .acquireLease .. | .releaseLease ..
  | .expireLeases .. => .isTrue trivial

/-- The noted timestamps fit the tables. -/
structure Fits (d : Timed) : Prop where
  index : KeyIndex d.state
  ends : ∀ (i : UInt64) (l : LeaseEntry), d.state.leases[i]? = some l →
    ∃ r, d.endSetAt[i]? = some r ∧ l.expiresAt = leaseExpiry r l.ttlSecs
  current : ∀ (i : UInt64) (l : LeaseEntry), d.state.leases[i]? = some l →
    d.replacedAt[i]? = none → d.state.keyLeases[l.key]? = some i
  replaced : ∀ (i : UInt64) (l : LeaseEntry) (g : UInt64), d.state.leases[i]? = some l →
    d.replacedAt[i]? = some g → d.state.keyLeases[l.key]? ≠ some i ∧ l.expiresAt ≤ g

end Timed

variable {s : OwnershipState} {d : Timed} {c : OwnershipCommand} {i t r ttlSecs : UInt64}
  {l : LeaseEntry}

theorem leaseExpiry_le (h : r ≤ t) : leaseExpiry r ttlSecs ≤ leaseExpiry t ttlSecs := by
  rw [UInt64.le_iff_toNat_le] at h ⊢
  rw [toNat_leaseExpiry, toNat_leaseExpiry]
  omega

theorem leaseExpiry_lt_iff (hne : leaseExpiry t ttlSecs ≠ leaseExpiry r ttlSecs) :
    leaseExpiry r ttlSecs < leaseExpiry t ttlSecs ↔ r ≤ t := by
  constructor
  · intro hlt
    exact not_lt.mp fun htr => not_lt.mpr (leaseExpiry_le htr.le) hlt
  · intro hrt
    exact lt_of_le_of_ne (leaseExpiry_le hrt) hne.symm

theorem renewsForward_iff_of_moved (hl : s.leases[i]? = some l) (ht : t < l.expiresAt)
    (hmoved : leaseExpiry t l.ttlSecs ≠ l.expiresAt) : RenewsForward s i t ↔
      l.expiresAt < leaseExpiry t l.ttlSecs ∧ s.keyLeases[l.key]? = some i := by
  have hinsert := apply_renewLease_eq_insert hl ht
  have hget : (s.apply (.renewLease i t)).leases[i]? =
      some { l with expiresAt := leaseExpiry t l.ttlSecs } := by
    rw [hinsert]
    exact Std.ExtTreeMap.getElem?_insert_self
  constructor
  · intro h
    have hne : s.apply (.renewLease i t) ≠ s := by
      intro heq
      rw [heq, hl] at hget
      exact hmoved (congrArg LeaseEntry.expiresAt (Option.some.inj hget)).symm
    obtain ⟨a, ha, hkey, e, hlt, heq⟩ := h hne
    obtain rfl := Option.some.inj (ha.symm.trans hl)
    rw [heq] at hget
    have hsame := Option.some.inj (Std.ExtTreeMap.getElem?_insert_self.symm.trans hget)
    have he : e = leaseExpiry t a.ttlSecs := congrArg LeaseEntry.expiresAt hsame
    exact ⟨he ▸ hlt, hkey⟩
  · rintro ⟨hlt, hkey⟩ _
    exact ⟨l, hl, hkey, _, hlt, hinsert⟩

theorem tables_of_granted (h : s.grantedLease c = some l) :
    (s.apply c).leases = (s.grant l).leases ∧ (s.apply c).keyLeases = (s.grant l).keyLeases := by
  obtain ⟨hc, hl, ha⟩ := grantedLease_eq_some h
  rw [hc]
  simp only [apply, show s.liveLease l.key l.acquiredAt = none from ha]
  rw [← hl]
  exact ⟨rfl, rfl⟩

theorem records_kept (hg : s.grantedLease c = none) (hr : ∀ i t, c ≠ .renewLease i t)
    {j : UInt64} {a : LeaseEntry} (ha : (s.apply c).leases[j]? = some a) : s.leases[j]? = some a ∧
      ((s.apply c).keyLeases[a.key]? = some j ↔ s.keyLeases[a.key]? = some j) := by
  refine perform_cases (motive := fun s' : OwnershipState => s'.leases[j]? = some a →
      s.leases[j]? = some a ∧ (s'.keyLeases[a.key]? = some j ↔ s.keyLeases[a.key]? = some j))
    (.apply c) ?keep ?grant ?renew ?release ?sweep ha
  case keep =>
    intro s' hl hk _ _ _ ha
    rw [hl] at ha
    rw [hk]
    exact ⟨ha, Iff.rfl⟩
  case grant =>
    intro l s' hl
    have hl' : s.grantedLease c = some l := hl
    rw [hg] at hl'
    cases hl'
  case renew =>
    intro i t heq
    exact absurd (MachineOp.apply.inj heq) (hr i t)
  case release =>
    intro key id _ hid ha
    obtain ⟨hne, ha⟩ := (Table.get_erase_eq_some _).mp ha
    refine ⟨ha, ?_⟩
    rw [Table.get_erase_eq_some]
    refine and_iff_right_of_imp fun hj hkey => ?_
    rw [← hkey, hid] at hj
    exact hne (Option.some.inj hj)
  case sweep =>
    intro now _ _ _ ha
    obtain ⟨ha, hkept⟩ := get_leases_forget_eq_some.mp ha
    refine ⟨ha, ?_⟩
    rw [get_keyLeases_forget_eq_some]
    exact and_iff_right hkept

namespace Timed

@[simp] theorem state_step (d : Timed) (c : OwnershipCommand) :
    (d.step c).state = d.state.apply c := by
  unfold step
  split <;> rfl

theorem step_of_granted (h : d.state.grantedLease c = some l) :
    d.step c = d.grant (d.state.apply c) l := by
  unfold step
  rw [h]

theorem get_replacedAt_grant {s' : OwnershipState} (hi : l.id ≠ i) :
    (d.grant s' l).replacedAt[i]? =
      if d.state.keyLeases[l.key]? = some i then some l.acquiredAt else d.replacedAt[i]? := by
  refine ((Table.get_erase _ _ _).trans (if_neg hi)).trans ?_
  cases d.state.keyLeases[l.key]? with
  | none => rfl
  | some old => simp [Table.get_insert]

theorem step_of_not_granted (h : d.state.grantedLease c = none)
    (hr : ∀ i t, c ≠ .renewLease i t) : d.step c = { d with state := d.state.apply c } := by
  unfold step
  split
  · rename_i hg
    rw [h] at hg
    cases hg
  · rename_i i t _
    exact absurd rfl (hr i t)
  · rfl

theorem get_endSetAt_renew {s' : OwnershipState} {j : UInt64} (d : Timed) (i t : UInt64) :
    (d.renew s' i t).endSetAt[j]? =
      if d.state.isLeaseValid i t ∧ i = j then some t else d.endSetAt[j]? := by
  unfold renew
  by_cases hvalid : d.state.isLeaseValid i t <;> simp [hvalid, Table.get_insert]

theorem fits_new : Fits new := by
  refine ⟨keyIndex_new, ?_, ?_, ?_⟩ <;> simp [new, OwnershipState.new]

namespace Fits

theorem renewsForward_iff (h : Fits d) (i t : UInt64) :
    RenewsForward d.state i t ↔ d.InOrder (.renewLease i t) := by
  by_cases hmoved : ∃ l, d.state.leases[i]? = some l ∧ t < l.expiresAt ∧
      leaseExpiry t l.ttlSecs ≠ l.expiresAt
  · obtain ⟨l, hl, ht, hne⟩ := hmoved
    obtain ⟨r, hr, hend⟩ := h.ends i l hl
    have horder : d.InOrder (.renewLease i t) ↔ r ≤ t ∧ ∀ g ∈ d.replacedAt[i]?, g ≤ t := by
      simp [InOrder, hl, hr, ht, hne]
    rw [renewsForward_iff_of_moved hl ht hne, horder]
    cases hg : d.replacedAt[i]? with
    | none =>
      have hcurrent := h.current i l hl hg
      rw [hend] at hne ⊢
      simp [leaseExpiry_lt_iff hne, hcurrent]
    | some g =>
      obtain ⟨hother, hle⟩ := h.replaced i l g hl hg
      refine iff_of_false (fun hf => hother hf.2) fun ho => ?_
      exact not_lt.mpr (hle.trans (ho.2 g rfl)) ht
  · have hstays : ∀ l, d.state.leases[i]? = some l → t < l.expiresAt →
        leaseExpiry t l.ttlSecs = l.expiresAt := by
      intro l hl ht
      by_contra hne
      exact hmoved ⟨l, hl, ht, hne⟩
    refine iff_of_true (fun hne => absurd (apply_renewLease_eq_self fun l hl => ?_) hne) ?_
    · unfold LeaseEntry.renew
      split
      · rename_i ht
        rw [hstays l hl ht]
      · rfl
    · intro l hl ht hne
      exact absurd (hstays l hl ht) hne

theorem of_records (h : Fits d) (hindex : KeyIndex s)
    (hrecords : ∀ (j : UInt64) (a : LeaseEntry), s.leases[j]? = some a →
      d.state.leases[j]? = some a ∧
        (s.keyLeases[a.key]? = some j ↔ d.state.keyLeases[a.key]? = some j)) :
    Fits { d with state := s } := by
  refine ⟨hindex, fun j a ha => ?_, fun j a ha hn => ?_, fun j a g ha hg => ?_⟩
  · exact h.ends j a (hrecords j a ha).1
  · exact (hrecords j a ha).2.mpr (h.current j a (hrecords j a ha).1 hn)
  · obtain ⟨hother, hle⟩ := h.replaced j a g (hrecords j a ha).1 hg
    exact ⟨fun hc => hother ((hrecords j a ha).2.mp hc), hle⟩

theorem grant (h : Fits d) (hc : d.state.grantedLease c = some l)
    (hfree : FreeId d.state l.key l.id) : Fits (d.grant (d.state.apply c) l) := by
  obtain ⟨hleases, hkeys⟩ := tables_of_granted hc
  obtain ⟨-, hl, ha⟩ := grantedLease_eq_some hc
  have hother : ∀ (j : UInt64) (a : LeaseEntry), (d.state.apply c).leases[j]? = some a →
      l.id = j ∧ a = l ∨ l.id ≠ j ∧ d.state.leases[j]? = some a := by
    intro j a ha
    rw [hleases, get_leases_grant] at ha
    split at ha
    · rename_i hj
      exact .inl ⟨hj, (Option.some.inj ha).symm⟩
    · rename_i hj
      exact .inr ⟨hj, ha⟩
  refine ⟨(h.index.grant hfree).congr hleases hkeys, fun j a ha => ?_, fun j a ha hn => ?_,
    fun j a g ha hg => ?_⟩
  · rcases hother j a ha with ⟨rfl, rfl⟩ | ⟨hj, ha⟩
    · exact ⟨a.acquiredAt, Std.ExtTreeMap.getElem?_insert_self, congrArg LeaseEntry.expiresAt hl⟩
    · obtain ⟨r, hr, hend⟩ := h.ends j a ha
      exact ⟨r, ((Table.get_insert _ _ _ _).trans (if_neg hj)).trans hr, hend⟩
  · change (d.state.apply c).keyLeases[a.key]? = some j
    rw [hkeys, get_keyLeases_grant]
    rcases hother j a ha with ⟨rfl, rfl⟩ | ⟨hj, ha⟩
    · exact if_pos rfl
    · rw [get_replacedAt_grant hj] at hn
      split at hn
      · cases hn
      · rename_i hne
        have hcurrent := h.current j a ha hn
        have hkey : l.key ≠ a.key := by
          intro hk
          rw [← hk] at hcurrent
          exact hne hcurrent
        rw [if_neg hkey]
        exact hcurrent
  · change (d.state.apply c).keyLeases[a.key]? ≠ some j ∧ a.expiresAt ≤ g
    rw [hkeys, get_keyLeases_grant]
    rcases hother j a ha with ⟨rfl, rfl⟩ | ⟨hj, hja⟩
    · exact absurd hg (by simp [Timed.grant])
    · rw [get_replacedAt_grant hj] at hg
      split at hg
      · rename_i hnamed
        obtain rfl := Option.some.inj hg
        have hholder : d.state.holder l.key = some a := holder_eq_some.mpr ⟨j, hnamed, hja⟩
        rw [if_pos (h.index.holder hholder).2.2.symm]
        exact ⟨fun hc => hj (Option.some.inj hc), accepts_iff.mp ‹d.state.Accepts _ _› a hholder⟩
      · obtain ⟨hne, hle⟩ := h.replaced j a g hja hg
        refine ⟨?_, hle⟩
        split
        · exact fun hc => hj (Option.some.inj hc)
        · exact hne

theorem renew_replaced {g : UInt64} (h : Fits d) (ho : d.InOrder (.renewLease i t))
    (hl : d.state.leases[i]? = some l) (hg : d.replacedAt[i]? = some g) : l.renew t = l := by
  unfold LeaseEntry.renew
  split
  · rename_i ht
    by_cases hmoved : leaseExpiry t l.ttlSecs = l.expiresAt
    · rw [hmoved]
    · have hgt := (ho l hl ht hmoved).2 g hg
      exact absurd ht (not_lt.mpr ((h.replaced i l g hl hg).2.trans hgt))
  · rfl

theorem renew (h : Fits d) (ho : d.InOrder (.renewLease i t)) :
    Fits (d.renew (d.state.apply (.renewLease i t)) i t) := by
  have hindex : KeyIndex (d.state.apply (.renewLease i t)) :=
    h.index.perform (.apply (.renewLease i t)) fun l hl => by cases hl
  have hrecord : ∀ (j : UInt64) (a : LeaseEntry),
      (d.state.apply (.renewLease i t)).leases[j]? = some a →
        (i = j ∧ ∃ b, d.state.leases[i]? = some b ∧ b.renew t = a) ∨
          i ≠ j ∧ d.state.leases[j]? = some a := by
    intro j a ha
    simp only [OwnershipState.apply, Table.get_modify] at ha
    split at ha
    · rename_i hij
      exact .inl ⟨hij, Option.map_eq_some_iff.mp ha⟩
    · rename_i hij
      exact .inr ⟨hij, ha⟩
  refine ⟨hindex, fun j a ha => ?_, fun j a ha hn => ?_, fun j a g ha hg => ?_⟩
  · rw [get_endSetAt_renew]
    rcases hrecord j a ha with ⟨rfl, b, hb, rfl⟩ | ⟨hij, ha⟩
    · by_cases ht : t < b.expiresAt
      · have hvalid := isLeaseValid_iff.mpr ⟨b, hb, ht⟩
        refine ⟨t, if_pos ⟨hvalid, rfl⟩, ?_⟩
        rw [LeaseEntry.renew, if_pos ht]
      · have hvalid : ¬ d.state.isLeaseValid i t := by simp [isLeaseValid_iff, hb, not_lt.mp ht]
        rw [if_neg fun hv => hvalid hv.1, LeaseEntry.renew, if_neg ht]
        exact h.ends i b hb
    · rw [if_neg fun hv => hij hv.2]
      exact h.ends j a ha
  · rcases hrecord j a ha with ⟨rfl, b, hb, rfl⟩ | ⟨hij, ha⟩
    · rw [(b.renew_key t).1]
      exact h.current i b hb hn
    · exact h.current j a ha hn
  · rcases hrecord j a ha with ⟨rfl, b, hb, rfl⟩ | ⟨hij, ha⟩
    · rw [h.renew_replaced ho hb hg]
      exact h.replaced i b g hb hg
    · exact h.replaced j a g ha hg

protected theorem step (h : Fits d) (hfree : TakesFreeId d.state c) (ho : d.InOrder c) :
    Fits (d.step c) := by
  cases hg : d.state.grantedLease c with
  | some l =>
    rw [step_of_granted hg]
    exact h.grant hg (hfree l hg)
  | none =>
    by_cases hr : ∃ i t, c = .renewLease i t
    · obtain ⟨i, t, rfl⟩ := hr
      exact h.renew ho
    · have hr : ∀ i t, c ≠ .renewLease i t := fun i t hc => hr ⟨i, t, hc⟩
      rw [step_of_not_granted hg hr]
      exact h.of_records (h.index.perform (.apply c) hfree) fun j a => records_kept hg hr

end Fits

def Noted (d : Timed) (i x : UInt64) : Prop := d.endSetAt[i]? = some x ∨ d.replacedAt[i]? = some x

theorem Noted.of_step {x : UInt64} (h : (d.step c).Noted i x) : d.Noted i x ∨ c.time = some x := by
  cases hg : d.state.grantedLease c with
  | some l =>
    obtain ⟨hc, -, -⟩ := grantedLease_eq_some hg
    have htime : c.time = some l.acquiredAt := by rw [hc]; rfl
    rw [step_of_granted hg] at h
    rcases h with h | h
    · simp only [Timed.grant, Table.get_insert] at h
      split at h
      · exact .inr (htime.trans h)
      · exact .inl (.inl h)
    · rcases eq_or_ne l.id i with rfl | hi
      · exact absurd h (by simp [Timed.grant])
      · rw [get_replacedAt_grant hi] at h
        split at h
        · exact .inr (htime.trans h)
        · exact .inl (.inr h)
  | none =>
    by_cases hr : ∃ i t, c = .renewLease i t
    · obtain ⟨j, t, rfl⟩ := hr
      rcases h with h | h
      · change (d.renew (d.state.apply (.renewLease j t)) j t).endSetAt[i]? = some x at h
        rw [get_endSetAt_renew] at h
        split at h
        · exact .inr h
        · exact .inl (.inl h)
      · exact .inl (.inr h)
    · rw [step_of_not_granted hg fun i t hc => hr ⟨i, t, hc⟩] at h
      exact .inl h

theorem along_inOrder {cmds : List OwnershipCommand}
    (hnoted : ∀ i x, d.Noted i x → ∀ t ∈ cmds.filterMap OwnershipCommand.time, x ≤ t)
    (htimes : (cmds.filterMap OwnershipCommand.time).Pairwise (· ≤ ·)) :
    Along step InOrder d cmds := by
  induction cmds generalizing d with
  | nil => trivial
  | cons c cmds ih =>
    have hsub : ∀ t ∈ cmds.filterMap OwnershipCommand.time,
        t ∈ (c :: cmds).filterMap OwnershipCommand.time := fun t ht => by
      rw [List.filterMap_cons]
      split
      · exact ht
      · exact List.mem_cons_of_mem _ ht
    refine ⟨?_, ih (fun i x hx t ht => ?_) ?_⟩
    · cases c with
      | renewLease i t =>
        intro l _ _ _
        have ht : t ∈ (OwnershipCommand.renewLease i t :: cmds).filterMap OwnershipCommand.time :=
          List.mem_cons_self
        exact ⟨fun r hr => hnoted i r (.inl hr) t ht, fun g hg => hnoted i g (.inr hg) t ht⟩
      | _ => trivial
    · rcases hx.of_step with hold | htime
      · exact hnoted i x hold t (hsub t ht)
      · rw [List.filterMap_cons, htime] at htimes
        exact (List.pairwise_cons.mp htimes).1 t ht
    · rw [List.filterMap_cons] at htimes
      split at htimes
      · exact htimes
      · exact (List.pairwise_cons.mp htimes).2

end Timed

theorem along_forwardRenewal_iff {cmds : List OwnershipCommand}
    (hfree : Along OwnershipState.apply TakesFreeId new cmds) :
    Along OwnershipState.apply ForwardRenewal new cmds ↔
      Along Timed.step Timed.InOrder .new cmds := by
  have hforward : Along Timed.step (fun d c => ForwardRenewal d.state c) .new cmds ↔
      Along OwnershipState.apply ForwardRenewal new cmds := along_comap Timed.state_step
  rw [← hforward]
  refine along_congr_of_inv (fun d c h hf ho => h.step hf ho) (fun d c h _ => ?_) Timed.fits_new
    ((along_comap Timed.state_step).mpr hfree)
  cases c with
  | renewLease i t => exact h.renewsForward_iff i t
  | _ => exact Iff.rfl

/-- With ordered clocks and distinct ids, renewals only ever extend current leases. -/
theorem forwardRenewal_of_ordered {cmds : List OwnershipCommand}
    (hd : (cmds.filterMap OwnershipCommand.leaseId).Nodup)
    (htimes : (cmds.filterMap OwnershipCommand.time).Pairwise (· ≤ ·)) :
    Along OwnershipState.apply ForwardRenewal new cmds := by
  have hfree := along_takesFreeId_new (hd.sublist (acceptedIds_sublist new cmds))
  refine (along_forwardRenewal_iff hfree).mpr (Timed.along_inOrder (fun i x hx => ?_) htimes)
  rcases hx with hx | hx <;> simp [Timed.new] at hx

/-- Renewals move the ends of current leases forward, and nothing else, throughout a run with
distinct lease ids exactly if they come after the timestamps noted for their records. -/
theorem renewals_forward_iff (cmds : List OwnershipCommand)
    (hd : (cmds.filterMap OwnershipCommand.leaseId).Nodup) :
    Along OwnershipState.apply ForwardRenewal new cmds ↔
      Along Timed.step Timed.InOrder .new cmds :=
  along_forwardRenewal_iff (along_takesFreeId_new (hd.sublist (acceptedIds_sublist new cmds)))

/-- A renewal in time and one that comes too late to count. -/
theorem renewals_forward_in_time :
    let cmds : List OwnershipCommand :=
      [.acquireLease "a" 1 0 10 0, .renewLease 0 5000000000, .acquireLease "a" 2 1 10 20000000000,
        .renewLease 0 21000000000, .renewLease 1 25000000000]
    Along OwnershipState.apply ForwardRenewal new cmds := by
  intro cmds
  exact (renewals_forward_iff cmds (by decide)).mpr (by decide +kernel)

/-- A renewal that reaches the log after a younger one pulls the end of its lease back, and
one with an old clock extends a lease whose key has gone to another. -/
theorem late_renewals_go_astray :
    let late : List OwnershipCommand :=
      [.acquireLease "a" 1 0 10 0, .renewLease 0 5000000000, .renewLease 0 3000000000]
    let taken : List OwnershipCommand :=
      [.acquireLease "a" 1 0 10 0, .acquireLease "a" 2 1 10 20000000000, .renewLease 0 5000000000]
    ((late.filterMap OwnershipCommand.leaseId).Nodup ∧
      ¬ Along OwnershipState.apply ForwardRenewal new late) ∧
    (taken.filterMap OwnershipCommand.leaseId).Nodup ∧
      ¬ Along OwnershipState.apply ForwardRenewal new taken := by
  intro late taken
  refine ⟨⟨by decide, ?_⟩, by decide, ?_⟩
  · rintro ⟨-, -, h, -⟩
    have hl : (exec OwnershipState.apply new (late.take 2)).leases[(0 : UInt64)]? =
        some ⟨0, "a", 1, 0, 10, 15000000000⟩ := by decide +kernel
    exact absurd ((renewsForward_iff_of_moved hl (by decide) (by decide)).mp h).1 (by decide)
  · rintro ⟨-, -, h, -⟩
    have hl : (exec OwnershipState.apply new (taken.take 2)).leases[(0 : UInt64)]? =
        some ⟨0, "a", 1, 0, 10, 10000000000⟩ := by decide +kernel
    exact absurd ((renewsForward_iff_of_moved hl (by decide) (by decide)).mp h).2
      (by decide +kernel)

end DumbDistributedLog
