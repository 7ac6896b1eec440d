import DumbDistributedLog.Ownership.Holders

/-! # Replicas of the ownership state

Nodes agree on one log of commands, and each applies it to its own replica at its
own pace. The id of a lease is drawn from the counter of the proposing node's
replica before the command enters the log, so two nodes may draw the same id for
two keys and the later grant then overwrites the record of the earlier one. A
grant is kept as long as the commands that its replica applies are orderly.
-/

namespace DumbDistributedLog

open OwnershipState Runs

/-- A copy of the state with the number of log entries that it has applied. -/
structure Replica where
  state : OwnershipState
  applied : ℕ

/-- The agreed log, the proposals that are not in it yet, and the replica of every
node. -/
structure Cluster where
  log : List OwnershipCommand
  pending : List OwnershipCommand
  replicas : NodeId → Replica

inductive ClusterAction where
  /-- A node draws an id from its replica and proposes the acquisition. -/
  | acquireLease (node : NodeId) (key : String) (ttlSecs timestamp : UInt64)
  /-- Any other command is proposed. -/
  | propose (cmd : OwnershipCommand)
  /-- A proposal enters the log. -/
  | append (i : ℕ)
  /-- A replica applies the next entry of the log. -/
  | apply (node : NodeId)

namespace Cluster

def init : Cluster := ⟨[], [], fun _ => ⟨new, 0⟩⟩

variable (s : Cluster)

def nextEntry (node : NodeId) : Option OwnershipCommand := s.log[(s.replicas node).applied]?

def step : ClusterAction → Cluster
  | .acquireLease node key ttlSecs timestamp =>
    let (leaseId, drawn) := (s.replicas node).state.drawLeaseId
    { s with
      pending := s.pending ++ [.acquireLease key node leaseId ttlSecs timestamp]
      replicas := Function.update s.replicas node { s.replicas node with state := drawn } }
  | .propose cmd =>
    if cmd.leaseId = none then { s with pending := s.pending ++ [cmd] } else s
  | .append i =>
    match s.pending[i]? with
    | some cmd => { s with log := s.log ++ [cmd], pending := s.pending.eraseIdx i }
    | none => s
  | .apply node =>
    match s.nextEntry node with
    | some cmd =>
      { s with
        replicas := Function.update s.replicas node
          ⟨(s.replicas node).state.apply cmd, (s.replicas node).applied + 1⟩ }
    | none => s

end Cluster

def ClusterAction.replica : ClusterAction → Option NodeId
  | .apply node => some node
  | _ => none

namespace Cluster

def applies (s : Cluster) (node : NodeId) (a : ClusterAction) : Option OwnershipCommand :=
  if a.replica = some node then s.nextEntry node else none

def trace (node : NodeId) : Cluster → List ClusterAction → List OwnershipCommand
  | _, [] => []
  | s, a :: as => (s.applies node a).toList ++ (s.step a).trace node as

/-- Every command that is applied is orderly on its replica. -/
def AppliesOrderly (s : Cluster) (a : ClusterAction) : Prop :=
  ∀ node ∈ a.replica, ∀ c ∈ s.nextEntry node, Orderly (s.replicas node).state c

instance (s : Cluster) (a : ClusterAction) : Decidable (s.AppliesOrderly a) :=
  U64.decidableForallMem a.replica

end Cluster

/-- A lease granted on a replica is returned for its key until the replica applies a
command that may end it. -/
def KeepsGrants (acts : List ClusterAction) : Prop :=
  ∀ (pre mid post : List ClusterAction) (node : NodeId) (c : OwnershipCommand) (l : LeaseEntry),
    acts = pre ++ .apply node :: (mid ++ post) →
    (exec Cluster.step .init pre).nextEntry node = some c →
    ((exec Cluster.step .init pre).replicas node).state.grantedLease c = some l →
    Along LeaseEntry.after (fun l c => ¬ c.Ends l) l
      ((exec Cluster.step .init (pre ++ [.apply node])).trace node mid) →
    ∃ info, ((exec Cluster.step .init (pre ++ .apply node :: mid)).replicas node).state.getLeaseInfo
      l.key = some info ∧ info.owner = l.owner ∧ info.id = l.id

variable {s : Cluster} {a : ClusterAction} {acts : List ClusterAction} {node : NodeId}
  {c : OwnershipCommand} {l : LeaseEntry} {k : String}

namespace Cluster

theorem applies_eq_some :
    s.applies node a = some c ↔ a = .apply node ∧ s.nextEntry node = some c := by
  cases a with
  | apply node' =>
    simp only [applies, ClusterAction.replica, ClusterAction.apply.injEq, Option.some.injEq]
    split <;> simp_all
  | _ => simp [applies, ClusterAction.replica]

theorem state_step_of_applies (h : s.applies node a = some c) :
    ((s.step a).replicas node).state = (s.replicas node).state.apply c := by
  obtain ⟨rfl, hc⟩ := applies_eq_some.mp h
  simp [step, hc]

theorem tables_step_of_not_applies (h : s.applies node a = none) :
    ((s.step a).replicas node).state.leases = (s.replicas node).state.leases ∧
      ((s.step a).replicas node).state.keyLeases = (s.replicas node).state.keyLeases := by
  cases a with
  | acquireLease node' key ttlSecs timestamp =>
    rcases eq_or_ne node node' with rfl | hne
    · simp [step, drawLeaseId]
    · simp [step, Function.update_of_ne hne]
  | propose cmd =>
    simp only [step]
    split <;> exact ⟨rfl, rfl⟩
  | append i =>
    simp only [step]
    split <;> exact ⟨rfl, rfl⟩
  | apply node' =>
    simp only [step]
    split
    · rename_i cmd hcmd
      rcases eq_or_ne node node' with rfl | hne
      · rw [applies_eq_some.mpr ⟨rfl, hcmd⟩] at h
        cases h
      · simp [Function.update_of_ne hne]
    · exact ⟨rfl, rfl⟩

/-- Every replica's keys name records that carry them. -/
def Indexed (s : Cluster) : Prop := ∀ node, KeyIndex (s.replicas node).state

theorem orderly_of_applies (h : s.AppliesOrderly a) (hc : s.applies node a = some c) :
    Orderly (s.replicas node).state c := by
  obtain ⟨rfl, hn⟩ := applies_eq_some.mp hc
  exact h node rfl c hn

theorem Indexed.step (h : s.Indexed) (ha : s.AppliesOrderly a) : (s.step a).Indexed := by
  intro node
  cases hc : s.applies node a with
  | none =>
    obtain ⟨hl, hk⟩ := tables_step_of_not_applies hc
    exact (h node).congr hl hk
  | some c =>
    rw [state_step_of_applies hc]
    exact (h node).perform (.apply c) (orderly_of_applies ha hc).1

theorem Indexed.holder_kept (h : s.Indexed) (ha : Along Cluster.step AppliesOrderly s acts)
    (hl : (s.replicas node).state.holder k = some l) (hk : l.key = k)
    (he : Along LeaseEntry.after (fun l c => ¬ c.Ends l) l (s.trace node acts)) :
    ((exec Cluster.step s acts).replicas node).state.holder k =
      some (exec LeaseEntry.after l (s.trace node acts)) := by
  induction acts generalizing s l with
  | nil => exact hl
  | cons a acts ih =>
    rw [trace] at he ⊢
    cases hc : s.applies node a with
    | none =>
      obtain ⟨hleases, hkeys⟩ := tables_step_of_not_applies hc
      rw [hc] at he
      exact ih (h.step ha.1) ha.2 ((holder_congr hleases hkeys k).trans hl) hk he
    | some c =>
      rw [hc] at he
      refine ih (h.step ha.1) ha.2 ?_ ((l.after_eq c).1.trans hk) he.2
      rw [state_step_of_applies hc]
      exact (h node).holder_kept (orderly_of_applies ha.1 hc) hl hk he.1

theorem indexed_init : init.Indexed := fun _ => keyIndex_new

end Cluster

theorem exec_after_eq (l : LeaseEntry) (cmds : List OwnershipCommand) :
    (exec LeaseEntry.after l cmds).id = l.id ∧ (exec LeaseEntry.after l cmds).owner = l.owner := by
  induction cmds generalizing l with
  | nil => exact ⟨rfl, rfl⟩
  | cons c cmds ih =>
    have hc := l.after_eq c
    exact ⟨(ih _).1.trans hc.2.1, (ih _).2.trans hc.2.2⟩

/-- Grants are kept in every interleaving in which each replica applies only orderly
commands. -/
theorem keepsGrants_of_orderly (acts : List ClusterAction)
    (h : Along Cluster.step Cluster.AppliesOrderly .init acts) : KeepsGrants acts := by
  rintro pre mid post node c l rfl hc hl he
  rw [along_append, along_cons, along_append] at h
  obtain ⟨hpre, hone, hmid, -⟩ := h
  have hi : (exec Cluster.step .init pre).Indexed :=
    hpre.exec_inv (fun _ _ hi ha => hi.step ha) Cluster.indexed_init
  have happ := Cluster.applies_eq_some.mpr ⟨rfl, hc⟩
  rw [exec_append] at he ⊢
  have hheld : (((exec Cluster.step .init pre).step (.apply node)).replicas node).state.holder
      l.key = some l := by
    rw [Cluster.state_step_of_applies happ]
    exact holder_granted hl
  have hkept := (hi.step hone).holder_kept hmid hheld rfl he
  refine ⟨.ofEntry _, by rw [exec_cons, getLeaseInfo, hkept]; rfl, ?_⟩
  exact ⟨(exec_after_eq l _).2, (exec_after_eq l _).1⟩

/-- Two nodes whose replicas have applied each other's acquisitions draw distinct ids. -/
theorem keepsGrants_two_nodes :
    let acts : List ClusterAction :=
      [.acquireLease 1 "a" 10 0, .append 0, .apply 1, .apply 2, .acquireLease 2 "b" 10 1,
        .append 0, .apply 2, .apply 1]
    Along Cluster.step Cluster.AppliesOrderly .init acts ∧ KeepsGrants acts :=
  ⟨by decide +kernel, keepsGrants_of_orderly _ (by decide +kernel)⟩

/-- Two nodes draw the same id for two keys, and the second grant takes the record of
the first: the first key is then under the second node's lease. -/
theorem concurrent_draws_break_grant :
    ¬ KeepsGrants [.acquireLease 1 "a" 10 0, .acquireLease 2 "b" 10 0, .append 0, .append 0,
      .apply 1, .apply 1] := by
  intro h
  obtain ⟨info, hinfo, howner, -⟩ := h
    [.acquireLease 1 "a" 10 0, .acquireLease 2 "b" 10 0, .append 0, .append 0] [.apply 1] [] 1
    (.acquireLease "a" 1 0 10 0) (.acquired "a" 1 0 10 0) rfl (by decide) (by decide +kernel)
    ⟨fun he => absurd he.1 (by decide), trivial⟩
  have hother := hinfo.symm.trans
    (show _ = some (⟨0, "b", 2, 0, 10000000000, 10⟩ : LeaseInfo) by decide +kernel)
  rw [Option.some.inj hother] at howner
  exact absurd howner (by decide)

end DumbDistributedLog
