import DumbDistributedLog.Gossip.Coordinator
import DumbDistributedLog.Library.Runs
import Mathlib.Data.Finset.Lattice.Fold
import Mathlib.Data.Prod.Lex

/-! # Convergence of claims

The handler of a claim keeps the greater of the record and the claim, in the order of epochs
and, within one epoch, against the order of node ids. After any deliveries of a set of claims
the record is therefore the greatest of them.
-/

namespace DumbDistributedLog.Gossip

structure Claim where
  nodeId : NodeId
  epoch : UInt64
  timestamp : UInt64
  deriving DecidableEq, Repr

/-- By epoch first. Within one epoch the lower node id is preferred. -/
abbrev Rank := UInt64 ×ₗ UInt64ᵒᵈ

def rank (nodeId : NodeId) (epoch : UInt64) : Rank := toLex (epoch, OrderDual.toDual nodeId)

/-- The rank of a record, below all others if there is none. -/
def rankOf : Option TopicOwnership → WithBot Rank
  | none => ⊥
  | some ownership => rank ownership.ownerNodeId ownership.epoch

variable {deriveTopicId : String → TopicId} {t : String} {now : UInt64}

def Claim.message (deriveTopicId : String → TopicId) (t : String) (claim : Claim) :
    GossipMessage :=
  .topicClaim t (deriveTopicId t) claim.nodeId claim.epoch claim.timestamp

theorem Claim.message_inj {claim claim' : Claim} :
    claim.message deriveTopicId t = claim'.message deriveTopicId t ↔ claim = claim' := by
  cases claim
  cases claim'
  simp [message]

def Claim.rank (claim : Claim) : WithBot Rank := Gossip.rank claim.nodeId claim.epoch

abbrev Delivery := GossipMessage × UInt64

def receive (deriveTopicId : String → TopicId) (c : GossipCoordinator) (d : Delivery) :
    GossipCoordinator :=
  c.handleGossipMessage deriveTopicId d.1 d.2

/-- One of the claims, with a time that passes the check, or any heartbeat. -/
def ClaimOrHeartbeat (deriveTopicId : String → TopicId) (t : String) (claims : Finset Claim)
    (d : Delivery) : Prop :=
  (∃ claim ∈ claims, d.1 = claim.message deriveTopicId t ∧ InTime claim.timestamp d.2) ∨
    ∃ topic topicId nodeId epoch timestamp,
      d.1 = .topicHeartbeat topic topicId nodeId epoch timestamp

theorem rank_le_rank {n m : NodeId} {e f : UInt64} :
    rank n e ≤ rank m f ↔ e < f ∨ e = f ∧ m ≤ n := by
  simp [rank, Prod.Lex.toLex_le_toLex]

theorem rank_inj {n m : NodeId} {e f : UInt64} : rank n e = rank m f ↔ n = m ∧ e = f := by
  simp [rank, and_comm]

theorem accepts_iff_rank_le {ownership : TopicOwnership} {n : NodeId} {e : UInt64} :
    ownership.accepts n e = true ↔
      rank ownership.ownerNodeId ownership.epoch ≤ rank n e := by
  rw [TopicOwnership.accepts_iff, rank_le_rank]

theorem rankOf_claimed (ownership : TopicOwnership) (claim : Claim) :
    rankOf (some (ownership.claimed claim.nodeId claim.epoch claim.timestamp)) =
      max (rankOf (some ownership)) claim.rank := by
  unfold TopicOwnership.claimed
  split
  · rename_i h
    exact (max_eq_right (WithBot.coe_le_coe.mpr (accepts_iff_rank_le.mp h))).symm
  · rename_i h
    have hlt := not_le.mp fun hle => h (accepts_iff_rank_le.mpr hle)
    exact (max_eq_left (WithBot.coe_le_coe.mpr hlt.le)).symm

/-- The record that is made up for a first claim gives way to this claim. -/
theorem rankOf_first {claim : Claim} (h : 1 ≤ claim.epoch) :
    rankOf (some ((TopicOwnership.new claim.nodeId now).claimed claim.nodeId claim.epoch
      claim.timestamp)) = claim.rank := by
  rw [rankOf_claimed]
  refine max_eq_right (WithBot.coe_le_coe.mpr (rank_le_rank.mpr ?_))
  rcases lt_or_eq_of_le h with hlt | heq
  · exact .inl hlt
  · exact .inr ⟨heq, le_rfl⟩

theorem rankOf_claim {claim : Claim} (record : Option TopicOwnership) (h : 1 ≤ claim.epoch)
    (htime : InTime claim.timestamp now) :
    rankOf (recordAfter deriveTopicId (claim.message deriveTopicId t) now t record) =
      max (rankOf record) claim.rank := by
  dsimp only [recordAfter, Claim.message]
  rw [if_pos ⟨rfl, htime, rfl⟩]
  cases record with
  | none =>
    rw [Option.getD_none, rankOf_first h]
    exact (max_eq_right bot_le).symm
  | some ownership => exact rankOf_claimed ownership claim

theorem rankOf_heartbeat {topic : String} {topicId : TopicId} {nodeId : NodeId}
    {epoch timestamp : UInt64} (record : Option TopicOwnership) :
    rankOf (recordAfter deriveTopicId (.topicHeartbeat topic topicId nodeId epoch timestamp) now t
      record) = rankOf record := by
  dsimp only [recordAfter]
  split
  · cases record with
    | none => rfl
    | some ownership =>
      dsimp only [Option.map_some, TopicOwnership.heartbeat]
      split <;> rfl
  · rfl

theorem rankOf_le_iff {claims : Finset Claim} (hepoch : ∀ claim ∈ claims, 1 ≤ claim.epoch)
    {ds : List Delivery} (hds : ∀ d ∈ ds, ClaimOrHeartbeat deriveTopicId t claims d)
    (c : GossipCoordinator) (bound : WithBot Rank) :
    rankOf (Runs.exec (receive deriveTopicId) c ds).topicOwners[t]? ≤ bound ↔
      rankOf c.topicOwners[t]? ≤ bound ∧
        ∀ claim : Claim, (∃ now, (claim.message deriveTopicId t, now) ∈ ds) →
          claim.rank ≤ bound := by
  induction ds generalizing c with
  | nil => simp
  | cons d ds ih =>
    rw [Runs.exec_cons, ih fun d hd => hds d (List.mem_cons_of_mem _ hd)]
    dsimp only [receive]
    rw [get_handleGossipMessage]
    obtain ⟨msg, now⟩ := d
    rcases hds _ List.mem_cons_self with ⟨claim, hclaim, rfl, htime⟩ | ⟨_, _, _, _, _, rfl⟩
    · rw [rankOf_claim _ (hepoch claim hclaim) htime, max_le_iff, and_assoc]
      refine and_congr_right fun _ => ?_
      simp only [List.mem_cons, Prod.mk.injEq, Claim.message_inj]
      constructor
      · rintro ⟨hhead, htail⟩ claim' ⟨now', ⟨rfl, -⟩ | hmem⟩
        · exact hhead
        · exact htail claim' ⟨now', hmem⟩
      · intro h
        exact ⟨h claim ⟨now, .inl ⟨rfl, rfl⟩⟩, fun claim' ⟨now', hmem⟩ =>
          h claim' ⟨now', .inr hmem⟩⟩
    · rw [rankOf_heartbeat]
      simp [Claim.message]

theorem rankOf_exec {claims : Finset Claim} (hepoch : ∀ claim ∈ claims, 1 ≤ claim.epoch)
    {ds : List Delivery} (hds : ∀ d ∈ ds, ClaimOrHeartbeat deriveTopicId t claims d)
    (hall : ∀ claim ∈ claims, ∃ now, (claim.message deriveTopicId t, now) ∈ ds)
    {c : GossipCoordinator} (hnone : c.topicOwners[t]? = none) :
    rankOf (Runs.exec (receive deriveTopicId) c ds).topicOwners[t]? = claims.sup Claim.rank := by
  refine eq_of_forall_ge_iff fun bound => ?_
  rw [rankOf_le_iff hepoch hds, hnone, Finset.sup_le_iff]
  constructor
  · rintro ⟨-, h⟩ claim hclaim
    exact h claim (hall claim hclaim)
  · intro h
    refine ⟨bot_le, fun claim ⟨now, hmem⟩ => ?_⟩
    rcases hds _ hmem with ⟨claim', hclaim', heq, -⟩ | ⟨_, _, _, _, _, heq⟩
    · rw [Claim.message_inj.mp heq]
      exact h claim' hclaim'
    · cases heq

/-- However the claims are ordered and repeated, and whichever heartbeats come between them,
the record ends with the greatest epoch and with the least of the nodes that claim it. -/
theorem claims_converge (deriveTopicId : String → TopicId) (t : String) (claims : Finset Claim)
    (hne : claims.Nonempty) (hepoch : ∀ claim ∈ claims, 1 ≤ claim.epoch) (ds : List Delivery)
    (hds : ∀ d ∈ ds, ClaimOrHeartbeat deriveTopicId t claims d)
    (hall : ∀ claim ∈ claims, ∃ now, (claim.message deriveTopicId t, now) ∈ ds)
    (c : GossipCoordinator) (hnone : c.topicOwners[t]? = none) :
    ∃ ownership, (Runs.exec (receive deriveTopicId) c ds).topicOwners[t]? = some ownership ∧
      IsGreatest {e | ∃ claim ∈ claims, claim.epoch = e} ownership.epoch ∧
      IsLeast {n | ∃ claim ∈ claims, claim.epoch = ownership.epoch ∧ claim.nodeId = n}
        ownership.ownerNodeId := by
  have hsup := rankOf_exec hepoch hds hall hnone
  obtain ⟨best, hbest, heq⟩ := Finset.exists_mem_eq_sup claims hne Claim.rank
  have hle : ∀ claim ∈ claims, claim.rank ≤ best.rank := fun claim hclaim =>
    (Finset.le_sup hclaim).trans_eq heq
  rw [heq] at hsup
  cases hrec : (Runs.exec (receive deriveTopicId) c ds).topicOwners[t]? with
  | none =>
    rw [hrec] at hsup
    exact absurd hsup WithBot.bot_ne_coe
  | some ownership =>
    rw [hrec] at hsup
    obtain ⟨hn, he⟩ := rank_inj.mp (WithBot.coe_inj.mp hsup)
    refine ⟨ownership, rfl, ⟨⟨best, hbest, he.symm⟩, ?_⟩, ⟨best, hbest, he.symm, hn.symm⟩, ?_⟩
    · rintro _ ⟨claim, hclaim, rfl⟩
      rcases rank_le_rank.mp (WithBot.coe_le_coe.mp (hle claim hclaim)) with hlt | ⟨heq, -⟩
      · exact he ▸ hlt.le
      · exact (heq.trans he.symm).le
    · rintro _ ⟨claim, hclaim, hsame, rfl⟩
      rcases rank_le_rank.mp (WithBot.coe_le_coe.mp (hle claim hclaim)) with hlt | ⟨-, hnode⟩
      · exact absurd (hsame.trans he) hlt.ne
      · exact hn ▸ hnode

theorem claims_converge_of_three :
    ∃ ownership, (Runs.exec (receive fun _ => []) (.new 9 [[]])
        [(.topicClaim "t" [] 3 2 50, 60), (.topicHeartbeat "t" [] 3 2 70, 75),
          (.topicClaim "t" [] 7 1 40, 80), (.topicClaim "t" [] 1 2 20, 90),
          (.topicClaim "t" [] 3 2 50, 95)]).topicOwners["t"]? = some ownership ∧
      IsGreatest {e | ∃ claim ∈ ({⟨3, 2, 50⟩, ⟨7, 1, 40⟩, ⟨1, 2, 20⟩} : Finset Claim),
        claim.epoch = e} ownership.epoch ∧
      IsLeast {n | ∃ claim ∈ ({⟨3, 2, 50⟩, ⟨7, 1, 40⟩, ⟨1, 2, 20⟩} : Finset Claim),
        claim.epoch = ownership.epoch ∧ claim.nodeId = n} ownership.ownerNodeId := by
  refine claims_converge _ "t" _ (Finset.insert_nonempty _ _) (by decide) _ ?_ ?_ _ rfl
  · simp [ClaimOrHeartbeat, Claim.message]
    decide
  · simp [Claim.message]

end DumbDistributedLog.Gossip
