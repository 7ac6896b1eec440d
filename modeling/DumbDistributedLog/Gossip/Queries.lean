import DumbDistributedLog.Gossip.Network

/-! # Queries for the owner of a topic

A query is broadcast like any other message. A node that owns the topic notes that it would
respond, and nobody does. So a network with queries does what it would do without them, and the
asking node learns nothing from them.
-/

namespace DumbDistributedLog.Gossip

open Runs

def GossipMessage.isQuery : GossipMessage → Bool
  | .topicQuery _ _ => true
  | _ => false

inductive QueryOp where
  | network (op : NetworkOp)
  | query (n : NodeId) (topic : String)

def NetworkOp.isDelivery : NetworkOp → Bool
  | .deliver _ => true
  | _ => false

def QueryOp.local? : QueryOp → Option NetworkOp
  | .network op => if op.isDelivery then none else some op
  | .query _ _ => none

namespace GossipCoordinator

def queryTopicOwner (deriveTopicId : String → TopicId) (c : GossipCoordinator) (topic : String)
    (outcome : Except String Unit) : Except GossipError GossipMessage :=
  c.broadcastMessage deriveTopicId topic (.topicQuery topic c.nodeId) outcome

end GossipCoordinator

namespace Network

section Steps

variable (deriveTopicId : String → TopicId) (s : Network)

def queries (n : NodeId) (topic : String) : List (NodeId × GossipMessage) :=
  ((s.nodes n).node.queryTopicOwner deriveTopicId topic (.ok ())).toOption.toList.flatMap fun msg =>
    (s.members.filter fun m => m ≠ n).map (·, msg)

def stepWithQueries : QueryOp → Network
  | .network op => s.step deriveTopicId op
  | .query n topic => { s with inFlight := s.inFlight ++ s.queries deriveTopicId n topic }

end Steps

/-- The same nodes at the same time, with the same messages in flight apart from queries. -/
structure SameButQueries (s s' : Network) : Prop where
  members : s.members = s'.members
  nodes : s.nodes = s'.nodes
  clock : s.clock = s'.clock
  inFlight : s.inFlight.filter (fun p => !p.2.isQuery) = s'.inFlight

variable {deriveTopicId : String → TopicId} {s s' : Network} {op : NetworkOp}

theorem isQuery_of_mem_queries {n : NodeId} {topic : String} {p : NodeId × GossipMessage}
    (h : p ∈ s.queries deriveTopicId n topic) : p.2.isQuery = true := by
  obtain ⟨msg, hmsg, hp⟩ := List.mem_flatMap.mp h
  obtain ⟨m, -, rfl⟩ := List.mem_map.mp hp
  have hquery := GossipCoordinator.toOption_broadcastMessage.mp (Option.mem_toList.mp hmsg)
  rw [← hquery.2.2]
  rfl

theorem isQuery_of_mem_broadcasts {n : NodeId} {msg : GossipMessage}
    (h : (n, msg) ∈ s.broadcasts deriveTopicId op) : msg.isQuery = false := by
  rcases broadcasts_cases h with
    ⟨_, -, rfl⟩ | ⟨_, -, rfl⟩ | ⟨_, _, -, -, rfl⟩ | ⟨_, _, -, -, rfl⟩ <;> rfl

theorem filter_sent (s : Network) (op : NetworkOp) :
    ((s.broadcasts deriveTopicId op).flatMap fun (n, msg) =>
      (s.members.filter fun m => m ≠ n).map (·, msg)).filter (fun p => !p.2.isQuery) =
    (s.broadcasts deriveTopicId op).flatMap fun (n, msg) =>
      (s.members.filter fun m => m ≠ n).map (·, msg) := by
  refine List.filter_eq_self.mpr fun p hp => ?_
  obtain ⟨⟨n, msg⟩, hmsg, hp⟩ := List.mem_flatMap.mp hp
  obtain ⟨m, -, rfl⟩ := List.mem_map.mp hp
  simp [isQuery_of_mem_broadcasts hmsg]

theorem SameButQueries.query (deriveTopicId : String → TopicId) (h : SameButQueries s s')
    (n : NodeId) (topic : String) :
    SameButQueries (s.stepWithQueries deriveTopicId (.query n topic)) s' := by
  refine ⟨h.members, h.nodes, h.clock, ?_⟩
  have hnone : (s.queries deriveTopicId n topic).filter (fun p => !p.2.isQuery) = [] :=
    List.filter_eq_nil_iff.mpr fun p hp => by simp [isQuery_of_mem_queries hp]
  simp [stepWithQueries, hnone, h.inFlight]

theorem SameButQueries.local (deriveTopicId : String → TopicId) (h : SameButQueries s s')
    (hop : op.isDelivery = false) :
    SameButQueries (s.step deriveTopicId op) (s'.step deriveTopicId op) := by
  obtain ⟨members, nodes, flight, clock⟩ := s
  obtain ⟨members', nodes', flight', clock'⟩ := s'
  obtain ⟨rfl, rfl, rfl, hflight⟩ := h
  -- Only a delivery looks at the messages in flight.
  have hlocal : localStep ⟨members, nodes, flight, clock⟩ op =
      localStep ⟨members, nodes, flight', clock⟩ op := by
    cases op with
    | deliver i => cases hop
    | _ => rfl
  have hsent : broadcasts deriveTopicId ⟨members, nodes, flight, clock⟩ op =
      broadcasts deriveTopicId ⟨members, nodes, flight', clock⟩ op := by
    cases op with
    | deliver i => cases hop
    | _ => rfl
  have hremain : ∀ flight : List (NodeId × GossipMessage),
      remaining ⟨members, nodes, flight, clock⟩ op = flight := by
    cases op with
    | deliver i => cases hop
    | _ => intro flight; rfl
  refine ⟨rfl, ?_, rfl, ?_⟩
  · simp only [step, hlocal]
  · simp only [step, hremain, hsent, List.filter_append, hflight]
    rw [← hsent]
    exact congrArg (flight' ++ ·) (filter_sent ⟨members, nodes, flight, clock⟩ op)

theorem filter_eraseIdx {α : Type*} {p : α → Bool} {l : List α} {i : ℕ} {a : α}
    (hi : l[i]? = some a) (ha : p a = true) :
    (l.filter p)[((l.take i).filter p).length]? = some a ∧
      (l.eraseIdx i).filter p = (l.filter p).eraseIdx ((l.take i).filter p).length := by
  obtain ⟨hlt, hget⟩ := List.getElem?_eq_some_iff.mp hi
  have hsplit : l.filter p = (l.take i).filter p ++ a :: (l.drop (i + 1)).filter p := by
    conv_lhs => rw [← List.take_append_drop i l, List.drop_eq_getElem_cons hlt, hget]
    rw [List.filter_append, List.filter_cons_of_pos ha]
  constructor
  · rw [hsplit]
    simp
  · rw [hsplit, List.eraseIdx_append_of_length_le le_rfl, List.eraseIdx_eq_take_drop_succ,
      List.filter_append]
    simp

theorem filter_eraseIdx_of_neg {α : Type*} {p : α → Bool} {l : List α} {i : ℕ} {a : α}
    (hi : l[i]? = some a) (ha : p a = false) : (l.eraseIdx i).filter p = l.filter p := by
  obtain ⟨hlt, hget⟩ := List.getElem?_eq_some_iff.mp hi
  conv_rhs => rw [← List.take_append_drop i l, List.drop_eq_getElem_cons hlt, hget]
  rw [List.eraseIdx_eq_take_drop_succ, List.filter_append, List.filter_append,
    List.filter_cons_of_neg (by simp [ha])]

theorem inFlight_deliver (s : Network) (i : ℕ) :
    (s.step deriveTopicId (.deliver i)).inFlight = s.inFlight.eraseIdx i := by
  have hnone : s.broadcasts deriveTopicId (.deliver i) = [] := by
    cases hi : s.inFlight[i]? with
    | none => simp [broadcasts, localStep, hi]
    | some p => simp [broadcasts, localStep, hi, Monitored.sends]
  simp [step, hnone, remaining]

theorem SameButQueries.deliver (deriveTopicId : String → TopicId) (h : SameButQueries s s')
    (i : ℕ) :
    SameButQueries (s.step deriveTopicId (.deliver i)) s' ∨
      ∃ j, SameButQueries (s.step deriveTopicId (.deliver i))
        (s'.step deriveTopicId (.deliver j)) := by
  match hi : s.inFlight[i]? with
  | none =>
    refine .inl ⟨h.members, (nodes_of_no_message hi).trans h.nodes, h.clock, ?_⟩
    rw [inFlight_deliver, List.eraseIdx_of_length_le (List.getElem?_eq_none_iff.mp hi), h.inFlight]
  | some (m, msg) =>
    have hlocal : s.localStep (.deliver i) = some (m, .receive msg s.clock) :=
      localStep_deliver.mpr ⟨msg, hi, rfl⟩
    cases hquery : msg.isQuery with
    | true =>
      left
      have hsame : (s.nodes m).step deriveTopicId (.receive msg s.clock) = s.nodes m := by
        cases msg with
        | topicQuery topic requestor => rfl
        | _ => cases hquery
      refine ⟨h.members, ?_, h.clock, ?_⟩
      · rw [← h.nodes]
        simp only [step, hlocal, hsame, Function.update_eq_self]
      · rw [inFlight_deliver, filter_eraseIdx_of_neg hi (by simp [hquery]), h.inFlight]
    | false =>
      right
      obtain ⟨hget, herase⟩ := filter_eraseIdx (p := fun p => !p.2.isQuery) hi (by simp [hquery])
      rw [h.inFlight] at hget herase
      refine ⟨((s.inFlight.take i).filter fun p => !p.2.isQuery).length, h.members, ?_, h.clock,
        ?_⟩
      · have hlocal' := localStep_deliver.mpr ⟨msg, hget, rfl⟩
        simp only [step, hlocal, hlocal', h.nodes, h.clock]
      · rw [inFlight_deliver, inFlight_deliver, herase]

/-- Every run of a network with queries is matched by one without them. -/
theorem SameButQueries.exec (deriveTopicId : String → TopicId) (h : SameButQueries s s')
    (ops : List QueryOp) :
    ∃ ops', SameButQueries (Runs.exec (stepWithQueries deriveTopicId) s ops)
        (Runs.exec (step deriveTopicId) s' ops') ∧
      ops'.filter (fun op => !op.isDelivery) = ops.filterMap QueryOp.local? := by
  induction ops generalizing s s' with
  | nil => exact ⟨[], h, rfl⟩
  | cons a ops ih =>
    match a with
    | .query n topic =>
      obtain ⟨ops', hsame, hlocal⟩ := ih (h.query deriveTopicId n topic)
      exact ⟨ops', hsame, hlocal⟩
    | .network op =>
      cases hop : op.isDelivery with
      | false =>
        obtain ⟨ops', hsame, hlocal⟩ := ih (h.local deriveTopicId hop)
        refine ⟨op :: ops', hsame, ?_⟩
        simp [QueryOp.local?, hop, hlocal]
      | true =>
        cases op with
        | deliver i =>
          rcases h.deliver deriveTopicId i with hskip | ⟨j, hdeliver⟩
          · obtain ⟨ops', hsame, hlocal⟩ := ih hskip
            exact ⟨ops', hsame, hlocal⟩
          · obtain ⟨ops', hsame, hlocal⟩ := ih hdeliver
            exact ⟨.deliver j :: ops', hsame, hlocal⟩
        | _ => cases hop

theorem unanswered (deriveTopicId : String → TopicId) (members : List NodeId)
    (joined : NodeId → List TopicId) (ownerTimeoutSecs : NodeId → UInt64) (now : UInt64)
    (ops : List NetworkOp) (m : NodeId) (topic : String) (owner : Option NodeId) :
    (m, GossipMessage.topicResponse topic owner) ∉ (Runs.exec (step deriveTopicId)
      (start members joined ownerTimeoutSecs now) ops).inFlight := by
  refine exec_inv
    (I := fun s : Network => (m, GossipMessage.topicResponse topic owner) ∉ s.inFlight)
    (fun s op hnone hmem => ?_) List.not_mem_nil
  rcases mem_inFlight_step hmem with hold | ⟨n, hsent, -⟩
  · exact hnone hold
  · rcases broadcasts_cases hsent with
      ⟨_, -, heq⟩ | ⟨_, -, heq⟩ | ⟨_, _, -, -, heq⟩ | ⟨_, _, -, -, heq⟩ <;> cases heq

/-- Queries change nothing. However they are interleaved with everything else, the nodes end as
they do in some run of the same calls and background work without queries, and no response to a
query is ever in flight. -/
theorem queries_change_nothing (deriveTopicId : String → TopicId) (members : List NodeId)
    (joined : NodeId → List TopicId) (ownerTimeoutSecs : NodeId → UInt64) (now : UInt64)
    (ops : List QueryOp) :
    let s := Runs.exec (stepWithQueries deriveTopicId) (start members joined ownerTimeoutSecs now)
      ops
    (∃ ops' : List NetworkOp,
      ops'.filter (fun op => !op.isDelivery) = ops.filterMap QueryOp.local? ∧
      (Runs.exec (step deriveTopicId) (start members joined ownerTimeoutSecs now) ops').nodes =
        s.nodes) ∧
    ∀ p ∈ s.inFlight, ∀ topic owner, p.2 ≠ .topicResponse topic owner := by
  intro s
  have hstart : SameButQueries (start members joined ownerTimeoutSecs now)
      (start members joined ownerTimeoutSecs now) := ⟨rfl, rfl, rfl, rfl⟩
  obtain ⟨ops', hsame, hlocal⟩ := hstart.exec deriveTopicId ops
  refine ⟨⟨ops', hlocal, hsame.nodes.symm⟩, ?_⟩
  rintro ⟨m, msg⟩ hp topic owner rfl
  refine unanswered deriveTopicId members joined ownerTimeoutSecs now ops' m topic owner ?_
  rw [← hsame.inFlight]
  exact List.mem_filter.mpr ⟨hp, rfl⟩

end Network

end DumbDistributedLog.Gossip
