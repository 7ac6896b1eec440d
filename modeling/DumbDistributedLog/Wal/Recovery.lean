import DumbDistributedLog.Library.Runs
import DumbDistributedLog.Wal.Log

/-! # Recovery of the write-ahead log

The log comes back as it was written exactly if no topic has a character that is replaced
in file names and no topic is the single dot, whose file is not in a directory of its own.
-/

namespace DumbDistributedLog.Ddl.Wal

open Runs

def appendAll (json : Codec Entry) (appends : List (String × Entry)) : Disk :=
  exec (fun disk p => (disk.append json p.1 p.2 (.ok ())).1) ∅ appends

def entriesOf (appends : List (String × Entry)) (topic : String) : List Entry :=
  (appends.filter fun p => p.1 = topic).map Prod.snd

/-- The topics are those with an entry, each with its own entries in the order of their ids. -/
def Recovers (appends : List (String × Entry)) (recovered : Table String (List Entry)) : Prop :=
  ∀ topic : String,
    if entriesOf appends topic = [] then recovered[topic]? = none
    else ∃ entries, recovered[topic]? = some entries ∧ entries.Perm (entriesOf appends topic) ∧
      (entries.map Entry.id).Pairwise (· < ·)

/-- The name of a topic comes back from its directory. -/
def Reversible (topic : String) : Prop := topic ≠ "." ∧ ∀ c ∈ topic.toList, c ∉ unsafeChars

-- By the characters of the name, not by all characters.
instance (topic : String) : Decidable (Reversible topic) :=
  @instDecidableAnd _ _ inferInstance (List.decidableBAll (· ∉ unsafeChars) topic.toList)

variable {json : Codec Entry} {appends : List (String × Entry)} {topic dir : String}

section Written

theorem safe_of_mem_appendAll (h : dir ∈ appendAll json appends) :
    ∀ c ∈ dir.toList, c ∉ unsafeChars := by
  have hinv : ∀ dir ∈ appendAll json appends, ∀ c ∈ dir.toList, c ∉ unsafeChars := by
    refine exec_inv (I := fun disk : Disk => ∀ dir ∈ disk, ∀ c ∈ dir.toList, c ∉ unsafeChars) ?_ ?_
    · rintro disk ⟨topic, entry⟩ hdisk dir hdir
      rw [Disk.append] at hdir
      split at hdir
      · exact hdisk dir hdir
      · rename_i dir' hsanitize
        have hdir' : dir' = dir ∨ dir ∈ disk := by simpa using hdir
        rcases hdir' with rfl | hold
        · intro c hc
          rw [sanitizeTopic] at hsanitize
          split at hsanitize
          · exact absurd hsanitize (by simp)
          · obtain rfl := Except.ok.inj hsanitize
            exact mem_replaceUnsafe hc
        · exact hdisk dir hold
    · intro dir hdir
      exact absurd hdir (by simp)
  exact hinv dir h

theorem entries_appendAll (hvalid : ∀ p ∈ appends, validateTopic p.1 = .ok ()) (dir : String) :
    (appendAll json appends).entries json dir =
      (appends.filter fun p => replaceUnsafe p.1 = dir).map Prod.snd := by
  unfold appendAll
  induction appends using List.reverseRecOn with
  | nil => rfl
  | append_singleton appends p ih =>
    obtain ⟨hearlier, hp⟩ := List.forall_mem_append.mp hvalid
    rw [exec_append, exec_cons, exec_nil, Disk.entries_append (hp p (by simp)), ih hearlier,
      List.filter_append, List.map_append]
    by_cases hdir : replaceUnsafe p.1 = dir <;> simp [hdir]

theorem mem_of_entries_ne_nil {disk : Disk} (h : disk.entries json dir ≠ []) : dir ∈ disk := by
  by_contra hmem
  have hnone : disk[dir]? = none := by simpa using hmem
  exact h (by rw [Disk.entries, Disk.records, hnone]; rfl)

end Written

theorem get_recoverAll (json : Codec Entry) (disk : Disk) (topic : String) :
    (disk.recoverAll json)[topic]? =
      if topic ∈ disk ∧ topic ≠ "." then disk.recoverTopic json topic else none := by
  have hinsert : disk.recoverDir json =
      fun recovered dir => (disk.recoverTopic json dir).elim recovered (recovered.insert dir) := by
    funext recovered dir
    rw [Disk.recoverDir, unsanitizeTopic]
    cases disk.recoverTopic json dir <;> rfl
  rw [Disk.recoverAll, hinsert, Table.get_foldl_insert]
  simp

theorem recoverTopic_of_valid (h : validateTopic topic = .ok ()) (disk : Disk) :
    disk.recoverTopic json topic =
      if (disk.readEntries json (replaceUnsafe topic)).isEmpty then none
      else some (disk.readEntries json (replaceUnsafe topic)) := by
  rw [Disk.recoverTopic, sanitizeTopic_of_valid h]

theorem recoverTopic_eq_none {disk : Disk} (h : disk.entries json (replaceUnsafe topic) = []) :
    disk.recoverTopic json topic = none := by
  cases hvalid : validateTopic topic with
  | error e => rw [Disk.recoverTopic, sanitizeTopic, hvalid]
  | ok _ => simp [recoverTopic_of_valid hvalid, Disk.readEntries, h]

theorem sorted_readEntries {disk : Disk} (h : ((disk.entries json dir).map Entry.id).Nodup) :
    ((disk.readEntries json dir).map Entry.id).Pairwise (· < ·) := by
  have hperm : (disk.readEntries json dir).Perm (disk.entries json dir) :=
    List.perm_insertionSort _ _
  have hnodup : ((disk.readEntries json dir).map Entry.id).Nodup := (hperm.map _).nodup_iff.mpr h
  have hsorted : (disk.readEntries json dir).Pairwise fun a b => a.id ≤ b.id :=
    have : Std.Total fun a b : Entry => a.id ≤ b.id := ⟨fun a b => UInt64.le_total a.id b.id⟩
    have : IsTrans Entry fun a b => a.id ≤ b.id := ⟨fun _ _ _ => UInt64.le_trans⟩
    List.pairwise_insertionSort _ _
  refine ((List.pairwise_map.mpr hsorted).and hnodup).imp ?_
  rintro a b ⟨hle, hne⟩
  exact UInt64.lt_of_le_of_ne hle hne

/-- Recovery inverts appends exactly for topics whose names come back. -/
theorem recoverAll_recovers_iff (json : Codec Entry) (appends : List (String × Entry))
    (hvalid : ∀ p ∈ appends, validateTopic p.1 = .ok ())
    (hids : ∀ p ∈ appends, ((entriesOf appends p.1).map Entry.id).Nodup) :
    Recovers appends ((appendAll json appends).recoverAll json) ↔
      ∀ p ∈ appends, Reversible p.1 := by
  constructor
  · rintro h ⟨topic, entry⟩ hp
    have hne : entriesOf appends topic ≠ [] := by
      intro hnil
      have hmem : entry ∈ entriesOf appends topic :=
        List.mem_map.mpr ⟨_, List.mem_filter.mpr ⟨hp, by simp⟩, rfl⟩
      rw [hnil] at hmem
      exact absurd hmem (by simp)
    have htopic := h topic
    rw [if_neg hne] at htopic
    obtain ⟨entries, hget, -, -⟩ := htopic
    rw [get_recoverAll] at hget
    obtain ⟨⟨hdir, hdot⟩, -⟩ : _ ∧ _ := by simpa using hget
    exact ⟨hdot, safe_of_mem_appendAll hdir⟩
  · intro h topic
    have hsame : (∀ c ∈ topic.toList, c ∉ unsafeChars) →
        (appendAll json appends).entries json (replaceUnsafe topic) = entriesOf appends topic := by
      intro hsafe
      rw [entries_appendAll hvalid, replaceUnsafe_eq_self.mpr hsafe, entriesOf]
      refine congrArg _ (List.filter_congr fun p hp => ?_)
      rw [replaceUnsafe_eq_self.mpr (h p hp).2]
    rw [get_recoverAll]
    by_cases hnil : entriesOf appends topic = []
    · rw [if_pos hnil]
      split
      · rename_i hdir
        exact recoverTopic_eq_none ((hsame (safe_of_mem_appendAll hdir.1)).trans hnil)
      · rfl
    · rw [if_neg hnil]
      obtain ⟨entry, hentry⟩ := List.exists_mem_of_ne_nil _ hnil
      obtain ⟨p, hp, -⟩ := List.mem_map.mp hentry
      obtain ⟨hmem, htopic⟩ := List.mem_filter.mp hp
      obtain rfl : p.1 = topic := by simpa using htopic
      obtain ⟨hdot, hsafe⟩ := h p hmem
      have hentries := hsame hsafe
      have hfile : (appendAll json appends).entries json p.1 ≠ [] := by
        rwa [← replaceUnsafe_eq_self.mpr hsafe, hentries]
      have hdir : p.1 ∈ appendAll json appends := mem_of_entries_ne_nil hfile
      have hperm := List.perm_insertionSort (fun a b : Entry => a.id ≤ b.id) (entriesOf appends p.1)
      have hread : ¬ ((appendAll json appends).readEntries json (replaceUnsafe p.1)).isEmpty := by
        rw [Disk.readEntries, hentries, List.isEmpty_iff]
        intro hempty
        rw [hempty] at hperm
        exact hnil hperm.symm.eq_nil
      rw [if_pos ⟨hdir, hdot⟩, recoverTopic_of_valid (hvalid p hmem), if_neg hread]
      refine ⟨_, rfl, ?_, sorted_readEntries (hentries ▸ hids p hmem)⟩
      rw [Disk.readEntries, hentries]
      exact hperm

theorem recoverAll_recovers_two_topics :
    let appends : List (String × Entry) :=
      [("a", ⟨1, 10, "a", [1]⟩), ("b.c", ⟨0, 11, "b.c", []⟩), ("a", ⟨0, 12, "a", [2]⟩)]
    Recovers appends ((appendAll Plain.json appends).recoverAll Plain.json) :=
  (recoverAll_recovers_iff Plain.json
    [("a", ⟨1, 10, "a", [1]⟩), ("b.c", ⟨0, 11, "b.c", []⟩), ("a", ⟨0, 12, "a", [2]⟩)]
    (by decide +kernel) (by decide +kernel)).mpr (by decide +kernel)

theorem not_recovers_of_lost {recovered : Table String (List Entry)}
    (hentries : entriesOf appends topic ≠ []) (hlost : recovered[topic]? = none) :
    ¬ Recovers appends recovered := by
  intro h
  have htopic := h topic
  rw [if_neg hentries, hlost] at htopic
  obtain ⟨entries, hget, -⟩ := htopic
  exact absurd hget (by simp)

/-- A slash is lost, two topics share a directory, and the single dot is never listed. -/
theorem recoverAll_loses_topics :
    let entry : String → Entry := fun topic => ⟨0, 10, topic, [1]⟩
    let runs : List (List String × List (String × List Entry)) :=
      [(["a/b"], [("a_b", [entry "a/b"])]),
        (["a:b", "a_b"], [("a_b", [entry "a:b", entry "a_b"])]),
        (["."], [])]
    ∀ run ∈ runs,
      let appends := run.1.map fun topic => (topic, entry topic)
      let recovered := (appendAll Plain.json appends).recoverAll Plain.json
      (∀ topic ∈ run.1, validateTopic topic = .ok ()) ∧ recovered.toList = run.2 ∧
        ¬ Recovers appends recovered := by
  intro entry runs run hrun appends recovered
  have hruns : ∀ run ∈ runs,
      let appends := run.1.map fun topic => (topic, entry topic)
      let recovered := (appendAll Plain.json appends).recoverAll Plain.json
      (∀ topic ∈ run.1, validateTopic topic = .ok ()) ∧ recovered.toList = run.2 ∧
        entriesOf appends (run.1.headD "") ≠ [] ∧ recovered[run.1.headD ""]? = none := by
    decide +kernel
  obtain ⟨hvalid, hlist, hentries, hlost⟩ := hruns run hrun
  exact ⟨hvalid, hlist, not_recovers_of_lost hentries hlost⟩

end DumbDistributedLog.Ddl.Wal
