import DumbDistributedLog.Library.Paths
import DumbDistributedLog.Wal.Recovery

/-! # The directories of the write-ahead log

The name of a topic becomes the name of a directory. A valid name leads to a directory of its own
inside that of the log, except for the single dot, which stays in the directory of the log itself.
-/

namespace DumbDistributedLog.Ddl.Wal

open Paths

/-- The log behind a handle and its last id are known by the number of the call that opened it. -/
structure TopicWal where
  topic : String
  path : Path
  wal : ℕ
  deriving DecidableEq, Repr

def walDir (dataDir : Path) : Path := join dataDir "wal"

/-- Open the log of a topic. The outcomes are how the file system takes the directory and the
file. -/
def TopicWal.openTopic (dataDir : Path) (dirs : Directories) (topic : String) (wal : ℕ)
    (created opened : Except WalError Unit) : Directories × Except WalError TopicWal :=
  match sanitizeTopic topic with
  | .error e => (dirs, .error e)
  | .ok sanitized =>
    let topicDir := join (walDir dataDir) sanitized
    match created, opened with
    | .error e, _ => (dirs, .error e)
    | .ok (), .error e => (createDirAll dirs topicDir, .error e)
    | .ok (), .ok () => (createDirAll dirs topicDir, .ok ⟨topic, join topicDir "entries.wal", wal⟩)

def recoverTopics (dataDir : Path) (dirs : Directories) : List String :=
  (readDir dirs (walDir dataDir)).map unsanitizeTopic

/-- The name of the directory is that of one thing in the directory of the log, and recovery finds
the directory once the topic has been opened. -/
structure StaysInside (dataDir : Path) (topic : String) : Prop where
  component : ∃ name, sanitizeTopic topic = .ok name ∧ Normal name ∧ '\\' ∉ name.toList ∧
    name.utf8ByteSize ≤ 255
  inside : ∀ dirs wal, ∃ name,
    let opened := TopicWal.openTopic dataDir dirs topic wal (.ok ()) (.ok ())
    opened.2 = .ok ⟨topic, walDir dataDir ++ [name, "entries.wal"], wal⟩ ∧
      name ∈ recoverTopics dataDir opened.1

variable {topic : String}

theorem utf8ByteSize_replaceUnsafe (topic : String) :
    (replaceUnsafe topic).utf8ByteSize = topic.utf8ByteSize := by
  have hlist : ∀ cs : List Char,
      (String.ofList (cs.map fun c => if c ∈ unsafeChars then '_' else c)).utf8ByteSize =
        (String.ofList cs).utf8ByteSize := by
    intro cs
    induction cs with
    | nil => rfl
    | cons c cs ih =>
      have hsizes : (unsafeChars.all fun c => '_'.utf8Size = c.utf8Size) = true := by decide
      have hchar : (if c ∈ unsafeChars then '_' else c).utf8Size = c.utf8Size := by
        split
        · rename_i hunsafe
          exact of_decide_eq_true (List.all_eq_true.mp hsizes c hunsafe)
        · rfl
      simp only [List.map_cons, String.ofList_cons, String.utf8ByteSize_append,
        String.utf8ByteSize_singleton, hchar, ih]
  rw [replaceUnsafe, hlist, String.ofList_toList]

theorem replaceUnsafe_eq_iff {name : String} (h : '_' ∉ name.toList) :
    replaceUnsafe topic = name ↔ topic = name ∧ ∀ c ∈ name.toList, c ∉ unsafeChars := by
  constructor
  · rintro rfl
    have hsafe : ∀ c ∈ topic.toList, c ∉ unsafeChars := by
      intro c hc hunsafe
      refine h ?_
      simp only [replaceUnsafe, String.toList_ofList, List.mem_map]
      exact ⟨c, hc, if_pos hunsafe⟩
    rw [replaceUnsafe_eq_self.mpr hsafe]
    exact ⟨rfl, hsafe⟩
  · rintro ⟨rfl, hsafe⟩
    exact replaceUnsafe_eq_self.mpr hsafe

theorem replaceUnsafe_eq_dot_iff : replaceUnsafe topic = "." ↔ topic = "." := by
  rw [replaceUnsafe_eq_iff (by decide)]
  refine and_iff_left fun c hc => ?_
  obtain rfl : c = '.' := List.mem_singleton.mp hc
  decide

theorem replaceUnsafe_normal (hvalid : validateTopic topic = .ok ()) (hdot : topic ≠ ".") :
    Normal (replaceUnsafe topic) := by
  obtain ⟨hne, -, hdots, -⟩ := validateTopic_eq_ok_iff.mp hvalid
  constructor
  · intro h
    exact hne ((replaceUnsafe_eq_iff (by decide)).mp h).1
  · intro h
    exact mem_replaceUnsafe h (by decide)
  · exact fun h => hdot (replaceUnsafe_eq_dot_iff.mp h)
  · intro h
    obtain ⟨rfl, -⟩ := (replaceUnsafe_eq_iff (by decide)).mp h
    exact absurd hdots (by decide)

theorem walDir_eq (dataDir : Path) : walDir dataDir = dataDir ++ ["wal"] :=
  join_of_normal ⟨by decide, by decide, by decide, by decide⟩

section Recovered

variable {dataDir : Path} {dirs : Directories} {name : String}

def openAll (dataDir : Path) (topics : List String) : Directories :=
  Runs.exec (fun dirs topic => (TopicWal.openTopic dataDir dirs topic 0 (.ok ()) (.ok ())).1)
    dataDir.inits topics

theorem mem_recoverTopics :
    name ∈ recoverTopics dataDir dirs ↔ walDir dataDir ++ [name] ∈ dirs := by
  rw [recoverTopics, show unsanitizeTopic = id from rfl, List.map_id, mem_readDir]

theorem mem_recoverTopics_openTopic (hvalid : validateTopic topic = .ok ()) (wal : ℕ) :
    name ∈ recoverTopics dataDir
        (TopicWal.openTopic dataDir dirs topic wal (.ok ()) (.ok ())).1 ↔
      name ∈ recoverTopics dataDir dirs ∨ replaceUnsafe topic = name ∧ name ≠ "." := by
  simp only [TopicWal.openTopic, sanitizeTopic_of_valid hvalid, mem_recoverTopics, createDirAll,
    List.mem_append, List.mem_inits]
  refine or_congr_right ?_
  by_cases hdot : topic = "."
  · rw [replaceUnsafe_eq_dot_iff.mpr hdot, join_dot]
    constructor
    · intro h
      have hlength := h.length_le
      rw [List.length_append, List.length_singleton] at hlength
      omega
    · rintro ⟨rfl, hname⟩
      exact absurd rfl hname
  · have hnormal := replaceUnsafe_normal hvalid hdot
    rw [join_of_normal hnormal, List.prefix_append_right_inj, List.cons_prefix_cons]
    constructor
    · rintro ⟨rfl, -⟩
      exact ⟨rfl, hnormal.ne_dot⟩
    · rintro ⟨rfl, -⟩
      exact ⟨rfl, List.prefix_rfl⟩

/-- Recovery finds the directories under which the entries were appended, without the one that
names itself. -/
theorem mem_recoverTopics_openAll (json : Codec Entry) {appends : List (String × Entry)}
    (hvalid : ∀ p ∈ appends, validateTopic p.1 = .ok ()) :
    name ∈ recoverTopics dataDir (openAll dataDir (appends.map Prod.fst)) ↔
      name ∈ appendAll json appends ∧ name ≠ "." := by
  unfold openAll appendAll
  induction appends using List.reverseRecOn with
  | nil =>
    have hlength : ¬ walDir dataDir ++ [name] <+: dataDir := by
      intro h
      have hle := h.length_le
      rw [walDir_eq, List.append_assoc, List.length_append, List.length_append,
        List.length_singleton] at hle
      omega
    simp [mem_recoverTopics, List.mem_inits, hlength]
  | append_singleton appends p ih =>
    obtain ⟨hearlier, hp⟩ := List.forall_mem_append.mp hvalid
    have hp := hp p (by simp)
    rw [List.map_append, List.map_singleton, Runs.exec_append, Runs.exec_append, Runs.exec_cons,
      Runs.exec_nil, Runs.exec_cons, Runs.exec_nil, mem_recoverTopics_openTopic hp, ih hearlier,
      Disk.append_of_valid hp]
    simp [or_and_right, or_comm]

end Recovered

/-- The log of a valid topic stays inside the directory of the log exactly if the topic is not the
single dot. -/
theorem staysInside_iff (dataDir : Path) (topic : String) (hvalid : validateTopic topic = .ok ()) :
    StaysInside dataDir topic ↔ topic ≠ "." := by
  constructor
  · rintro ⟨⟨name, hname, hnormal, -⟩, -⟩ rfl
    obtain rfl := Except.ok.inj (hname.symm.trans (sanitizeTopic_of_valid hvalid))
    exact hnormal.ne_dot (replaceUnsafe_eq_dot_iff.mpr rfl)
  · intro hdot
    have hnormal := replaceUnsafe_normal hvalid hdot
    constructor
    · refine ⟨replaceUnsafe topic, sanitizeTopic_of_valid hvalid, hnormal, ?_, ?_⟩
      · intro h
        exact mem_replaceUnsafe h (by decide)
      · rw [utf8ByteSize_replaceUnsafe]
        exact (validateTopic_eq_ok_iff.mp hvalid).2.1
    · intro dirs wal
      have hfile : Normal "entries.wal" := ⟨by decide, by decide, by decide, by decide⟩
      refine ⟨replaceUnsafe topic, ?_, ?_⟩
      · simp only [TopicWal.openTopic, sanitizeTopic_of_valid hvalid, join_of_normal hnormal,
          join_of_normal hfile, List.append_assoc, List.cons_append, List.nil_append]
      · exact (mem_recoverTopics_openTopic hvalid wal).mpr (.inr ⟨rfl, hnormal.ne_dot⟩)

theorem staysInside_nested : StaysInside ["data"] "sensors/cpu" :=
  (staysInside_iff ["data"] "sensors/cpu" (by decide +kernel)).mpr (by decide)

/-- The log of the topic with the name of a single dot is in the directory of the log itself, where
recovery does not find it. -/
theorem dot_not_inside :
    validateTopic "." = .ok () ∧ sanitizeTopic "." = .ok "." ∧
      (let opened := TopicWal.openTopic ["data"] [["data"]] "." 0 (.ok ()) (.ok ())
      opened.2 = .ok ⟨".", ["data", "wal", "entries.wal"], 0⟩ ∧
        recoverTopics ["data"] opened.1 = []) ∧
      ¬ StaysInside ["data"] "." := by
  have hsanitize : sanitizeTopic "." = .ok "." := by decide +kernel
  refine ⟨by decide +kernel, hsanitize, by decide +kernel, fun h => ?_⟩
  obtain ⟨name, hname, hnormal, -⟩ := h.component
  obtain rfl := Except.ok.inj (hsanitize.symm.trans hname)
  exact hnormal.ne_dot rfl

end DumbDistributedLog.Ddl.Wal
