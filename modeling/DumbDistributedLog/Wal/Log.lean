import DumbDistributedLog.Library.Codec
import DumbDistributedLog.Queue.Standalone

/-! # The write-ahead log

The entries of a topic are appended to a file in a directory that is named after the
topic. Characters that are not safe in a file name are replaced by an underscore, and the
name of the directory is taken for the topic when the log is recovered. The encoding of the
entries is a parameter, and so is how the file system takes an append.
-/

namespace DumbDistributedLog.Ddl.Wal

inductive WalError where
  | io (message : String)
  | serialization (message : String)
  | wal (message : String)
  | topicNotFound (topic : String)
  | invalidTopic (message : String)
  deriving DecidableEq, Repr

def displayDdl : DdlError → String
  | .notOwner topic => "Topic " ++ topic ++ " not owned by this node"
  | .topicNotFound topic => "Topic " ++ topic ++ " not found"
  | .bufferFull topic => "Buffer full for topic " ++ topic
  | .topicLimitExceeded max current =>
    "Topic limit exceeded: max " ++ toString max ++ ", current " ++ toString current
  | .subscriberBufferFull topic => "Subscriber buffer full for topic " ++ topic
  | .lockPoisoned topic => "Lock poisoned for topic " ++ topic
  | .wal message => "WAL error: " ++ message
  | .invalidTopic message => "Invalid topic name: " ++ message

namespace WalError

def display : WalError → String
  | .io message => "IO error: " ++ message
  | .serialization message => "Serialization error: " ++ message
  | .wal message => "WAL error: " ++ message
  | .topicNotFound topic => "Topic not found: " ++ topic
  | .invalidTopic message => "Invalid topic name: " ++ message

def ofDdl : DdlError → WalError
  | .invalidTopic message => .invalidTopic message
  | e => .wal (displayDdl e)

end WalError

def unsafeChars : List Char := ['/', '\\', ':', '*', '?', '"', '<', '>', '|']

def replaceUnsafe (topic : String) : String :=
  String.ofList (topic.toList.map fun c => if c ∈ unsafeChars then '_' else c)

def sanitizeTopic (topic : String) : Except WalError String :=
  match validateTopic topic with
  | .error e => .error (.ofDdl e)
  | .ok () => .ok (replaceUnsafe topic)

def unsanitizeTopic (sanitized : String) : String := sanitized

abbrev Disk := Table String (List (List UInt8))

namespace Disk

variable (json : Codec Entry) (disk : Disk)

def records (dir : String) : List (List UInt8) := disk[dir]?.getD []

/-- The entries in a file in the order in which they were appended. Records that cannot be
decoded are passed over. -/
def entries (dir : String) : List Entry :=
  (disk.records dir).filterMap fun data => (json.decode data).toOption

/-- The outcome is how the file system takes the record. -/
def append (topic : String) (entry : Entry) (outcome : Except WalError Unit) :
    Disk × Except WalError Unit :=
  match sanitizeTopic topic with
  | .error e => (disk, .error e)
  | .ok dir =>
    match outcome with
    | .error e => (disk, .error e)
    | .ok () => (disk.insert dir (disk.records dir ++ [json.encode entry]), .ok ())

def readEntries (dir : String) : List Entry :=
  (disk.entries json dir).insertionSort fun a b => a.id ≤ b.id

def recoverTopic (topic : String) : Option (List Entry) :=
  match sanitizeTopic topic with
  | .error _ => none
  | .ok dir =>
    let entries := disk.readEntries json dir
    if entries.isEmpty then none else some entries

def recoverDir (recovered : Table String (List Entry)) (dir : String) :
    Table String (List Entry) :=
  let topic := unsanitizeTopic dir
  match disk.recoverTopic json topic with
  | none => recovered
  | some entries => recovered.insert topic entries

/-- The directories of the log are listed, without the one that names itself. -/
def recoverAll : Table String (List Entry) :=
  (disk.keys.filter fun dir => dir ≠ ".").foldl (disk.recoverDir json) ∅

end Disk

namespace Plain

open Layout

def byte : Layout UInt8 :=
  word.via (fun b => UInt64.ofNat b.toNat) (fun w => some (UInt8.ofNat w.toNat)) (by
    intro b
    have hlt : b.toNat < UInt64.size := Nat.lt_trans b.toNat_lt (by decide)
    rw [UInt64.toNat_ofNat_of_lt' hlt, UInt8.ofNat_toNat])

def entry : Layout Entry :=
  ((word.pair word).pair (string.pair byte.list)).via
    (fun e => ((e.id, e.timestamp), (e.topic, e.payload)))
    (fun p => some ⟨p.1.1, p.1.2, p.2.1, p.2.2⟩)
    fun _ => rfl

def json : Codec Entry :=
  entry.codec fun _ => write_pair_ne_nil (write_pair_ne_nil write_word_ne_nil) _

end Plain

variable {json : Codec Entry} {disk : Disk} {topic dir : String} {entry : Entry}

theorem sanitizeTopic_of_valid (h : validateTopic topic = .ok ()) :
    sanitizeTopic topic = .ok (replaceUnsafe topic) := by
  rw [sanitizeTopic, h]

theorem mem_replaceUnsafe {c : Char} (h : c ∈ (replaceUnsafe topic).toList) : c ∉ unsafeChars := by
  obtain ⟨c', -, rfl⟩ : ∃ c' ∈ topic.toList, (if c' ∈ unsafeChars then '_' else c') = c := by
    simpa [replaceUnsafe] using h
  split
  · decide
  · assumption

theorem replaceUnsafe_eq_self :
    replaceUnsafe topic = topic ↔ ∀ c ∈ topic.toList, c ∉ unsafeChars := by
  constructor
  · intro h c hc
    rw [← h] at hc
    exact mem_replaceUnsafe hc
  · intro h
    have hmap : topic.toList.map (fun c => if c ∈ unsafeChars then '_' else c) = topic.toList := by
      rw [List.map_congr_left fun c hc => if_neg (h c hc), List.map_id']
    rw [replaceUnsafe, hmap, String.ofList_toList]

namespace Disk

theorem append_of_valid (h : validateTopic topic = .ok ()) (outcome : Except WalError Unit) :
    disk.append json topic entry outcome =
      match outcome with
      | .error e => (disk, .error e)
      | .ok () =>
        (disk.insert (replaceUnsafe topic)
          (disk.records (replaceUnsafe topic) ++ [json.encode entry]), .ok ()) := by
  rw [append, sanitizeTopic_of_valid h]

theorem entries_insert (records : List (List UInt8)) (dir' : String) :
    entries json (disk.insert dir records) dir' = if dir = dir' then
      records.filterMap (fun data => (json.decode data).toOption) else disk.entries json dir' := by
  rw [entries, Disk.records, Table.get_insert]
  split <;> rfl

theorem entries_append (h : validateTopic topic = .ok ()) (dir : String) :
    (disk.append json topic entry (.ok ())).1.entries json dir =
      if replaceUnsafe topic = dir then disk.entries json dir ++ [entry]
      else disk.entries json dir := by
  rw [append_of_valid h]
  simp only [entries_insert]
  split
  · rename_i hdir
    rw [hdir, List.filterMap_append]
    simp [entries, json.decode_encode, Except.toOption]
  · rfl

end Disk

end DumbDistributedLog.Ddl.Wal
