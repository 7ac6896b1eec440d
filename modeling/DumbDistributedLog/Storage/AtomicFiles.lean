import DumbDistributedLog.Library.BufWriter
import DumbDistributedLog.Storage.Persistence

/-! # Replacing a file

The three files are written through a buffer to a temporary file that then takes the place of
the old one. An error of the encoder keeps the old file. But the buffer is still full when the
encoder is done, and when the writer goes out of scope an error of the last write is lost: the
flush succeeds and the file is cut short.
-/

namespace DumbDistributedLog

open AutoqueuesRaftStorage

structure IoError where
  kind : ErrorKind
  message : String
  deriving DecidableEq, Repr

/-- What the file system does in one attempt: whether the temporary file can be made and
renamed, how many bytes it takes, and what the encoder says if it takes no more. -/
structure Disk where
  create : Except IoError Unit
  room : ℕ
  full : String
  rename : Except IoError Unit

def StorageError.ofIo (subject : ErrorSubject) (e : IoError) : StorageError :=
  ⟨subject, .write, e.kind, e.message⟩

def bufSize : ℕ := 8192

/-- The encoder writes its bytes piece by piece. -/
structure Pieces {α : Type*} (codec : Codec α) where
  pieces : α → List (List UInt8)
  flatten : ∀ a, (pieces a).flatten = codec.encode a

def Pieces.whole {α : Type*} (codec : Codec α) : Pieces codec where
  pieces a := [codec.encode a]
  flatten a := by simp

/-- The pieces are written to a temporary file, which is renamed. -/
def replaceFile (subject renameSubject : ErrorSubject) (pieces : List (List UInt8)) (disk : Disk)
    (old : Option (List UInt8)) : Option (List UInt8) × Except StorageError Unit :=
  match disk.create with
  | .error e => (old, .error (.ofIo subject e))
  | .ok () =>
    let (writer, encoded) := (BufWriter.new bufSize ⟨[], disk.room⟩).writePieces pieces
    if encoded then
      -- The writer goes out of scope before the file is renamed.
      let temp := writer.drop
      match disk.rename with
      | .error e => (old, .error (.ofIo renameSubject e))
      | .ok () => (some temp.contents, .ok ())
    else (old, .error ⟨subject, .write, .invalidData, disk.full⟩)

def replaceIfConfigured (path : Option String) (missing : StorageError)
    (subject renameSubject : ErrorSubject) (pieces : List (List UInt8)) (disk : Disk)
    (old : Option (List UInt8)) : Option (List UInt8) × Except StorageError Unit :=
  match path with
  | none => (old, .error missing)
  | some _ => replaceFile subject renameSubject pieces disk old

namespace AutoqueuesRaftStorage

variable {codecs : Oxicode} (s : AutoqueuesRaftStorage)

def flushToDisk (enc : Pieces codecs.state) (busy : Bool) (disk : Disk) (dir : Directory) :
    Directory × Except StorageError Unit :=
  if busy then (dir, .error ⟨.logs, .write, .wouldBlock, "Flush already in progress"⟩)
  else
    let (file, result) := replaceIfConfigured s.dataFile
      ⟨.logs, .write, .notFound, "No data file configured"⟩ .logs .logs
      (enc.pieces s.ownershipState) disk dir.ownershipState
    ({ dir with ownershipState := file }, result)

def flushLogToDisk (enc : Pieces codecs.log) (disk : Disk) (dir : Directory) :
    Directory × Except StorageError Unit :=
  let (file, result) := replaceIfConfigured s.logFile
    ⟨.logs, .write, .notFound, "No log file configured"⟩ .logs .logs
    (enc.pieces (s.log.values.map .ofEntry)) disk dir.raftLog
  ({ dir with raftLog := file }, result)

/-- An error of the renaming is reported as one of the log. -/
def flushVoteToDisk (enc : Pieces codecs.vote) (vote : Vote) (disk : Disk) (dir : Directory) :
    Directory × Except StorageError Unit :=
  let (file, result) := replaceIfConfigured s.voteFile
    ⟨.vote, .write, .notFound, "No vote file configured"⟩ .vote .logs
    (enc.pieces (.ofVote vote)) disk dir.vote
  ({ dir with vote := file }, result)

end AutoqueuesRaftStorage

/-- The file is kept with an error, or replaced as a whole. -/
def Atomic (old : Option (List UInt8)) (new : List UInt8)
    (r : Option (List UInt8) × Except StorageError Unit) : Prop :=
  (∃ e, r = (old, .error e)) ∨ r = (some new, .ok ())

/-- The file system takes all that is handed down while the encoder is at work, but not all
of the rest. -/
def Disk.CutsShort (disk : Disk) (pieces : List (List UInt8)) : Prop :=
  disk.create = .ok () ∧ disk.rename = .ok () ∧
    BufWriter.spilled bufSize 0 pieces ≤ disk.room ∧ disk.room < pieces.flatten.length

theorem atomic_replaceFile_iff (subject renameSubject : ErrorSubject)
    (pieces : List (List UInt8)) (disk : Disk) (old : Option (List UInt8)) :
    Atomic old pieces.flatten (replaceFile subject renameSubject pieces disk old) ↔
      ¬ disk.CutsShort pieces := by
  unfold replaceFile
  rcases hcreate : disk.create with e | ⟨⟩
  · exact iff_of_true (.inl ⟨_, rfl⟩) (by simp [Disk.CutsShort, hcreate])
  have hencoded := BufWriter.writePieces_new bufSize disk.room pieces
  by_cases hspilled : BufWriter.spilled bufSize 0 pieces ≤ disk.room
  · simp only [hencoded, hspilled, decide_true, if_true, BufWriter.contents_drop_new hspilled]
    rcases hrename : disk.rename with e | ⟨⟩
    · exact iff_of_true (.inl ⟨_, rfl⟩) (by simp [Disk.CutsShort, hrename])
    · simp [Atomic, Disk.CutsShort, hcreate, hrename, hspilled]
  · simp only [hencoded, hspilled, decide_false, Bool.false_eq_true, if_false]
    exact iff_of_true (.inl ⟨_, rfl⟩) fun hcut => hspilled hcut.2.2.1

section Flushes

variable {α : Type*} {codec : Codec α} (enc : Pieces codec) (a : α) (path : Option String)
  (missing : StorageError) (subject renameSubject : ErrorSubject) (disk : Disk)
  (old : Option (List UInt8))

theorem atomic_replaceIfConfigured_iff :
    Atomic old (codec.encode a)
        (replaceIfConfigured path missing subject renameSubject (enc.pieces a) disk old) ↔
      path = none ∨ ¬ disk.CutsShort (enc.pieces a) := by
  rw [← enc.flatten]
  cases path with
  | none => exact iff_of_true (.inl ⟨missing, rfl⟩) (.inl rfl)
  | some file =>
    refine (atomic_replaceFile_iff _ _ _ _ _).trans ?_
    simp

/-- A file that is not cut short is written or kept as the earlier modules take it. -/
theorem replaceIfConfigured_eq_writeFile
    (h : path = none ∨ ¬ disk.CutsShort (enc.pieces a)) : ∃ write,
    replaceIfConfigured path missing subject renameSubject (enc.pieces a) disk old =
      writeFile path missing (codec.encode a) write old := by
  cases path with
  | none => exact ⟨.ok (), rfl⟩
  | some file =>
    rcases (atomic_replaceIfConfigured_iff enc a (some file) missing subject renameSubject disk
      old).mpr h with ⟨e, he⟩ | hok
    · exact ⟨.error e, he⟩
    · exact ⟨.ok (), hok⟩

end Flushes

namespace AutoqueuesRaftStorage

variable {codecs : Oxicode} {s : AutoqueuesRaftStorage} {disk : Disk}

theorem flushToDisk_eq_flushToFile (enc : Pieces codecs.state) (busy : Bool) (dir : Directory)
    (h : s.dataFile = none ∨ ¬ disk.CutsShort (enc.pieces s.ownershipState)) : ∃ write,
    s.flushToDisk enc busy disk dir = s.flushToFile codecs ⟨busy, write⟩ dir := by
  obtain ⟨write, heq⟩ := replaceIfConfigured_eq_writeFile enc s.ownershipState s.dataFile
    ⟨.logs, .write, .notFound, "No data file configured"⟩ .logs .logs disk dir.ownershipState h
  exact ⟨write, by simp only [flushToDisk, flushToFile, heq]⟩

theorem flushLogToDisk_eq_flushLogToFile (enc : Pieces codecs.log) (dir : Directory)
    (h : s.logFile = none ∨ ¬ disk.CutsShort (enc.pieces (s.log.values.map .ofEntry))) :
    ∃ write, s.flushLogToDisk enc disk dir = s.flushLogToFile codecs write dir := by
  obtain ⟨write, heq⟩ := replaceIfConfigured_eq_writeFile enc (s.log.values.map .ofEntry)
    s.logFile ⟨.logs, .write, .notFound, "No log file configured"⟩ .logs .logs disk dir.raftLog h
  exact ⟨write, by simp only [flushLogToDisk, flushLogToFile, heq]⟩

theorem flushVoteToDisk_eq_flushVoteToFile (enc : Pieces codecs.vote) (vote : Vote)
    (dir : Directory) (h : s.voteFile = none ∨ ¬ disk.CutsShort (enc.pieces (.ofVote vote))) :
    ∃ write, s.flushVoteToDisk enc vote disk dir = s.flushVoteToFile codecs vote write dir := by
  obtain ⟨write, heq⟩ := replaceIfConfigured_eq_writeFile enc (.ofVote vote) s.voteFile
    ⟨.vote, .write, .notFound, "No vote file configured"⟩ .vote .logs disk dir.vote h
  exact ⟨write, by simp only [flushVoteToDisk, flushVoteToFile, heq]⟩

end AutoqueuesRaftStorage

/-- A flush is atomic unless the file system fails while the buffer is written for the last
time. -/
theorem flush_atomic_iff (codecs : Oxicode) (stateEnc : Pieces codecs.state)
    (logEnc : Pieces codecs.log) (voteEnc : Pieces codecs.vote) (s : AutoqueuesRaftStorage)
    (vote : Vote) (busy : Bool) (disk : Disk) (dir : Directory) :
    (Atomic dir.ownershipState (codecs.state.encode s.ownershipState)
        ((s.flushToDisk stateEnc busy disk dir).1.ownershipState,
          (s.flushToDisk stateEnc busy disk dir).2) ↔
      busy = true ∨ s.dataFile = none ∨ ¬ disk.CutsShort (stateEnc.pieces s.ownershipState)) ∧
    (Atomic dir.raftLog (codecs.log.encode (s.log.values.map .ofEntry))
        ((s.flushLogToDisk logEnc disk dir).1.raftLog, (s.flushLogToDisk logEnc disk dir).2) ↔
      s.logFile = none ∨ ¬ disk.CutsShort (logEnc.pieces (s.log.values.map .ofEntry))) ∧
    (Atomic dir.vote (codecs.vote.encode (.ofVote vote))
        ((s.flushVoteToDisk voteEnc vote disk dir).1.vote,
          (s.flushVoteToDisk voteEnc vote disk dir).2) ↔
      s.voteFile = none ∨ ¬ disk.CutsShort (voteEnc.pieces (.ofVote vote))) := by
  refine ⟨?_, atomic_replaceIfConfigured_iff _ _ _ _ _ _ _ _,
    atomic_replaceIfConfigured_iff _ _ _ _ _ _ _ _⟩
  cases busy with
  | true => exact iff_of_true (.inl ⟨_, rfl⟩) (.inl rfl)
  | false =>
    refine (atomic_replaceIfConfigured_iff _ _ _ _ _ _ _ _).trans ?_
    simp

/-- On a full disk every flush succeeds and leaves an empty file. -/
theorem full_disk_empties_files :
    let s := withPersistence "d" .new [] none
    let disk : Disk := ⟨.ok (), 0, "no space left", .ok ()⟩
    let vote : Vote := ⟨⟨2, 1⟩, true⟩
    let dir : Directory := ⟨some [1], some [2], some [3]⟩
    s.flushToDisk (.whole Plain.oxicode.state) false disk dir =
        (⟨some [], some [2], some [3]⟩, .ok ()) ∧
      s.flushLogToDisk (.whole Plain.oxicode.log) disk dir =
        (⟨some [1], some [], some [3]⟩, .ok ()) ∧
      s.flushVoteToDisk (.whole Plain.oxicode.vote) vote disk dir =
        (⟨some [1], some [2], some []⟩, .ok ()) ∧
      ¬ Atomic dir.vote (Plain.oxicode.vote.encode (.ofVote vote)) (some [], .ok ()) := by
  intro s disk vote dir
  refine ⟨by rfl, by rfl, by rfl, ?_⟩
  rintro (⟨e, he⟩ | hok)
  · cases he
  · exact absurd hok (by decide +kernel)

end DumbDistributedLog
