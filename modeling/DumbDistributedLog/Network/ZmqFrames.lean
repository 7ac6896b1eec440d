import DumbDistributedLog.Library.Separators
import DumbDistributedLog.Library.Utf8

/-! # Published frames

The publisher writes the topic, a zero byte and the payload. The receiver splits a frame at its
first zero byte, so a frame is read as it was published exactly if the topic has none.
-/

namespace DumbDistributedLog.Zmq

open Separators Utf8

def publishFrame (topic : String) (data : List UInt8) : List UInt8 := encode topic ++ 0 :: data

def splitFrame (data : List UInt8) : Option (String × List UInt8) :=
  (splitFirst 0 data).map fun parts => (fromUtf8Lossy parts.1, parts.2)

inductive ZmqError where
  | again
  | other (message : String)
  deriving DecidableEq, Repr

/-- What `receive` makes of what the socket of a subscriber returns. There is none for an id that
is not known. -/
def receive : Option (Except ZmqError (List UInt8)) → Except ZmqError (Option (String × List UInt8))
  | none => .ok none
  | some (.ok data) => .ok (splitFrame data)
  | some (.error .again) => .ok none
  | some (.error e) => .error e

variable {topic : String} {data : List UInt8}

theorem splitFrame_publishFrame :
    splitFrame (publishFrame topic data) = some (topic, data) ↔ '\x00' ∉ topic.toList := by
  rw [← zero_mem_encode, publishFrame]
  constructor
  · intro hsplit hzero
    obtain ⟨front, back, hencode, hfront⟩ := List.eq_append_cons_of_mem hzero
    rw [splitFrame, hencode, List.append_assoc, List.cons_append,
      splitFirst_append hfront] at hsplit
    have hlength : (back ++ 0 :: data).length = data.length :=
      congrArg (fun parts => parts.2.length) (Option.some.inj hsplit)
    simp only [List.length_append, List.length_cons] at hlength
    omega
  · intro hzero
    rw [splitFrame, splitFirst_append hzero, Option.map_some, fromUtf8Lossy_encode]

/-- What was published is received unchanged exactly if the topic is without NUL, and the frames
of such topics are different for different publications. -/
theorem published_frame_decodes (topic : String) (data : List UInt8) :
    (receive (some (.ok (publishFrame topic data))) = .ok (some (topic, data)) ↔
      '\x00' ∉ topic.toList) ∧
    ∀ (topic' : String) (data' : List UInt8), '\x00' ∉ topic.toList → '\x00' ∉ topic'.toList →
      publishFrame topic data = publishFrame topic' data' → topic = topic' ∧ data = data' := by
  constructor
  · rw [← splitFrame_publishFrame, receive, Except.ok.injEq]
  · intro topic' data' htopic htopic' hframe
    have hsplit : some (topic, data) = some (topic', data') := by
      rw [← splitFrame_publishFrame.mpr htopic, ← splitFrame_publishFrame.mpr htopic', hframe]
    exact Prod.mk.inj (Option.some.inj hsplit)

end DumbDistributedLog.Zmq
