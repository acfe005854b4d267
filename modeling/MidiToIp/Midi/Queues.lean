import Mathlib.Data.List.Basic
import MidiToIp.Shared.Bytes
import MidiToIp.Shared.Ring

set_option autoImplicit false

namespace MidiToIp.Midi

open Octets Rings

/-- A queued byte with a mark that the code does not store: what the byte came with. -/
structure Cell where
  byte : UInt8
  mark : Nat
  deriving DecidableEq, Repr

def queueBits : Nat := 14

structure Queue where
  ring : Ring Cell queueBits
  lastDrain : Nat

namespace Queue

def init (now : Nat) : Queue := ⟨Ring.init ⟨0, 0⟩, now⟩

def contents (queue : Queue) : List Cell := queue.ring.contents

/-- `midi_in_push` and `midi_net_send_byte`: a full ring drops the byte, and a byte that lands in
an empty one restarts the staleness window. -/
def push (cell : Cell) (now : Nat) (queue : Queue) : Queue :=
  if queue.ring.isFull then queue
  else
    { ring := queue.ring.push cell
      lastDrain := if queue.ring.isEmpty then now else queue.lastDrain }

def flush (queue : Queue) : Queue := { queue with ring := queue.ring.flush }

def stamp (now : Nat) (queue : Queue) : Queue := { queue with lastDrain := now }

def staleMs : Nat := 1000

def isStale (now : Nat) (queue : Queue) : Bool :=
  !queue.ring.isEmpty && decide (now - queue.lastDrain > staleMs * 1000)

@[simp] theorem contents_init (now : Nat) : (init now).contents = [] := by simp [init, contents]

@[simp] theorem contents_flush (queue : Queue) : queue.flush.contents = [] := by
  simp [flush, contents]

@[simp] theorem contents_stamp (queue : Queue) (now : Nat) :
    (queue.stamp now).contents = queue.contents := rfl

theorem contents_push (queue : Queue) (cell : Cell) (now : Nat) :
    (queue.push cell now).contents =
      (queue.contents ++ [cell]).take (2 ^ queueBits - 1) := by
  have within := queue.ring.depth_lt
  have length := queue.ring.contents_length
  unfold push contents
  cases full : queue.ring.isFull with
  | true =>
    have count := queue.ring.isFull_iff.mp full
    rw [if_pos rfl, List.take_append_of_le_length (by omega), List.take_of_length_le (by omega)]
  | false =>
    have open_ : ¬ queue.ring.depth + 1 = 2 ^ queueBits := by
      rw [← queue.ring.isFull_iff, full]
      simp
    rw [if_neg (by simp), queue.ring.contents_push cell full,
      List.take_of_length_le (by simp; omega)]

theorem contents_take (queue : Queue) :
    queue.contents.take (2 ^ queueBits - 1) = queue.contents := by
  have within := queue.ring.depth_lt
  have length := queue.ring.contents_length
  exact List.take_of_length_le (by rw [contents]; omega)

theorem contents_pushAll (queue : Queue) (cells : List Cell) (now : Nat) :
    (cells.foldl (fun queue cell => queue.push cell now) queue).contents =
      (queue.contents ++ cells).take (2 ^ queueBits - 1) := by
  induction cells generalizing queue with
  | nil => simp [contents_take]
  | cons cell rest ih =>
    rw [List.foldl_cons, ih, contents_push, take_take_append, List.append_assoc,
      List.singleton_append]

theorem contents_push_member (queue : Queue) (cell other : Cell) (now : Nat)
    (member : other ∈ (queue.push cell now).contents) : other ∈ queue.contents ∨ other = cell := by
  rw [contents_push] at member
  simpa using List.mem_of_mem_take member

end Queue

inductive SharedWrite where
  | byte (value : UInt32) (origin : Option Cell)
  | status (value : UInt32)
  | ack (value : UInt32)
  deriving DecidableEq, Repr

structure SharedWords where
  inByte : UInt32 := 0
  inOrigin : Option Cell := none
  inStatus : UInt32 := 0
  inAck : UInt32 := 0
  deriving DecidableEq, Repr

def SharedWords.write (words : SharedWords) : SharedWrite → SharedWords
  | .byte value origin => { words with inByte := value, inOrigin := origin }
  | .status value => { words with inStatus := value }
  | .ack value => { words with inAck := value }

-- `midi_in_publish`: the byte first, then the status.
def midiInPublish (ring : Ring Cell queueBits) : List SharedWrite :=
  let head := (ring.front.map Cell.byte).getD 0
  [.byte (head.toUInt32 * 0x01010101) ring.front,
    .status (if ring.depth ≠ 0 then 0xFFFFFFFF else 0)]

def SharedWords.writeAll (words : SharedWords) (writes : List SharedWrite) : SharedWords :=
  writes.foldl SharedWords.write words

theorem publish_origin (ring : Ring Cell queueBits) (words : SharedWords) :
    (words.writeAll (midiInPublish ring)).inOrigin = ring.contents.head? := by
  rw [Ring.contents_head?]
  rfl

end MidiToIp.Midi
