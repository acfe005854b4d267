import Mathlib.Data.List.Basic
import MidiToIp.Shared.Bytes
import MidiToIp.Shared.Framing

set_option autoImplicit false

namespace MidiToIp.Ws

open Octets Framing

def opCont : Nat := 0x0
def opText : Nat := 0x1
def opBinary : Nat := 0x2
def opClose : Nat := 0x8
def opPing : Nat := 0x9
def opPong : Nat := 0xA

-- `WSError`; each constructor is one of the codec's two messages.
inductive WSError where
  | maskKeySize
  | payloadTooLarge (length : Nat)
  deriving DecidableEq, Repr

abbrev Frame := Nat × Bytes

def handshakeResponse (accept : Bytes) : Bytes :=
  ascii "HTTP/1.1 101 Switching Protocols\r\n" ++
    ascii "Upgrade: websocket\r\n" ++
    ascii "Connection: Upgrade\r\n" ++
    ascii "Sec-WebSocket-Accept: " ++ accept ++ ascii "\r\n" ++
    ascii "\r\n"

def maskPayload (maskKey payload : Bytes) : Bytes :=
  payload.mapIdx fun i byte => byte ^^^ maskKey.getD (i &&& 3) 0

def frameHeader (opcode : Nat) (maskBit : UInt8) (n : Nat) : Bytes :=
  UInt8.ofNat (0x80 ||| (opcode &&& 0x0F)) ::
    if n < 126 then [maskBit ||| UInt8.ofNat n]
    else if n < 65536 then (maskBit ||| 126) :: bigEndian 2 n
    else (maskBit ||| 127) :: bigEndian 8 n

def encodeFrame (opcode : Nat) (payload : Bytes) (maskKey : Option Bytes) : Except WSError Bytes :=
  match maskKey with
  | none => .ok (frameHeader opcode 0x00 payload.length ++ payload)
  | some key =>
    if key.length ≠ 4 then .error .maskKeySize
    else .ok (frameHeader opcode 0x80 payload.length ++ key ++ maskPayload key payload)

def binaryFrame (payload : Bytes) (maskKey : Option Bytes) : Except WSError Bytes :=
  encodeFrame opBinary payload maskKey

def pongFrame (payload : Bytes) (maskKey : Option Bytes) : Except WSError Bytes :=
  encodeFrame opPong payload maskKey

def frameLength (low : Nat) (rest : Bytes) : Option (Nat × Bytes) :=
  if low = 126 then
    if rest.length < 2 then none else some (fromBigEndian (rest.take 2), rest.drop 2)
  else if low = 127 then
    if rest.length < 8 then none else some (fromBigEndian (rest.take 8), rest.drop 8)
  else some (low, rest)

def framePayload (opcode : Nat) (masked : Bool) (length : Nat) (body : Bytes) :
    Found Frame WSError UInt8 :=
  if masked then
    if body.length < 4 then .more
    else if (body.drop 4).length < length then .more
    else
      .item (opcode, maskPayload (body.take 4) ((body.drop 4).take length))
        ((body.drop 4).drop length)
  else if body.length < length then .more
  else .item (opcode, body.take length) (body.drop length)

def next (maxPayload : Nat) (b : Bytes) : Found Frame WSError UInt8 :=
  match b with
  | b0 :: b1 :: rest =>
    match frameLength (b1 &&& 0x7F).toNat rest with
    | none => .more
    | some (length, body) =>
      if length > maxPayload then .fail (.payloadTooLarge length)
      else framePayload (b0.toNat &&& 0x0F) ((b1 &&& 0x80) != 0) length body
  | _ => .more

def defaultMaxPayload : Nat := 1 <<< 20

structure FrameDecoder where
  buf : Bytes := []
  maxPayload : Nat := defaultMaxPayload

theorem frameLength_shorter (low length : Nat) (rest body : Bytes)
    (found : frameLength low rest = some (length, body)) : body.length ≤ rest.length := by
  unfold frameLength at found
  split_ifs at found <;> simp only [Option.some.injEq, Prod.mk.injEq] at found
  all_goals obtain ⟨-, rfl⟩ := found; simp

theorem frameLength_append (low length : Nat) (rest body later : Bytes)
    (found : frameLength low rest = some (length, body)) :
    frameLength low (rest ++ later) = some (length, body ++ later) := by
  unfold frameLength at found ⊢
  split_ifs at found with two short eight short' <;>
    obtain ⟨rfl, rfl⟩ := by simpa using found
  · have enough : 2 ≤ rest.length := by omega
    simp [two, List.take_append_of_le_length enough, List.drop_append_of_le_length enough]
    omega
  · have enough : 8 ≤ rest.length := by omega
    simp [eight, List.take_append_of_le_length enough, List.drop_append_of_le_length enough]
    omega
  · simp [two, eight]

theorem framePayload_shorter (opcode : Nat) (masked : Bool) (length : Nat) (body : Bytes)
    (frame : Frame) (rest : Bytes)
    (found : framePayload opcode masked length body = .item frame rest) :
    rest.length ≤ body.length := by
  unfold framePayload at found
  split_ifs at found <;> simp only [Found.item.injEq] at found
  all_goals obtain ⟨-, rfl⟩ := found; simp

theorem framePayload_stable (opcode : Nat) (masked : Bool) (length : Nat) (body later : Bytes)
    (settled : framePayload opcode masked length body ≠ .more) :
    framePayload opcode masked length (body ++ later) =
      (framePayload opcode masked length body).extend later := by
  cases masked with
  | false =>
    simp only [framePayload, Bool.false_eq_true, if_false] at settled ⊢
    by_cases short : body.length < length
    · simp [short] at settled
    · have enough : length ≤ body.length := by omega
      simp [short, Found.extend, List.take_append_of_le_length enough,
        List.drop_append_of_le_length enough]
      omega
  | true =>
    simp only [framePayload, if_true] at settled ⊢
    by_cases keyShort : body.length < 4
    · simp [keyShort] at settled
    by_cases short : (body.drop 4).length < length
    · exact absurd (by rw [if_neg keyShort, if_pos short]) settled
    have keyIn : 4 ≤ body.length := by omega
    have enough : length ≤ (body.drop 4).length := by omega
    have longer : ¬ (body ++ later).length < 4 := by simp; omega
    rw [List.take_append_of_le_length keyIn, List.drop_append_of_le_length keyIn,
      List.take_append_of_le_length enough, List.drop_append_of_le_length enough]
    have still : ¬ (body.drop 4 ++ later).length < length := by simp at short ⊢; omega
    simp only [keyShort, short, longer, still, if_false, Found.extend]

theorem next_item (maxPayload : Nat) (buffer : Bytes) (frame : Frame) (rest : Bytes)
    (found : next maxPayload buffer = .item frame rest) :
    ∃ b0 b1 tail length body, buffer = b0 :: b1 :: tail ∧
      frameLength (b1 &&& 0x7F).toNat tail = some (length, body) ∧ length ≤ maxPayload ∧
      framePayload (b0.toNat &&& 0x0F) ((b1 &&& 0x80) != 0) length body = .item frame rest := by
  unfold next at found
  split at found
  next b0 b1 tail =>
    split at found
    next => simp at found
    next length body field =>
      split_ifs at found with long
      exact ⟨b0, b1, tail, length, body, rfl, field, Nat.not_lt.mp long, found⟩
  next => simp at found

theorem next_consumes (maxPayload : Nat) (buffer : Bytes) (frame : Frame) (rest : Bytes)
    (found : next maxPayload buffer = .item frame rest) : rest.length < buffer.length := by
  obtain ⟨b0, b1, tail, length, body, rfl, field, -, payload⟩ := next_item _ _ _ _ found
  have inBody := framePayload_shorter _ _ _ _ _ _ payload
  have inTail := frameLength_shorter _ _ _ _ field
  simp only [List.length_cons]
  omega

theorem next_stable (maxPayload : Nat) (buffer later : Bytes)
    (settled : next maxPayload buffer ≠ .more) :
    next maxPayload (buffer ++ later) = (next maxPayload buffer).extend later := by
  unfold next at settled ⊢
  split at settled
  next b0 b1 tail =>
    split at settled
    next => simp at settled
    next length body field =>
      simp only [List.cons_append, frameLength_append _ _ _ _ later field]
      split_ifs at settled ⊢
      · rfl
      · exact framePayload_stable _ _ _ _ _ settled
  next => simp at settled

def scanner (maxPayload : Nat) : Scanner Frame WSError UInt8 where
  scan := next maxPayload
  consumes := next_consumes maxPayload
  stable := next_stable maxPayload

-- `feed`: the buffer keeps what the drain leaves; a `WSError` loses the frames of this call.
def FrameDecoder.feed (decoder : FrameDecoder) (data : Bytes) :
    FrameDecoder × Except WSError (List Frame) :=
  let drained := (scanner decoder.maxPayload).drain (decoder.buf ++ data)
  ({ decoder with buf := drained.kept },
    match drained.failed with
    | some error => .error error
    | none => .ok drained.items)

-- Successive feeds; the caller stops at the first `WSError`.
def FrameDecoder.feedAll (decoder : FrameDecoder) : List Bytes → FrameDecoder × Except WSError (List Frame)
  | [] => (decoder, .ok [])
  | chunk :: rest =>
    match decoder.feed chunk with
    | (after, .error error) => (after, .error error)
    | (after, .ok frames) =>
      match after.feedAll rest with
      | (final, .error error) => (final, .error error)
      | (final, .ok later) => (final, .ok (frames ++ later))

theorem FrameDecoder.feedAll_ok (decoder : FrameDecoder) (chunks : List Bytes)
    (drained : Drained Frame WSError UInt8) (sound : drained.failed = none)
    (fed : (scanner decoder.maxPayload).feedAll decoder.buf chunks = drained) :
    decoder.feedAll chunks = ({ decoder with buf := drained.kept }, .ok drained.items) := by
  induction chunks generalizing decoder drained with
  | nil => simp [feedAll, ← fed, Scanner.feedAll]
  | cons chunk rest ih =>
    simp only [Scanner.feedAll] at fed
    cases failed : ((scanner decoder.maxPayload).drain (decoder.buf ++ chunk)).failed with
    | some error => simp [failed] at fed; simp [← fed, failed] at sound
    | none =>
      simp only [failed] at fed
      subst fed
      have later := ih { decoder with
        buf := ((scanner decoder.maxPayload).drain (decoder.buf ++ chunk)).kept }
        ((scanner decoder.maxPayload).feedAll
          ((scanner decoder.maxPayload).drain (decoder.buf ++ chunk)).kept rest) sound rfl
      simp [feedAll, feed, failed, later]

end MidiToIp.Ws
