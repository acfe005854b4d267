import MidiToIp.WebSocket.Ws

set_option autoImplicit false

namespace MidiToIp.Ws

open Octets Framing

@[simp] theorem maskPayload_length (key payload : Bytes) :
    (maskPayload key payload).length = payload.length := by
  simp [maskPayload]

theorem maskPayload_involutive (key payload : Bytes) :
    maskPayload key (maskPayload key payload) = payload := by
  apply List.ext_getElem
  · simp
  · intro i _ _
    simp only [maskPayload, List.getElem_mapIdx]
    rw [UInt8.xor_assoc, UInt8.xor_self, UInt8.xor_zero]

def maskBitOf (masked : Bool) : UInt8 := if masked then 0x80 else 0x00

theorem lengthByte (masked : Bool) (low : Nat) (fits : low < 128) :
    ((maskBitOf masked ||| UInt8.ofNat low) &&& 0x7F).toNat = low ∧
      ((maskBitOf masked ||| UInt8.ofNat low) &&& 0x80 != 0) = masked := by
  have all : ∀ value : Fin 128, ∀ bit : Bool,
      ((maskBitOf bit ||| UInt8.ofNat value) &&& 0x7F).toNat = value ∧
        ((maskBitOf bit ||| UInt8.ofNat value) &&& 0x80 != 0) = bit := by decide
  exact all ⟨low, fits⟩ masked

theorem opcodeByte (opcode : Nat) (fits : opcode < 16) :
    (UInt8.ofNat (0x80 ||| (opcode &&& 0x0F))).toNat &&& 0x0F = opcode := by
  have all : ∀ value : Fin 16,
      (UInt8.ofNat (0x80 ||| (value.val &&& 0x0F))).toNat &&& 0x0F = value.val := by decide
  exact all ⟨opcode, fits⟩

theorem frameHeader_parts (opcode : Nat) (masked : Bool) (n : Nat) (fits : n < 2 ^ 64) :
    ∃ lengthByte field,
      frameHeader opcode (maskBitOf masked) n =
          UInt8.ofNat (0x80 ||| (opcode &&& 0x0F)) :: lengthByte :: field ∧
        (lengthByte &&& 0x80 != 0) = masked ∧
        ∀ tail, frameLength (lengthByte &&& 0x7F).toNat (field ++ tail) = some (n, tail) := by
  unfold frameHeader
  by_cases short : n < 126
  · obtain ⟨low, bit⟩ := lengthByte masked n (by omega)
    refine ⟨_, [], by simp only [short, if_true], bit, fun tail => ?_⟩
    have notExtended : n ≠ 126 ∧ n ≠ 127 := by omega
    simp [low, frameLength, notExtended]
  by_cases medium : n < 65536
  · obtain ⟨low, bit⟩ := lengthByte masked 126 (by omega)
    refine ⟨_, bigEndian 2 n, by simp only [short, medium, if_true, if_false]; rfl, bit,
      fun tail => ?_⟩
    have back := fromBigEndian_bigEndian 2 n medium
    have enough : ¬ (bigEndian 2 n ++ tail).length < 2 := by
      rw [List.length_append, bigEndian_length]
      omega
    have taken : (bigEndian 2 n ++ tail).take 2 = bigEndian 2 n :=
      List.take_left' (bigEndian_length 2 n)
    have left : (bigEndian 2 n ++ tail).drop 2 = tail := List.drop_left' (bigEndian_length 2 n)
    rw [low, frameLength, if_pos rfl, if_neg enough, taken, left, back]
  · obtain ⟨low, bit⟩ := lengthByte masked 127 (by omega)
    refine ⟨_, bigEndian 8 n, by simp only [short, medium, if_false]; rfl, bit, fun tail => ?_⟩
    have back := fromBigEndian_bigEndian 8 n (by simpa using fits)
    rw [low]
    simp [frameLength, back]

theorem next_unmasked (maxPayload opcode : Nat) (payload later : Bytes) (known : opcode < 16)
    (bounded : payload.length ≤ maxPayload) (fits : payload.length < 2 ^ 64) :
    next maxPayload (frameHeader opcode 0x00 payload.length ++ payload ++ later) =
      .item (opcode, payload) later := by
  obtain ⟨second, field, header, bit, length⟩ := frameHeader_parts opcode false payload.length fits
  have byte := opcodeByte opcode known
  simp only [maskBitOf, Bool.false_eq_true, if_false] at header
  rw [header]
  simp only [List.cons_append, List.append_assoc, next, length, bit, byte]
  simp [framePayload, Nat.not_lt.mpr bounded]

theorem next_masked (maxPayload opcode : Nat) (payload key later : Bytes) (known : opcode < 16)
    (bounded : payload.length ≤ maxPayload) (fits : payload.length < 2 ^ 64)
    (keySize : key.length = 4) :
    next maxPayload
        (frameHeader opcode 0x80 payload.length ++ key ++ maskPayload key payload ++ later) =
      .item (opcode, payload) later := by
  obtain ⟨second, field, header, bit, length⟩ := frameHeader_parts opcode true payload.length fits
  have byte := opcodeByte opcode known
  simp only [maskBitOf, if_true] at header
  rw [header]
  simp only [List.cons_append, List.append_assoc, next, length, bit, byte]
  have keyTaken : (key ++ (maskPayload key payload ++ later)).take 4 = key := by
    rw [← keySize, List.take_left]
  have keyDropped : (key ++ (maskPayload key payload ++ later)).drop 4 =
      maskPayload key payload ++ later := by
    rw [← keySize, List.drop_left]
  have payloadTaken : (maskPayload key payload ++ later).take payload.length =
      maskPayload key payload := by
    rw [← maskPayload_length key payload, List.take_left]
  have payloadDropped : (maskPayload key payload ++ later).drop payload.length = later := by
    rw [← maskPayload_length key payload, List.drop_left]
  have enough : ¬ (key ++ (maskPayload key payload ++ later)).length < 4 := by simp; omega
  simp only [framePayload, Nat.not_lt.mpr bounded, enough, keyTaken, keyDropped, payloadTaken,
    payloadDropped, maskPayload_involutive, if_true, if_false]
  simp

theorem next_nil (maxPayload : Nat) : next maxPayload [] = .more := rfl

structure CodedFrame (maxPayload : Nat) where
  opcode : Nat
  payload : Bytes
  maskKey : Option Bytes
  known : opcode < 16
  bounded : payload.length ≤ maxPayload
  representable : payload.length < 2 ^ 63
  keySize : ∀ key ∈ maskKey, key.length = 4

namespace CodedFrame

variable {maxPayload : Nat}

def wire (frame : CodedFrame maxPayload) : Bytes :=
  match frame.maskKey with
  | none => frameHeader frame.opcode 0x00 frame.payload.length ++ frame.payload
  | some key => frameHeader frame.opcode 0x80 frame.payload.length ++ key ++ maskPayload key frame.payload

def decoded (frame : CodedFrame maxPayload) : Frame := (frame.opcode, frame.payload)

theorem encodeFrame_wire (frame : CodedFrame maxPayload) :
    encodeFrame frame.opcode frame.payload frame.maskKey = .ok frame.wire := by
  have keySize := frame.keySize
  unfold encodeFrame wire
  cases masked : frame.maskKey with
  | none => rfl
  | some key =>
    have size : ¬ key.length ≠ 4 := by simpa using keySize key masked
    simp only [if_neg size]

theorem next_wire (frame : CodedFrame maxPayload) (later : Bytes) :
    next maxPayload (frame.wire ++ later) = .item frame.decoded later := by
  have fits : frame.payload.length < 2 ^ 64 := by
    have representable := frame.representable
    omega
  unfold wire
  cases masked : frame.maskKey with
  | none => exact next_unmasked _ _ _ later frame.known frame.bounded fits
  | some key =>
    exact next_masked _ _ _ key later frame.known frame.bounded fits (frame.keySize key masked)

end CodedFrame

theorem feedAll_encodeFrame (maxPayload : Nat) :
    (∀ frame : CodedFrame maxPayload,
      encodeFrame frame.opcode frame.payload frame.maskKey = .ok frame.wire) ∧
      ∀ (frames : List (CodedFrame maxPayload)) (fed rest : List Bytes),
        (fed ++ rest).flatten = (frames.map CodedFrame.wire).flatten →
        ({ maxPayload := maxPayload } : FrameDecoder).feedAll (fed ++ rest) =
            ({ maxPayload := maxPayload }, .ok (frames.map CodedFrame.decoded)) ∧
          ∃ done todo tail, frames = done ++ todo ∧
            fed.flatten = (done.map CodedFrame.wire).flatten ++ tail ∧
            ({ maxPayload := maxPayload } : FrameDecoder).feedAll fed =
              ({ buf := tail, maxPayload := maxPayload }, .ok (done.map CodedFrame.decoded)) ∧
            todo.head?.elim (tail = []) fun upcoming => tail <+: upcoming.wire ∧ tail ≠ upcoming.wire := by
  refine ⟨CodedFrame.encodeFrame_wire, fun frames fed rest cut => ⟨?_, ?_⟩⟩
  · have whole := (scanner maxPayload).feedAll_encoded CodedFrame.wire CodedFrame.decoded
      CodedFrame.next_wire (next_nil maxPayload) frames (fed ++ rest) cut
    exact FrameDecoder.feedAll_ok { maxPayload := maxPayload } (fed ++ rest) _ rfl whole
  · have part : fed.flatten <+: (frames.map CodedFrame.wire).flatten := by
      rw [← cut, List.flatten_append]
      exact List.prefix_append _ _
    obtain ⟨done, todo, tail, split, held, drained, next⟩ :=
      (scanner maxPayload).drain_encoded_part CodedFrame.wire CodedFrame.decoded
        CodedFrame.next_wire (next_nil maxPayload) frames fed.flatten part
    have fedAll := (scanner maxPayload).feedAll_eq_drain [] fed (next_nil maxPayload)
      (by simp [drained])
    rw [List.nil_append, drained] at fedAll
    refine ⟨done, todo, tail, split, held, ?_, next⟩
    exact FrameDecoder.feedAll_ok { maxPayload := maxPayload } fed _ rfl fedAll

theorem feedAll_encodeFrame_cut :
    ∃ done todo tail,
      [(⟨10, [], none, by decide, by decide, by decide, by simp⟩ : CodedFrame 125),
        ⟨2, [0x90], some [5, 6, 7, 8], by decide, by decide, by decide, by simp⟩] = done ++ todo ∧
      [0x8A, 0x00, 0x82, 0x81, 5, 6] = (done.map CodedFrame.wire).flatten ++ tail ∧
      ({ maxPayload := 125 } : FrameDecoder).feedAll [[0x8A, 0x00, 0x82, 0x81, 5, 6]] =
        ({ buf := tail, maxPayload := 125 }, .ok (done.map CodedFrame.decoded)) ∧
      todo.head?.elim (tail = []) fun upcoming => tail <+: upcoming.wire ∧ tail ≠ upcoming.wire :=
  ((feedAll_encodeFrame 125).2
    [⟨10, [], none, by decide, by decide, by decide, by simp⟩,
      ⟨2, [0x90], some [5, 6, 7, 8], by decide, by decide, by decide, by simp⟩]
    [[0x8A, 0x00, 0x82, 0x81, 5, 6]] [[7, 8, 0x95]] rfl).2

end MidiToIp.Ws
