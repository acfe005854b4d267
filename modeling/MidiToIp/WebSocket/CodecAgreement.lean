import Mathlib.Data.List.Basic
import MidiToIp.WebSocket.ServerFrame
import MidiToIp.WebSocket.WsRoundTrip

set_option autoImplicit false

namespace MidiToIp.MidiWs

open Octets

inductive Event where
  | data (byte : UInt8)
  | control (opcode : UInt8) (payload : Bytes)
  deriving DecidableEq, Repr

structure Recorder where
  dec : MidiWsDecoder := midiWsDecoderInit
  events : List Event := []

def recorder : DecoderHost Recorder where
  dec s := s.dec
  setDec d s := { s with dec := d }
  onData p s := { s with events := s.events ++ p.map .data }
  onCtl opcode p s := { s with events := s.events ++ [.control opcode p] }

theorem recorder_lawful : Lawful recorder where
  dec_setDec := fun _ _ => rfl
  setDec_dec := fun _ => rfl
  setDec_setDec := fun _ _ _ => rfl
  dec_onData := fun _ _ => rfl
  setDec_onData := fun _ _ _ => rfl
  onData_nil := by intro s; simp [recorder]
  onData_append := by intro p q s; simp [recorder]

def decodeBuffers {Host : Type} (host : DecoderHost Host) (s : Host) :
    List Bytes → List Bool × Host
  | [] => ([], s)
  | buffer :: rest =>
    let (answer, s) := midiWsDecode host s buffer
    let (answers, final) := decodeBuffers host s rest
    (answer :: answers, final)

theorem decodeBuffers_correct {Host : Type} (host : DecoderHost Host) (lawful : Lawful host)
    (s final : Host) (buffers : List Bytes) (settled : ¬ atFrameEnd (host.dec s))
    (whole : feedBytes host s buffers.flatten = (true, final)) :
    decodeBuffers host s buffers = (List.replicate buffers.length true, final) := by
  induction buffers generalizing s with
  | nil =>
    obtain rfl : s = final := by simpa using whole
    rfl
  | cons buffer rest ih =>
    rw [List.flatten_cons, feedBytes_append] at whole
    have fed := midiWsDecode_eq_feedBytes host lawful s buffer settled
    have after := feedBytes_settled host lawful s buffer settled
    cases first : feedBytes host s buffer with
    | mk answer middle =>
      rw [first] at whole fed after
      cases answer with
      | false => simp at whole
      | true =>
        have later := ih middle after (by simpa using whole)
        simp [decodeBuffers, fed, later, List.replicate_succ]

def ServerFrame.events (frame : ServerFrame) : List Event :=
  if frame.isControl then [.control (UInt8.ofNat frame.opcode) frame.payload]
  else frame.payload.map .data

theorem feedBytes_frame (s : Recorder) (frame : ServerFrame) (atStart : s.dec.state = .op) :
    ∃ d, d.state = .op ∧
      feedBytes recorder s frame.wire = (true, ⟨d, s.events ++ frame.events⟩) := by
  cases control : frame.isControl with
  | false =>
    obtain ⟨d, state, fed⟩ := feedBytes_dataFrame recorder recorder_lawful s frame atStart control
    exact ⟨d, state, by rw [fed]; simp [recorder, ServerFrame.events, control]⟩
  | true =>
    obtain ⟨d, fed⟩ := feedBytes_controlFrame recorder recorder_lawful s frame atStart control
    refine ⟨{ d with state := .op }, rfl, ?_⟩
    rw [fed]
    simp [recorder, ServerFrame.events, control]

theorem feedBytes_frames (s : Recorder) (frames : List ServerFrame) (atStart : s.dec.state = .op) :
    ∃ d, d.state = .op ∧
      feedBytes recorder s (frames.map ServerFrame.wire).flatten =
        (true, ⟨d, s.events ++ frames.flatMap ServerFrame.events⟩) := by
  induction frames generalizing s with
  | nil => exact ⟨s.dec, atStart, by simp⟩
  | cons frame rest ih =>
    obtain ⟨middle, state, fed⟩ := feedBytes_frame s frame atStart
    obtain ⟨d, final, later⟩ := ih ⟨middle, s.events ++ frame.events⟩ state
    refine ⟨d, final, ?_⟩
    rw [List.map_cons, List.flatten_cons, feedBytes_append, fed]
    simp [later]

theorem mapM_encodeFrame (frames : List ServerFrame) :
    (frames.mapM fun frame => Ws.encodeFrame frame.opcode frame.payload none) =
      .ok (frames.map ServerFrame.wire) := by
  induction frames with
  | nil => rfl
  | cons frame rest ih =>
    simp only [List.mapM_cons, ServerFrame.wire_encoded] at ih ⊢
    rw [ih]
    rfl

theorem serverFrames_decoded (frames : List ServerFrame) (buffers : List Bytes)
    (cut : buffers.flatten = (frames.map ServerFrame.wire).flatten) :
    ∃ d, d.state = .op ∧
      decodeBuffers recorder { dec := midiWsDecoderInit } buffers =
        (List.replicate buffers.length true, ⟨d, frames.flatMap ServerFrame.events⟩) := by
  obtain ⟨d, state, fed⟩ := feedBytes_frames { dec := midiWsDecoderInit } frames rfl
  refine ⟨d, state, ?_⟩
  rw [← cut] at fed
  have waiting : ¬ atFrameEnd (recorder.dec { dec := midiWsDecoderInit }) := by decide
  exact decodeBuffers_correct recorder recorder_lawful _ _ buffers waiting (by simpa using fed)

theorem midiWsDecode_encodeFrame (frames : List ServerFrame) (encoded buffers : List Bytes)
    (produced : (frames.mapM fun frame => Ws.encodeFrame frame.opcode frame.payload none) =
      .ok encoded)
    (cut : buffers.flatten = encoded.flatten) :
    ∃ d, d.state = .op ∧
      decodeBuffers recorder { dec := midiWsDecoderInit } buffers =
        (List.replicate buffers.length true, ⟨d, frames.flatMap ServerFrame.events⟩) := by
  rw [mapM_encodeFrame, Except.ok.injEq] at produced
  exact serverFrames_decoded frames buffers (produced ▸ cut)

theorem midiWsDecode_encodeFrame_cut :
    ∃ d, d.state = .op ∧
      decodeBuffers recorder { dec := midiWsDecoderInit }
          [[0x82], [], [0x01, 0x90, 0x89], [0x00, 0x82, 0x00]] =
        ([true, true, true, true],
          ⟨d, [.data 0x90, .control 9 []]⟩) :=
  midiWsDecode_encodeFrame
    [⟨2, [0x90], by decide, by decide, by decide⟩, ⟨9, [], by decide, by decide, by decide⟩,
      ⟨2, [], by decide, by decide, by decide⟩]
    [[0x82, 0x01, 0x90], [0x89, 0x00], [0x82, 0x00]] _ rfl rfl

structure ClientFrame where
  opcode : UInt8
  payload : Bytes
  maskKey : Bytes
  known : opcode < 16
  bounded : payload.length ≤ 65535
  keySize : maskKey.length = 4

def ClientFrame.build (frame : ClientFrame) : Bytes :=
  midiWsBuildFrame frame.opcode frame.payload frame.maskKey

theorem clientHeader (frame : ClientFrame) :
    frame.build =
      Ws.frameHeader frame.opcode.toNat 0x80 frame.payload.length ++ frame.maskKey ++
        Ws.maskPayload frame.maskKey frame.payload := by
  obtain ⟨opcode, payload, maskKey, known, bounded, keySize⟩ := frame
  obtain ⟨a, b, c, d, rfl⟩ : ∃ a b c d, maskKey = [a, b, c, d] := by
    match maskKey, keySize with
    | [a, b, c, d], _ => exact ⟨a, b, c, d, rfl⟩
  have first : UInt8.ofNat (0x80 ||| (opcode.toNat &&& 0x0F)) = 0x80 ||| (opcode &&& 0x0F) := by
    have all : ∀ value : Fin 16, UInt8.ofNat (0x80 ||| (value.val &&& 0x0F)) =
        0x80 ||| (UInt8.ofNat value.val &&& 0x0F) := by decide
    have byte := all ⟨opcode.toNat, known⟩
    rwa [UInt8.ofNat_toNat] at byte
  have low : UInt8.ofNat (payload.length &&& 0xFF) = UInt8.ofNat payload.length := by
    have mask : payload.length &&& 0xFF = payload.length % 2 ^ 8 :=
      Nat.and_two_pow_sub_one_eq_mod _ 8
    rw [mask]
    apply UInt8.toNat_inj.mp
    simp
  have high : payload.length >>> 8 = payload.length / 256 := Nat.shiftRight_eq_div_pow _ 8
  simp only [ClientFrame.build, midiWsBuildFrame, Ws.frameHeader, Ws.maskPayload, first]
  by_cases short : payload.length < 126
  · simp [short]
  · have medium : payload.length < 65536 := by omega
    simp [short, medium, bigEndian, low, high]

theorem clientFrame_length (frame : ClientFrame) :
    frame.build.length ≤ frame.payload.length + midiWsFrameOverhead := by
  simp only [ClientFrame.build, midiWsBuildFrame, midiWsFrameOverhead, List.length_append,
    List.length_mapIdx, List.length_cons, List.length_nil]
  split <;> simp only [List.length_cons, List.length_nil] <;> omega

theorem clientFrame_encoded (frame : ClientFrame) :
    Ws.encodeFrame frame.opcode.toNat frame.payload (some frame.maskKey) =
      .ok (midiWsBuildFrame frame.opcode frame.payload frame.maskKey) := by
  have built := clientHeader frame
  simp only [ClientFrame.build] at built
  simp [Ws.encodeFrame, frame.keySize, built]

theorem clientFrames_decoded (frames : List ClientFrame) (chunks : List Bytes)
    (cut : chunks.flatten = (frames.map ClientFrame.build).flatten) :
    ({} : Ws.FrameDecoder).feedAll chunks =
      ({}, .ok (frames.map fun frame => (frame.opcode.toNat, frame.payload))) := by
  have finds (frame : ClientFrame) (later : Bytes) :
      (Ws.scanner Ws.defaultMaxPayload).scan (frame.build ++ later) =
        .item (frame.opcode.toNat, frame.payload) later := by
    have bounded := frame.bounded
    have small : frame.payload.length ≤ Ws.defaultMaxPayload := by
      rw [Ws.defaultMaxPayload]
      omega
    rw [clientHeader frame]
    exact Ws.next_masked _ _ _ _ later frame.known small (by omega) frame.keySize
  have drained := (Ws.scanner Ws.defaultMaxPayload).feedAll_encoded ClientFrame.build
    (fun frame => (frame.opcode.toNat, frame.payload)) finds
    (Ws.next_nil Ws.defaultMaxPayload) frames chunks cut
  exact Ws.FrameDecoder.feedAll_ok {} chunks _ rfl drained

theorem midiWsBuildFrame_encodeFrame :
    (∀ frame : ClientFrame,
      Ws.encodeFrame frame.opcode.toNat frame.payload (some frame.maskKey) =
          .ok (midiWsBuildFrame frame.opcode frame.payload frame.maskKey) ∧
        (midiWsBuildFrame frame.opcode frame.payload frame.maskKey).length ≤
          frame.payload.length + midiWsFrameOverhead) ∧
      ∀ (frames : List ClientFrame) (chunks : List Bytes),
        chunks.flatten = (frames.map fun frame =>
          midiWsBuildFrame frame.opcode frame.payload frame.maskKey).flatten →
        ({} : Ws.FrameDecoder).feedAll chunks =
          ({}, .ok (frames.map fun frame => (frame.opcode.toNat, frame.payload))) :=
  ⟨fun frame => ⟨clientFrame_encoded frame, clientFrame_length frame⟩, clientFrames_decoded⟩

theorem midiWsBuildFrame_encodeFrame_cut :
    ({} : Ws.FrameDecoder).feedAll
        [[0x8A, 0x80, 1, 2, 3, 4, 0x82, 0x81, 5, 6], [7, 8, 0x95]] =
      ({}, .ok [(10, []), (2, [0x90])]) :=
  midiWsBuildFrame_encodeFrame.2
    [⟨10, [], [1, 2, 3, 4], by decide, by decide, rfl⟩,
      ⟨2, [0x90], [5, 6, 7, 8], by decide, by decide, rfl⟩] _ rfl

end MidiToIp.MidiWs
