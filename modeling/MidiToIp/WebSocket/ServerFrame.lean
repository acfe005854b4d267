import Mathlib.Data.List.Basic
import MidiToIp.WebSocket.MidiWsStream
import MidiToIp.WebSocket.Ws

set_option autoImplicit false

namespace MidiToIp.MidiWs

open Octets

/-- A frame as the server sends it: a data frame of any length the format allows, or a control
frame of at most 125 bytes. -/
structure ServerFrame where
  opcode : Nat
  payload : Bytes
  known : opcode < 16
  bounded : payload.length < 2 ^ 63
  controlShort : 8 ≤ opcode → payload.length ≤ 125

namespace ServerFrame

def isControl (frame : ServerFrame) : Bool := 8 ≤ frame.opcode

def data (frame : ServerFrame) : Bytes := if frame.isControl then [] else frame.payload

def wire (frame : ServerFrame) : Bytes :=
  Ws.frameHeader frame.opcode 0x00 frame.payload.length ++ frame.payload

theorem wire_encoded (frame : ServerFrame) :
    Ws.encodeFrame frame.opcode frame.payload none = .ok frame.wire := rfl

end ServerFrame

variable {Host : Type} (host : DecoderHost Host)

theorem readOpcode_header (d : MidiWsDecoder) (opcode : Nat) (known : opcode < 16) :
    readOpcode d (UInt8.ofNat (0x80 ||| (opcode &&& 0x0F))) =
      { d with
        opcode := UInt8.ofNat opcode
        isControl := decide (8 ≤ opcode)
        ctl := []
        state := .len } := by
  have all : ∀ value : Fin 16,
      UInt8.ofNat (0x80 ||| (value.val &&& 0x0F)) &&& 0x0F = UInt8.ofNat value.val ∧
        (UInt8.ofNat (0x80 ||| (value.val &&& 0x0F)) &&& 0x0F &&& 0x08 != 0) =
          decide (8 ≤ value.val) := by decide
  obtain ⟨low, control⟩ := all ⟨opcode, known⟩
  simp only at low control
  unfold readOpcode
  rw [control, low]

theorem lengthByte_clear (low : Nat) (fits : low < 128) :
    (0x00 ||| UInt8.ofNat low) &&& 0x80 = 0 ∧ ((0x00 ||| UInt8.ofNat low) &&& 0x7F).toNat = low := by
  have all : ∀ value : Fin 128, ((0x00 : UInt8) ||| UInt8.ofNat value.val) &&& 0x80 = 0 ∧
      (((0x00 : UInt8) ||| UInt8.ofNat value.val) &&& 0x7F).toNat = value.val := by decide
  exact all ⟨low, fits⟩

theorem feedBytes_longHeader (lawful : Lawful host) (s : Host) (opcode low width n : Nat)
    (tail : Bytes) (known : opcode < 16) (data : opcode < 8)
    (field : low = 126 ∧ width = 2 ∨ low = 127 ∧ width = 8) (fits : n < 256 ^ width)
    (atStart : (host.dec s).state = .op) :
    feedBytes host s (UInt8.ofNat (0x80 ||| (opcode &&& 0x0F)) :: (0x00 ||| UInt8.ofNat low) ::
        (bigEndian width n ++ tail)) =
      feedBytes host
        (settle host (host.setDec
          { state := .payload
            opcode := UInt8.ofNat opcode
            isControl := false
            remaining := n
            extLeft := 0
            ctl := [] } s)) tail := by
  have widthBounds : 0 < width ∧ width ≤ 8 := by omega
  obtain ⟨clear, length⟩ := lengthByte_clear low (by omega)
  have notControl : decide (8 ≤ opcode) = false := by simp; omega
  have opened : readLength (readOpcode (host.dec s) (UInt8.ofNat (0x80 ||| (opcode &&& 0x0F))))
      (0x00 ||| UInt8.ofNat low) =
      some { state := .ext, opcode := UInt8.ofNat opcode, isControl := false, remaining := 0,
             extLeft := width, ctl := [] } := by
    rw [readOpcode_header _ opcode known]
    simp only [readLength, clear, length, notControl, ne_eq, not_true_eq_false, if_false,
      Bool.false_eq_true, false_and]
    rcases field with ⟨rfl, rfl⟩ | ⟨rfl, rfl⟩ <;> rfl
  have waiting : ¬ atFrameEnd (host.dec (host.setDec
      { state := .ext, opcode := UInt8.ofNat opcode, isControl := false, remaining := 0,
        extLeft := width, ctl := [] } s)) := by
    simp [atFrameEnd, lawful.dec_setDec]
  have value : (bigEndian width n).foldl (fun total b => accumulate total b % 2 ^ 64) 0 = n := by
    have small : n < 2 ^ 64 := calc
      n < 256 ^ width := fits
      _ ≤ 256 ^ 8 := Nat.pow_le_pow_right (by omega) widthBounds.2
      _ = 2 ^ 64 := by norm_num
    rw [accumulate_wrapped _ _ (by omega), accumulate_bigEndian, Nat.zero_mul, Nat.zero_add,
      Nat.mod_eq_of_lt fits, Nat.mod_eq_of_lt small]
  have state : (readOpcode (host.dec s) (UInt8.ofNat (0x80 ||| (opcode &&& 0x0F)))).state = .len := by
    simp [readOpcode]
  simp only [feedBytes, feedByte, atStart, lawful.dec_setDec, state, opened, Option.map_some,
    lawful.setDec_setDec, settle_of_settled host _ waiting]
  rw [feedBytes_extended host lawful _ (bigEndian width n) tail (by simp [lawful.dec_setDec])
    (by simp [lawful.dec_setDec]) (by simpa using widthBounds.1)]
  simp only [lawful.dec_setDec, lawful.setDec_setDec, value]

theorem feedBytes_header (lawful : Lawful host) (s : Host) (frame : ServerFrame) (tail : Bytes)
    (atStart : (host.dec s).state = .op) :
    ∃ extLeft, feedBytes host s (Ws.frameHeader frame.opcode 0x00 frame.payload.length ++ tail) =
      feedBytes host
        (settle host (host.setDec
          { state := .payload
            opcode := UInt8.ofNat frame.opcode
            isControl := frame.isControl
            remaining := frame.payload.length
            extLeft := extLeft
            ctl := [] } s)) tail := by
  have control := frame.controlShort
  have known := frame.known
  have bounded := frame.bounded
  unfold Ws.frameHeader
  by_cases short : frame.payload.length < 126
  · obtain ⟨clear, length⟩ := lengthByte_clear frame.payload.length (by omega)
    have opened : readLength
        (readOpcode (host.dec s) (UInt8.ofNat (0x80 ||| (frame.opcode &&& 0x0F))))
        (0x00 ||| UInt8.ofNat frame.payload.length) =
        some { state := .payload, opcode := UInt8.ofNat frame.opcode,
               isControl := frame.isControl, remaining := frame.payload.length,
               extLeft := (host.dec s).extLeft, ctl := [] } := by
      rw [readOpcode_header _ _ known]
      have allowed : ¬ (8 ≤ frame.opcode ∧ 125 < frame.payload.length) := by omega
      simp only [readLength, clear, length, short, ne_eq, not_true_eq_false, if_false, if_true,
        decide_eq_true_eq]
      rw [if_neg allowed]
      rfl
    have state : (readOpcode (host.dec s)
        (UInt8.ofNat (0x80 ||| (frame.opcode &&& 0x0F)))).state = .len := by simp [readOpcode]
    refine ⟨(host.dec s).extLeft, ?_⟩
    simp only [short, if_true, List.cons_append, List.nil_append, feedBytes, feedByte, atStart,
      lawful.dec_setDec, state, opened, Option.map_some, lawful.setDec_setDec]
  · have data : frame.opcode < 8 := by omega
    have notControl : frame.isControl = false := by simp [ServerFrame.isControl]; omega
    refine ⟨0, ?_⟩
    rw [notControl]
    by_cases medium : frame.payload.length < 65536
    · simp only [short, medium, if_true, if_false, List.cons_append]
      exact feedBytes_longHeader host lawful s frame.opcode 126 2 frame.payload.length tail known
        data (.inl ⟨rfl, rfl⟩) (by omega) atStart
    · simp only [short, medium, if_false, List.cons_append]
      exact feedBytes_longHeader host lawful s frame.opcode 127 8 frame.payload.length tail known
        data (.inr ⟨rfl, rfl⟩) (by omega) atStart

theorem takePayload_nil (lawful : Lawful host) (s : Host) (data : Bytes)
    (done : (host.dec s).remaining = 0) (roomy : (host.dec s).ctl.length ≤ 125) :
    (takePayload host s data).1 = s := by
  have same : ({ host.dec s with ctl := (host.dec s).ctl } : MidiWsDecoder) = host.dec s := rfl
  cases control : (host.dec s).isControl <;>
    simp [takePayload, done, control, lawful.onData_nil, lawful.dec_setDec, lawful.setDec_setDec,
      List.take_of_length_le roomy] <;>
    conv_rhs => rw [← lawful.setDec_dec s]
  all_goals congr 1; cases found : host.dec s; simp_all

theorem feedBytes_body (lawful : Lawful host) (s : Host) (payload : Bytes)
    (inPayload : (host.dec s).state = .payload) (count : (host.dec s).remaining = payload.length)
    (fresh : (host.dec s).ctl = []) :
    feedBytes host (settle host s) payload =
      (true, complete host (takePayload host s payload).1) := by
  cases payload with
  | nil =>
    have done : atFrameEnd (host.dec s) := ⟨inPayload, by simpa using count⟩
    simp [settle, done, takePayload_nil host lawful s [] (by simpa using count) (by simp [fresh])]
  | cons b rest =>
    simp only [List.length_cons] at count
    have waiting : ¬ atFrameEnd (host.dec s) := by
      simp only [atFrameEnd, count]
      omega
    obtain ⟨state, -, remaining⟩ := takePayload_dec host lawful s (b :: rest)
    have finished : atFrameEnd (host.dec (takePayload host s (b :: rest)).1) :=
      ⟨state.trans inPayload, by rw [remaining, List.length_cons, count, Nat.sub_self]⟩
    rw [settle_of_settled host s waiting,
      feedBytes_payload host lawful s b rest inPayload (by omega), settle, if_pos finished]

theorem feedBytes_dataFrame (lawful : Lawful host) (s : Host) (frame : ServerFrame)
    (atStart : (host.dec s).state = .op) (data : frame.isControl = false) :
    ∃ d, d.state = .op ∧
      feedBytes host s frame.wire = (true, host.setDec d (host.onData frame.payload s)) := by
  obtain ⟨extLeft, header⟩ := feedBytes_header host lawful s frame frame.payload atStart
  rw [data] at header
  refine ⟨{ state := .op, opcode := UInt8.ofNat frame.opcode, isControl := false, remaining := 0,
            extLeft := extLeft, ctl := [] }, rfl, ?_⟩
  rw [ServerFrame.wire, header, feedBytes_body host lawful _ frame.payload
    (by simp [lawful.dec_setDec]) (by simp [lawful.dec_setDec]) (by simp [lawful.dec_setDec])]
  simp [takePayload, complete, lawful.dec_setDec, lawful.dec_onData, lawful.setDec_setDec,
    lawful.setDec_onData]

theorem feedBytes_controlFrame (lawful : Lawful host) (s : Host) (frame : ServerFrame)
    (atStart : (host.dec s).state = .op) (control : frame.isControl = true) :
    ∃ d, feedBytes host s frame.wire =
      (true,
        let reported := host.onCtl (UInt8.ofNat frame.opcode) frame.payload (host.setDec d s)
        host.setDec { host.dec reported with state := .op } reported) := by
  obtain ⟨extLeft, header⟩ := feedBytes_header host lawful s frame frame.payload atStart
  have short : frame.payload.length ≤ 125 := frame.controlShort (by
    simpa [ServerFrame.isControl] using control)
  rw [control] at header
  refine ⟨{ state := .payload, opcode := UInt8.ofNat frame.opcode, isControl := true,
            remaining := 0, extLeft := extLeft, ctl := frame.payload }, ?_⟩
  rw [ServerFrame.wire, header, feedBytes_body host lawful _ frame.payload
    (by simp [lawful.dec_setDec]) (by simp [lawful.dec_setDec]) (by simp [lawful.dec_setDec])]
  simp [takePayload, complete, lawful.dec_setDec, lawful.setDec_setDec,
    List.take_of_length_le short]

end MidiToIp.MidiWs
