import Mathlib.Data.List.Basic
import MidiToIp.Orchestrator.Receive
import MidiToIp.WebSocket.CodecAgreement

set_option autoImplicit false

namespace MidiToIp.Orchestrator

open Octets Framing MidiWs

def pongs : List Ws.Frame → List Ws.Frame
  | [] => []
  | (opcode, payload) :: rest =>
    if opcode = Ws.opBinary ∨ opcode = Ws.opCont ∨ opcode = Ws.opText then pongs rest
    else if opcode = Ws.opPing then (Ws.opPong, payload) :: pongs rest
    else if opcode = Ws.opClose then []
    else pongs rest

def emitted : Ws.FrameDecoder → List Read → List Ws.Frame
  | _, [] => []
  | dec, raw :: later =>
    match dec.feed raw.val with
    | (_, .error _) => []
    | (dec, .ok frames) =>
      pongs frames ++
        match gather [] frames with
        | none => []
        | some [] => emitted dec later
        | some out => (Ws.opBinary, out) :: emitted dec later

def relayed (frames : List Ws.Frame) : Bytes :=
  (frames.filter fun frame => frame.1 = Ws.opBinary).flatMap Prod.snd

def heard (frame : Ws.Frame) : List Event :=
  if 8 ≤ frame.1 then [.control (UInt8.ofNat frame.1) frame.2] else frame.2.map .data

def Decodable (frames : List Ws.Frame) : Prop :=
  ∃ encoded, (frames.mapM fun frame => Ws.encodeFrame frame.1 frame.2 none) = .ok encoded ∧
    ∀ chunks : List Bytes, chunks.flatten = encoded.flatten →
      ({} : Ws.FrameDecoder).feedAll chunks = ({}, .ok frames) ∧
        ∃ d, d.state = .op ∧
          decodeBuffers recorder { dec := midiWsDecoderInit } chunks =
            (List.replicate chunks.length true, ⟨d, frames.flatMap heard⟩)

def Relays (reads : List Read) : Prop :=
  (∀ frames, frames.Sublist (emitted {} reads) → Decodable frames) ∧
    relayed (emitted {} reads) = (Carrier.ws {}).received reads

/-- No read completes more data than a frame of a decoder may have, and none answers a ping with
more than 125 bytes. A read with a close frame passes no data on. -/
def Bounded (kept : Bytes) : List Read → Prop
  | [] => True
  | raw :: later =>
    (scanned (kept ++ raw.val)).failed = none →
      (∀ frame ∈ (scanned (kept ++ raw.val)).items.takeWhile (fun frame => frame.1 ≠ Ws.opClose),
        frame.1 = Ws.opPing → frame.2.length ≤ 125) ∧
      ((∀ frame ∈ (scanned (kept ++ raw.val)).items, frame.1 ≠ Ws.opClose) →
        (payloads (scanned (kept ++ raw.val)).items).length ≤ Ws.defaultMaxPayload ∧
          Bounded (scanned (kept ++ raw.val)).kept later)

structure Fits (frame : Ws.Frame) : Prop where
  known : frame.1 < 16
  bounded : frame.2.length ≤ Ws.defaultMaxPayload
  controlShort : 8 ≤ frame.1 → frame.2.length ≤ 125

theorem Fits.representable {frame : Ws.Frame} (fits : Fits frame) : frame.2.length < 2 ^ 63 := by
  have bounded := fits.bounded
  unfold Ws.defaultMaxPayload at bounded
  omega

structure SmallFrame extends ServerFrame where
  small : payload.length ≤ Ws.defaultMaxPayload

def SmallFrame.frame (small : SmallFrame) : Ws.Frame := (small.opcode, small.payload)

def Fits.small {frame : Ws.Frame} (fits : Fits frame) : SmallFrame :=
  ⟨⟨frame.1, frame.2, fits.known, fits.representable, fits.controlShort⟩, fits.bounded⟩

theorem smallFrames (frames : List Ws.Frame) (fits : ∀ frame ∈ frames, Fits frame) :
    ∃ smalls : List SmallFrame, smalls.map SmallFrame.frame = frames := by
  induction frames with
  | nil => exact ⟨[], rfl⟩
  | cons frame rest ih =>
    obtain ⟨smalls, same⟩ := ih fun other member => fits other (List.mem_cons_of_mem _ member)
    exact ⟨(fits frame List.mem_cons_self).small :: smalls, by rw [List.map_cons, same]; rfl⟩

theorem smallFrames_fed (smalls : List SmallFrame) (chunks : List Bytes)
    (cut : chunks.flatten = (smalls.map fun small => small.wire).flatten) :
    ({} : Ws.FrameDecoder).feedAll chunks = ({}, .ok (smalls.map SmallFrame.frame)) := by
  have finds (small : SmallFrame) (later : Bytes) :
      (Ws.scanner Ws.defaultMaxPayload).scan (small.wire ++ later) = .item small.frame later := by
    have representable := small.bounded
    exact Ws.next_unmasked _ _ _ later small.known small.small (by omega)
  have drained := (Ws.scanner Ws.defaultMaxPayload).feedAll_encoded (fun small => small.wire)
    SmallFrame.frame finds (Ws.next_nil Ws.defaultMaxPayload) smalls chunks cut
  exact Ws.FrameDecoder.feedAll_ok {} chunks _ rfl drained

theorem heard_frame (small : SmallFrame) : heard small.frame = small.events := by
  unfold heard ServerFrame.events ServerFrame.isControl SmallFrame.frame
  by_cases control : 8 ≤ small.opcode <;> simp [control]

theorem decodable_of_fits (frames : List Ws.Frame) (fits : ∀ frame ∈ frames, Fits frame) :
    Decodable frames := by
  obtain ⟨smalls, rfl⟩ := smallFrames frames fits
  have encoded := mapM_encodeFrame (smalls.map SmallFrame.toServerFrame)
  rw [List.mapM_map, List.map_map] at encoded
  refine ⟨smalls.map fun small => small.wire, ?_, fun chunks cut => ⟨smallFrames_fed smalls chunks cut, ?_⟩⟩
  · rw [List.mapM_map]
    exact encoded
  · obtain ⟨d, state, decoded⟩ := serverFrames_decoded (smalls.map SmallFrame.toServerFrame) chunks
      (by rw [cut, List.map_map]; rfl)
    refine ⟨d, state, ?_⟩
    rw [decoded, List.flatMap_map, List.flatMap_map, List.flatMap_congr fun small _ => heard_frame small]

theorem framePayload_bounded (opcode : Nat) (masked : Bool) (length : Nat) (body : Bytes)
    (frame : Ws.Frame) (rest : Bytes)
    (found : Ws.framePayload opcode masked length body = .item frame rest) :
    frame.2.length ≤ length := by
  unfold Ws.framePayload at found
  split_ifs at found <;> simp only [Found.item.injEq] at found <;> obtain ⟨rfl, -⟩ := found <;>
    simp

theorem next_bounded (maxPayload : Nat) (buffer : Bytes) (frame : Ws.Frame) (rest : Bytes)
    (found : Ws.next maxPayload buffer = .item frame rest) : frame.2.length ≤ maxPayload := by
  obtain ⟨b0, b1, tail, length, body, -, -, within, payload⟩ := Ws.next_item _ _ _ _ found
  exact (framePayload_bounded _ _ _ _ _ _ payload).trans within

theorem decodable_bounded (frame : Ws.Frame) (decodable : Decodable [frame]) :
    frame.2.length ≤ Ws.defaultMaxPayload := by
  obtain ⟨encoded, -, decodes⟩ := decodable
  obtain ⟨fed, -⟩ := decodes [encoded.flatten] (by simp)
  have all := (Ws.scanner Ws.defaultMaxPayload).drain_all
    (fun frame => frame.2.length ≤ Ws.defaultMaxPayload) (next_bounded Ws.defaultMaxPayload)
    encoded.flatten
  simp only [Ws.FrameDecoder.feedAll, Ws.FrameDecoder.feed, List.nil_append] at fed
  cases failed : ((Ws.scanner Ws.defaultMaxPayload).drain encoded.flatten).failed with
  | some error => simp [failed] at fed
  | none =>
    simp only [failed, List.append_nil, Prod.mk.injEq, Except.ok.injEq] at fed
    exact all frame (by rw [fed.2]; exact List.mem_singleton_self frame)

theorem decodable_short (payload : Bytes) (decodable : Decodable [(Ws.opPong, payload)]) :
    payload.length ≤ 125 := by
  by_contra long
  obtain ⟨encoded, wires, decodes⟩ := decodable
  obtain ⟨rest, wire⟩ : ∃ rest, encoded.flatten = 0x8A :: 0x7E :: rest ∨
      encoded.flatten = 0x8A :: 0x7F :: rest := by
    have single : encoded = [Ws.frameHeader Ws.opPong 0x00 payload.length ++ payload] :=
      (Except.ok.inj wires).symm
    have extended : ¬ payload.length < 126 := by omega
    rw [single]
    by_cases medium : payload.length < 65536
    · refine ⟨bigEndian 2 payload.length ++ payload, .inl ?_⟩
      rw [Ws.frameHeader, if_neg extended, if_pos medium]
      simp
      decide
    · refine ⟨bigEndian 8 payload.length ++ payload, .inr ?_⟩
      rw [Ws.frameHeader, if_neg extended, if_neg medium]
      simp
      decide
  obtain ⟨-, d, -, decoded⟩ := decodes [encoded.flatten] (by simp)
  have refused : (midiWsDecode recorder { dec := midiWsDecoderInit } encoded.flatten).1 = false := by
    rw [midiWsDecode_eq_feedBytes recorder recorder_lawful _ _ (by decide)]
    rcases wire with same | same
    · rw [same]
      rfl
    · rw [same]
      rfl
  simp [decodeBuffers, refused] at decoded

theorem pongs_eq (frames : List Ws.Frame) :
    pongs frames =
      ((frames.takeWhile fun frame => frame.1 ≠ Ws.opClose).filter fun frame =>
        frame.1 = Ws.opPing).map fun frame => (Ws.opPong, frame.2) := by
  induction frames with
  | nil => rfl
  | cons frame rest ih =>
    obtain ⟨opcode, payload⟩ := frame
    have data_ne : opcode = Ws.opBinary ∨ opcode = Ws.opCont ∨ opcode = Ws.opText →
        opcode ≠ Ws.opClose ∧ opcode ≠ Ws.opPing := by
      simp only [Ws.opBinary, Ws.opCont, Ws.opText, Ws.opClose, Ws.opPing]
      omega
    unfold pongs
    by_cases data : opcode = Ws.opBinary ∨ opcode = Ws.opCont ∨ opcode = Ws.opText
    · rw [if_pos data]
      simp [ih, data_ne data]
    · rw [if_neg data]
      by_cases ping : opcode = Ws.opPing
      · subst ping
        simp [ih, Ws.opPing, Ws.opClose]
      · by_cases closing : opcode = Ws.opClose
        · simp [closing, Ws.opPing, Ws.opClose]
        · simp [ping, closing, ih]

theorem relayed_pongs (frames : List Ws.Frame) : relayed (pongs frames) = [] := by
  simp [relayed, pongs_eq, List.filter_map, Ws.opPong, Ws.opBinary]

theorem relayed_append (frames later : List Ws.Frame) :
    relayed (frames ++ later) = relayed frames ++ relayed later := by
  simp [relayed]

def dataFrame (data : Bytes) : List Ws.Frame := if data = [] then [] else [(Ws.opBinary, data)]

theorem relayed_dataFrame (data : Bytes) : relayed (dataFrame data) = data := by
  unfold dataFrame
  by_cases nothing : data = [] <;> simp [nothing, relayed]

theorem emitted_cons (dec : Ws.FrameDecoder) (default_ : dec.maxPayload = Ws.defaultMaxPayload)
    (raw : Read) (later : List Read) :
    emitted dec (raw :: later) =
      if (scanned (dec.buf ++ raw.val)).failed ≠ none then []
      else pongs (scanned (dec.buf ++ raw.val)).items ++
        if ∃ frame ∈ (scanned (dec.buf ++ raw.val)).items, frame.1 = Ws.opClose then []
        else dataFrame (payloads (scanned (dec.buf ++ raw.val)).items) ++
          emitted { dec with buf := (scanned (dec.buf ++ raw.val)).kept } later := by
  simp only [emitted, Ws.FrameDecoder.feed, default_]
  generalize found : scanned (dec.buf ++ raw.val) = decoded
  unfold scanned at found
  simp only [found]
  cases failed : decoded.failed with
  | some error => simp
  | none =>
    simp only [gather_eq, List.nil_append, ne_eq, not_true_eq_false, if_false]
    by_cases closing : ∃ frame ∈ decoded.items, frame.1 = Ws.opClose
    · simp only [if_pos closing]
    · simp only [if_neg closing, payloads_open _ closing, dataFrame]
      cases data : decoded.items.flatMap payloadOf <;> simp

theorem relayed_emitted (dec : Ws.FrameDecoder) (default_ : dec.maxPayload = Ws.defaultMaxPayload)
    (reads : List Read) : relayed (emitted dec reads) = (Carrier.ws dec).received reads := by
  induction reads generalizing dec with
  | nil => rfl
  | cons raw later ih =>
    rw [emitted_cons dec default_, received_cons dec default_]
    generalize scanned (dec.buf ++ raw.val) = decoded
    by_cases failed : decoded.failed ≠ none
    · simp [failed, Decoded.Ends, relayed]
    · by_cases closing : ∃ frame ∈ decoded.items, frame.1 = Ws.opClose
      · have ends : decoded.Ends := .inr closing
        simp only [if_neg failed, if_pos closing, if_pos ends, List.append_nil, relayed_pongs]
      · have goesOn : ¬ decoded.Ends := not_or.mpr ⟨failed, closing⟩
        simp only [if_neg failed, if_neg closing, if_neg goesOn, relayed_append, relayed_pongs,
          relayed_dataFrame, List.nil_append]
        rw [ih { dec with buf := decoded.kept } default_]

theorem fits_binary (data : Bytes) :
    Fits (Ws.opBinary, data) ↔ data.length ≤ Ws.defaultMaxPayload := by
  constructor
  · exact fun fits => fits.bounded
  · intro bounded
    have data : Ws.opBinary < 8 := by decide
    exact ⟨data.trans (by decide), bounded, fun control => absurd control data.not_ge⟩

theorem fits_pong (payload : Bytes) : Fits (Ws.opPong, payload) ↔ payload.length ≤ 125 := by
  constructor
  · intro fits
    have control : 8 ≤ Ws.opPong := by decide
    exact fits.controlShort control
  · intro short
    have known : Ws.opPong < 16 := by decide
    have bound : (125 : Nat) ≤ Ws.defaultMaxPayload := by decide
    exact ⟨known, short.trans bound, fun _ => short⟩

theorem fits_pongs (frames : List Ws.Frame) :
    (∀ frame ∈ pongs frames, Fits frame) ↔
      ∀ frame ∈ frames.takeWhile (fun frame => frame.1 ≠ Ws.opClose),
        frame.1 = Ws.opPing → frame.2.length ≤ 125 := by
  simp only [pongs_eq, List.forall_mem_map, List.mem_filter, decide_eq_true_eq, and_imp, fits_pong]

theorem fits_dataFrame (data : Bytes) :
    (∀ frame ∈ dataFrame data, Fits frame) ↔ data.length ≤ Ws.defaultMaxPayload := by
  unfold dataFrame
  by_cases nothing : data = []
  · simp [nothing]
  · simp [nothing, fits_binary]

theorem fits_emitted (dec : Ws.FrameDecoder) (default_ : dec.maxPayload = Ws.defaultMaxPayload)
    (reads : List Read) :
    (∀ frame ∈ emitted dec reads, Fits frame) ↔ Bounded dec.buf reads := by
  induction reads generalizing dec with
  | nil => simp [emitted, Bounded]
  | cons raw later ih =>
    rw [emitted_cons dec default_, Bounded]
    generalize scanned (dec.buf ++ raw.val) = decoded
    by_cases failed : decoded.failed = none
    · have apart : (∀ frame ∈ decoded.items, frame.1 ≠ Ws.opClose) ↔
          ¬ ∃ frame ∈ decoded.items, frame.1 = Ws.opClose := by
        simp only [not_exists, not_and, ne_eq]
      simp only [failed, ne_eq, not_true_eq_false, if_false, List.forall_mem_append, fits_pongs,
        forall_const]
      refine and_congr_right fun _ => ?_
      by_cases closing : ∃ frame ∈ decoded.items, frame.1 = Ws.opClose
      · simp only [if_pos closing, List.not_mem_nil, false_implies, implies_true, true_iff]
        exact fun open_ => absurd closing (apart.mp open_)
      · rw [if_neg closing, List.forall_mem_append, fits_dataFrame,
          ih { dec with buf := decoded.kept } default_]
        exact ⟨fun fits _ => fits, fun fits => fits (apart.mpr closing)⟩
    · simp [failed]

theorem emitted_opcode (dec : Ws.FrameDecoder) (default_ : dec.maxPayload = Ws.defaultMaxPayload)
    (reads : List Read) :
    ∀ frame ∈ emitted dec reads, frame.1 = Ws.opBinary ∨ frame.1 = Ws.opPong := by
  induction reads generalizing dec with
  | nil => simp [emitted]
  | cons raw later ih =>
    rw [emitted_cons dec default_]
    intro frame member
    split_ifs at member with failed closing
    · cases member
    · rw [List.append_nil, pongs_eq, List.mem_map] at member
      obtain ⟨-, -, rfl⟩ := member
      exact .inr rfl
    · simp only [List.mem_append] at member
      rcases member with pong | data | rest
      · rw [pongs_eq, List.mem_map] at pong
        obtain ⟨-, -, rfl⟩ := pong
        exact .inr rfl
      · unfold dataFrame at data
        split_ifs at data
        · cases data
        · rw [List.mem_singleton.mp data]
          exact .inl rfl
      · exact ih { dec with buf := (scanned (dec.buf ++ raw.val)).kept } default_ frame rest

theorem fits_of_decodable (frame : Ws.Frame) (known : frame.1 = Ws.opBinary ∨ frame.1 = Ws.opPong)
    (decodable : Decodable [frame]) : Fits frame := by
  obtain ⟨opcode, payload⟩ := frame
  rcases known with rfl | rfl
  · exact (fits_binary payload).mpr (decodable_bounded _ decodable)
  · exact (fits_pong payload).mpr (decodable_short payload decodable)

theorem relays_iff (reads : List Read) : Relays reads ↔ Bounded [] reads := by
  rw [← fits_emitted {} rfl reads]
  constructor
  · intro relays frame member
    have known := emitted_opcode {} rfl reads frame member
    exact fits_of_decodable frame known
      (relays.1 [frame] (List.singleton_sublist.mpr member))
  · intro fits
    refine ⟨fun frames some_ => ?_, relayed_emitted {} rfl reads⟩
    exact decodable_of_fits frames fun frame member => fits frame (some_.subset member)

-- A masked ping with one byte more than a control frame may have.
def longPing : Read :=
  ⟨[0x89, 0xFE, 0x00, 0x7E, 0x00, 0x00, 0x00, 0x00] ++ List.replicate 126 0x00, by simp⟩

theorem longPing_undecodable :
    ¬ ∀ reads : List Read, (scanned (Read.stream reads)).failed = none → Relays reads := by
  intro relays
  have accepted : (scanned (Read.stream [longPing])).failed = none := by decide +kernel
  have pong : emitted {} [longPing] = [(Ws.opPong, List.replicate 126 0x00)] := by decide +kernel
  have short := decodable_short _ ((relays _ accepted).1 _ (by rw [pong]))
  simp at short

end MidiToIp.Orchestrator
