import Mathlib.Data.List.TakeWhile
import MidiToIp.Orchestrator.Server

set_option autoImplicit false

namespace MidiToIp.Orchestrator

open Octets Framing

abbrev Read := { raw : Bytes // raw ≠ [] }

def Read.stream (reads : List Read) : Bytes := (reads.map Subtype.val).flatten

def Carrier.received : Carrier → List Read → Bytes
  | _, [] => []
  | carrier, raw :: later =>
    match carrier.recv raw.val with
    | .eof => []
    | .raised => []
    | .more carrier => carrier.received later
    | .data carrier data => data ++ carrier.received later

abbrev Decoded := Drained Ws.Frame Ws.WSError UInt8

def scanned (stream : Bytes) : Decoded := (Ws.scanner Ws.defaultMaxPayload).drain stream

def payloadOf (frame : Ws.Frame) : Bytes :=
  if frame.1 = Ws.opBinary ∨ frame.1 = Ws.opCont ∨ frame.1 = Ws.opText then frame.2 else []

def payloads (frames : List Ws.Frame) : Bytes :=
  (frames.takeWhile fun frame => frame.1 ≠ Ws.opClose).flatMap payloadOf

def Decoded.Ends (decoded : Decoded) : Prop :=
  decoded.failed ≠ none ∨ ∃ frame ∈ decoded.items, frame.1 = Ws.opClose

instance (decoded : Decoded) : Decidable decoded.Ends := inferInstanceAs (Decidable (_ ∨ _))

/-- The read that ends the stream completes no data ahead of the end; `kept` is what the reads
before have left in the buffer. -/
def EndsApart (kept : Bytes) : List Read → Prop
  | [] => True
  | raw :: later =>
    if (scanned (kept ++ raw.val)).Ends then payloads (scanned (kept ++ raw.val)).items = []
    else EndsApart (scanned (kept ++ raw.val)).kept later

instance decidableEndsApart : ∀ (kept : Bytes) (reads : List Read), Decidable (EndsApart kept reads)
  | _, [] => .isTrue trivial
  | kept, raw :: later =>
    have := decidableEndsApart (scanned (kept ++ raw.val)).kept later
    inferInstanceAs (Decidable (if (scanned (kept ++ raw.val)).Ends then
      payloads (scanned (kept ++ raw.val)).items = [] else
      EndsApart (scanned (kept ++ raw.val)).kept later))

theorem gather_eq (out : Bytes) (frames : List Ws.Frame) :
    gather out frames =
      if ∃ frame ∈ frames, frame.1 = Ws.opClose then none
      else some (out ++ frames.flatMap payloadOf) := by
  induction frames generalizing out with
  | nil => simp [gather]
  | cons frame rest ih =>
    obtain ⟨opcode, payload⟩ := frame
    have data_ne : opcode = Ws.opBinary ∨ opcode = Ws.opCont ∨ opcode = Ws.opText →
        opcode ≠ Ws.opClose := by
      simp only [Ws.opBinary, Ws.opCont, Ws.opText, Ws.opClose]
      omega
    unfold gather
    by_cases data : opcode = Ws.opBinary ∨ opcode = Ws.opCont ∨ opcode = Ws.opText
    · rw [if_pos data, ih]
      simp only [List.exists_mem_cons_iff, data_ne data, false_or, List.flatMap_cons, payloadOf,
        if_pos data, List.append_assoc]
    · rw [if_neg data]
      by_cases closing : opcode = Ws.opClose
      · simp [closing]
      · rw [if_neg closing, ih]
        simp only [List.exists_mem_cons_iff, closing, false_or, List.flatMap_cons, payloadOf,
          if_neg data, List.nil_append]

theorem payloads_open (frames : List Ws.Frame) (stays : ¬ ∃ frame ∈ frames, frame.1 = Ws.opClose) :
    payloads frames = frames.flatMap payloadOf := by
  have all : ∀ frame ∈ frames, decide (frame.1 ≠ Ws.opClose) = true := by
    intro frame member
    exact decide_eq_true fun close => stays ⟨frame, member, close⟩
  rw [payloads, List.takeWhile_eq_self_iff.mpr all]

theorem payloads_append (frames later : List Ws.Frame) :
    payloads (frames ++ later) =
      if ∃ frame ∈ frames, frame.1 = Ws.opClose then payloads frames
      else payloads frames ++ payloads later := by
  induction frames with
  | nil => simp [payloads]
  | cons frame rest ih =>
    by_cases closing : frame.1 = Ws.opClose
    · simp [payloads, closing]
    · have cons (others : List Ws.Frame) :
          payloads (frame :: others) = payloadOf frame ++ payloads others := by
        simp [payloads, closing]
      simp only [List.cons_append, cons, ih, List.exists_mem_cons_iff, closing, false_or]
      split <;> simp

theorem received_cons (dec : Ws.FrameDecoder) (default_ : dec.maxPayload = Ws.defaultMaxPayload)
    (raw : Read) (later : List Read) :
    (Carrier.ws dec).received (raw :: later) =
      if (scanned (dec.buf ++ raw.val)).Ends then []
      else payloads (scanned (dec.buf ++ raw.val)).items ++
        (Carrier.ws { dec with buf := (scanned (dec.buf ++ raw.val)).kept }).received later := by
  simp only [Carrier.received, Carrier.recv, Ws.FrameDecoder.feed, if_neg raw.property, default_]
  change _ = if (scanned _).Ends then _ else _
  generalize found : scanned (dec.buf ++ raw.val) = decoded
  unfold scanned at found
  simp only [found]
  cases failed : decoded.failed with
  | some error => simp [Decoded.Ends, failed]
  | none =>
    simp only [gather_eq, List.nil_append, Decoded.Ends, failed, ne_eq, not_true_eq_false, false_or]
    by_cases closing : ∃ frame ∈ decoded.items, frame.1 = Ws.opClose
    · simp only [if_pos closing]
    · simp only [if_neg closing, payloads_open _ closing]
      cases data : decoded.items.flatMap payloadOf <;> simp

theorem scanned_append (first later : Bytes) :
    payloads (scanned (first ++ later)).items =
      if (scanned first).Ends then payloads (scanned first).items
      else payloads (scanned first).items ++ payloads (scanned ((scanned first).kept ++ later)).items := by
  have whole := (Ws.scanner Ws.defaultMaxPayload).drain_append first later
  unfold scanned
  rw [whole]
  cases failed : ((Ws.scanner Ws.defaultMaxPayload).drain first).failed with
  | some error => simp [Decoded.Ends, failed]
  | none =>
    simp only [payloads_append, Decoded.Ends, failed, ne_eq, not_true_eq_false, false_or]

theorem scan_kept_scanned (stream : Bytes) (goesOn : ¬ (scanned stream).Ends) :
    (Ws.scanner Ws.defaultMaxPayload).scan (scanned stream).kept = .more := by
  apply (Ws.scanner Ws.defaultMaxPayload).scan_kept
  by_contra failed
  exact goesOn (.inl failed)

theorem received_iff (dec : Ws.FrameDecoder) (default_ : dec.maxPayload = Ws.defaultMaxPayload)
    (settled : (Ws.scanner Ws.defaultMaxPayload).scan dec.buf = .more) (reads : List Read) :
    (Carrier.ws dec).received reads = payloads (scanned (dec.buf ++ Read.stream reads)).items ↔
      EndsApart dec.buf reads := by
  induction reads generalizing dec with
  | nil =>
    have nothing := (Ws.scanner Ws.defaultMaxPayload).drain_more _ settled
    simp [Carrier.received, Read.stream, EndsApart, scanned, nothing, payloads]
  | cons raw later ih =>
    have stream : dec.buf ++ Read.stream (raw :: later) =
        (dec.buf ++ raw.val) ++ Read.stream later := by
      simp [Read.stream]
    rw [received_cons dec default_, stream, scanned_append (dec.buf ++ raw.val), EndsApart]
    by_cases ends : (scanned (dec.buf ++ raw.val)).Ends
    · simp only [if_pos ends]
      exact eq_comm
    · simp only [if_neg ends, List.append_cancel_left_eq]
      exact ih { dec with buf := (scanned (dec.buf ++ raw.val)).kept } default_ (scan_kept_scanned _ ends)

theorem recv_anyCut (reads : List Read) :
    (Carrier.ws {}).received reads = payloads (scanned (Read.stream reads)).items ↔
      EndsApart [] reads :=
  received_iff {} rfl rfl reads

-- A data frame and a close frame, in two reads and in one.
theorem closeInSameRead_lost :
    ¬ ((∀ first second : List Read, Read.stream first = Read.stream second →
        (Carrier.ws {}).received first = (Carrier.ws {}).received second) ∨
      ∀ reads : List Read,
        (Carrier.ws {}).received reads = payloads (scanned (Read.stream reads)).items) := by
  have lost : (Carrier.ws {}).received [⟨[0x82, 0x01, 0x90, 0x88, 0x00], by decide⟩] = [] := by
    decide +kernel
  have kept : (Carrier.ws {}).received
      [⟨[0x82, 0x01, 0x90], by decide⟩, ⟨[0x88, 0x00], by decide⟩] = [0x90] := by
    decide +kernel
  rintro (same | exact_)
  · have equal := same [⟨[0x82, 0x01, 0x90, 0x88, 0x00], by decide⟩]
      [⟨[0x82, 0x01, 0x90], by decide⟩, ⟨[0x88, 0x00], by decide⟩] rfl
    rw [lost, kept] at equal
    simp at equal
  · have carried : payloads (scanned (Read.stream
        [⟨[0x82, 0x01, 0x90, 0x88, 0x00], by decide⟩])).items = [0x90] := by decide +kernel
    have equal := exact_ [⟨[0x82, 0x01, 0x90, 0x88, 0x00], by decide⟩]
    rw [lost, carried] at equal
    simp at equal

end MidiToIp.Orchestrator
