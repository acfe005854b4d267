import Mathlib.Data.List.Basic
import Mathlib.Data.Nat.Bitwise
import Mathlib.Logic.Function.Basic
import MidiToIp.Shared.Machine

set_option autoImplicit false

namespace MidiToIp.Command

open Machines

def protocolHeader : UInt16 := 0xABCD
def protocolReadRestartMicroseconds : UInt32 := 10000

/-- `MAX_PROTOCOL_PAYLOAD_SIZE / 2`, as the macro without parentheses expands. -/
def payloadElements : Nat := 2048 + 64 / 2

inductive TPParseStep where
  | headerDetection
  | commandRead
  | payloadSizeRead
  | payloadReadStart
  | payloadReadInprogress
  | payloadReadEnd
  deriving DecidableEq, Repr

structure TransmissionProtocol where
  commandId : UInt16 := 0
  payloadSize : UInt16 := 0
  bytesRead : UInt16 := 0
  finalChecksum : UInt16 := 0
  payload : Nat → UInt16 := fun _ => 0

structure Parser where
  lastHeaderFound : UInt32 := 0
  nextTPstep : TPParseStep := .headerDetection
  transmission : TransmissionProtocol := {}

inductive Report where
  | command (protocol : TransmissionProtocol)
  | checksumError (protocol : TransmissionProtocol)

def TransmissionProtocol.words (protocol : TransmissionProtocol) : List UInt16 :=
  (List.range (protocol.payloadSize.toNat / 2)).map protocol.payload

def TransmissionProtocol.checksum (protocol : TransmissionProtocol) : UInt16 :=
  protocol.words.foldl (· + ·) (protocol.commandId + protocol.payloadSize)

namespace Parser

-- The step that a sample at `timer` meets: one that comes too late after the header restarts.
def step (timer : UInt32) (p : Parser) : TPParseStep :=
  if timer - p.lastHeaderFound > protocolReadRestartMicroseconds then .headerDetection
  else p.nextTPstep

def detectHeader (timer : UInt32) (data : UInt16) (p : Parser) : Parser :=
  { p with
    lastHeaderFound := timer
    nextTPstep := if data = protocolHeader then .commandRead else .headerDetection }

def readCommand (data : UInt16) (p : Parser) : Parser :=
  { p with
    transmission := { p.transmission with commandId := data }
    nextTPstep := .payloadSizeRead }

-- `PAYLOAD_READ_START`, which the case before it falls into.
def startPayload (data : UInt16) (p : Parser) : Parser :=
  { p with
    transmission := { p.transmission with bytesRead := 0 }
    nextTPstep := if data = 0 then .payloadReadEnd else .payloadReadInprogress }

def readSize (data : UInt16) (p : Parser) : Parser :=
  startPayload data { p with transmission := { p.transmission with payloadSize := data } }

def storeWord (data : UInt16) (p : Parser) : Parser :=
  let t := p.transmission
  { p with
    transmission :=
      { t with
        payload := Function.update t.payload (t.bytesRead.toNat / 2) data
        bytesRead := t.bytesRead + 2 }
    nextTPstep :=
      if t.bytesRead + 2 ≥ t.payloadSize then .payloadReadEnd else .payloadReadInprogress }

def endFrame (data : UInt16) (p : Parser) : Parser × Report :=
  let t := { p.transmission with finalChecksum := p.transmission.checksum }
  ({ lastHeaderFound := 0, nextTPstep := .headerDetection, transmission := t },
    if data = t.finalChecksum then .command t else .checksumError t)

/-- `tprotocol_parse` at the timer value `timer`, and the callback it makes. None is an access
outside the payload. -/
def tprotocolParse (timer : UInt32) (data : UInt16) (p : Parser) :
    Option (Parser × Option Report) :=
  match p.step timer with
  | .headerDetection => some (p.detectHeader timer data, none)
  | .commandRead => some (p.readCommand data, none)
  | .payloadSizeRead => some (p.readSize data, none)
  | .payloadReadStart => some (p.startPayload data, none)
  | .payloadReadInprogress =>
    if p.transmission.bytesRead.toNat / 2 < payloadElements then some (p.storeWord data, none)
    else none
  | .payloadReadEnd =>
    if p.transmission.payloadSize.toNat / 2 ≤ payloadElements then
      some ((p.endFrame data).1, some (p.endFrame data).2)
    else none

end Parser

structure Sample where
  timer : UInt32
  data : UInt16
  deriving DecidableEq, Repr

def parser : Machine Parser Sample where
  next p sample := (p.tprotocolParse sample.timer sample.data).map Prod.fst

namespace Parser

structure Inside (p : Parser) (timer : UInt32) : Prop where
  store : p.step timer = .payloadReadInprogress → p.transmission.bytesRead.toNat / 2 < payloadElements
  loads : p.step timer = .payloadReadEnd →
    ∀ i < p.transmission.payloadSize.toNat / 2, i < payloadElements
  count : p.step timer = .payloadReadInprogress → p.transmission.bytesRead.toNat + 2 < 2 ^ 16

def sizeFits (p : Parser) (sample : Sample) : Prop :=
  p.step sample.timer = .payloadSizeRead → sample.data.toNat ≤ 2 * payloadElements

instance (p : Parser) (sample : Sample) : Decidable (p.sizeFits sample) :=
  inferInstanceAs (Decidable (_ → _))

structure Bounded (p : Parser) : Prop where
  start : p.nextTPstep ≠ .payloadReadStart
  size : p.nextTPstep = .payloadReadInprogress ∨ p.nextTPstep = .payloadReadEnd →
    p.transmission.payloadSize.toNat ≤ 2 * payloadElements
  count : p.nextTPstep = .payloadReadInprogress →
    p.transmission.bytesRead.toNat < p.transmission.payloadSize.toNat

theorem step_or (timer : UInt32) (p : Parser) :
    p.step timer = .headerDetection ∨ p.step timer = p.nextTPstep := by
  unfold step
  split_ifs
  · exact .inl rfl
  · exact .inr rfl

theorem nextTPstep_of_step {timer : UInt32} {p : Parser} {here : TPParseStep}
    (at_ : p.step timer = here) (past : here ≠ .headerDetection) : p.nextTPstep = here := by
  rcases step_or timer p with restarts | goesOn
  · exact absurd (at_.symm.trans restarts) past
  · exact goesOn.symm.trans at_

theorem Bounded.inside {p : Parser} (bounded : p.Bounded) (timer : UInt32) : p.Inside timer where
  store at_ := by
    have next := nextTPstep_of_step at_ (by decide)
    have size := bounded.size (.inl next)
    have count := bounded.count next
    omega
  loads at_ := by
    have size := bounded.size (.inr (nextTPstep_of_step at_ (by decide)))
    omega
  count at_ := by
    have next := nextTPstep_of_step at_ (by decide)
    have size := bounded.size (.inl next)
    have count := bounded.count next
    simp only [payloadElements] at size
    omega

theorem bounded_idle (p : Parser)
    (idle : p.nextTPstep = .headerDetection ∨ p.nextTPstep = .commandRead ∨
      p.nextTPstep = .payloadSizeRead) : p.Bounded := by
  rcases idle with here | here | here <;> constructor <;> simp [here]

theorem parse_bounded (p : Parser) (sample : Sample) (after : Parser) (bounded : p.Bounded)
    (fits : p.sizeFits sample) (parsed : parser.next p sample = some after) : after.Bounded := by
  obtain ⟨⟨_, report⟩, found, rfl⟩ := Option.map_eq_some_iff.mp parsed
  unfold tprotocolParse at found
  cases here : p.step sample.timer with
  | headerDetection =>
    simp only [here, Option.some.injEq, Prod.mk.injEq] at found
    obtain ⟨rfl, -⟩ := found
    apply bounded_idle
    simp only [detectHeader]
    split <;> simp
  | commandRead =>
    simp only [here, Option.some.injEq, Prod.mk.injEq] at found
    obtain ⟨rfl, -⟩ := found
    exact bounded_idle _ (.inr (.inr rfl))
  | payloadSizeRead =>
    simp only [here, Option.some.injEq, Prod.mk.injEq] at found
    obtain ⟨rfl, -⟩ := found
    have size : sample.data.toNat ≤ 2 * payloadElements := fits here
    by_cases zero : sample.data = 0
    · constructor <;> simp [readSize, startPayload, zero]
    · have positive : sample.data.toNat ≠ 0 := fun none_ => zero (UInt16.toNat_inj.mp none_)
      constructor <;> simp [readSize, startPayload, zero] <;> omega
  | payloadReadStart =>
    exact absurd (nextTPstep_of_step here (by decide)) bounded.start
  | payloadReadInprogress =>
    have next := nextTPstep_of_step here (by decide)
    have size := bounded.size (.inl next)
    simp only [here, Option.ite_none_right_eq_some, Option.some.injEq, Prod.mk.injEq] at found
    obtain ⟨-, rfl, -⟩ := found
    by_cases full : p.transmission.bytesRead + 2 ≥ p.transmission.payloadSize
    · constructor <;> simp [storeWord, full, size]
    · have less := UInt16.lt_iff_toNat_lt.mp (UInt16.not_le.mp full)
      constructor <;> simp [storeWord, full, size, less, -UInt16.toNat_add]
  | payloadReadEnd =>
    simp only [here, Option.ite_none_right_eq_some, Option.some.injEq, Prod.mk.injEq] at found
    obtain ⟨-, rfl, -⟩ := found
    exact bounded_idle _ (.inl rfl)

theorem step_last (p : Parser) : p.step p.lastHeaderFound = p.nextTPstep := by
  simp [step, protocolReadRestartMicroseconds]

theorem fill (p : Parser) (reading : p.nextTPstep = .payloadReadInprogress)
    (fresh : p.transmission.bytesRead = 0)
    (large : 2 * payloadElements < p.transmission.payloadSize.toNat) (count : Nat)
    (within : count ≤ payloadElements) :
    ∃ q, parser.Run sizeFits p (List.replicate count ⟨p.lastHeaderFound, 0⟩) q ∧
      q.nextTPstep = .payloadReadInprogress ∧ q.lastHeaderFound = p.lastHeaderFound ∧
      q.transmission.payloadSize = p.transmission.payloadSize ∧
      q.transmission.bytesRead.toNat = 2 * count := by
  induction count with
  | zero => exact ⟨p, .nil, reading, rfl, rfl, by simp [fresh]⟩
  | succ count ih =>
    obtain ⟨q, run, going, last, size, read⟩ := ih (by omega)
    have here : q.step p.lastHeaderFound = .payloadReadInprogress := by
      rw [← last, step_last, going]
    have room : q.transmission.bytesRead.toNat / 2 < payloadElements := by omega
    simp only [payloadElements] at within large
    have next : (q.transmission.bytesRead + 2).toNat = 2 * (count + 1) := by
      rw [UInt16.toNat_add, read]
      simp only [UInt16.reduceToNat]
      omega
    have unfilled : ¬ q.transmission.bytesRead + 2 ≥ q.transmission.payloadSize := by
      rw [ge_iff_le, UInt16.le_iff_toNat_le, next, size]
      omega
    refine ⟨q.storeWord 0, ?_, ?_, last, size, next⟩
    · rw [List.replicate_succ']
      refine .snoc _ run ?_ ?_
      · simp [sizeFits, here]
      · simp [parser, tprotocolParse, here, room]
    · simp [storeWord, unfilled]

end Parser

theorem readSize_overflows (p : Parser) (size : UInt16)
    (large : 2 * payloadElements < size.toNat) :
    ∃ later q, parser.Run Parser.sizeFits (p.readSize size) later q ∧
      ¬ q.Inside p.lastHeaderFound := by
  have nonzero : size ≠ 0 := by
    rintro rfl
    simp at large
  have reading : (p.readSize size).nextTPstep = .payloadReadInprogress := by
    simp [Parser.readSize, Parser.startPayload, nonzero]
  obtain ⟨q, run, going, last, -, read⟩ :=
    Parser.fill (p.readSize size) reading rfl large payloadElements (Nat.le_refl _)
  refine ⟨_, q, run, fun inside => ?_⟩
  have here : q.step p.lastHeaderFound = .payloadReadInprogress := by
    have same : q.lastHeaderFound = p.lastHeaderFound := last
    rw [← same, Parser.step_last, going]
  have store := inside.store here
  omega

theorem parse_staysInside (samples : List Sample) (p : Parser)
    (run : parser.Run Parser.sizeFits {} samples p) :
    (∀ timer, p.Inside timer) ∧
      ∀ sample after, p.step sample.timer = .payloadSizeRead → parser.next p sample = some after →
        ((∀ later q, parser.Run Parser.sizeFits after later q → ∀ timer, q.Inside timer) ↔
          p.sizeFits sample) := by
  have bounded : p.Bounded := by
    refine run.invariant Parser.Bounded ?_ Parser.parse_bounded
    exact Parser.bounded_idle {} (.inl rfl)
  refine ⟨bounded.inside, fun sample after taken parsed => ⟨fun always => ?_, fun fits => ?_⟩⟩
  · by_contra large
    simp only [Parser.sizeFits, taken, forall_const, Nat.not_le] at large
    obtain rfl : p.readSize sample.data = after := by
      simpa [parser, Parser.tprotocolParse, taken] using parsed
    obtain ⟨later, q, laterRun, outside⟩ := readSize_overflows p sample.data large
    exact outside (always later q laterRun _)
  · intro later q laterRun timer
    have here := Parser.parse_bounded p sample after bounded fits parsed
    exact (laterRun.invariant Parser.Bounded here Parser.parse_bounded).inside timer

theorem parse_staysInside_largest :
    ∃ p, parser.exec Parser.sizeFits {} [⟨20000, 0xABCD⟩, ⟨20001, 1⟩, ⟨20002, 4160⟩, ⟨20003, 7⟩] =
        some p ∧
      p.transmission.bytesRead = 2 ∧ ∀ timer, p.Inside timer := by
  have checked : (parser.exec Parser.sizeFits {}
      [⟨20000, 0xABCD⟩, ⟨20001, 1⟩, ⟨20002, 4160⟩, ⟨20003, 7⟩]).any
      (fun p => decide (p.transmission.bytesRead = 2)) = true := by decide +kernel
  obtain ⟨p, executed, read⟩ := (Option.any_eq_true _ _).mp checked
  exact ⟨p, executed, of_decide_eq_true read,
    (parse_staysInside _ p (Machine.run_of_exec executed)).1⟩

-- A header, a command and the size 0xFFFF; payload words follow.
theorem hugeSize_overflows :
    ¬ ∀ (samples : List Sample) (p : Parser), parser.Run Machine.anyStep {} samples p →
      ∀ timer, p.Inside timer := by
  intro always
  obtain ⟨p, atSize⟩ : ∃ p : Parser, p =
      { lastHeaderFound := 20000, nextTPstep := .payloadSizeRead, transmission := { commandId := 1 } } :=
    ⟨_, rfl⟩
  have opened : parser.exec Machine.anyStep {} [⟨20000, 0xABCD⟩, ⟨20001, 1⟩] = some p := by
    rw [atSize]
    rfl
  have reads : parser.next p ⟨20002, 0xFFFF⟩ = some (p.readSize 0xFFFF) := by
    rw [atSize]
    rfl
  obtain ⟨later, q, run, outside⟩ := readSize_overflows p 0xFFFF (by decide)
  have ahead : parser.Run Machine.anyStep {} [⟨20000, 0xABCD⟩, ⟨20001, 1⟩] p :=
    Machine.run_of_exec opened
  have sized : parser.Run Machine.anyStep {} _ (p.readSize 0xFFFF) := ahead.snoc _ trivial reads
  have free : parser.Run Machine.anyStep (p.readSize 0xFFFF) later q :=
    run.strengthen (fun _ => True) trivial (fun _ _ _ _ _ _ => trivial) fun _ _ _ _ => trivial
  exact outside (always _ q (sized.append free) _)

end MidiToIp.Command
