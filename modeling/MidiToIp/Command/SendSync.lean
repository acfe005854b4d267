import Mathlib.Data.List.Basic
import MidiToIp.Command.Protocol

set_option autoImplicit false

namespace MidiToIp.Command

open Machines

def cmdMagicNumber : UInt16 := 0xABCD
def romcmdStartAddr : UInt32 := 0xFB0000
def cmdRetriesCount : Nat := 3

structure Registers where
  d0 : UInt16
  d1 : UInt16
  d2 : UInt32
  d3 : UInt32
  d4 : UInt32
  d5 : UInt32
  d6 : UInt32
  deriving DecidableEq, Repr

def lowWord (register : UInt32) : UInt16 := register.toUInt16

def highWord (register : UInt32) : UInt16 := (register >>> 16).toUInt16

def Registers.words (r : Registers) : List UInt16 :=
  [lowWord r.d2, highWord r.d2, lowWord r.d3, highWord r.d3, lowWord r.d4, highWord r.d4,
    lowWord r.d5, highWord r.d5, lowWord r.d6, highWord r.d6]

def sendPayload (d1 : UInt16) : UInt16 → List UInt16 → List UInt16
  | _, [] => []
  | sent, word :: rest => word :: if d1 = sent + 2 then [] else sendPayload d1 (sent + 2) rest

def Registers.sentWords (r : Registers) : List UInt16 :=
  if r.d1 + 4 = 0 then [] else sendPayload (r.d1 + 4) 0 r.words

def sendSyncCommandToSidecart (r : Registers) : List UInt16 :=
  [cmdMagicNumber, r.d0, r.d1 + 4] ++ r.sentWords ++
    [r.sentWords.foldl (· + ·) (0 + r.d0 + (r.d1 + 4))]

-- The address of `tst.b (a0, dN.w)`: the index is sign-extended.
def tstAddress (word : UInt16) : UInt32 :=
  romcmdStartAddr + 0x8000 + if word < 0x8000 then word.toUInt32 else 0xFFFF0000 + word.toUInt32

def captured (address : UInt32) : UInt16 := address.toUInt16

def commRingWords : Nat := 0x4000

/-- The words of the capture ring that are still unread, with one more: when the write index meets
the read index, all of them are lost. -/
def capture {Word : Type} (x : Word) (ring : List Word) : List Word :=
  if ring.length + 1 = commRingWords then [] else ring ++ [x]

def addrLsb (sample : UInt16) : UInt16 := sample ^^^ 0x8000

theorem xor_highBit (low : Nat) (small : low < 2 ^ 15) : low ^^^ 2 ^ 15 = low + 2 ^ 15 := by
  apply Nat.eq_of_testBit_eq
  intro i
  rw [Nat.testBit_xor, Nat.testBit_two_pow, Nat.add_comm]
  rcases Nat.lt_trichotomy i 15 with below | rfl | above
  · have other : ¬ 15 = i := by omega
    simp [Nat.testBit_two_pow_add_gt below, other]
  · rw [Nat.testBit_two_pow_add_eq]
    simp
  · have wide : 2 ^ 15 + low < 2 ^ i := calc
      2 ^ 15 + low < 2 ^ 16 := by omega
      _ ≤ 2 ^ i := Nat.pow_le_pow_right (by omega) above
    have narrow : low < 2 ^ i := by omega
    have other : ¬ 15 = i := by omega
    rw [Nat.testBit_lt_two_pow wide, Nat.testBit_lt_two_pow narrow]
    simp [other]

theorem addrLsb_captured (word : UInt16) : addrLsb (captured (tstAddress word)) = word := by
  have biased : captured (tstAddress word) = word + 0x8000 := by
    apply UInt16.toNat_inj.mp
    unfold captured tstAddress romcmdStartAddr
    split <;> simp <;> omega
  rw [biased]
  apply UInt16.toNat_inj.mp
  have bound := word.toNat_lt
  rw [addrLsb, UInt16.toNat_xor, UInt16.toNat_add, show (0x8000 : UInt16).toNat = 2 ^ 15 from rfl]
  by_cases small : word.toNat < 2 ^ 15
  · rw [Nat.mod_eq_of_lt (by omega), ← xor_highBit _ small, Nat.xor_assoc, Nat.xor_self,
      Nat.xor_zero]
  · have wrapped : (word.toNat + 2 ^ 15) % 2 ^ 16 = word.toNat - 2 ^ 15 := by omega
    rw [wrapped, xor_highBit _ (by omega)]
    omega

def Parser.parseAll (p : Parser) : List Sample → Option (Parser × List Report)
  | [] => some (p, [])
  | sample :: rest =>
    (p.tprotocolParse sample.timer sample.data).bind fun (after, report) =>
      (after.parseAll rest).map fun (final, later) => (final, report.toList ++ later)

namespace Parser

def InTime (header : UInt32) (sample : Sample) : Prop :=
  sample.timer - header ≤ protocolReadRestartMicroseconds

theorem InTime.step {header : UInt32} {sample : Sample} (inTime : InTime header sample) {p : Parser}
    (last : p.lastHeaderFound = header) : p.step sample.timer = p.nextTPstep := by
  unfold Parser.step
  rw [last, if_neg (UInt32.not_lt.mpr inTime)]

theorem storeWord_read (p : Parser) (stored : Nat) (data : UInt16)
    (read : p.transmission.bytesRead.toNat = 2 * stored) (room : stored < payloadElements) :
    (p.storeWord data).transmission.bytesRead.toNat = 2 * (stored + 1) ∧
      (List.range (stored + 1)).map (p.storeWord data).transmission.payload =
        (List.range stored).map p.transmission.payload ++ [data] := by
  have slot : p.transmission.bytesRead.toNat / 2 = stored := by omega
  constructor
  · simp only [payloadElements] at room
    simp only [storeWord, UInt16.toNat_add, read, UInt16.reduceToNat]
    omega
  · rw [List.range_succ, List.map_append]
    congr 1
    · apply List.map_congr_left
      intro i member
      have other : i ≠ stored := by
        have below := List.mem_range.mp member
        omega
      simp [storeWord, slot, other]
    · simp [storeWord, slot]

end Parser

structure ProtocolFrame where
  id : UInt16
  size : UInt16
  words : List UInt16
  check : UInt16
  announced : size.toNat = 2 * words.length
  some_ : 0 < words.length
  room : words.length ≤ payloadElements

namespace ProtocolFrame

variable (frame : ProtocolFrame)

def data : List UInt16 := [protocolHeader, frame.id, frame.size] ++ frame.words ++ [frame.check]

def sum : UInt16 := frame.words.foldl (· + ·) (frame.id + frame.size)

theorem data_length : frame.data.length = frame.words.length + 4 := by simp [data]

theorem size_ne : frame.size ≠ 0 := by
  intro zero
  have announced := frame.announced
  have some_ := frame.some_
  rw [zero] at announced
  have none_ : 2 * frame.words.length = 0 := announced.symm
  omega

end ProtocolFrame

structure TransmissionProtocol.Carries (t : TransmissionProtocol) (frame : ProtocolFrame) : Prop where
  commandId : t.commandId = frame.id
  payloadSize : t.payloadSize = frame.size
  words : t.words = frame.words

namespace Parser

variable (p : Parser) (timer : UInt32) (frame : ProtocolFrame)

-- The parser has read the words before an index of the frame.
def Reads (frame : ProtocolFrame) (p : Parser) : Nat → Prop
  | 0 => p.nextTPstep = .headerDetection
  | 1 => p.nextTPstep = .commandRead
  | 2 => p.nextTPstep = .payloadSizeRead ∧ p.transmission.commandId = frame.id
  | stored + 3 =>
    p.transmission.commandId = frame.id ∧ p.transmission.payloadSize = frame.size ∧
      p.transmission.bytesRead.toNat = 2 * stored ∧
      (List.range stored).map p.transmission.payload = frame.words.take stored ∧
      p.nextTPstep =
        if stored < frame.words.length then .payloadReadInprogress else .payloadReadEnd

theorem parse_skips (word : UInt16) (here : p.step timer = .headerDetection)
    (other : word ≠ protocolHeader) :
    ∃ q, p.tprotocolParse timer word = some (q, none) ∧ q.nextTPstep = .headerDetection := by
  refine ⟨p.detectHeader timer word, ?_, if_neg other⟩
  simp only [tprotocolParse, here]

theorem parse_header (here : p.step timer = .headerDetection) :
    ∃ q, p.tprotocolParse timer (frame.data.getD 0 0) = some (q, none) ∧ q.Reads frame 1 ∧
      q.lastHeaderFound = timer := by
  refine ⟨p.detectHeader timer protocolHeader, ?_, rfl, rfl⟩
  simp only [tprotocolParse, here]
  rfl

theorem parse_within (index : Nat) (reads : p.Reads frame (index + 1))
    (inTime : p.step timer = p.nextTPstep) (within : index + 2 < frame.data.length) :
    ∃ q, p.tprotocolParse timer (frame.data.getD (index + 1) 0) = some (q, none) ∧
      q.Reads frame (index + 2) ∧ q.lastHeaderFound = p.lastHeaderFound := by
  rw [frame.data_length] at within
  match index, reads with
  | 0, reads =>
    refine ⟨p.readCommand frame.id, ?_, ⟨rfl, rfl⟩, rfl⟩
    have here : p.step timer = .commandRead := inTime.trans reads
    simp only [tprotocolParse, here]
    rfl
  | 1, ⟨reads, id⟩ =>
    have here : p.step timer = .payloadSizeRead := inTime.trans reads
    refine ⟨p.readSize frame.size, ?_, ⟨id, rfl, rfl, rfl, ?_⟩, rfl⟩
    · simp only [tprotocolParse, here]
      rfl
    · simp [readSize, startPayload, frame.size_ne, frame.some_]
  | stored + 2, ⟨id, size, read, payload, step⟩ =>
    have inside : stored < frame.words.length := by omega
    rw [if_pos inside] at step
    have here : p.step timer = .payloadReadInprogress := inTime.trans step
    have room := frame.room
    have slot : p.transmission.bytesRead.toNat / 2 < payloadElements := by omega
    have word : frame.data.getD (stored + 3) 0 = frame.words[stored] := by
      simp [ProtocolFrame.data, List.getElem?_append_left inside, inside]
    obtain ⟨nextRead, nextWords⟩ := storeWord_read p stored frame.words[stored] read (by omega)
    refine ⟨p.storeWord frame.words[stored], ?_, ⟨id, size, nextRead, ?_, ?_⟩, rfl⟩
    · rw [word]
      simp only [tprotocolParse, here, slot, if_true]
    · rw [nextWords, payload, List.take_succ_eq_append_getElem inside]
    · have count : (p.transmission.bytesRead + 2).toNat = 2 * (stored + 1) := nextRead
      have full : p.transmission.bytesRead + 2 ≥ p.transmission.payloadSize ↔
          ¬ stored + 1 < frame.words.length := by
        rw [ge_iff_le, UInt16.le_iff_toNat_le, count, size, frame.announced]
        omega
      simp only [storeWord, full]
      split_ifs <;> rfl

theorem parse_last (index : Nat) (reads : p.Reads frame (index + 1))
    (inTime : p.step timer = p.nextTPstep) (last : index + 2 = frame.data.length) :
    ∃ q t, t.Carries frame ∧ q.nextTPstep = .headerDetection ∧
      p.tprotocolParse timer (frame.data.getD (index + 1) 0) =
        some (q, some (if frame.check = frame.sum then .command t else .checksumError t)) := by
  rw [frame.data_length] at last
  have some_ := frame.some_
  obtain ⟨stored, rfl⟩ : ∃ stored, index = stored + 2 := ⟨index - 2, by omega⟩
  obtain ⟨id, size, read, payload, step⟩ := reads
  obtain rfl : stored = frame.words.length := by omega
  rw [if_neg (Nat.lt_irrefl _)] at step
  have here : p.step timer = .payloadReadEnd := inTime.trans step
  have half : p.transmission.payloadSize.toNat / 2 = frame.words.length := by
    rw [size, frame.announced]
    omega
  have fits : p.transmission.payloadSize.toNat / 2 ≤ payloadElements := half ▸ frame.room
  have words : p.transmission.words = frame.words := by
    rw [TransmissionProtocol.words, half, payload, List.take_length]
  have sum : p.transmission.checksum = frame.sum := by
    rw [TransmissionProtocol.checksum, words, id, size]
    rfl
  have word : frame.data.getD (frame.words.length + 3) 0 = frame.check := by
    simp [ProtocolFrame.data]
  refine ⟨(p.endFrame frame.check).1, { p.transmission with finalChecksum := p.transmission.checksum },
    ⟨id, size, words⟩, rfl, ?_⟩
  rw [word]
  simp only [tprotocolParse, here, fits, if_true, endFrame, sum]

theorem parseAll_rest (header : UInt32) (index : Nat) (samples : List Sample)
    (reads : p.Reads frame (index + 1)) (last : p.lastHeaderFound = header)
    (inTime : ∀ sample ∈ samples, InTime header sample)
    (data : samples.map Sample.data = frame.data.drop (index + 1))
    (inside : index + 1 < frame.data.length) :
    ∃ q t, t.Carries frame ∧ p.parseAll samples =
      some (q, [if frame.check = frame.sum then .command t else .checksumError t]) := by
  induction samples generalizing p index with
  | nil =>
    have length := congrArg List.length data
    simp only [List.map_nil, List.length_nil, List.length_drop] at length
    omega
  | cons sample rest ih =>
    rw [List.drop_eq_getElem_cons inside, List.map_cons, List.cons.injEq] at data
    obtain ⟨first, later⟩ := data
    have word : frame.data.getD (index + 1) 0 = sample.data := by simp [inside, first]
    have step : p.step sample.timer = p.nextTPstep := (inTime sample (by simp)).step last
    by_cases final : index + 2 = frame.data.length
    · obtain ⟨q, t, carries, -, parsed⟩ := p.parse_last sample.timer frame index reads step final
      obtain rfl : rest = [] := by
        rw [final, List.drop_length] at later
        exact List.map_eq_nil_iff.mp later
      refine ⟨q, t, carries, ?_⟩
      rw [word] at parsed
      simp [parseAll, parsed]
    · obtain ⟨middle, parsed, further, same⟩ :=
        p.parse_within sample.timer frame index reads step (by omega)
      obtain ⟨q, t, carries, reported⟩ := ih middle (index + 1) further (same.trans last)
        (fun other member => inTime other (List.mem_cons_of_mem _ member)) later (by omega)
      refine ⟨q, t, carries, ?_⟩
      rw [word] at parsed
      simp [parseAll, parsed, reported]

theorem parseAll_frame (header : UInt32) (samples : List Sample)
    (data : samples.map Sample.data = frame.data)
    (first : ∀ sample ∈ samples.head?, sample.timer = header ∧ p.step sample.timer = .headerDetection)
    (inTime : ∀ sample ∈ samples, InTime header sample) :
    ∃ q t, t.Carries frame ∧ p.parseAll samples =
      some (q, [if frame.check = frame.sum then .command t else .checksumError t]) := by
  cases samples with
  | nil => simp [ProtocolFrame.data] at data
  | cons sample rest =>
    obtain ⟨start, detects⟩ := first sample rfl
    obtain ⟨middle, parsed, reads, last⟩ := p.parse_header sample.timer frame detects
    obtain ⟨word, later⟩ := List.cons.inj data
    obtain ⟨q, t, carries, reported⟩ := middle.parseAll_rest frame header 0 rest reads
      (last.trans start) (fun other member => inTime other (List.mem_cons_of_mem _ member)) later
      (by rw [frame.data_length]; omega)
    refine ⟨q, t, carries, ?_⟩
    have header_ : frame.data.getD 0 0 = sample.data := word.symm
    rw [header_] at parsed
    simp [parseAll, parsed, reported]

theorem parse_recent (p : Parser) (sample : Sample) (after : Parser)
    (parsed : parser.next p sample = some after) (within : after.nextTPstep ≠ .headerDetection) :
    sample.timer - after.lastHeaderFound ≤ protocolReadRestartMicroseconds := by
  obtain ⟨⟨_, report⟩, found, rfl⟩ := Option.map_eq_some_iff.mp parsed
  have recent (here : p.step sample.timer ≠ .headerDetection) :
      sample.timer - p.lastHeaderFound ≤ protocolReadRestartMicroseconds := by
    by_contra late
    exact here (if_pos (UInt32.not_le.mp late))
  unfold tprotocolParse at found
  cases here : p.step sample.timer with
  | headerDetection =>
    simp only [here, Option.some.injEq, Prod.mk.injEq] at found
    obtain ⟨rfl, -⟩ := found
    simp [detectHeader, protocolReadRestartMicroseconds]
  | commandRead =>
    simp only [here, Option.some.injEq, Prod.mk.injEq] at found
    obtain ⟨rfl, -⟩ := found
    exact recent (by simp [here])
  | payloadSizeRead =>
    simp only [here, Option.some.injEq, Prod.mk.injEq] at found
    obtain ⟨rfl, -⟩ := found
    exact recent (by simp [here])
  | payloadReadStart =>
    simp only [here, Option.some.injEq, Prod.mk.injEq] at found
    obtain ⟨rfl, -⟩ := found
    exact recent (by simp [here])
  | payloadReadInprogress =>
    simp only [here, Option.ite_none_right_eq_some, Option.some.injEq, Prod.mk.injEq] at found
    obtain ⟨-, rfl, -⟩ := found
    exact recent (by simp [here])
  | payloadReadEnd =>
    simp only [here, Option.ite_none_right_eq_some, Option.some.injEq, Prod.mk.injEq] at found
    obtain ⟨-, rfl, -⟩ := found
    exact absurd rfl within

end Parser

-- A call of `send_sync`: the payload size is even and at most sixteen.
structure SyncCommand extends Registers where
  even : d1 % 2 = 0
  bounded : d1 ≤ 16

theorem SyncCommand.sentWords_eq (command : SyncCommand) :
    command.sentWords = command.words.take (command.d1.toNat / 2 + 2) := by
  obtain ⟨⟨d0, d1, d2, d3, d4, d5, d6⟩, even, bounded⟩ := command
  have sizes : d1 = 0 ∨ d1 = 2 ∨ d1 = 4 ∨ d1 = 6 ∨ d1 = 8 ∨ d1 = 10 ∨ d1 = 12 ∨ d1 = 14 ∨ d1 = 16 := by
    simp only [← UInt16.toNat_inj, UInt16.le_iff_toNat_le, UInt16.toNat_mod, UInt16.reduceToNat] at *
    omega
  rcases sizes with rfl | rfl | rfl | rfl | rfl | rfl | rfl | rfl | rfl <;>
    simp [Registers.sentWords, Registers.words, sendPayload]

theorem SyncCommand.size (command : SyncCommand) :
    (command.d1 + 4).toNat = 2 * command.sentWords.length ∧ 2 ≤ command.sentWords.length ∧
      command.sentWords.length ≤ 10 := by
  have even := command.even
  have bounded := command.bounded
  simp only [← UInt16.toNat_inj, UInt16.le_iff_toNat_le, UInt16.toNat_mod, UInt16.reduceToNat] at even bounded
  have count : command.words.length = 10 := rfl
  rw [command.sentWords_eq, List.length_take, count, UInt16.toNat_add, show (4 : UInt16).toNat = 4 from rfl]
  omega

theorem SyncCommand.sentWords_announced (command : SyncCommand) :
    (command.d1 + 4).toNat = 2 * command.sentWords.length := by
  rw [command.size.1]

theorem SyncCommand.sentWords_some (command : SyncCommand) : 0 < command.sentWords.length := by
  have some_ := command.size.2.1
  omega

theorem SyncCommand.sentWords_room (command : SyncCommand) :
    command.sentWords.length ≤ payloadElements := by
  have few := command.size.2.2
  simp only [payloadElements]
  omega

def SyncCommand.carrying (command : SyncCommand) (words : List UInt16)
    (same : words.length = command.sentWords.length) : ProtocolFrame where
  id := command.d0
  size := command.d1 + 4
  words := words
  check := command.sentWords.foldl (· + ·) (0 + command.d0 + (command.d1 + 4))
  announced := by rw [same, command.sentWords_announced]
  some_ := same ▸ command.sentWords_some
  room := same ▸ command.sentWords_room

def SyncCommand.frame (command : SyncCommand) : ProtocolFrame := command.carrying command.sentWords rfl

theorem SyncCommand.frame_data (command : SyncCommand) :
    command.frame.data = sendSyncCommandToSidecart command.toRegisters := rfl

theorem SyncCommand.frame_check (command : SyncCommand) : command.frame.check = command.frame.sum := by
  change command.sentWords.foldl (· + ·) (0 + command.d0 + (command.d1 + 4)) = _
  rw [UInt16.zero_add]
  rfl

structure Timely (before frame : List Sample) : Prop where
  gap : ∀ last ∈ before.getLast?, ∀ first ∈ frame.head?,
    10000 < (first.timer - last.timer).toNat ∧ (first.timer - last.timer).toNat < 2 ^ 32 - 20000
  within : ∀ first ∈ frame.head?, ∀ sample ∈ frame, (sample.timer - first.timer).toNat ≤ 10000

theorem Timely.resync {before frame : List Sample} {p : Parser} (timely : Timely before frame)
    (run : parser.Run Machine.anyStep {} before p) :
    ∀ first ∈ frame.head?, p.step first.timer = .headerDetection := by
  intro first member
  cases run with
  | nil =>
    unfold Parser.step
    split <;> rfl
  | snoc last earlier _ step =>
    obtain ⟨late, early⟩ := timely.gap last (by simp) first member
    by_contra here
    rcases Parser.step_or first.timer p with restarts | goesOn
    · exact here restarts
    · -- In a frame the header is at most 10 ms older than the sample before.
      have recent := Parser.parse_recent _ last p step (by rw [← goesOn]; exact here)
      refine here (if_pos ?_)
      have bounds := And.intro first.timer.toNat_lt last.timer.toNat_lt
      simp only [protocolReadRestartMicroseconds, UInt32.le_iff_toNat_le, UInt32.lt_iff_toNat_lt,
        gt_iff_lt, UInt32.toNat_sub, UInt32.reduceToNat] at *
      omega

theorem foldl_add (base offset : UInt16) (words : List UInt16) :
    words.foldl (· + ·) (base + offset) = words.foldl (· + ·) base + offset := by
  induction words generalizing base with
  | nil => rfl
  | cons word rest ih =>
    simp only [List.foldl_cons, ← ih]
    congr 1
    grind

theorem foldl_set (base word : UInt16) (words : List UInt16) (i : Nat) (inside : i < words.length) :
    (words.set i word).foldl (· + ·) base + words[i] = words.foldl (· + ·) base + word := by
  induction words generalizing base i with
  | nil => simp at inside
  | cons first rest ih =>
    cases i with
    | zero =>
      simp only [List.set_cons_zero, List.foldl_cons, List.getElem_cons_zero, foldl_add]
      grind
    | succ i => simpa using ih (base + first) i (by simpa using inside)

theorem Timely.reported {before samples : List Sample} {p : Parser} (timely : Timely before samples)
    (run : parser.Run Machine.anyStep {} before p) (frame : ProtocolFrame)
    (data : samples.map Sample.data = frame.data) :
    ∃ q t, t.Carries frame ∧ p.parseAll samples =
      some (q, [if frame.check = frame.sum then .command t else .checksumError t]) := by
  have resync := timely.resync run
  cases samples with
  | nil => simp [ProtocolFrame.data] at data
  | cons first rest =>
    refine p.parseAll_frame frame first.timer (first :: rest) data (fun sample member => ?_)
      fun sample member => UInt32.le_iff_toNat_le.mpr (timely.within first rfl sample member)
    obtain rfl := Option.some.inj member
    exact ⟨rfl, resync first rfl⟩

theorem sendSync_roundTrip (before : List Sample) (p : Parser)
    (run : parser.Run Machine.anyStep {} before p) (command : SyncCommand) (frame : List Sample)
    (timely : Timely before frame) :
    (frame.map Sample.data = (sendSyncCommandToSidecart command.toRegisters).map
        (fun word => addrLsb (captured (tstAddress word))) →
      ∃ q t, p.parseAll frame = some (q, [.command t]) ∧ t.commandId = command.d0 ∧
        t.payloadSize = command.d1 + 4 ∧ t.words = command.words.take (command.d1.toNat / 2 + 2)) ∧
      ∀ i word, (inside : i < command.sentWords.length) → word ≠ command.sentWords[i] →
        frame.map Sample.data = ((sendSyncCommandToSidecart command.toRegisters).set (3 + i) word).map
          (fun word => addrLsb (captured (tstAddress word))) →
        ∃ q t, p.parseAll frame = some (q, [.checksumError t]) := by
  have bus (words : List UInt16) :
      words.map (fun word => addrLsb (captured (tstAddress word))) = words := by
    simp only [addrLsb_captured, List.map_id']
  refine ⟨fun data => ?_, fun i word inside altered data => ?_⟩
  · rw [bus] at data
    obtain ⟨q, t, carries, result⟩ := timely.reported run command.frame data
    rw [if_pos command.frame_check] at result
    exact ⟨q, t, result, carries.commandId, carries.payloadSize,
      carries.words.trans command.sentWords_eq⟩
  · rw [bus] at data
    have placed : (sendSyncCommandToSidecart command.toRegisters).set (3 + i) word =
        (command.carrying (command.sentWords.set i word) List.length_set).data := by
      have front : 3 + i = i + 1 + 1 + 1 := by omega
      simp only [sendSyncCommandToSidecart, front, List.cons_append, List.nil_append,
        List.set_cons_succ, List.set_append_left _ _ inside]
      rfl
    obtain ⟨q, t, -, result⟩ := timely.reported run
      (command.carrying (command.sentWords.set i word) List.length_set) (data.trans placed)
    rw [if_neg] at result
    · exact ⟨q, t, result⟩
    · -- The checksum is the one of the words as they were.
      change command.frame.check ≠
        (command.sentWords.set i word).foldl (· + ·) (command.d0 + (command.d1 + 4))
      intro equal
      have sums := foldl_set (command.d0 + (command.d1 + 4)) word command.sentWords i inside
      have whole : command.sentWords.foldl (· + ·) (command.d0 + (command.d1 + 4)) =
          command.frame.check := command.frame_check.symm
      rw [← equal, whole] at sums
      exact altered (by grind)

-- A frame with two words of payload behind a frame cut off after its command; its second payload
-- word is the header's value.
theorem sendSync_roundTrip_cutOff :
    ∃ p, parser.Run Machine.anyStep {} [⟨50000, 0xABCD⟩, ⟨50001, 7⟩] p ∧
      ∃ q t, p.parseAll [⟨70000, 0xABCD⟩, ⟨70001, 0x0203⟩, ⟨70002, 6⟩, ⟨70003, 1⟩, ⟨70004, 0xABCD⟩,
          ⟨70005, 9⟩, ⟨70006, 0xADE0⟩] = some (q, [.command t]) ∧
        t.commandId = 0x0203 ∧ t.payloadSize = 6 ∧ t.words = [1, 0xABCD, 9] := by
  obtain ⟨p, executed⟩ : ∃ p, parser.exec Machine.anyStep {} [⟨50000, 0xABCD⟩, ⟨50001, 7⟩] = some p :=
    ⟨_, rfl⟩
  have run := Machine.run_of_exec executed
  have timely : Timely [⟨50000, 0xABCD⟩, ⟨50001, 7⟩] [⟨70000, 0xABCD⟩, ⟨70001, 0x0203⟩, ⟨70002, 6⟩,
      ⟨70003, 1⟩, ⟨70004, 0xABCD⟩, ⟨70005, 9⟩, ⟨70006, 0xADE0⟩] :=
    ⟨by decide, by decide⟩
  obtain ⟨q, t, result, id, size, words⟩ := (sendSync_roundTrip _ p run
    ⟨⟨0x0203, 2, 0xABCD0001, 9, 0, 0, 0⟩, by decide, by decide⟩ _ timely).1 (by decide +kernel)
  exact ⟨p, run, q, t, result, id, size.trans (by decide), words.trans (by decide)⟩

end MidiToIp.Command
