import MidiToIp.Command.Launch
import MidiToIp.Command.SampleRing
import MidiToIp.Midi.Stalled

set_option autoImplicit false

namespace MidiToIp.System

open Octets Machines Midi Command

structure Bus where
  ring : CommRing := {}
  rp : Firmware
  reads : List Captured := []

inductive BusLabel where
  | read (x : Captured)
  | poll
  | step
  | event (event : Event)

def spoken : Captured → Option UInt8
  | .out byte => some byte
  | _ => none

namespace Bus

def capture (x : Captured) (b : Bus) : Bus :=
  { b with ring := b.ring.dmaWrite x.sample, reads := b.reads ++ [x] }

def given (b : Bus) : Bytes := b.reads.filterMap spoken

def due (b : Bus) : Option UInt16 :=
  match b.ring.pc with
  | .looping writeIdx =>
    if b.ring.commReadIdx ≠ writeIdx then some (b.ring.commRing b.ring.commReadIdx.toNat) else none
  | _ => none

def dueRead (b : Bus) : Option Captured := b.due.bind fun _ => b.reads[b.ring.delivered.length]?

def step (b : Bus) : Option Bus :=
  b.ring.step.map fun ring =>
    { b with
      ring := ring
      rp := b.due.elim b.rp fun sample => (b.rp.midiRom3Consumer (addrLsb sample)).2 }

def event (lwip : Lwip) (b : Bus) : Event → Option Bus
  | .rom3 _ => none
  | event => if b.ring.pc = .idle then (b.rp.next lwip event).map fun rp => { b with rp := rp } else none

def next (lwip : Lwip) (b : Bus) : BusLabel → Option Bus
  | .read x => some (b.capture x)
  | .poll => if b.ring.pc = .idle then some { b with ring := b.ring.commemulPoll } else none
  | .step => b.step
  | .event event => b.event lwip event

theorem event_cases (lwip : Lwip) (b : Bus) {event : Event} {after : Bus} (step : b.event lwip event = some after) :
    ∃ rp, b.rp.next lwip event = some rp ∧ { b with rp := rp } = after := by
  unfold Bus.event at step
  split at step
  · cases step
  · obtain ⟨-, stepped⟩ := Option.ite_none_right_eq_some.mp step
    exact Option.map_eq_some_iff.mp stepped

/-- The poll of the capture ring keeps up with the m68k, and the gate is down for a word of a command frame
that has a bit of the MIDI stream. -/
def keepsUp (b : Bus) : BusLabel → Prop
  | .read x => CommRing.keepsUp b.ring (.capture x.sample)
  | .step => ∀ x ∈ b.dueRead, x.stray = true → b.rp.active = false
  | _ => True

instance (b : Bus) : (label : BusLabel) → Decidable (b.keepsUp label)
  | .read x => inferInstanceAs (Decidable (CommRing.keepsUp b.ring (.capture x.sample)))
  | .step => inferInstanceAs (Decidable (∀ x ∈ b.dueRead, x.stray = true → b.rp.active = false))
  | .poll | .event _ => .isTrue trivial

def written (b : Bus) : Bytes := b.rp.written.map fun entry => entry.1.byte

def start (settings : Midi.Settings) (now : Nat) : Bus := { rp := Firmware.midiInit settings now }

end Bus

def busMachine (lwip : Lwip) : Machine Bus BusLabel := ⟨Bus.next lwip⟩

def outByte (sample : UInt16) : Option UInt8 :=
  if addrLsb sample &&& Firmware.midiDeactivate ≠ 0 then none
  else if addrLsb sample &&& Firmware.midiInAdvance ≠ 0 then none
  else if addrLsb sample &&& Firmware.midiOutMarker ≠ 0 then some (addrLsb sample).toUInt8
  else none

theorem outByte_out (byte : UInt8) : outByte (Captured.out byte).sample = some byte := by
  have all : ∀ n < 256, outByte (Captured.out (UInt8.ofNat n)).sample = some (UInt8.ofNat n) := by decide +kernel
  rw [← UInt8.ofNat_toNat (x := byte)]
  exact all byte.toNat byte.toNat_lt

theorem outByte_plain (x : Captured) (plain : x.stray = false) : outByte x.sample = spoken x := by
  cases x with
  | frame word =>
    have clear : word &&& Captured.markers = 0 := by simpa [Captured.stray] using plain
    have deactivates := and_markers word Firmware.midiDeactivate rfl clear
    have advances := and_markers word Firmware.midiInAdvance rfl clear
    have sends := and_markers word Firmware.midiOutMarker rfl clear
    simp [outByte, Captured.sample, addrLsb_captured, Captured.index, deactivates, advances, sends, spoken]
  | out byte => exact outByte_out byte
  | advance | deactivate => decide

def inTransit (s : Firmware) : Bytes := (s.written.map fun entry => entry.1.byte) ++ s.pending

theorem midiNetSendByte_inTransit (b : UInt8) (s : Firmware) :
    (inTransit (s.midiNetSendByte b)).Sublist (inTransit s ++ [b]) ∧
      (s.outQueue.ring.isFull = false → inTransit (s.midiNetSendByte b) = inTransit s ++ [b]) := by
  have contents := s.outQueue.contents_push ⟨b, s.link.session⟩ s.now
  have pending : (s.midiNetSendByte b).pending = (s.pending ++ [b]).take (2 ^ queueBits - 1) := by
    rw [Firmware.pending, Firmware.midiNetSendByte, contents, List.map_take, List.map_append]
    rfl
  have whole : inTransit (s.midiNetSendByte b) =
      (s.written.map fun entry => entry.1.byte) ++ (s.pending ++ [b]).take (2 ^ queueBits - 1) := by
    rw [← pending]
    rfl
  rw [whole, inTransit, List.append_assoc]
  refine ⟨(List.take_sublist ..).append_left _, fun room => ?_⟩
  have depth := s.outQueue.ring.depth_lt
  have notFull : s.outQueue.ring.depth + 1 ≠ 2 ^ queueBits := by
    rw [ne_eq, ← s.outQueue.ring.isFull_iff, room]
    simp
  have length : s.pending.length = s.outQueue.ring.depth := by simp [Firmware.pending, Queue.contents]
  rw [List.take_of_length_le]
  rw [List.length_append, List.length_singleton]
  omega

theorem midiRom3Consumer_inTransit (sample : UInt16) (s : Firmware) :
    (inTransit (s.midiRom3Consumer (addrLsb sample)).2).Sublist (inTransit s ++ (outByte sample).toList) ∧
      ((outByte sample ≠ none → s.active = true ∧ s.outQueue.ring.isFull = false) →
        inTransit (s.midiRom3Consumer (addrLsb sample)).2 = inTransit s ++ (outByte sample).toList) := by
  have kept (after : Firmware) (same : inTransit after = inTransit s) (said : Option UInt8) :
      (inTransit after).Sublist (inTransit s ++ said.toList) := by
    rw [same]
    exact List.sublist_append_left ..
  unfold Firmware.midiRom3Consumer
  cases gate : s.active with
  | false =>
    simp only [Bool.not_false, if_true]
    refine ⟨kept s rfl _, fun open_ => ?_⟩
    have none : outByte sample = none := by
      by_contra some_
      exact Bool.noConfusion (open_ some_).1
    rw [none, Option.toList_none, List.append_nil]
  | true =>
    simp only [Bool.not_true, Bool.false_eq_true, if_false, true_and]
    unfold outByte
    split
    · exact ⟨kept _ rfl none, fun _ => (List.append_nil _).symm⟩
    split
    · obtain ⟨shared, effect, -⟩ := Firmware.advance_effect s
      rw [effect]
      exact ⟨kept _ rfl none, fun _ => (List.append_nil _).symm⟩
    split
    · obtain ⟨part, all⟩ := midiNetSendByte_inTransit (addrLsb sample).toUInt8 s
      exact ⟨part, fun room => all (room (Option.some_ne_none _))⟩
    · exact ⟨kept s rfl none, fun _ => (List.append_nil _).symm⟩

def cleans (lwip : Lwip) (s : Firmware) : Event → Bool
  | .poll _ => (s.midiNetFlushOut lwip).outQueue.isStale s.now
  | _ => false

def Keeps (lwip : Lwip) (s : Firmware) (event : Event) (after : Firmware) : Prop :=
  after.link.session = s.link.session ∧ cleans lwip s event = false

instance (lwip : Lwip) (s : Firmware) (event : Event) (after : Firmware) : Decidable (Keeps lwip s event after) :=
  inferInstanceAs (Decidable (_ ∧ _))

structure Carries (s after : Firmware) (keeps : Prop) : Prop where
  part : (inTransit after).Sublist (inTransit s)
  all : keeps → inTransit after = inTransit s

theorem Carries.same {s after : Firmware} (same : inTransit after = inTransit s) (keeps : Prop) :
    Carries s after keeps :=
  ⟨same ▸ List.Sublist.refl _, fun _ => same⟩

theorem Carries.drop {s after : Firmware} {keeps : Prop} (written : after.written = s.written)
    (none : after.outQueue.contents = []) (drops : ¬ keeps) : Carries s after keeps := by
  refine ⟨?_, fun kept => absurd kept drops⟩
  rw [inTransit, inTransit, written, Firmware.pending, none, List.map_nil, List.append_nil]
  exact List.sublist_append_left ..

theorem paced_carries {s after : Firmware} (paced : Firmware.Paced s after) (kept : Firmware.Kept s after) :
    Carries s after (after.link.session = s.link.session) := by
  by_cases same : after.link.session = s.link.session
  · have out := (paced.calm same).2.2
    exact .same (by rw [inTransit, inTransit, Firmware.pending, out, kept.written]; rfl) _
  · have more := Nat.lt_of_le_of_ne paced.session (Ne.symm same)
    exact .drop kept.written (paced.drops more).2 same

theorem midiNetFlushOut_inTransit (lwip : Lwip) (s : Firmware) : inTransit (s.midiNetFlushOut lwip) = inTransit s := by
  obtain ⟨rand, calls, queue, k, flush, rest⟩ := Firmware.midiNetFlushOut_effect lwip s
  rw [flush, inTransit, inTransit, Firmware.pending, Firmware.pending, rest]
  simp only [List.map_append, List.map_map, List.append_assoc, Function.comp_def]
  rw [← List.map_append, List.take_append_drop]

theorem midiNetPoll_carries (lwip : Lwip) (hasIp : Bool) (s : Firmware) :
    Carries s (s.midiNetPoll lwip hasIp) (Keeps lwip s (.poll hasIp) (s.midiNetPoll lwip hasIp)) := by
  obtain ⟨rand, calls, queue, k, flush, -⟩ := Firmware.midiNetFlushOut_effect lwip s
  have cleaned := Firmware.midiQueueCleanup_cleaned (s.midiNetFlushOut lwip)
  have flushed := midiNetFlushOut_inTransit lwip s
  obtain ⟨written, ends⟩ := Firmware.midiNetPoll_ends lwip hasIp s
  have now : (s.midiNetFlushOut lwip).now = s.now := by rw [flush]
  have cleanedOut := cleaned.outQueue
  rw [now] at cleanedOut
  have tendedWritten : (s.tended lwip).written = (s.midiNetFlushOut lwip).written := cleaned.written
  have shorter : ((s.midiNetFlushOut lwip).written.map fun entry => entry.1.byte).Sublist (inTransit s) := by
    rw [← flushed]
    exact List.sublist_append_left ..
  have emptied (none : (s.midiNetPoll lwip hasIp).outQueue.contents = []) :
      (inTransit (s.midiNetPoll lwip hasIp)).Sublist (inTransit s) := by
    rw [inTransit, written, tendedWritten, Firmware.pending, none, List.map_nil, List.append_nil]
    exact shorter
  split at ends
  next drops =>
    refine ⟨emptied ends.2, fun keeps => ?_⟩
    rw [dropped, keeps.1] at drops
    simp at drops
  next calm =>
    split at cleanedOut
    next stale =>
      refine ⟨emptied ?_, fun keeps => ?_⟩
      · rw [ends.2]
        exact cleanedOut
      · have fresh : (s.midiNetFlushOut lwip).outQueue.isStale s.now = false := keeps.2
        rw [stale] at fresh
        cases fresh
    next fresh =>
      refine .same ?_ _
      rw [← flushed, inTransit, inTransit, written, tendedWritten, Firmware.pending, ends.2, Firmware.pending]
      exact congrArg (fun queue : Queue => _ ++ queue.contents.map Cell.byte) cleanedOut

theorem next_carries (lwip : Lwip) {s after : Firmware} {event : Event} (other : ∀ addrLsb, event ≠ .rom3 addrLsb)
    (step : s.next lwip event = some after) : Carries s after (Keeps lwip s event after) := by
  have weaken {after : Firmware} {keeps other : Prop} (carries : Carries s after keeps) (imp : other → keeps) :
      Carries s after other :=
    ⟨carries.part, fun kept => carries.all (imp kept)⟩
  cases event with
  | tick micros =>
    obtain rfl := Option.some.inj step
    refine .same ?_ _
    rfl
  | poll hasIp =>
    obtain rfl := Option.some.inj step
    exact midiNetPoll_carries lwip hasIp s
  | reload settings =>
    obtain rfl := Option.some.inj step
    obtain ⟨calls, effect⟩ := Firmware.midiNetReset_effect lwip { s with cfg := midiLoadConfig settings s.cfg }
    simp only [Firmware.midiNetReload, effect]
    exact .drop rfl (by simp [Firmware.afterDrop]) fun keeps => absurd keeps.1 (Nat.succ_ne_self _)
  | connected pcb err =>
    obtain ⟨-, reached⟩ := Option.ite_none_right_eq_some.mp step
    obtain rfl := Option.some.inj reached
    have changes := Firmware.midiNetConnectedCb_changes lwip pcb err s
    exact weaken (paced_carries changes.paced changes.kept) And.left
  | recv pcb chain err =>
    obtain ⟨-, reached⟩ := Option.ite_none_right_eq_some.mp step
    obtain rfl := Option.some.inj reached
    have changes := Firmware.midiNetRecvCb_changes lwip pcb chain err s
    exact weaken (paced_carries changes.paced changes.kept) And.left
  | error pcb =>
    obtain ⟨-, reached⟩ := Option.ite_none_right_eq_some.mp step
    obtain rfl := Option.some.inj reached
    rw [Firmware.midiNetErrCb_effect]
    exact .drop rfl (by simp [Firmware.afterDrop]) fun keeps => absurd keeps.1 (Nat.succ_ne_self _)
  | dnsFound query ip =>
    obtain ⟨q, -, rfl⟩ := Option.map_eq_some_iff.mp step
    have changes := Firmware.midiNetDnsFound_changes lwip q.name ip
      { s with link := { s.link with queries := s.link.queries.filter fun q => q.id != query } }
    have carries := paced_carries changes.paced changes.kept
    exact ⟨carries.part, fun keeps => carries.all keeps.1⟩
  | rom3 addrLsb => exact absurd rfl (other addrLsb)
  | setActive active =>
    obtain rfl := Option.some.inj step
    refine .same ?_ _
    rfl

def Bus.kept (lwip : Lwip) (b : Bus) (label : BusLabel) : Prop :=
  b.keepsUp label ∧
    match label with
    | .step => ∀ x ∈ b.dueRead, spoken x ≠ none → b.rp.active = true ∧ b.rp.outQueue.ring.isFull = false
    | .event event => ∀ after ∈ b.rp.next lwip event, Keeps lwip b.rp event after
    | _ => True

def Bus.handed (b : Bus) : Bytes := (b.reads.take b.ring.delivered.length).filterMap spoken

structure Carrying (b : Bus) : Prop where
  sound : b.ring.Sound
  reads : b.reads.map Captured.sample = b.ring.captured
  part : (inTransit b.rp).Sublist b.handed

theorem step_delivered {b : Bus} {ring : CommRing} (step : b.ring.step = some ring) :
    ring.delivered = b.ring.delivered ++ b.due.toList ∧ ring.captured = b.ring.captured := by
  unfold CommRing.step at step
  unfold Bus.due
  split at step
  next => cases step
  next writeIdx looping =>
    rw [looping]
    simp only
    split at step
    next goesOn =>
      obtain rfl := Option.some.inj step
      rw [if_pos goesOn]
      exact ⟨rfl, rfl⟩
    next ends =>
      obtain rfl := Option.some.inj step
      rw [if_neg ends]
      exact ⟨(List.append_nil _).symm, rfl⟩
  next writeIdx called =>
    rw [called]
    obtain rfl := Option.some.inj step
    exact ⟨(List.append_nil _).symm, rfl⟩

theorem captured_dmaWrite (ring : CommRing) (sample : UInt16) :
    (ring.dmaWrite sample).captured = ring.captured ++ [sample] ∧ (ring.dmaWrite sample).delivered = ring.delivered := by
  unfold CommRing.dmaWrite
  split
  · exact ⟨rfl, rfl⟩
  · exact ⟨rfl, rfl⟩

theorem Carrying.dueRead {b : Bus} (carrying : Carrying b) {ring : CommRing} (sound : ring.Sound)
    (step : b.ring.step = some ring) {sample : UInt16} (due : b.due = some sample) :
    ∃ x, b.dueRead = some x ∧ x.sample = sample ∧
      b.reads.take ring.delivered.length = b.reads.take b.ring.delivered.length ++ [x] := by
  obtain ⟨delivered, captured⟩ := step_delivered step
  rw [due] at delivered
  obtain ⟨more, split⟩ := sound.received
  rw [captured, delivered, ← carrying.reads] at split
  have count := congrArg List.length split
  simp only [List.length_append, Option.toList_some, List.length_singleton, List.length_map] at count
  have inside : b.ring.delivered.length < b.reads.length := by omega
  refine ⟨b.reads[b.ring.delivered.length], ?_, ?_, ?_⟩
  · rw [Bus.dueRead, due]
    exact List.getElem?_eq_getElem inside
  · have entry : (b.reads.map Captured.sample)[b.ring.delivered.length]? = some sample := by
      rw [← split]
      simp
    simpa [inside] using entry
  · rw [delivered, Option.toList_some, List.length_append, List.length_singleton, List.take_append_getElem inside]

theorem next_carrying (lwip : Lwip) {b after : Bus} {label : BusLabel} (carrying : Carrying b)
    (keeps : b.keepsUp label) (step : b.next lwip label = some after) :
    Carrying after ∧
      (b.kept lwip label → inTransit b.rp = b.handed → inTransit after.rp = after.handed) := by
  cases label with
  | read x =>
    obtain rfl := Option.some.inj step
    obtain ⟨captured, delivered⟩ := captured_dmaWrite b.ring x.sample
    have within : b.ring.delivered.length ≤ b.reads.length := by
      have shorter := carrying.sound.received.length_le
      rwa [← carrying.reads, List.length_map] at shorter
    have handed : (b.capture x).handed = b.handed := by
      simp only [Bus.handed, Bus.capture, delivered, List.take_append_of_le_length within]
    refine ⟨⟨b.ring.dmaWrite_sound x.sample carrying.sound keeps, ?_, ?_⟩, fun _ all => ?_⟩
    · simp [Bus.capture, captured, carrying.reads]
    · rw [handed]
      exact carrying.part
    · rw [handed]
      exact all
  | poll =>
    obtain ⟨idle, same⟩ := Option.ite_none_right_eq_some.mp step
    obtain rfl := Option.some.inj same
    exact ⟨⟨b.ring.commemulPoll_sound carrying.sound idle, carrying.reads, carrying.part⟩, fun _ all => all⟩
  | step =>
    obtain ⟨ring, stepped, rfl⟩ := Option.map_eq_some_iff.mp step
    obtain ⟨delivered, captured⟩ := step_delivered stepped
    have sound := (b.ring.step_sound ring carrying.sound stepped).1
    have reads : b.reads.map Captured.sample = ring.captured := by rw [captured, carrying.reads]
    cases due : b.due with
    | none =>
      rw [due, Option.toList_none, List.append_nil] at delivered
      simp only [Option.elim_none]
      have handed (rp : Firmware) : Bus.handed { b with ring := ring, rp := rp } = b.handed := by
        simp only [Bus.handed, delivered]
      refine ⟨⟨sound, reads, ?_⟩, fun _ all => ?_⟩
      · rw [handed]
        exact carrying.part
      · rw [handed]
        exact all
    | some sample =>
      obtain ⟨x, dueRead, rfl, taken⟩ := carrying.dueRead sound stepped due
      have handed (rp : Firmware) :
          Bus.handed { b with ring := ring, rp := rp } = b.handed ++ (spoken x).toList := by
        simp only [Bus.handed, taken, List.filterMap_append]
        cases said : spoken x <;> simp [said]
      obtain ⟨part, all⟩ := midiRom3Consumer_inTransit x.sample b.rp
      simp only [Option.elim_some]
      cases stray : x.stray with
      | true =>
        -- the gate is down for it
        have shut := keeps x dueRead stray
        have silent : (b.rp.midiRom3Consumer (addrLsb x.sample)).2 = b.rp := by
          simp [Firmware.midiRom3Consumer, shut]
        have nothing : spoken x = none := by
          cases x <;> simp_all [Captured.stray, spoken]
        rw [silent]
        refine ⟨⟨sound, reads, ?_⟩, fun _ same => ?_⟩
        · rw [handed, nothing, Option.toList_none, List.append_nil]
          exact carrying.part
        · rw [handed, nothing, Option.toList_none, List.append_nil]
          exact same
      | false =>
        have said := outByte_plain x stray
        rw [said] at part all
        refine ⟨⟨sound, reads, ?_⟩, fun kept same => ?_⟩
        · rw [handed]
          exact part.trans (carrying.part.append_right _)
        · rw [handed, ← same]
          exact all (kept.2 x dueRead)
  | event event =>
    have other : ∀ addrLsb, event ≠ .rom3 addrLsb := by
      rintro addrLsb rfl
      cases step
    obtain ⟨rp, next, rfl⟩ := b.event_cases lwip step
    have carries := next_carries lwip other next
    exact ⟨⟨carrying.sound, carrying.reads, carries.part.trans carrying.part⟩, fun kept all =>
      (carries.all (kept.2 rp next)).trans all⟩

theorem start_carrying (settings : Midi.Settings) (now : Nat) : Carrying (Bus.start settings now) where
  sound := CommRing.start_sound
  reads := rfl
  part := by simp [inTransit, Firmware.pending, Bus.start, Firmware.midiInit]

theorem bconout_path (lwip : Lwip) {settings : Midi.Settings} {now : Nat} {labels : List BusLabel} {b : Bus}
    (run : (busMachine lwip).Run Bus.keepsUp (Bus.start settings now) labels b) :
    (b.written ++ b.rp.pending).Sublist b.given ∧
      ((busMachine lwip).Run (Bus.kept lwip) (Bus.start settings now) labels b →
        b.written ++ b.rp.pending <+: b.given ∧
          (b.ring.pc = .idle → b.ring.polled = b.ring.captured.length → b.written ++ b.rp.pending = b.given)) := by
  have carrying : Carrying b := run.invariant Carrying (start_carrying settings now)
    fun _ _ _ before keeps step => (next_carrying lwip before keeps step).1
  have handed : b.handed <+: b.given := (List.take_prefix _ _).filterMap spoken
  refine ⟨carrying.part.trans handed.sublist, fun keptRun => ?_⟩
  have both : Carrying b ∧ inTransit b.rp = b.handed := by
    refine keptRun.invariant (fun b => Carrying b ∧ inTransit b.rp = b.handed)
      ⟨start_carrying settings now, by simp [inTransit, Firmware.pending, Bus.start, Firmware.midiInit, Bus.handed]⟩ ?_
    intro before label after holds kept step
    obtain ⟨carries, all⟩ := next_carrying lwip holds.1 kept.1 step
    exact ⟨carries, all kept holds.2⟩
  have whole : b.written ++ b.rp.pending = b.handed := both.2
  refine ⟨whole ▸ handed, fun idle polled => ?_⟩
  have position := carrying.sound.position
  simp only [CommRing.Position, idle] at position
  have count := congrArg List.length carrying.reads
  rw [List.length_map, ← polled, ← position.2] at count
  rw [whole, Bus.handed, Bus.given, ← count, List.take_length]

instance (lwip : Lwip) (b : Bus) : (label : BusLabel) → Decidable (b.kept lwip label)
  | .read x => inferInstanceAs (Decidable (b.keepsUp (.read x) ∧ True))
  | .poll => inferInstanceAs (Decidable (b.keepsUp .poll ∧ True))
  | .step =>
    haveI : Decidable (∀ x ∈ b.dueRead, spoken x ≠ none →
      b.rp.active = true ∧ b.rp.outQueue.ring.isFull = false) := Option.decidableForallMem _
    inferInstanceAs (Decidable (b.keepsUp .step ∧ _))
  | .event event =>
    haveI : Decidable (∀ after ∈ b.rp.next lwip event, Keeps lwip b.rp event after) := Option.decidableForallMem _
    inferInstanceAs (Decidable (b.keepsUp (.event event) ∧ _))

def twoBytes : List BusLabel :=
  [.read .deactivate, .read (.frame 0x012E), .poll, .step, .step, .step, .step, .step, .event (.poll true),
    .event (.connected 0 errOk), .event (.setActive true), .read (.out 0x90), .poll, .step, .read (.out 0x3C), .step,
    .step, .event (.poll true), .read .advance, .poll, .step, .step, .step, .step, .step]

theorem bconout_path_twoBytes :
    ∃ b, (busMachine willing).exec (Bus.kept willing) (Bus.start ⟨none⟩ 0) twoBytes = some b ∧
      b.written = [0x90] ∧ b.written ++ b.rp.pending = b.given ∧ b.given = [0x90, 0x3C] := by
  obtain ⟨b, executed, checks⟩ := (Option.any_eq_true _ _).mp
    (show (((busMachine willing).exec (Bus.kept willing) (Bus.start ⟨none⟩ 0) twoBytes).any fun b =>
      decide (b.written = [0x90] ∧ b.given = [0x90, 0x3C] ∧ b.ring.pc = .idle ∧
        b.ring.polled = b.ring.captured.length)) = true by decide +kernel)
  obtain ⟨written, given, idle, polled⟩ := of_decide_eq_true checks
  have kept := Machine.run_of_exec executed
  have keepsUp : (busMachine willing).Run Bus.keepsUp (Bus.start ⟨none⟩ 0) twoBytes b :=
    kept.strengthen (fun _ => True) trivial (fun _ _ _ _ _ _ => trivial) fun _ _ _ meets => meets.1
  exact ⟨b, executed, written, ((bconout_path willing keepsUp).2 kept).2 idle polled, given⟩

end MidiToIp.System
