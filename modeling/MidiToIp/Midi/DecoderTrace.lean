import Mathlib.Data.List.Basic
import MidiToIp.Midi.LinkEffects

set_option autoImplicit false

namespace MidiToIp.Midi

open Octets MidiWs

structure Trace where
  dec : MidiWsDecoder
  closed : Bool := false
  pushed : Bytes := []

def tracer : DecoderHost Trace where
  dec t := t.dec
  setDec d t := { t with dec := d }
  onData p t := { t with pushed := t.pushed ++ p }
  onCtl opcode _ t :=
    if opcode = midiWsOpClose then { dec := midiWsDecoderInit, closed := true, pushed := [] } else t

def traced (d : MidiWsDecoder) (buffer : Bytes) : Bool × Trace :=
  midiWsDecode tracer { dec := d } buffer

theorem tracer_lawful : Lawful tracer where
  dec_setDec := fun _ _ => rfl
  setDec_dec := fun _ => rfl
  setDec_setDec := fun _ _ _ => rfl
  dec_onData := fun _ _ => rfl
  setDec_onData := fun _ _ _ => rfl
  onData_nil := by intro t; simp [tracer]
  onData_append := by intro p q t; simp [tracer]

structure Records (s after : Firmware) : Prop where
  consumed : after.consumed = s.consumed
  written : after.written = s.written
  session : s.link.session ≤ after.link.session

theorem Records.refl (s : Firmware) : Records s s := ⟨rfl, rfl, Nat.le_refl _⟩

def received (pcb : Nat) (p : Bytes) : List Cell := p.map fun b => ⟨b, pcb⟩

theorem received_mark (pcb : Nat) (p : Bytes) (c : Cell) (member : c ∈ received pcb p) :
    c.mark = pcb := by
  obtain ⟨b, -, rfl⟩ := List.mem_map.mp member
  rfl

namespace Firmware

variable (lwip : Lwip)

theorem midiWsOnData_contents (pcb : Nat) (p : Bytes) (s : Firmware) :
    (midiWsOnData pcb p s).inQueue.contents =
      (s.inQueue.contents ++ received pcb p).take (2 ^ queueBits - 1) := by
  rw [midiWsOnData_effect, ← s.inQueue.contents_pushAll (received pcb p) s.now, received,
    List.foldl_map]

structure Follows (s : Firmware) (pcb : Nat) (after : Firmware) (t : Trace) : Prop where
  dec : after.wsDec = t.dec
  cfg : after.cfg = s.cfg
  records : Records s after
  contents : after.inQueue.contents =
    ((if t.closed then [] else s.inQueue.contents) ++ received pcb t.pushed).take (2 ^ queueBits - 1)
  untouched : t.closed = false →
    after.link = s.link ∧ after.outQueue = s.outQueue ∧ after.shared = s.shared
  dropped : t.closed = true →
    after.link.netState = .down ∧ after.link.netPcb = none ∧ s.link.session < after.link.session ∧
      after.outQueue.contents = [] ∧ after.wsHsBuf = [] ∧ after.shared.inOrigin = none

theorem host_follows (pcb : Nat) (s : Firmware) :
    Simulates (host lwip pcb) tracer (Follows s pcb) where
  dec := fun _ _ follows => follows.dec
  setDec := fun _ _ d follows =>
    ⟨rfl, follows.cfg, ⟨follows.records.consumed, follows.records.written, follows.records.session⟩,
      follows.contents, follows.untouched, follows.dropped⟩
  onData := by
    intro after t p follows
    have contents := midiWsOnData_contents pcb p after
    rw [follows.contents, take_take_append, List.append_assoc] at contents
    simp only [host, midiWsOnData_effect] at contents ⊢
    refine ⟨follows.dec, follows.cfg,
      ⟨follows.records.consumed, follows.records.written, follows.records.session⟩, ?_,
      follows.untouched, follows.dropped⟩
    change _ = ((if t.closed then [] else s.inQueue.contents) ++ received pcb (t.pushed ++ p)).take _
    rw [received, List.map_append]
    exact contents
  onCtl := by
    intro after t opcode p follows
    simp only [host, midiWsOnCtl, tracer]
    by_cases ping : opcode = midiWsOpPing
    · have other : ¬ opcode = midiWsOpClose := by
        rw [ping]
        decide
      obtain ⟨rand, calls, effect⟩ := midiWsSendFrame_effect lwip midiWsOpPong p after
      rw [if_pos ping, if_neg other, effect]
      exact ⟨follows.dec, follows.cfg,
        ⟨follows.records.consumed, follows.records.written, follows.records.session⟩,
        follows.contents, follows.untouched, follows.dropped⟩
    by_cases close : opcode = midiWsOpClose
    · obtain ⟨calls, effect⟩ := midiNetReset_effect lwip after
      have later := follows.records.session
      rw [if_neg ping, if_pos close, if_pos close, effect]
      refine ⟨rfl, follows.cfg, ⟨follows.records.consumed, follows.records.written, ?_⟩, ?_, by simp,
        fun _ => ⟨rfl, rfl, ?_, by simp [afterDrop], rfl, flushed_origin after⟩⟩
      · simp only [afterDrop, Link.dropped]
        omega
      · simp [afterDrop, received]
      · simp only [afterDrop, Link.dropped]
        omega
    · rw [if_neg ping, if_neg close, if_neg close]
      exact follows

theorem midiWsDecode_follows (pcb : Nat) (s : Firmware) (buffer : Bytes) :
    (midiWsDecode (host lwip pcb) s buffer).1 = (traced s.wsDec buffer).1 ∧
      Follows s pcb (midiWsDecode (host lwip pcb) s buffer).2 (traced s.wsDec buffer).2 := by
  apply (host_follows lwip pcb s).midiWsDecode_related
  exact ⟨rfl, rfl, .refl s, by simp [received, Queue.contents_take], fun _ => ⟨rfl, rfl, rfl⟩, by simp⟩

end Firmware

end MidiToIp.Midi
