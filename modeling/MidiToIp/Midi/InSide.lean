import Mathlib.Data.List.Induction
import MidiToIp.Midi.LinkEffects

set_option autoImplicit false

-- A call of the module changes the ring at once; its writes to the shared words reach the m68k one
-- after the other.

namespace MidiToIp.Midi

open Octets Rings MidiWs

structure InSide where
  ring : Ring Cell queueBits := Ring.init ⟨0, 0⟩
  inAck : UInt32 := 0
  shared : SharedWords := {}
  todo : List SharedWrite := []

inductive InOp where
  | push (cell : Cell)
  | publish
  | flush
  deriving DecidableEq, Repr

namespace InSide

def publish (s : InSide) : InSide := { s with todo := s.todo ++ midiInPublish s.ring }

def perform (s : InSide) : InOp → InSide
  | .push cell => { s with ring := s.ring.push cell }
  | .publish => publish s
  | .flush => publish { s with ring := s.ring.flush }

def performAll (ops : List InOp) (s : InSide) : InSide := ops.foldl perform s

def advance (s : InSide) : InSide :=
  let s := publish { s with ring := s.ring.pop }
  { s with inAck := s.inAck + 1, todo := s.todo ++ [.ack (s.inAck + 1)] }

def settled (s : InSide) : InSide := { s with shared := s.shared.writeAll s.todo, todo := [] }

theorem publish_settled (s : InSide) : s.settled.publish.settled = s.publish.settled := by
  simp [settled, publish, SharedWords.writeAll]

theorem perform_settled (s : InSide) (op : InOp) :
    (s.settled.perform op).settled = (s.perform op).settled := by
  cases op with
  | push cell => rfl
  | publish => exact publish_settled s
  | flush => exact publish_settled { s with ring := s.ring.flush }

theorem performAll_settled (ops : List InOp) (s : InSide) :
    (performAll ops s.settled).settled = (performAll ops s).settled := by
  induction ops using List.reverseRecOn generalizing s with
  | nil => simp [performAll, settled, SharedWords.writeAll]
  | append_singleton ops op ih =>
    simp only [performAll, List.foldl_append, List.foldl_cons, List.foldl_nil] at ih ⊢
    rw [← perform_settled, ih, perform_settled]

end InSide

def Firmware.inSide (s : Firmware) : InSide :=
  { ring := s.inQueue.ring, inAck := s.inAck, shared := s.shared }

def Performs (s after : Firmware) : Prop :=
  ∃ ops, after.inSide = (InSide.performAll ops s.inSide).settled

theorem Performs.refl (s : Firmware) : Performs s s := ⟨[], rfl⟩

theorem Performs.trans {s middle after : Firmware} (first : Performs s middle)
    (second : Performs middle after) : Performs s after := by
  obtain ⟨ops, before⟩ := first
  obtain ⟨more, later⟩ := second
  refine ⟨ops ++ more, ?_⟩
  rw [later, before, InSide.performAll_settled, InSide.performAll, InSide.performAll,
    InSide.performAll, List.foldl_append]

theorem Performs.same {s middle : Firmware} (performs : Performs s middle) (after : Firmware)
    (inQueue : after.inQueue = middle.inQueue) (inAck : after.inAck = middle.inAck)
    (shared : after.shared = middle.shared) : Performs s after := by
  obtain ⟨ops, before⟩ := performs
  refine ⟨ops, ?_⟩
  rw [← before, Firmware.inSide, Firmware.inSide, inQueue, inAck, shared]

namespace Firmware

variable (lwip : Lwip)

theorem publish_performs (s : Firmware) : Performs s (publish s) := ⟨[.publish], rfl⟩

theorem call_performs (s after : Firmware) (c : LwipCall) (performs : Performs s after) :
    Performs s (call c after) := performs.same _ rfl rfl rfl

theorem afterDrop_performs (s : Firmware) (link : Link) (calls : List LwipCall) :
    Performs s (s.afterDrop link calls) := ⟨[.flush], rfl⟩

theorem midiNetReset_performs (s : Firmware) : Performs s (midiNetReset lwip s) := by
  obtain ⟨calls, effect⟩ := midiNetReset_effect lwip s
  rw [effect]
  exact afterDrop_performs s _ calls

theorem midiInPush_performs (pcb : Nat) (b : UInt8) (s : Firmware) :
    Performs s (midiInPush pcb b s) := by
  refine ⟨[.push ⟨b, pcb⟩], ?_⟩
  have ring : (s.inQueue.push ⟨b, pcb⟩ s.now).ring = s.inQueue.ring.push ⟨b, pcb⟩ := by
    unfold Queue.push
    split
    next full => rw [s.inQueue.ring.push_of_isFull _ full]
    next => rfl
  simp only [midiInPush, inSide, ring]
  rfl

theorem midiWsOnData_performs (pcb : Nat) (p : Bytes) (s : Firmware) :
    Performs s (midiWsOnData pcb p s) := by
  induction p generalizing s with
  | nil => exact .refl s
  | cons b rest ih => exact (midiInPush_performs pcb b s).trans (ih _)

theorem midiWsDecode_performs (pcb : Nat) (s start : Firmware) (buffer : Bytes)
    (performs : Performs s start) : Performs s (midiWsDecode (host lwip pcb) start buffer).2 := by
  have onCtl (after : Firmware) (opcode : UInt8) (p : Bytes) (before : Performs s after) :
      Performs s (midiWsOnCtl lwip opcode p after) := by
    unfold midiWsOnCtl
    split
    · obtain ⟨rand, calls, effect⟩ := midiWsSendFrame_effect lwip midiWsOpPong p after
      rw [effect]
      exact before.same _ rfl rfl rfl
    split
    · exact before.trans (midiNetReset_performs lwip after)
    · exact before
  exact midiWsDecode_keeps (host lwip pcb) (Performs s)
    (fun after d before => before.same _ rfl rfl rfl)
    (fun after p before => before.trans (midiWsOnData_performs pcb p after)) onCtl start buffer
    performs

theorem midiWsHandshakeRecv_performs (pcb : Nat) (chain : List Bytes) (s : Firmware) :
    Performs s (midiWsHandshakeRecv lwip pcb chain s).2 := by
  have rest := Performs.refl s
  unfold midiWsHandshakeRecv
  simp only
  split
  · exact rest.same _ rfl rfl rfl
  split
  · exact rest.same _ rfl rfl rfl
  split
  · exact rest.same _ rfl rfl rfl
  split
  next hdrEnd _ _ _ =>
    have marked := rest.same
      (midiNetMarkUp { s with wsHsBuf := (s.wsHsBuf ++ chain.flatten).take hsBufSize }) rfl rfl rfl
    have decoded := midiWsDecode_performs lwip pcb s _
      ((s.wsHsBuf ++ chain.flatten).drop hdrEnd) marked
    split
    next answer =>
      rw [answer] at decoded
      exact decoded
    next answer =>
      rw [answer] at decoded
      exact decoded.trans (publish_performs _)
  · exact rest.same _ rfl rfl rfl

theorem decodeChain_performs (pcb : Nat) (chain : List Bytes) (s start : Firmware)
    (performs : Performs s start) : Performs s (decodeChain lwip pcb chain start).2 := by
  induction chain generalizing start with
  | nil => exact performs
  | cons buffer rest ih =>
    have decoded := midiWsDecode_performs lwip pcb s start buffer performs
    rw [decodeChain]
    split
    next answer =>
      rw [answer] at decoded
      exact decoded
    next after answer =>
      rw [answer] at decoded
      split
      · exact decoded
      · exact ih after decoded

theorem recvByState_performs (pcb : Nat) (chain : List Bytes) (s : Firmware) :
    Performs s (recvByState lwip pcb chain s).2 := by
  unfold recvByState
  split
  · exact midiWsHandshakeRecv_performs lwip pcb chain s
  · have decoded := decodeChain_performs lwip pcb chain s s (.refl s)
    unfold recvFrames
    split
    next answer =>
      rw [answer] at decoded
      exact decoded
    next after answer =>
      rw [answer] at decoded
      simp only
      split
      · exact decoded.trans (publish_performs after)
      · exact decoded
  · exact .refl s

theorem midiNetRecvCb_performs (pcb : Nat) (chain : Option (List Bytes)) (err : Err)
    (s : Firmware) : Performs s (midiNetRecvCb lwip pcb chain err s).2 := by
  unfold midiNetRecvCb
  cases chain with
  | none => exact midiNetReset_performs lwip s
  | some chain =>
    simp only
    split
    · exact .refl s
    split
    · have received := recvByState_performs lwip pcb chain s
      unfold recvWs
      split
      next after answer =>
        rw [answer] at received
        exact received.trans (midiNetReset_performs lwip after)
      next after answer =>
        rw [answer] at received
        simp only
        split
        · exact call_performs s after _ received
        · exact received
    · exact call_performs s _ _
        ((midiWsOnData_performs pcb chain.flatten s).trans (publish_performs _))

theorem midiNetConnectTo_performs (ip : IpAddr) (towards : Bytes) (s : Firmware) :
    Performs s (midiNetConnectTo lwip ip towards s) := by
  obtain ⟨calls, ⟨-, effect⟩ | ⟨-, link, -, effect⟩⟩ := midiNetConnectTo_effect lwip ip towards s
  · rw [effect]
    exact (Performs.refl s).same _ rfl rfl rfl
  · rw [effect]
    exact afterDrop_performs s _ calls

theorem midiNetTryConnect_performs (s : Firmware) : Performs s (midiNetTryConnect lwip s) := by
  have rest := Performs.refl s
  unfold midiNetTryConnect
  split
  · exact midiNetConnectTo_performs lwip _ _ s
  · simp only [call]
    split
    · exact (rest.same _ rfl rfl rfl).trans (midiNetConnectTo_performs lwip _ _ _)
    split
    · exact (rest.same _ rfl rfl rfl).trans (midiNetReset_performs lwip _)
    · exact rest.same _ rfl rfl rfl

theorem midiNetPoll_performs (hasIp : Bool) (s : Firmware) : Performs s (midiNetPoll lwip hasIp s) := by
  have drained : Performs s (midiNetFlushOut lwip s) := by
    obtain ⟨rand, calls, queue, k, effect, -⟩ := midiNetFlushOut_effect lwip s
    rw [effect]
    exact (Performs.refl s).same _ rfl rfl rfl
  have cleaned : Performs s (midiQueueCleanup (midiNetFlushOut lwip s)) := by
    obtain ⟨queue, effect, -⟩ := cleanupOut_effect (cleanupIn (midiNetFlushOut lwip s))
    rw [midiQueueCleanup, effect]
    refine Performs.same (drained.trans ?_) _ rfl rfl rfl
    unfold cleanupIn
    split
    · exact ⟨[.flush], rfl⟩
    · exact .refl _
  unfold midiNetPoll
  simp only
  generalize midiQueueCleanup (midiNetFlushOut lwip s) = cleaned_ at *
  split
  · exact cleaned
  split
  · exact cleaned
  split
  · exact cleaned
  split
  · exact cleaned
  · exact (cleaned.same _ rfl rfl rfl).trans (midiNetTryConnect_performs lwip _)

-- An event is a row of pushes, publications and flushes, or the pop of an advance.
theorem next_performs (s after : Firmware) (event : Event) (step : s.next lwip event = some after) :
    Performs s after ∨
      ∃ addrLsb, event = .rom3 addrLsb ∧ addrLsb &&& midiInAdvance ≠ 0 ∧
        after.inSide = s.inSide.advance.settled := by
  cases event with
  | tick micros =>
    obtain rfl := Option.some.inj step
    exact .inl ((Performs.refl s).same _ rfl rfl rfl)
  | poll hasIp =>
    obtain rfl := Option.some.inj step
    exact .inl (midiNetPoll_performs lwip hasIp s)
  | reload settings =>
    obtain rfl := Option.some.inj step
    have loaded := (Performs.refl s).same { s with cfg := midiLoadConfig settings s.cfg } rfl rfl rfl
    exact .inl ((loaded.trans (midiNetReset_performs lwip _)).same _ rfl rfl rfl)
  | connected pcb err =>
    simp only [next] at step
    split at step <;> simp only [Option.some.injEq, reduceCtorEq] at step
    subst step
    refine .inl ?_
    unfold midiNetConnectedCb
    split
    · exact midiNetReset_performs lwip s
    split
    · obtain ⟨rand, key, calls, sent | refused⟩ := midiWsStartHandshake_effect lwip s
      · rw [sent]
        exact (Performs.refl s).same _ rfl rfl rfl
      · rw [refused]
        exact ((Performs.refl s).same _ rfl rfl rfl).trans (afterDrop_performs _ _ calls)
    · exact (Performs.refl s).same _ rfl rfl rfl
  | recv pcb chain err =>
    simp only [next] at step
    split at step <;> simp only [Option.some.injEq, reduceCtorEq] at step
    subst step
    exact .inl (midiNetRecvCb_performs lwip pcb chain err s)
  | error pcb =>
    simp only [next] at step
    split at step <;> simp only [Option.some.injEq, reduceCtorEq] at step
    subst step
    rw [midiNetErrCb_effect]
    exact .inl (((Performs.refl s).same _ rfl rfl rfl).trans (afterDrop_performs _ _ _))
  | dnsFound query ip =>
    obtain ⟨q, -, rfl⟩ := Option.map_eq_some_iff.mp step
    have answered := (Performs.refl s).same { s with
      link := { s.link with queries := s.link.queries.filter fun q => q.id != query } } rfl rfl rfl
    refine .inl ?_
    unfold midiNetDnsFound
    cases ip with
    | none => exact answered.trans (midiNetReset_performs lwip _)
    | some ip => exact answered.trans (midiNetConnectTo_performs lwip ip q.name _)
  | rom3 addrLsb =>
    obtain rfl := Option.some.inj step
    unfold midiRom3Consumer
    split
    · exact .inl (.refl s)
    split
    · exact .inl ((Performs.refl s).same _ rfl rfl rfl)
    split
    next advances => exact .inr ⟨addrLsb, rfl, advances, rfl⟩
    split
    · exact .inl ((Performs.refl s).same _ rfl rfl rfl)
    · exact .inl (.refl s)
  | setActive active =>
    obtain rfl := Option.some.inj step
    exact .inl ((Performs.refl s).same _ rfl rfl rfl)

end Firmware

end MidiToIp.Midi
