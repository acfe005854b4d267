import Mathlib.Data.List.Basic
import MidiToIp.Midi.LinkEffects
import MidiToIp.WebSocket.CodecAgreement

set_option autoImplicit false

namespace MidiToIp.Midi

open Octets Rings MidiWs

inductive OutStep where
  | send (b : UInt8)
  | drain
  deriving DecidableEq, Repr

def LwipCall.taken : LwipCall → Option Bytes
  | .write _ data err => if err = errOk then some data else none
  | _ => none

namespace Firmware

variable (lwip : Lwip)

def outStep (s : Firmware) : OutStep → Firmware
  | .send b => s.midiNetSendByte b
  | .drain => s.midiNetFlushOut lwip

def outRun (s : Firmware) (steps : List OutStep) : Firmware := steps.foldl (outStep lwip) s

def pending (s : Firmware) : Bytes := s.outQueue.contents.map Cell.byte

def acceptedBy (s : Firmware) : OutStep → Bytes
  | .send b => if s.outQueue.ring.isFull then [] else [b]
  | .drain => []

def accepted : Firmware → List OutStep → Bytes
  | _, [] => []
  | s, step :: rest => acceptedBy s step ++ accepted (outStep lwip s step) rest

/-- The loop of `midi_net_flush_out` as the source has it: it ends when the ring is empty or a turn
breaks, and `wrote` tells whether a turn went on before. -/
inductive FlushLoop (pcb : Nat) : Bool → Firmware → Bool → Firmware → Prop
  | drained (wrote : Bool) (s : Firmware) (empty : s.outQueue.ring.isEmpty = true) :
      FlushLoop pcb wrote s wrote s
  | breaks (wrote : Bool) (s after : Firmware) (some_ : s.outQueue.ring.isEmpty = false)
      (turn : flushOutTurn lwip pcb s = (after, false)) : FlushLoop pcb wrote s wrote after
  | goesOn (wrote : Bool) (s middle : Firmware) (finally_ : Bool) (after : Firmware)
      (some_ : s.outQueue.ring.isEmpty = false)
      (turn : flushOutTurn lwip pcb s = (middle, true))
      (rest : FlushLoop pcb true middle finally_ after) : FlushLoop pcb wrote s finally_ after

def Drains (s after : Firmware) : Prop :=
  match s.link.netState, s.link.netPcb with
  | .up, some pcb =>
    ∃ wrote looped, FlushLoop lwip pcb false s wrote looped ∧
      after =
        if wrote then { call (.output pcb) looped with outQueue := looped.outQueue.stamp looped.now }
        else looped
  | _, _ => after = s

end Firmware

def Transport.Carries : Transport → Bytes → Bytes → Prop
  | .tcp, payload, data => data = payload
  | .ws, payload, data =>
    payload.length ≤ wsTxChunk ∧
      ∃ mask, mask.length = 4 ∧ data = midiWsBuildFrame midiWsOpBin payload mask

inductive Writes (transport : Transport) (pcb : Nat) : List LwipCall → List Bytes → Prop
  | nil : Writes transport pcb [] []
  | asked {made : List LwipCall} {payloads : List Bytes} (room : UInt16)
      (earlier : Writes transport pcb made payloads) :
      Writes transport pcb (made ++ [.sndbuf pcb room]) payloads
  | output {made : List LwipCall} {payloads : List Bytes}
      (earlier : Writes transport pcb made payloads) :
      Writes transport pcb (made ++ [.output pcb]) payloads
  | refused {made : List LwipCall} {payloads : List Bytes} (room : UInt16) (payload data : Bytes)
      (err : Err) (earlier : Writes transport pcb made payloads)
      (carries : transport.Carries payload data) (fits : data.length ≤ room.toNat)
      (error : err ≠ errOk) :
      Writes transport pcb (made ++ [.sndbuf pcb room, .write pcb data err]) payloads
  | taken {made : List LwipCall} {payloads : List Bytes} (room : UInt16) (payload data : Bytes)
      (earlier : Writes transport pcb made payloads)
      (carries : transport.Carries payload data) (fits : data.length ≤ room.toNat) :
      Writes transport pcb (made ++ [.sndbuf pcb room, .write pcb data errOk]) (payloads ++ [payload])

theorem Writes.append {transport : Transport} {pcb : Nat} {made later : List LwipCall}
    {payloads more : List Bytes} (first : Writes transport pcb made payloads)
    (second : Writes transport pcb later more) :
    Writes transport pcb (made ++ later) (payloads ++ more) := by
  induction second with
  | nil => simpa using first
  | asked room _ ih => simpa [List.append_assoc] using ih.asked room
  | output _ ih => simpa [List.append_assoc] using ih.output
  | refused room payload data err _ carries fits error ih =>
    simpa [List.append_assoc] using ih.refused room payload data err carries fits error
  | taken room payload data _ carries fits ih =>
    simpa [List.append_assoc] using ih.taken room payload data carries fits

namespace Firmware

variable (lwip : Lwip)

structure Carried (pcb : Nat) (taken : Bytes) (s after : Firmware) (made : List LwipCall)
    (payloads : List Bytes) : Prop where
  cfg : after.cfg = s.cfg
  link : after.link = s.link
  log : after.calls = s.calls ++ made
  writes : Writes s.cfg.transport pcb made payloads
  order : s.pending ++ taken = payloads.flatten ++ after.pending

theorem Carried.refl (pcb : Nat) (s : Firmware) : Carried pcb [] s s [] [] :=
  ⟨rfl, rfl, by simp, .nil, by simp⟩

theorem Carried.trans {pcb : Nat} {taken later : Bytes} {s middle after : Firmware}
    {made more : List LwipCall} {payloads further : List Bytes}
    (first : Carried pcb taken s middle made payloads)
    (second : Carried pcb later middle after more further) :
    Carried pcb (taken ++ later) s after (made ++ more) (payloads ++ further) where
  cfg := second.cfg.trans first.cfg
  link := second.link.trans first.link
  log := by rw [second.log, first.log, List.append_assoc]
  writes := first.writes.append (first.cfg ▸ second.writes)
  order := by
    rw [← List.append_assoc, first.order, List.append_assoc, second.order, List.flatten_append,
      List.append_assoc]

theorem writeRun_carried (pcb n : Nat) (room : UInt16) (data : Bytes) (s asked : Firmware)
    (cfg : asked.cfg = s.cfg) (link : asked.link = s.link) (queue : asked.outQueue = s.outQueue)
    (log : asked.calls = s.calls ++ [.sndbuf pcb room]) (some_ : s.outQueue.ring.isEmpty = false)
    (few : n ≤ s.outQueue.ring.contiguous) (positive : 0 < n)
    (carries : s.cfg.transport.Carries ((s.outQueue.ring.run n).map Cell.byte) data)
    (fits : data.length ≤ room.toNat) :
    ∃ made payloads, Carried pcb [] s (writeRun lwip pcb n data asked).1 made payloads ∧
      ((writeRun lwip pcb n data asked).2 = true →
        (writeRun lwip pcb n data asked).1.outQueue.ring.depth < s.outQueue.ring.depth) := by
  have within := s.outQueue.ring.contiguous_le some_
  unfold writeRun
  by_cases taken : lwip.tcpWrite asked.calls.length = errOk
  · have rest := s.outQueue.ring.contents_drop n (by omega)
    have shorter := congrArg List.length rest
    rw [Ring.contents_length, List.length_drop, Ring.contents_length] at shorter
    simp only [tcpWrite, taken, ne_eq, not_true_eq_false, if_false]
    refine ⟨[.sndbuf pcb room, .write pcb data errOk], _,
      ⟨cfg, link, ?_, Writes.nil.taken room _ data carries fits, ?_⟩, fun _ => ?_⟩
    · simp [call, log]
    · simp only [pending, Queue.contents, call, queue, rest, List.append_nil, List.nil_append,
        List.flatten_cons, List.flatten_nil, s.outQueue.ring.run_eq_take n some_ few]
      rw [← List.map_append, List.take_append_drop]
    · simp only [call, queue, shorter]
      omega
  · simp only [tcpWrite, taken, ne_eq, not_false_eq_true, if_true]
    refine ⟨[.sndbuf pcb room, .write pcb data (lwip.tcpWrite asked.calls.length)], [],
      ⟨cfg, link, ?_, Writes.nil.refused room _ data _ carries fits taken, ?_⟩, by simp⟩
    · simp [call, log]
    · simp [pending, call, queue]

theorem run_length (s : Firmware) (n : Nat) :
    ((s.outQueue.ring.run n).map Cell.byte).length = n := by
  simp [Ring.run]

theorem midiWsMaskKey_draws (s : Firmware) :
    ∃ mask masked, midiWsMaskKey s = (mask, masked) ∧ mask.length = 4 ∧ masked.cfg = s.cfg ∧
      masked.link = s.link ∧ masked.outQueue = s.outQueue ∧ masked.calls = s.calls :=
  ⟨_, _, rfl, rfl, rfl, rfl, rfl, rfl⟩

theorem buildFrame_length (payload mask : Bytes) (keySize : mask.length = 4)
    (bounded : payload.length ≤ wsTxChunk) :
    (midiWsBuildFrame midiWsOpBin payload mask).length ≤ payload.length + midiWsFrameOverhead := by
  unfold wsTxChunk at bounded
  exact clientFrame_length ⟨midiWsOpBin, payload, mask, by decide, by omega, keySize⟩

theorem flushOutTurn_carried (pcb : Nat) (s : Firmware) (some_ : s.outQueue.ring.isEmpty = false) :
    ∃ made payloads, Carried pcb [] s (flushOutTurn lwip pcb s).1 made payloads ∧
      ((flushOutTurn lwip pcb s).2 = true →
        (flushOutTurn lwip pcb s).1.outQueue.ring.depth < s.outQueue.ring.depth) := by
  obtain ⟨-, straight⟩ := s.outQueue.ring.contiguous_le some_
  unfold flushOutTurn
  generalize lwip.tcpSndbuf s.calls.length = room
  have asked : Carried pcb [] s (call (.sndbuf pcb room) s) [.sndbuf pcb room] [] :=
    ⟨rfl, rfl, rfl, Writes.nil.asked room, by simp [pending, call]⟩
  by_cases shut : room = 0
  · simp only [shut, if_true] at asked ⊢
    exact ⟨_, _, asked, by simp⟩
  have window : 0 < room.toNat := by
    apply Nat.pos_of_ne_zero
    intro zero
    exact shut (UInt16.toNat_inj.mp zero)
  simp only [shut, if_false]
  cases transport : s.cfg.transport with
  | ws =>
    have same : (call (.sndbuf pcb room) s).cfg.transport = .ws := transport
    simp only [same, if_true]
    by_cases narrow : room.toNat ≤ midiWsFrameOverhead
    · simp only [narrow, if_true]
      exact ⟨_, _, asked, by simp⟩
    · simp only [narrow, if_false]
      obtain ⟨mask, masked, drawn, keySize, cfg, link, queue, log⟩ := midiWsMaskKey_draws
        (call (.sndbuf pcb room) s)
      have kept : (call (.sndbuf pcb room) s).outQueue = s.outQueue := rfl
      obtain ⟨n, size⟩ : ∃ n, min s.outQueue.ring.contiguous
          (min (room.toNat - midiWsFrameOverhead) wsTxChunk) = n := ⟨_, rfl⟩
      have few : n ≤ s.outQueue.ring.contiguous := by omega
      have bounded : ((s.outQueue.ring.run n).map Cell.byte).length ≤ wsTxChunk := by
        rw [run_length]
        omega
      have long := buildFrame_length _ mask keySize bounded
      have positive : 0 < n := by
        unfold wsTxChunk at size
        omega
      rw [run_length] at long
      simp only [drawn, queue, kept, size]
      refine writeRun_carried lwip pcb n room _ s masked cfg link queue log some_ few positive ?_
        (Nat.le_trans long (by omega))
      rw [transport]
      exact ⟨bounded, mask, keySize, rfl⟩
  | tcp =>
    have same : ¬ (call (.sndbuf pcb room) s).cfg.transport = .ws := by
      change ¬ s.cfg.transport = .ws
      simp [transport]
    simp only [same, if_false]
    have most : min s.outQueue.ring.contiguous room.toNat ≤ room.toNat := Nat.min_le_right _ _
    refine writeRun_carried lwip pcb _ room _ s _ rfl rfl rfl rfl some_ (Nat.min_le_left _ _) ?_ ?_ ?_
    · exact Nat.lt_min.mpr ⟨straight, window⟩
    · rw [transport]
      rfl
    · rw [run_length]
      exact most

theorem flushOutLoop_carried (pcb fuel : Nat) (wrote : Bool) (s : Firmware)
    (enough : s.outQueue.ring.depth ≤ fuel) :
    ∃ made payloads, Carried pcb [] s (flushOutLoop lwip pcb fuel wrote s).2 made payloads ∧
      FlushLoop lwip pcb wrote s (flushOutLoop lwip pcb fuel wrote s).1
        (flushOutLoop lwip pcb fuel wrote s).2 := by
  induction fuel generalizing wrote s with
  | zero =>
    have empty : s.outQueue.ring.isEmpty = true := s.outQueue.ring.isEmpty_iff.mpr (by omega)
    exact ⟨_, _, .refl pcb s, .drained wrote s empty⟩
  | succ fuel ih =>
    unfold flushOutLoop
    cases empty : s.outQueue.ring.isEmpty with
    | true => exact ⟨_, _, .refl pcb s, .drained wrote s empty⟩
    | false =>
      obtain ⟨made, payloads, carried, shorter⟩ := flushOutTurn_carried lwip pcb s empty
      simp only [Bool.false_eq_true, if_false]
      split
      next middle turn =>
        rw [turn] at carried shorter
        have fewer := shorter rfl
        obtain ⟨more, further, later, loops⟩ := ih true middle (by simp only at fewer; omega)
        exact ⟨_, _, carried.trans later, .goesOn wrote s middle _ _ empty turn loops⟩
      next after turn =>
        rw [turn] at carried
        exact ⟨_, _, carried, .breaks wrote s after empty turn⟩

theorem midiNetFlushOut_carried (pcb : Nat) (s : Firmware) (held : s.link.netPcb = some pcb) :
    ∃ made payloads, Carried pcb [] s (midiNetFlushOut lwip s) made payloads ∧
      Drains lwip s (midiNetFlushOut lwip s) := by
  unfold midiNetFlushOut Drains
  rw [held]
  cases s.link.netState with
  | down | connecting | wsHandshake => exact ⟨_, _, .refl pcb s, rfl⟩
  | up =>
    obtain ⟨made, payloads, carried, loops⟩ :=
      flushOutLoop_carried lwip pcb s.outQueue.ring.depth false s (Nat.le_refl _)
    simp only
    generalize flushOutLoop lwip pcb s.outQueue.ring.depth false s = ended at carried loops ⊢
    obtain ⟨wrote, looped⟩ := ended
    cases wrote with
    | false => exact ⟨_, _, carried, false, looped, loops, rfl⟩
    | true =>
      refine ⟨made ++ [.output pcb], payloads,
        ⟨carried.cfg, carried.link, ?_, carried.writes.output, carried.order⟩,
        true, looped, loops, rfl⟩
      rw [← List.append_assoc, ← carried.log]
      rfl

theorem isFull_pending (s : Firmware) :
    s.outQueue.ring.isFull = true ↔ s.pending.length = 16383 := by
  have size : (2 : Nat) ^ queueBits = 16384 := by decide
  rw [pending, List.length_map, Queue.contents, Ring.contents_length, Ring.isFull_iff, size]
  omega

theorem midiNetSendByte_carried (pcb : Nat) (b : UInt8) (s : Firmware) :
    Carried pcb (acceptedBy s (.send b)) s (midiNetSendByte b s) [] [] := by
  refine ⟨rfl, rfl, by simp [midiNetSendByte], .nil, ?_⟩
  unfold acceptedBy midiNetSendByte pending Queue.push Queue.contents
  cases full : s.outQueue.ring.isFull with
  | true => simp
  | false => simp [s.outQueue.ring.contents_push _ full]

theorem outStep_carried (pcb : Nat) (s : Firmware) (held : s.link.netPcb = some pcb)
    (step : OutStep) :
    ∃ made payloads, Carried pcb (acceptedBy s step) s (outStep lwip s step) made payloads := by
  cases step with
  | send b => exact ⟨_, _, midiNetSendByte_carried pcb b s⟩
  | drain =>
    obtain ⟨made, payloads, carried, -⟩ := midiNetFlushOut_carried lwip pcb s held
    exact ⟨made, payloads, carried⟩

theorem outRun_carried (pcb : Nat) (s : Firmware) (held : s.link.netPcb = some pcb)
    (steps : List OutStep) :
    ∃ made payloads,
      Carried pcb (accepted lwip s steps) s (outRun lwip s steps) made payloads := by
  induction steps generalizing s with
  | nil => exact ⟨_, _, .refl pcb s⟩
  | cons step rest ih =>
    obtain ⟨made, payloads, first⟩ := outStep_carried lwip pcb s held step
    obtain ⟨more, further, later⟩ := ih (outStep lwip s step) (by rw [first.link]; exact held)
    exact ⟨_, _, first.trans later⟩

end Firmware

def Transport.Arrives (transport : Transport) (stream : Bytes) (payloads : List Bytes) : Prop :=
  match transport with
  | .tcp => stream = payloads.flatten
  | .ws => ∀ chunks : List Bytes, chunks.flatten = stream →
      ({} : Ws.FrameDecoder).feedAll chunks =
        ({}, .ok (payloads.map fun payload => (Ws.opBinary, payload)))

theorem Writes.plain {pcb : Nat} {made : List LwipCall} {payloads : List Bytes}
    (writes : Writes .tcp pcb made payloads) : made.filterMap LwipCall.taken = payloads := by
  induction writes with
  | nil => rfl
  | asked room _ ih => simpa [List.filterMap_cons, LwipCall.taken] using ih
  | output _ ih => simpa [List.filterMap_cons, LwipCall.taken] using ih
  | refused room payload data err _ carries fits error ih => simpa [List.filterMap_cons, LwipCall.taken, error] using ih
  | taken room payload data _ carries fits ih =>
    obtain rfl : data = payload := carries
    simpa [List.filterMap_cons, LwipCall.taken] using ih

theorem Writes.frames {pcb : Nat} {made : List LwipCall} {payloads : List Bytes}
    (writes : Writes .ws pcb made payloads) :
    ∃ frames : List ClientFrame, made.filterMap LwipCall.taken = frames.map ClientFrame.build ∧
      (frames.map fun frame => (frame.opcode.toNat, frame.payload)) =
        payloads.map fun payload => (Ws.opBinary, payload) := by
  induction writes with
  | nil => exact ⟨[], rfl, rfl⟩
  | asked room _ ih => simpa [List.filterMap_cons, LwipCall.taken] using ih
  | output _ ih => simpa [List.filterMap_cons, LwipCall.taken] using ih
  | refused room payload data err _ carries fits error ih => simpa [List.filterMap_cons, LwipCall.taken, error] using ih
  | taken room payload data _ carries fits ih =>
    obtain ⟨frames, logged, decoded⟩ := ih
    obtain ⟨bounded, mask, keySize, rfl⟩ := carries
    unfold wsTxChunk at bounded
    refine ⟨frames ++ [⟨midiWsOpBin, payload, mask, by decide, by omega, keySize⟩], ?_, ?_⟩
    · simp [List.filterMap_cons, LwipCall.taken, logged, ClientFrame.build]
    · simp [decoded]
      rfl

theorem Writes.arrives {transport : Transport} {pcb : Nat} {made : List LwipCall}
    {payloads : List Bytes} (writes : Writes transport pcb made payloads) :
    transport.Arrives (made.filterMap LwipCall.taken).flatten payloads := by
  cases transport with
  | tcp => exact congrArg List.flatten writes.plain
  | ws =>
    obtain ⟨frames, logged, decoded⟩ := writes.frames
    intro chunks cut
    rw [logged] at cut
    rw [clientFrames_decoded frames chunks cut, decoded]

def Framed (transport : Transport) (pcb : Nat) (made : List LwipCall) : Prop :=
  ∀ earlier later id data err, made = earlier ++ .write id data err :: later →
    id = pcb ∧ (∃ before room, earlier = before ++ [.sndbuf pcb room] ∧ data.length ≤ room.toNat) ∧
      (transport = .ws → ∃ payload mask, Ws.encodeFrame Ws.opBinary payload (some mask) = .ok data)

theorem Transport.Carries.encoded {payload data : Bytes} (carries : Transport.ws.Carries payload data) :
    ∃ payload mask, Ws.encodeFrame Ws.opBinary payload (some mask) = .ok data := by
  obtain ⟨bounded, mask, keySize, rfl⟩ := carries
  unfold wsTxChunk at bounded
  exact ⟨payload, mask, clientFrame_encoded ⟨midiWsOpBin, payload, mask, by decide, by omega, keySize⟩⟩

theorem Framed.other {transport : Transport} {pcb : Nat} {made : List LwipCall} (c : LwipCall)
    (framed : Framed transport pcb made) (other : ∀ id data err, c ≠ .write id data err) :
    Framed transport pcb (made ++ [c]) := by
  intro earlier later id data err split
  rcases concat_split made earlier later c _ split with ⟨-, same, -⟩ | ⟨rest, -, front⟩
  · exact absurd same.symm (other id data err)
  · exact framed earlier rest id data err front

theorem Framed.write {transport : Transport} {pcb : Nat} {made : List LwipCall} (room : UInt16)
    (payload data : Bytes) (err : Err) (framed : Framed transport pcb made)
    (carries : transport.Carries payload data) (fits : data.length ≤ room.toNat) :
    Framed transport pcb (made ++ [.sndbuf pcb room, .write pcb data err]) := by
  intro earlier later id data' err' split
  have asked := framed.other (.sndbuf pcb room) (by simp)
  rw [List.append_cons] at split
  rcases concat_split _ earlier later _ _ split with ⟨-, same, rfl⟩ | ⟨rest, -, front⟩
  · obtain ⟨rfl, rfl, -⟩ := LwipCall.write.inj same
    refine ⟨rfl, ⟨made, room, rfl, fits⟩, ?_⟩
    rintro rfl
    exact carries.encoded
  · exact asked earlier rest id data' err' front

theorem Writes.framed {transport : Transport} {pcb : Nat} {made : List LwipCall}
    {payloads : List Bytes} (writes : Writes transport pcb made payloads) :
    Framed transport pcb made := by
  induction writes with
  | nil =>
    intro earlier later id data err split
    simp at split
  | asked room _ ih => exact ih.other (.sndbuf pcb room) (by simp)
  | output _ ih => exact ih.other (.output pcb) (by simp)
  | refused room payload data err _ carries fits _ ih => exact ih.write room payload data err carries fits
  | taken room payload data _ carries fits ih => exact ih.write room payload data errOk carries fits

namespace Firmware

variable (lwip : Lwip)

theorem outRun_append (s : Firmware) (before later : List OutStep) :
    outRun lwip s (before ++ later) = outRun lwip (outRun lwip s before) later :=
  List.foldl_append

theorem outRun_lossless (s : Firmware) (pcb : Nat) (held : s.link.netPcb = some pcb)
    (steps : List OutStep) :
    ∃ made payloads,
      (outRun lwip s steps).calls = s.calls ++ made ∧
      s.pending ++ accepted lwip s steps = payloads.flatten ++ (outRun lwip s steps).pending ∧
      s.cfg.transport.Arrives (made.filterMap LwipCall.taken).flatten payloads ∧
      Framed s.cfg.transport pcb made ∧
      (∀ before b later, steps = before ++ .send b :: later →
        (outRun lwip s (before ++ [.send b])).pending ≠ (outRun lwip s before).pending ++ [b] →
          (outRun lwip s before).pending.length = 16383) ∧
      ∀ before later, steps = before ++ .drain :: later →
        Drains lwip (outRun lwip s before) (outRun lwip s (before ++ [.drain])) := by
  obtain ⟨made, payloads, carried⟩ := outRun_carried lwip pcb s held steps
  refine ⟨made, payloads, carried.log, carried.order, carried.writes.arrives, carried.writes.framed,
    fun before b later _ refused => ?_, fun before later _ => ?_⟩
  · apply (isFull_pending _).mp
    by_contra room
    have sent := (midiNetSendByte_carried pcb b (outRun lwip s before)).order
    rw [acceptedBy, if_neg room, List.flatten_nil, List.nil_append] at sent
    rw [outRun_append, sent] at refused
    exact refused rfl
  · obtain ⟨_, _, reached⟩ := outRun_carried lwip pcb s held before
    obtain ⟨_, _, -, drains⟩ := midiNetFlushOut_carried lwip pcb (outRun lwip s before)
      (by rw [reached.link]; exact held)
    rw [outRun_append]
    exact drains

def upgraded : Firmware :=
  { cfg := { transport := .ws }, link := { netState := .up, netPcb := some 0 } }

theorem outRun_lossless_kept :
    ∃ (made : List LwipCall) (payloads : List Bytes),
      (outRun willing upgraded [.send 0x90, .drain, .send 0x3C]).calls = made ∧
      [0x90, 0x3C] =
        payloads.flatten ++ (outRun willing upgraded [.send 0x90, .drain, .send 0x3C]).pending ∧
      Framed .ws 0 made := by
  obtain ⟨made, payloads, log, order, -, framed, -⟩ :=
    outRun_lossless willing upgraded 0 rfl [.send 0x90, .drain, .send 0x3C]
  have taken : accepted willing upgraded [.send 0x90, .drain, .send 0x3C] = [0x90, 0x3C] := by
    decide +kernel
  rw [taken] at order
  exact ⟨made, payloads, log, order, framed⟩

end Firmware

end MidiToIp.Midi
