import Mathlib.Data.List.Basic
import MidiToIp.Midi.Link
import MidiToIp.Shared.Machine
import MidiToIp.WebSocket.MidiWsStream
import MidiToIp.WebSocket.Ws

set_option autoImplicit false

namespace MidiToIp.Midi

open Octets Rings MidiWs Machines

theorem concat_split {A : Type} (front earlier later : List A) (last item : A)
    (split : front ++ [last] = earlier ++ item :: later) :
    later = [] ∧ item = last ∧ earlier = front ∨
      ∃ rest, later = rest ++ [last] ∧ front = earlier ++ item :: rest := by
  rcases List.eq_nil_or_concat later with rfl | ⟨rest, c, rfl⟩
  · obtain ⟨same, tail⟩ := List.append_inj' split rfl
    exact .inl ⟨rfl, (List.cons.inj tail).1.symm, same.symm⟩
  · rw [List.concat_eq_append] at split ⊢
    rw [← List.cons_append, ← List.append_assoc] at split
    obtain ⟨same, tail⟩ := List.append_inj' split rfl
    obtain rfl := (List.cons.inj tail).1
    exact .inr ⟨rest, rfl, same⟩

def Link.dropped (link : Link) : Link :=
  { link with netPcb := none, pcbs := link.pcbs.filter fun p => some p.id != link.netPcb }

def Link.opened (link : Link) (towards : Bytes) : Link :=
  { link with
    netState := .connecting
    netPcb := some link.fresh
    pcbs := link.pcbs ++ [⟨link.fresh, towards⟩]
    fresh := link.fresh + 1 }

namespace Firmware

variable (lwip : Lwip)

def afterDrop (s : Firmware) (link : Link) (calls : List LwipCall) : Firmware :=
  { s with
    link := { link with netState := .down, session := link.session + 1 }
    inQueue := s.inQueue.flush.stamp s.now
    outQueue := s.outQueue.flush.stamp s.now
    shared := s.shared.writeAll (midiInPublish s.inQueue.flush.ring)
    wsDec := midiWsDecoderInit
    wsHsBuf := []
    calls := calls }

theorem midiNetReset_effect (s : Firmware) :
    ∃ calls, midiNetReset lwip s = s.afterDrop s.link.dropped calls := by
  unfold midiNetReset dropPcb
  cases held : s.link.netPcb with
  | none =>
    have same : s.link.dropped = s.link := by
      cases link : s.link
      simp_all [Link.dropped]
    exact ⟨s.calls, by rw [same]; rfl⟩
  | some pcb =>
    have agree (p : Pcb) : (some p.id != some pcb) = (p.id != pcb) := by
      rw [Bool.eq_iff_iff]
      simp
    have same : s.link.dropped =
        { s.link with netPcb := none, pcbs := s.link.pcbs.filter fun p => p.id != pcb } := by
      simp [Link.dropped, held, agree]
    rw [same]
    by_cases closed : lwip.tcpClose s.calls.length = errOk
    · simp only [closed, ne_eq, not_true_eq_false, if_false]
      exact ⟨_, rfl⟩
    · simp only [closed, ne_eq, not_false_eq_true, if_true]
      exact ⟨_, rfl⟩

theorem midiNetErrCb_effect (s : Firmware) :
    midiNetErrCb s = s.afterDrop { s.link with netPcb := none } s.calls := rfl

theorem midiWsSendFrame_effect (opcode : UInt8) (payload : Bytes) (s : Firmware) :
    ∃ rand calls, midiWsSendFrame lwip opcode payload s =
      { s with wsRand := rand, calls := calls } := by
  unfold midiWsSendFrame
  cases s.link.netPcb with
  | none => exact ⟨s.wsRand, s.calls, rfl⟩
  | some pcb =>
    simp only [tcpWrite]
    by_cases taken : lwip.tcpWrite (midiWsMaskKey s).2.calls.length = errOk
    · simp only [taken, if_true]
      exact ⟨_, _, rfl⟩
    · simp only [taken, if_false]
      exact ⟨_, _, rfl⟩

theorem midiWsOnData_effect (pcb : Nat) (p : Bytes) (s : Firmware) :
    midiWsOnData pcb p s =
      { s with inQueue := p.foldl (fun queue b => queue.push ⟨b, pcb⟩ s.now) s.inQueue } := by
  induction p generalizing s with
  | nil => rfl
  | cons b rest ih =>
    rw [midiWsOnData, List.foldl_cons, ← midiWsOnData, ih]
    rfl

theorem nonce_effect (n : Nat) (s : Firmware) : ∃ rand, (nonce n s).2 = { s with wsRand := rand } := by
  induction n generalizing s with
  | zero => exact ⟨s.wsRand, rfl⟩
  | succ n ih =>
    obtain ⟨rand, later⟩ := ih (midiWsNextRand s).2
    exact ⟨rand, by rw [nonce]; exact later⟩

theorem sendUpgrade_effect (req : Bytes) (s : Firmware) :
    ∃ calls, sendUpgrade lwip req s = { s with calls := calls } ∨
      sendUpgrade lwip req s = s.afterDrop s.link.dropped calls := by
  have dropped (calls : List LwipCall) :
      ∃ after, midiNetReset lwip { s with calls := calls } = s.afterDrop s.link.dropped after :=
    midiNetReset_effect lwip { s with calls := calls }
  unfold sendUpgrade
  cases held : s.link.netPcb with
  | none =>
    obtain ⟨calls, eq⟩ := dropped s.calls
    exact ⟨calls, .inr eq⟩
  | some pcb =>
    simp only [tcpWrite]
    by_cases long : req.length ≥ 512
    · simp only [long, if_true]
      obtain ⟨calls, eq⟩ := dropped s.calls
      exact ⟨calls, .inr eq⟩
    simp only [long, if_false]
    by_cases taken : lwip.tcpWrite s.calls.length = errOk
    · simp only [taken, ne_eq, not_true_eq_false, if_false]
      exact ⟨_, .inl rfl⟩
    · simp only [taken, ne_eq, not_false_eq_true, if_true]
      obtain ⟨calls, eq⟩ := dropped (s.calls ++ [.write pcb req (lwip.tcpWrite s.calls.length)])
      exact ⟨calls, .inr eq⟩

theorem midiWsStartHandshake_effect (s : Firmware) :
    ∃ rand key calls,
      midiWsStartHandshake lwip s =
          { s with
            wsRand := rand, wsKey := key, wsDec := midiWsDecoderInit, wsHsBuf := [],
            link := { s.link with netState := .wsHandshake }, calls := calls } ∨
        midiWsStartHandshake lwip s =
          { s with wsRand := rand, wsKey := key }.afterDrop s.link.dropped calls := by
  obtain ⟨rand, drawn⟩ := nonce_effect 16 s
  refine ⟨rand, midiWsBase64 (nonce 16 s).1, ?_⟩
  unfold midiWsStartHandshake
  simp only [drawn]
  exact sendUpgrade_effect lwip _ _

def connects (s : Firmware) : Prop :=
  lwip.tcpNew s.calls.length = true ∧ lwip.tcpConnect (s.calls.length + 1) = errOk

instance (s : Firmware) : Decidable (connects lwip s) :=
  inferInstanceAs (Decidable (_ ∧ _))

theorem midiNetConnectTo_effect (ip : IpAddr) (towards : Bytes) (s : Firmware) :
    ∃ calls,
      connects lwip s ∧
          midiNetConnectTo lwip ip towards s =
            { s with link := s.link.opened towards, calls := calls } ∨
        ¬ connects lwip s ∧ ∃ link, (link = s.link.opened towards ∨ link = { s.link with netPcb := none }) ∧
          midiNetConnectTo lwip ip towards s = s.afterDrop link.dropped calls := by
  unfold midiNetConnectTo connects
  by_cases allocated : lwip.tcpNew s.calls.length = true
  · have count : (s.calls ++ [LwipCall.new (some s.link.fresh)]).length = s.calls.length + 1 := by simp
    simp only [allocated, if_true, call, count]
    generalize answer : lwip.tcpConnect (s.calls.length + 1) = err
    by_cases taken : err = errOk
    · rw [if_neg (by simp [taken])]
      exact ⟨_, .inl ⟨⟨trivial, taken⟩, rfl⟩⟩
    · rw [if_pos taken]
      obtain ⟨calls, effect⟩ := midiNetReset_effect lwip { s with
        link := s.link.opened towards
        calls := s.calls ++ [.new (some s.link.fresh)] ++ [.connect s.link.fresh ip s.cfg.port err] }
      exact ⟨calls, .inr ⟨fun both => taken both.2, _, .inl rfl, effect⟩⟩
  · simp only [allocated, if_false, call, Bool.false_eq_true]
    obtain ⟨calls, effect⟩ := midiNetReset_effect lwip { s with
      link := { s.link with netPcb := none }, calls := s.calls ++ [.new none] }
    exact ⟨calls, .inr ⟨fun both => both.1, _, .inr rfl, effect⟩⟩

theorem publish_effect (s : Firmware) :
    ∃ shared, publish s = { s with shared := shared } ∧
      shared.inOrigin = s.inQueue.contents.head? :=
  ⟨_, rfl, publish_origin s.inQueue.ring s.shared⟩

theorem advance_effect (s : Firmware) :
    ∃ shared,
      advance s =
          { s with
            consumed :=
              s.consumed ++ (s.inQueue.contents.head?.toList.map fun c => (c, s.link.netPcb))
            inQueue := { ring := s.inQueue.ring.pop, lastDrain := s.now }
            inAck := s.inAck + 1, shared := shared } ∧
        shared.inOrigin = s.inQueue.contents.tail.head? := by
  obtain ⟨shared, effect, origin⟩ := publish_effect { s with
    consumed := s.consumed ++ (s.inQueue.contents.head?.toList.map fun c => (c, s.link.netPcb))
    inQueue := { ring := s.inQueue.ring.pop, lastDrain := s.now } }
  refine ⟨shared.write (.ack (s.inAck + 1)), ?_, ?_⟩
  · unfold advance
    rw [← s.inQueue.ring.contents_head?]
    simp only [Queue.contents] at effect
    simp only [effect, Queue.contents]
  · rw [Queue.contents, ← s.inQueue.ring.contents_pop]
    exact origin

theorem flushed_origin (s : Firmware) :
    (s.shared.writeAll (midiInPublish s.inQueue.flush.ring)).inOrigin = none := by
  rw [publish_origin]
  exact congrArg List.head? s.inQueue.contents_flush

theorem cleanupIn_effect (s : Firmware) :
    ∃ queue shared,
      cleanupIn s = { s with inQueue := queue, shared := shared } ∧
        (queue = s.inQueue ∧ shared = s.shared ∨ queue.contents = [] ∧ shared.inOrigin = none) := by
  unfold cleanupIn
  split
  · exact ⟨s.inQueue.flush.stamp s.now, _, rfl, .inr ⟨by simp, flushed_origin s⟩⟩
  · exact ⟨_, _, rfl, .inl ⟨rfl, rfl⟩⟩

theorem cleanupOut_effect (s : Firmware) :
    ∃ queue, cleanupOut s = { s with outQueue := queue } ∧
      (queue = s.outQueue ∨ queue.contents = []) := by
  unfold cleanupOut
  split
  · exact ⟨_, rfl, .inr (by simp)⟩
  · exact ⟨_, rfl, .inl rfl⟩

def Sent (s after : Firmware) : Prop :=
  ∃ rand calls queue k,
    after =
        { s with
          wsRand := rand, calls := calls, outQueue := queue
          written := s.written ++ (s.outQueue.contents.take k).map fun c => (c, s.link.session) } ∧
      queue.contents = s.outQueue.contents.drop k

theorem Sent.none (s : Firmware) (rand : UInt32) (calls : List LwipCall) :
    Sent s { s with wsRand := rand, calls := calls } :=
  ⟨rand, calls, s.outQueue, 0, by simp, by simp⟩

theorem Sent.trans (s middle after : Firmware) (first : Sent s middle) (second : Sent middle after) :
    Sent s after := by
  obtain ⟨_, _, _, k, rfl, rest⟩ := first
  obtain ⟨rand, calls, queue, k', rfl, rest'⟩ := second
  refine ⟨rand, calls, queue, k + k', ?_, ?_⟩
  · simp [rest, List.take_add]
  · simp [rest', rest, List.drop_drop]

theorem writeRun_effect (pcb n : Nat) (data : Bytes) (s : Firmware)
    (some_ : s.outQueue.ring.isEmpty = false) (few : n ≤ s.outQueue.ring.contiguous) :
    Sent s (writeRun lwip pcb n data s).1 := by
  have within := s.outQueue.ring.contiguous_le some_
  unfold writeRun
  by_cases taken : lwip.tcpWrite s.calls.length = errOk
  · simp only [tcpWrite, taken, ne_eq, not_true_eq_false, if_false]
    refine ⟨s.wsRand, s.calls ++ [.write pcb data errOk],
      { s.outQueue with ring := s.outQueue.ring.drop n }, n, ?_, ?_⟩
    · simp only [call, s.outQueue.ring.run_eq_take n some_ few]
      rfl
    · exact s.outQueue.ring.contents_drop n (by omega)
  · simp only [tcpWrite, taken, ne_eq, not_false_eq_true, if_true]
    exact Sent.none s s.wsRand _

theorem flushOutTurn_effect (pcb : Nat) (s : Firmware) (some_ : s.outQueue.ring.isEmpty = false) :
    Sent s (flushOutTurn lwip pcb s).1 := by
  have asked : Sent s (call (.sndbuf pcb (lwip.tcpSndbuf s.calls.length)) s) :=
    Sent.none s s.wsRand _
  unfold flushOutTurn
  simp only
  split
  · exact asked
  split
  · split
    · exact asked
    · refine Sent.trans s _ _ (Sent.none s _ _) (writeRun_effect lwip pcb _ _ _ some_ ?_)
      exact Nat.min_le_left _ _
  · refine Sent.trans s _ _ asked (writeRun_effect lwip pcb _ _ _ some_ ?_)
    exact Nat.min_le_left _ _

theorem flushOutLoop_effect (pcb fuel : Nat) (wrote : Bool) (s : Firmware) :
    Sent s (flushOutLoop lwip pcb fuel wrote s).2 := by
  induction fuel generalizing wrote s with
  | zero => exact Sent.none s s.wsRand s.calls
  | succ fuel ih =>
    unfold flushOutLoop
    cases empty : s.outQueue.ring.isEmpty with
    | true => exact Sent.none s s.wsRand s.calls
    | false =>
      have turn := flushOutTurn_effect lwip pcb s empty
      simp only [Bool.false_eq_true, if_false]
      split
      next after took =>
        rw [took] at turn
        exact Sent.trans s after _ turn (ih true after)
      next after took =>
        rw [took] at turn
        exact turn

theorem midiNetFlushOut_effect (s : Firmware) : Sent s (midiNetFlushOut lwip s) := by
  unfold midiNetFlushOut
  split
  next pcb _ _ =>
    obtain ⟨rand, calls, queue, k, loop, rest⟩ :=
      flushOutLoop_effect lwip pcb s.outQueue.ring.depth false s
    simp only
    split
    · rw [loop]
      exact ⟨rand, _, queue.stamp s.now, k, rfl, by simpa using rest⟩
    · exact ⟨rand, calls, queue, k, loop, rest⟩
  next => exact Sent.none s s.wsRand s.calls

end Firmware

def linkMachine (lwip : Lwip) : Machine Firmware Event := ⟨Firmware.next lwip⟩

def willing : Lwip where
  ipaddrAton _ := some 0x0A000001
  tcpNew _ := true
  tcpConnect _ := errOk
  tcpWrite _ := errOk
  tcpClose _ := errOk
  tcpSndbuf _ := 1024
  dnsGethostbyname _ := (errOk, 0x0A000001)

def wsSettings : Settings := ⟨some [("MIDI_TRANSPORT", ascii "ws")]⟩

def bootResponse : Bytes := Ws.handshakeResponse (ascii "jFC9RQjXu9GKn6KTbg97EbBOeaM=")

end MidiToIp.Midi
