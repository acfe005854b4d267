import MidiToIp.Midi.OutSide
import MidiToIp.Midi.Upgrade
import MidiToIp.Orchestrator.Receive
import MidiToIp.WebSocket.WsRoundTrip

set_option autoImplicit false

namespace MidiToIp.System

open Octets Machines MidiWs Midi Orchestrator

abbrev ClientStream := List (Ws.CodedFrame Ws.defaultMaxPayload)

def ClientStream.wire (frames : ClientStream) : Bytes := (frames.map Ws.CodedFrame.wire).flatten

def ClientStream.data (frames : ClientStream) : Bytes := payloads (frames.map Ws.CodedFrame.decoded)

def ClientStream.Plain (frames : ClientStream) : Prop :=
  ∀ frame ∈ frames, (frame.opcode = Ws.opBinary ∨ frame.opcode = Ws.opPong) ∧ frame.payload.length ≤ 4096

def taken (calls : List LwipCall) : Bytes := (calls.filterMap LwipCall.taken).flatten

theorem frameHeader_length (opcode : Nat) (maskBit : UInt8) (n : Nat) : (Ws.frameHeader opcode maskBit n).length ≤ 10 := by
  unfold Ws.frameHeader
  split_ifs <;> simp

theorem wire_length (frame : Ws.CodedFrame Ws.defaultMaxPayload) :
    frame.payload.length ≤ frame.wire.length ∧ frame.wire.length ≤ frame.payload.length + 14 := by
  unfold Ws.CodedFrame.wire
  cases masked : frame.maskKey with
  | none =>
    have header := frameHeader_length frame.opcode 0x00 frame.payload.length
    simp only [List.length_append]
    omega
  | some key =>
    have header := frameHeader_length frame.opcode 0x80 frame.payload.length
    have size := frame.keySize key masked
    simp only [List.length_append, Ws.maskPayload_length]
    omega

namespace ClientStream

theorem wire_append (first second : ClientStream) : wire (first ++ second) = wire first ++ wire second := by
  simp [wire]

theorem Plain.open {frames : ClientStream} (plain : frames.Plain) :
    ¬ ∃ frame ∈ frames.map Ws.CodedFrame.decoded, frame.1 = Ws.opClose := by
  rintro ⟨frame, member, closing⟩
  obtain ⟨coded, listed, rfl⟩ := List.mem_map.mp member
  rcases (plain coded listed).1 with same | same
  · exact absurd (same.symm.trans closing) (by decide)
  · exact absurd (same.symm.trans closing) (by decide)

theorem Plain.append {first second : ClientStream} (plain : Plain (first ++ second)) :
    first.Plain ∧ second.Plain :=
  ⟨fun frame member => plain frame (List.mem_append_left _ member),
    fun frame member => plain frame (List.mem_append_right _ member)⟩

theorem data_append {first : ClientStream} (plain : first.Plain) (second : ClientStream) :
    data (first ++ second) = first.data ++ second.data := by
  rw [data, List.map_append, payloads_append, if_neg plain.open]
  rfl

theorem data_length {frames : ClientStream} (plain : frames.Plain) : frames.data.length ≤ frames.wire.length := by
  induction frames with
  | nil => simp [data, payloads, wire]
  | cons frame rest ih =>
    have alone : Plain [frame] :=
      fun other member => plain other (List.mem_cons.mpr (.inl (List.mem_singleton.mp member)))
    have whole := data_append alone rest
    have later := ih fun other member => plain other (List.mem_cons_of_mem _ member)
    have first : data [frame] = payloadOf frame.decoded ∨ data [frame] = [] := by
      by_cases closing : frame.decoded.1 = Ws.opClose <;> simp [data, payloads, closing]
    have one : (data [frame]).length ≤ frame.wire.length := by
      have size := (wire_length frame).1
      rcases first with same | same
      · rw [same, payloadOf]
        split_ifs
        · exact size
        · simp
      · simp [same]
    have wires : wire (frame :: rest) = frame.wire ++ wire rest := by simp [wire]
    rw [List.singleton_append] at whole
    rw [whole, wires, List.length_append, List.length_append]
    omega

theorem scanned_part (frames : ClientStream) (buffer : Bytes) (part : buffer <+: frames.wire) :
    ∃ done todo : ClientStream, ∃ tail, frames = done ++ todo ∧ buffer = done.wire ++ tail ∧
      scanned buffer = ⟨done.map Ws.CodedFrame.decoded, tail, none⟩ ∧
      todo.head?.elim (tail = []) fun upcoming => tail <+: upcoming.wire ∧ tail ≠ upcoming.wire :=
  (Ws.scanner Ws.defaultMaxPayload).drain_encoded_part Ws.CodedFrame.wire Ws.CodedFrame.decoded Ws.CodedFrame.next_wire
    (Ws.next_nil Ws.defaultMaxPayload) frames buffer part

end ClientStream

theorem payloads_binary (datas : List Bytes) :
    payloads (datas.map fun data => (Ws.opBinary, data)) = datas.flatten := by
  have open_ : ¬ ∃ frame ∈ datas.map fun data => (Ws.opBinary, data), frame.1 = Ws.opClose := by
    rintro ⟨frame, member, closing⟩
    obtain ⟨data, -, rfl⟩ := List.mem_map.mp member
    exact absurd (show Ws.opBinary = Ws.opClose from closing) (by decide)
  rw [payloads_open _ open_, List.flatMap_map]
  simp [payloadOf, List.flatMap_id']

theorem firmware_stream {pcb : Nat} {made : List LwipCall} {datas : List Bytes}
    (writes : Writes .ws pcb made datas) :
    ∃ frames : ClientStream, taken made = frames.wire ∧ frames.Plain ∧ frames.data = datas.flatten := by
  have coded : ∃ frames : ClientStream, made.filterMap LwipCall.taken = frames.map Ws.CodedFrame.wire ∧
      frames.Plain ∧ frames.map Ws.CodedFrame.decoded = datas.map fun data => (Ws.opBinary, data) := by
    induction writes with
    | nil => exact ⟨[], rfl, by simp [ClientStream.Plain], rfl⟩
    | asked room _ ih => simpa [List.filterMap_cons, LwipCall.taken] using ih
    | output _ ih => simpa [List.filterMap_cons, LwipCall.taken] using ih
    | refused room payload data err _ carries fits error ih =>
      simpa [List.filterMap_cons, LwipCall.taken, error] using ih
    | taken room payload data _ carries fits ih =>
      obtain ⟨frames, logged, plain, decoded⟩ := ih
      obtain ⟨bounded, mask, keySize, rfl⟩ := carries
      unfold wsTxChunk at bounded
      have small : payload.length ≤ Ws.defaultMaxPayload := bounded.trans (by decide)
      let frame : Ws.CodedFrame Ws.defaultMaxPayload :=
        ⟨Ws.opBinary, payload, some mask, by decide, small, by omega, by simpa using keySize⟩
      have built : frame.wire = midiWsBuildFrame midiWsOpBin payload mask :=
        (clientHeader ⟨midiWsOpBin, payload, mask, by decide, by omega, keySize⟩).symm
      refine ⟨frames ++ [frame], ?_, ?_, ?_⟩
      · simp [List.filterMap_cons, LwipCall.taken, logged, built]
      · intro other member
        rcases List.mem_append.mp member with earlier | last
        · exact plain other earlier
        · rw [List.mem_singleton.mp last]
          exact ⟨.inl rfl, Nat.le_trans bounded (by decide)⟩
      · simp [decoded, frame, Ws.CodedFrame.decoded]
  obtain ⟨frames, logged, plain, decoded⟩ := coded
  exact ⟨frames, congrArg List.flatten logged, plain, by rw [ClientStream.data, decoded, payloads_binary]⟩

section Firmware

variable (lwip : Lwip) (pcb : Nat)

/-- A firmware and its Atari on a link that stays up: what has come from the peer, what the Atari has popped,
and what it has put out. Neither ring fills, and no poll finds one of them stale. -/
inductive Session (base : Firmware) : Firmware → Bytes → Bytes → Bytes → Prop
  | start : Session base base [] [] []
  | chain {s : Firmware} {stream popped given : Bytes} (buffers : List Bytes)
      (earlier : Session base s stream popped given)
      (up : (s.midiNetRecvCb lwip pcb (some buffers) errOk).2.link.netState = .up)
      (room : (s.midiNetRecvCb lwip pcb (some buffers) errOk).2.inQueue.contents.length < 2 ^ queueBits - 1) :
      Session base (s.midiNetRecvCb lwip pcb (some buffers) errOk).2 (stream ++ buffers.flatten) popped given
  | advance {s : Firmware} {stream popped given : Bytes} (earlier : Session base s stream popped given) :
      Session base s.advance stream (popped ++ s.inQueue.contents.head?.toList.map Cell.byte) given
  | send {s : Firmware} {stream popped given : Bytes} (b : UInt8) (earlier : Session base s stream popped given)
      (room : s.outQueue.ring.isFull = false) : Session base (s.midiNetSendByte b) stream popped (given ++ [b])
  | poll {s : Firmware} {stream popped given : Bytes} (hasIp : Bool) (earlier : Session base s stream popped given)
      (inFresh : s.inQueue.isStale s.now = false)
      (outFresh : (s.midiNetFlushOut lwip).outQueue.isStale s.now = false) :
      Session base (s.midiNetPoll lwip hasIp) stream popped given
  | waits {s : Firmware} {stream popped given : Bytes} (micros : Nat) (earlier : Session base s stream popped given) :
      Session base { s with now := s.now + micros } stream popped given

structure Fresh (base : Firmware) : Prop where
  ws : base.cfg.transport = .ws
  up : base.link.netState = .up
  mine : base.link.netPcb = some pcb
  isOpen : base.link.isOpen pcb = true
  atStart : base.wsDec.state = .op
  empty : base.inQueue.contents = []

theorem poll_flushes (hasIp : Bool) (s : Firmware) (up : s.link.netState = .up)
    (inFresh : s.inQueue.isStale s.now = false)
    (outFresh : (s.midiNetFlushOut lwip).outQueue.isStale s.now = false) :
    s.midiNetPoll lwip hasIp = s.midiNetFlushOut lwip := by
  obtain ⟨rand, calls, queue, k, effect, -⟩ := Firmware.midiNetFlushOut_effect lwip s
  have cleaned : Firmware.midiQueueCleanup (s.midiNetFlushOut lwip) = s.midiNetFlushOut lwip := by
    rw [effect] at outFresh ⊢
    simp [Firmware.midiQueueCleanup, Firmware.cleanupIn, Firmware.cleanupOut, inFresh, outFresh]
  have still : (s.midiNetFlushOut lwip).link.netState = .up := by
    rw [effect]
    exact up
  unfold Firmware.midiNetPoll
  simp [cleaned, still]

structure Begun (before : Bytes) (long short : Trace) : Prop where
  dec : long.dec = short.dec
  closed : long.closed = short.closed
  afresh : short.closed = true → long.pushed = short.pushed
  pushed : short.closed = false → long.pushed = before ++ short.pushed

theorem begun_simulates (before : Bytes) : Simulates tracer tracer (Begun before) where
  dec := fun _ _ begun => begun.dec
  setDec := fun _ _ _ begun => ⟨rfl, begun.closed, begun.afresh, begun.pushed⟩
  onData := by
    intro long short p begun
    refine ⟨begun.dec, begun.closed, fun shut => ?_, fun open_ => ?_⟩
    · exact congrArg (· ++ p) (begun.afresh shut)
    · exact (congrArg (· ++ p) (begun.pushed open_)).trans (List.append_assoc ..)
  onCtl := by
    intro long short opcode p begun
    simp only [tracer]
    split
    · exact ⟨rfl, rfl, fun _ => rfl, fun open_ => Bool.noConfusion open_⟩
    · exact begun

theorem feedBytes_begun (t : Trace) (data : Bytes) (settled : ¬ atFrameEnd t.dec) (open_ : t.closed = false) :
    (feedBytes tracer t data).1 = (feedBytes tracer { dec := t.dec } data).1 ∧
      Begun t.pushed (feedBytes tracer t data).2 (feedBytes tracer { dec := t.dec } data).2 := by
  have related := (begun_simulates t.pushed).midiWsDecode_related t { dec := t.dec } data
    ⟨rfl, open_, fun shut => Bool.noConfusion shut, fun _ => (List.append_nil _).symm⟩
  rwa [midiWsDecode_eq_feedBytes tracer tracer_lawful t data settled,
    midiWsDecode_eq_feedBytes tracer tracer_lawful { dec := t.dec } data settled] at related

structure Follow (base s : Firmware) (stream popped : Bytes) (t : Trace) : Prop where
  fed : feedBytes tracer { dec := base.wsDec } stream = (true, t)
  open_ : t.closed = false
  settled : ¬ atFrameEnd t.dec
  cfg : s.cfg = base.cfg
  link : s.link = base.link
  dec : s.wsDec = t.dec
  order : popped ++ s.inQueue.contents.map Cell.byte = t.pushed

theorem Follow.chain {base s : Firmware} {stream popped : Bytes} {t t' : Trace} (follow : Follow base s stream popped t)
    (fresh : Fresh pcb base) (buffers : List Bytes) (told : feedBytes tracer t buffers.flatten = (true, t'))
    (still : t'.closed = false)
    (room : (s.midiNetRecvCb lwip pcb (some buffers) errOk).2.inQueue.contents.length < 2 ^ queueBits - 1) :
    Follow base (s.midiNetRecvCb lwip pcb (some buffers) errOk).2 (stream ++ buffers.flatten) popped t' := by
  have begun := feedBytes_begun t buffers.flatten follow.settled follow.open_
  have settled := feedBytes_settled tracer tracer_lawful t buffers.flatten follow.settled
  rw [told] at begun settled
  generalize short : feedBytes tracer { dec := t.dec } buffers.flatten = alone at begun
  obtain ⟨ok, t''⟩ := alone
  obtain ⟨same, dec, closed, -, pushed⟩ := begun
  obtain rfl : true = ok := same
  have stillShort : t''.closed = false := closed.symm.trans still
  have link := follow.link
  obtain ⟨shared, after⟩ := Firmware.deliver_follows lwip s pcb [buffers] s { dec := t.dec } t''
    ⟨follow.dec, rfl, .refl s, by simp [received, Queue.contents_take], fun _ => ⟨rfl, rfl, rfl⟩, by simp⟩
    (follow.cfg ▸ fresh.ws) (by rw [link, fresh.up]) (by rw [link, fresh.mine]) (by rw [link, fresh.isOpen])
    follow.settled rfl stillShort (by simpa using short)
  have delivered : Firmware.deliver lwip pcb [buffers] s = (s.midiNetRecvCb lwip pcb (some buffers) errOk).2 := by
    rw [Firmware.deliver, Firmware.deliver, link, if_pos fresh.isOpen]
  rw [delivered] at after
  have contents := after.contents
  rw [stillShort, if_neg Bool.false_ne_true] at contents
  have whole : (s.midiNetRecvCb lwip pcb (some buffers) errOk).2.inQueue.contents =
      s.inQueue.contents ++ received pcb t''.pushed := by
    rw [contents, List.length_take] at room
    rw [contents, List.take_of_length_le (by omega)]
  refine ⟨?_, still, settled, after.cfg.trans follow.cfg, (after.untouched stillShort).1.trans link,
    after.dec.trans dec.symm, ?_⟩
  · rw [feedBytes_append, follow.fed]
    simpa using told
  · rw [whole, pushed stillShort, ← follow.order, List.map_append, List.append_assoc]
    simp [received, Function.comp_def]

theorem Follow.advance {base s : Firmware} {stream popped : Bytes} {t : Trace} (follow : Follow base s stream popped t) :
    Follow base s.advance stream (popped ++ s.inQueue.contents.head?.toList.map Cell.byte) t := by
  obtain ⟨shared, effect, -⟩ := Firmware.advance_effect s
  rw [effect]
  refine ⟨follow.fed, follow.open_, follow.settled, follow.cfg, follow.link, follow.dec, ?_⟩
  rw [← follow.order]
  change _ ++ _ ++ s.inQueue.ring.pop.contents.map Cell.byte = _
  rw [s.inQueue.ring.contents_pop, Queue.contents]
  cases s.inQueue.ring.contents <;> simp

theorem Follow.aside {base s after : Firmware} {stream popped : Bytes} {t : Trace} (follow : Follow base s stream popped t)
    (cfg : after.cfg = s.cfg) (link : after.link = s.link) (dec : after.wsDec = s.wsDec)
    (queue : after.inQueue = s.inQueue) : Follow base after stream popped t :=
  ⟨follow.fed, follow.open_, follow.settled, cfg.trans follow.cfg, link.trans follow.link, dec.trans follow.dec,
    queue ▸ follow.order⟩

theorem Session.follow {base s : Firmware} {stream popped given : Bytes}
    (session : Session lwip pcb base s stream popped given) (fresh : Fresh pcb base) (more : Bytes) (final : Trace)
    (fed : feedBytes tracer { dec := base.wsDec } (stream ++ more) = (true, final)) (open_ : final.closed = false) :
    ∃ t, Follow base s stream popped t := by
  have atStart : ¬ atFrameEnd base.wsDec := by
    rintro ⟨state, -⟩
    rw [fresh.atStart] at state
    exact absurd state (by decide)
  induction session generalizing more with
  | start => exact ⟨{ dec := base.wsDec }, rfl, rfl, atStart, rfl, rfl, rfl, by simp [fresh.empty]⟩
  | @chain s stream popped given buffers earlier up room ih =>
    rw [List.append_assoc] at fed
    obtain ⟨t, follow⟩ := ih (buffers.flatten ++ more) fed
    rw [feedBytes_append, follow.fed, if_pos rfl, feedBytes_append] at fed
    have settled := feedBytes_settled tracer tracer_lawful t buffers.flatten follow.settled
    -- what the decoder makes of the whole stream tells that it took this part of it
    cases told : feedBytes tracer t buffers.flatten with
    | mk ok t' =>
      rw [told] at fed settled
      cases ok with
      | false => simp at fed
      | true => exact ⟨t', follow.chain lwip pcb fresh buffers told (feedBytes_open t' final more settled fed open_) room⟩
  | advance _ ih =>
    obtain ⟨t, follow⟩ := ih more fed
    exact ⟨t, follow.advance⟩
  | send b _ room ih =>
    obtain ⟨t, follow⟩ := ih more fed
    exact ⟨t, follow.aside rfl rfl rfl rfl⟩
  | @poll s stream popped given hasIp earlier inFresh outFresh ih =>
    obtain ⟨t, follow⟩ := ih more fed
    have up : s.link.netState = .up := by rw [follow.link, fresh.up]
    rw [poll_flushes lwip hasIp s up inFresh outFresh]
    obtain ⟨rand, calls, queue, k, effect, -⟩ := Firmware.midiNetFlushOut_effect lwip s
    rw [effect]
    exact ⟨t, follow.aside rfl rfl rfl rfl⟩
  | waits micros _ ih =>
    obtain ⟨t, follow⟩ := ih more fed
    exact ⟨t, follow.aside rfl rfl rfl rfl⟩

structure Pongs (s after : Firmware) : Prop where
  cfg : after.cfg = s.cfg
  link : after.link = s.link
  queue : after.outQueue = s.outQueue
  said : ∃ made, ∃ frames : ClientStream, after.calls = s.calls ++ made ∧ taken made = frames.wire ∧
    frames.Plain ∧ frames.data = []

theorem taken_append (made later : List LwipCall) : taken (made ++ later) = taken made ++ taken later := by
  simp [taken]

theorem Pongs.refl (s : Firmware) : Pongs s s :=
  ⟨rfl, rfl, rfl, [], [], by simp, rfl, by simp [ClientStream.Plain], rfl⟩

theorem Pongs.same {s middle after : Firmware} (pongs : Pongs s middle) (cfg : after.cfg = middle.cfg)
    (link : after.link = middle.link) (queue : after.outQueue = middle.outQueue)
    (calls : after.calls = middle.calls) : Pongs s after :=
  ⟨cfg.trans pongs.cfg, link.trans pongs.link, queue.trans pongs.queue, by rw [calls]; exact pongs.said⟩

theorem Pongs.more {s middle : Firmware} (pongs : Pongs s middle) (made : List LwipCall) (frames : ClientStream)
    (rand : UInt32) (wire : taken made = frames.wire) (plain : frames.Plain) (data : frames.data = []) :
    Pongs s { middle with wsRand := rand, calls := middle.calls ++ made } := by
  obtain ⟨earlier, before, calls, wires, plainBefore, none_⟩ := pongs.said
  refine ⟨pongs.cfg, pongs.link, pongs.queue, earlier ++ made, before ++ frames, ?_, ?_, ?_, ?_⟩
  · rw [calls, List.append_assoc]
  · rw [taken_append, wires, wire, ClientStream.wire_append]
  · exact fun frame member => (List.mem_append.mp member).elim (plainBefore frame) (plain frame)
  · rw [ClientStream.data_append plainBefore, none_, data, List.append_nil]

def Answers (s after : Firmware) : Prop := after.link.netState = .down ∨ Pongs s after

theorem midiNetReset_down (s : Firmware) : (s.midiNetReset lwip).link.netState = .down := by
  obtain ⟨calls, effect⟩ := Firmware.midiNetReset_effect lwip s
  rw [effect]
  rfl

theorem pong_answers {s after : Firmware} (p : Bytes) (answers : Answers s after) :
    Answers s (after.midiWsSendFrame lwip midiWsOpPong p) := by
  rcases answers with down | pongs
  · obtain ⟨rand, calls, effect⟩ := Firmware.midiWsSendFrame_effect lwip midiWsOpPong p after
    rw [effect]
    exact .inl down
  · right
    unfold Firmware.midiWsSendFrame
    cases held : after.link.netPcb with
    | none => exact pongs
    | some own =>
      obtain ⟨mask, rand, drawn, keySize⟩ : ∃ mask rand,
          Firmware.midiWsMaskKey after = (mask, { after with wsRand := rand }) ∧ mask.length = 4 := ⟨_, _, rfl, rfl⟩
      simp only [drawn, Firmware.tcpWrite]
      have size : (p.take wsTxChunk).length ≤ 1024 := List.length_take_le _ _
      let frame : Ws.CodedFrame Ws.defaultMaxPayload :=
        ⟨Ws.opPong, p.take wsTxChunk, some mask, by decide, size.trans (by decide), by omega, by simpa using keySize⟩
      have built : frame.wire = midiWsBuildFrame midiWsOpPong (p.take wsTxChunk) mask :=
        (clientHeader ⟨midiWsOpPong, p.take wsTxChunk, mask, by decide, by omega, keySize⟩).symm
      have plain : ClientStream.Plain [frame] := by
        intro other member
        rw [List.mem_singleton.mp member]
        exact ⟨.inr rfl, Nat.le_trans size (by decide)⟩
      have nothing : ClientStream.data [frame] = [] := rfl
      by_cases error : lwip.tcpWrite after.calls.length = errOk
      · rw [if_pos error]
        have more := pongs.more [.write own frame.wire errOk, .output own] [frame] rand (by
          simp [taken, LwipCall.taken, ClientStream.wire]) plain nothing
        rw [built] at more
        simpa [Firmware.call, error] using more
      · rw [if_neg error]
        exact pongs.more [.write own _ _] [] rand (by
          simp [taken, LwipCall.taken, ClientStream.wire, error]) (by simp [ClientStream.Plain]) rfl

theorem midiWsDecode_answers {s start : Firmware} (buffer : Bytes) (answers : Answers s start) :
    Answers s (midiWsDecode (Firmware.host lwip pcb) start buffer).2 := by
  have same {middle after : Firmware} (answers : Answers s middle) (cfg : after.cfg = middle.cfg)
      (link : after.link = middle.link) (queue : after.outQueue = middle.outQueue)
      (calls : after.calls = middle.calls) : Answers s after :=
    answers.imp (fun down => by rw [link]; exact down) fun pongs => pongs.same cfg link queue calls
  apply midiWsDecode_keeps (Firmware.host lwip pcb) (Answers s)
  · exact fun after dec answers => same answers rfl rfl rfl rfl
  · intro after p answers
    change Answers s (Firmware.midiWsOnData pcb p after)
    rw [Firmware.midiWsOnData_effect]
    exact same answers rfl rfl rfl rfl
  · intro after opcode p answers
    change Answers s (Firmware.midiWsOnCtl lwip opcode p after)
    unfold Firmware.midiWsOnCtl
    split
    · exact pong_answers lwip p answers
    split
    · exact .inl (midiNetReset_down lwip after)
    · exact answers
  · exact answers

theorem decodeChain_answers {s start : Firmware} (chain : List Bytes) (answers : Answers s start) :
    Answers s (Firmware.decodeChain lwip pcb chain start).2 := by
  induction chain generalizing start with
  | nil => exact answers
  | cons q rest ih =>
    have decoded := midiWsDecode_answers lwip pcb q answers
    rw [Firmware.decodeChain]
    generalize midiWsDecode (Firmware.host lwip pcb) start q = fed at *
    obtain ⟨ok, after⟩ := fed
    cases ok with
    | false => exact decoded
    | true =>
      simp only
      split
      · exact decoded
      · exact ih decoded

theorem recvFrames_answers (s : Firmware) (buffers : List Bytes) :
    Answers s (Firmware.recvFrames lwip pcb buffers s).2 := by
  have decoded := decodeChain_answers lwip pcb buffers (.inr (Pongs.refl s))
  unfold Firmware.recvFrames
  generalize Firmware.decodeChain lwip pcb buffers s = fed at *
  obtain ⟨ok, after⟩ := fed
  cases ok with
  | false => exact decoded
  | true =>
    simp only
    split
    · obtain ⟨shared, effect, -⟩ := Firmware.publish_effect after
      rw [effect]
      exact decoded.imp (fun down => down) fun pongs => pongs.same rfl rfl rfl rfl
    · exact decoded

theorem recvWs_answers (s : Firmware) (buffers : List Bytes) (up : s.link.netState = .up) :
    Answers s (Firmware.recvWs lwip pcb buffers s) := by
  have framed := recvFrames_answers lwip pcb s buffers
  have byState : Firmware.recvByState lwip pcb buffers s = Firmware.recvFrames lwip pcb buffers s := by
    rw [Firmware.recvByState, up]
  unfold Firmware.recvWs
  rw [byState]
  generalize Firmware.recvFrames lwip pcb buffers s = result at *
  obtain ⟨ok, after⟩ := result
  cases ok with
  | false => exact .inl (midiNetReset_down lwip after)
  | true =>
    simp only
    split
    · refine framed.imp (fun down => down) fun pongs => ?_
      exact pongs.more [.recved pcb buffers.flatten.length] [] after.wsRand
        (by simp [taken, LwipCall.taken, ClientStream.wire]) (by simp [ClientStream.Plain]) rfl
    · exact framed

theorem midiNetRecvCb_answers (s : Firmware) (buffers : List Bytes) (ws : s.cfg.transport = .ws)
    (up : s.link.netState = .up) : Answers s (s.midiNetRecvCb lwip pcb (some buffers) errOk).2 := by
  have taken_ : (s.midiNetRecvCb lwip pcb (some buffers) errOk).2 = Firmware.recvWs lwip pcb buffers s := by
    simp [Firmware.midiNetRecvCb, ws]
  rw [taken_]
  exact recvWs_answers lwip pcb s buffers up

structure Speaks (base s : Firmware) (given : Bytes) : Prop where
  cfg : s.cfg = base.cfg
  link : s.link = base.link
  said : ∃ made, ∃ frames : ClientStream, s.calls = base.calls ++ made ∧ taken made = frames.wire ∧
    frames.Plain ∧ base.pending ++ given = frames.data ++ s.pending

theorem Session.speaks {base s : Firmware} {stream popped given : Bytes}
    (session : Session lwip pcb base s stream popped given) (fresh : Fresh pcb base) : Speaks base s given := by
  induction session with
  | start => exact ⟨rfl, rfl, [], [], by simp, rfl, by simp [ClientStream.Plain], by simp [ClientStream.data, payloads]⟩
  | @chain s stream popped given buffers earlier up room ih =>
    obtain ⟨cfg, link, made, frames, calls, wire, plain, order⟩ := ih
    rcases midiNetRecvCb_answers lwip pcb s buffers (by rw [cfg, fresh.ws]) (by rw [link, fresh.up]) with down | pongs
    · exact absurd (down.symm.trans up) (by decide)
    · obtain ⟨further, more, callsAfter, wires, plainMore, nothing⟩ := pongs.said
      refine ⟨pongs.cfg.trans cfg, pongs.link.trans link, made ++ further, frames ++ more, ?_, ?_, ?_, ?_⟩
      · rw [callsAfter, calls, List.append_assoc]
      · rw [taken_append, wire, wires, ClientStream.wire_append]
      · exact fun frame member => (List.mem_append.mp member).elim (plain frame) (plainMore frame)
      · rw [ClientStream.data_append plain, nothing, List.append_nil, order]
        simp only [Firmware.pending, pongs.queue]
  | @advance s stream popped given earlier ih =>
    obtain ⟨shared, effect, -⟩ := Firmware.advance_effect s
    rw [effect]
    exact ⟨ih.cfg, ih.link, ih.said⟩
  | @send s stream popped given b earlier room ih =>
    obtain ⟨cfg, link, made, frames, calls, wire, plain, order⟩ := ih
    have sent := (Firmware.midiNetSendByte_carried pcb b s).order
    rw [Firmware.acceptedBy, room, if_neg Bool.false_ne_true, List.flatten_nil, List.nil_append] at sent
    refine ⟨cfg, link, made, frames, calls, wire, plain, ?_⟩
    rw [← sent, ← List.append_assoc, order, List.append_assoc]
  | @poll s stream popped given hasIp earlier inFresh outFresh ih =>
    obtain ⟨cfg, link, made, frames, calls, wire, plain, order⟩ := ih
    rw [poll_flushes lwip hasIp s (by rw [link, fresh.up]) inFresh outFresh]
    obtain ⟨further, datas, carried, -⟩ := Firmware.midiNetFlushOut_carried lwip pcb s (by rw [link, fresh.mine])
    have ws : s.cfg.transport = .ws := by rw [cfg, fresh.ws]
    obtain ⟨more, wires, plainMore, data⟩ := firmware_stream (ws ▸ carried.writes)
    have kept := carried.order
    rw [List.append_nil] at kept
    refine ⟨carried.cfg.trans cfg, carried.link.trans link, made ++ further, frames ++ more, ?_, ?_, ?_, ?_⟩
    · rw [carried.log, calls, List.append_assoc]
    · rw [taken_append, wire, wires, ClientStream.wire_append]
    · exact fun frame member => (List.mem_append.mp member).elim (plain frame) (plainMore frame)
    · rw [ClientStream.data_append plain, data, List.append_assoc, ← kept, order]
  | @waits s stream popped given micros earlier ih => exact ⟨ih.cfg, ih.link, ih.said⟩

end Firmware

end MidiToIp.System
