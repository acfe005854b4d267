import MidiToIp.Gateway.Verbatim
import MidiToIp.Orchestrator.Passed
import MidiToIp.System.Endpoint

set_option autoImplicit false

namespace MidiToIp.System

open Octets Machines MidiWs Midi Orchestrator

def maskedFrame (frame : Ws.Frame) (key : Bytes) : Except Ws.WSError Bytes :=
  if frame.1 = Ws.opPong then Ws.pongFrame frame.2 (some key) else Ws.binaryFrame frame.2 (some key)

def masked (keys : List Bytes) (sent : List Ws.Frame) : Except Ws.WSError (List Bytes) :=
  (sent.zip keys).mapM fun entry => maskedFrame entry.1 entry.2

/-- A client that its Atari has given `given`, and that still holds the last of it, `held`; the rest has
gone out in `stream`. -/
inductive Sender : Bytes → Bytes → Bytes → Prop
  | firmware (lwip : Lwip) (pcb : Nat) (base s : Firmware) (stream popped given : Bytes) (made : List LwipCall)
      (fresh : Fresh pcb base) (session : Session lwip pcb base s stream popped given)
      (log : s.calls = base.calls ++ made) : Sender (base.pending ++ given) s.pending (taken made)
  | gateway (trailing : Bytes) (labels : List Gateway.Label) (b : Gateway.Bridge) (keys encoded : List Bytes)
      (held : Bytes)
      (run : Gateway.bridgeMachine.Run Machine.anyStep (Gateway.Bridge.start { initial := trailing }) labels b)
      (drawn : keys.length = b.sent.length ∧ ∀ key ∈ keys, key.length = 4)
      (short : ∀ frame ∈ b.sent, frame.1 = Ws.opPong → frame.2.length ≤ 125)
      (sends : masked keys b.sent = .ok encoded)
      (split : Gateway.dataOf b.sent ++ held = Gateway.written labels) :
      Sender (Gateway.written labels) held encoded.flatten

theorem dataOf_eq (frames : List Ws.Frame) : Gateway.dataOf frames = frames.flatMap payloadOf := by
  induction frames with
  | nil => rfl
  | cons frame rest ih =>
    have cons : Gateway.dataOf (frame :: rest) = Gateway.dataOf [frame] ++ Gateway.dataOf rest :=
      Gateway.dataOf_append [frame] rest
    rw [cons, ih, List.flatMap_cons]
    congr 1
    by_cases data : frame.1 = Ws.opBinary ∨ frame.1 = Ws.opCont ∨ frame.1 = Ws.opText
    · simp [Gateway.dataOf, Gateway.isData, payloadOf, data]
    · simp [Gateway.dataOf, Gateway.isData, payloadOf, data]

theorem maskedFrame_eq (frame : Ws.Frame) (key : Bytes) (known : frame.1 = Ws.opBinary ∨ frame.1 = Ws.opPong) :
    maskedFrame frame key = Ws.encodeFrame frame.1 frame.2 (some key) := by
  unfold maskedFrame
  rcases known with same | same
  · rw [same, if_neg (by decide)]
    rfl
  · rw [same, if_pos rfl]
    rfl

theorem masked_cons {key wire : Bytes} {more encoded : List Bytes} {frame : Ws.Frame} {rest : List Ws.Frame}
    (first : maskedFrame frame key = .ok wire) (sends : masked (key :: more) (frame :: rest) = .ok encoded) :
    ∃ wires, masked more rest = .ok wires ∧ encoded = wire :: wires := by
  have step : masked (key :: more) (frame :: rest) = maskedFrame frame key >>= fun wire =>
      masked more rest >>= fun wires => .ok (wire :: wires) := List.mapM_cons
  rw [step, first] at sends
  change (masked more rest >>= fun wires => .ok (wire :: wires)) = Except.ok encoded at sends
  cases later : masked more rest with
  | error error =>
    rw [later] at sends
    change Except.error error = Except.ok encoded at sends
    cases sends
  | ok wires =>
    rw [later] at sends
    exact ⟨wires, rfl, (Except.ok.inj sends).symm⟩

theorem masked_coded {keys encoded : List Bytes} {sent : List Ws.Frame}
    (known : ∀ frame ∈ sent, (frame.1 = Ws.opBinary ∨ frame.1 = Ws.opPong) ∧ frame.2.length ≤ 4096)
    (drawn : keys.length = sent.length ∧ ∀ key ∈ keys, key.length = 4) (sends : masked keys sent = .ok encoded) :
    ∃ frames : ClientStream, encoded = frames.map Ws.CodedFrame.wire ∧ frames.Plain ∧
      frames.map Ws.CodedFrame.decoded = sent := by
  induction sent generalizing keys encoded with
  | nil =>
    have nothing : masked keys [] = .ok [] := by simp [masked, pure, Except.pure]
    obtain rfl := Except.ok.inj (nothing.symm.trans sends)
    exact ⟨[], rfl, by simp [ClientStream.Plain], rfl⟩
  | cons frame rest ih =>
    obtain ⟨key, more, rfl⟩ := List.exists_cons_of_length_eq_add_one drawn.1
    obtain ⟨opcode, size⟩ := known frame (List.mem_cons_self ..)
    have low : frame.1 < 16 := by
      rcases opcode with same | same <;> rw [same] <;> decide
    let coded : Ws.CodedFrame Ws.defaultMaxPayload :=
      ⟨frame.1, frame.2, some key, low, size.trans (by decide), by omega, by
        simpa using drawn.2 key (List.mem_cons_self ..)⟩
    obtain ⟨wires, later, rfl⟩ := masked_cons ((maskedFrame_eq frame key opcode).trans coded.encodeFrame_wire) sends
    obtain ⟨frames, rfl, plain, decoded⟩ := ih (fun other member => known other (List.mem_cons_of_mem _ member))
      ⟨by simpa using drawn.1, fun other member => drawn.2 other (List.mem_cons_of_mem _ member)⟩ later
    refine ⟨coded :: frames, rfl, ?_, by rw [List.map_cons, decoded]; rfl⟩
    intro other member
    rcases List.mem_cons.mp member with rfl | earlier
    · exact ⟨opcode, size⟩
    · exact plain other earlier

theorem gateway_stream {keys encoded : List Bytes} {sent : List Ws.Frame}
    (reads : ∀ frame ∈ sent, frame.1 = Ws.opPong ∨ frame.1 = Ws.opBinary ∧ 0 < frame.2.length ∧ frame.2.length ≤ 4096)
    (drawn : keys.length = sent.length ∧ ∀ key ∈ keys, key.length = 4)
    (short : ∀ frame ∈ sent, frame.1 = Ws.opPong → frame.2.length ≤ 125) (sends : masked keys sent = .ok encoded) :
    ∃ frames : ClientStream, encoded.flatten = frames.wire ∧ frames.Plain ∧ frames.data = Gateway.dataOf sent := by
  have known (frame : Ws.Frame) (member : frame ∈ sent) :
      (frame.1 = Ws.opBinary ∨ frame.1 = Ws.opPong) ∧ frame.2.length ≤ 4096 := by
    rcases reads frame member with pong | ⟨binary, -, size⟩
    · exact ⟨.inr pong, (short frame member pong).trans (by decide)⟩
    · exact ⟨.inl binary, size⟩
  obtain ⟨frames, rfl, plain, decoded⟩ := masked_coded known drawn sends
  refine ⟨frames, rfl, plain, ?_⟩
  rw [ClientStream.data, decoded, payloads_open, dataOf_eq]
  rintro ⟨frame, member, closing⟩
  rcases (known frame member).1 with same | same
  · exact absurd (same.symm.trans closing) (by decide)
  · exact absurd (same.symm.trans closing) (by decide)

theorem Sender.stream {given held stream : Bytes} (sender : Sender given held stream) :
    ∃ frames : ClientStream, stream = frames.wire ∧ frames.Plain ∧ given = frames.data ++ held := by
  cases sender with
  | firmware lwip pcb base s stream popped given made fresh session log =>
    obtain ⟨-, -, made', frames, log', wire, plain, order⟩ := session.speaks lwip pcb fresh
    obtain rfl : made = made' := List.append_cancel_left (log.symm.trans log')
    exact ⟨frames, wire, plain, order⟩
  | gateway trailing labels b keys encoded held run drawn short sends split =>
    have relays := Gateway.run_relays trailing labels b run
    obtain ⟨frames, wire, plain, data⟩ := gateway_stream relays.reads.frames drawn short sends
    exact ⟨frames, wire, plain, by rw [data, split]⟩

theorem reads_plain (frames : ClientStream) (kept : Bytes) (reads : List Read) (plain : frames.Plain)
    (few : kept.length ≤ 4110) (sized : ∀ raw ∈ reads, raw.val.length ≤ 4096)
    (part : kept ++ Read.stream reads <+: frames.wire) : EndsApart kept reads ∧ Bounded kept reads := by
  induction reads generalizing kept frames with
  | nil => exact ⟨trivial, trivial⟩
  | cons raw later ih =>
    have stream : kept ++ Read.stream (raw :: later) = (kept ++ raw.val) ++ Read.stream later := by
      simp [Read.stream]
    rw [stream] at part
    obtain ⟨done, todo, tail, rfl, cut, decoded, next⟩ :=
      frames.scanned_part (kept ++ raw.val) ((List.prefix_append ..).trans part)
    obtain ⟨before, behind⟩ := plain.append
    have small : tail.length ≤ 4110 := by
      cases todo with
      | nil =>
        have none_ : tail = [] := next
        simp [none_]
      | cons upcoming rest =>
        have within : tail <+: upcoming.wire := next.1
        have size := (wire_length upcoming).2
        have bound := (behind upcoming (List.mem_cons_self ..)).2
        have shorter := within.length_le
        omega
    have rest : tail ++ Read.stream later <+: todo.wire := by
      rw [cut, ClientStream.wire_append, List.append_assoc] at part
      exact (List.prefix_append_right_inj _).mp part
    have goesOn : ¬ (scanned (kept ++ raw.val)).Ends := by
      rw [decoded]
      exact not_or.mpr ⟨fun failed => failed rfl, before.open⟩
    obtain ⟨ends, bounded⟩ := ih todo tail behind small (fun other member => sized other (List.mem_cons_of_mem _ member)) rest
    constructor
    · rw [EndsApart, if_neg goesOn, decoded]
      exact ends
    · rw [Bounded, decoded]
      refine fun _ => ⟨fun frame member ping => ?_, fun _ => ⟨?_, bounded⟩⟩
      · obtain ⟨coded, listed, rfl⟩ := List.mem_map.mp ((List.takeWhile_prefix _).subset member)
        rcases (before coded listed).1 with same | same
        · exact absurd (same.symm.trans ping) (by decide)
        · exact absurd (same.symm.trans ping) (by decide)
      · have data := ClientStream.data_length before
        have size := congrArg List.length cut
        have read := sized raw (List.mem_cons_self ..)
        have room : (8206 : Nat) ≤ Ws.defaultMaxPayload := by decide
        rw [List.length_append, List.length_append] at size
        exact Nat.le_trans (Nat.le_trans data (by omega)) room

theorem received_plain (frames : ClientStream) (reads : List Read) (plain : frames.Plain)
    (sized : ∀ raw ∈ reads, raw.val.length ≤ 4096) (part : Read.stream reads <+: frames.wire) :
    (∀ frame ∈ emitted {} reads, Fits frame) ∧ (Carrier.ws {}).received reads <+: frames.data ∧
      (Read.stream reads = frames.wire → (Carrier.ws {}).received reads = frames.data) := by
  obtain ⟨apart, bounded⟩ := reads_plain frames [] reads plain (by simp) sized part
  have heard := (received_iff {} rfl rfl reads).mpr apart
  refine ⟨(fits_emitted {} rfl reads).mpr bounded, ?_, ?_⟩
  · obtain ⟨done, todo, tail, rfl, -, decoded, -⟩ := frames.scanned_part _ part
    rw [heard, List.nil_append, decoded, ClientStream.data_append plain.append.1]
    exact List.prefix_append ..
  · intro whole
    have decoded := (Ws.scanner Ws.defaultMaxPayload).drain_encoded Ws.CodedFrame.wire Ws.CodedFrame.decoded
      Ws.CodedFrame.next_wire (Ws.next_nil Ws.defaultMaxPayload) frames
    rw [heard, List.nil_append, whole, scanned, ClientStream.wire, decoded]
    rfl

inductive Receiver : Bytes → Bytes → Prop → Prop
  | firmware (lwip : Lwip) (pcb : Nat) (base s : Firmware) (stream popped given : Bytes) (fresh : Fresh pcb base)
      (session : Session lwip pcb base s stream popped given) :
      Receiver stream (popped ++ s.inQueue.contents.map Cell.byte) True
  | gateway (trailing : Bytes) (labels : List Gateway.Label) (b : Gateway.Bridge)
      (run : Gateway.bridgeMachine.Run Machine.anyStep (Gateway.Bridge.start { initial := trailing }) labels b) :
      Receiver (trailing ++ Gateway.arrived labels) b.inFd b.Idle

def Relayed (frames : List Ws.Frame) : Prop :=
  ∀ frame ∈ frames, Fits frame ∧ (frame.1 = Ws.opBinary ∨ frame.1 = Ws.opPing ∨ frame.1 = Ws.opPong)

theorem Relayed.open {frames : List Ws.Frame} (relayed_ : Relayed frames) :
    ∀ frame ∈ frames, Gateway.isOpen frame = true := by
  intro frame member
  rw [Gateway.isOpen_iff]
  rcases (relayed_ frame member).2 with same | same | same <;> rw [same] <;> decide

theorem Relayed.data {frames : List Ws.Frame} (relayed_ : Relayed frames) :
    Gateway.dataOf frames = relayed frames := by
  have binary : frames.filter Gateway.isData = frames.filter fun frame => frame.1 = Ws.opBinary := by
    apply List.filter_congr
    intro frame member
    rcases (relayed_ frame member).2 with same | same | same <;> simp [Gateway.isData, same] <;> decide
  rw [Gateway.dataOf, binary, relayed]

theorem gateway_hears {frames : List Ws.Frame} {trailing : Bytes} {labels : List Gateway.Label} {b : Gateway.Bridge}
    (relayed_ : Relayed frames) (smalls : List SmallFrame) (same : smalls.map SmallFrame.frame = frames)
    (run : Gateway.bridgeMachine.Run Machine.anyStep (Gateway.Bridge.start { initial := trailing }) labels b)
    (part : trailing ++ Gateway.arrived labels <+: (smalls.map fun small => small.wire).flatten) :
    b.inFd <+: relayed frames ∧
      (b.Idle → trailing ++ Gateway.arrived labels = (smalls.map fun small => small.wire).flatten →
        b.inFd = relayed frames) := by
  have relays := Gateway.run_relays trailing labels b run
  have finds (small : SmallFrame) (later : Bytes) :
      (Ws.scanner Ws.defaultMaxPayload).scan (small.wire ++ later) = .item small.frame later := by
    have representable := small.bounded
    exact Ws.next_unmasked _ _ _ later small.known small.small (by omega)
  have open_ := relayed_.open
  obtain ⟨done, todo, tail, split, cut, drained, next⟩ :=
    (Ws.scanner Ws.defaultMaxPayload).drain_encoded_part (fun small : SmallFrame => small.wire) SmallFrame.frame finds
      (Ws.next_nil Ws.defaultMaxPayload) smalls _ part
  have served_ : Gateway.served (trailing ++ Gateway.arrived labels) = done.map SmallFrame.frame := by
    apply Gateway.Bridge.served_open drained
    intro frame member
    apply open_
    rw [← same, split, List.map_append]
    exact List.mem_append_left _ member
  constructor
  · rw [← relayed_.data, ← same, split, List.map_append]
    refine relays.carried.delivered.trans (served_ ▸ Gateway.dataOf_part (List.prefix_append ..))
  · intro idle whole
    have all := (Ws.scanner Ws.defaultMaxPayload).drain_encoded (fun small : SmallFrame => small.wire) SmallFrame.frame
      finds (Ws.next_nil Ws.defaultMaxPayload) smalls
    have delivered := ((relays.carries (by simp [idle.1])).idle idle).1
    rw [delivered, ← relayed_.data, whole, Gateway.served, all, same]
    exact congrArg Gateway.dataOf (List.takeWhile_eq_self_iff.mpr open_)

theorem firmware_hears {lwip : Lwip} {pcb : Nat} {base s : Firmware} {stream popped given : Bytes} {frames : List Ws.Frame}
    (relayed_ : Relayed frames) (smalls : List SmallFrame) (same : smalls.map SmallFrame.frame = frames)
    (fresh : Fresh pcb base) (session : Session lwip pcb base s stream popped given)
    (part : stream <+: (smalls.map fun small => small.wire).flatten) :
    popped ++ s.inQueue.contents.map Cell.byte <+: relayed frames ∧
      (stream = (smalls.map fun small => small.wire).flatten →
        popped ++ s.inQueue.contents.map Cell.byte = relayed frames) := by
  have data : (smalls.map SmallFrame.toServerFrame).flatMap ServerFrame.data = relayed frames := by
    rw [← relayed_.data, dataOf_eq, ← same, List.flatMap_map, List.flatMap_map]
    apply List.flatMap_congr
    intro small listed
    have known := (relayed_ small.frame (same ▸ List.mem_map_of_mem listed)).2
    change small.opcode = _ ∨ small.opcode = _ ∨ small.opcode = _ at known
    rcases known with binary | ping | pong
    · simp [ServerFrame.data, ServerFrame.isControl, payloadOf, SmallFrame.frame, binary, Ws.opBinary]
    · simp [ServerFrame.data, ServerFrame.isControl, payloadOf, SmallFrame.frame, ping, Ws.opPing, Ws.opBinary,
        Ws.opCont, Ws.opText]
    · simp [ServerFrame.data, ServerFrame.isControl, payloadOf, SmallFrame.frame, pong, Ws.opPong, Ws.opBinary,
        Ws.opCont, Ws.opText]
  have noClose : ∀ frame ∈ smalls.map SmallFrame.toServerFrame, frame.opcode ≠ 8 := by
    intro frame member closing
    obtain ⟨small, listed, rfl⟩ := List.mem_map.mp member
    have known := (relayed_ small.frame (same ▸ List.mem_map_of_mem listed)).2
    have opcode : small.frame.1 = 8 := closing
    rw [opcode] at known
    exact absurd known (by decide)
  obtain ⟨d, fed⟩ := feedBytes_frames { dec := base.wsDec } _ fresh.atStart noClose
  rw [data, List.map_map] at fed
  obtain ⟨more, cut⟩ := part
  have wires : (smalls.map (ServerFrame.wire ∘ SmallFrame.toServerFrame)).flatten = stream ++ more := cut.symm
  rw [wires] at fed
  obtain ⟨t, follow⟩ := session.follow lwip pcb fresh more _ fed rfl
  rw [feedBytes_append, follow.fed] at fed
  simp only [if_true] at fed
  have begun := (feedBytes_begun t more follow.settled follow.open_).2
  rw [fed] at begun
  have pushed := begun.pushed (begun.closed.symm.trans rfl)
  simp only [List.nil_append] at pushed
  rw [follow.order, pushed]
  refine ⟨List.prefix_append .., fun whole => ?_⟩
  obtain rfl : more = [] := by
    rw [whole] at cut
    exact List.append_right_eq_self.mp cut
  simp

theorem outs_relayed (outs : List Outgoing) (chunks : ∀ chunk, .data chunk ∈ outs → Fits (Ws.opBinary, chunk))
    (short : ∀ payload, .pong payload ∈ outs → payload.length ≤ 125) : Relayed (outs.map Outgoing.frame) := by
  intro frame member
  obtain ⟨out, listed, rfl⟩ := List.mem_map.mp member
  cases out with
  | data chunk => exact ⟨chunks chunk listed, .inl rfl⟩
  | ping => exact ⟨⟨by decide, by decide, fun _ => by decide⟩, .inr (.inl rfl)⟩
  | pong payload => exact ⟨(fits_pong payload).mpr (short payload listed), .inr (.inr rfl)⟩

theorem wires_small {outs : List Outgoing} {wires : List Bytes} {smalls : List SmallFrame}
    (same : smalls.map SmallFrame.frame = outs.map Outgoing.frame) (writes : outs.mapM Outgoing.write = .ok wires) :
    wires = smalls.map fun small => small.wire := by
  have encoded := mapM_encodeFrame (smalls.map SmallFrame.toServerFrame)
  rw [List.mapM_map, List.map_map] at encoded
  have sends : (outs.map Outgoing.frame).mapM (fun frame => Ws.encodeFrame frame.1 frame.2 none) = .ok wires := by
    rw [List.mapM_map, ← writes]
    exact congrArg (fun write => outs.mapM write) (funext fun out => (Outgoing.write_frame out).symm)
  rw [← same, List.mapM_map] at sends
  exact Except.ok.inj (sends.symm.trans encoded)

theorem byte_path {given held stream delivered heard : Bytes} {settled : Prop} (sender : Sender given held stream)
    (receiver : Receiver delivered heard settled) (saved : List String) (labels : List Orchestrator.Label) (s : Server)
    (run : serverMachine.Run Machine.anyStep (Server.start saved) labels s) (ring : Nat) (members : Registry)
    (later : List Orchestrator.Label) (after : Server)
    (span : serverMachine.Run (fun state _ => state.rooms.rings ring = members) s later after)
    (source target : Player) (sourceHeld : source ∈ members.players) (targetHeld : target ∈ members.players)
    (next : members.pred target.id = some source.id) (task : Task)
    (mine : after.tasks source.id = some task) (ws : task.carrier.isWs = true)
    (sized : ∀ raw ∈ readsOf source.id (labels ++ later), raw.val.length ≤ 4096)
    (read : Read.stream (readsOf source.id (labels ++ later)) <+: stream)
    (earlier : ∀ chunk ∈ s.sentTo target, chunk.length ≤ Ws.defaultMaxPayload)
    (outs : List Outgoing) (wires : List Bytes) (sent : outs.filterMap Outgoing.chunk = after.sentTo target)
    (short : ∀ payload, .pong payload ∈ outs → payload.length ≤ 125)
    (writes : outs.mapM Outgoing.write = .ok wires) (arrives : delivered <+: wires.flatten) :
    heard <+: (s.sentTo target).flatten ++ given.drop (s.readFrom source).flatten.length ∧
      (settled → Read.stream (readsOf source.id (labels ++ later)) = stream → delivered = wires.flatten →
        heard ++ held = (s.sentTo target).flatten ++ given.drop (s.readFrom source).flatten.length) := by
  obtain ⟨client, rfl, plain, rfl⟩ := sender.stream
  obtain ⟨fits, part, whole⟩ := received_plain client _ plain sized read
  obtain ⟨chunks, passed, said⟩ := Server.run_passed saved labels s run ring members later after span source target
    sourceHeld targetHeld next task mine ws
  have received_ : (s.readFrom source).flatten ++ chunks.flatten =
      (Carrier.ws {}).received (readsOf source.id (labels ++ later)) := by
    rw [Carrier.received_eq_chunks, ← said, List.flatten_append]
  have relayed_ : Relayed (outs.map Outgoing.frame) := by
    refine outs_relayed outs (fun chunk listed => ?_) short
    have among : chunk ∈ s.sentTo target ++ chunks := by
      rw [← passed, ← sent]
      exact List.mem_filterMap.mpr ⟨_, listed, rfl⟩
    rcases List.mem_append.mp among with old | new
    · exact (fits_binary chunk).mpr (earlier chunk old)
    · have returned : chunk ∈ (Carrier.ws {}).chunks (readsOf source.id (labels ++ later)) := by
        rw [← said]
        exact List.mem_append_right _ new
      exact fits _ (chunks_emitted {} _ chunk returned)
  have same : relayed (outs.map Outgoing.frame) = (s.sentTo target).flatten ++ chunks.flatten := by
    rw [Outgoing.relayed_frames, sent, passed, List.flatten_append]
  obtain ⟨smalls, frames_⟩ := smallFrames (outs.map Outgoing.frame) fun frame member => (relayed_ frame member).1
  rw [wires_small frames_ writes] at arrives ⊢
  have hears : heard <+: relayed (outs.map Outgoing.frame) ∧
      (settled → delivered = (smalls.map fun small => small.wire).flatten →
        heard = relayed (outs.map Outgoing.frame)) := by
    cases receiver with
    | firmware lwip pcb base s stream popped given fresh session =>
      obtain ⟨within, exact_⟩ := firmware_hears relayed_ smalls frames_ fresh session arrives
      exact ⟨within, fun _ => exact_⟩
    | gateway trailing labels b run => exact gateway_hears relayed_ smalls frames_ run arrives
  rw [same] at hears
  obtain ⟨rest, data⟩ := part
  have behind : (client.data ++ held).drop (s.readFrom source).flatten.length = chunks.flatten ++ (rest ++ held) := by
    rw [← data, ← received_]
    simp only [List.append_assoc, List.drop_left]
  rw [behind]
  refine ⟨hears.1.trans ?_, fun rest_ all complete => ?_⟩
  · exact (List.prefix_append_right_inj _).mpr (List.prefix_append _ _)
  · have nothing : rest = [] := by
      rw [whole all] at data
      exact List.append_right_eq_self.mp data
    rw [hears.2 rest_ complete, nothing, List.nil_append, List.append_assoc]

def listening : Firmware :=
  { cfg := { transport := .ws }, link := { netState := .up, netPcb := some 0, pcbs := [⟨0, ascii "orchestrator"⟩] } }

def noteRead : Read := ⟨[0x82, 0x81, 0x01, 0x02, 0x03, 0x04, 0x91], by decide⟩

def twoPlayers : List Orchestrator.Label := [.wsRequest 5 "", .wsDrained 5 true, .wsRequest 6 "", .wsDrained 6 true]

theorem byte_path_note :
    ∃ b s after, Gateway.bridgeMachine.exec Machine.anyStep (Gateway.Bridge.start { initial := [] })
        [.atariWrites [0x90], .enter, .select, .readOut, .sendOut] = some b ∧
      masked [[0x01, 0x02, 0x03, 0x04]] b.sent = .ok [noteRead.val] ∧
      serverMachine.exec Machine.anyStep (Server.start []) twoPlayers = some s ∧
      s.next (.read 1 (some noteRead.val)) = some after ∧ after.sentTo ⟨2, "", 6⟩ = [[0x90]] ∧
      (listening.midiNetRecvCb willing 0 (some [[0x89, 0x00, 0x82], [0x01, 0x90]]) errOk).2.inQueue.contents.map
        Cell.byte = [0x90] := by
  have checked : (Gateway.bridgeMachine.exec Machine.anyStep (Gateway.Bridge.start { initial := [] })
      [.atariWrites [0x90], .enter, .select, .readOut, .sendOut]).any
        (fun b => decide (b.sent = [(Ws.opBinary, [0x90])])) = true := by decide +kernel
  obtain ⟨b, executed, sent⟩ := (Option.any_eq_true _ _).mp checked
  have sent := of_decide_eq_true sent
  have sends : masked [[0x01, 0x02, 0x03, 0x04]] b.sent = .ok [noteRead.val] := by
    rw [sent]
    decide +kernel
  have serves : (serverMachine.exec Machine.anyStep (Server.start []) twoPlayers).any (fun s =>
      (s.next (.read 1 (some noteRead.val))).any fun after =>
        decide ((s.rooms.rings 0).players = [⟨1, "", 5⟩, ⟨2, "", 6⟩] ∧
          (s.rooms.rings 0).pred 2 = some 1 ∧ s.sentTo ⟨2, "", 6⟩ = [] ∧
          s.readFrom ⟨1, "", 5⟩ = [] ∧ after.sentTo ⟨2, "", 6⟩ = [[0x90]]) &&
        (after.tasks 1).any fun task => task.carrier.isWs) = true := by decide +kernel
  obtain ⟨s, reached, steps⟩ := (Option.any_eq_true _ _).mp serves
  obtain ⟨after, step, checks⟩ := (Option.any_eq_true _ _).mp steps
  rw [Bool.and_eq_true, decide_eq_true_eq] at checks
  obtain ⟨⟨players, next, unsent, unread, passed⟩, held⟩ := checks
  obtain ⟨task, mine, ws⟩ := (Option.any_eq_true _ _).mp held
  refine ⟨b, s, after, executed, sends, reached, step, passed, ?_⟩
  have sender : Sender [0x90] [] [noteRead.val].flatten := by
    refine Sender.gateway [] [.atariWrites [0x90], .enter, .select, .readOut, .sendOut] b [[0x01, 0x02, 0x03, 0x04]]
      [noteRead.val] [] (Machine.run_of_exec executed) ?_ ?_ sends ?_
    · rw [sent]
      exact ⟨rfl, by simp⟩
    · rw [sent]
      simp [Ws.opBinary, Ws.opPong]
    · rw [sent]
      decide
  have fresh : Fresh 0 listening := ⟨rfl, rfl, rfl, by decide, rfl, by decide +kernel⟩
  have receiver := Receiver.firmware willing 0 listening _ _ _ _ fresh
    (Session.chain [[0x89, 0x00, 0x82], [0x01, 0x90]] .start (by decide +kernel) (by decide +kernel))
  have path := byte_path sender receiver [] twoPlayers s (Machine.run_of_exec reached) 0 (s.rooms.rings 0)
    [.read 1 (some noteRead.val)] after (.snoc _ .nil rfl step) ⟨1, "", 5⟩ ⟨2, "", 6⟩ (by simp [players])
    (by simp [players]) next task mine ws (by decide) (by decide) (by simp [unsent])
    [.ping, .data [0x90]] [[0x89, 0x00], [0x82, 0x01, 0x90]] (by rw [passed]; rfl) (by simp) rfl (by decide)
  have whole := path.2 trivial (by decide) (by decide)
  rw [unsent, unread] at whole
  exact (List.append_nil _).symm.trans whole

end MidiToIp.System
