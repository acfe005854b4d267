import Mathlib.Data.List.Basic
import MidiToIp.Midi.DecoderTrace
import MidiToIp.WebSocket.ServerFrame

set_option autoImplicit false

-- The handshake buffer takes whatever its segments carry, so frame bytes count against the limit that
-- is meant for the header.

namespace MidiToIp.Midi

open Octets MidiWs Machines

namespace Firmware

theorem headerEnd_bounds (header : Bytes) (n : Nat) (found : headerEnd header = some n) :
    4 ≤ n ∧ n ≤ header.length := by
  fun_induction headerEnd header generalizing n with
  | case1 rest =>
    obtain rfl := Option.some.inj found
    simp
  | case2 b rest _ ih =>
    obtain ⟨m, earlier, rfl⟩ := Option.map_eq_some_iff.mp found
    have bounds := ih m earlier
    simp only [List.length_cons]
    omega
  | case3 => simp at found

theorem headerEnd_append (header rest : Bytes) (n : Nat) (found : headerEnd header = some n) :
    headerEnd (header ++ rest) = some n := by
  fun_induction headerEnd header generalizing n with
  | case1 tail => exact found
  | case2 b tail other ih =>
    obtain ⟨m, earlier, rfl⟩ := Option.map_eq_some_iff.mp found
    have bounds := headerEnd_bounds tail m earlier
    match tail, bounds with
    | c :: d :: e :: tail, _ =>
      have later := ih m earlier
      simp only [List.cons_append] at later ⊢
      rw [headerEnd, later]
      · rfl
      · intro again first second
        simp only [List.cons.injEq] at second
        obtain ⟨rfl, rfl, rfl, -⟩ := second
        exact other tail first rfl
    | [], small | [_], small | [_, _], small => simp at small; omega
  | case3 => simp at found

theorem headerEnd_prefix (header seen rest : Bytes) (whole : header = seen ++ rest)
    (last : headerEnd header = some header.length) (short : seen.length < header.length) :
    headerEnd seen = none := by
  cases found : headerEnd seen with
  | none => rfl
  | some n =>
    have bounds := headerEnd_bounds seen n found
    have same := headerEnd_append seen rest n found
    rw [← whole, last] at same
    obtain rfl := Option.some.inj same
    omega

end Firmware

theorem feedBytes_frame (t : Trace) (frame : ServerFrame) (atStart : t.dec.state = .op)
    (notClose : frame.opcode ≠ 8) :
    ∃ d, d.state = .op ∧
      feedBytes tracer t frame.wire =
        (true, { dec := d, closed := t.closed, pushed := t.pushed ++ frame.data }) := by
  cases control : frame.isControl with
  | false =>
    obtain ⟨d, state, fed⟩ := feedBytes_dataFrame tracer tracer_lawful t frame atStart control
    exact ⟨d, state, by rw [fed]; simp [tracer, ServerFrame.data, control]⟩
  | true =>
    have known := frame.known
    have other : ¬ UInt8.ofNat frame.opcode = midiWsOpClose := by
      intro same
      have value := congrArg UInt8.toNat same
      simp [midiWsOpClose] at value
      omega
    obtain ⟨d, fed⟩ := feedBytes_controlFrame tracer tracer_lawful t frame atStart control
    refine ⟨{ d with state := .op }, rfl, ?_⟩
    rw [fed]
    simp [tracer, ServerFrame.data, control, other]

theorem feedBytes_frames (t : Trace) (frames : List ServerFrame) (atStart : t.dec.state = .op)
    (noClose : ∀ frame ∈ frames, frame.opcode ≠ 8) :
    ∃ d, feedBytes tracer t (frames.map ServerFrame.wire).flatten =
      (true, { dec := d, closed := t.closed, pushed := t.pushed ++ frames.flatMap ServerFrame.data }) := by
  induction frames generalizing t with
  | nil => exact ⟨t.dec, by simp⟩
  | cons frame rest ih =>
    obtain ⟨middle, state, fed⟩ := feedBytes_frame t frame atStart (noClose frame (by simp))
    obtain ⟨d, later⟩ := ih ⟨middle, t.closed, t.pushed ++ frame.data⟩ state
      fun other member => noClose other (by simp [member])
    refine ⟨d, ?_⟩
    rw [List.map_cons, List.flatten_cons, feedBytes_append, fed]
    simpa using later

theorem midiWsDecode_closed (t : Trace) (buffer : Bytes) (closed : t.closed = true) :
    (midiWsDecode tracer t buffer).2.closed = true := by
  have kept (t : Trace) (opcode : UInt8) (p : Bytes) (stays : t.closed = true) :
      (tracer.onCtl opcode p t).closed = true := by
    simp only [tracer]
    split
    · rfl
    · exact stays
  exact midiWsDecode_keeps tracer (fun t => t.closed = true) (fun _ _ stays => stays)
    (fun _ _ stays => stays) kept t buffer closed

theorem feedBytes_open (t final : Trace) (bytes : Bytes) (settled : ¬ atFrameEnd t.dec)
    (fed : feedBytes tracer t bytes = (true, final)) (open_ : final.closed = false) :
    t.closed = false := by
  cases closed : t.closed with
  | false => rfl
  | true =>
    have stays := midiWsDecode_closed t bytes closed
    rw [midiWsDecode_eq_feedBytes tracer tracer_lawful t bytes settled, fed, open_] at stays
    exact absurd stays (by simp)

namespace Firmware

variable (lwip : Lwip)

theorem call_follows (base s : Firmware) (pcb : Nat) (t : Trace) (c : LwipCall)
    (follows : Follows base pcb s t) : Follows base pcb (call c s) t :=
  ⟨follows.dec, follows.cfg,
    ⟨follows.records.consumed, follows.records.written, follows.records.session⟩,
    follows.contents, follows.untouched, follows.dropped⟩

theorem publish_follows (base s : Firmware) (pcb : Nat) (t : Trace) (open_ : t.closed = false)
    (follows : Follows base pcb s t) :
    ∃ shared, Follows { base with shared := shared } pcb (publish s) t := by
  obtain ⟨shared, effect, -⟩ := publish_effect s
  obtain ⟨link, outQueue, -⟩ := follows.untouched open_
  rw [effect]
  exact ⟨shared, follows.dec, follows.cfg,
    ⟨follows.records.consumed, follows.records.written, follows.records.session⟩,
    follows.contents, fun _ => ⟨link, outQueue, rfl⟩, by simp [open_]⟩

theorem decodeChain_follows (base : Firmware) (pcb : Nat) (chain : List Bytes) (s : Firmware)
    (t final : Trace) (follows : Follows base pcb s t) (up : base.link.netState = .up)
    (settled : ¬ atFrameEnd t.dec) (open_ : final.closed = false)
    (fed : feedBytes tracer t chain.flatten = (true, final)) :
    (decodeChain lwip pcb chain s).1 = true ∧
      Follows base pcb (decodeChain lwip pcb chain s).2 final := by
  induction chain generalizing s t with
  | nil =>
    obtain rfl : t = final := by simpa using fed
    exact ⟨rfl, follows⟩
  | cons buffer rest ih =>
    obtain ⟨answer, after⟩ := (host_follows lwip pcb base).midiWsDecode_related s t buffer follows
    have buffered := midiWsDecode_eq_feedBytes tracer tracer_lawful t buffer settled
    have settledAfter := feedBytes_settled tracer tracer_lawful t buffer settled
    rw [buffered] at answer after
    rw [List.flatten_cons, feedBytes_append] at fed
    rw [decodeChain]
    generalize midiWsDecode (host lwip pcb) s buffer = decoded at *
    generalize feedBytes tracer t buffer = told at *
    obtain ⟨ok, s'⟩ := decoded
    obtain ⟨told, t'⟩ := told
    obtain rfl : ok = told := answer
    cases ok with
    | false => simp at fed
    | true =>
      simp only [if_true] at fed after settledAfter ⊢
      have still := feedBytes_open t' final rest.flatten settledAfter fed open_
      rw [if_neg (by rw [(after.untouched still).1, up]; simp)]
      exact ih s' t' after settledAfter fed

def deliver (pcb : Nat) : List (List Bytes) → Firmware → Firmware
  | [], s => s
  | chain :: rest, s =>
    deliver pcb rest
      (if s.link.isOpen pcb then (midiNetRecvCb lwip pcb (some chain) errOk s).2 else s)

theorem deliver_closed (pcb : Nat) (chains : List (List Bytes)) (s : Firmware)
    (gone : s.link.isOpen pcb = false) : deliver lwip pcb chains s = s := by
  induction chains with
  | nil => rfl
  | cons chain rest ih => simpa [deliver, gone] using ih

theorem deliver_reset (pcb : Nat) (chains : List (List Bytes)) (s : Firmware)
    (mine : s.link.netPcb = some pcb) :
    (deliver lwip pcb chains (midiNetReset lwip s)).link.netState = .down := by
  obtain ⟨calls, effect⟩ := midiNetReset_effect lwip s
  have gone : (midiNetReset lwip s).link.isOpen pcb = false := by
    rw [effect]
    simp [afterDrop, Link.dropped, Link.isOpen, mine]
  rw [deliver_closed lwip pcb chains _ gone, effect]
  rfl

theorem deliver_follows (base : Firmware) (pcb : Nat) (chains : List (List Bytes)) (s : Firmware)
    (t final : Trace) (follows : Follows base pcb s t) (ws : base.cfg.transport = .ws)
    (up : base.link.netState = .up) (mine : base.link.netPcb = some pcb)
    (isOpen : base.link.isOpen pcb = true) (settled : ¬ atFrameEnd t.dec)
    (openT : t.closed = false) (open_ : final.closed = false)
    (fed : feedBytes tracer t (chains.map List.flatten).flatten = (true, final)) :
    ∃ shared, Follows { base with shared := shared } pcb (deliver lwip pcb chains s) final := by
  induction chains generalizing base s t with
  | nil =>
    obtain rfl : t = final := by simpa using fed
    exact ⟨base.shared, follows⟩
  | cons chain rest ih =>
    have link := (follows.untouched openT).1
    rw [List.map_cons, List.flatten_cons, feedBytes_append] at fed
    have settledAfter := feedBytes_settled tracer tracer_lawful t chain.flatten settled
    generalize told : feedBytes tracer t chain.flatten = middle at *
    obtain ⟨ok, t'⟩ := middle
    cases ok with
    | false => simp at fed
    | true =>
      simp only [if_true] at fed settledAfter
      have still := feedBytes_open t' final _ settledAfter fed open_
      obtain ⟨answer, after⟩ := decodeChain_follows lwip base pcb chain s t t' follows up settled
        still told
      have delivered : ∃ shared, Follows { base with shared := shared } pcb
          (midiNetRecvCb lwip pcb (some chain) errOk s).2 t' := by
        have state : s.link.netState = .up := by rw [link, up]
        simp only [midiNetRecvCb, follows.cfg, ws, recvWs, recvByState, state, recvFrames]
        generalize decodeChain lwip pcb chain s = decoded at *
        obtain ⟨ok, s'⟩ := decoded
        obtain rfl : ok = true := answer
        have linkAfter := (after.untouched still).1
        obtain ⟨shared, published⟩ := publish_follows base s' pcb t' still after
        have linkPublished := (published.untouched still).1
        have stillUp : s'.link.netState = .up := by rw [linkAfter, up]
        simp only [stillUp, linkPublished, up, mine, ne_eq, not_true_eq_false, reduceCtorEq,
          not_false_eq_true, and_self, if_true, if_false]
        exact ⟨shared, call_follows _ _ pcb t' _ published⟩
      obtain ⟨shared, reached⟩ := delivered
      rw [deliver, if_pos (by rw [link, isOpen])]
      exact ih { base with shared := shared } _ t' reached ws up mine isOpen settledAfter still fed

structure ValidResponse (key header : Bytes) : Prop where
  ends : headerEnd header = some header.length
  accepted : validUpgrade key header = true
  fits : header.length ≤ hsBufSize

structure Awaits (s : Firmware) (pcb : Nat) (seen : Bytes) : Prop where
  transport : s.cfg.transport = .ws
  state : s.link.netState = .wsHandshake
  mine : s.link.netPcb = some pcb
  isOpen : s.link.isOpen pcb = true
  dec : s.wsDec = midiWsDecoderInit
  buffered : s.wsHsBuf = seen

instance (key header : Bytes) : Decidable (ValidResponse key header) :=
  decidable_of_iff
    (headerEnd header = some header.length ∧ validUpgrade key header = true ∧
      header.length ≤ hsBufSize)
    ⟨fun ⟨ends, accepted, fits⟩ => ⟨ends, accepted, fits⟩,
      fun valid => ⟨valid.ends, valid.accepted, valid.fits⟩⟩

instance (s : Firmware) (pcb : Nat) (seen : Bytes) : Decidable (Awaits s pcb seen) :=
  decidable_of_iff
    (s.cfg.transport = .ws ∧ s.link.netState = .wsHandshake ∧ s.link.netPcb = some pcb ∧
      s.link.isOpen pcb = true ∧ s.wsDec = midiWsDecoderInit ∧ s.wsHsBuf = seen)
    ⟨fun ⟨transport, state, mine, isOpen, dec, buffered⟩ =>
        ⟨transport, state, mine, isOpen, dec, buffered⟩,
      fun awaits => ⟨awaits.transport, awaits.state, awaits.mine, awaits.isOpen, awaits.dec,
        awaits.buffered⟩⟩

theorem midiNetConnectedCb_awaits (pcb : Nat) (s : Firmware) (ws : s.cfg.transport = .ws)
    (mine : s.link.netPcb = some pcb) (isOpen : s.link.isOpen pcb = true)
    (sent : (midiNetConnectedCb lwip errOk s).2.link.netState ≠ .down) :
    Awaits (midiNetConnectedCb lwip errOk s).2 pcb [] := by
  have started : (midiNetConnectedCb lwip errOk s).2 = midiWsStartHandshake lwip s := by
    simp [midiNetConnectedCb, ws]
  rw [started] at sent ⊢
  obtain ⟨rand, key, calls, effect | effect⟩ := midiWsStartHandshake_effect lwip s
  · rw [effect]
    exact ⟨ws, rfl, mine, isOpen, rfl, rfl⟩
  · rw [effect] at sent
    exact absurd rfl sent

/-- The link of `s` has come up without a drop, and the data bytes are in the IN ring. -/
def Upgraded (s : Firmware) (pcb : Nat) (frames : List ServerFrame) (after : Firmware) : Prop :=
  after.link = { s.link with netState := .up } ∧
    after.inQueue.contents =
      (s.inQueue.contents ++ received pcb (frames.flatMap ServerFrame.data)).take (2 ^ queueBits - 1)

def bytesUntil (need : Nat) : List (List Bytes) → Nat
  | [] => 0
  | chain :: rest =>
    if need ≤ chain.flatten.length then chain.flatten.length
    else chain.flatten.length + bytesUntil (need - chain.flatten.length) rest

theorem midiNetRecvCb_handshake (pcb : Nat) (chain : List Bytes) (s : Firmware) (seen : Bytes)
    (awaits : Awaits s pcb seen) :
    (midiNetRecvCb lwip pcb (some chain) errOk s).2 = recvWs lwip pcb chain s ∧
      recvByState lwip pcb chain s = midiWsHandshakeRecv lwip pcb chain s := by
  have ok : ¬ errOk ≠ errOk := by simp
  constructor
  · simp only [midiNetRecvCb, awaits.transport, if_neg ok, if_true]
  · simp only [recvByState, awaits.state]

theorem handshake_more (pcb : Nat) (chain : List Bytes) (s : Firmware) (seen : Bytes)
    (awaits : Awaits s pcb seen) (fits : (seen ++ chain.flatten).length ≤ hsBufSize)
    (open_ : headerEnd (seen ++ chain.flatten) = none) :
    ∃ calls, (midiNetRecvCb lwip pcb (some chain) errOk s).2 =
      { s with wsHsBuf := seen ++ chain.flatten, calls := calls } := by
  obtain ⟨callback, byState⟩ := midiNetRecvCb_handshake lwip pcb chain s seen awaits
  rw [callback]
  simp only [recvWs, byState, midiWsHandshakeRecv, awaits.buffered, if_neg (Nat.not_lt.mpr fits), open_,
    List.take_of_length_le fits, awaits.state, awaits.mine]
  exact ⟨_, rfl⟩

theorem handshake_long (pcb : Nat) (chain : List Bytes) (s : Firmware) (seen : Bytes)
    (awaits : Awaits s pcb seen) (long : hsBufSize < (seen ++ chain.flatten).length) :
    (midiNetRecvCb lwip pcb (some chain) errOk s).2 =
      midiNetReset lwip { s with wsHsBuf := (seen ++ chain.flatten).take hsBufSize } := by
  obtain ⟨callback, byState⟩ := midiNetRecvCb_handshake lwip pcb chain s seen awaits
  rw [callback]
  simp only [recvWs, byState, midiWsHandshakeRecv, awaits.buffered, if_pos long]

theorem handshake_done (pcb : Nat) (chain : List Bytes) (s : Firmware) (seen header first : Bytes)
    (t : Trace) (awaits : Awaits s pcb seen) (valid : ValidResponse s.wsKey header)
    (whole : seen ++ chain.flatten = header ++ first)
    (fits : (seen ++ chain.flatten).length ≤ hsBufSize)
    (fed : feedBytes tracer { dec := midiWsDecoderInit } first = (true, t))
    (open_ : t.closed = false) :
    ∃ shared, Follows
      { midiNetMarkUp { s with wsHsBuf := seen ++ chain.flatten } with shared := shared } pcb
      (midiNetRecvCb lwip pcb (some chain) errOk s).2 t := by
  have ends := headerEnd_append header first header.length valid.ends
  obtain ⟨callback, byState⟩ := midiNetRecvCb_handshake lwip pcb chain s seen awaits
  rw [callback]
  simp only [recvWs, byState, midiWsHandshakeRecv, awaits.buffered, if_neg (Nat.not_lt.mpr fits),
    List.take_of_length_le fits]
  rw [whole, ends]
  simp only [List.take_left, List.drop_left, valid.accepted, Bool.not_true, Bool.false_eq_true,
    if_false]
  generalize base_ : midiNetMarkUp { s with wsHsBuf := header ++ first } = base
  have up : base.link.netState = .up := by rw [← base_]; rfl
  have mine : base.link.netPcb = some pcb := by rw [← base_]; exact awaits.mine
  have start : Follows base pcb base { dec := midiWsDecoderInit } := by
    refine ⟨?_, rfl, .refl base, by simp [received, Queue.contents_take], fun _ => ⟨rfl, rfl, rfl⟩,
      by simp⟩
    rw [← base_]
    exact awaits.dec
  by_cases more : header.length < (header ++ first).length
  · have settled : ¬ atFrameEnd (tracer.dec { dec := midiWsDecoderInit }) := by decide
    obtain ⟨answer, after⟩ :=
      (host_follows lwip pcb base).midiWsDecode_related base _ first start
    rw [midiWsDecode_eq_feedBytes tracer tracer_lawful _ first settled, fed] at answer after
    rw [if_pos more]
    generalize midiWsDecode (host lwip pcb) base first = decoded at *
    obtain ⟨ok, s'⟩ := decoded
    obtain rfl : ok = true := answer
    obtain ⟨shared, published⟩ := publish_follows base s' pcb t open_ after
    have link := (published.untouched open_).1
    simp only [link, up, mine, ne_eq, reduceCtorEq, not_false_eq_true, and_self, if_true]
    exact ⟨shared, call_follows _ _ pcb t _ published⟩
  · obtain rfl : first = [] := by
      rw [List.length_append] at more
      exact List.length_eq_zero_iff.mp (by omega)
    obtain rfl : { dec := midiWsDecoderInit } = t := by simpa using fed
    rw [if_neg more]
    simp only [up, mine, ne_eq, reduceCtorEq, not_false_eq_true, and_self, if_true]
    exact ⟨base.shared, call_follows base base pcb _ _ start⟩

theorem deliver_upgrade (pcb : Nat) (chains : List (List Bytes)) (s : Firmware)
    (seen header : Bytes) (frames : List ServerFrame) (awaits : Awaits s pcb seen)
    (valid : ValidResponse s.wsKey header) (noClose : ∀ frame ∈ frames, frame.opcode ≠ 8)
    (short : seen.length < header.length)
    (cut : seen ++ (chains.map List.flatten).flatten =
      header ++ (frames.map ServerFrame.wire).flatten) :
    Upgraded s pcb frames (deliver lwip pcb chains s) ↔
      seen.length + bytesUntil (header.length - seen.length) chains ≤ hsBufSize := by
  induction chains generalizing s seen with
  | nil =>
    have length := congrArg List.length cut
    simp at length
    omega
  | cons chain rest ih =>
    have size : (seen ++ chain.flatten).length = seen.length + chain.flatten.length :=
      List.length_append
    have fits := valid.fits
    rw [List.map_cons, List.flatten_cons, ← List.append_assoc] at cut
    rw [deliver, if_pos awaits.isOpen, bytesUntil]
    by_cases done : header.length ≤ (seen ++ chain.flatten).length
    · obtain ⟨first, whole, left⟩ : ∃ first, seen ++ chain.flatten = header ++ first ∧
          (frames.map ServerFrame.wire).flatten = first ++ (rest.map List.flatten).flatten := by
        rcases List.append_eq_append_iff.mp cut with ⟨more, ends, later⟩ | ⟨first, ends, later⟩
        · have none_ : more = [] := by
            have length := congrArg List.length ends
            rw [List.length_append] at length
            exact List.length_eq_zero_iff.mp (by omega)
          subst none_
          exact ⟨[], by simpa using ends.symm, by simpa using later.symm⟩
        · exact ⟨first, ends, later⟩
      rw [if_pos (by omega), ← size]
      by_cases long : hsBufSize < (seen ++ chain.flatten).length
      · rw [handshake_long lwip pcb chain s seen awaits long]
        have down := deliver_reset lwip pcb rest
          { s with wsHsBuf := (seen ++ chain.flatten).take hsBufSize } awaits.mine
        refine iff_of_false ?_ (Nat.not_le.mpr long)
        rintro ⟨link, -⟩
        rw [link] at down
        simp at down
      · obtain ⟨d, fed⟩ := feedBytes_frames { dec := midiWsDecoderInit } frames rfl noClose
        rw [left, feedBytes_append] at fed
        have settled := feedBytes_settled tracer tracer_lawful { dec := midiWsDecoderInit } first
          (by decide)
        generalize told : feedBytes tracer { dec := midiWsDecoderInit } first = middle at *
        obtain ⟨ok, t⟩ := middle
        cases ok with
        | false => simp at fed
        | true =>
          simp only [if_true] at fed settled
          have open_ := feedBytes_open t _ _ settled fed rfl
          obtain ⟨shared, follows⟩ := handshake_done lwip pcb chain s seen header first t awaits
            valid whole (Nat.not_lt.mp long) told open_
          obtain ⟨shared, final⟩ := deliver_follows lwip _ pcb rest _ t _ follows awaits.transport
            rfl awaits.mine awaits.isOpen settled open_ rfl fed
          refine iff_of_true ⟨(final.untouched rfl).1, final.contents⟩ (Nat.not_lt.mp long)
    · obtain ⟨missing, whole, -⟩ : ∃ missing, header = (seen ++ chain.flatten) ++ missing ∧
          (rest.map List.flatten).flatten =
            missing ++ (frames.map ServerFrame.wire).flatten := by
        rcases List.append_eq_append_iff.mp cut with ⟨missing, ends, later⟩ | ⟨first, ends, -⟩
        · exact ⟨missing, ends, later⟩
        · rw [ends, List.length_append] at done
          omega
      have open_ := headerEnd_prefix header _ missing whole valid.ends (Nat.not_le.mp done)
      obtain ⟨calls, effect⟩ := handshake_more lwip pcb chain s seen awaits (by omega) open_
      have later := ih { s with wsHsBuf := seen ++ chain.flatten, calls := calls }
        (seen ++ chain.flatten)
        ⟨awaits.transport, awaits.state, awaits.mine, awaits.isOpen, awaits.dec, rfl⟩ valid
        (Nat.not_le.mp done) cut
      rw [effect, if_neg (by omega), ← Nat.add_assoc, ← size,
        show header.length - seen.length - chain.flatten.length =
          header.length - (seen ++ chain.flatten).length by omega]
      exact later

theorem deliver_anyCut (pcb : Nat) (s : Firmware) (header : Bytes) (frames : List ServerFrame)
    (chains : List (List Bytes)) (awaits : Awaits s pcb []) (valid : ValidResponse s.wsKey header)
    (noClose : ∀ frame ∈ frames, frame.opcode ≠ 8)
    (cut : (chains.map List.flatten).flatten = header ++ (frames.map ServerFrame.wire).flatten) :
    Upgraded s pcb frames (deliver lwip pcb chains s) ↔
      bytesUntil header.length chains ≤ hsBufSize := by
  have bounds := headerEnd_bounds header _ valid.ends
  have upgrade := deliver_upgrade lwip pcb chains s [] header frames awaits valid noClose
    (by simp; omega) (by simpa using cut)
  simpa using upgrade

end Firmware

theorem deliver_anyCut_split :
    ∃ s, (linkMachine willing).exec Machine.anyStep (Firmware.midiInit wsSettings 0)
        [.poll true, .connected 0 errOk] = some s ∧
      Firmware.Upgraded s 0
        [⟨9, [], by decide, by decide, by decide⟩, ⟨2, [0x90], by decide, by decide, by decide⟩]
        (Firmware.deliver willing 0
          [[bootResponse.take 50], [bootResponse.drop 50, [0x89, 0x00, 0x82]], [[0x01, 0x90]]] s) := by
  have checked : ((linkMachine willing).exec Machine.anyStep (Firmware.midiInit wsSettings 0)
      [.poll true, .connected 0 errOk]).any (fun s =>
        decide (Firmware.Awaits s 0 []) && decide (Firmware.ValidResponse s.wsKey bootResponse)) =
      true := by
    decide +kernel
  obtain ⟨s, executed, checks⟩ := (Option.any_eq_true _ _).mp checked
  simp only [Bool.and_eq_true, decide_eq_true_eq] at checks
  refine ⟨s, executed, ?_⟩
  exact (Firmware.deliver_anyCut willing 0 s bootResponse _ _ checks.1 checks.2 (by simp)
    (by decide +kernel)).mpr (by decide +kernel)

-- One segment with the response and a data frame of 400 bytes.
theorem longSegment_notUpgraded :
    ¬ ∀ (lwip : Lwip) (pcb : Nat) (s : Firmware) (header : Bytes) (frames : List ServerFrame)
      (chains : List (List Bytes)),
      Firmware.Awaits s pcb [] → Firmware.ValidResponse s.wsKey header →
        (∀ frame ∈ frames, frame.opcode ≠ 8) →
        (chains.map List.flatten).flatten = header ++ (frames.map ServerFrame.wire).flatten →
        Firmware.Upgraded s pcb frames (Firmware.deliver lwip pcb chains s) := by
  intro always
  let frame : ServerFrame :=
    ⟨2, List.replicate 400 0x90, by decide, by rw [List.length_replicate]; decide, by decide⟩
  have checked : ((linkMachine willing).exec Machine.anyStep (Firmware.midiInit wsSettings 0)
      [.poll true, .connected 0 errOk]).any (fun s =>
        decide (Firmware.Awaits s 0 []) && decide (Firmware.ValidResponse s.wsKey bootResponse) &&
          (Firmware.deliver willing 0 [[bootResponse ++ frame.wire]] s).link.netState == .down) =
      true := by
    decide +kernel
  obtain ⟨s, -, checks⟩ := (Option.any_eq_true _ _).mp checked
  simp only [Bool.and_eq_true, decide_eq_true_eq, beq_iff_eq] at checks
  obtain ⟨⟨awaits, valid⟩, down⟩ := checks
  have data : ∀ other ∈ [frame], other.opcode ≠ 8 := by
    intro other member
    rw [List.mem_singleton.mp member]
    decide
  have upgraded := always willing 0 s bootResponse [frame] [[bootResponse ++ frame.wire]] awaits
    valid data (by simp)
  rw [upgraded.1] at down
  simp at down

end MidiToIp.Midi
