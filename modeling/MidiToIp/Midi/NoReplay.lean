import Mathlib.Data.List.Basic
import MidiToIp.Midi.DecoderTrace

set_option autoImplicit false

namespace MidiToIp.Midi

open Octets MidiWs Machines

def Trace.quiet (t : Trace) : Bool := t.pushed.isEmpty && t.dec == midiWsDecoderInit

def closesEnd (d : MidiWsDecoder) : List Bytes → Bool
  | [] => true
  | buffer :: rest =>
    match traced d buffer with
    | (false, _) => true
    | (true, t) => if t.closed then t.quiet else closesEnd t.dec rest

structure OwnBytes (s : Firmware) : Prop where
  downNoPcb : s.link.netState = .down → s.link.netPcb = none
  inOwn : ∀ c ∈ s.inQueue.contents, s.link.netPcb = some c.mark
  shown : ∀ c, s.shared.inOrigin = some c → s.link.netPcb = some c.mark
  outOwn : ∀ c ∈ s.outQueue.contents, c.mark = s.link.session
  consumedOwn : ∀ entry ∈ s.consumed, entry.2 = some entry.1.mark
  writtenOwn : ∀ entry ∈ s.written, entry.1.mark = entry.2

def Clean (s : Firmware) : Prop :=
  s.inQueue.contents = [] ∧ s.outQueue.contents = [] ∧ s.wsDec = midiWsDecoderInit ∧ s.wsHsBuf = []

structure Keeps (s after : Firmware) : Prop where
  own : OwnBytes after
  counted : s.link.netState ≠ .down → after.link.netState = .down →
    after.link.session ≠ s.link.session
  clean : after.link.session ≠ s.link.session → Clean after

theorem OwnBytes.same {s : Firmware} (own : OwnBytes s) (after : Firmware)
    (link : after.link = s.link) (inQueue : after.inQueue = s.inQueue)
    (outQueue : after.outQueue = s.outQueue) (shared : after.shared.inOrigin = s.shared.inOrigin)
    (consumed : after.consumed = s.consumed) (written : after.written = s.written) :
    OwnBytes after where
  downNoPcb := by rw [link]; exact own.downNoPcb
  inOwn := by rw [link, inQueue]; exact own.inOwn
  shown := by rw [link, shared]; exact own.shown
  outOwn := by rw [link, outQueue]; exact own.outOwn
  consumedOwn := by rw [consumed]; exact own.consumedOwn
  writtenOwn := by rw [written]; exact own.writtenOwn

theorem Keeps.of_link {s after : Firmware} (own : OwnBytes after) (link : after.link = s.link) :
    Keeps s after where
  own := own
  counted := fun up down => absurd (link ▸ down) up
  clean := fun changed => absurd (by rw [link]) changed

theorem Keeps.from_same {s middle after : Firmware} (keeps : Keeps middle after)
    (link : middle.link = s.link) : Keeps s after where
  own := keeps.own
  counted := by rw [← link]; exact keeps.counted
  clean := by rw [← link]; exact keeps.clean

namespace Firmware

variable (lwip : Lwip)

theorem afterDrop_keeps (s before : Firmware) (link : Link) (calls : List LwipCall)
    (own : OwnBytes s) (records : Records s before) (none_ : link.netPcb = none)
    (session : s.link.session ≤ link.session) : Keeps s (before.afterDrop link calls) where
  own :=
    { downNoPcb := fun _ => none_
      inOwn := by simp [afterDrop]
      shown := by
        intro c shows
        simp only [afterDrop] at shows
        rw [flushed_origin] at shows
        simp at shows
      outOwn := by simp [afterDrop]
      consumedOwn := by
        simp only [afterDrop, records.consumed]
        exact own.consumedOwn
      writtenOwn := by
        simp only [afterDrop, records.written]
        exact own.writtenOwn }
  counted := by
    intro _ _
    simp only [afterDrop]
    omega
  clean := fun _ => ⟨by simp [afterDrop], by simp [afterDrop], rfl, rfl⟩

theorem midiNetReset_keeps (s before : Firmware) (own : OwnBytes s) (records : Records s before) :
    Keeps s (midiNetReset lwip before) := by
  obtain ⟨calls, effect⟩ := midiNetReset_effect lwip before
  rw [effect]
  exact afterDrop_keeps s before _ calls own records rfl records.session

theorem publish_own (s : Firmware) (own : OwnBytes s) : OwnBytes (publish s) := by
  obtain ⟨shared, effect, origin⟩ := publish_effect s
  rw [effect]
  refine { own with shown := ?_ }
  intro c shows
  simp only [origin] at shows
  exact own.inOwn c (List.mem_of_head? shows)

theorem publish_keeps (s after : Firmware) (keeps : Keeps s after) : Keeps s (publish after) := by
  have own := publish_own after keeps.own
  obtain ⟨shared, effect, -⟩ := publish_effect after
  rw [effect] at own ⊢
  exact ⟨own, keeps.counted, keeps.clean⟩

theorem call_keeps (s after : Firmware) (c : LwipCall) (keeps : Keeps s after) :
    Keeps s (call c after) :=
  ⟨keeps.own.same _ rfl rfl rfl rfl rfl rfl, keeps.counted, keeps.clean⟩

theorem publish_records (s after : Firmware) (records : Records s after) :
    Records s (publish after) := by
  obtain ⟨shared, effect, -⟩ := publish_effect after
  rw [effect]
  exact ⟨records.consumed, records.written, records.session⟩

theorem midiNetConnectTo_keeps (ip : IpAddr) (towards : Bytes) (s : Firmware) (own : OwnBytes s)
    (free : connects lwip s → s.link.netPcb = none) : Keeps s (midiNetConnectTo lwip ip towards s) := by
  obtain ⟨calls, ⟨taken, effect⟩ | ⟨-, link, rfl | rfl, effect⟩⟩ :=
    midiNetConnectTo_effect lwip ip towards s
  · have none_ := free taken
    have empty : s.inQueue.contents = [] := by
      apply List.eq_nil_iff_forall_not_mem.mpr
      intro c member
      have held := own.inOwn c member
      simp [none_] at held
    have hidden : s.shared.inOrigin = none := by
      apply Option.eq_none_iff_forall_ne_some.mpr
      intro c shows
      have held := own.shown c shows
      simp [none_] at held
    rw [effect]
    exact
      { own :=
          { own with
            downNoPcb := by simp [Link.opened]
            inOwn := by simp [empty]
            shown := by simp [hidden] }
        counted := by simp [Link.opened]
        clean := fun changed => absurd rfl changed }
  · rw [effect]
    exact afterDrop_keeps s s _ calls own (.refl s) rfl (Nat.le_refl _)
  · rw [effect]
    exact afterDrop_keeps s s _ calls own (.refl s) rfl (Nat.le_refl _)

theorem follows_keeps (pcb : Nat) (s after : Firmware) (t : Trace) (own : OwnBytes s)
    (mine : s.link.netPcb = some pcb) (follows : Follows s pcb after t)
    (quiet : t.closed = true → t.quiet = true) : Keeps s after := by
  cases closed : t.closed with
  | false =>
    obtain ⟨link, outQueue, shared⟩ := follows.untouched closed
    have contents := follows.contents
    rw [closed] at contents
    refine Keeps.of_link ?_ link
    exact
      { downNoPcb := by rw [link]; exact own.downNoPcb
        inOwn := by
          intro c member
          rw [link]
          rw [contents] at member
          rcases List.mem_append.mp (List.mem_of_mem_take member) with old | new
          · exact own.inOwn c old
          · rw [mine, received_mark pcb _ c new]
        shown := by rw [link, shared]; exact own.shown
        outOwn := by rw [link, outQueue]; exact own.outOwn
        consumedOwn := by rw [follows.records.consumed]; exact own.consumedOwn
        writtenOwn := by rw [follows.records.written]; exact own.writtenOwn }
  | true =>
    obtain ⟨down, none_, later, out, hs, hidden⟩ := follows.dropped closed
    have settled := quiet closed
    simp only [Trace.quiet, Bool.and_eq_true, List.isEmpty_iff, beq_iff_eq] at settled
    have emptyIn : after.inQueue.contents = [] := by
      rw [follows.contents, closed, settled.1]
      rfl
    exact
      { own :=
          { downNoPcb := fun _ => none_
            inOwn := by simp [emptyIn]
            shown := by simp [hidden]
            outOwn := by simp [out]
            consumedOwn := by rw [follows.records.consumed]; exact own.consumedOwn
            writtenOwn := by rw [follows.records.written]; exact own.writtenOwn }
        counted := fun _ _ => by omega
        clean := fun _ => ⟨emptyIn, out, follows.dec.trans settled.2, hs⟩ }

structure Outcome (s : Firmware) (result : Bool × Firmware) : Prop where
  records : Records s result.2
  keeps : result.1 = true → Keeps s result.2

theorem decodeChain_outcome (pcb : Nat) (chain : List Bytes) (s : Firmware) (own : OwnBytes s)
    (mine : s.link.netPcb = some pcb) (up : s.link.netState = .up)
    (ends : closesEnd s.wsDec chain = true) : Outcome s (decodeChain lwip pcb chain s) := by
  induction chain generalizing s with
  | nil =>
    rw [decodeChain]
    exact ⟨.refl s, fun _ => Keeps.of_link own rfl⟩
  | cons buffer rest ih =>
    obtain ⟨answer, follows⟩ := midiWsDecode_follows lwip pcb s buffer
    rw [closesEnd] at ends
    rw [decodeChain]
    generalize midiWsDecode (host lwip pcb) s buffer = fed at *
    generalize traced s.wsDec buffer = told at *
    obtain ⟨ok, after⟩ := fed
    obtain ⟨told, t⟩ := told
    obtain rfl : ok = told := answer
    cases ok with
    | false => exact ⟨follows.records, by simp⟩
    | true =>
      simp only at ends follows ⊢
      cases closed : t.closed with
      | true =>
        rw [closed, if_pos rfl] at ends
        have down := (follows.dropped closed).1
        have keeps := follows_keeps pcb s after t own mine follows (fun _ => ends)
        rw [if_pos (by rw [down]; simp)]
        exact ⟨follows.records, fun _ => keeps⟩
      | false =>
        obtain ⟨link, -, -⟩ := follows.untouched closed
        have keeps := follows_keeps pcb s after t own mine follows (by simp [closed])
        rw [closed, if_neg (by simp), ← follows.dec] at ends
        rw [if_neg (by rw [link, up]; simp)]
        have later := ih after keeps.own (by rw [link, mine]) (by rw [link, up]) ends
        refine ⟨⟨?_, ?_, ?_⟩, fun accepted => (later.keeps accepted).from_same link⟩
        · exact later.records.consumed.trans follows.records.consumed
        · exact later.records.written.trans follows.records.written
        · exact Nat.le_trans follows.records.session later.records.session

theorem recvFrames_outcome (pcb : Nat) (chain : List Bytes) (s : Firmware) (own : OwnBytes s)
    (mine : s.link.netPcb = some pcb) (up : s.link.netState = .up)
    (ends : closesEnd s.wsDec chain = true) : Outcome s (recvFrames lwip pcb chain s) := by
  have decoded := decodeChain_outcome lwip pcb chain s own mine up ends
  unfold recvFrames
  generalize decodeChain lwip pcb chain s = fed at *
  obtain ⟨ok, after⟩ := fed
  cases ok with
  | false => exact decoded
  | true =>
    simp only
    split
    · exact ⟨publish_records s after decoded.records,
        fun _ => publish_keeps s after (decoded.keeps rfl)⟩
    · exact decoded

def trailing (s : Firmware) (chain : List Bytes) : Option Bytes :=
  let hs := s.wsHsBuf ++ chain.flatten
  if hs.length > hsBufSize then none
  else
    match headerEnd hs with
    | none => none
    | some hdrEnd => if validUpgrade s.wsKey (hs.take hdrEnd) then some (hs.drop hdrEnd) else none

theorem midiWsHandshakeRecv_outcome (pcb : Nat) (chain : List Bytes) (s : Firmware)
    (own : OwnBytes s) (mine : s.link.netPcb = some pcb)
    (ends : ∀ frames, trailing s chain = some frames → closesEnd s.wsDec [frames] = true) :
    Outcome s (midiWsHandshakeRecv lwip pcb chain s) := by
  unfold trailing at ends
  unfold midiWsHandshakeRecv
  simp only at ends ⊢
  generalize s.wsHsBuf ++ chain.flatten = hs at *
  have stored : OwnBytes { s with wsHsBuf := hs.take hsBufSize } :=
    own.same _ rfl rfl rfl rfl rfl rfl
  have recorded : Records s { s with wsHsBuf := hs.take hsBufSize } := ⟨rfl, rfl, Nat.le_refl _⟩
  by_cases long : hs.length > hsBufSize
  · rw [if_pos long]
    exact ⟨recorded, by simp⟩
  rw [if_neg long] at ends ⊢
  cases found : headerEnd hs with
  | none => exact ⟨recorded, fun _ => Keeps.of_link stored rfl⟩
  | some hdrEnd =>
    simp only [found] at ends ⊢
    cases valid : validUpgrade s.wsKey (hs.take hdrEnd) with
    | false =>
      simp only [Bool.not_false, if_true]
      exact ⟨recorded, by simp⟩
    | true =>
      simp only [valid, if_true, Bool.not_true, Bool.false_eq_true, if_false] at ends ⊢
      have up : OwnBytes (midiNetMarkUp { s with wsHsBuf := hs.take hsBufSize }) :=
        { stored with downNoPcb := by simp [midiNetMarkUp] }
      by_cases more : hdrEnd < hs.length
      · rw [if_pos more]
        have closes := ends _ rfl
        obtain ⟨answer, follows⟩ := midiWsDecode_follows lwip pcb
          (midiNetMarkUp { s with wsHsBuf := hs.take hsBufSize }) (hs.drop hdrEnd)
        have sameDec : (midiNetMarkUp { s with wsHsBuf := hs.take hsBufSize }).wsDec = s.wsDec := rfl
        rw [sameDec] at answer follows
        rw [closesEnd] at closes
        generalize midiWsDecode (host lwip pcb)
          (midiNetMarkUp { s with wsHsBuf := hs.take hsBufSize }) (hs.drop hdrEnd) = fed at *
        generalize traced s.wsDec (hs.drop hdrEnd) = told at *
        obtain ⟨ok, after⟩ := fed
        obtain ⟨told, t⟩ := told
        obtain rfl : ok = told := answer
        have records : Records s after :=
          ⟨follows.records.consumed, follows.records.written, follows.records.session⟩
        cases ok with
        | false => exact ⟨records, by simp⟩
        | true =>
          simp only at closes follows ⊢
          have keeps := follows_keeps pcb _ after t up mine follows (by
            intro closed
            rwa [closed, if_pos rfl] at closes)
          have whole : Keeps s after :=
            ⟨keeps.own, fun _ => keeps.counted (by simp [midiNetMarkUp]), keeps.clean⟩
          exact ⟨publish_records s after records, fun _ => publish_keeps s after whole⟩
      · rw [if_neg more]
        refine ⟨⟨rfl, rfl, Nat.le_refl _⟩, fun _ => ⟨up, ?_, ?_⟩⟩
        · simp [midiNetMarkUp]
        · intro changed
          exact absurd rfl changed

end Firmware

/-- The two ways around the flush: bytes behind a close frame, and bytes of a PCB that is not, or
no longer, the module's own. -/
def keptApart (lwip : Lwip) (s : Firmware) : Event → Prop
  | .recv pcb (some chain) err =>
    err = errOk →
      s.link.netPcb = some pcb ∧
        (s.cfg.transport = .ws → s.link.netState = .up → closesEnd s.wsDec chain = true) ∧
        (s.cfg.transport = .ws → s.link.netState = .wsHandshake →
          ∀ frames ∈ s.trailing chain, closesEnd s.wsDec [frames] = true)
  | .dnsFound _ (some _) => Firmware.connects lwip s → s.link.netPcb = none
  | _ => True

instance (lwip : Lwip) (s : Firmware) (event : Event) : Decidable (keptApart lwip s event) := by
  unfold keptApart
  split <;> infer_instance

namespace Firmware

variable (lwip : Lwip)

theorem recvWs_keeps (pcb : Nat) (chain : List Bytes) (s : Firmware) (own : OwnBytes s)
    (mine : s.link.netPcb = some pcb)
    (up : s.link.netState = .up → closesEnd s.wsDec chain = true)
    (handshake : s.link.netState = .wsHandshake →
      ∀ frames, trailing s chain = some frames → closesEnd s.wsDec [frames] = true) :
    Keeps s (recvWs lwip pcb chain s) := by
  have taken : Outcome s (recvByState lwip pcb chain s) := by
    unfold recvByState
    split
    next state => exact midiWsHandshakeRecv_outcome lwip pcb chain s own mine (handshake state)
    next state => exact recvFrames_outcome lwip pcb chain s own mine state (up state)
    next => exact ⟨.refl s, fun _ => Keeps.of_link own rfl⟩
  unfold recvWs
  generalize recvByState lwip pcb chain s = result at *
  obtain ⟨ok, after⟩ := result
  cases ok with
  | false => exact midiNetReset_keeps lwip s after own taken.records
  | true =>
    have keeps := taken.keeps rfl
    simp only
    split
    · exact call_keeps s after _ keeps
    · exact keeps

theorem recvTcp_keeps (pcb : Nat) (chain : List Bytes) (s : Firmware) (own : OwnBytes s)
    (mine : s.link.netPcb = some pcb) : Keeps s (recvTcp pcb chain s) := by
  have contents := midiWsOnData_contents pcb chain.flatten s
  have pushed : OwnBytes (midiWsOnData pcb chain.flatten s) := by
    rw [midiWsOnData_effect] at contents ⊢
    refine { own with inOwn := ?_ }
    intro c member
    rw [contents] at member
    rcases List.mem_append.mp (List.mem_of_mem_take member) with old | new
    · exact own.inOwn c old
    · exact mine.trans (by rw [received_mark pcb _ c new])
  have keeps : Keeps s (midiWsOnData pcb chain.flatten s) :=
    Keeps.of_link pushed (by rw [midiWsOnData_effect])
  exact call_keeps s _ _ (publish_keeps s _ keeps)

theorem midiNetTryConnect_keeps (s : Firmware) (own : OwnBytes s) (down : s.link.netState = .down) :
    Keeps s (midiNetTryConnect lwip s) := by
  have none_ := own.downNoPcb down
  -- the resolver's branch marks the attempt first
  have marked (link : Link) (calls : List LwipCall) (netPcb : link.netPcb = s.link.netPcb)
      (session : link.session = s.link.session) (connecting : link.netState = .connecting) :
      OwnBytes { s with link := link, calls := calls } :=
    { own with
      downNoPcb := by simp [connecting]
      inOwn := by simpa only [netPcb] using own.inOwn
      shown := by simpa only [netPcb] using own.shown
      outOwn := by simpa only [session] using own.outOwn }
  unfold midiNetTryConnect
  split
  · exact midiNetConnectTo_keeps lwip _ _ s own (fun _ => none_)
  · simp only [call]
    have asked := marked { s.link with netState := .connecting }
      (s.calls ++ [.resolve s.cfg.host (lwip.dnsGethostbyname s.calls.length).1]) rfl rfl rfl
    split
    · have connected := midiNetConnectTo_keeps lwip (lwip.dnsGethostbyname s.calls.length).2
        s.cfg.host _ asked (fun _ => none_)
      exact ⟨connected.own, fun up => absurd down up, connected.clean⟩
    split
    · have reset := midiNetReset_keeps lwip _ _ asked (.refl _)
      exact ⟨reset.own, fun up => absurd down up, reset.clean⟩
    · refine ⟨marked _ _ rfl rfl rfl, fun up => absurd down up, fun changed => absurd rfl changed⟩

theorem midiNetPoll_keeps (hasIp : Bool) (s : Firmware) (own : OwnBytes s) :
    Keeps s (midiNetPoll lwip hasIp s) := by
  have drained : OwnBytes (midiNetFlushOut lwip s) ∧ (midiNetFlushOut lwip s).link = s.link := by
    obtain ⟨rand, calls, queue, k, effect, rest⟩ := midiNetFlushOut_effect lwip s
    rw [effect]
    refine ⟨{ own with outOwn := ?_, writtenOwn := ?_ }, rfl⟩
    · intro c member
      rw [rest] at member
      exact own.outOwn c (List.mem_of_mem_drop member)
    · intro entry member
      rcases List.mem_append.mp member with old | new
      · exact own.writtenOwn entry old
      · obtain ⟨c, sent, rfl⟩ := List.mem_map.mp new
        exact own.outOwn c (List.mem_of_mem_take sent)
  have cleaned : OwnBytes (midiQueueCleanup (midiNetFlushOut lwip s)) ∧
      (midiQueueCleanup (midiNetFlushOut lwip s)).link = s.link := by
    obtain ⟨ownDrained, link⟩ := drained
    obtain ⟨inQueue, shared, effectIn, keptIn⟩ := cleanupIn_effect (midiNetFlushOut lwip s)
    obtain ⟨outQueue, effectOut, keptOut⟩ := cleanupOut_effect (cleanupIn (midiNetFlushOut lwip s))
    rw [midiQueueCleanup, effectOut, effectIn] at *
    refine ⟨{ ownDrained with inOwn := ?_, shown := ?_, outOwn := ?_ }, link⟩
    · rcases keptIn with ⟨rfl, -⟩ | ⟨empty, -⟩
      · exact ownDrained.inOwn
      · simp [empty]
    · rcases keptIn with ⟨-, rfl⟩ | ⟨-, hidden⟩
      · exact ownDrained.shown
      · simp [hidden]
    · rcases keptOut with rfl | empty
      · exact ownDrained.outOwn
      · simp [empty]
  obtain ⟨ownCleaned, link⟩ := cleaned
  have rested := Keeps.of_link ownCleaned link
  unfold midiNetPoll
  simp only
  generalize midiQueueCleanup (midiNetFlushOut lwip s) = cleaned at *
  split
  · exact rested
  split
  · exact rested
  next up =>
    have down : cleaned.link.netState = .down := by simpa using up
    split
    · exact rested
    split
    · exact rested
    · have connected := midiNetTryConnect_keeps lwip { cleaned with
        nextAttemptValid := true
        nextAttempt := cleaned.now + cleaned.backoffMs * 1000
        backoffMs := min (cleaned.backoffMs * 2) backoffMaxMs }
        (ownCleaned.same _ rfl rfl rfl rfl rfl rfl) down
      exact connected.from_same link

theorem advance_keeps (s : Firmware) (own : OwnBytes s) : Keeps s (advance s) := by
  obtain ⟨shared, effect, origin⟩ := advance_effect s
  have popped : ({ ring := s.inQueue.ring.pop, lastDrain := s.now } : Queue).contents =
      s.inQueue.contents.tail := s.inQueue.ring.contents_pop
  rw [effect]
  refine Keeps.of_link { own with inOwn := ?_, shown := ?_, consumedOwn := ?_ } rfl
  · intro c member
    rw [popped] at member
    exact own.inOwn c (List.mem_of_mem_tail member)
  · intro c shows
    simp only [origin] at shows
    exact own.inOwn c (List.mem_of_mem_tail (List.mem_of_head? shows))
  · intro entry member
    rcases List.mem_append.mp member with old | new
    · exact own.consumedOwn entry old
    · obtain ⟨c, head, rfl⟩ := List.mem_map.mp new
      exact own.inOwn c (List.mem_of_head? (Option.mem_toList.mp head))

theorem midiRom3Consumer_keeps (addrLsb : UInt16) (s : Firmware) (own : OwnBytes s) :
    Keeps s (midiRom3Consumer addrLsb s).2 := by
  unfold midiRom3Consumer
  split
  · exact Keeps.of_link own rfl
  split
  · exact Keeps.of_link (own.same _ rfl rfl rfl rfl rfl rfl) rfl
  split
  · exact advance_keeps s own
  split
  · refine Keeps.of_link { own with outOwn := ?_ } rfl
    intro c member
    rcases s.outQueue.contents_push_member _ _ _ member with old | rfl
    · exact own.outOwn c old
    · rfl
  · exact Keeps.of_link own rfl

theorem next_keeps (s after : Firmware) (event : Event) (own : OwnBytes s)
    (meets : keptApart lwip s event) (step : s.next lwip event = some after) : Keeps s after := by
  cases event with
  | tick micros =>
    obtain rfl := Option.some.inj step
    exact Keeps.of_link (own.same _ rfl rfl rfl rfl rfl rfl) rfl
  | poll hasIp =>
    obtain rfl := Option.some.inj step
    exact midiNetPoll_keeps lwip hasIp s own
  | reload settings =>
    obtain rfl := Option.some.inj step
    have reset := midiNetReset_keeps lwip s { s with cfg := midiLoadConfig settings s.cfg } own
      ⟨rfl, rfl, Nat.le_refl _⟩
    unfold midiNetReload
    exact ⟨reset.own.same _ rfl rfl rfl rfl rfl rfl, reset.counted, reset.clean⟩
  | connected pcb err =>
    simp only [next] at step
    split at step <;> simp only [Option.some.injEq, reduceCtorEq] at step
    subst step
    unfold midiNetConnectedCb
    split
    · exact midiNetReset_keeps lwip s s own (.refl s)
    split
    · obtain ⟨rand, key, calls, sent | refused⟩ := midiWsStartHandshake_effect lwip s
      · rw [sent]
        exact ⟨{ own with downNoPcb := by simp }, by simp, fun changed => absurd rfl changed⟩
      · rw [refused]
        exact afterDrop_keeps s _ _ calls own ⟨rfl, rfl, Nat.le_refl _⟩ rfl (Nat.le_refl _)
    · exact ⟨{ own with downNoPcb := by simp [midiNetMarkUp] }, by simp [midiNetMarkUp],
        fun changed => absurd rfl changed⟩
  | recv pcb chain err =>
    simp only [next] at step
    split at step <;> simp only [Option.some.injEq, reduceCtorEq] at step
    subst step
    cases chain with
    | none => exact midiNetReset_keeps lwip s s own (.refl s)
    | some chain =>
      simp only [midiNetRecvCb]
      by_cases ok : err = errOk
      · obtain ⟨mine, up, handshake⟩ := meets ok
        rw [if_neg (by simpa using ok)]
        split
        next ws => exact recvWs_keeps lwip pcb chain s own mine (up ws) (handshake ws)
        next => exact recvTcp_keeps pcb chain s own mine
      · rw [if_pos ok]
        exact Keeps.of_link own rfl
  | error pcb =>
    simp only [next] at step
    split at step <;> simp only [Option.some.injEq, reduceCtorEq] at step
    subst step
    rw [midiNetErrCb_effect]
    exact afterDrop_keeps s _ _ _ own ⟨rfl, rfl, Nat.le_refl _⟩ rfl (Nat.le_refl _)
  | dnsFound query ip =>
    obtain ⟨q, found, rfl⟩ := Option.map_eq_some_iff.mp step
    have answered : OwnBytes { s with
        link := { s.link with queries := s.link.queries.filter fun q => q.id != query } } :=
      { own with }
    unfold midiNetDnsFound
    cases ip with
    | none =>
      have reset := midiNetReset_keeps lwip _ _ answered (.refl _)
      exact ⟨reset.own, reset.counted, reset.clean⟩
    | some ip =>
      have connected := midiNetConnectTo_keeps lwip ip q.name _ answered meets
      exact ⟨connected.own, connected.counted, connected.clean⟩
  | rom3 addrLsb =>
    obtain rfl := Option.some.inj step
    exact midiRom3Consumer_keeps addrLsb s own
  | setActive active =>
    obtain rfl := Option.some.inj step
    exact Keeps.of_link (own.same _ rfl rfl rfl rfl rfl rfl) rfl

end Firmware

def Drops (s after : Firmware) : Prop :=
  s.link.netState ≠ .down ∧ after.link.netState = .down ∨ after.link.session ≠ s.link.session

theorem midiInit_ownBytes (settings : Settings) (now : Nat) :
    OwnBytes (Firmware.midiInit settings now) where
  downNoPcb := fun _ => rfl
  inOwn := by simp [Firmware.midiInit]
  shown := by simp [Firmware.midiInit]
  outOwn := by simp [Firmware.midiInit]
  consumedOwn := by simp [Firmware.midiInit]
  writtenOwn := by simp [Firmware.midiInit]

theorem link_noReplay (lwip : Lwip) (settings : Settings) (now : Nat) (events : List Event)
    (s : Firmware)
    (run : (linkMachine lwip).Run (keptApart lwip) (Firmware.midiInit settings now) events s) :
    (∀ event after, keptApart lwip s event → s.next lwip event = some after → Drops s after →
        Clean after) ∧
      (∀ c, s.shared.inOrigin = some c → s.link.netPcb = some c.mark) ∧
      (∀ entry ∈ s.consumed, entry.2 = some entry.1.mark) ∧
      ∀ entry ∈ s.written, entry.1.mark = entry.2 := by
  have own : OwnBytes s :=
    run.invariant OwnBytes (midiInit_ownBytes settings now) fun s event after own meets step =>
      (Firmware.next_keeps lwip s after event own meets step).own
  refine ⟨fun event after meets step drops => ?_, own.shown, own.consumedOwn, own.writtenOwn⟩
  have keeps := Firmware.next_keeps lwip s after event own meets step
  rcases drops with ⟨up, down⟩ | changed
  · exact keeps.clean (keeps.counted up down)
  · exact keeps.clean changed

def upgraded : List Event :=
  [.poll true, .connected 0 errOk, .recv 0 (some [bootResponse]) errOk]

theorem link_noReplay_close :
    ∃ s after, (linkMachine willing).exec (keptApart willing) (Firmware.midiInit wsSettings 0)
        upgraded = some s ∧
      s.next willing (.recv 0 (some [[0x82, 0x01, 0x90], [0x88, 0x00]]) errOk) = some after ∧
      Drops s after ∧ Clean after := by
  have checked : (((linkMachine willing).exec (keptApart willing) (Firmware.midiInit wsSettings 0)
      upgraded).any fun s =>
        decide (keptApart willing s (.recv 0 (some [[0x82, 0x01, 0x90], [0x88, 0x00]]) errOk)) &&
          (s.next willing (.recv 0 (some [[0x82, 0x01, 0x90], [0x88, 0x00]]) errOk)).any
            fun after => s.link.netState == .up && after.link.netState == .down) = true := by
    decide +kernel
  obtain ⟨s, executed, checks⟩ := (Option.any_eq_true _ _).mp checked
  rw [Bool.and_eq_true, decide_eq_true_eq] at checks
  obtain ⟨after, step, moved⟩ := (Option.any_eq_true _ _).mp checks.2
  simp only [Bool.and_eq_true, beq_iff_eq] at moved
  have drops : Drops s after := .inl ⟨by rw [moved.1]; simp, moved.2⟩
  exact ⟨s, after, executed, step, drops,
    (link_noReplay willing wsSettings 0 _ s (Machine.run_of_exec executed)).1 _ after checks.1 step
      drops⟩

-- A data frame behind the close frame, in one buffer.
theorem closeThenData_notClean :
    ¬ ∀ (lwip : Lwip) (settings : Settings) (now : Nat) (events : List Event) (s : Firmware),
      (linkMachine lwip).Run Machine.anyStep (Firmware.midiInit settings now) events s →
        ∀ event after, s.next lwip event = some after → Drops s after → Clean after := by
  intro always
  have checked : (((linkMachine willing).exec Machine.anyStep (Firmware.midiInit wsSettings 0)
      upgraded).any fun s =>
        (s.next willing (.recv 0 (some [[0x88, 0x00, 0x82, 0x01, 0x90]]) errOk)).any
          fun after => s.link.netState == .up && after.link.netState == .down &&
            decide (after.inQueue.contents.map Cell.byte = [0x90])) = true := by
    decide +kernel
  obtain ⟨s, executed, stepped⟩ := (Option.any_eq_true _ _).mp checked
  obtain ⟨after, step, moved⟩ := (Option.any_eq_true _ _).mp stepped
  simp only [Bool.and_eq_true, beq_iff_eq, decide_eq_true_eq] at moved
  obtain ⟨⟨up, down⟩, left⟩ := moved
  have clean := always willing wsSettings 0 upgraded s (Machine.run_of_exec executed) _ after step
    (.inl ⟨by rw [up]; simp, down⟩)
  simp [clean.1] at left

end MidiToIp.Midi
