import MidiToIp.Midi.Changes
import MidiToIp.Midi.OutSide

set_option autoImplicit false

namespace MidiToIp.Midi

open Octets MidiWs Machines

/-- The link, and when each ring was last seen empty or served. -/
structure Timed where
  firmware : Firmware
  inServed : Nat
  outServed : Nat

def inTaken (s after : Firmware) : Bool := s.inAck ≠ after.inAck

def outTaken (s after : Firmware) : Bool := s.written.length < after.written.length

def dropped (s after : Firmware) : Bool := s.link.session ≠ after.link.session

def served (before later : List Cell) (taken : Bool) (s after : Firmware) (old : Nat) : Nat :=
  if later = [] then after.now
  else if before = [] ∨ taken = true ∨ dropped s after = true then s.now
  else old

def Timed.record (t : Timed) (after : Firmware) : Timed :=
  { firmware := after
    inServed := served t.firmware.inQueue.contents after.inQueue.contents (inTaken t.firmware after)
      t.firmware after t.inServed
    outServed := served t.firmware.outQueue.contents after.outQueue.contents (outTaken t.firmware after)
      t.firmware after t.outServed }

def timedMachine (lwip : Lwip) : Machine Timed Event :=
  ⟨fun t event => (t.firmware.next lwip event).map t.record⟩

def Right (queue : Queue) (time : Nat) : Prop := queue.contents = [] ∨ queue.lastDrain = time

structure Stamped (before after : Queue) (fresh : Prop) (now : Nat) : Prop where
  renewed : before.contents = [] ∨ fresh → Right after now
  kept : ¬ fresh → before.contents ≠ [] → Right after before.lastDrain

theorem Stamped.same (queue : Queue) {fresh : Prop} (stale : ¬ fresh) (now : Nat) : Stamped queue queue fresh now where
  renewed renews := .inl (renews.resolve_right stale)
  kept _ _ := .inr rfl

theorem Stamped.empty (before : Queue) {after : Queue} (none : after.contents = []) (fresh : Prop) (now : Nat) :
    Stamped before after fresh now :=
  ⟨fun _ => .inl none, fun _ _ => .inl none⟩

theorem Stamped.push (queue : Queue) (cell : Cell) {fresh : Prop} (stale : ¬ fresh) (now : Nat) :
    Stamped queue (queue.push cell now) fresh now := by
  have empty : queue.contents = [] ↔ queue.ring.isEmpty = true := queue.ring.contents_eq_nil_iff
  unfold Queue.push
  split
  · exact .same queue stale now
  · constructor
    · intro renews
      right
      exact if_pos (empty.mp (renews.resolve_right stale))
    · intro _ some_
      right
      exact if_neg (mt empty.mpr some_)

theorem push_some (queue : Queue) (cell : Cell) (now : Nat) : (queue.push cell now).contents ≠ [] := by
  rw [queue.contents_push, ne_eq, ← List.length_eq_zero_iff, List.length_take, List.length_append]
  unfold queueBits
  simp

theorem Right.push {queue : Queue} {now : Nat} (right : Right queue now) (cell : Cell) :
    Right (queue.push cell now) now := by
  have stamped := Stamped.push queue cell not_false now
  obtain none | time := right
  · exact stamped.renewed (.inl none)
  · by_cases none : queue.contents = []
    · exact stamped.renewed (.inl none)
    · rw [← time]
      rw [← time] at stamped
      exact stamped.kept not_false none

theorem Stamped.served {before after : Queue} {taken : Bool} {s later : Firmware} {old : Nat}
    (stamped : Stamped before after (taken = true ∨ dropped s later = true) s.now) (right : Right before old) :
    Right after (served before.contents after.contents taken s later old) := by
  unfold MidiToIp.Midi.served
  split
  next none => exact .inl none
  split
  next renews => exact stamped.renewed renews
  next waits =>
    have stale : ¬ (taken = true ∨ dropped s later = true) := fun fresh => waits (.inr fresh)
    have some_ : before.contents ≠ [] := fun none => waits (.inl none)
    have time := right.resolve_left some_
    rw [← time]
    exact stamped.kept stale some_

structure Timed.Right (t : Timed) : Prop where
  inRight : MidiToIp.Midi.Right t.firmware.inQueue t.inServed
  outRight : MidiToIp.Midi.Right t.firmware.outQueue t.outServed

@[mk_iff]
structure Stamps (s after : Firmware) : Prop where
  inStamped : Stamped s.inQueue after.inQueue (inTaken s after = true ∨ dropped s after = true) s.now
  outStamped : Stamped s.outQueue after.outQueue (outTaken s after = true ∨ dropped s after = true) s.now

theorem Stamps.right {t : Timed} {after : Firmware} (stamps : Stamps t.firmware after) (right : t.Right) :
    (t.record after).Right :=
  ⟨stamps.inStamped.served right.inRight, stamps.outStamped.served right.outRight⟩

theorem Stamps.then {s middle after : Firmware} (stamps : Stamps s middle)
    (inAck : after.inAck = middle.inAck) (written : after.written = middle.written)
    (queues : after.inQueue = middle.inQueue ∧ after.outQueue = middle.outQueue ∧
        after.link.session = middle.link.session ∨ after.inQueue.contents = [] ∧ after.outQueue.contents = []) :
    Stamps s after := by
  obtain ⟨inQueue, outQueue, same⟩ | ⟨inNone, outNone⟩ := queues
  · have inSame : inTaken s after = inTaken s middle := by simp [inTaken, inAck]
    have outSame : outTaken s after = outTaken s middle := by simp [outTaken, written]
    have dropSame : dropped s after = dropped s middle := by simp [dropped, same]
    refine ⟨?_, ?_⟩
    · rw [inSame, dropSame, inQueue]
      exact stamps.inStamped
    · rw [outSame, dropSame, outQueue]
      exact stamps.outStamped
  · exact ⟨.empty _ inNone _ _, .empty _ outNone _ _⟩

namespace Firmware

structure Paced (s after : Firmware) : Prop where
  session : s.link.session ≤ after.link.session
  calm : after.link.session = s.link.session →
    (s.inQueue.contents = [] → Right after.inQueue s.now) ∧
      (s.inQueue.contents ≠ [] → after.inQueue.contents ≠ [] ∧ after.inQueue.lastDrain = s.inQueue.lastDrain) ∧
      after.outQueue = s.outQueue
  drops : s.link.session < after.link.session → Right after.inQueue s.now ∧ after.outQueue.contents = []

theorem Paced.refl (s : Firmware) : Paced s s where
  session := le_rfl
  calm _ := ⟨.inl, fun some_ => ⟨some_, rfl⟩, rfl⟩
  drops more := absurd more (lt_irrefl _)

theorem Changes.paced {s after : Firmware} {up : Bool} (changes : Changes s up after) : Paced s after := by
  have both := changes.keep (fun before => before.now = s.now ∧ Paced s before) ?_ ?_ ⟨rfl, .refl s⟩
  · exact both.2
  · rintro before later change ⟨now, paced⟩
    cases change with
    | notes => exact ⟨now, paced.session, paced.calm, paced.drops⟩
    | moves link calls session => exact ⟨now, session ▸ paced.session, fun same => paced.calm (session ▸ same),
        fun more => paced.drops (session ▸ more)⟩
    | push cell =>
      refine ⟨now, paced.session, fun same => ?_, fun more => ?_⟩
      · obtain ⟨empty, some_, out⟩ := paced.calm same
        refine ⟨fun none => ?_, fun waits => ⟨push_some before.inQueue cell before.now, ?_⟩, out⟩
        · rw [now]
          exact Right.push (empty none) cell
        · obtain ⟨waiting, time⟩ := some_ waits
          obtain none | kept := (Stamped.push before.inQueue cell not_false before.now).kept not_false waiting
          · exact absurd none (push_some before.inQueue cell before.now)
          · exact kept.trans time
      · obtain ⟨right, out⟩ := paced.drops more
        rw [now]
        exact ⟨Right.push right cell, out⟩
    | drop link calls session =>
      refine ⟨now, ?_, fun same => ?_, fun _ => ⟨.inl ?_, ?_⟩⟩
      · exact (session ▸ paced.session).trans (Nat.le_succ _)
      · have more : before.link.session + 1 = s.link.session := session ▸ same
        have least := paced.session
        omega
      · simp [afterDrop]
      · simp [afterDrop]
  · rintro before ⟨now, paced⟩
    exact ⟨now, paced.session, paced.calm, paced.drops⟩

theorem Paced.stamps {s after : Firmware} (paced : Paced s after) (kept : Kept s after) : Stamps s after := by
  have inIdle : inTaken s after = false := by simp [inTaken, kept.inAck]
  have outIdle : outTaken s after = false := by simp [outTaken, kept.written]
  simp only [stamps_iff, inIdle, outIdle, Bool.false_eq_true, false_or]
  by_cases same : after.link.session = s.link.session
  · obtain ⟨empty, some_, out⟩ := paced.calm same
    have calm : ¬ dropped s after = true := by simp [dropped, same]
    refine ⟨⟨fun renews => empty (renews.resolve_right calm), fun _ waits => .inr (some_ waits).2⟩, ?_⟩
    rw [out]
    exact .same s.outQueue calm s.now
  · have more := Nat.lt_of_le_of_ne paced.session (Ne.symm same)
    have fresh : dropped s after = true := decide_eq_true fun h => same h.symm
    obtain ⟨right, none⟩ := paced.drops more
    exact ⟨⟨fun _ => right, fun stale => absurd fresh stale⟩, .empty s.outQueue none _ s.now⟩

variable (lwip : Lwip)

def Marks (s : Firmware) (wrote : Bool) (after : Firmware) : Prop :=
  wrote = false ∧ after.outQueue = s.outQueue ∧ after.written = s.written ∨
    wrote = true ∧ s.written.length < after.written.length

theorem writeRun_marks (pcb n : Nat) (data : Bytes) (s : Firmware) (some_ : 0 < n) :
    Marks s (writeRun lwip pcb n data s).2 (writeRun lwip pcb n data s).1 := by
  unfold writeRun
  by_cases taken : lwip.tcpWrite s.calls.length = errOk
  · simp only [tcpWrite, taken, ne_eq, not_true_eq_false, if_false]
    refine .inr ⟨rfl, ?_⟩
    simp only [call, List.length_append, List.length_map]
    have size := run_length s n
    rw [List.length_map] at size
    omega
  · simp only [tcpWrite, taken, ne_eq, not_false_eq_true, if_true]
    exact .inl ⟨rfl, rfl, rfl⟩

theorem flushOutTurn_marks (pcb : Nat) (s : Firmware) (some_ : s.outQueue.ring.isEmpty = false) :
    Marks s (flushOutTurn lwip pcb s).2 (flushOutTurn lwip pcb s).1 := by
  have contiguous := (s.outQueue.ring.contiguous_le some_).2
  unfold flushOutTurn
  simp only
  split
  · exact .inl ⟨rfl, rfl, rfl⟩
  next open_ =>
    have room : 0 < (lwip.tcpSndbuf s.calls.length).toNat :=
      Nat.pos_of_ne_zero fun none => open_ (UInt16.toNat_inj.mp none)
    split
    · split
      · exact .inl ⟨rfl, rfl, rfl⟩
      next fits =>
        refine writeRun_marks lwip pcb _ _ _ ?_
        change 0 < min s.outQueue.ring.contiguous _
        unfold wsTxChunk
        omega
    · refine writeRun_marks lwip pcb _ _ _ ?_
      change 0 < min s.outQueue.ring.contiguous _
      omega

theorem flushOutLoop_marks (pcb fuel : Nat) (wrote : Bool) (s : Firmware) :
    (flushOutLoop lwip pcb fuel wrote s).1 = wrote ∧
        (flushOutLoop lwip pcb fuel wrote s).2.outQueue = s.outQueue ∧
        (flushOutLoop lwip pcb fuel wrote s).2.written = s.written ∨
      (flushOutLoop lwip pcb fuel wrote s).1 = true ∧
        s.written.length < (flushOutLoop lwip pcb fuel wrote s).2.written.length := by
  induction fuel generalizing wrote s with
  | zero => exact .inl ⟨rfl, rfl, rfl⟩
  | succ fuel ih =>
    unfold flushOutLoop
    cases empty : s.outQueue.ring.isEmpty with
    | true => exact .inl ⟨rfl, rfl, rfl⟩
    | false =>
      have turn := flushOutTurn_marks lwip pcb s empty
      simp only [Bool.false_eq_true, if_false]
      split
      next after took =>
        rw [took] at turn
        obtain ⟨⟨⟩, -⟩ | ⟨-, more⟩ := turn
        right
        obtain ⟨done, -, same⟩ | ⟨done, further⟩ := ih true after
        · exact ⟨done, same ▸ more⟩
        · exact ⟨done, more.trans further⟩
      next after took =>
        rw [took] at turn
        obtain ⟨-, same⟩ | ⟨⟨⟩, -⟩ := turn
        exact .inl ⟨rfl, same⟩

theorem midiNetFlushOut_marks (s : Firmware) :
    (midiNetFlushOut lwip s).outQueue = s.outQueue ∧ (midiNetFlushOut lwip s).written = s.written ∨
      (midiNetFlushOut lwip s).outQueue.lastDrain = s.now ∧
        s.written.length < (midiNetFlushOut lwip s).written.length := by
  unfold midiNetFlushOut
  split
  next pcb _ _ =>
    have loop := flushOutLoop_marks lwip pcb s.outQueue.ring.depth false s
    obtain ⟨rand, calls, queue, k, effect, -⟩ := flushOutLoop_effect lwip pcb s.outQueue.ring.depth false s
    have now : (flushOutLoop lwip pcb s.outQueue.ring.depth false s).2.now = s.now := by rw [effect]
    generalize flushOutLoop lwip pcb s.outQueue.ring.depth false s = result at loop now
    obtain ⟨wrote, after⟩ := result
    obtain ⟨rfl, same⟩ | ⟨rfl, more⟩ := loop
    · exact .inl same
    · exact .inr ⟨now, more⟩
  next => exact .inl ⟨rfl, rfl⟩

structure Cleaned (s after : Firmware) : Prop where
  now : after.now = s.now
  link : after.link = s.link
  inAck : after.inAck = s.inAck
  written : after.written = s.written
  inQueue : if s.inQueue.isStale s.now = true then after.inQueue.contents = [] else after.inQueue = s.inQueue
  outQueue : if s.outQueue.isStale s.now = true then after.outQueue.contents = [] else after.outQueue = s.outQueue

theorem midiQueueCleanup_cleaned (s : Firmware) : Cleaned s (midiQueueCleanup s) := by
  have first : Cleaned s { cleanupIn s with outQueue := (midiQueueCleanup s).outQueue } := by
    have out : if s.outQueue.isStale s.now = true then (midiQueueCleanup s).outQueue.contents = []
        else (midiQueueCleanup s).outQueue = s.outQueue := by
      have kept : (cleanupIn s).outQueue = s.outQueue ∧ (cleanupIn s).now = s.now := by
        obtain ⟨queue, shared, effect, -⟩ := cleanupIn_effect s
        rw [effect]
        exact ⟨rfl, rfl⟩
      unfold midiQueueCleanup cleanupOut
      rw [kept.1, kept.2]
      split
      · simp
      · exact kept.1
    unfold cleanupIn
    split
    next stale => exact ⟨rfl, rfl, rfl, rfl, by simp [stale, midiNetFlushInQueue, publish], out⟩
    next fresh => exact ⟨rfl, rfl, rfl, rfl, by simp [fresh], out⟩
  obtain ⟨queue, effect, -⟩ := cleanupOut_effect (cleanupIn s)
  have whole : midiQueueCleanup s = { cleanupIn s with outQueue := (midiQueueCleanup s).outQueue } := by
    rw [midiQueueCleanup, effect]
  rw [whole]
  exact first

theorem tended_stamps (s : Firmware) : Stamps s (tended lwip s) := by
  obtain ⟨rand, calls, queue, k, flush, -⟩ := midiNetFlushOut_effect lwip s
  have cleaned := midiQueueCleanup_cleaned (midiNetFlushOut lwip s)
  have marks := midiNetFlushOut_marks lwip s
  have link : (tended lwip s).link = s.link := by rw [tended, cleaned.link, flush]
  have ack : (tended lwip s).inAck = s.inAck := by rw [tended, cleaned.inAck, flush]
  have calm : dropped s (tended lwip s) = false := by simp [dropped, link]
  have inIdle : inTaken s (tended lwip s) = false := by simp [inTaken, ack]
  have inQueue := cleaned.inQueue
  have outQueue := cleaned.outQueue
  have inSame : (midiNetFlushOut lwip s).inQueue = s.inQueue := by rw [flush]
  simp only [stamps_iff, inIdle, calm, Bool.false_eq_true, or_false]
  constructor
  · split at inQueue
    · exact .empty s.inQueue inQueue _ s.now
    · rw [tended, inQueue, inSame]
      exact .same s.inQueue not_false s.now
  · split at outQueue
    · exact .empty s.outQueue outQueue _ s.now
    · rw [tended, outQueue]
      obtain ⟨same, none⟩ | ⟨time, more⟩ := marks
      · rw [same]
        refine .same s.outQueue ?_ s.now
        simp [outTaken, cleaned.written, none]
      · have taken : outTaken s (midiQueueCleanup (midiNetFlushOut lwip s)) = true := by
          simpa [outTaken, cleaned.written] using more
        exact ⟨fun _ => .inr time, fun stale => absurd taken stale⟩

theorem midiNetPoll_stamps (hasIp : Bool) (s : Firmware) : Stamps s (midiNetPoll lwip hasIp s) := by
  have first := tended_stamps lwip s
  obtain same | ⟨next, backoff, tried⟩ := midiNetPoll_tended lwip hasIp s
  · rw [same]
    exact first
  · rw [tried]
    obtain ⟨opened, calls, session, effect | effect⟩ := midiNetTryConnect_effect lwip
      { tended lwip s with nextAttemptValid := true, nextAttempt := next, backoffMs := backoff }
    · rw [effect]
      exact first.then rfl rfl (.inl ⟨rfl, rfl, session⟩)
    · rw [effect]
      exact first.then rfl rfl (.inr ⟨by simp [afterDrop], by simp [afterDrop]⟩)

theorem midiRom3Consumer_stamps (addrLsb : UInt16) (s : Firmware) : Stamps s (s.midiRom3Consumer addrLsb).2 := by
  have idle (after : Firmware) (inQueue : after.inQueue = s.inQueue) (outQueue : after.outQueue = s.outQueue)
      (inAck : after.inAck = s.inAck) (written : after.written = s.written) (link : after.link = s.link) :
      Stamps s after := by
    constructor
    · rw [inQueue]
      exact .same s.inQueue (by simp [inTaken, dropped, inAck, link]) s.now
    · rw [outQueue]
      exact .same s.outQueue (by simp [outTaken, dropped, written, link]) s.now
  unfold midiRom3Consumer
  split
  · exact idle s rfl rfl rfl rfl rfl
  split
  · exact idle _ rfl rfl rfl rfl rfl
  split
  · obtain ⟨shared, effect, -⟩ := advance_effect s
    have taken : inTaken s (advance s) = true := by
      have moved : s.inAck ≠ s.inAck + 1 := by
        intro same
        have wrapped := congrArg UInt32.toNat same
        rw [UInt32.toNat_add] at wrapped
        have small := s.inAck.toNat_lt
        change s.inAck.toNat = (s.inAck.toNat + 1) % 2 ^ 32 at wrapped
        omega
      simp [inTaken, effect, moved]
    refine ⟨⟨fun _ => .inr (by rw [effect]), fun stale => absurd (.inl taken) stale⟩, ?_⟩
    rw [effect]
    exact .same s.outQueue (by simp [outTaken, dropped]) s.now
  split
  · refine ⟨.same s.inQueue (by simp [inTaken, dropped, midiNetSendByte]) s.now, ?_⟩
    exact .push s.outQueue _ (by simp [outTaken, dropped, midiNetSendByte]) s.now
  · exact idle s rfl rfl rfl rfl rfl

theorem next_stamps {s after : Firmware} {event : Event} (step : s.next lwip event = some after) : Stamps s after := by
  cases event with
  | tick micros =>
    obtain rfl := Option.some.inj step
    exact ⟨.same s.inQueue (by simp [inTaken, dropped]) s.now, .same s.outQueue (by simp [outTaken, dropped]) s.now⟩
  | poll hasIp =>
    obtain rfl := Option.some.inj step
    exact midiNetPoll_stamps lwip hasIp s
  | reload settings =>
    obtain rfl := Option.some.inj step
    obtain ⟨calls, effect⟩ := midiNetReset_effect lwip { s with cfg := midiLoadConfig settings s.cfg }
    simp only [midiNetReload, effect]
    exact ⟨.empty _ (by simp [afterDrop]) _ _, .empty _ (by simp [afterDrop]) _ _⟩
  | connected pcb err =>
    obtain ⟨-, reached⟩ := Option.ite_none_right_eq_some.mp step
    obtain rfl := Option.some.inj reached
    have changes := midiNetConnectedCb_changes lwip pcb err s
    exact changes.paced.stamps changes.kept
  | recv pcb chain err =>
    obtain ⟨-, reached⟩ := Option.ite_none_right_eq_some.mp step
    obtain rfl := Option.some.inj reached
    have changes := midiNetRecvCb_changes lwip pcb chain err s
    exact changes.paced.stamps changes.kept
  | error pcb =>
    obtain ⟨-, reached⟩ := Option.ite_none_right_eq_some.mp step
    obtain rfl := Option.some.inj reached
    exact ⟨.empty _ (by simp [midiNetErrCb_effect, afterDrop]) _ _, .empty _ (by simp [midiNetErrCb_effect, afterDrop]) _ _⟩
  | dnsFound query ip =>
    obtain ⟨q, -, rfl⟩ := Option.map_eq_some_iff.mp step
    have changes := midiNetDnsFound_changes lwip q.name ip
      { s with link := { s.link with queries := s.link.queries.filter fun q => q.id != query } }
    have stamps := changes.paced.stamps changes.kept
    exact ⟨stamps.inStamped, stamps.outStamped⟩
  | rom3 addrLsb =>
    obtain rfl := Option.some.inj step
    exact midiRom3Consumer_stamps addrLsb s
  | setActive active =>
    obtain rfl := Option.some.inj step
    exact ⟨.same s.inQueue (by simp [inTaken, dropped]) s.now, .same s.outQueue (by simp [outTaken, dropped]) s.now⟩

theorem cleaned_contents {queue after : Queue} {now time : Nat} (right : Right queue time)
    (cleaned : if queue.isStale now = true then after.contents = [] else after = queue) :
    after.contents = if now - time > Queue.staleMs * 1000 then [] else queue.contents := by
  have empty : queue.contents = [] ↔ queue.ring.isEmpty = true := queue.ring.contents_eq_nil_iff
  by_cases none : queue.contents = []
  · have calm : queue.isStale now = false := by simp [Queue.isStale, empty.mp none]
    rw [calm] at cleaned
    obtain rfl := cleaned
    rw [none, ite_self]
  · have some_ : queue.ring.isEmpty = false := Bool.eq_false_iff.mpr (mt empty.mpr none)
    have stale : queue.isStale now = decide (now - time > Queue.staleMs * 1000) := by
      simp [Queue.isStale, some_, right.resolve_left none]
    simp only [stale, decide_eq_true_eq] at cleaned
    split at cleaned
    next late => rw [if_pos late, cleaned]
    next early => rw [if_neg early, cleaned]

theorem midiNetPoll_ends (hasIp : Bool) (s : Firmware) :
    (midiNetPoll lwip hasIp s).written = (tended lwip s).written ∧
      if dropped s (midiNetPoll lwip hasIp s) = true then
        (midiNetPoll lwip hasIp s).inQueue.contents = [] ∧ (midiNetPoll lwip hasIp s).outQueue.contents = []
      else
        (midiNetPoll lwip hasIp s).inQueue = (tended lwip s).inQueue ∧
          (midiNetPoll lwip hasIp s).outQueue = (tended lwip s).outQueue := by
  have link : (tended lwip s).link = s.link := by
    obtain ⟨rand, calls, queue, k, flush, -⟩ := midiNetFlushOut_effect lwip s
    rw [tended, (midiQueueCleanup_cleaned _).link, flush]
  have calm (after : Firmware) (session : after.link.session = s.link.session) : dropped s after = false := by
    simp [dropped, session]
  obtain same | ⟨next, backoff, tried⟩ := midiNetPoll_tended lwip hasIp s
  · rw [same, calm _ (by rw [link])]
    exact ⟨rfl, rfl, rfl⟩
  · rw [tried]
    obtain ⟨opened, calls, session, effect | effect⟩ := midiNetTryConnect_effect lwip
      { tended lwip s with nextAttemptValid := true, nextAttempt := next, backoffMs := backoff }
    · rw [effect, calm _ (session.trans (by rw [link]))]
      exact ⟨rfl, rfl, rfl⟩
    · have drops : dropped s (afterDrop { tended lwip s with
          nextAttemptValid := true, nextAttempt := next, backoffMs := backoff } opened calls) = true := by
        have more : opened.session = s.link.session := session.trans (by rw [link])
        simp [dropped, afterDrop, more]
      rw [effect, drops]
      exact ⟨rfl, by simp [afterDrop], by simp [afterDrop]⟩

end Firmware

theorem poll_discards (lwip : Lwip) {settings : Settings} {now : Nat} {events : List Event} {t : Timed}
    (run : (timedMachine lwip).Run Machine.anyStep ⟨Firmware.midiInit settings now, now, now⟩ events t) (hasIp : Bool)
    (after : Firmware) (polled : after = t.firmware.midiNetPoll lwip hasIp) :
    (after.inQueue.contents =
        if t.firmware.now - t.inServed > 1000000 ∨ dropped t.firmware after = true then []
        else t.firmware.inQueue.contents) ∧
      after.outQueue.contents =
        if after.written = t.firmware.written ∧ t.firmware.now - t.outServed > 1000000 ∨
          dropped t.firmware after = true then []
        else (t.firmware.midiNetFlushOut lwip).outQueue.contents := by
  have right : t.Right := by
    refine run.invariant Timed.Right ⟨.inl (Queue.contents_init now), .inl (Queue.contents_init now)⟩ ?_
    intro before event later right _ step
    obtain ⟨s, stepped, rfl⟩ := Option.map_eq_some_iff.mp step
    exact (Firmware.next_stamps lwip stepped).right right
  obtain ⟨rand, calls, queue, k, flush, -⟩ := Firmware.midiNetFlushOut_effect lwip t.firmware
  have cleaned := Firmware.midiQueueCleanup_cleaned (t.firmware.midiNetFlushOut lwip)
  have ends := Firmware.midiNetPoll_ends lwip hasIp t.firmware
  have nowSame : (t.firmware.midiNetFlushOut lwip).now = t.firmware.now := by rw [flush]
  have inSame : (t.firmware.midiNetFlushOut lwip).inQueue = t.firmware.inQueue := by rw [flush]
  have writtenSame : (t.firmware.tended lwip).written = (t.firmware.midiNetFlushOut lwip).written := cleaned.written
  have inContents : (t.firmware.tended lwip).inQueue.contents =
      if t.firmware.now - t.inServed > 1000000 then [] else t.firmware.inQueue.contents := by
    have cleanedIn := cleaned.inQueue
    rw [inSame, nowSame] at cleanedIn
    exact Firmware.cleaned_contents right.inRight cleanedIn
  have outContents : (t.firmware.tended lwip).outQueue.contents =
      if (t.firmware.midiNetFlushOut lwip).written = t.firmware.written ∧ t.firmware.now - t.outServed > 1000000 then []
      else (t.firmware.midiNetFlushOut lwip).outQueue.contents := by
    have cleanedOut := cleaned.outQueue
    rw [nowSame] at cleanedOut
    obtain ⟨same, none⟩ | ⟨time, more⟩ := t.firmware.midiNetFlushOut_marks lwip
    · rw [same] at cleanedOut ⊢
      rw [none]
      have left := Firmware.cleaned_contents right.outRight cleanedOut
      simp only [true_and]
      exact left
    · have grew : (t.firmware.midiNetFlushOut lwip).written ≠ t.firmware.written := fun none => by
        rw [none] at more
        exact lt_irrefl _ more
      have left := Firmware.cleaned_contents (.inr time) cleanedOut
      rw [if_neg (by omega)] at left
      rw [if_neg fun both => grew both.1]
      exact left
  rw [← polled] at ends
  obtain ⟨written, ends⟩ := ends
  rw [written, writtenSame]
  split at ends
  next drops => simp [ends.1, ends.2, drops]
  next calm =>
    simp only [calm, Bool.false_eq_true, or_false, ends.1, ends.2]
    exact ⟨inContents, outContents⟩

def unheard : List Event := [.poll true, .connected 0 errOk, .recv 0 (some [[0x90]]) errOk, .tick 1000001]

theorem poll_discards_unheard :
    ∃ t, (timedMachine willing).exec Machine.anyStep ⟨Firmware.midiInit ⟨none⟩ 0, 0, 0⟩ unheard = some t ∧
      t.firmware.inQueue.contents = [⟨0x90, 0⟩] ∧
      (t.firmware.midiNetPoll willing true).inQueue.contents = [] := by
  obtain ⟨t, executed, contents, late⟩ : ∃ t,
      (timedMachine willing).exec Machine.anyStep ⟨Firmware.midiInit ⟨none⟩ 0, 0, 0⟩ unheard = some t ∧
        t.firmware.inQueue.contents = [⟨0x90, 0⟩] ∧ t.firmware.now - t.inServed > 1000000 :=
    ⟨_, rfl, by decide, by decide⟩
  have left := (poll_discards willing (Machine.run_of_exec executed) true _ rfl).1
  rw [if_pos (.inl late)] at left
  exact ⟨t, executed, contents, left⟩

end MidiToIp.Midi
