import Mathlib.Data.List.TakeWhile
import MidiToIp.Gateway.Bridge

set_option autoImplicit false

namespace MidiToIp.Gateway

open Octets Machines Framing

def Label.written : Label → Bytes
  | .atariWrites data => data
  | _ => []

def Label.arrived : Label → Bytes
  | .serverSends data => data
  | _ => []

def written (labels : List Label) : Bytes := labels.flatMap Label.written

def arrived (labels : List Label) : Bytes := labels.flatMap Label.arrived

def isOpen (frame : Ws.Frame) : Bool := frame.1 ≠ Ws.opClose

def dataOf (frames : List Ws.Frame) : Bytes := (frames.filter isData).flatMap Prod.snd

def pongsFor (frames : List Ws.Frame) : List Ws.Frame :=
  (frames.filter fun frame => frame.1 = Ws.opPing).map fun frame => (Ws.opPong, frame.2)

def pongsIn (sent : List Ws.Frame) : List Ws.Frame := sent.filter fun frame => frame.1 = Ws.opPong

def served (stream : Bytes) : List Ws.Frame :=
  ((Ws.scanner Ws.defaultMaxPayload).drain stream).items.takeWhile isOpen

theorem dataOf_append (first second : List Ws.Frame) : dataOf (first ++ second) = dataOf first ++ dataOf second := by
  simp [dataOf]

theorem pongsFor_append (first second : List Ws.Frame) :
    pongsFor (first ++ second) = pongsFor first ++ pongsFor second := by
  simp [pongsFor]

theorem dataOf_part {first second : List Ws.Frame} (part : first <+: second) : dataOf first <+: dataOf second := by
  obtain ⟨later, rfl⟩ := part
  rw [dataOf_append]
  exact List.prefix_append ..

theorem pongsFor_part {first second : List Ws.Frame} (part : first <+: second) :
    pongsFor first <+: pongsFor second := by
  obtain ⟨later, rfl⟩ := part
  rw [pongsFor_append]
  exact List.prefix_append ..

theorem pongsIn_pongsFor (frames : List Ws.Frame) : pongsIn (pongsFor frames) = pongsFor frames := by
  rw [pongsIn, List.filter_eq_self]
  intro frame member
  obtain ⟨ping, -, rfl⟩ := List.mem_map.mp member
  rfl

theorem dataOf_pongs {frames : List Ws.Frame} (pongs : ∀ frame ∈ frames, frame.1 = Ws.opPong) : dataOf frames = [] := by
  have none_ : frames.filter isData = [] := by
    rw [List.filter_eq_nil_iff]
    intro frame member
    simp [isData, pongs frame member, Ws.opPong, Ws.opBinary, Ws.opCont, Ws.opText]
  rw [dataOf, none_]
  rfl

theorem data_control (frame : Ws.Frame) (data : isData frame = true) :
    frame.1 ≠ Ws.opClose ∧ frame.1 ≠ Ws.opPing := by
  constructor <;> intro same <;>
    simp [isData, same, Ws.opClose, Ws.opPing, Ws.opBinary, Ws.opCont, Ws.opText] at data

theorem isOpen_iff (frame : Ws.Frame) : isOpen frame = true ↔ frame.1 ≠ Ws.opClose := decide_eq_true_iff

theorem isOpen_close {frame : Ws.Frame} (closing : frame.1 = Ws.opClose) : isOpen frame = false := by
  rw [Bool.eq_false_iff, ne_eq, isOpen_iff, not_not]
  exact closing

theorem handleFrames_out_eq (out : Bytes) (frames : List Ws.Frame) :
    (handleFrames out frames).out = if frames.all isOpen then some (out ++ dataOf frames) else none := by
  induction frames generalizing out with
  | nil => simp [handleFrames, dataOf]
  | cons frame rest ih =>
    rw [handleFrames, List.all_cons]
    by_cases data : isData frame = true
    · rw [if_pos data, ih, (isOpen_iff frame).mpr (data_control frame data).1, Bool.true_and]
      simp [dataOf, data]
    · by_cases ping : frame.1 = Ws.opPing
      · have open_ : isOpen frame = true := by
          rw [isOpen_iff, ping]
          decide
        rw [if_neg data, if_pos ping, open_, Bool.true_and]
        simp only [ih, dataOf, List.filter_cons, if_neg data]
      · rw [if_neg data, if_neg ping]
        by_cases closing : frame.1 = Ws.opClose
        · rw [if_pos closing, isOpen_close closing]
          rfl
        · rw [if_neg closing, ih, (isOpen_iff frame).mpr closing, Bool.true_and]
          simp only [dataOf, List.filter_cons, if_neg data]

theorem handleFrames_pongs_eq (out : Bytes) (frames : List Ws.Frame) :
    (handleFrames out frames).pongs = pongsFor (frames.takeWhile isOpen) := by
  induction frames generalizing out with
  | nil => rfl
  | cons frame rest ih =>
    rw [handleFrames, List.takeWhile_cons]
    by_cases data : isData frame = true
    · have control := data_control frame data
      rw [if_pos data, ih, if_pos ((isOpen_iff frame).mpr control.1)]
      simp [pongsFor, control.2]
    · by_cases ping : frame.1 = Ws.opPing
      · have open_ : isOpen frame = true := by
          rw [isOpen_iff, ping]
          decide
        rw [if_neg data, if_pos ping, if_pos open_]
        simp [ih, pongsFor, ping]
      · rw [if_neg data, if_neg ping]
        by_cases closing : frame.1 = Ws.opClose
        · rw [if_pos closing, isOpen_close closing]
          rfl
        · rw [if_neg closing, ih, if_pos ((isOpen_iff frame).mpr closing)]
          simp [pongsFor, ping]

theorem takeWhile_mono {Item : Type} (keeps : Item → Bool) {first second : List Item} (part : first <+: second) :
    first.takeWhile keeps <+: second.takeWhile keeps := by
  obtain ⟨later, rfl⟩ := part
  rw [List.takeWhile_append]
  split_ifs
  · exact (List.takeWhile_prefix keeps).trans (List.prefix_append ..)
  · exact List.prefix_rfl

theorem drain_items_part (stream more : Bytes) :
    ((Ws.scanner Ws.defaultMaxPayload).drain stream).items <+:
      ((Ws.scanner Ws.defaultMaxPayload).drain (stream ++ more)).items := by
  rw [Scanner.drain_append]
  split
  · exact List.prefix_rfl
  · exact List.prefix_append ..

theorem served_part {stream whole : Bytes} (part : stream <+: whole) : served stream <+: served whole := by
  obtain ⟨more, rfl⟩ := part
  exact takeWhile_mono isOpen (drain_items_part stream more)

def Pc.towardsAtari : Pc → Bytes
  | .deliver data => data
  | _ => []

def Pc.towardsServer : Pc → Bytes
  | .sendOut data _ => data
  | _ => []

namespace Bridge

structure Carries (stream out : Bytes) (b : Bridge) : Prop where
  bound : b.wrapper.dec.maxPayload = Ws.defaultMaxPayload
  emptied : b.pc = .rawRecv → b.wrapper.initial = []
  sent : dataOf b.sent ++ b.pc.towardsServer ++ b.out = out
  read : ∃ taken frames, taken ++ (b.wrapper.initial ++ b.sock) = stream ∧
    (Ws.scanner Ws.defaultMaxPayload).drain taken = ⟨frames, b.wrapper.dec.buf, none⟩ ∧
    (∀ frame ∈ frames, isOpen frame = true) ∧
    b.inFd ++ b.pc.towardsAtari = dataOf frames ∧ pongsIn b.sent = pongsFor frames

structure Carried (stream out : Bytes) (b : Bridge) : Prop where
  sent : dataOf b.sent <+: out
  delivered : b.inFd <+: dataOf (served stream)
  answered : pongsIn b.sent <+: pongsFor (served stream)

structure Reads (b : Bridge) : Prop where
  frames : ∀ frame ∈ b.sent,
    frame.1 = Ws.opPong ∨ frame.1 = Ws.opBinary ∧ 0 < frame.2.length ∧ frame.2.length ≤ 4096
  next : ∀ data sockReady, b.pc = .sendOut data sockReady → 0 < data.length ∧ data.length ≤ 4096

theorem served_open {taken : Bytes} {frames : List Ws.Frame} {kept : Bytes} {failed : Option Ws.WSError}
    (drained : (Ws.scanner Ws.defaultMaxPayload).drain taken = ⟨frames, kept, failed⟩)
    (open_ : ∀ frame ∈ frames, isOpen frame = true) : served taken = frames := by
  rw [served, drained]
  exact List.takeWhile_eq_self_iff.mpr open_

theorem Carries.carried {stream out : Bytes} {b : Bridge} (carries : Carries stream out b) :
    Carried stream out b := by
  obtain ⟨taken, frames, whole, drained, open_, delivered, answered⟩ := carries.read
  have part : frames <+: served stream := by
    rw [← served_open drained open_]
    exact served_part ⟨_, whole⟩
  refine ⟨⟨_, by rw [← carries.sent, List.append_assoc]⟩, ?_, ?_⟩
  · exact List.IsPrefix.trans ⟨_, delivered⟩ (dataOf_part part)
  · rw [answered]
    exact pongsFor_part part

theorem Carried.mono {stream whole out more : Bytes} {b : Bridge} (carried : Carried stream out b)
    (stream_ : stream <+: whole) (out_ : out <+: more) : Carried whole more b :=
  ⟨carried.sent.trans out_, carried.delivered.trans (dataOf_part (served_part stream_)),
    carried.answered.trans (pongsFor_part (served_part stream_))⟩

def afterRead (sendable : Nat) (handled : Handled) : Pc :=
  if sendable < handled.pongs.length then .returned
  else
    match handled.out with
    | none => .returned
    | some [] => .recv
    | some out => .deliver out

theorem afterRead_none (sendable : Nat) (pongs : List Ws.Frame) : afterRead sendable ⟨pongs, none⟩ = .returned := by
  unfold afterRead
  split_ifs <;> rfl

theorem afterRead_some {sendable : Nat} {pongs : List Ws.Frame} {out : Bytes}
    (running : afterRead sendable ⟨pongs, some out⟩ ≠ .returned) :
    pongs.length ≤ sendable ∧ (afterRead sendable ⟨pongs, some out⟩).towardsAtari = out ∧
      (afterRead sendable ⟨pongs, some out⟩).towardsServer = [] := by
  unfold afterRead at running ⊢
  by_cases few : sendable < pongs.length
  · exact absurd (if_pos few) running
  · rw [if_neg few]
    cases out with
    | nil => exact ⟨Nat.not_lt.mp few, rfl, rfl⟩
    | cons b rest => exact ⟨Nat.not_lt.mp few, rfl, rfl⟩

theorem afterRead_parked (sendable : Nat) (handled : Handled) : afterRead sendable handled ≠ .rawRecv := by
  unfold afterRead
  split_ifs
  · simp
  · split <;> simp

theorem consume_eq (raw : Bytes) (sendable : Nat) (b : Bridge) (items : List Ws.Frame) (kept : Bytes)
    (failed : Option Ws.WSError)
    (drained : (Ws.scanner b.wrapper.dec.maxPayload).drain (b.wrapper.dec.buf ++ raw) = ⟨items, kept, failed⟩) :
    b.consume raw sendable =
      if failed.isSome then { b with pc := .returned }
      else
        { b with
          wrapper := { b.wrapper with dec := { b.wrapper.dec with buf := kept } }
          sent := b.sent ++ (handleFrames [] items).pongs.take sendable
          pc := afterRead sendable (handleFrames [] items) } := by
  unfold consume Ws.FrameDecoder.feed
  rw [drained]
  cases failed <;> rfl

theorem consume_carries {stream out raw rest : Bytes} {b : Bridge} (sendable : Nat)
    (bound : b.wrapper.dec.maxPayload = Ws.defaultMaxPayload) (sent : dataOf b.sent ++ b.out = out)
    (behind : b.wrapper.initial ++ b.sock = rest)
    (read : ∃ taken frames, taken ++ (raw ++ rest) = stream ∧
      (Ws.scanner Ws.defaultMaxPayload).drain taken = ⟨frames, b.wrapper.dec.buf, none⟩ ∧
      (∀ frame ∈ frames, isOpen frame = true) ∧
      b.inFd = dataOf frames ∧ pongsIn b.sent = pongsFor frames) :
    Carried stream out (b.consume raw sendable) ∧
      ((b.consume raw sendable).pc ≠ .returned → Carries stream out (b.consume raw sendable)) := by
  obtain ⟨taken, frames, whole, drained, open_, delivered, answered⟩ := read
  have fed := (Ws.scanner Ws.defaultMaxPayload).drain_append taken raw
  rw [drained] at fed
  simp only at fed
  have reached : taken ++ raw <+: stream := by
    rw [← whole, ← List.append_assoc]
    exact List.prefix_append ..
  have before : Carried stream out b := by
    have part : frames <+: served stream := by
      rw [← served_open drained open_]
      exact served_part ⟨_, whole⟩
    exact ⟨⟨_, sent⟩, delivered ▸ dataOf_part part, answered ▸ pongsFor_part part⟩
  generalize here : (Ws.scanner Ws.defaultMaxPayload).drain (b.wrapper.dec.buf ++ raw) = now at fed
  obtain ⟨items, kept, failed⟩ := now
  rw [consume_eq raw sendable b items kept failed (bound ▸ here)]
  cases failed with
  | some error => exact ⟨⟨before.sent, before.delivered, before.answered⟩, fun running => absurd rfl running⟩
  | none =>
    have told : served (taken ++ raw) = frames ++ items.takeWhile isOpen := by
      rw [served, fed, List.takeWhile_append_of_pos open_]
    have part : frames ++ items.takeWhile isOpen <+: served stream := told ▸ served_part reached
    have pongs := handleFrames_pongs_eq [] items
    have out_ := handleFrames_out_eq [] items
    generalize handleFrames [] items = handled at pongs out_ ⊢
    obtain ⟨pongs_, data⟩ := handled
    simp only at pongs out_
    have pongData : dataOf (b.sent ++ pongs_.take sendable) = dataOf b.sent := by
      have nothing : dataOf (pongs_.take sendable) = [] := by
        apply dataOf_pongs
        intro frame member
        rw [pongs] at member
        obtain ⟨ping, -, rfl⟩ := List.mem_map.mp (List.mem_of_mem_take member)
        rfl
      rw [dataOf_append, nothing, List.append_nil]
    have pongsSent : pongsIn (b.sent ++ pongs_.take sendable) = pongsFor frames ++ pongs_.take sendable := by
      have taken : pongsIn (pongs_.take sendable) = pongs_.take sendable := by
        have kept := pongsIn_pongsFor (items.takeWhile isOpen)
        rw [pongsIn, List.filter_eq_self] at kept
        rw [pongsIn, List.filter_eq_self]
        intro frame member
        rw [pongs] at member
        exact kept frame (List.mem_of_mem_take member)
      rw [pongsIn, List.filter_append, ← pongsIn, ← pongsIn, taken, answered]
    constructor
    · refine ⟨?_, before.delivered, ?_⟩
      · exact pongData ▸ before.sent
      · refine List.IsPrefix.trans (pongsSent ▸ ?_) (pongsFor_part part)
        rw [pongsFor_append, ← pongs]
        exact (List.prefix_append_right_inj _).mpr (List.take_prefix ..)
    · intro running
      change afterRead sendable ⟨pongs_, data⟩ ≠ .returned at running
      cases all : items.all isOpen with
      | false =>
        rw [all] at out_
        subst out_
        exact absurd (afterRead_none sendable pongs_) running
      | true =>
        rw [all, if_pos rfl, List.nil_append] at out_
        subst out_
        obtain ⟨enough, atari, server⟩ := afterRead_some running
        have each := List.all_eq_true.mp all
        rw [List.takeWhile_eq_self_iff.mpr each] at pongs
        rw [List.take_of_length_le enough] at pongsSent pongData
        refine ⟨bound, fun pc => (afterRead_parked sendable _ pc).elim, ?_, taken ++ raw, frames ++ items, ?_, fed, ?_, ?_, ?_⟩
        · change dataOf (b.sent ++ pongs_.take sendable) ++ (afterRead sendable ⟨pongs_, some _⟩).towardsServer ++ b.out =
            out
          rw [List.take_of_length_le enough, pongData, server, List.append_nil, sent]
        · rw [← whole, ← behind, List.append_assoc]
          rfl
        · intro frame member
          rcases List.mem_append.mp member with earlier | later
          · exact open_ frame earlier
          · exact each frame later
        · change b.inFd ++ (afterRead sendable ⟨pongs_, some _⟩).towardsAtari = _
          rw [atari, delivered, dataOf_append]
        · change pongsIn (b.sent ++ pongs_.take sendable) = _
          rw [List.take_of_length_le enough, pongsSent, pongsFor_append, pongs]

structure Relays (stream out : Bytes) (b : Bridge) : Prop where
  carried : Carried stream out b
  carries : b.pc ≠ .returned → Carries stream out b
  reads : b.Reads

theorem Carries.relays {stream out : Bytes} {b : Bridge} (carries : Carries stream out b) (reads : b.Reads) :
    Relays stream out b := ⟨carries.carried, fun _ => carries, reads⟩

theorem Relays.returned {stream out : Bytes} {b : Bridge} (relays : Relays stream out b) :
    Relays stream out { b with pc := .returned } :=
  ⟨⟨relays.carried.sent, relays.carried.delivered, relays.carried.answered⟩, fun running => absurd rfl running,
    ⟨relays.reads.frames, by simp⟩⟩

theorem Relays.arrival {stream out : Bytes} {b : Bridge} (relays : Relays stream out b) (more data : Bytes)
    (outEof sockEof : Bool) :
    Relays (stream ++ more) (out ++ data)
      { b with sock := b.sock ++ more, out := b.out ++ data, outEof := outEof, sockEof := sockEof } := by
  have carried := relays.carried.mono (List.prefix_append stream more) (List.prefix_append out data)
  refine ⟨⟨carried.sent, carried.delivered, carried.answered⟩, fun running => ?_, relays.reads.frames, relays.reads.next⟩
  obtain ⟨bound, emptied, sent, taken, frames, whole, read⟩ := relays.carries running
  refine ⟨bound, emptied, ?_, taken, frames, ?_, read⟩
  · rw [← sent, List.append_assoc _ b.out data]
  · rw [← whole]
    simp

theorem consume_reads (raw : Bytes) (sendable : Nat) (b : Bridge) (reads : b.Reads) : (b.consume raw sendable).Reads := by
  generalize drained : (Ws.scanner b.wrapper.dec.maxPayload).drain (b.wrapper.dec.buf ++ raw) = now
  obtain ⟨items, kept, failed⟩ := now
  rw [consume_eq raw sendable b items kept failed drained]
  split_ifs
  · exact ⟨reads.frames, by simp⟩
  · constructor
    · intro frame member
      rcases List.mem_append.mp member with earlier | pong
      · exact reads.frames frame earlier
      · rw [handleFrames_pongs_eq] at pong
        obtain ⟨ping, -, rfl⟩ := List.mem_map.mp (List.mem_of_mem_take pong)
        exact .inl rfl
    · intro data sockReady pc
      have never : afterRead sendable (handleFrames [] items) ≠ .sendOut data sockReady := by
        unfold afterRead
        split_ifs
        · simp
        · split <;> simp
      exact absurd pc never

theorem Carries.read_at {stream out : Bytes} {b : Bridge} (carries : Carries stream out b)
    (quiet : b.pc.towardsAtari = []) :
    ∃ taken frames, taken ++ (b.wrapper.initial ++ b.sock) = stream ∧
      (Ws.scanner Ws.defaultMaxPayload).drain taken = ⟨frames, b.wrapper.dec.buf, none⟩ ∧
      (∀ frame ∈ frames, isOpen frame = true) ∧ b.inFd = dataOf frames ∧ pongsIn b.sent = pongsFor frames := by
  obtain ⟨taken, frames, whole, drained, open_, delivered, answered⟩ := carries.read
  rw [quiet, List.append_nil] at delivered
  exact ⟨taken, frames, whole, drained, open_, delivered, answered⟩

theorem relays_step (stream out : Bytes) (b : Bridge) (label : Label) (after : Bridge) (relays : Relays stream out b)
    (step : b.next label = some after) : Relays (stream ++ label.arrived) (out ++ label.written) after := by
  cases label with
  | atariWrites data =>
    simp only [next, Option.ite_none_left_eq_some, Option.some.injEq] at step
    obtain ⟨-, rfl⟩ := step
    simpa [Label.arrived, Label.written] using relays.arrival [] data b.outEof b.sockEof
  | atariCloses =>
    obtain rfl := Option.some.inj step
    simpa [Label.arrived, Label.written] using relays.arrival [] [] true b.sockEof
  | serverSends data =>
    simp only [next, Option.ite_none_left_eq_some, Option.some.injEq] at step
    obtain ⟨-, rfl⟩ := step
    simpa [Label.arrived, Label.written] using relays.arrival data [] b.outEof b.sockEof
  | serverCloses =>
    obtain rfl := Option.some.inj step
    simpa [Label.arrived, Label.written] using relays.arrival [] [] b.outEof true
  | enter =>
    simp only [next, Option.ite_none_right_eq_some, Option.some.injEq] at step
    obtain ⟨pc, rfl⟩ := step
    have carries := relays.carries (by simp [pc])
    have read := carries.read_at (by simp [pc, Pc.towardsAtari])
    refine Carries.relays ⟨carries.bound, by simp, ?_, ?_⟩ ⟨relays.reads.frames, by simp⟩
    · simpa [pc, Pc.towardsServer, Label.written] using carries.sent
    · simpa [Pc.towardsAtari, Label.arrived] using read
  | select =>
    simp only [next, stepSelect, Option.ite_none_right_eq_some, Option.some.injEq] at step
    obtain ⟨⟨pc, -⟩, rfl⟩ := step
    have carries := relays.carries (by simp [pc])
    have read := carries.read_at (by simp [pc, Pc.towardsAtari])
    have sent := carries.sent
    rw [pc] at sent
    refine Carries.relays ⟨carries.bound, fun same => ?_, ?_, ?_⟩ ⟨relays.reads.frames, fun data sockReady same => ?_⟩
    · split_ifs at same
    · split_ifs <;> simpa [Pc.towardsServer, Label.written] using sent
    · split_ifs <;> simpa [Pc.towardsAtari, Label.arrived] using read
    · split_ifs at same
  | readOut =>
    simp only [next, stepReadOut] at step
    split at step
    next sockReady pc =>
      have carries := relays.carries (by simp [pc])
      have read := carries.read_at (by simp [pc, Pc.towardsAtari])
      split_ifs at step with empty <;> obtain rfl := Option.some.inj step
      · simpa [Label.arrived, Label.written] using relays.returned
      · have some_ : 0 < b.out.length := List.length_pos_iff.mpr empty
        refine Carries.relays ⟨carries.bound, by simp, ?_, ?_⟩ ⟨relays.reads.frames, ?_⟩
        · simpa [pc, Pc.towardsServer, Label.written] using carries.sent
        · simpa [Pc.towardsAtari, Label.arrived] using read
        · intro data ready same
          simp only [Pc.sendOut.injEq] at same
          obtain ⟨rfl, -⟩ := same
          rw [List.length_take]
          omega
    next => simp at step
  | sendOut =>
    simp only [next, stepSendOut] at step
    split at step
    next data sockReady pc =>
      have carries := relays.carries (by simp [pc])
      obtain ⟨taken, frames, whole, drained, open_, delivered, answered⟩ :=
        carries.read_at (by simp [pc, Pc.towardsAtari])
      have size := relays.reads.next data sockReady pc
      obtain rfl := Option.some.inj step
      refine Carries.relays ⟨carries.bound, fun same => ?_, ?_, taken, frames, ?_, drained, open_, ?_, ?_⟩ ⟨?_, ?_⟩
      · split_ifs at same
      · have said : dataOf [(Ws.opBinary, data)] = data := by simp [dataOf, isData]
        have idle : (if sockReady = true then Pc.recv else .select).towardsServer = [] := by
          split_ifs <;> rfl
        have sent := carries.sent
        simp only [pc, Pc.towardsServer] at sent
        rw [dataOf_append, said, idle, List.append_nil, sent]
        exact (List.append_nil out).symm
      · simpa [Label.arrived] using whole
      · have idle : (if sockReady = true then Pc.recv else .select).towardsAtari = [] := by
          split_ifs <;> rfl
        rw [idle, List.append_nil]
        exact delivered
      · have other : pongsIn [(Ws.opBinary, data)] = [] := by simp [pongsIn, Ws.opBinary, Ws.opPong]
        rw [pongsIn, List.filter_append, ← pongsIn, ← pongsIn, other, List.append_nil]
        exact answered
      · intro frame member
        rcases List.mem_append.mp member with earlier | last
        · exact relays.reads.frames frame earlier
        · rw [List.mem_singleton.mp last]
          exact .inr ⟨rfl, size⟩
      · intro other ready same
        split_ifs at same
    next => simp at step
  | recv sendable =>
    simp only [next, stepRecv] at step
    split_ifs at step with pc initial
    all_goals
      have carries := relays.carries (by simp [pc])
      have read := carries.read_at (by simp [pc, Pc.towardsAtari])
      have sent := carries.sent
      simp only [pc, Pc.towardsServer, List.append_nil] at sent
      obtain rfl := Option.some.inj step
      simp only [Label.arrived, Label.written, List.append_nil]
    · obtain ⟨carried, running⟩ := consume_carries (b := { b with wrapper := { b.wrapper with initial := [] } })
        sendable carries.bound sent rfl read
      exact ⟨carried, running, consume_reads _ _ _ ⟨relays.reads.frames, relays.reads.next⟩⟩
    · refine Carries.relays ⟨carries.bound, fun _ => not_not.mp initial, ?_, ?_⟩ ⟨relays.reads.frames, by simp⟩
      · simpa [Pc.towardsServer] using sent
      · simpa [Pc.towardsAtari] using read
  | rawRecv count sendable =>
    simp only [next, stepRawRecv] at step
    split_ifs at step with pc empty eof bounds
    all_goals
      have carries := relays.carries (by simp [pc])
      have read := carries.read_at (by simp [pc, Pc.towardsAtari])
      have sent := carries.sent
      simp only [pc, Pc.towardsServer, List.append_nil] at sent
      obtain rfl := Option.some.inj step
      simp only [Label.arrived, Label.written, List.append_nil]
    · exact relays.returned
    · have emptied := carries.emptied pc
      rw [emptied, List.nil_append, ← List.take_append_drop count b.sock] at read
      obtain ⟨carried, running⟩ := consume_carries (b := { b with sock := b.sock.drop count })
        sendable carries.bound sent (by rw [emptied, List.nil_append]) read
      exact ⟨carried, running, consume_reads _ _ _ ⟨relays.reads.frames, relays.reads.next⟩⟩
  | deliver =>
    simp only [next, stepDeliver] at step
    split at step
    next data pc =>
      have carries := relays.carries (by simp [pc])
      obtain rfl := Option.some.inj step
      refine Carries.relays ⟨carries.bound, by simp, ?_, ?_⟩ ⟨relays.reads.frames, by simp⟩
      · simpa [pc, Pc.towardsServer, Label.written] using carries.sent
      · simpa [pc, Pc.towardsAtari, Label.arrived] using carries.read
    next => simp at step
  | raises =>
    simp only [next, Option.ite_none_left_eq_some, Option.some.injEq] at step
    obtain ⟨-, rfl⟩ := step
    simpa [Label.arrived, Label.written] using relays.returned

def Idle (b : Bridge) : Prop := b.pc = .select ∧ b.wrapper.initial = [] ∧ b.sock = [] ∧ b.out = []

instance (b : Bridge) : Decidable b.Idle := inferInstanceAs (Decidable (_ ∧ _))

theorem Carries.idle {stream out : Bytes} {b : Bridge} (carries : Carries stream out b) (idle : b.Idle) :
    b.inFd = dataOf (served stream) ∧ pongsIn b.sent = pongsFor (served stream) ∧ dataOf b.sent = out := by
  obtain ⟨pc, initial, sock, unread⟩ := idle
  obtain ⟨taken, frames, whole, drained, open_, delivered, answered⟩ := carries.read_at (by simp [pc, Pc.towardsAtari])
  have sent := carries.sent
  rw [initial, sock, List.append_nil, List.append_nil] at whole
  subst whole
  rw [served_open drained open_]
  refine ⟨delivered, answered, ?_⟩
  simpa [pc, Pc.towardsServer, unread] using sent

theorem start_relays (trailing : Bytes) : Relays trailing [] (start { initial := trailing }) := by
  apply Carries.relays
  · exact ⟨rfl, fun _ => by contradiction, rfl, [], [], by simp [start], rfl, by simp, rfl, rfl⟩
  · exact ⟨fun frame member => by simp [start] at member, fun data ready same => by simp [start] at same⟩

end Bridge

theorem run_relays (trailing : Bytes) (labels : List Label) (b : Bridge)
    (run : bridgeMachine.Run Machine.anyStep (Bridge.start { initial := trailing }) labels b) :
    Bridge.Relays (trailing ++ arrived labels) (written labels) b := by
  induction run with
  | nil => simpa [arrived, written] using Bridge.start_relays trailing
  | snoc label earlier meets step ih =>
    have turn := Bridge.relays_step _ _ _ label _ ih step
    simpa [arrived, written] using turn

theorem bridge_verbatim (trailing : Bytes) (labels : List Label) (b : Bridge)
    (run : bridgeMachine.Run Machine.anyStep (Bridge.start { initial := trailing }) labels b) :
    b.inFd <+: dataOf (served (trailing ++ arrived labels)) ∧
      pongsIn b.sent <+: pongsFor (served (trailing ++ arrived labels)) ∧
      dataOf b.sent <+: written labels ∧
      (∀ frame ∈ b.sent,
        frame.1 = Ws.opPong ∨ frame.1 = Ws.opBinary ∧ 0 < frame.2.length ∧ frame.2.length ≤ 4096) ∧
      (b.Idle → b.inFd = dataOf (served (trailing ++ arrived labels)) ∧
        pongsIn b.sent = pongsFor (served (trailing ++ arrived labels)) ∧ dataOf b.sent = written labels) := by
  have relays := run_relays trailing labels b run
  refine ⟨relays.carried.delivered, relays.carried.answered, relays.carried.sent, relays.reads.frames, fun idle => ?_⟩
  exact (relays.carries (by simp [idle.1])).idle idle

theorem bridge_verbatim_cut :
    ∃ b, bridgeMachine.exec Machine.anyStep (Bridge.start { initial := [0x82] })
        [.serverSends [0x02, 0x90, 0x40, 0x89, 0x00], .enter, .select, .recv 0, .recv 0, .atariWrites [0xF8],
          .rawRecv 5 1, .deliver, .select, .readOut, .sendOut] = some b ∧
      b.inFd = [0x90, 0x40] ∧ pongsIn b.sent = [(Ws.opPong, [])] ∧ dataOf b.sent = [0xF8] := by
  have checked : (bridgeMachine.exec Machine.anyStep (Bridge.start { initial := [0x82] })
      [.serverSends [0x02, 0x90, 0x40, 0x89, 0x00], .enter, .select, .recv 0, .recv 0, .atariWrites [0xF8],
        .rawRecv 5 1, .deliver, .select, .readOut, .sendOut]).any (fun b => decide b.Idle) = true := by
    decide +kernel
  obtain ⟨b, executed, idle⟩ := (Option.any_eq_true _ _).mp checked
  refine ⟨b, executed, ?_⟩
  have carried := (bridge_verbatim [0x82] _ b (Machine.run_of_exec executed)).2.2.2.2 (of_decide_eq_true idle)
  have frames : dataOf (served [0x82, 0x02, 0x90, 0x40, 0x89, 0x00]) = [0x90, 0x40] ∧
      pongsFor (served [0x82, 0x02, 0x90, 0x40, 0x89, 0x00]) = [(Ws.opPong, [])] := by decide +kernel
  exact ⟨carried.1.trans frames.1, carried.2.1.trans frames.2, carried.2.2⟩

end MidiToIp.Gateway
