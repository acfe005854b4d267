import Mathlib.Data.List.Basic
import MidiToIp.Midi.InSide
import MidiToIp.Shared.Machine

set_option autoImplicit false

-- `.mbt_in` of `userfw.s`: every bus access of the m68k and every write of the module to shared memory
-- is a step of its own.

namespace MidiToIp.Midi

open Rings Machines

inductive Pc where
  | status
  | byte
  | snapshot (d0 : UInt8)
  | advance (d0 : UInt8) (d2 : UInt32)
  | ack (d0 : UInt8) (d2 : UInt32)
  deriving DecidableEq, Repr

inductive Fate where
  | popped
  | flushed
  deriving DecidableEq, Repr

structure System where
  rp : InSide := {}
  pc : Pc := .status
  inFlight : Bool := false
  -- What the advance of the running Bconin has removed.
  removed : Option Cell := none
  entered : List Cell := []
  departed : List (Cell × Fate) := []
  -- What each Bconin has returned, and what its advance removed.
  returned : List (UInt8 × Option Cell) := []

inductive Label where
  | m68k
  | write
  | call (ops : List InOp)
  | handle
  | ignore

namespace System

def stepM68k (s : System) : System :=
  match s.pc with
  | .status => if s.rp.shared.inStatus ≠ 0 then { s with pc := .byte } else s
  | .byte => { s with pc := .snapshot (s.rp.shared.inByte &&& 0xFF).toUInt8 }
  | .snapshot d0 => { s with pc := .advance d0 s.rp.shared.inAck }
  | .advance d0 d2 => { s with pc := .ack d0 d2, inFlight := true, removed := none }
  | .ack d0 d2 =>
    if s.rp.shared.inAck = d2 then s
    else { s with pc := .status, returned := s.returned ++ [(d0, s.removed)] }

def stepWrite (s : System) : Option System :=
  match s.rp.todo with
  | [] => none
  | write :: rest =>
    some { s with rp := { s.rp with shared := s.rp.shared.write write, todo := rest } }

def stepOp (s : System) (op : InOp) : System :=
  { s with
    rp := s.rp.perform op
    entered :=
      match op with
      | .push cell => if s.rp.ring.isFull then s.entered else s.entered ++ [cell]
      | _ => s.entered
    departed :=
      match op with
      | .flush => s.departed ++ s.rp.ring.contents.map fun cell => (cell, .flushed)
      | _ => s.departed }

def stepHandle (s : System) : System :=
  { s with
    rp := s.rp.advance
    inFlight := false
    removed := s.rp.ring.front
    departed := s.departed ++ s.rp.ring.front.toList.map fun cell => (cell, .popped) }

-- The module takes up its next call when the one before is over.
def next (s : System) : Label → Option System
  | .m68k => some s.stepM68k
  | .write => s.stepWrite
  | .call ops => if s.rp.todo = [] then some (ops.foldl stepOp s) else none
  | .handle => if s.rp.todo = [] ∧ s.inFlight then some s.stepHandle else none
  | .ignore => if s.rp.todo = [] ∧ s.inFlight then some { s with inFlight := false } else none

def popped (s : System) : List Cell :=
  s.departed.filterMap fun (cell, fate) => if fate = .popped then some cell else none

end System

def bconinMachine : Machine System Label := ⟨System.next⟩

def System.holds (s : System) : Bool :=
  match s.pc with
  | .snapshot _ => true
  | .advance _ _ => true
  | .ack _ _ => s.inFlight
  | _ => false

def shows (ring : Ring Cell queueBits) (words : SharedWords) : Prop :=
  ∃ c, ring.front = some c ∧ (words.inByte &&& 0xFF).toUInt8 = c.byte

instance (ring : Ring Cell queueBits) (words : SharedWords) : Decidable (shows ring words) :=
  decidable_of_iff (ring.front.any fun c => (words.inByte &&& 0xFF).toUInt8 == c.byte)
    (by simp [shows, Option.any_eq_true])

/-- The byte is read while it is the head, and is not flushed before its advance is handled. -/
def undisturbed (s : System) : Label → Prop
  | .m68k => s.pc = .byte → shows s.rp.ring s.rp.shared
  | .call ops => s.holds = true → InOp.flush ∉ ops
  | _ => True

instance (s : System) (label : Label) : Decidable (undisturbed s label) := by
  unfold undisturbed
  split <;> infer_instance

def System.current (s : System) : List Cell :=
  match s.pc with
  | .ack _ _ => s.removed.toList
  | _ => []

/-- Every byte that entered the ring is still there, was flushed, or was removed by the advance of
the one Bconin that returned it. -/
structure System.Exact (s : System) : Prop where
  accounted : s.entered = s.departed.map Prod.fst ++ s.rp.ring.contents
  own : ∀ call ∈ s.returned, ∃ c, call.2 = some c ∧ c.byte = call.1
  popped : s.popped = s.returned.filterMap Prod.snd ++ s.current
  pending : ∀ d0 d2, s.pc = .ack d0 d2 → ∀ c, s.removed = some c → c.byte = d0

def quiet (writes : List SharedWrite) : Prop := ∀ value, .ack value ∉ writes

def InSide.carries (rp : InSide) (d0 : UInt8) : Prop :=
  ∃ c, rp.ring.front = some c ∧ c.byte = d0

structure InSide.Level (rp : InSide) : Prop where
  quiet : quiet rp.todo
  inAck : rp.shared.inAck = rp.inAck

def System.Handshake (s : System) : Prop :=
  match s.pc with
  | .status | .byte => s.inFlight = false ∧ s.rp.Level
  | .snapshot d0 => s.inFlight = false ∧ s.rp.Level ∧ s.rp.carries d0
  | .advance d0 d2 => s.inFlight = false ∧ s.rp.Level ∧ d2 = s.rp.inAck ∧ s.rp.carries d0
  | .ack d0 d2 =>
    s.rp.Level ∧ d2 = s.rp.inAck ∧ s.removed = none ∧ (s.inFlight = true → s.rp.carries d0) ∨
      s.inFlight = false ∧ d2 + 1 = s.rp.inAck ∧ (∃ c, s.removed = some c ∧ c.byte = d0) ∧
        (s.rp.Level ∨
          s.rp.shared.inAck = d2 ∧
            ∃ writes, quiet writes ∧ s.rp.todo = writes ++ [.ack s.rp.inAck])

theorem quiet_append (first second : List SharedWrite) (quietFirst : quiet first)
    (quietSecond : quiet second) : quiet (first ++ second) := by
  intro value member
  rcases List.mem_append.mp member with here | here
  · exact quietFirst value here
  · exact quietSecond value here

theorem midiInPublish_quiet (ring : Ring Cell queueBits) : quiet (midiInPublish ring) := by
  intro value member
  simp [midiInPublish] at member

theorem front_push (ring : Ring Cell queueBits) (c cell : Cell) (head : ring.front = some c) :
    (ring.push cell).front = some c := by
  rw [← Ring.contents_head?] at head ⊢
  cases full : ring.isFull with
  | true => rwa [ring.push_of_isFull cell full]
  | false =>
    rw [ring.contents_push cell full, List.head?_append, head]
    rfl

namespace System

theorem stepM68k_exact (s : System) (exact_ : s.Exact) (handshake : s.Handshake) :
    s.stepM68k.Exact := by
  unfold stepM68k
  unfold Handshake at handshake
  have popped := exact_.popped
  unfold current at popped
  split
  next pc =>
    rw [pc] at popped
    split
    · exact ⟨exact_.accounted, exact_.own, popped, by simp⟩
    · exact exact_
  next pc =>
    rw [pc] at popped
    exact ⟨exact_.accounted, exact_.own, popped, by simp⟩
  next pc =>
    rw [pc] at popped
    exact ⟨exact_.accounted, exact_.own, popped, by simp⟩
  next pc =>
    rw [pc] at popped
    exact ⟨exact_.accounted, exact_.own, by simpa [current, System.popped] using popped, by simp⟩
  next d0 d2 pc =>
    rw [pc] at popped handshake
    split
    · exact exact_
    next changed =>
      -- the count has moved, so the advance has been handled
      rcases handshake with ⟨level, same, -⟩ | ⟨-, -, ⟨c, removed, byte⟩, -⟩
      · exact absurd (level.inAck.trans same.symm) changed
      · refine ⟨exact_.accounted, ?_, ?_, by simp⟩
        · intro call member
          rcases List.mem_append.mp member with old | new
          · exact exact_.own call old
          · obtain rfl := List.mem_singleton.mp new
            exact ⟨c, removed, byte⟩
        · simp only [removed, Option.toList_some] at popped
          simpa [current, System.popped, removed] using popped

theorem stepM68k_handshake (s : System) (handshake : s.Handshake)
    (meets : s.pc = .byte → shows s.rp.ring s.rp.shared) : s.stepM68k.Handshake := by
  unfold stepM68k
  have before := handshake
  unfold Handshake at before
  split
  next pc =>
    rw [pc] at before
    split
    · exact before
    · exact handshake
  next pc =>
    rw [pc] at before
    obtain ⟨c, front, byte⟩ := meets pc
    exact ⟨before.1, before.2, c, front, byte.symm⟩
  next pc =>
    rw [pc] at before
    obtain ⟨idle, level, carries⟩ := before
    exact ⟨idle, level, level.inAck, carries⟩
  next pc =>
    rw [pc] at before
    obtain ⟨idle, level, same, carries⟩ := before
    exact .inl ⟨level, same, rfl, fun _ => carries⟩
  next d0 d2 pc =>
    rw [pc] at before
    split
    · exact handshake
    next changed =>
      rcases before with ⟨level, same, -⟩ | ⟨idle, -, -, level | ⟨same, -⟩⟩
      · exact absurd (level.inAck.trans same.symm) changed
      · exact ⟨idle, level⟩
      · exact absurd same changed

theorem stepWrite_handshake (s after : System) (handshake : s.Handshake)
    (step : s.stepWrite = some after) : after.Handshake := by
  unfold stepWrite at step
  split at step
  next => simp at step
  next write rest todo =>
    obtain rfl := Option.some.inj step
    -- a write that is no ack leaves both counts as they are
    have arrives (level : s.rp.Level) :
        InSide.Level { s.rp with shared := s.rp.shared.write write, todo := rest } := by
      have quietTodo := level.quiet
      rw [todo] at quietTodo
      refine ⟨fun value member => quietTodo value (List.mem_cons_of_mem _ member), ?_⟩
      cases write with
      | byte value origin => exact level.inAck
      | status value => exact level.inAck
      | ack value => exact absurd List.mem_cons_self (quietTodo value)
    unfold Handshake at handshake ⊢
    cases pc : s.pc with
    | status =>
      rw [pc] at handshake
      exact ⟨handshake.1, arrives handshake.2⟩
    | byte =>
      rw [pc] at handshake
      exact ⟨handshake.1, arrives handshake.2⟩
    | snapshot d0 =>
      rw [pc] at handshake
      exact ⟨handshake.1, arrives handshake.2.1, handshake.2.2⟩
    | advance d0 d2 =>
      rw [pc] at handshake
      exact ⟨handshake.1, arrives handshake.2.1, handshake.2.2⟩
    | ack d0 d2 =>
      rw [pc] at handshake
      rcases handshake with ⟨level, later⟩ | ⟨idle, moved, removed, level | ⟨same, writes, quiet_, left⟩⟩
      · exact .inl ⟨arrives level, later⟩
      · exact .inr ⟨idle, moved, removed, .inl (arrives level)⟩
      · refine .inr ⟨idle, moved, removed, ?_⟩
        rw [todo] at left
        cases writes with
        | nil =>
          simp only [List.nil_append, List.cons.injEq] at left
          obtain ⟨rfl, rfl⟩ := left
          exact .inl ⟨by simp [quiet], rfl⟩
        | cons first others =>
          simp only [List.cons_append, List.cons.injEq] at left
          obtain ⟨rfl, rfl⟩ := left
          refine .inr ⟨?_, others, fun value member =>
            quiet_ value (List.mem_cons_of_mem _ member), rfl⟩
          cases write with
          | byte value origin => exact same
          | status value => exact same
          | ack value => exact absurd List.mem_cons_self (quiet_ value)

theorem stepWrite_exact (s after : System) (exact_ : s.Exact) (step : s.stepWrite = some after) :
    after.Exact := by
  unfold stepWrite at step
  split at step
  next => simp at step
  next =>
    obtain rfl := Option.some.inj step
    exact ⟨exact_.accounted, exact_.own, exact_.popped, exact_.pending⟩

theorem stepOp_exact (s : System) (op : InOp) (exact_ : s.Exact) : (s.stepOp op).Exact := by
  have accounted := exact_.accounted
  cases op with
  | push cell =>
    refine ⟨?_, exact_.own, exact_.popped, exact_.pending⟩
    simp only [stepOp, InSide.perform]
    cases full : s.rp.ring.isFull with
    | true => simpa [s.rp.ring.push_of_isFull cell full] using accounted
    | false => simp [s.rp.ring.contents_push cell full, accounted]
  | publish => exact ⟨accounted, exact_.own, exact_.popped, exact_.pending⟩
  | flush =>
    refine ⟨?_, exact_.own, ?_, exact_.pending⟩
    · simp [stepOp, InSide.perform, InSide.publish, accounted, Function.comp_def]
    · have popped := exact_.popped
      simpa [stepOp, System.popped, current] using popped

theorem stepOp_level (s : System) (op : InOp) (level : s.rp.Level) : (s.stepOp op).rp.Level := by
  cases op with
  | push cell => exact ⟨level.quiet, level.inAck⟩
  | publish => exact ⟨quiet_append _ _ level.quiet (midiInPublish_quiet _), level.inAck⟩
  | flush => exact ⟨quiet_append _ _ level.quiet (midiInPublish_quiet _), level.inAck⟩

theorem stepOp_carries (s : System) (op : InOp) (d0 : UInt8) (keeps : op ≠ .flush)
    (carries : s.rp.carries d0) : (s.stepOp op).rp.carries d0 := by
  obtain ⟨c, front, byte⟩ := carries
  cases op with
  | push cell => exact ⟨c, front_push _ _ _ front, byte⟩
  | publish => exact ⟨c, front, byte⟩
  | flush => exact absurd rfl keeps

theorem stepOp_handshake (s : System) (op : InOp) (handshake : s.Handshake) (level : s.rp.Level)
    (keeps : s.holds = true → op ≠ .flush) : (s.stepOp op).Handshake := by
  have levelAfter := s.stepOp_level op level
  unfold Handshake at handshake ⊢
  have inAck : (s.stepOp op).rp.inAck = s.rp.inAck := by cases op <;> rfl
  cases pc : s.pc with
  | status =>
    rw [pc] at handshake
    simp only [stepOp, pc] at levelAfter ⊢
    exact ⟨handshake.1, levelAfter⟩
  | byte =>
    rw [pc] at handshake
    simp only [stepOp, pc] at levelAfter ⊢
    exact ⟨handshake.1, levelAfter⟩
  | snapshot d0 =>
    rw [pc] at handshake
    have carries := s.stepOp_carries op d0 (keeps (by simp [holds, pc])) handshake.2.2
    simp only [stepOp, pc] at levelAfter carries ⊢
    exact ⟨handshake.1, levelAfter, carries⟩
  | advance d0 d2 =>
    rw [pc] at handshake
    have carries := s.stepOp_carries op d0 (keeps (by simp [holds, pc])) handshake.2.2.2
    simp only [stepOp, pc] at levelAfter carries inAck ⊢
    exact ⟨handshake.1, levelAfter, by rw [inAck]; exact handshake.2.2.1, carries⟩
  | ack d0 d2 =>
    rw [pc] at handshake
    have carries (flying : s.inFlight = true) :=
      s.stepOp_carries op d0 (keeps (by simp [holds, pc, flying]))
    simp only [stepOp, pc] at levelAfter carries inAck ⊢
    rw [inAck]
    rcases handshake with ⟨-, same, removed, carried⟩ | ⟨idle, moved, removed, -⟩
    · exact .inl ⟨levelAfter, same, removed, fun flying => carries flying (carried flying)⟩
    · exact .inr ⟨idle, moved, removed, .inl levelAfter⟩

theorem call_keeps (s : System) (ops : List InOp) (exact_ : s.Exact) (handshake : s.Handshake)
    (level : s.rp.Level) (keeps : s.holds = true → .flush ∉ ops) :
    (ops.foldl stepOp s).Exact ∧ (ops.foldl stepOp s).Handshake := by
  induction ops generalizing s with
  | nil => exact ⟨exact_, handshake⟩
  | cons op rest ih =>
    have heldBefore : (s.stepOp op).holds = s.holds := rfl
    refine ih _ (s.stepOp_exact op exact_) (s.stepOp_handshake op handshake level ?_)
      (s.stepOp_level op level) ?_
    · rintro held rfl
      exact keeps held List.mem_cons_self
    · intro held member
      exact keeps (heldBefore ▸ held) (List.mem_cons_of_mem _ member)

theorem level_of_idle (s : System) (handshake : s.Handshake) (todo : s.rp.todo = []) : s.rp.Level := by
  unfold Handshake at handshake
  split at handshake
  · exact handshake.2
  · exact handshake.2
  · exact handshake.2.1
  · exact handshake.2.1
  · rcases handshake with ⟨level, -⟩ | ⟨-, -, -, level | ⟨-, writes, -, left⟩⟩
    · exact level
    · exact level
    · rw [todo] at left
      simp at left

theorem stepHandle_keeps (s : System) (exact_ : s.Exact) (handshake : s.Handshake)
    (todo : s.rp.todo = []) (flying : s.inFlight = true) :
    s.stepHandle.Exact ∧ s.stepHandle.Handshake := by
  have level := s.level_of_idle handshake todo
  unfold Handshake at handshake
  cases pc : s.pc with
  | ack d0 d2 =>
    rw [pc] at handshake
    rcases handshake with ⟨-, same, none_, carried⟩ | ⟨idle, -⟩
    · obtain ⟨c, front, byte⟩ := carried flying
      have head : s.rp.ring.contents.head? = some c := by rw [Ring.contents_head?, front]
      have contents : s.rp.ring.contents = c :: s.rp.ring.pop.contents := by
        rw [Ring.contents_pop]
        exact (List.cons_head?_tail (Option.mem_def.mpr head)).symm
      refine ⟨⟨?_, exact_.own, ?_, ?_⟩, ?_⟩
      · have accounted := exact_.accounted
        rw [contents] at accounted
        simp [stepHandle, InSide.advance, InSide.publish, front, accounted]
      · have popped := exact_.popped
        simp only [current, pc, none_, Option.toList_none, List.append_nil] at popped
        simp only [System.popped] at popped
        simp [stepHandle, System.popped, current, pc, front, popped]
      · intro d0' d2' pc' c' removed
        simp only [stepHandle, pc, Pc.ack.injEq] at pc'
        simp only [stepHandle, front, Option.some.injEq] at removed
        rw [← removed, byte, pc'.1]
      · unfold Handshake
        simp only [stepHandle, pc]
        refine .inr ⟨trivial, by rw [same]; rfl, ⟨c, front, byte⟩, .inr ⟨?_, midiInPublish s.rp.ring.pop,
          midiInPublish_quiet _, ?_⟩⟩
        · exact level.inAck.trans same.symm
        · simp [InSide.advance, InSide.publish, todo]
    · rw [idle] at flying
      simp at flying
  | _ =>
    rw [pc] at handshake
    rw [handshake.1] at flying
    simp at flying

theorem ignore_keeps (s : System) (exact_ : s.Exact) (handshake : s.Handshake)
    (flying : s.inFlight = true) :
    Exact { s with inFlight := false } ∧ Handshake { s with inFlight := false } := by
  refine ⟨⟨exact_.accounted, exact_.own, exact_.popped, exact_.pending⟩, ?_⟩
  unfold Handshake at handshake ⊢
  cases pc : s.pc with
  | ack d0 d2 =>
    rw [pc] at handshake
    rcases handshake with ⟨level, same, none_, -⟩ | ⟨idle, -⟩
    · exact .inl ⟨level, same, none_, by simp⟩
    · rw [idle] at flying
      simp at flying
  | _ =>
    rw [pc] at handshake
    rw [handshake.1] at flying
    simp at flying

theorem next_keeps (s after : System) (label : Label) (exact_ : s.Exact) (handshake : s.Handshake)
    (meets : undisturbed s label) (step : s.next label = some after) :
    after.Exact ∧ after.Handshake := by
  cases label with
  | m68k =>
    obtain rfl := Option.some.inj step
    exact ⟨s.stepM68k_exact exact_ handshake, s.stepM68k_handshake handshake meets⟩
  | write => exact ⟨s.stepWrite_exact after exact_ step, s.stepWrite_handshake after handshake step⟩
  | call ops =>
    simp only [next, Option.ite_none_right_eq_some, Option.some.injEq] at step
    obtain ⟨todo, rfl⟩ := step
    exact s.call_keeps ops exact_ handshake (s.level_of_idle handshake todo) meets
  | handle =>
    simp only [next, Option.ite_none_right_eq_some, Option.some.injEq] at step
    obtain ⟨⟨todo, flying⟩, rfl⟩ := step
    exact s.stepHandle_keeps exact_ handshake todo flying
  | ignore =>
    simp only [next, Option.ite_none_right_eq_some, Option.some.injEq] at step
    obtain ⟨⟨todo, flying⟩, rfl⟩ := step
    exact s.ignore_keeps exact_ handshake flying

end System

theorem run_exact (labels : List Label) (s : System)
    (run : bconinMachine.Run undisturbed {} labels s) : s.Exact := by
  have keeps : s.Exact ∧ s.Handshake := by
    refine run.invariant (fun s => s.Exact ∧ s.Handshake) ?_
      fun s label after holds meets step =>
        System.next_keeps s after label holds.1 holds.2 meets step
    refine ⟨⟨by simp, by simp, rfl, by simp⟩, rfl, ?_, rfl⟩
    simp [quiet]
  exact keeps.1

-- A flush neither happens nor is on its way to the m68k from the read of the status on.
def calm (s : System) : Label → Prop
  | .m68k => s.pc = .status → s.rp.shared.inStatus ≠ 0 → .status 0 ∉ s.rp.todo
  | .call ops => s.pc = .byte ∨ s.holds = true → InOp.flush ∉ ops
  | _ => True

def outdated (todo : List SharedWrite) : Prop := .status 0 ∈ todo ∨ ¬ quiet todo

def published (ring : Ring Cell queueBits) (words : SharedWords) : List SharedWrite → Prop
  | [] => words.inStatus ≠ 0 → shows ring words
  | write :: rest =>
    (words.inStatus ≠ 0 → outdated (write :: rest) ∨ shows ring words) ∧
      published ring (words.write write) rest

theorem outdated_append (todo more : List SharedWrite) (old : outdated more) :
    outdated (todo ++ more) := by
  rcases old with zero | loud
  · exact .inl (List.mem_append_right _ zero)
  · exact .inr fun quiet_ => loud fun value member => quiet_ value (List.mem_append_right _ member)

theorem outdated_extend (todo more : List SharedWrite) (old : outdated todo) :
    outdated (todo ++ more) := by
  rcases old with zero | loud
  · exact .inl (List.mem_append_left _ zero)
  · exact .inr fun quiet_ => loud fun value member => quiet_ value (List.mem_append_left _ member)

theorem published_push (ring : Ring Cell queueBits) (cell : Cell) (words : SharedWords)
    (todo : List SharedWrite) (before : published ring words todo) :
    published (ring.push cell) words todo := by
  have still (words : SharedWords) (shown : shows ring words) : shows (ring.push cell) words := by
    obtain ⟨c, front, byte⟩ := shown
    exact ⟨c, front_push ring c cell front, byte⟩
  induction todo generalizing words with
  | nil => exact fun ready => still words (before ready)
  | cons write rest ih =>
    refine ⟨fun ready => ?_, ih _ before.2⟩
    exact (before.1 ready).imp id (still words)

theorem spread_low (b : UInt8) : (b.toUInt32 * 0x01010101 &&& 0xFF).toUInt8 = b := by
  have all : ∀ value : Fin 256,
      ((UInt8.ofNat value.val).toUInt32 * 0x01010101 &&& 0xFF).toUInt8 = UInt8.ofNat value.val := by
    decide +kernel
  have byte := all ⟨b.toNat, b.toNat_lt⟩
  rwa [UInt8.ofNat_toNat] at byte

theorem midiInPublish_cases (ring : Ring Cell queueBits) :
    ring.front = none ∧ midiInPublish ring = [.byte 0 none, .status 0] ∨
      ∃ c, ring.front = some c ∧
        midiInPublish ring = [.byte (c.byte.toUInt32 * 0x01010101) (some c), .status 0xFFFFFFFF] := by
  unfold midiInPublish Ring.front
  by_cases empty : ring.depth = 0
  · simp [empty]
  · simp [empty]

theorem published_publish (ring : Ring Cell queueBits) (words : SharedWords)
    (todo : List SharedWrite) (before : published ring words todo) :
    published ring words (todo ++ midiInPublish ring) := by
  induction todo generalizing words with
  | nil =>
    rcases midiInPublish_cases ring with ⟨-, writes⟩ | ⟨c, front, writes⟩
    · rw [writes]
      exact ⟨fun _ => .inl (.inl (by simp)), fun _ => .inl (.inl (by simp)),
        fun ready => absurd rfl ready⟩
    · rw [writes]
      have shown : shows ring (words.write (.byte (c.byte.toUInt32 * 0x01010101) (some c))) :=
        ⟨c, front, spread_low c.byte⟩
      exact ⟨fun ready => .inr (before ready), fun _ => .inr shown, fun _ => shown⟩
  | cons write rest ih =>
    exact ⟨fun ready => (before.1 ready).imp (outdated_extend (write :: rest) _) id, ih _ before.2⟩

theorem published_behind (ring : Ring Cell queueBits) (words : SharedWords)
    (todo more : List SharedWrite) (old : outdated more) (later : ∀ words, published ring words more) :
    published ring words (todo ++ more) := by
  induction todo generalizing words with
  | nil => exact later words
  | cons write rest ih => exact ⟨fun _ => .inl (outdated_append (write :: rest) more old), ih _⟩

theorem published_flush (ring : Ring Cell queueBits) (words : SharedWords)
    (todo : List SharedWrite) :
    published ring.flush words (todo ++ midiInPublish ring.flush) := by
  have empty : ring.flush.front = none := by
    rw [← Ring.contents_head?, ring.contents_flush]
    rfl
  rcases midiInPublish_cases ring.flush with ⟨-, writes⟩ | ⟨c, front, -⟩
  · rw [writes]
    refine published_behind _ words todo _ (.inl (by simp)) fun words => ?_
    exact ⟨fun _ => .inl (.inl (by simp)), fun _ => .inl (.inl (by simp)),
      fun ready => absurd rfl ready⟩
  · rw [front] at empty
    simp at empty

theorem published_advance (ring : Ring Cell queueBits) (words : SharedWords)
    (todo : List SharedWrite) (value : UInt32) :
    published ring words (todo ++ midiInPublish ring ++ [.ack value]) := by
  have loud (writes : List SharedWrite) : outdated (writes ++ [.ack value]) :=
    .inr fun quiet_ => quiet_ value (List.mem_append_right _ List.mem_cons_self)
  rw [List.append_assoc]
  refine published_behind ring words todo _ (loud _) fun words => ?_
  rcases midiInPublish_cases ring with ⟨-, writes⟩ | ⟨c, front, writes⟩
  · rw [writes]
    exact ⟨fun _ => .inl (loud [_, _]), fun _ => .inl (loud [_]), fun _ => .inl (loud []),
      fun ready => absurd rfl ready⟩
  · rw [writes]
    exact ⟨fun _ => .inl (loud [_, _]), fun _ => .inl (loud [_]), fun _ => .inl (loud []),
      fun _ => ⟨c, front, spread_low c.byte⟩⟩

structure System.Ready (s : System) : Prop where
  published : published s.rp.ring s.rp.shared s.rp.todo
  read : s.pc = .byte → s.rp.shared.inStatus ≠ 0 ∧ .status 0 ∉ s.rp.todo

namespace System

theorem Ready.shows {s : System} (ready : s.Ready) (level : s.rp.Level) (pc : s.pc = .byte) :
    Midi.shows s.rp.ring s.rp.shared := by
  obtain ⟨status, full⟩ := ready.read pc
  have published := ready.published
  cases todo : s.rp.todo with
  | nil =>
    rw [todo] at published
    exact published status
  | cons write rest =>
    have now : outdated s.rp.todo ∨ Midi.shows s.rp.ring s.rp.shared := by
      rw [todo] at published ⊢
      exact published.1 status
    rcases now with (zero | loud) | shown
    · exact absurd zero full
    · exact absurd level.quiet loud
    · exact shown

theorem stepOp_ready (s : System) (op : InOp) (ready : s.Ready) (level : s.rp.Level)
    (keeps : s.pc = .byte → op ≠ .flush) : (s.stepOp op).Ready := by
  cases op with
  | push cell => exact ⟨published_push _ _ _ _ ready.published, ready.read⟩
  | publish =>
    refine ⟨published_publish _ _ _ ready.published, fun pc => ?_⟩
    obtain ⟨status, full⟩ := ready.read pc
    obtain ⟨c, front, -⟩ := ready.shows level pc
    refine ⟨status, ?_⟩
    rcases midiInPublish_cases s.rp.ring with ⟨empty, -⟩ | ⟨_, -, writes⟩
    · rw [front] at empty
      simp at empty
    · simp [stepOp, InSide.perform, InSide.publish, writes, full]
  | flush => exact ⟨published_flush _ _ _, fun pc => absurd rfl (keeps pc)⟩

theorem call_ready (s : System) (ops : List InOp) (ready : s.Ready) (level : s.rp.Level)
    (keeps : s.pc = .byte → .flush ∉ ops) : (ops.foldl stepOp s).Ready := by
  induction ops generalizing s with
  | nil => exact ready
  | cons op rest ih =>
    refine ih _ (s.stepOp_ready op ready level ?_) (s.stepOp_level op level) ?_
    · rintro pc rfl
      exact keeps pc List.mem_cons_self
    · intro pc member
      exact keeps pc (List.mem_cons_of_mem _ member)

theorem next_ready (s after : System) (label : Label) (ready : s.Ready) (handshake : s.Handshake)
    (meets : calm s label) (step : s.next label = some after) : after.Ready := by
  cases label with
  | m68k =>
    obtain rfl := Option.some.inj step
    unfold stepM68k
    split
    next pc =>
      split
      next status => exact ⟨ready.published, fun _ => ⟨status, meets pc status⟩⟩
      next => exact ready
    next => exact ⟨ready.published, by simp⟩
    next => exact ⟨ready.published, by simp⟩
    next => exact ⟨ready.published, by simp⟩
    next =>
      split
      · exact ready
      · exact ⟨ready.published, by simp⟩
  | write =>
    simp only [next, stepWrite] at step
    split at step
    next => simp at step
    next write rest todo =>
      obtain rfl := Option.some.inj step
      have published := ready.published
      have read := ready.read
      rw [todo] at published read
      refine ⟨published.2, fun pc => ?_⟩
      obtain ⟨status, full⟩ := read pc
      simp only [List.mem_cons, not_or] at full
      refine ⟨?_, full.2⟩
      cases write with
      | byte value origin => exact status
      | status value =>
        rintro rfl
        exact full.1 rfl
      | ack value => exact status
  | call ops =>
    simp only [next, Option.ite_none_right_eq_some, Option.some.injEq] at step
    obtain ⟨todo, rfl⟩ := step
    exact s.call_ready ops ready (s.level_of_idle handshake todo) fun pc => meets (.inl pc)
  | handle =>
    simp only [next, Option.ite_none_right_eq_some, Option.some.injEq] at step
    obtain ⟨⟨todo, flying⟩, rfl⟩ := step
    refine ⟨published_advance _ _ _ _, fun pc => ?_⟩
    unfold Handshake at handshake
    rw [show s.pc = .byte from pc] at handshake
    rw [handshake.1] at flying
    simp at flying
  | ignore =>
    simp only [next, Option.ite_none_right_eq_some, Option.some.injEq] at step
    obtain ⟨-, rfl⟩ := step
    exact ⟨ready.published, ready.read⟩

theorem calm_undisturbed (s : System) (label : Label) (ready : s.Ready) (handshake : s.Handshake)
    (meets : calm s label) : undisturbed s label := by
  cases label with
  | m68k =>
    intro pc
    unfold Handshake at handshake
    rw [pc] at handshake
    exact ready.shows handshake.2 pc
  | call ops => exact fun holds => meets (.inr holds)
  | _ => trivial

end System

theorem run_calm_undisturbed (labels : List Label) (s : System)
    (run : bconinMachine.Run calm {} labels s) : bconinMachine.Run undisturbed {} labels s := by
  refine run.strengthen (fun s => s.Exact ∧ s.Handshake ∧ s.Ready) ?_ ?_ ?_
  · exact ⟨⟨by simp, by simp, rfl, by simp⟩, ⟨rfl, by simp [quiet], rfl⟩, fun ready => absurd rfl ready,
      by simp⟩
  · rintro s label after ⟨exact_, handshake, ready⟩ meets step
    have undisturbed := s.calm_undisturbed label ready handshake meets
    obtain ⟨exactAfter, handshakeAfter⟩ := s.next_keeps after label exact_ handshake undisturbed step
    exact ⟨exactAfter, handshakeAfter, s.next_ready after label ready handshake meets step⟩
  · rintro s label ⟨-, handshake, ready⟩ meets
    exact s.calm_undisturbed label ready handshake meets

theorem bconin_exact (labels : List Label) (s : System) :
    (bconinMachine.Run undisturbed {} labels s → s.Exact) ∧
      (bconinMachine.Run calm {} labels s → bconinMachine.Run undisturbed {} labels s ∧ s.Exact) :=
  ⟨run_exact labels s, fun run =>
    ⟨run_calm_undisturbed labels s run, run_exact labels s (run_calm_undisturbed labels s run)⟩⟩

theorem bconin_exact_once :
    ∃ s, bconinMachine.exec undisturbed {}
        [.m68k, .call [.push ⟨0x90, 0⟩, .publish], .write, .write, .m68k, .m68k, .m68k, .m68k, .m68k,
          .handle, .write, .write, .m68k, .write, .m68k] = some s ∧
      s.returned = [(0x90, some ⟨0x90, 0⟩)] ∧ s.Exact := by
  have checked : (bconinMachine.exec undisturbed {}
      [.m68k, .call [.push ⟨0x90, 0⟩, .publish], .write, .write, .m68k, .m68k, .m68k, .m68k, .m68k,
        .handle, .write, .write, .m68k, .write, .m68k]).any
        (fun s => decide (s.returned = [(0x90, some ⟨0x90, 0⟩)])) = true := by
    decide +kernel
  obtain ⟨s, executed, returned⟩ := (Option.any_eq_true _ _).mp checked
  exact ⟨s, executed, of_decide_eq_true returned, (bconin_exact _ s).1 (Machine.run_of_exec executed)⟩

-- The stale cleanup between the read of the status and the read of the byte.
theorem flushedStatus_notExact :
    ¬ ∀ (labels : List Label) (s : System), bconinMachine.Run Machine.anyStep {} labels s →
      s.Exact := by
  intro always
  have checked : (bconinMachine.exec Machine.anyStep {}
      [.call [.push ⟨0x90, 0⟩, .publish], .write, .write, .m68k, .call [.flush], .write, .write,
        .m68k, .m68k, .m68k, .handle, .write, .write, .write, .m68k]).any
        (fun s => decide (s.returned = [(0, none)])) = true := by
    decide +kernel
  obtain ⟨s, executed, returned⟩ := (Option.any_eq_true _ _).mp checked
  obtain ⟨c, removed, -⟩ := (always _ s (Machine.run_of_exec executed)).own (0, none) (by
    rw [of_decide_eq_true returned]
    exact List.mem_cons_self)
  simp at removed

theorem foldl_stepOp_rp (ops : List InOp) (s : System) :
    (ops.foldl System.stepOp s).rp = InSide.performAll ops s.rp ∧
      (ops.foldl System.stepOp s).pc = s.pc := by
  induction ops generalizing s with
  | nil => exact ⟨rfl, rfl⟩
  | cons op rest ih => exact ih (s.stepOp op)

theorem run_writes (s : System) :
    ∃ labels after, bconinMachine.Run Machine.anyStep s labels after ∧
      after.rp = s.rp.settled ∧ after.pc = s.pc := by
  induction size : s.rp.todo generalizing s with
  | nil =>
    refine ⟨[], s, .nil, ?_, rfl⟩
    rw [InSide.settled, size, SharedWords.writeAll, List.foldl_nil, ← size]
  | cons write rest ih =>
    let middle : System :=
      { s with rp := { s.rp with shared := s.rp.shared.write write, todo := rest } }
    have step : bconinMachine.next s .write = some middle := by
      simp [bconinMachine, System.next, System.stepWrite, size, middle]
    obtain ⟨labels, after, run, settled, pc⟩ := ih middle rfl
    refine ⟨[Label.write] ++ labels, after,
      Machine.Run.append (.snoc Label.write .nil trivial step) run, ?_, pc⟩
    rw [settled]
    simp [InSide.settled, size, middle, SharedWords.writeAll]

theorem firmware_simulated (lwip : Lwip) (s after : Firmware) (event : Event) (system : System)
    (step : s.next lwip event = some after) (same : system.rp = s.inSide)
    (sample : ∀ addrLsb, event = .rom3 addrLsb → addrLsb &&& Firmware.midiInAdvance ≠ 0 →
      system.inFlight = true) :
    ∃ labels system', bconinMachine.Run Machine.anyStep system labels system' ∧
      system'.rp = after.inSide ∧ system'.pc = system.pc := by
  have todo : system.rp.todo = [] := by rw [same]; rfl
  rcases Firmware.next_performs lwip s after event step with ⟨ops, performed⟩ | ⟨addrLsb, rfl, bit, popped⟩
  · have call : bconinMachine.next system (.call ops) = some (ops.foldl System.stepOp system) := by
      simp [bconinMachine, System.next, todo]
    obtain ⟨rp, pc⟩ := foldl_stepOp_rp ops system
    obtain ⟨labels, system', run, settled, pc'⟩ := run_writes (ops.foldl System.stepOp system)
    refine ⟨[Label.call ops] ++ labels, system', Machine.Run.append (.snoc _ .nil trivial call) run, ?_,
      pc'.trans pc⟩
    rw [settled, rp, same, performed]
  · have handle : bconinMachine.next system .handle = some system.stepHandle := by
      simp [bconinMachine, System.next, todo, sample addrLsb rfl bit]
    obtain ⟨labels, system', run, settled, pc'⟩ := run_writes system.stepHandle
    refine ⟨[Label.handle] ++ labels, system', Machine.Run.append (.snoc _ .nil trivial handle) run, ?_, pc'⟩
    rw [settled, popped, ← same]
    rfl

end MidiToIp.Midi
