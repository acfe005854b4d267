import Mathlib.Data.List.Basic
import MidiToIp.Command.SampleRing
import MidiToIp.Midi.Link

set_option autoImplicit false

-- A drain takes what was captured when it begins. What `midi_net_poll` and lwIP do leaves the gate
-- alone and is not a step here.

namespace MidiToIp.Command

open Machines Midi

inductive Captured where
  | frame (word : UInt16)
  | out (byte : UInt8)
  | advance
  | deactivate
  deriving DecidableEq, Repr

namespace Captured

def index : Captured → UInt16
  | .frame word => word
  | .out byte => Firmware.midiOutMarker + byte.toUInt16
  | .advance => Firmware.midiInAdvance
  | .deactivate => Firmware.midiDeactivate

def sample (x : Captured) : UInt16 := captured (tstAddress x.index)

def isFrame : Captured → Bool
  | .frame _ => true
  | _ => false

def isDeactivate (x : Captured) : Bool := x = .deactivate

def markers : UInt16 := Firmware.midiDeactivate ||| Firmware.midiInAdvance ||| Firmware.midiOutMarker

def stray : Captured → Bool
  | .frame word => word &&& markers ≠ 0
  | _ => false

def quiet (x : Captured) : Bool := !x.stray && !x.isDeactivate

end Captured

inductive DisplayCommand where
  | nop
  | reset
  | bootGem
  | term
  | start
  deriving DecidableEq, Repr

inductive Place where
  | userfw
  | install
  | loop
  | checked
  | sending (r : Registers) (rest : List UInt16) (tries : Nat)
  | waiting (r : Registers) (tries : Nat)
  | gem
  deriving DecidableEq, Repr

/-- `launching` is the time between the two writes of `cmdFirmware`; `up` says that the gate has been
raised since the last reset of the m68k. -/
structure Board where
  st : Place := .userfw
  ring : List Captured := []
  rp : Firmware
  launching : Bool := false
  sentinel : DisplayCommand := .nop
  taken : List Captured := []
  up : Bool := false

def appTerminalStart : UInt16 := 0
def appTerminalKeystroke : UInt16 := 1
def cmdMidiSaveVector : UInt16 := 0x0300

def keyRegisters (key seed : UInt32) : Registers :=
  if key &&& 0xFF = 27 then ⟨appTerminalStart, 0, seed, key, 0, 0, 0⟩
  else ⟨appTerminalKeystroke, 4, seed, key, 0, 0, 0⟩

def vectorRegisters (vector field seed : UInt32) : Registers :=
  ⟨cmdMidiSaveVector, 8, seed, vector, field, 0, 0⟩

inductive BoardLabel where
  | reset
  | deactivate
  | install (vector field seed : UInt32)
  | word
  | answered
  | timeout (seed : UInt32)
  | readSentinel
  | noKey
  | key (key seed : UInt32)
  | midiOut (byte : UInt8)
  | midiAdvance
  | drain
  | raiseGate
  | publish
  | display (command : DisplayCommand)

namespace Board

def emit (x : Captured) (b : Board) : Board := { b with ring := capture x b.ring }

def trySend (r : Registers) (tries : Nat) (b : Board) : Board :=
  { b with st := .sending r (sendSyncCommandToSidecart r) tries }

def warmReset (b : Board) : Board := { b with st := .userfw, up := false }

def consumeRom3Sample (b : Board) (x : Captured) : Board :=
  let (handled, rp) := b.rp.midiRom3Consumer (addrLsb x.sample)
  { b with rp := rp, taken := if handled then b.taken ++ [x] else b.taken }

def drain (b : Board) : Board := b.ring.foldl consumeRom3Sample { b with ring := [] }

def next (b : Board) : BoardLabel → Option Board
  | .reset => some b.warmReset
  | .deactivate => if b.st = .userfw then some { b.emit .deactivate with st := .install } else none
  | .install vector field seed =>
    if b.st = .install then some (b.trySend (vectorRegisters vector field seed) 0) else none
  | .word =>
    match b.st with
    | .sending r (word :: rest) tries =>
      some { b.emit (.frame word) with
        st := if rest = [] then .waiting r tries else .sending r rest tries }
    | _ => none
  | .answered =>
    match b.st with
    | .waiting _ _ => some { b with st := .loop }
    | _ => none
  | .timeout seed =>
    match b.st with
    | .waiting r (tries + 1) => some (b.trySend { r with d2 := seed } tries)
    | .waiting _ 0 => some { b with st := .loop }
    | _ => none
  | .readSentinel =>
    if b.st = .loop then
      match b.sentinel with
      | .reset => some b.warmReset
      | .bootGem | .start => some { b with st := .gem }
      | .nop | .term => some { b with st := .checked }
    else none
  | .noKey => if b.st = .checked then some { b with st := .loop } else none
  | .key key seed =>
    if b.st = .checked then some (b.trySend (keyRegisters key seed) cmdRetriesCount) else none
  | .midiOut byte => if b.st = .gem then some (b.emit (.out byte)) else none
  | .midiAdvance => if b.st = .gem then some (b.emit .advance) else none
  | .drain => if b.launching then none else some b.drain
  | .raiseGate =>
    if b.launching then none
    else some { b with rp := { b.rp with active := true }, launching := true, up := true }
  | .publish => if b.launching then some { b with sentinel := .start, launching := false } else none
  | .display command => if b.launching then none else some { b with sentinel := command }

end Board

def boardMachine : Machine Board BoardLabel := ⟨Board.next⟩

def BoardLabel.captures : BoardLabel → Bool
  | .deactivate | .word | .midiOut _ | .midiAdvance => true
  | _ => false

theorem foldl_consume_ring (words : List Captured) (b : Board) :
    (words.foldl Board.consumeRom3Sample b).ring = b.ring := by
  induction words generalizing b with
  | nil => rfl
  | cons x rest ih => exact ih (b.consumeRom3Sample x)

theorem Board.next_listStep (b : Board) (label : BoardLabel) (after : Board)
    (step : b.next label = some after) : ∃ words given,
      ListStep (b.ring.map Captured.sample) words given (after.ring.map Captured.sample) ∧
        words.length ≤ [label].countP BoardLabel.captures := by
  have keeps (other : Board) (same : other.ring = b.ring) : ∃ words given,
      ListStep (b.ring.map Captured.sample) words given (other.ring.map Captured.sample) ∧
        words.length ≤ [label].countP BoardLabel.captures :=
    ⟨[], [], same ▸ .keep _, Nat.zero_le _⟩
  have emits (x : Captured) (other : Board) (same : other.ring = capture x b.ring)
      (reads : label.captures = true) : ∃ words given,
      ListStep (b.ring.map Captured.sample) words given (other.ring.map Captured.sample) ∧
        words.length ≤ [label].countP BoardLabel.captures := by
    refine ⟨[x.sample], [], ?_, by simp [reads]⟩
    rw [same, capture_map]
    exact .capture _ _
  unfold next at step
  cases label with
  | reset =>
    obtain rfl := Option.some.inj step
    exact keeps _ rfl
  | deactivate =>
    simp only [Option.ite_none_right_eq_some, Option.some.injEq] at step
    obtain ⟨-, rfl⟩ := step
    exact emits _ _ rfl rfl
  | word =>
    simp only at step
    split at step
    next =>
      obtain rfl := Option.some.inj step
      exact emits _ _ rfl rfl
    next => simp at step
  | midiOut byte =>
    simp only [Option.ite_none_right_eq_some, Option.some.injEq] at step
    obtain ⟨-, rfl⟩ := step
    exact emits _ _ rfl rfl
  | midiAdvance =>
    simp only [Option.ite_none_right_eq_some, Option.some.injEq] at step
    obtain ⟨-, rfl⟩ := step
    exact emits _ _ rfl rfl
  | drain =>
    simp only [Option.ite_none_left_eq_some, Option.some.injEq] at step
    obtain ⟨-, rfl⟩ := step
    refine ⟨[], b.ring.map Captured.sample, ?_, Nat.zero_le _⟩
    rw [Board.drain, foldl_consume_ring]
    exact .poll _
  | answered | timeout seed =>
    simp only at step
    split at step
    all_goals first
      | obtain rfl := Option.some.inj step; exact keeps _ rfl
      | simp at step
  | readSentinel =>
    simp only [Option.ite_none_right_eq_some] at step
    obtain ⟨-, step⟩ := step
    split at step <;> obtain rfl := Option.some.inj step <;> exact keeps _ rfl
  | install vector field seed | noKey | key key seed | publish =>
    simp only [Option.ite_none_right_eq_some, Option.some.injEq] at step
    obtain ⟨-, rfl⟩ := step
    exact keeps _ rfl
  | raiseGate | display command =>
    simp only [Option.ite_none_left_eq_some, Option.some.injEq] at step
    obtain ⟨-, rfl⟩ := step
    exact keeps _ rfl

theorem board_refinesRing {allowed : Board → BoardLabel → Prop} (rp : Firmware) (labels : List BoardLabel)
    (b : Board) (run : boardMachine.Run allowed { rp := rp } labels b)
    (total : labels.countP BoardLabel.captures < 2 ^ 32 - 1) :
    ∃ ringLabels s, sampleRing.Run Machine.anyStep {} ringLabels s ∧
      s.Unread (b.ring.map Captured.sample) := by
  obtain ⟨ringLabels, s, reached, unread, -⟩ := CommRing.follows_run
    (fun b => b.ring.map Captured.sample) BoardLabel.captures Board.next_listStep run rfl total
  exact ⟨ringLabels, s, reached, unread⟩

def opens (gate : Bool) (ring : List Captured) : Bool := gate && ring.all fun x => !x.isDeactivate

def Behind : Bool → List Captured → Prop
  | _, [] => True
  | gate, x :: rest => (x.stray = true → gate = false) ∧ Behind (gate && !x.isDeactivate) rest

theorem opens_cons (gate : Bool) (x : Captured) (rest : List Captured) :
    opens gate (x :: rest) = opens (gate && !x.isDeactivate) rest := by
  simp [opens, Bool.and_assoc]

theorem behind_append (gate : Bool) (ring : List Captured) (x : Captured) :
    Behind gate (ring ++ [x]) ↔ Behind gate ring ∧ (x.stray = true → opens gate ring = false) := by
  induction ring generalizing gate with
  | nil => simp [Behind, opens]
  | cons first rest ih =>
    rw [List.cons_append, Behind, Behind, ih, opens_cons]
    exact and_assoc.symm

theorem behind_noStray (gate : Bool) (ring : List Captured)
    (none_ : ∀ x ∈ ring, x.stray = false) : Behind gate ring := by
  induction ring generalizing gate with
  | nil => trivial
  | cons x rest ih =>
    refine ⟨fun stray => ?_, ih _ fun y member => none_ y (List.mem_cons_of_mem _ member)⟩
    rw [none_ x List.mem_cons_self] at stray
    simp at stray

theorem consumer_active (lsb : UInt16) (s : Firmware) :
    (s.midiRom3Consumer lsb).2.active =
      (s.active && decide (lsb &&& Firmware.midiDeactivate = 0)) := by
  unfold Firmware.midiRom3Consumer
  cases gate : s.active with
  | false => simp [gate]
  | true =>
    simp only [Bool.not_true, Bool.false_eq_true, if_false, Bool.true_and]
    by_cases deactivates : lsb &&& Firmware.midiDeactivate = 0
    · rw [if_neg (not_not.mpr deactivates)]
      split_ifs
      · simpa [Firmware.advance, Firmware.publish, deactivates] using gate
      · simpa [Firmware.midiNetSendByte, deactivates] using gate
      · simpa [deactivates] using gate
    · rw [if_pos deactivates]
      simp [deactivates]

theorem and_markers (lsb marker : UInt16) (isMarker : Captured.markers &&& marker = marker)
    (clear : lsb &&& Captured.markers = 0) : lsb &&& marker = 0 := by
  rw [← isMarker, ← UInt16.and_assoc, clear, UInt16.zero_and]

theorem consumer_takes (lsb : UInt16) (s : Firmware) (handled : (s.midiRom3Consumer lsb).1 = true) :
    s.active = true ∧ lsb &&& Captured.markers ≠ 0 := by
  unfold Firmware.midiRom3Consumer at handled
  cases gate : s.active with
  | false => simp [gate] at handled
  | true =>
    refine ⟨rfl, fun clear => ?_⟩
    have deactivates := and_markers lsb Firmware.midiDeactivate rfl clear
    have advances := and_markers lsb Firmware.midiInAdvance rfl clear
    have sends := and_markers lsb Firmware.midiOutMarker rfl clear
    simp [gate, deactivates, advances, sends] at handled

theorem consumer_stray (word : UInt16) (s : Firmware)
    (handled : (s.midiRom3Consumer word).1 = true) : (Captured.frame word).stray = true := by
  simpa [Captured.stray] using (consumer_takes word s handled).2

theorem index_deactivates (x : Captured) (plain : x.stray = false) :
    decide (x.index &&& Firmware.midiDeactivate = 0) = !x.isDeactivate := by
  cases x with
  | frame word =>
    have clear : word &&& Captured.markers = 0 := by simpa [Captured.stray] using plain
    simp [Captured.index, Captured.isDeactivate, and_markers word Firmware.midiDeactivate rfl clear]
  | out byte =>
    have clear : Firmware.midiOutMarker + byte.toUInt16 &&& Firmware.midiDeactivate = 0 := by
      apply UInt16.toNat_inj.mp
      have bound := byte.toNat_lt
      have value : (Firmware.midiOutMarker + byte.toUInt16).toNat = 256 + byte.toNat := by
        rw [UInt16.toNat_add, UInt8.toNat_toUInt16, show Firmware.midiOutMarker.toNat = 256 from rfl]
        omega
      have bit : (256 + byte.toNat).testBit 10 = false := Nat.testBit_lt_two_pow (by omega)
      rw [UInt16.toNat_and, value, show Firmware.midiDeactivate.toNat = 2 ^ 10 from rfl,
        Nat.and_two_pow, bit]
      rfl
    simp [Captured.index, clear, Captured.isDeactivate]
  | advance => decide
  | deactivate => decide

theorem consume_effect (b : Board) (x : Captured) (behind : x.stray = true → b.rp.active = false) :
    ∃ rp taken, b.consumeRom3Sample x = { b with rp := rp, taken := taken } ∧
      rp.active = (b.rp.active && !x.isDeactivate) ∧
      ∀ y ∈ taken, y ∈ b.taken ∨ y.isFrame = false := by
  refine ⟨(b.rp.midiRom3Consumer (addrLsb x.sample)).2,
    if (b.rp.midiRom3Consumer (addrLsb x.sample)).1 then b.taken ++ [x] else b.taken, rfl, ?_,
    fun y member => ?_⟩
  · rw [consumer_active, Captured.sample, addrLsb_captured]
    cases stray : x.stray with
    | false => rw [index_deactivates x stray]
    | true => simp [behind stray]
  · split at member
    next handled =>
      rcases List.mem_append.mp member with old | new
      · exact .inl old
      · obtain rfl := List.mem_singleton.mp new
        right
        rw [Captured.sample, addrLsb_captured] at handled
        have up := (consumer_takes _ _ handled).1
        cases y with
        | frame word => simp [behind (consumer_stray word _ handled)] at up
        | out byte => rfl
        | advance => rfl
        | deactivate => rfl
    next => exact .inl member

theorem drain_effect (b : Board) (behind : Behind b.rp.active b.ring) :
    ∃ rp taken, b.drain = { b with ring := [], rp := rp, taken := taken } ∧
      rp.active = opens b.rp.active b.ring ∧ ∀ y ∈ taken, y ∈ b.taken ∨ y.isFrame = false := by
  have all (ring : List Captured) (start : Board) (behind : Behind start.rp.active ring) :
      ∃ rp taken, ring.foldl Board.consumeRom3Sample start = { start with rp := rp, taken := taken } ∧
        rp.active = opens start.rp.active ring ∧
        ∀ y ∈ taken, y ∈ start.taken ∨ y.isFrame = false := by
    induction ring generalizing start with
    | nil => exact ⟨start.rp, start.taken, rfl, by simp [opens], fun y member => .inl member⟩
    | cons x rest ih =>
      obtain ⟨rp, taken, one, gate, old⟩ := consume_effect start x behind.1
      obtain ⟨final, took, others, gateAfter, new⟩ :=
        ih { start with rp := rp, taken := taken } (by rw [gate]; exact behind.2)
      refine ⟨final, took, ?_, ?_, fun y member => ?_⟩
      · rw [List.foldl_cons, one, others]
      · rw [gateAfter, gate, opens_cons]
      · rcases new y member with before | plain
        · exact old y before
        · exact .inr plain
  exact all b.ring { b with ring := [] } behind

def Place.remaining : Place → List UInt16
  | .sending _ rest _ => rest
  | _ => []

def Place.harmless (st : Place) : Bool := st.remaining.all fun word => !(Captured.frame word).stray

def Board.overruns (lost : List Captured) (b : Board) : Prop :=
  b.ring.length + 1 = commRingWords ∧ b.rp.active = true ∧ Captured.deactivate ∈ lost

instance (lost : List Captured) (b : Board) : Decidable (b.overruns lost) :=
  inferInstanceAs (Decidable (_ ∧ _ ∧ _))

/-- The gate is raised while no stray word and no deactivation is on its way, no frame begins while
it is up for the words of the frame, and no deactivation is lost. -/
def clearLaunch (b : Board) : BoardLabel → Prop
  | .raiseGate => b.st ≠ .userfw ∧ b.st.harmless = true ∧ b.ring.all Captured.quiet = true
  | .install _ _ _ | .timeout _ | .key _ _ => opens b.rp.active b.ring = false
  | .word | .midiOut _ | .midiAdvance => ¬ b.overruns b.ring
  | .deactivate => ¬ b.overruns (b.ring ++ [.deactivate])
  | _ => True

instance (b : Board) : (label : BoardLabel) → Decidable (clearLaunch b label)
  | .raiseGate => inferInstanceAs (Decidable (_ ∧ _ ∧ _))
  | .install _ _ _ | .timeout _ | .key _ _ => inferInstanceAs (Decidable (_ = _))
  | .word | .midiOut _ | .midiAdvance => inferInstanceAs (Decidable ¬ b.overruns b.ring)
  | .deactivate => inferInstanceAs (Decidable ¬ b.overruns (b.ring ++ [.deactivate]))
  | .reset | .answered | .readSentinel | .noKey | .drain | .publish | .display _ => .isTrue trivial

structure Sound (b : Board) : Prop where
  behind : Behind b.rp.active b.ring
  sending : opens b.rp.active b.ring = true → b.st.harmless = true
  up : b.up = true → b.rp.active = true ∧ opens b.rp.active b.ring = true ∧ b.st ≠ .userfw
  taken : ∀ x ∈ b.taken, x.isFrame = false

theorem opens_append (gate : Bool) (ring : List Captured) (x : Captured) :
    opens gate (ring ++ [x]) = (opens gate ring && !x.isDeactivate) := by
  simp [opens, Bool.and_assoc]

theorem opens_false (gate : Bool) (ring : List Captured) (closed : opens gate ring = false) :
    gate = false ∨ Captured.deactivate ∈ ring := by
  cases gate with
  | false => exact .inl rfl
  | true =>
    right
    simp only [opens, Bool.true_and, List.all_eq_false, Bool.not_eq_true', Bool.not_eq_false,
      Captured.isDeactivate, decide_eq_true_eq] at closed
    obtain ⟨x, member, rfl⟩ := closed
    exact member

theorem capture_sound (b : Board) (x : Captured) (st : Place) (sound : Sound b)
    (stray : x.stray = true → opens b.rp.active b.ring = false)
    (keeps : ¬ b.overruns b.ring) (up : b.up = true → x.isDeactivate = false ∧ st ≠ .userfw)
    (sending : opens b.rp.active b.ring = true → st.harmless = true) :
    Sound { b.emit x with st := st } := by
  unfold Board.emit capture
  split
  next full =>
    refine ⟨trivial, fun open_ => sending ?_, fun raised => ?_, sound.taken⟩
    · have gate : b.rp.active = true := by simpa [opens] using open_
      cases still : opens b.rp.active b.ring with
      | true => rfl
      | false =>
        rcases opens_false _ _ still with down | waiting
        · simp [down] at gate
        · exact absurd ⟨full, gate, waiting⟩ keeps
    · obtain ⟨gate, -, -⟩ := sound.up raised
      exact ⟨gate, by simp [opens, gate], (up raised).2⟩
  next =>
    refine ⟨?_, fun open_ => sending ?_, fun raised => ?_, sound.taken⟩
    · exact (behind_append b.rp.active b.ring x).mpr ⟨sound.behind, stray⟩
    · have both : (opens b.rp.active b.ring && !x.isDeactivate) = true := by
        rw [← opens_append]
        exact open_
      exact (Bool.and_eq_true_iff.mp both).1
    · obtain ⟨gate, open_, -⟩ := sound.up raised
      obtain ⟨plain, place⟩ := up raised
      refine ⟨gate, ?_, place⟩
      rw [opens_append, open_, plain]
      rfl

theorem move_sound (b after : Board) (sound : Sound b) (ring : after.ring = b.ring)
    (rp : after.rp = b.rp) (taken : after.taken = b.taken)
    (sending : opens b.rp.active b.ring = true → after.st.harmless = true)
    (up : after.up = true → b.up = true ∧ after.st ≠ .userfw) : Sound after := by
  refine ⟨by rw [ring, rp]; exact sound.behind, ?_, fun raised => ?_, by rw [taken]; exact sound.taken⟩
  · rw [ring, rp]
    exact sending
  · obtain ⟨was, place⟩ := up raised
    obtain ⟨gate, open_, -⟩ := sound.up was
    rw [ring, rp]
    exact ⟨gate, open_, place⟩

theorem begin_sound (b : Board) (r : Registers) (tries : Nat) (sound : Sound b)
    (closed : opens b.rp.active b.ring = false) : Sound (b.trySend r tries) :=
  move_sound b _ sound rfl rfl rfl (fun open_ => absurd (closed.symm.trans open_) (by simp))
    fun raised => ⟨raised, by simp [Board.trySend]⟩

theorem idle_harmless (st : Place) (sendsNothing : st.remaining = []) : st.harmless = true := by
  simp [Place.harmless, sendsNothing]

theorem word_sound (b after : Board) (sound : Sound b) (keeps : ¬ b.overruns b.ring)
    (step : b.next .word = some after) : Sound after := by
  simp only [Board.next] at step
  split at step
  next r word rest tries here =>
    obtain rfl := Option.some.inj step
    have harmless (open_ : opens b.rp.active b.ring = true) :
        (Captured.frame word).stray = false ∧ ∀ other ∈ rest, (Captured.frame other).stray = false := by
      simpa [here, Place.harmless, Place.remaining] using sound.sending open_
    refine capture_sound b (.frame word) _ sound (fun stray => ?_) keeps
      (fun raised => ⟨rfl, ?_⟩) (fun open_ => ?_)
    · cases open_ : opens b.rp.active b.ring with
      | false => rfl
      | true => simp [(harmless open_).1] at stray
    · split <;> simp
    · split
      next => exact idle_harmless _ rfl
      next => simpa [Place.harmless, Place.remaining] using (harmless open_).2
  next => simp at step

theorem gem_sound (b : Board) (x : Captured) (sound : Sound b) (here : b.st = .gem)
    (keeps : ¬ b.overruns b.ring) (plain : x.stray = false) (stays : x.isDeactivate = false) :
    Sound (b.emit x) := by
  have same : b.emit x = { b.emit x with st := .gem } := by
    rw [← here]
    rfl
  rw [same]
  exact capture_sound b x .gem sound (by simp [plain]) keeps (fun _ => ⟨stays, by simp⟩)
    fun _ => idle_harmless _ rfl

theorem drain_sound (b : Board) (sound : Sound b) : Sound b.drain := by
  obtain ⟨rp, taken, drained, gate, new⟩ := drain_effect b sound.behind
  have same : opens rp.active [] = opens b.rp.active b.ring := by
    rw [gate]
    simp [opens]
  rw [drained]
  refine ⟨trivial, fun open_ => sound.sending (same ▸ open_), fun raised => ?_, fun x member => ?_⟩
  · obtain ⟨-, open_, place⟩ := sound.up raised
    exact ⟨gate.trans open_, same.trans open_, place⟩
  · rcases new x member with old | plain
    · exact sound.taken x old
    · exact plain

theorem next_sound (b after : Board) (label : BoardLabel) (sound : Sound b)
    (meets : clearLaunch b label) (step : b.next label = some after) : Sound after := by
  have idle (st : Place) (sendsNothing : st.remaining = []) :
      opens b.rp.active b.ring = true → st.harmless = true :=
    fun _ => idle_harmless st sendsNothing
  cases label with
  | reset =>
    obtain rfl := Option.some.inj step
    exact move_sound b _ sound rfl rfl rfl (idle _ rfl) (by simp [Board.warmReset])
  | deactivate =>
    simp only [Board.next, Option.ite_none_right_eq_some, Option.some.injEq] at step
    obtain ⟨here, rfl⟩ := step
    have kept : ¬ b.overruns b.ring := fun lost =>
      meets ⟨lost.1, lost.2.1, List.mem_append_left _ lost.2.2⟩
    exact capture_sound b .deactivate .install sound (by simp [Captured.stray]) kept
      (fun raised => absurd here (sound.up raised).2.2) (idle _ rfl)
  | install vector field seed =>
    simp only [Board.next, Option.ite_none_right_eq_some, Option.some.injEq] at step
    obtain ⟨here, rfl⟩ := step
    exact begin_sound b _ 0 sound meets
  | word => exact word_sound b after sound meets step
  | answered =>
    simp only [Board.next] at step
    split at step
    next =>
      obtain rfl := Option.some.inj step
      exact move_sound b _ sound rfl rfl rfl (idle _ rfl) fun raised => ⟨raised, by simp⟩
    next => simp at step
  | timeout seed =>
    simp only [Board.next] at step
    split at step
    next =>
      obtain rfl := Option.some.inj step
      exact begin_sound b _ _ sound meets
    next =>
      obtain rfl := Option.some.inj step
      exact move_sound b _ sound rfl rfl rfl (idle _ rfl) fun raised => ⟨raised, by simp⟩
    next => simp at step
  | readSentinel =>
    simp only [Board.next, Option.ite_none_right_eq_some] at step
    obtain ⟨-, step⟩ := step
    split at step <;> obtain rfl := Option.some.inj step
    · exact move_sound b _ sound rfl rfl rfl (idle _ rfl) (by simp [Board.warmReset])
    all_goals exact move_sound b _ sound rfl rfl rfl (idle _ rfl) fun raised => ⟨raised, by simp⟩
  | noKey =>
    simp only [Board.next, Option.ite_none_right_eq_some, Option.some.injEq] at step
    obtain ⟨-, rfl⟩ := step
    exact move_sound b _ sound rfl rfl rfl (idle _ rfl) fun raised => ⟨raised, by simp⟩
  | key key seed =>
    simp only [Board.next, Option.ite_none_right_eq_some, Option.some.injEq] at step
    obtain ⟨-, rfl⟩ := step
    exact begin_sound b _ _ sound meets
  | midiOut byte =>
    simp only [Board.next, Option.ite_none_right_eq_some, Option.some.injEq] at step
    obtain ⟨here, rfl⟩ := step
    exact gem_sound b (.out byte) sound here meets rfl rfl
  | midiAdvance =>
    simp only [Board.next, Option.ite_none_right_eq_some, Option.some.injEq] at step
    obtain ⟨here, rfl⟩ := step
    exact gem_sound b .advance sound here meets rfl rfl
  | drain =>
    simp only [Board.next, Option.ite_none_left_eq_some, Option.some.injEq] at step
    obtain ⟨-, rfl⟩ := step
    exact drain_sound b sound
  | raiseGate =>
    simp only [Board.next, Option.ite_none_left_eq_some, Option.some.injEq] at step
    obtain ⟨-, rfl⟩ := step
    obtain ⟨place, sending, quiet⟩ := meets
    have plain (x : Captured) (member : x ∈ b.ring) : x.stray = false ∧ x.isDeactivate = false := by
      simpa [Captured.quiet] using List.all_eq_true.mp quiet x member
    have open_ : opens true b.ring = true := by
      simp only [opens, Bool.true_and, List.all_eq_true, Bool.not_eq_true']
      exact fun x member => (plain x member).2
    exact ⟨behind_noStray true b.ring fun x member => (plain x member).1, fun _ => sending,
      fun _ => ⟨rfl, open_, place⟩, sound.taken⟩
  | publish =>
    simp only [Board.next, Option.ite_none_right_eq_some, Option.some.injEq] at step
    obtain ⟨-, rfl⟩ := step
    exact move_sound b _ sound rfl rfl rfl sound.sending fun raised => ⟨raised, (sound.up raised).2.2⟩
  | display command =>
    simp only [Board.next, Option.ite_none_left_eq_some, Option.some.injEq] at step
    obtain ⟨-, rfl⟩ := step
    exact move_sound b _ sound rfl rfl rfl sound.sending fun raised => ⟨raised, (sound.up raised).2.2⟩

def KeptApart (b : Board) : Prop :=
  (∀ x ∈ b.taken, x.isFrame = false) ∧ (b.up = true → b.rp.active = true)

def Board.init (settings : Settings) (now : Nat) : Board := { rp := Firmware.midiInit settings now }

theorem init_sound (settings : Settings) (now : Nat) : Sound (Board.init settings now) where
  behind := trivial
  sending := fun _ => rfl
  up := by simp [Board.init]
  taken := by simp [Board.init]

theorem launch_keptApart (settings : Settings) (now : Nat) (labels : List BoardLabel) (b : Board)
    (run : boardMachine.Run clearLaunch (Board.init settings now) labels b) : KeptApart b := by
  have sound : Sound b :=
    run.invariant Sound (init_sound settings now) fun b label after sound meets step =>
      next_sound b after label sound meets step
  exact ⟨sound.taken, fun raised => (sound.up raised).1⟩

def bootLabels : List BoardLabel :=
  [.deactivate, .install 0x00FC0748 0x00FA0868 7] ++ List.replicate 10 .word ++ [.drain, .answered]

def quietLaunch : List BoardLabel :=
  bootLabels ++ [.readSentinel, .noKey, .raiseGate, .publish, .readSentinel, .midiOut 0x90, .drain,
    .reset] ++ bootLabels

theorem launch_keptApart_quiet :
    ∃ b, boardMachine.exec clearLaunch (Board.init ⟨none⟩ 0) quietLaunch = some b ∧
      b.taken = [.out 0x90, .deactivate] ∧ KeptApart b := by
  have checked : (boardMachine.exec clearLaunch (Board.init ⟨none⟩ 0) quietLaunch).map
      (fun b => b.taken) = some [.out 0x90, .deactivate] := by decide +kernel
  obtain ⟨b, executed, taken⟩ := Option.map_eq_some_iff.mp checked
  exact ⟨b, executed, taken, launch_keptApart ⟨none⟩ 0 _ b (Machine.run_of_exec executed)⟩

-- The countdown ends between the read of the sentinel and the read of the key, which is Ctrl-C.
def launchIntoKey : List BoardLabel :=
  bootLabels ++ [.readSentinel, .raiseGate, .publish, .key 0x042E0003 1] ++
    List.replicate 8 .word ++ [.drain]

theorem launchIntoKey_mixed :
    ∃ b, boardMachine.Run Machine.anyStep (Board.init ⟨none⟩ 0) launchIntoKey b ∧
      (∃ x ∈ b.taken, x.isFrame = true) ∧ b.up = true ∧ b.rp.active = false ∧ ¬ KeptApart b := by
  have checked : (boardMachine.exec Machine.anyStep (Board.init ⟨none⟩ 0) launchIntoKey).any
      (fun b => b.taken.any Captured.isFrame && (b.up && !b.rp.active)) = true := by decide +kernel
  obtain ⟨b, executed, both⟩ := (Option.any_eq_true _ _).mp checked
  simp only [Bool.and_eq_true, Bool.not_eq_true', List.any_eq_true] at both
  obtain ⟨mixed, up, down⟩ := both
  refine ⟨b, Machine.run_of_exec executed, mixed, up, down, fun kept => ?_⟩
  simp [kept.2 up] at down

end MidiToIp.Command
