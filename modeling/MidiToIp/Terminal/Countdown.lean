import Mathlib.Data.List.Basic
import Mathlib.Tactic.Ring
import MidiToIp.Command.Chandler
import MidiToIp.Shared.Machine
import MidiToIp.Terminal.Keystrokes

set_option autoImplicit false

-- The main loop of `emul.c` with its command buffer. The bar at the bottom of the screen is left out.

namespace MidiToIp.Terminal

open Octets Machines

structure CommandBuffer where
  protocolBuffers : Fin 2 → Command.TransmissionProtocol := fun _ => {}
  protocolReadIndex : Fin 2 := 0
  protocolWriteIndex : Fin 2 := 1
  protocolBufferReady : Bool := false
  protocolOverwriteCount : UInt32 := 0

namespace CommandBuffer

-- A command that `term_loop` has not taken yet is lost.
def termCommandCb (protocol : Command.TransmissionProtocol) (b : CommandBuffer) : CommandBuffer :=
  if protocol.commandId &&& 0xFF00 ≠ 0 then b
  else
    { protocolBuffers := Function.update b.protocolBuffers b.protocolWriteIndex
        (Command.tprotocolCopySafely (b.protocolBuffers b.protocolWriteIndex) protocol)
      protocolReadIndex := b.protocolWriteIndex
      protocolWriteIndex := b.protocolReadIndex
      protocolBufferReady := true
      protocolOverwriteCount :=
        if b.protocolBufferReady then b.protocolOverwriteCount + 1 else b.protocolOverwriteCount }

def snapshot (b : CommandBuffer) : Command.TransmissionProtocol := b.protocolBuffers b.protocolReadIndex

end CommandBuffer

def bootCountdownSecs : Int := 10

structure Launch where
  time : Nat
  keys : Nat
  pressed : Nat
  deriving DecidableEq, Repr

/-- The main loop from `init` on. Times are microseconds, `now` the latest that was read. -/
structure MainLoop (Other : Type) where
  menu : Menu Other
  buffer : CommandBuffer
  haltCountdown : Bool
  countdown : Int
  lastDecrement : Nat
  countdownStartSeq : UInt32
  now : Nat
  keys : Nat := 0
  pressed : Nat := 0
  launches : List Launch := []

def isKeystroke (protocol : Command.TransmissionProtocol) : Nat :=
  if protocol.commandId = appTerminalKeystroke then 1 else 0

inductive LoopLabel (Other : Type) where
  | command (protocol : Command.TransmissionProtocol)
  | elsewhere (other : Other)
  -- A turn of the loop that reads the clock twice, where the status may have changed.
  | turn (checked stamped : Nat) (changed : Bool)

namespace MainLoop

variable {Other : Type} (env : Environment Other)

def init (time : Nat) (buffer : CommandBuffer) (s : Menu Other) : Option (MainLoop Other) :=
  (Terminal.menu env { s with term := s.term.clearScreen }).map fun drawn =>
    { menu := drawn
      buffer := buffer
      haltCountdown := false
      countdown := bootCountdownSecs
      lastDecrement := time
      countdownStartSeq := s.term.keystrokeSeq
      now := time }

def termLoop (l : MainLoop Other) : Option (MainLoop Other) :=
  if l.buffer.protocolBufferReady then
    (Terminal.termLoop (commands env) l.buffer.snapshot l.menu).map fun s =>
      { l with
        menu := s
        buffer := { l.buffer with protocolBufferReady := false }
        keys := l.keys + isKeystroke l.buffer.snapshot }
  else some l

def haltOnKey (l : MainLoop Other) : MainLoop Other :=
  if l.haltCountdown = false ∧ l.menu.term.keystrokeSeq ≠ l.countdownStartSeq then
    { l with haltCountdown := true }
  else l

def redraw (l : MainLoop Other) : Option (MainLoop Other) :=
  (Terminal.menu env l.menu).map fun s => { l with menu := s }

def countDown (checked stamped : Nat) (changed : Bool) (l : MainLoop Other) : Option (MainLoop Other) :=
  if l.menu.world.menuScreenActive = true ∧ l.haltCountdown = false then
    if checked - l.lastDecrement ≥ 1000000 then
      let l := { l with lastDecrement := stamped, countdown := l.countdown - 1 }
      if l.countdown ≤ 0 then
        (cmdFirmware env none l.menu).map fun s =>
          { l with
            menu := s
            haltCountdown := true
            launches := l.launches ++ [⟨checked, l.keys, l.pressed⟩] }
      else if changed then l.redraw env
      else some l
    else some l
  else if l.menu.world.menuScreenActive = true ∧ CString.cstr l.menu.term.inputBuffer.toList = [] ∧ changed then
    l.redraw env
  else some l

def turn (checked stamped : Nat) (changed : Bool) (l : MainLoop Other) : Option (MainLoop Other) :=
  (l.termLoop env).bind fun l =>
    (l.haltOnKey.countDown env checked stamped changed).map fun l => { l with now := stamped }

def next (l : MainLoop Other) : LoopLabel Other → Option (MainLoop Other)
  | .command protocol =>
    some { l with buffer := l.buffer.termCommandCb protocol, pressed := l.pressed + isKeystroke protocol }
  | .elsewhere other => some { l with menu := { l.menu with world := { l.menu.world with other := other } } }
  | .turn checked stamped changed =>
    if l.menu.world.keepActive = true ∧ l.now ≤ checked ∧ checked ≤ stamped then
      l.turn env checked stamped changed
    else none

end MainLoop

def mainLoop {Other : Type} (env : Environment Other) : Machine (MainLoop Other) (LoopLabel Other) :=
  ⟨MainLoop.next env⟩

section Turn

variable {Other : Type} (env : Environment Other)

theorem onlyCalls_drawn {s : Menu Other} {result : Option (Menu Other)} (only : OnlyCalls s result)
    (bounded : s.term.Bounded) :
    ∃ after, result = some after ∧ after.term.Bounded ∧ after.term.keystrokeSeq = s.term.keystrokeSeq := by
  obtain ⟨calls, world, rfl⟩ := only
  obtain ⟨term, performed, kept⟩ := performAll_keeps calls s.term bounded
  have seq := performAll_uncounted calls s.term term performed
  exact ⟨⟨term, world⟩, by rw [performed, Option.map_some], kept, seq⟩

theorem menu_drawn (s : Menu Other) (bounded : s.term.Bounded) :
    ∃ after, menu env s = some after ∧ after.term.Bounded ∧ after.term.commandLevel = .singleKey ∧
      after.term.keystrokeSeq = s.term.keystrokeSeq ∧ after.world = { s.world with menuScreenActive := true } := by
  have grid := bounded.inGrid
  obtain ⟨term, printed, -, same⟩ := printAll_output _
    (setCommandLevel .singleKey (showMenuScreen true s)) ⟨grid.x, grid.y, grid.prevX, grid.prevY⟩
  obtain ⟨after, drawn, kept, seq⟩ := onlyCalls_drawn (menu_onlyCalls env s) bounded
  obtain rfl := Option.some.inj (drawn.symm.trans printed)
  exact ⟨_, drawn, kept, same.level, seq, rfl⟩

theorem termLoop_quiet (protocol : Command.TransmissionProtocol) (s : Menu Other) (bounded : s.term.Bounded)
    (level : s.term.commandLevel = .singleKey) (other : protocol.commandId ≠ appTerminalKeystroke) :
    ∃ after, termLoop (commands env) protocol s = some after ∧ after.term.Bounded ∧
      after.term.commandLevel = .singleKey ∧ after.term.keystrokeSeq = s.term.keystrokeSeq ∧
      after.world = s.world := by
  unfold termLoop
  by_cases start : protocol.commandId = appTerminalStart
  · rw [if_pos start]
    have cleared := bounded.clearScreen
    obtain ⟨term, printed, inGrid, same⟩ :=
      Term.printString_output (ascii "Type 'help' for available commands.\n") _ cleared.inGrid
    have seq := Uncounted.printString _ _ term printed
    have emptied : term.clearInputBuffer.Bounded :=
      ⟨⟨inGrid.x, inGrid.y, inGrid.prevX, inGrid.prevY⟩, Nat.zero_le _⟩
    refine ⟨⟨term.clearInputBuffer, s.world⟩, ?_, emptied, same.level.trans level, seq, rfl⟩
    have single : term.commandLevel = .singleKey := same.level.trans level
    rw [Session.update, printed, Option.map_some, Option.bind_some, termInputChar,
      if_neg (by decide : ¬ (10 : UInt8) = backspace)]
    simp only [single]
    rfl
  · rw [if_neg start, if_neg other]
    exact ⟨s, rfl, bounded, level, rfl, rfl⟩

theorem termLoop_key (protocol : Command.TransmissionProtocol) (s : Menu Other) (bounded : s.term.Bounded)
    (key : protocol.commandId = appTerminalKeystroke) :
    ∃ after, termLoop (commands env) protocol s = some after ∧ after.term.Bounded ∧
      after.term.keystrokeSeq = s.term.keystrokeSeq + 1 := by
  obtain ⟨after, ran, kept⟩ := termLoop_commands_safe env protocol s bounded
  refine ⟨after, ran, kept, ?_⟩
  rw [termLoop_keystroke (commands env) s protocol key] at ran
  exact termInputChar_keepsCount (commands env) (commands_onlyCalls env) _ _ s.counted after ran

namespace MainLoop

def seen (l : MainLoop Other) : Nat := if l.buffer.protocolBufferReady then isKeystroke l.buffer.snapshot else 0

def consumed (l : MainLoop Other) : MainLoop Other :=
  { l with buffer := { l.buffer with protocolBufferReady := false }, keys := l.keys + l.seen }

structure Showing (l : MainLoop Other) : Prop where
  active : l.menu.world.menuScreenActive = true
  keep : l.menu.world.keepActive = true
  level : l.menu.term.commandLevel = .singleKey
  seq : l.menu.term.keystrokeSeq = l.countdownStartSeq

structure Kept (l : MainLoop Other) : Prop where
  bounded : l.menu.term.Bounded
  showing : l.haltCountdown = false → l.Showing

theorem seen_le (l : MainLoop Other) : l.seen ≤ 1 := by
  unfold seen isKeystroke
  split_ifs <;> decide

theorem consumed_idle {l : MainLoop Other} (idle : l.buffer.protocolBufferReady = false) :
    l.seen = 0 ∧ l.consumed = l := by
  have unseen : l.seen = 0 := by simp [seen, idle]
  have taken : ({ l.buffer with protocolBufferReady := false } : CommandBuffer) = l.buffer := by
    rw [← idle]
  refine ⟨unseen, ?_⟩
  rw [consumed, unseen, taken]
  rfl

theorem termLoop_taken {l : MainLoop Other} {s : Menu Other} (ready : l.buffer.protocolBufferReady = true)
    (ran : Terminal.termLoop (commands env) l.buffer.snapshot l.menu = some s) :
    l.termLoop env = some { l.consumed with menu := s } := by
  rw [termLoop, if_pos ready, ran, Option.map_some, consumed, seen, if_pos ready]

theorem termLoop_consumed {l : MainLoop Other} (kept : l.Kept) :
    ∃ s, l.termLoop env = some { l.consumed with menu := s } ∧ s.term.Bounded ∧
      (l.seen = 0 → l.Showing → ({ l.consumed with menu := s } : MainLoop Other).Showing) ∧
      (l.seen = 1 → s.term.keystrokeSeq = l.menu.term.keystrokeSeq + 1) := by
  cases ready : l.buffer.protocolBufferReady with
  | false =>
    obtain ⟨unseen, still⟩ := consumed_idle ready
    refine ⟨l.menu, ?_, kept.bounded, fun _ showing => by rw [still]; exact showing, fun one => by omega⟩
    rw [termLoop, ready, still]
    rfl
  | true =>
    by_cases key : l.buffer.snapshot.commandId = appTerminalKeystroke
    · have one : l.seen = 1 := by simp [seen, ready, isKeystroke, key]
      obtain ⟨s, ran, bounded, counted⟩ := termLoop_key env l.buffer.snapshot l.menu kept.bounded key
      exact ⟨s, termLoop_taken env ready ran, bounded, fun unseen => by omega, fun _ => counted⟩
    · have unseen : l.seen = 0 := by simp [seen, ready, isKeystroke, key]
      by_cases single : l.menu.term.commandLevel = .singleKey
      · obtain ⟨s, ran, bounded, level, seq, world⟩ :=
          termLoop_quiet env l.buffer.snapshot l.menu kept.bounded single key
        refine ⟨s, termLoop_taken env ready ran, bounded, fun _ showing => ?_, fun one => by omega⟩
        exact ⟨world ▸ showing.active, world ▸ showing.keep, level, seq.trans showing.seq⟩
      · obtain ⟨s, ran, bounded⟩ := termLoop_commands_safe env l.buffer.snapshot l.menu kept.bounded
        exact ⟨s, termLoop_taken env ready ran, bounded, fun _ showing => absurd showing.level single,
          fun one => by omega⟩

inductive Turned (l : MainLoop Other) (checked stamped : Nat) : MainLoop Other → Prop where
  | idle (menu : Menu Other) (halted : l.haltCountdown = true) :
    Turned l checked stamped { l.consumed with menu := menu, now := stamped }
  | stopped (menu : Menu Other) (running : l.haltCountdown = false) (key : l.seen = 1) :
    Turned l checked stamped { l.consumed with menu := menu, haltCountdown := true, now := stamped }
  | waits (menu : Menu Other) (running : l.haltCountdown = false) (keyless : l.seen = 0)
      (early : checked - l.lastDecrement < 1000000) :
    Turned l checked stamped { l.consumed with menu := menu, now := stamped }
  | counts (menu : Menu Other) (running : l.haltCountdown = false) (keyless : l.seen = 0)
      (due : 1000000 ≤ checked - l.lastDecrement) (more : 0 < l.countdown - 1) :
    Turned l checked stamped
      { l.consumed with
        menu := menu, lastDecrement := stamped, countdown := l.countdown - 1, now := stamped }
  | launches (menu : Menu Other) (running : l.haltCountdown = false) (keyless : l.seen = 0)
      (due : 1000000 ≤ checked - l.lastDecrement) (last : l.countdown - 1 ≤ 0) :
    Turned l checked stamped
      { l.consumed with
        menu := menu, lastDecrement := stamped, countdown := l.countdown - 1, now := stamped,
        haltCountdown := true, launches := l.launches ++ [⟨checked, l.keys, l.pressed⟩] }

theorem redraw_shows {l : MainLoop Other} (bounded : l.menu.term.Bounded) :
    ∃ s, l.redraw env = some { l with menu := s } ∧ s.term.Bounded ∧
      (l.Showing → ({ l with menu := s } : MainLoop Other).Showing) := by
  obtain ⟨s, drawn, kept, level, seq, world⟩ := menu_drawn env l.menu bounded
  refine ⟨s, by rw [redraw, drawn, Option.map_some], kept, fun showing => ?_⟩
  exact ⟨by rw [world], by rw [world]; exact showing.keep, level, seq.trans showing.seq⟩

theorem redrawn_shows {l : MainLoop Other} (bounded : l.menu.term.Bounded) (changed : Bool) :
    ∃ s, (if changed then l.redraw env else some l) = some { l with menu := s } ∧ s.term.Bounded ∧
      (l.Showing → ({ l with menu := s } : MainLoop Other).Showing) := by
  cases changed with
  | false => exact ⟨l.menu, rfl, bounded, id⟩
  | true => exact redraw_shows env bounded

theorem haltOnKey_still {l : MainLoop Other}
    (still : l.haltCountdown = true ∨ l.menu.term.keystrokeSeq = l.countdownStartSeq) : l.haltOnKey = l := by
  refine if_neg fun both => ?_
  rcases still with halted | same
  · rw [halted] at both
    cases both.1
  · exact both.2 same

theorem haltOnKey_stops {l : MainLoop Other} (running : l.haltCountdown = false)
    (moved : l.menu.term.keystrokeSeq = l.countdownStartSeq + 1) :
    l.haltOnKey = { l with haltCountdown := true } := by
  refine if_pos ⟨running, fun same => ?_⟩
  have wrapped := congrArg UInt32.toNat (moved.symm.trans same)
  rw [UInt32.toNat_add] at wrapped
  have small := l.countdownStartSeq.toNat_lt
  have one : (1 : UInt32).toNat = 1 := rfl
  omega

section CountDown

variable {l : MainLoop Other} {checked stamped : Nat} (changed : Bool)

theorem countDown_halted (bounded : l.menu.term.Bounded) (halted : l.haltCountdown = true) :
    ∃ s, l.countDown env checked stamped changed = some { l with menu := s } ∧ s.term.Bounded := by
  have passed : ¬ (l.menu.world.menuScreenActive = true ∧ l.haltCountdown = false) := by simp [halted]
  rw [countDown, if_neg passed]
  split
  next =>
    obtain ⟨s, drawn, kept, -⟩ := redraw_shows env bounded
    exact ⟨s, drawn, kept⟩
  next => exact ⟨l.menu, rfl, bounded⟩

theorem countDown_early (running : l.haltCountdown = false) (showing : l.Showing)
    (early : checked - l.lastDecrement < 1000000) : l.countDown env checked stamped changed = some l := by
  rw [countDown, if_pos ⟨showing.active, running⟩, if_neg (by omega)]

theorem countDown_counts (bounded : l.menu.term.Bounded) (running : l.haltCountdown = false) (showing : l.Showing)
    (due : 1000000 ≤ checked - l.lastDecrement) (more : 0 < l.countdown - 1) :
    ∃ s, l.countDown env checked stamped changed =
        some { l with menu := s, lastDecrement := stamped, countdown := l.countdown - 1 } ∧
      s.term.Bounded ∧ ({ l with menu := s } : MainLoop Other).Showing := by
  obtain ⟨s, drawn, kept, shows⟩ := redrawn_shows env
    (l := { l with lastDecrement := stamped, countdown := l.countdown - 1 }) bounded changed
  have shown := shows ⟨showing.active, showing.keep, showing.level, showing.seq⟩
  refine ⟨s, ?_, kept, ⟨shown.active, shown.keep, shown.level, shown.seq⟩⟩
  rw [countDown, if_pos ⟨showing.active, running⟩, if_pos due]
  simp only [if_neg (Int.not_le.mpr more)]
  exact drawn

theorem countDown_expires (bounded : l.menu.term.Bounded) (running : l.haltCountdown = false)
    (showing : l.Showing) (due : 1000000 ≤ checked - l.lastDecrement) (last : l.countdown - 1 ≤ 0) :
    ∃ s, l.countDown env checked stamped changed =
        some { l with
          menu := s, lastDecrement := stamped, countdown := l.countdown - 1, haltCountdown := true,
          launches := l.launches ++ [⟨checked, l.keys, l.pressed⟩] } ∧
      s.term.Bounded := by
  obtain ⟨s, launched, kept, -⟩ := onlyCalls_drawn (cmdFirmware_onlyCalls env none l.menu) bounded
  refine ⟨s, ?_, kept⟩
  rw [countDown, if_pos ⟨showing.active, running⟩, if_pos due]
  simp only [if_pos last, launched, Option.map_some]

end CountDown

theorem turn_turned {l : MainLoop Other} (kept : l.Kept) (checked stamped : Nat) (changed : Bool) :
    ∃ after, l.turn env checked stamped changed = some after ∧ l.Turned checked stamped after ∧ after.Kept := by
  obtain ⟨s, looped, bounded, quiet, counted⟩ := termLoop_consumed env kept
  let taken : MainLoop Other := { l.consumed with menu := s }
  have turns {here after : MainLoop Other} (halts : taken.haltOnKey = here)
      (ran : here.countDown env checked stamped changed = some after) :
      l.turn env checked stamped changed = some { after with now := stamped } := by
    rw [turn, looped, Option.bind_some, halts, ran, Option.map_some]
  cases running : l.haltCountdown with
  | true =>
    obtain ⟨menu, ran, drawn⟩ := countDown_halted env (l := taken) changed bounded running
    refine ⟨_, turns (haltOnKey_still (.inl running)) ran, .idle menu running, ⟨drawn, fun off => ?_⟩⟩
    rw [show l.consumed.haltCountdown = true from running] at off
    cases off
  | false =>
    have showing := kept.showing running
    have atMost := l.seen_le
    obtain keyless | key : l.seen = 0 ∨ l.seen = 1 := by omega
    · have shown : taken.Showing := quiet keyless showing
      have same := haltOnKey_still (.inr shown.seq)
      by_cases due : 1000000 ≤ checked - l.lastDecrement
      · by_cases last : l.countdown - 1 ≤ 0
        · obtain ⟨menu, ran, drawn⟩ := countDown_expires env (l := taken) changed bounded running shown due last
          have entry : (⟨checked, taken.keys, taken.pressed⟩ : Launch) = ⟨checked, l.keys, l.pressed⟩ := by
            simp [taken, consumed, keyless]
          rw [entry] at ran
          exact ⟨_, turns same ran, .launches menu running keyless due last, ⟨drawn, fun off => by cases off⟩⟩
        · have more : 0 < l.countdown - 1 := by omega
          obtain ⟨menu, ran, drawn, shows⟩ :=
            countDown_counts env (l := taken) changed bounded running shown due more
          refine ⟨_, turns same ran, .counts menu running keyless due more, ⟨drawn, fun _ => ?_⟩⟩
          exact ⟨shows.active, shows.keep, shows.level, shows.seq⟩
      · have early : checked - l.lastDecrement < 1000000 := by omega
        refine ⟨_, turns same (countDown_early env changed running shown early), .waits s running keyless early,
          ⟨bounded, fun _ => ?_⟩⟩
        exact ⟨shown.active, shown.keep, shown.level, shown.seq⟩
    · have moved : s.term.keystrokeSeq = l.countdownStartSeq + 1 := by
        rw [counted key, showing.seq]
      obtain ⟨menu, ran, drawn⟩ :=
        countDown_halted env (l := { taken with haltCountdown := true }) changed bounded rfl
      exact ⟨_, turns (haltOnKey_stops running moved) ran, .stopped menu running key,
        ⟨drawn, fun off => by cases off⟩⟩

structure Sound (start : Nat) (l : MainLoop Other) : Prop where
  kept : l.Kept
  running : l.haltCountdown = false → l.launches = [] ∧ l.keys = 0 ∧ 1 ≤ l.countdown ∧ l.countdown ≤ 10 ∧
    (start : Int) + (10 - l.countdown) * 1000000 ≤ l.lastDecrement
  halted : l.haltCountdown = true → l.launches = [] ∧ l.keys ≠ 0 ∨
    ∃ launch, l.launches = [launch] ∧ launch.keys = 0 ∧ start + 10000000 ≤ launch.time

theorem turned_sound {start : Nat} {l after : MainLoop Other} {checked stamped : Nat} (sound : Sound start l)
    (ordered : checked ≤ stamped) (turned : l.Turned checked stamped after) (kept : after.Kept) :
    Sound start after := by
  cases turned with
  | idle menu halted =>
    refine ⟨kept, fun running => ?_, fun _ => ?_⟩
    · rw [show l.consumed.haltCountdown = true from halted] at running
      cases running
    · refine (sound.halted halted).imp_left fun stopped => ⟨stopped.1, ?_⟩
      have some_ := stopped.2
      change l.keys + l.seen ≠ 0
      omega
  | stopped menu running key =>
    refine ⟨kept, fun off => (by cases off), fun _ => .inl ⟨(sound.running running).1, ?_⟩⟩
    change l.keys + l.seen ≠ 0
    omega
  | waits menu running keyless early =>
    obtain ⟨none_, zero, least, most, slow⟩ := sound.running running
    refine ⟨kept, fun _ => ⟨none_, ?_, least, most, slow⟩, fun halted => ?_⟩
    · change l.keys + l.seen = 0
      omega
    · rw [show l.consumed.haltCountdown = false from running] at halted
      cases halted
  | counts menu running keyless due more =>
    obtain ⟨none_, zero, least, most, slow⟩ := sound.running running
    refine ⟨kept, fun _ => ⟨none_, ?_, ?_, ?_, ?_⟩, fun halted => ?_⟩
    · change l.keys + l.seen = 0
      omega
    · change 1 ≤ l.countdown - 1
      omega
    · change l.countdown - 1 ≤ 10
      omega
    · change (start : Int) + (10 - (l.countdown - 1)) * 1000000 ≤ stamped
      omega
    · rw [show l.consumed.haltCountdown = false from running] at halted
      cases halted
  | launches menu running keyless due last =>
    obtain ⟨none_, zero, least, most, slow⟩ := sound.running running
    refine ⟨kept, fun off => (by cases off), fun _ => .inr ⟨⟨checked, l.keys, l.pressed⟩, ?_, zero, ?_⟩⟩
    · change l.launches ++ [_] = [_]
      rw [none_, List.nil_append]
    · change start + 10000000 ≤ checked
      omega

theorem Sound.launches_cases {start : Nat} {l : MainLoop Other} (sound : Sound start l) :
    l.launches = [] ∨ ∃ launch, l.launches = [launch] ∧ launch.keys = 0 ∧ start + 10000000 ≤ launch.time := by
  cases halt : l.haltCountdown with
  | false => exact .inl (sound.running halt).1
  | true => exact (sound.halted halt).imp_left And.left

theorem next_turned {l after : MainLoop Other} {checked stamped : Nat} {changed : Bool} (kept : l.Kept)
    (step : l.next env (.turn checked stamped changed) = some after) :
    l.now ≤ checked ∧ checked ≤ stamped ∧ l.Turned checked stamped after ∧ after.Kept := by
  obtain ⟨⟨-, later, ordered⟩, ran⟩ := Option.ite_none_right_eq_some.mp step
  obtain ⟨other, turned, turns, keeps⟩ := turn_turned env kept checked stamped changed
  obtain rfl := Option.some.inj (ran.symm.trans turned)
  exact ⟨later, ordered, turns, keeps⟩

theorem next_sound {start : Nat} {l after : MainLoop Other} {label : LoopLabel Other} (sound : Sound start l)
    (step : l.next env label = some after) : Sound start after := by
  cases label with
  | command protocol =>
    obtain rfl := Option.some.inj step
    refine ⟨⟨sound.kept.bounded, fun off => ?_⟩, sound.running, sound.halted⟩
    have showing := sound.kept.showing off
    exact ⟨showing.active, showing.keep, showing.level, showing.seq⟩
  | elsewhere other =>
    obtain rfl := Option.some.inj step
    refine ⟨⟨sound.kept.bounded, fun off => ?_⟩, sound.running, sound.halted⟩
    have showing := sound.kept.showing off
    exact ⟨showing.active, showing.keep, showing.level, showing.seq⟩
  | turn checked stamped changed =>
    obtain ⟨-, ordered, turned, kept⟩ := next_turned env sound.kept step
    exact turned_sound sound ordered turned kept

-- A command comes only when `term_loop` has taken the one before.
def unhurried (l : MainLoop Other) : LoopLabel Other → Prop
  | .command _ => l.buffer.protocolBufferReady = false
  | _ => True

def punctual (delay : Nat) (l : MainLoop Other) : LoopLabel Other → Prop
  | .turn checked stamped _ => checked ≤ l.now + delay ∧ stamped ≤ checked + delay
  | _ => True

structure Heard (l : MainLoop Other) : Prop where
  keys : l.pressed ≤ l.keys + l.seen
  launches : ∀ launch ∈ l.launches, launch.pressed ≤ launch.keys

structure Timed (start delay : Nat) (l : MainLoop Other) : Prop where
  last : l.haltCountdown = false →
    (l.lastDecrement : Int) ≤ start + (10 - l.countdown) * (1000000 + 3 * delay)
  now : l.haltCountdown = false → l.now < l.lastDecrement + 1000000 + delay

theorem Timed.ended {start delay : Nat} {l : MainLoop Other} (timed : Timed start delay l) (sound : Sound start l)
    (late : start + 10 * (1000000 + 3 * delay) ≤ l.now) : l.launches ≠ [] ∨ l.keys ≠ 0 := by
  cases halt : l.haltCountdown with
  | false =>
    obtain ⟨-, -, least, most, -⟩ := sound.running halt
    have recent := timed.last halt
    have soon := timed.now halt
    have slow : (10 - l.countdown) * (1000000 + 3 * (delay : Int)) ≤ 9 * (1000000 + 3 * delay) :=
      Int.mul_le_mul_of_nonneg_right (by omega) (by omega)
    omega
  | true =>
    rcases sound.halted halt with ⟨-, seen⟩ | ⟨only, same, -⟩
    · exact .inr seen
    · exact .inl (by rw [same]; exact List.cons_ne_nil _ _)

theorem isKeystroke_copied (dst protocol : Command.TransmissionProtocol) :
    isKeystroke (Command.tprotocolCopySafely dst protocol) = isKeystroke protocol := rfl

theorem seen_command (l : MainLoop Other) (protocol : Command.TransmissionProtocol) :
    isKeystroke protocol ≤
      ({ l with buffer := l.buffer.termCommandCb protocol, pressed := l.pressed + isKeystroke protocol } :
        MainLoop Other).seen := by
  unfold seen CommandBuffer.termCommandCb CommandBuffer.snapshot
  by_cases other : protocol.commandId &&& 0xFF00 ≠ 0
  · have unlike : protocol.commandId ≠ appTerminalKeystroke := by
      intro same
      rw [same] at other
      exact other rfl
    simp [isKeystroke, unlike]
  · simp [other, isKeystroke_copied]

theorem next_heard {start : Nat} {l after : MainLoop Other} {label : LoopLabel Other} (sound : Sound start l)
    (heard : l.Heard) (meets : l.unhurried label) (step : l.next env label = some after) : after.Heard := by
  cases label with
  | command protocol =>
    obtain rfl := Option.some.inj step
    have comes := seen_command l protocol
    have before : l.seen = 0 := by
      unfold seen
      rw [meets]
      rfl
    have keys := heard.keys
    refine ⟨?_, heard.launches⟩
    change l.pressed + isKeystroke protocol ≤ l.keys + _
    omega
  | elsewhere other =>
    obtain rfl := Option.some.inj step
    exact ⟨heard.keys, heard.launches⟩
  | turn checked stamped changed =>
    obtain ⟨-, -, turned, -⟩ := next_turned env sound.kept step
    have keys : l.pressed ≤ l.keys + l.seen + 0 := heard.keys
    cases turned with
    | idle | stopped | waits | counts => exact ⟨keys, heard.launches⟩
    | launches menu running keyless due last =>
      refine ⟨keys, fun launch member => ?_⟩
      rcases List.mem_append.mp member with before | new
      · exact heard.launches launch before
      · obtain rfl := List.mem_singleton.mp new
        change l.pressed ≤ l.keys
        omega

theorem next_timed {start delay : Nat} {l after : MainLoop Other} {label : LoopLabel Other}
    (sound : Sound start l) (timed : Timed start delay l) (meets : punctual delay l label)
    (step : l.next env label = some after) : Timed start delay after := by
  cases label with
  | command protocol =>
    obtain rfl := Option.some.inj step
    exact ⟨timed.last, timed.now⟩
  | elsewhere other =>
    obtain rfl := Option.some.inj step
    exact ⟨timed.last, timed.now⟩
  | turn checked stamped changed =>
    obtain ⟨later, ordered, turned, -⟩ := next_turned env sound.kept step
    obtain ⟨soon, quick⟩ := meets
    cases turned with
    | idle menu halted =>
      have still : l.consumed.haltCountdown = true := halted
      exact ⟨fun off => absurd off (by simp [still]), fun off => absurd off (by simp [still])⟩
    | stopped => exact ⟨fun off => (by cases off), fun off => (by cases off)⟩
    | launches => exact ⟨fun off => (by cases off), fun off => (by cases off)⟩
    | waits menu running keyless early =>
      refine ⟨fun _ => timed.last running, fun _ => ?_⟩
      change stamped < l.lastDecrement + 1000000 + delay
      omega
    | counts menu running keyless due more =>
      have before := timed.last running
      have now := timed.now running
      have grows : (10 - (l.countdown - 1)) * (1000000 + 3 * (delay : Int)) =
          (10 - l.countdown) * (1000000 + 3 * delay) + (1000000 + 3 * delay) := by ring
      refine ⟨fun _ => ?_, fun _ => ?_⟩
      · change (stamped : Int) ≤ start + (10 - (l.countdown - 1)) * (1000000 + 3 * delay)
        rw [grows]
        omega
      · change stamped < stamped + 1000000 + delay
        omega

theorem turn_alone {l : MainLoop Other} (kept : l.Kept) (running : l.haltCountdown = false)
    (alone : l.buffer.protocolBufferReady = false) (time : Nat) (due : time = l.lastDecrement + 1000000)
    (later : l.now ≤ time) :
    ∃ after, l.next env (.turn time time false) = some after ∧ after.Kept ∧
      after.buffer.protocolBufferReady = false ∧ after.lastDecrement = time ∧ after.now = time ∧
      after.countdown = l.countdown - 1 ∧ (1 < l.countdown → after.haltCountdown = false) ∧
      (l.countdown ≤ 1 → after.launches ≠ []) := by
  have keyless : l.seen = 0 := by simp [seen, alone]
  obtain ⟨after, ran, turned, keeps⟩ := turn_turned env kept time time false
  have allowed : l.menu.world.keepActive = true ∧ l.now ≤ time ∧ time ≤ time :=
    ⟨(kept.showing running).keep, later, Nat.le_refl _⟩
  refine ⟨after, by rw [next, if_pos allowed, ran], keeps, ?_⟩
  cases turned with
  | idle menu halted =>
    rw [running] at halted
    cases halted
  | stopped menu _ key =>
    rw [keyless] at key
    cases key
  | waits menu _ _ early => omega
  | counts menu _ _ _ more => exact ⟨rfl, rfl, rfl, rfl, fun _ => running, fun last => by omega⟩
  | launches menu _ _ _ last => exact ⟨rfl, rfl, rfl, rfl, fun more => by omega, fun _ => by simp⟩

def secondTurns (Other : Type) (n : Nat) : List (LoopLabel Other) :=
  (List.range n).map fun k => .turn ((k + 1) * 1000000) ((k + 1) * 1000000) false

theorem run_secondTurns {first : MainLoop Other} (kept : first.Kept) (running : first.haltCountdown = false)
    (alone : first.buffer.protocolBufferReady = false) (ten : first.countdown = 10)
    (last : first.lastDecrement = 0) (now : first.now = 0) (n : Nat) (within : n ≤ 9) :
    ∃ l, (mainLoop env).Run Machine.anyStep first (secondTurns Other n) l ∧ l.Kept ∧
      l.haltCountdown = false ∧ l.buffer.protocolBufferReady = false ∧ l.countdown = 10 - n ∧
      l.lastDecrement = n * 1000000 ∧ l.now = n * 1000000 := by
  induction n with
  | zero => exact ⟨first, .nil, kept, running, alone, by omega, by omega, by omega⟩
  | succ n ih =>
    obtain ⟨l, run, kept, running, alone, left, last, now⟩ := ih (by omega)
    obtain ⟨after, step, keeps, quiet, later, read, fewer, goes, -⟩ :=
      turn_alone env kept running alone ((n + 1) * 1000000) (by omega) (by omega)
    refine ⟨after, ?_, keeps, goes (by omega), quiet, by omega, later, read⟩
    rw [secondTurns, List.range_succ, List.map_append]
    exact .snoc _ run trivial step

theorem init_sound {start : Nat} {buffer : CommandBuffer} {s : Menu Other} {first : MainLoop Other}
    (bounded : s.term.Bounded) (keeps : s.world.keepActive = true) (begun : init env start buffer s = some first) :
    Sound start first ∧ first.pressed = 0 ∧ first.launches = [] ∧ first.haltCountdown = false ∧
      first.countdown = 10 ∧ first.lastDecrement = start ∧ first.now = start ∧ first.buffer = buffer := by
  obtain ⟨drawn, shown, rfl⟩ := Option.map_eq_some_iff.mp begun
  obtain ⟨after, ran, kept, level, seq, world⟩ :=
    menu_drawn env { s with term := s.term.clearScreen } bounded.clearScreen
  obtain rfl := Option.some.inj (ran.symm.trans shown)
  have showing : after.world.menuScreenActive = true ∧ after.world.keepActive = true := by
    rw [world]
    exact ⟨rfl, keeps⟩
  have least : 1 ≤ bootCountdownSecs := by decide
  have most : bootCountdownSecs ≤ 10 := by decide
  refine ⟨⟨⟨kept, fun _ => ⟨showing.1, showing.2, level, seq⟩⟩,
    fun _ => ⟨rfl, rfl, least, most, ?_⟩, fun off => ?_⟩, rfl, rfl, rfl, rfl, rfl, rfl, rfl⟩
  · simp [bootCountdownSecs]
  · cases off

theorem countdown_launches {start : Nat} {buffer : CommandBuffer} {s : Menu Other} {first l : MainLoop Other}
    {labels : List (LoopLabel Other)} (bounded : s.term.Bounded) (keeps : s.world.keepActive = true)
    (begun : init env start buffer s = some first)
    (run : (mainLoop env).Run Machine.anyStep first labels l) :
    l.launches.length ≤ 1 ∧
      (∀ launch ∈ l.launches, launch.keys = 0 ∧ start + 10000000 ≤ launch.time) ∧
      ((mainLoop env).Run unhurried first labels l → ∀ launch ∈ l.launches, launch.pressed = 0) ∧
      (∀ delay, (mainLoop env).Run (punctual delay) first labels l →
        start + 10 * (1000000 + 3 * delay) ≤ l.now → l.launches ≠ [] ∨ l.keys ≠ 0) ∧
      ∀ checked stamped changed, l.menu.world.keepActive = true → l.now ≤ checked → checked ≤ stamped →
        (l.next env (.turn checked stamped changed)).isSome := by
  obtain ⟨initially, pressed, none_, off, ten, last, now, -⟩ := init_sound env bounded keeps begun
  have sound : Sound start l :=
    run.invariant (Sound start) initially fun _ _ _ sound _ step => next_sound env sound step
  have launched : ∀ launch ∈ l.launches, launch.keys = 0 ∧ start + 10000000 ≤ launch.time := by
    intro launch member
    obtain empty | ⟨only, same, proper⟩ := sound.launches_cases
    · rw [empty] at member
      cases member
    · rw [same] at member
      obtain rfl := List.mem_singleton.mp member
      exact proper
  refine ⟨?_, launched, fun calm launch member => ?_, fun delay prompt late => ?_,
    fun checked stamped changed keep later ordered => ?_⟩
  · obtain empty | ⟨only, same, -⟩ := sound.launches_cases
    · simp [empty]
    · simp [same]
  · have heard : Sound start l ∧ l.Heard := calm.invariant (fun l => Sound start l ∧ l.Heard)
      ⟨initially, by omega, by simp [none_]⟩ fun _ _ _ both meets step =>
        ⟨next_sound env both.1 step, next_heard env both.1 both.2 meets step⟩
    have most := heard.2.launches launch member
    have zero := (launched launch member).1
    omega
  · have begins : Timed start delay first := by
      refine ⟨fun _ => ?_, fun _ => ?_⟩
      · rw [last, ten]
        omega
      · omega
    have timed : Sound start l ∧ Timed start delay l := prompt.invariant
      (fun l => Sound start l ∧ Timed start delay l) ⟨initially, begins⟩ fun _ _ _ both meets step =>
        ⟨next_sound env both.1 step, next_timed env both.1 both.2 meets step⟩
    exact timed.2.ended sound late
  · obtain ⟨after, ran, -⟩ := turn_turned env sound.kept checked stamped changed
    rw [next, if_pos ⟨keep, later, ordered⟩, ran]
    rfl

end MainLoop

end Turn

def plainEnvironment : Environment Unit where
  releaseVersion := ascii "1.0.0"
  mallocs := fun _ => true
  networkWifiConnStatusStr := fun _ => ascii "connected"
  networkCurrentIp := fun _ => ascii "10.0.0.2"
  midiNetStatusStr := fun _ => ascii "down"
  midiNetTransportStr := fun _ => ascii "tcp"
  midiNetPortKey := fun _ => ascii "MIDI_PORT"
  midiNetRoomStr := fun _ => []
  midiNetPing := fun _ => ascii "down"
  midiNetReload := fun _ other => other
  midiSetActive := fun other => other

def plainMenu : Menu Unit := ⟨{}, { context := ⟨0, [], 0, 0⟩, flash := fun _ => 255, other := () }⟩

theorem countdown_launches_alone :
    ∃ first l, MainLoop.init plainEnvironment 0 {} plainMenu = some first ∧
      (mainLoop plainEnvironment).Run Machine.anyStep first (MainLoop.secondTurns Unit 10) l ∧
      ∃ launch, l.launches = [launch] ∧ launch.keys = 0 ∧ 10000000 ≤ launch.time := by
  have corner : 0 < screenSizeX ∧ 0 < screenSizeY := by decide
  have bounded : plainMenu.term.Bounded := ⟨⟨corner.1, corner.2, corner.1, corner.2⟩, Nat.zero_le _⟩
  obtain ⟨drawn, shown, -⟩ :=
    menu_drawn plainEnvironment { plainMenu with term := plainMenu.term.clearScreen } bounded.clearScreen
  obtain ⟨first, begun⟩ : ∃ first, MainLoop.init plainEnvironment 0 {} plainMenu = some first :=
    ⟨_, by rw [MainLoop.init, shown, Option.map_some]⟩
  obtain ⟨sound, -, -, off, ten, last, now, empty⟩ :=
    MainLoop.init_sound plainEnvironment bounded rfl begun
  obtain ⟨l, nine, kept, running, alone, left, read, late⟩ :=
    MainLoop.run_secondTurns plainEnvironment sound.kept off (by rw [empty]) ten last now 9 (by omega)
  obtain ⟨after, step, -, -, -, -, -, -, launches⟩ :=
    MainLoop.turn_alone plainEnvironment kept running alone 10000000 (by omega) (by omega)
  have run : (mainLoop plainEnvironment).Run Machine.anyStep first (MainLoop.secondTurns Unit 10) after :=
    .snoc _ nine trivial step
  refine ⟨first, after, begun, run, ?_⟩
  obtain ⟨atMost, unseen, -⟩ := MainLoop.countdown_launches plainEnvironment bounded rfl begun run
  rcases entries : after.launches with _ | ⟨launch, _ | ⟨second, rest⟩⟩
  · exact absurd entries (launches (by omega))
  · obtain ⟨keys, time⟩ := unseen launch (by rw [entries]; exact List.mem_cons_self)
    exact ⟨launch, rfl, keys, by omega⟩
  · rw [entries, List.length_cons, List.length_cons] at atMost
    omega

end MidiToIp.Terminal
