import Mathlib.Data.List.Basic
import MidiToIp.Settings.Settings
import MidiToIp.Terminal.Entry

set_option autoImplicit false

-- The setup menu of `emul.c`, without the countdown and the refresh of the menu.

namespace MidiToIp.Terminal

open Octets CString NorFlash Settings

/-- What the menu uses of the build, of the network and of `midi.c`. -/
structure Environment (Other : Type) where
  releaseVersion : Bytes
  mallocs : Nat → Bool
  networkWifiConnStatusStr : Other → Bytes
  networkCurrentIp : Other → Bytes
  midiNetStatusStr : Other → Bytes
  midiNetTransportStr : Other → Bytes
  midiNetPortKey : Other → Bytes
  midiNetRoomStr : Other → Bytes
  midiNetPing : Other → Bytes
  midiNetReload : Context → Other → Other
  midiSetActive : Other → Other

structure Emul (Other : Type) where
  keepActive : Bool := true
  menuScreenActive : Bool := false
  resetDeviceAtBoot : Bool := true
  context : Context
  flash : Flash
  other : Other

variable {Other : Type} (env : Environment Other)

abbrev Menu (Other : Type) := Session (Emul Other)

def printAll (strings : List Bytes) (s : Menu Other) : Option (Menu Other) :=
  s.update fun t => strings.foldlM (fun t str => t.printString str) t

def setCommandLevel (level : CommandLevel) (s : Menu Other) : Menu Other :=
  { s with term := { s.term with commandLevel := level } }

def showMenuScreen (active : Bool) (s : Menu Other) : Menu Other :=
  { s with world := { s.world with menuScreenActive := active } }

def title : Bytes :=
  [escChar] ++ ascii "E" ++ [escChar] ++ ascii "p" ++ ascii "MIDI-to-IP - " ++
    env.releaseVersion ++ ascii "\n" ++ [escChar] ++ ascii "q"

def configured (key : Bytes) (s : Menu Other) : Bytes :=
  match settingsFindEntry s.world.context key with
  | some entry => entry.value
  | none => ascii "-"

def menu (s : Menu Other) : Option (Menu Other) :=
  let other := s.world.other
  let room := env.midiNetRoomStr other
  printAll
    [title env, ascii "\n",
      ascii "Orchestrator\n",
      ascii "  [H]ost : ", configured (ascii "MIDI_HOST") s,
      ascii "\n  [P]ort : ", configured (env.midiNetPortKey other) s,
      ascii "\n  [T]ransport : ", env.midiNetTransportStr other,
      ascii "\n  [R]oom : ", if cstr room ≠ [] then room else ascii "(default)",
      ascii "\n\n",
      ascii "Status\n",
      ascii "  Wi-Fi  : ", env.networkWifiConnStatusStr other,
      ascii "\n  IP     : ", env.networkCurrentIp other,
      ascii "\n  Server : ", env.midiNetStatusStr other,
      ascii " (", env.midiNetTransportStr other, ascii ")\n",
      ascii "\n",
      ascii "[E]xit to GEM     [X] Booster\n"]
    (setCommandLevel .singleKey (showMenuScreen true s))

def saveSettings (context : Context) (s : Menu Other) : Menu Other :=
  { s with
    world := { s.world with
      context := context
      flash := (settingsSave env.mallocs (some context) s.world.flash).2
      other := env.midiNetReload context s.world.other } }

def cmdMenu (_ : Option Bytes) (s : Menu Other) : Option (Menu Other) := menu env s

def cmdHelp (_ : Option Bytes) (s : Menu Other) : Option (Menu Other) :=
  printAll
    [ascii "Available commands:\n", ascii " General:\n",
      ascii "  clear   - Clear the terminal screen\n",
      ascii "  exit    - Exit the terminal\n",
      ascii "  f       - Launch user firmware on the Atari ST\n",
      ascii "  help    - Show available commands\n",
      ascii "  ping    - Show orchestrator (MIDI-over-IP) link status\n"]
    (showMenuScreen false s)

def cmdPing (_ : Option Bytes) (s : Menu Other) : Option (Menu Other) :=
  printAll [ascii "orchestrator ", env.midiNetPing s.world.other, ascii "\n"] (showMenuScreen false s)

def openEntry (prompt : Bytes) (s : Menu Other) : Option (Menu Other) :=
  (printAll [title env, prompt] (showMenuScreen false s)).map (setCommandLevel .dataInput)

def clearInput (s : Menu Other) : Menu Other := { s with term := s.term.clearInputBuffer }

def cmdHost (_ : Option Bytes) (s : Menu Other) : Option (Menu Other) :=
  if s.term.commandLevel = .singleKey then
    openEntry env (ascii "\n\nOrchestrator host (IP or hostname): ") s
  else
    let s := setCommandLevel .singleKey s
    let input := s.term.inputBuffer.toList
    let s :=
      if cstr input ≠ [] then
        saveSettings env (settingsPutString (ascii "MIDI_HOST") (some input) s.world.context).2 s
      else s
    menu env (clearInput s)

def cmdPort (_ : Option Bytes) (s : Menu Other) : Option (Menu Other) :=
  if s.term.commandLevel = .singleKey then
    openEntry env (ascii "\n\nOrchestrator port (1-65535): ") s
  else
    let s := setCommandLevel .singleKey s
    let input := s.term.inputBuffer.toList
    let (port, rest) := strtol input
    let stored :=
      if cstr input ≠ [] ∧ rest = [] ∧ port ≥ 1 ∧ port ≤ 65535 then
        some (saveSettings env (settingsPutInteger (env.midiNetPortKey s.world.other)
          (Int32.ofInt port) s.world.context).2 s)
      else if cstr input ≠ [] then printAll [ascii "Invalid port (must be 1-65535).\n"] s
      else some s
    stored.bind fun s => menu env (clearInput s)

def cmdTransport (_ : Option Bytes) (s : Menu Other) : Option (Menu Other) :=
  let cur :=
    match settingsFindEntry s.world.context (ascii "MIDI_TRANSPORT") with
    | some entry => entry.value
    | none => ascii "tcp"
  let next := if cur.headD 0 = 119 ∨ cur.headD 0 = 87 then ascii "tcp" else ascii "ws"
  menu env (saveSettings env
    (settingsPutString (ascii "MIDI_TRANSPORT") (some next) s.world.context).2 s)

def cmdRoom (_ : Option Bytes) (s : Menu Other) : Option (Menu Other) :=
  if s.term.commandLevel = .singleKey then
    openEntry env (ascii "\n\nPlay-room key (empty = default ring): ") s
  else
    let s := setCommandLevel .singleKey s
    let room := ((cstr s.term.inputBuffer.toList).take (maxValueLength - 1)).map toupper
    menu env (clearInput (saveSettings env
      (settingsPutString (ascii "MIDI_ROOM") (some room) s.world.context).2 s))

def cmdFirmware (_ : Option Bytes) (s : Menu Other) : Option (Menu Other) :=
  (printAll [title env, ascii "\nExiting to GEM with MIDI-to-IP active...\n"]
    (showMenuScreen false s)).map fun s =>
      { s with world := { s.world with other := env.midiSetActive s.world.other } }

def cmdBooster (_ : Option Bytes) (s : Menu Other) : Option (Menu Other) :=
  (printAll
    [title env, ascii "\nLaunching Booster app...\n",
      ascii "The computer will boot shortly...\n\n",
      ascii "If it doesn't boot, power it on and off.\n"] (showMenuScreen false s)).map fun s =>
      { s with world := { s.world with resetDeviceAtBoot := false, keepActive := false } }

def commands : List (Command (Emul Other)) :=
  [⟨ascii "m", cmdMenu env⟩,
    ⟨ascii "h", cmdHost env⟩,
    ⟨ascii "p", cmdPort env⟩,
    ⟨ascii "t", cmdTransport env⟩,
    ⟨ascii "r", cmdRoom env⟩,
    ⟨ascii "e", cmdFirmware env⟩,
    ⟨ascii "f", cmdFirmware env⟩,
    ⟨ascii "x", cmdBooster env⟩,
    ⟨ascii "?", cmdHelp⟩,
    ⟨ascii "ping", cmdPing env⟩]

theorem printAll_output (strings : List Bytes) (s : Menu Other) (grid : s.term.InGrid) :
    ∃ term : Term, printAll strings s = some { s with term := term } ∧ term.InGrid ∧
      s.term.SameInput term := by
  obtain ⟨term, printed, inGrid, same⟩ :=
    Term.Output.foldlM (fun t str => Term.printString str t) strings
      (fun str _ => Term.printString_output str) s.term grid
  exact ⟨term, by simp only [printAll, Session.update, printed, Option.map_some], inGrid, same⟩

theorem menu_context (s : Menu Other) (grid : s.term.InGrid) :
    ∃ after, menu env s = some after ∧ after.term.InGrid ∧ after.term.commandLevel = .singleKey ∧
      after.world.context = s.world.context := by
  obtain ⟨term, printed, inGrid, same⟩ := printAll_output _
    (setCommandLevel .singleKey (showMenuScreen true s)) ⟨grid.x, grid.y, grid.prevX, grid.prevY⟩
  exact ⟨_, printed, inGrid, same.level, rfl⟩

theorem openEntry_opens (prompt : Bytes) (s : Menu Other) (grid : s.term.InGrid) :
    ∃ after, openEntry env prompt s = some after ∧ after.term.InGrid ∧
      after.term.commandLevel = .dataInput ∧
      after.term.lastSingleKeyCommand = s.term.lastSingleKeyCommand := by
  obtain ⟨term, printed, inGrid, same⟩ := printAll_output [title env, prompt]
    (showMenuScreen false s) grid
  refine ⟨_, by rw [openEntry, printed, Option.map_some], ?_, rfl, same.single⟩
  exact ⟨inGrid.x, inGrid.y, inGrid.prevX, inGrid.prevY⟩

theorem inputSingleKey_opens (s : Menu Other) (grid : s.term.InGrid)
    (level : s.term.commandLevel = .singleKey) (key : UInt8) (lower : tolower key = key)
    (prompt : Bytes) (command : Command (Emul Other)) (found : keyed (commands env) key = some command)
    (opens : ∀ s : Menu Other, s.term.commandLevel = .singleKey →
      command.handler none s = openEntry env prompt s) :
    ∃ after, inputSingleKey (commands env) key false s = some after ∧ Opened after.term ∧
      after.term.lastSingleKeyCommand = key := by
  let chosen : Menu Other := { s with term := { s.term with lastSingleKeyCommand := key } }
  have chosenGrid : chosen.term.InGrid := ⟨grid.x, grid.y, grid.prevX, grid.prevY⟩
  obtain ⟨after, opened, inGrid, entered, single⟩ := openEntry_opens env prompt chosen chosenGrid
  have handled : command.handler none chosen = some after := (opens chosen level).trans opened
  refine ⟨clearInput after, ?_, ⟨entered, ⟨inGrid.x, inGrid.y, inGrid.prevX, inGrid.prevY⟩, rfl, rfl⟩,
    single⟩
  simp only [inputSingleKey, Bool.false_eq_true, if_false, lower, found]
  rw [handled]
  rfl

theorem keystroke_opens (s : Menu Other) (grid : s.term.InGrid)
    (level : s.term.commandLevel = .singleKey) (protocol : Command.TransmissionProtocol)
    (sent : protocol.commandId = appTerminalKeystroke) (unshifted : shiftKey protocol = 0)
    (edits : keystroke protocol = 104 ∨ keystroke protocol = 112 ∨ keystroke protocol = 114) :
    ∃ after, termLoop (commands env) protocol s = some after ∧ Opened after.term ∧
      after.term.lastSingleKeyCommand = keystroke protocol := by
  have countedGrid : s.counted.term.InGrid := ⟨grid.x, grid.y, grid.prevX, grid.prevY⟩
  have countedLevel : s.counted.term.commandLevel = .singleKey := level
  have other : keystroke protocol ≠ backspace := by
    rcases edits with key | key | key <;> rw [key] <;> decide
  rw [termLoop_keystroke (commands env) s protocol sent, termInputChar, if_neg other]
  simp only [countedLevel, unshifted, ne_eq, not_true_eq_false, decide_false]
  rcases edits with key | key | key
  · rw [key]
    exact inputSingleKey_opens env s.counted countedGrid level 104 (by decide) _ _ rfl
      fun s level => if_pos level
  · rw [key]
    exact inputSingleKey_opens env s.counted countedGrid level 112 (by decide) _ _ rfl
      fun s level => if_pos level
  · rw [key]
    exact inputSingleKey_opens env s.counted countedGrid level 114 (by decide) _ _ rfl
      fun s level => if_pos level

def hostContext (seen : Bytes) (context : Context) : Context :=
  if seen = [] then context else (settingsPutString (ascii "MIDI_HOST") (some seen) context).2

theorem valueArray_cstr (text : Bytes) : valueArray (cstr text) = valueArray text := by
  simp only [valueArray, strncpy, cstr_cstr]

theorem cmdHost_saves (arg : Option Bytes) (s : Menu Other) (grid : s.term.InGrid)
    (level : s.term.commandLevel = .dataInput) :
    ∃ after, cmdHost env arg s = some after ∧ after.term.commandLevel = .singleKey ∧
      after.world.context = hostContext (cstr s.term.inputBuffer.toList) s.world.context := by
  have typing : s.term.commandLevel ≠ .singleKey := by simp [level]
  simp only [cmdHost, if_neg typing, hostContext]
  by_cases empty : cstr s.term.inputBuffer.toList = []
  · have same : ¬ cstr (setCommandLevel .singleKey s).term.inputBuffer.toList ≠ [] := not_not.mpr empty
    rw [if_neg same, if_pos empty]
    obtain ⟨after, shown, -, single, context⟩ :=
      menu_context env (clearInput (setCommandLevel .singleKey s)) ⟨grid.x, grid.y, grid.prevX, grid.prevY⟩
    exact ⟨after, shown, single, context⟩
  · have same : cstr (setCommandLevel .singleKey s).term.inputBuffer.toList ≠ [] := empty
    rw [if_pos same, if_neg empty]
    obtain ⟨after, shown, -, single, context⟩ := menu_context env
      (clearInput (saveSettings env (settingsPutString (ascii "MIDI_HOST")
        (some s.term.inputBuffer.toList) s.world.context).2 (setCommandLevel .singleKey s)))
      ⟨grid.x, grid.y, grid.prevX, grid.prevY⟩
    refine ⟨after, shown, single, context.trans ?_⟩
    simp only [settingsPutString, valueArray_cstr]
    rfl

theorem host_saved (s : Menu Other) (opened : Opened s.term)
    (opener : s.term.lastSingleKeyCommand = 104) (keys : List Typed)
    (last : NulsLast 0 0 (keys.map Typed.key)) (enter : Enter) :
    ∃ shown seen after, entry (commands env) keys s [] = some (shown, seen) ∧
      termLoop (commands env) enter.val shown = some after ∧
      after.term.commandLevel = .singleKey ∧
      after.world.context = hostContext seen s.world.context := by
  obtain ⟨shown, handed, typing, ends, read, -, level, inGrid, world⟩ :=
    entry_handed s opened keys enter
  have host : keyed (commands env) s.term.lastSingleKeyCommand =
      some ⟨ascii "h", cmdHost env⟩ := by
    rw [opener]
    rfl
  have equal := (nulsLast_iff (keys.map Typed.key) [] 0 (by simp)).mpr last _ List.prefix_rfl
  obtain ⟨after, handled, single, context⟩ :=
    cmdHost_saves env (some handed.term.inputBuffer.toList) handed inGrid level
  refine ⟨shown, _, after, typing _, (ends _ _ host).trans handled, single, ?_⟩
  rw [context, read, world]
  exact congrArg (hostContext · s.world.context) equal

end MidiToIp.Terminal
