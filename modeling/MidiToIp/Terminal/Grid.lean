import Mathlib.Data.List.Basic
import MidiToIp.Terminal.Emul

set_option autoImplicit false

namespace MidiToIp.Terminal

open Octets

inductive Call where
  | printString (str : Bytes)
  | clearScreen
  | clearInputBuffer
  | setCommandLevel (level : CommandLevel)
  | setLastSingleKeyCommand (key : UInt8)
  deriving DecidableEq, Repr

def Call.perform : Call → Term → Option Term
  | .printString str, t => t.printString str
  | .clearScreen, t => some t.clearScreen
  | .clearInputBuffer, t => some t.clearInputBuffer
  | .setCommandLevel level, t => some { t with commandLevel := level }
  | .setLastSingleKeyCommand key, t => some { t with lastSingleKeyCommand := key }

def performAll (calls : List Call) (t : Term) : Option Term :=
  calls.foldlM (fun t call => call.perform t) t

section Handlers

variable {World : Type}

/-- The terminal changes by calls only. Which calls they are and what the rest of the world becomes
may depend on everything. -/
def OnlyCalls (before : Session World) (result : Option (Session World)) : Prop :=
  ∃ (calls : List Call) (world : World),
    result = (performAll calls before.term).map fun term => ⟨term, world⟩

def Command.OnlyCalls (command : Command World) : Prop :=
  ∀ arg s, Terminal.OnlyCalls s (command.handler arg s)

abbrev Listed (World : Type) := { command : Command World // command.OnlyCalls }

structure Console (World : Type) where
  commands : List (Listed World) := []
  session : Session World

inductive Step (World : Type) where
  | call (call : Call)
  | setCommands (commands : List (Listed World))
  | inputChar (chr : UInt8) (shiftKey : Bool)
  | loop (protocol : Command.TransmissionProtocol)
  | elsewhere (world : World)

def Step.perform : Step World → Console World → Option (Console World)
  | .call made, c => (c.session.update made.perform).map fun s => { c with session := s }
  | .setCommands commands, c => some { c with commands := commands }
  | .inputChar chr shiftKey, c =>
    (termInputChar (c.commands.map Subtype.val) chr shiftKey c.session).map fun s =>
      { c with session := s }
  | .loop protocol, c =>
    (termLoop (c.commands.map Subtype.val) protocol c.session).map fun s => { c with session := s }
  | .elsewhere world, c => some { c with session := { c.session with world := world } }

def run (steps : List (Step World)) (c : Console World) : Option (Console World) :=
  steps.foldlM (fun c step => step.perform c) c

end Handlers

structure Term.Bounded (t : Term) : Prop where
  inGrid : t.InGrid
  length : t.inputLength ≤ inputBufferSize - 1

def Keeps (step : Term → Option Term) : Prop :=
  ∀ t, t.Bounded → ∃ after, step t = some after ∧ after.Bounded

theorem Term.Output.keeps {step : Term → Option Term} (output : Term.Output step) : Keeps step := by
  intro t bounded
  obtain ⟨after, ran, inGrid, same⟩ := output t bounded.inGrid
  exact ⟨after, ran, inGrid, same.length.trans_le bounded.length⟩

theorem Term.Bounded.still {t after : Term} (bounded : t.Bounded) (x : after.cursorX = t.cursorX)
    (y : after.cursorY = t.cursorY) (prevX : after.prevCursorX = t.prevCursorX)
    (prevY : after.prevCursorY = t.prevCursorY) (length : after.inputLength ≤ inputBufferSize - 1) :
    after.Bounded where
  inGrid := ⟨x ▸ bounded.inGrid.x, y ▸ bounded.inGrid.y, prevX ▸ bounded.inGrid.prevX,
    prevY ▸ bounded.inGrid.prevY⟩
  length := length

theorem Term.Bounded.clearInputBuffer {t : Term} (bounded : t.Bounded) :
    t.clearInputBuffer.Bounded :=
  bounded.still rfl rfl rfl rfl (Nat.zero_le _)

theorem Term.Bounded.clearScreen {t : Term} (bounded : t.Bounded) : t.clearScreen.Bounded := by
  have corner : 0 < screenSizeX ∧ 0 < screenSizeY := by decide
  exact ⟨⟨corner.1, corner.2, bounded.inGrid.prevX, bounded.inGrid.prevY⟩, bounded.length⟩

theorem Call.perform_keeps (call : Call) : Keeps call.perform := by
  intro t bounded
  cases call with
  | printString str => exact (Term.printString_output str).keeps t bounded
  | clearScreen => exact ⟨_, rfl, bounded.clearScreen⟩
  | clearInputBuffer => exact ⟨_, rfl, bounded.clearInputBuffer⟩
  | setCommandLevel level => exact ⟨_, rfl, bounded.still rfl rfl rfl rfl bounded.length⟩
  | setLastSingleKeyCommand key => exact ⟨_, rfl, bounded.still rfl rfl rfl rfl bounded.length⟩

theorem performAll_keeps (calls : List Call) : Keeps (performAll calls) := by
  intro t bounded
  induction calls generalizing t with
  | nil => exact ⟨t, rfl, bounded⟩
  | cons call rest ih =>
    obtain ⟨next, performed, nextBounded⟩ := call.perform_keeps t bounded
    obtain ⟨after, performs, afterBounded⟩ := ih next nextBounded
    refine ⟨after, ?_, afterBounded⟩
    rw [performAll, List.foldlM_cons, performed]
    exact performs

theorem inputBackspace_keeps : Keeps Term.inputBackspace := by
  intro t bounded
  have width : 0 < screenSizeX := by decide
  have x := bounded.inGrid.x
  have y := bounded.inGrid.y
  simp only [Term.inputBackspace]
  by_cases some : t.inputLength > 0
  · rw [if_pos some]
    have inside : t.inputLength - 1 < inputBufferSize := by
      have length := bounded.length
      omega
    obtain ⟨buffer, stored, -⟩ := store_inside t.inputBuffer (t.inputLength - 1) 0 inside
    rw [stored, Option.bind_some]
    have shorter : t.inputLength - 1 ≤ inputBufferSize - 1 := (Nat.sub_le _ _).trans bounded.length
    -- The character before the cursor is blanked, if there is one.
    have blanked : ∀ moved : Term, moved.InGrid → moved.inputLength ≤ inputBufferSize - 1 →
        ∃ after, (moved.poke moved.cursorX moved.cursorY 0).map Term.savePrevCursor = Option.some after ∧
          after.Bounded := by
      intro moved grid length
      obtain ⟨after, poked, -, inGrid, same⟩ := Term.poke_cursor grid
      exact ⟨after, poked, inGrid, same.length.trans_le length⟩
    by_cases start : t.cursorX = 0
    · by_cases top : t.cursorY > 0
      · simp only [if_pos start, if_pos top]
        exact blanked _ ⟨Nat.sub_lt width Nat.one_pos, (Nat.sub_le _ _).trans_lt y,
          bounded.inGrid.prevX, bounded.inGrid.prevY⟩ shorter
      · simp only [if_pos start, if_neg top]
        exact ⟨_, rfl, bounded.still rfl rfl rfl rfl shorter⟩
    · simp only [if_neg start]
      exact blanked _ ⟨(Nat.sub_le _ _).trans_lt x, y, bounded.inGrid.prevX, bounded.inGrid.prevY⟩
        shorter
  · rw [if_neg some]
    exact ⟨_, rfl, bounded.inGrid.savePrevCursor, bounded.length⟩

theorem appendChar_keeps (chr : UInt8) : Keeps (Term.appendChar chr) := by
  intro t bounded
  simp only [Term.appendChar]
  by_cases room : t.inputLength < inputBufferSize - 1
  · rw [if_pos room]
    obtain ⟨buffer, stored, -⟩ := store_inside t.inputBuffer t.inputLength chr
      (room.trans_le (Nat.sub_le _ _))
    rw [stored, Option.bind_some]
    exact (Term.termRenderChar_output chr).keeps _ ⟨⟨bounded.inGrid.x, bounded.inGrid.y,
      bounded.inGrid.prevX, bounded.inGrid.prevY⟩, Nat.succ_le_of_lt room⟩
  · rw [if_neg room]
    exact ⟨t, rfl, bounded⟩

section Input

variable {World : Type}

def Safe (step : Session World → Option (Session World)) : Prop :=
  ∀ s, s.term.Bounded → ∃ after, step s = some after ∧ after.term.Bounded

theorem Safe.none : Safe (some : Session World → Option (Session World)) :=
  fun s bounded => ⟨s, rfl, bounded⟩

theorem Safe.bind {first second : Session World → Option (Session World)} (one : Safe first)
    (two : Safe second) : Safe fun s => (first s).bind second := by
  intro s bounded
  obtain ⟨middle, ran, middleBounded⟩ := one s bounded
  obtain ⟨after, ends, afterBounded⟩ := two middle middleBounded
  refine ⟨after, ?_, afterBounded⟩
  change (first s).bind second = some after
  rw [ran, Option.bind_some, ends]

theorem Keeps.safe {step : Term → Option Term} (keeps : Keeps step) :
    Safe fun s : Session World => s.update step := by
  intro s bounded
  obtain ⟨after, ran, afterBounded⟩ := keeps s.term bounded
  exact ⟨{ s with term := after }, by simp only [Session.update, ran, Option.map_some], afterBounded⟩

theorem Safe.foldlM {Item : Type} (step : Session World → Item → Option (Session World))
    (items : List Item) (each : ∀ item ∈ items, Safe fun s => step s item) :
    Safe fun s => items.foldlM step s := by
  induction items with
  | nil => exact Safe.none
  | cons item rest ih =>
    have first := each item List.mem_cons_self
    have later := ih fun other member => each other (List.mem_cons_of_mem _ member)
    intro s bounded
    simp only [List.foldlM_cons]
    exact first.bind later s bounded

theorem handler_safe {command : Command World} (only : command.OnlyCalls) (arg : Session World → Option Bytes) :
    Safe fun s => command.handler (arg s) s := by
  intro s bounded
  obtain ⟨calls, world, handled⟩ := only (arg s) s
  obtain ⟨after, performed, afterBounded⟩ := performAll_keeps calls s.term bounded
  exact ⟨⟨after, world⟩, by simp only [handled, performed, Option.map_some], afterBounded⟩

variable (commands : List (Command World)) (listed : ∀ command ∈ commands, command.OnlyCalls)

theorem keyed_mem {key : UInt8} {command : Command World} (found : keyed commands key = some command) :
    command ∈ commands :=
  List.mem_of_find?_eq_some found

include listed in
theorem inputSingleKey_safe (chr : UInt8) (shiftKey : Bool) :
    Safe (inputSingleKey commands chr shiftKey) := by
  intro s bounded
  simp only [inputSingleKey]
  generalize (if shiftKey then toupper chr else tolower chr) = key
  cases found : keyed commands key with
  | none => exact ⟨_, rfl, bounded.clearInputBuffer⟩
  | some command =>
    obtain ⟨after, handled, afterBounded⟩ := handler_safe (listed command (keyed_mem commands found))
      (fun _ => none) { s with term := { s.term with lastSingleKeyCommand := key } }
      (bounded.still rfl rfl rfl rfl bounded.length)
    simp only [handled, Option.map_some]
    exact ⟨_, rfl, afterBounded.clearInputBuffer⟩

include listed in
theorem enterData_safe : Safe (enterData commands) := by
  refine (Term.termRenderChar_output 10).keeps.safe.bind fun s bounded => ?_
  cases found : keyed commands s.term.lastSingleKeyCommand with
  | none => exact ⟨s, rfl, bounded⟩
  | some command =>
    exact handler_safe (listed command (keyed_mem commands found))
      (fun s => some s.term.inputBuffer.toList) s bounded

include listed in
theorem handleAll_safe (named : Bytes) (arg : Session World → Bytes) :
    Safe (handleAll commands named arg) :=
  Safe.foldlM _ _ fun command member =>
    handler_safe (listed command (List.mem_filter.mp member).1) fun s => some (arg s)

include listed in
theorem enterCommand_safe : Safe (enterCommand commands) := by
  intro s bounded
  obtain ⟨lined, rendered, linedBounded⟩ := (Term.termRenderChar_output 10).keeps.safe s bounded
  simp only [enterCommand, rendered, Option.bind_eq_bind, Option.bind_some]
  generalize splitCommand (CString.cstr lined.term.inputBuffer.toList) = split
  obtain ⟨named, handled, namedBounded⟩ :=
    handleAll_safe commands listed split.1 (fun _ => split.2) lined linedBounded
  rw [handled, Option.bind_some]
  have prompts : Safe fun s : Session World =>
      { s with term := s.term.clearInputBuffer }.update (Term.printString (ascii "> ")) :=
    fun s bounded => (Term.printString_output _).keeps.safe _ bounded.clearInputBuffer
  by_cases unknown : (∀ entry ∈ commands, entry.command ≠ split.1) ∧ split.1 ≠ []
  · rw [if_pos unknown]
    exact (handleAll_safe commands listed [] fun s => s.term.inputBuffer.toList).bind prompts named
      namedBounded
  · rw [if_neg unknown]
    exact prompts named namedBounded

include listed in
theorem termInputChar_safe (chr : UInt8) (shiftKey : Bool) :
    Safe (termInputChar commands chr shiftKey) := by
  intro s bounded
  rw [termInputChar]
  split
  next => exact inputBackspace_keeps.safe s bounded
  next =>
    cases s.term.commandLevel with
    | singleKey => exact inputSingleKey_safe commands listed chr shiftKey s bounded
    | dataInput =>
      simp only []
      split
      next => exact enterData_safe commands listed s bounded
      next => exact (appendChar_keeps chr).safe s bounded
    | commandInput =>
      simp only []
      split
      next => exact enterCommand_safe commands listed s bounded
      next => exact (appendChar_keeps chr).safe s bounded

include listed in
theorem termLoop_safe (protocol : Command.TransmissionProtocol) : Safe (termLoop commands protocol) := by
  intro s bounded
  rw [termLoop]
  split
  next =>
    exact ((Term.printString_output _).keeps.safe.bind (termInputChar_safe commands listed 10 false))
      _ bounded.clearScreen
  next =>
    split
    next =>
      exact termInputChar_safe commands listed _ _ _ (bounded.still rfl rfl rfl rfl bounded.length)
    next => exact ⟨s, rfl, bounded⟩

end Input

section Run

variable {World : Type}

theorem listed_onlyCalls (commands : List (Listed World)) :
    ∀ command ∈ commands.map Subtype.val, command.OnlyCalls := by
  intro command member
  obtain ⟨listed, -, rfl⟩ := List.mem_map.mp member
  exact listed.property

theorem Step.perform_bounded (step : Step World) (c : Console World) (bounded : c.session.term.Bounded) :
    ∃ after, step.perform c = some after ∧ after.session.term.Bounded := by
  have listed := listed_onlyCalls c.commands
  cases step with
  | call made =>
    obtain ⟨s, ran, kept⟩ := made.perform_keeps.safe c.session bounded
    exact ⟨{ c with session := s }, by simp only [Step.perform, ran, Option.map_some], kept⟩
  | setCommands commands => exact ⟨_, rfl, bounded⟩
  | inputChar chr shiftKey =>
    obtain ⟨s, ran, kept⟩ := termInputChar_safe _ listed chr shiftKey c.session bounded
    exact ⟨{ c with session := s }, by simp only [Step.perform, ran, Option.map_some], kept⟩
  | loop protocol =>
    obtain ⟨s, ran, kept⟩ := termLoop_safe _ listed protocol c.session bounded
    exact ⟨{ c with session := s }, by simp only [Step.perform, ran, Option.map_some], kept⟩
  | elsewhere world => exact ⟨_, rfl, bounded⟩

theorem run_bounded (steps : List (Step World)) (c : Console World) (bounded : c.session.term.Bounded) :
    ∃ after, run steps c = some after ∧ after.session.term.Bounded := by
  induction steps generalizing c with
  | nil => exact ⟨c, rfl, bounded⟩
  | cons step rest ih =>
    obtain ⟨next, performed, nextBounded⟩ := step.perform_bounded c bounded
    obtain ⟨after, ran, afterBounded⟩ := ih next nextBounded
    refine ⟨after, ?_, afterBounded⟩
    rw [run, List.foldlM_cons, performed]
    exact ran

theorem run_inGrid (steps : List (Step World)) (world : World) :
    ∃ after, run steps { session := ⟨{}, world⟩ } = some after ∧
      after.session.term.InGrid ∧ after.session.term.inputLength ≤ inputBufferSize - 1 := by
  have corner : 0 < screenSizeX ∧ 0 < screenSizeY := by decide
  obtain ⟨after, ran, bounded⟩ := run_bounded steps { session := ⟨{}, world⟩ }
    ⟨⟨corner.1, corner.2, corner.1, corner.2⟩, Nat.zero_le _⟩
  exact ⟨after, ran, bounded.inGrid, bounded.length⟩

end Run

section Menu

variable {World : Type}

theorem performAll_append (first second : List Call) (t : Term) :
    performAll (first ++ second) t = (performAll first t).bind (performAll second) := by
  simp only [performAll, List.foldlM_append]
  rfl

theorem OnlyCalls.after {before : Session World} {result : Option (Session World)}
    (middle : Session World) (calls : List Call) (performed : performAll calls before.term = some middle.term)
    (later : OnlyCalls middle result) : OnlyCalls before result := by
  obtain ⟨rest, world, rfl⟩ := later
  exact ⟨calls ++ rest, world, by rw [performAll_append, performed, Option.bind_some]⟩

theorem OnlyCalls.bind {before : Session World} {result : Option (Session World)}
    {next : Session World → Option (Session World)} (one : OnlyCalls before result)
    (two : ∀ s, OnlyCalls s (next s)) : OnlyCalls before (result.bind next) := by
  obtain ⟨calls, world, rfl⟩ := one
  cases performed : performAll calls before.term with
  | none => exact ⟨calls, world, by simp only [performed, Option.map_none, Option.bind_none]⟩
  | some term =>
    exact OnlyCalls.after ⟨term, world⟩ calls performed (two ⟨term, world⟩)

theorem OnlyCalls.some {before after : Session World} (calls : List Call)
    (performed : performAll calls before.term = some after.term) : OnlyCalls before (some after) :=
  ⟨calls, after.world, by rw [performed, Option.map_some]⟩

theorem OnlyCalls.map {before : Session World} {result : Option (Session World)}
    {next : Session World → Session World} (one : OnlyCalls before result) (calls : List Call)
    (performed : ∀ s, performAll calls s.term = Option.some (next s).term) :
    OnlyCalls before (result.map next) := by
  rw [Option.map_eq_bind]
  exact one.bind fun s => OnlyCalls.some calls (performed s)

end Menu

section Emul

variable {Other : Type} (env : Environment Other)

theorem printAll_onlyCalls (strings : List Bytes) (s : Menu Other) :
    OnlyCalls s (printAll strings s) := by
  refine ⟨strings.map .printString, s.world, ?_⟩
  rw [performAll, List.foldlM_map]
  rfl

theorem menu_onlyCalls (s : Menu Other) : OnlyCalls s (menu env s) := by
  simp only [menu]
  exact .after _ [.setCommandLevel .singleKey] rfl (printAll_onlyCalls _ _)

theorem openEntry_onlyCalls (prompt : Bytes) (s : Menu Other) :
    OnlyCalls s (openEntry env prompt s) :=
  (OnlyCalls.after _ [] rfl (printAll_onlyCalls _ (showMenuScreen false s))).map
    [.setCommandLevel .dataInput] fun _ => rfl

theorem closeEntry_onlyCalls {s saved : Menu Other}
    (same : saved.term = (setCommandLevel .singleKey s).term) :
    OnlyCalls s (menu env (clearInput saved)) := by
  refine .after _ [.setCommandLevel .singleKey, .clearInputBuffer] ?_ (menu_onlyCalls env _)
  rw [clearInput, same]
  rfl

theorem cmdHost_onlyCalls (arg : Option Bytes) (s : Menu Other) :
    OnlyCalls s (cmdHost env arg s) := by
  simp only [cmdHost]
  split
  next => exact openEntry_onlyCalls env _ s
  next =>
    refine closeEntry_onlyCalls env ?_
    split <;> rfl

theorem cmdPort_onlyCalls (arg : Option Bytes) (s : Menu Other) :
    OnlyCalls s (cmdPort env arg s) := by
  simp only [cmdPort]
  split
  next => exact openEntry_onlyCalls env _ s
  next =>
    have closes : ∀ stored : Menu Other, OnlyCalls stored (menu env (clearInput stored)) := fun _ =>
      .after _ [.clearInputBuffer] rfl (menu_onlyCalls env _)
    refine OnlyCalls.after (setCommandLevel .singleKey s) [.setCommandLevel .singleKey] rfl
      (OnlyCalls.bind ?_ closes)
    split
    next => exact .some [] rfl
    next =>
      split
      next => exact printAll_onlyCalls _ _
      next => exact .some [] rfl

theorem cmdRoom_onlyCalls (arg : Option Bytes) (s : Menu Other) :
    OnlyCalls s (cmdRoom env arg s) := by
  simp only [cmdRoom]
  split
  next => exact openEntry_onlyCalls env _ s
  next => exact closeEntry_onlyCalls env rfl

theorem printed_onlyCalls (strings : List Bytes) (s : Menu Other) :
    OnlyCalls s (printAll strings (showMenuScreen false s)) := by
  refine .after _ [] ?_ (printAll_onlyCalls strings _)
  rfl

theorem cmdTransport_onlyCalls (arg : Option Bytes) (s : Menu Other) :
    OnlyCalls s (cmdTransport env arg s) := by
  simp only [cmdTransport]
  refine .after _ [] ?_ (menu_onlyCalls env _)
  rfl

theorem cmdFirmware_onlyCalls (arg : Option Bytes) (s : Menu Other) :
    OnlyCalls s (cmdFirmware env arg s) := by
  simp only [cmdFirmware]
  exact (printed_onlyCalls _ s).map [] fun _ => rfl

theorem cmdBooster_onlyCalls (arg : Option Bytes) (s : Menu Other) :
    OnlyCalls s (cmdBooster env arg s) := by
  simp only [cmdBooster]
  exact (printed_onlyCalls _ s).map [] fun _ => rfl

theorem cmdHelp_onlyCalls (arg : Option Bytes) (s : Menu Other) : OnlyCalls s (cmdHelp arg s) := by
  simp only [cmdHelp]
  exact printed_onlyCalls _ s

theorem cmdPing_onlyCalls (arg : Option Bytes) (s : Menu Other) :
    OnlyCalls s (cmdPing env arg s) := by
  simp only [cmdPing]
  exact printed_onlyCalls _ s

theorem commands_onlyCalls : ∀ command ∈ commands env, command.OnlyCalls := by
  simp only [commands, List.forall_mem_cons, Command.OnlyCalls]
  refine ⟨fun _ => menu_onlyCalls env, cmdHost_onlyCalls env, cmdPort_onlyCalls env,
    cmdTransport_onlyCalls env, cmdRoom_onlyCalls env, cmdFirmware_onlyCalls env,
    cmdFirmware_onlyCalls env, cmdBooster_onlyCalls env, cmdHelp_onlyCalls, cmdPing_onlyCalls env, ?_⟩
  exact fun _ member => (List.not_mem_nil member).elim

theorem termLoop_commands_safe (protocol : Command.TransmissionProtocol) :
    Safe (termLoop (commands env) protocol) :=
  termLoop_safe (commands env) (commands_onlyCalls env) protocol

end Emul

end MidiToIp.Terminal
