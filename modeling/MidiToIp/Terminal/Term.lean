import Mathlib.Data.List.Basic
import MidiToIp.Command.Chandler
import MidiToIp.Shared.CString

set_option autoImplicit false

-- What is drawn into the frame buffer is left out, as nothing reads it back. None is an access outside
-- an array.

namespace MidiToIp.Terminal

open Octets CString

def screenSizeX : Nat := 40
def screenSizeY : Nat := 24
def screenSize : Nat := screenSizeX * screenSizeY
def inputBufferSize : Nat := 256
def escBufflineSize : Nat := 16

def escChar : UInt8 := 0x1B
def posX : Nat := 0x20
def posY : Nat := 0x20
def backspace : UInt8 := 8

inductive CommandLevel where
  | singleKey
  | commandInput
  | dataInput
  deriving DecidableEq, Repr

structure Term where
  screen : Vector UInt8 screenSize := .replicate screenSize 0
  cursorX : Nat := 0
  cursorY : Nat := 0
  prevCursorX : Nat := 0
  prevCursorY : Nat := 0
  inputBuffer : Vector UInt8 inputBufferSize := .replicate inputBufferSize 0
  inputLength : Nat := 0
  commandLevel : CommandLevel := .commandInput
  lastSingleKeyCommand : UInt8 := 0
  keystrokeSeq : UInt32 := 0

def isEnter (chr : UInt8) : Bool := chr = 10 ∨ chr = 13

def store {size : Nat} (cells : Vector UInt8 size) (i : Nat) (chr : UInt8) :
    Option (Vector UInt8 size) :=
  if inside : i < size then some (cells.set i chr inside) else none

namespace Term

def poke (x y : Nat) (chr : UInt8) (t : Term) : Option Term :=
  (store t.screen (y * screenSizeX + x) chr).map fun screen => { t with screen := screen }

def clearScreen (t : Term) : Term :=
  { t with screen := .replicate screenSize 0, cursorX := 0, cursorY := 0 }

def clearInputBuffer (t : Term) : Term :=
  { t with inputBuffer := .replicate inputBufferSize 0, inputLength := 0 }

def termScrollUp (screen : Vector UInt8 screenSize) : Vector UInt8 screenSize :=
  Vector.ofFn fun i =>
    if below : i.val + screenSizeX < screenSize then screen[i.val + screenSizeX] else 0

def nextLine (t : Term) : Term :=
  if t.cursorY + 1 ≥ screenSizeY then
    { t with screen := termScrollUp t.screen, cursorX := 0, cursorY := screenSizeY - 1 }
  else { t with cursorX := 0, cursorY := t.cursorY + 1 }

def termPutChar (chr : UInt8) (t : Term) : Option Term :=
  (t.poke t.cursorX t.cursorY chr).map fun t =>
    if t.cursorX + 1 ≥ screenSizeX then t.nextLine else { t with cursorX := t.cursorX + 1 }

def savePrevCursor (t : Term) : Term :=
  { t with prevCursorX := t.cursorX, prevCursorY := t.cursorY }

def termRenderChar (chr : UInt8) (t : Term) : Option Term :=
  (if isEnter chr then some t.nextLine
    else if chr ≠ 0 then t.termPutChar chr
    else some t).map savePrevCursor

def blank (rows columns : List Nat) (t : Term) : Option Term :=
  (rows.flatMap fun y => columns.map fun x => (x, y)).foldlM (fun t (x, y) => t.poke x y 0) t

def vt52ProcessSequence (seq : Bytes) (t : Term) : Option Term :=
  match seq with
  | [] => some t
  | [_] => some t
  | _ :: command :: position =>
    if command = 65 then  -- 'A'
      termRenderChar 0 (if t.cursorY > 0 then { t with cursorY := t.cursorY - 1 } else t)
    else if command = 66 then  -- 'B'
      termRenderChar 0
        (if t.cursorY < screenSizeY - 1 then { t with cursorY := t.cursorY + 1 } else t)
    else if command = 67 then  -- 'C'
      termRenderChar 0
        (if t.cursorX < screenSizeX - 1 then { t with cursorX := t.cursorX + 1 } else t)
    else if command = 68 then  -- 'D'
      termRenderChar 0 (if t.cursorX > 0 then { t with cursorX := t.cursorX - 1 } else t)
    else if command = 69 then  -- 'E'
      (termRenderChar 0 { t with cursorX := 0, cursorY := 0 }).bind
        (blank (List.range screenSizeY) (List.range screenSizeX))
    else if command = 72 then  -- 'H'
      termRenderChar 0 { t with cursorX := 0, cursorY := 0 }
    else if command = 74 then  -- 'J'
      t.blank (List.range' t.cursorY (screenSizeY - t.cursorY))
        (List.range' t.cursorX (screenSizeX - t.cursorX))
    else if command = 75 then  -- 'K'
      t.blank [t.cursorY] (List.range' t.cursorX (screenSizeX - t.cursorX))
    else if command = 89 then  -- 'Y'
      match position with
      | [row, col] =>
        if posY ≤ row.toNat ∧ row.toNat - posY < screenSizeY ∧ posX ≤ col.toNat ∧
            col.toNat - posX < screenSizeX then
          termRenderChar 0 { t with cursorY := row.toNat - posY, cursorX := col.toNat - posX }
        else t.termRenderChar 0
      | _ => some t
    else some t

def renderAll (chars : Bytes) (t : Term) : Option Term :=
  chars.foldlM (fun t chr => t.termRenderChar chr) t

inductive PrintState where
  | normal
  | esc (escBuffer : Bytes)
  deriving DecidableEq, Repr

def printChar (chr : UInt8) : PrintState → Term → Option (PrintState × Term)
  | .normal, t =>
    if chr = escChar then some (.esc [chr], t)
    else (t.termRenderChar chr).map fun t => (.normal, t)
  | .esc escBuffer, t =>
    if escBuffer.length < escBufflineSize then
      let escBuffer := escBuffer ++ [chr]
      let complete := if escBuffer[1]? = some 89 then escBuffer.length = 4 else escBuffer.length = 2
      (if complete then (t.vt52ProcessSequence escBuffer).map fun t => (PrintState.normal, t)
        else some (.esc escBuffer, t)).bind fun (state, t) =>
        if escBuffer.length ≥ escBufflineSize then
          (t.renderAll escBuffer).map fun t => (.normal, t)
        else some (state, t)
    else none

def printChars : Bytes → PrintState → Term → Option Term
  | [], .normal, t => some t
  | [], .esc escBuffer, t => t.renderAll escBuffer
  | chr :: rest, state, t => (printChar chr state t).bind fun (state, t) => printChars rest state t

def printString (str : Bytes) (t : Term) : Option Term := printChars (cstr str) .normal t

def inputBackspace (t : Term) : Option Term :=
  if t.inputLength > 0 then
    (store t.inputBuffer (t.inputLength - 1) 0).bind fun buffer =>
      let t := { t with inputBuffer := buffer, inputLength := t.inputLength - 1 }
      if t.cursorX = 0 then
        if t.cursorY > 0 then
          let t := { t with cursorY := t.cursorY - 1, cursorX := screenSizeX - 1 }
          (t.poke t.cursorX t.cursorY 0).map savePrevCursor
        else some t
      else
        let t := { t with cursorX := t.cursorX - 1 }
        (t.poke t.cursorX t.cursorY 0).map savePrevCursor
  else some t.savePrevCursor

def appendChar (chr : UInt8) (t : Term) : Option Term :=
  if t.inputLength < inputBufferSize - 1 then
    (store t.inputBuffer t.inputLength chr).bind fun buffer =>
      termRenderChar chr { t with inputBuffer := buffer, inputLength := t.inputLength + 1 }
  else some t

end Term

structure Session (World : Type) where
  term : Term
  world : World

structure Command (World : Type) where
  command : Bytes
  handler : Option Bytes → Session World → Option (Session World)

def Command.initial {World : Type} (command : Command World) : UInt8 := command.command.headD 0

def toupper (chr : UInt8) : UInt8 := if 97 ≤ chr ∧ chr ≤ 122 then chr - 32 else chr
def tolower (chr : UInt8) : UInt8 := if 65 ≤ chr ∧ chr ≤ 90 then chr + 32 else chr

def splitCommand (line : Bytes) : Bytes × Bytes :=
  let word := line.dropWhile isspace
  let command := (word.takeWhile fun chr => !isspace chr).take 63
  let rest := (word.drop command.length).dropWhile isspace
  (command, (rest.takeWhile fun chr => chr ≠ 10).take 63)

section Input

variable {World : Type} (commands : List (Command World))

def Session.update (step : Term → Option Term) (s : Session World) : Option (Session World) :=
  (step s.term).map fun term => { s with term := term }

def keyed (key : UInt8) : Option (Command World) :=
  commands.find? fun (command : Command World) => command.initial = key

def inputSingleKey (chr : UInt8) (shiftKey : Bool) (s : Session World) : Option (Session World) :=
  let chr := if shiftKey then toupper chr else tolower chr
  let handled :=
    match keyed commands chr with
    | some command =>
      command.handler none { s with term := { s.term with lastSingleKeyCommand := chr } }
    | none => some s
  handled.map fun s => { s with term := s.term.clearInputBuffer }

def enterData (s : Session World) : Option (Session World) :=
  (s.update (Term.termRenderChar 10)).bind fun s =>
    match keyed commands s.term.lastSingleKeyCommand with
    | some command => command.handler (some s.term.inputBuffer.toList) s
    | none => some s

def handleAll (named : Bytes) (arg : Session World → Bytes) (s : Session World) :
    Option (Session World) :=
  (commands.filter fun command => command.command = named).foldlM
    (fun s command => command.handler (some (arg s)) s) s

def enterCommand (s : Session World) : Option (Session World) := do
  let s ← s.update (Term.termRenderChar 10)
  let (command, arg) := splitCommand (cstr s.term.inputBuffer.toList)
  let s ← handleAll commands command (fun _ => arg) s
  let s ←
    if (∀ entry ∈ commands, entry.command ≠ command) ∧ command ≠ [] then
      handleAll commands [] (fun s => s.term.inputBuffer.toList) s
    else some s
  { s with term := s.term.clearInputBuffer }.update (Term.printString (ascii "> "))

def termInputChar (chr : UInt8) (shiftKey : Bool) (s : Session World) : Option (Session World) :=
  if chr = backspace then s.update Term.inputBackspace
  else
    match s.term.commandLevel with
    | .singleKey => inputSingleKey commands chr shiftKey s
    | .dataInput => if isEnter chr then enterData commands s else s.update (Term.appendChar chr)
    | .commandInput =>
      if isEnter chr then enterCommand commands s else s.update (Term.appendChar chr)

def appTerminalStart : UInt16 := 0x00
def appTerminalKeystroke : UInt16 := 0x01

-- The parameter behind the random token.
def payload32 (protocol : Command.TransmissionProtocol) : UInt32 :=
  (protocol.payload 3).toUInt32 <<< 16 ||| (protocol.payload 2).toUInt32

def keystroke (protocol : Command.TransmissionProtocol) : UInt8 :=
  (payload32 protocol &&& 0xFF).toUInt8

def shiftKey (protocol : Command.TransmissionProtocol) : UInt32 :=
  (payload32 protocol &&& 0xFF000000) >>> 24

def termLoop (protocol : Command.TransmissionProtocol) (s : Session World) :
    Option (Session World) :=
  if protocol.commandId = appTerminalStart then
    ({ s with term := s.term.clearScreen }.update
      (Term.printString (ascii "Type 'help' for available commands.\n"))).bind
      (termInputChar commands 10 false)
  else if protocol.commandId = appTerminalKeystroke then
    termInputChar commands (keystroke protocol) (shiftKey protocol ≠ 0)
      { s with term := { s.term with keystrokeSeq := s.term.keystrokeSeq + 1 } }
  else some s

end Input

namespace Term

structure InGrid (t : Term) : Prop where
  x : t.cursorX < screenSizeX
  y : t.cursorY < screenSizeY
  prevX : t.prevCursorX < screenSizeX
  prevY : t.prevCursorY < screenSizeY

def cursor (t : Term) : Nat := t.cursorY * screenSizeX + t.cursorX

structure SameInput (before after : Term) : Prop where
  buffer : after.inputBuffer = before.inputBuffer
  length : after.inputLength = before.inputLength
  level : after.commandLevel = before.commandLevel
  single : after.lastSingleKeyCommand = before.lastSingleKeyCommand

theorem InGrid.savePrevCursor {t : Term} (grid : t.InGrid) : t.savePrevCursor.InGrid :=
  ⟨grid.x, grid.y, grid.x, grid.y⟩

theorem poke_inGrid (t : Term) (x y : Nat) (chr : UInt8) (inX : x < screenSizeX)
    (inY : y < screenSizeY) :
    ∃ inside : y * screenSizeX + x < screenSize,
      t.poke x y chr = some { t with screen := t.screen.set (y * screenSizeX + x) chr inside } := by
  have inside : y * screenSizeX + x < screenSize := by
    simp only [screenSize, screenSizeX, screenSizeY] at *
    omega
  exact ⟨inside, by simp [poke, store, inside]⟩

theorem poke_cursor {t : Term} (grid : t.InGrid) :
    ∃ after, (t.poke t.cursorX t.cursorY 0).map savePrevCursor = some after ∧
      after.cursor = t.cursor ∧ after.InGrid ∧ t.SameInput after := by
  obtain ⟨inside, poked⟩ := t.poke_inGrid t.cursorX t.cursorY 0 grid.x grid.y
  rw [poked, Option.map_some]
  exact ⟨_, rfl, rfl, ⟨grid.x, grid.y, grid.x, grid.y⟩, ⟨rfl, rfl, rfl, rfl⟩⟩

theorem nextLine_inGrid {t : Term} (grid : t.InGrid) : t.nextLine.InGrid := by
  have start : 0 < screenSizeX := by decide
  have last : screenSizeY - 1 < screenSizeY := by decide
  simp only [nextLine]
  split
  next => exact ⟨start, last, grid.prevX, grid.prevY⟩
  next room => exact ⟨start, Nat.lt_of_not_ge room, grid.prevX, grid.prevY⟩

theorem nextLine_sameInput (t : Term) : t.SameInput t.nextLine := by
  simp only [nextLine]
  split <;> exact ⟨rfl, rfl, rfl, rfl⟩

theorem nextLine_full {t : Term} (grid : t.InGrid) (full : t.cursorX + 1 ≥ screenSizeX) :
    t.nextLine.screen[t.nextLine.cursor - 1]? = t.screen[t.cursor]? ∧
      (t.nextLine.cursor = t.cursor + 1 ∨
        t.cursor = screenSize - 1 ∧ t.nextLine.cursor = screenSize - screenSizeX) := by
  have x := grid.x
  have y := grid.y
  have sizes : screenSizeX = 40 ∧ screenSizeY = 24 ∧ screenSize = 960 := by decide
  simp only [nextLine, cursor]
  by_cases scrolls : t.cursorY + 1 ≥ screenSizeY
  · simp only [if_pos scrolls]
    have last : t.cursorY * screenSizeX + t.cursorX = 959 := by
      have bottom : t.cursorY = 23 := by omega
      rw [bottom]
      omega
    rw [last]
    constructor
    · have moved : 919 < screenSize ∧ 919 + screenSizeX < screenSize := by decide
      change (termScrollUp t.screen)[919]? = t.screen[959]?
      rw [termScrollUp, Vector.getElem?_eq_getElem moved.1, Vector.getElem_ofFn, dif_pos moved.2]
      exact (Vector.getElem?_eq_getElem _).symm
    · exact .inr (by decide)
  · simp only [if_neg scrolls]
    have next : (t.cursorY + 1) * screenSizeX + 0 = t.cursorY * screenSizeX + t.cursorX + 1 := by
      rw [Nat.add_mul]
      omega
    rw [next]
    exact ⟨rfl, .inl rfl⟩

structure Put (chr : UInt8) (before after : Term) : Prop where
  sameInput : before.SameInput after
  inGrid : after.InGrid
  shown : after.screen[after.cursor - 1]? = some chr
  moved : after.cursor = before.cursor + 1 ∨
    before.cursor = screenSize - 1 ∧ after.cursor = screenSize - screenSizeX

theorem termPutChar_put (chr : UInt8) {t : Term} (grid : t.InGrid) :
    ∃ after, t.termPutChar chr = some after ∧ Put chr t after := by
  obtain ⟨inside, poked⟩ := t.poke_inGrid t.cursorX t.cursorY chr grid.x grid.y
  simp only [termPutChar, poked, Option.map_some]
  refine ⟨_, rfl, ?_⟩
  have shown : (t.screen.set (t.cursorY * screenSizeX + t.cursorX) chr inside)[
      t.cursorY * screenSizeX + t.cursorX]? = some chr := by
    simp
  have same : InGrid { t with screen := t.screen.set (t.cursorY * screenSizeX + t.cursorX) chr inside } :=
    ⟨grid.x, grid.y, grid.prevX, grid.prevY⟩
  by_cases full : t.cursorX + 1 ≥ screenSizeX
  · rw [if_pos full]
    obtain ⟨kept, moved⟩ := nextLine_full same full
    have input := nextLine_sameInput
      { t with screen := t.screen.set (t.cursorY * screenSizeX + t.cursorX) chr inside }
    exact ⟨⟨input.buffer, input.length, input.level, input.single⟩, nextLine_inGrid same,
      kept.trans shown, moved⟩
  · rw [if_neg full]
    exact ⟨⟨rfl, rfl, rfl, rfl⟩, ⟨Nat.lt_of_not_ge full, grid.y, grid.prevX, grid.prevY⟩, shown, .inl rfl⟩

theorem termRenderChar_put (chr : UInt8) {t : Term} (grid : t.InGrid) (solid : chr ≠ 0)
    (inline : isEnter chr = false) :
    ∃ after, t.termRenderChar chr = some after ∧ Put chr t after := by
  obtain ⟨after, printed, put⟩ := termPutChar_put chr grid
  refine ⟨after.savePrevCursor, by simp [termRenderChar, inline, solid, printed], ?_⟩
  exact ⟨⟨put.sameInput.buffer, put.sameInput.length, put.sameInput.level, put.sameInput.single⟩,
    put.inGrid.savePrevCursor, put.shown, put.moved⟩

theorem termRenderChar_nul (t : Term) : t.termRenderChar 0 = some t.savePrevCursor := by
  simp [termRenderChar, isEnter]

theorem termRenderChar_enter (chr : UInt8) (t : Term) (enter : isEnter chr = true) :
    t.termRenderChar chr = some t.nextLine.savePrevCursor := by
  simp [termRenderChar, enter]

theorem SameInput.trans {first second third : Term} (one : first.SameInput second)
    (two : second.SameInput third) : first.SameInput third :=
  ⟨two.buffer.trans one.buffer, two.length.trans one.length, two.level.trans one.level,
    two.single.trans one.single⟩

def Output (step : Term → Option Term) : Prop :=
  ∀ t, t.InGrid → ∃ after, step t = some after ∧ after.InGrid ∧ t.SameInput after

theorem Output.none : Output some := fun t grid => ⟨t, rfl, grid, ⟨rfl, rfl, rfl, rfl⟩⟩

theorem Output.bind {first second : Term → Option Term} (one : Output first) (two : Output second) :
    Output fun t => (first t).bind second := by
  intro t grid
  obtain ⟨middle, ran, middleGrid, middleSame⟩ := one t grid
  obtain ⟨after, ends, afterGrid, afterSame⟩ := two middle middleGrid
  refine ⟨after, ?_, afterGrid, middleSame.trans afterSame⟩
  change (first t).bind second = some after
  rw [ran, Option.bind_some, ends]

theorem Output.ite {p : Prop} [Decidable p] {first second : Term → Option Term} (one : Output first)
    (two : Output second) : Output fun t => if p then first t else second t := by
  intro t grid
  by_cases holds : p
  · simpa only [if_pos holds] using one t grid
  · simpa only [if_neg holds] using two t grid

theorem Output.foldlM {Item : Type} (step : Term → Item → Option Term) (items : List Item)
    (each : ∀ item ∈ items, Output fun t => step t item) :
    Output fun t => items.foldlM step t := by
  induction items with
  | nil => exact Output.none
  | cons item rest ih =>
    have first := each item List.mem_cons_self
    have later := ih fun other member => each other (List.mem_cons_of_mem _ member)
    intro t grid
    simp only [List.foldlM_cons]
    exact first.bind later t grid

theorem poke_output (x y : Nat) (chr : UInt8) (inX : x < screenSizeX) (inY : y < screenSizeY) :
    Output (poke x y chr) := by
  intro t grid
  obtain ⟨inside, poked⟩ := t.poke_inGrid x y chr inX inY
  exact ⟨_, poked, ⟨grid.x, grid.y, grid.prevX, grid.prevY⟩, ⟨rfl, rfl, rfl, rfl⟩⟩

theorem termRenderChar_output (chr : UInt8) : Output (termRenderChar chr) := by
  intro t grid
  by_cases enter : isEnter chr = true
  · have input := nextLine_sameInput t
    exact ⟨_, termRenderChar_enter chr t enter, (nextLine_inGrid grid).savePrevCursor,
      ⟨input.buffer, input.length, input.level, input.single⟩⟩
  · by_cases solid : chr = 0
    · subst solid
      exact ⟨_, termRenderChar_nul t, grid.savePrevCursor, ⟨rfl, rfl, rfl, rfl⟩⟩
    · obtain ⟨after, rendered, put⟩ := termRenderChar_put chr grid solid (by simpa using enter)
      exact ⟨after, rendered, put.inGrid, put.sameInput⟩

theorem renderAll_output (chars : Bytes) : Output (renderAll chars) :=
  Output.foldlM _ chars fun chr _ => termRenderChar_output chr

theorem blank_output (rows columns : List Nat) (inY : ∀ y ∈ rows, y < screenSizeY)
    (inX : ∀ x ∈ columns, x < screenSizeX) : Output (blank rows columns) := by
  refine Output.foldlM _ _ fun cell member => ?_
  simp only [List.mem_flatMap, List.mem_map] at member
  obtain ⟨y, row, x, column, rfl⟩ := member
  exact poke_output x y 0 (inX x column) (inY y row)

theorem mem_columns {start size column : Nat} (member : column ∈ List.range' start (size - start)) :
    column < size := by
  rw [List.mem_range'_1] at member
  omega

theorem InGrid.moved {t : Term} (grid : t.InGrid) (x y : Nat) (inX : x < screenSizeX)
    (inY : y < screenSizeY) : InGrid { t with cursorX := x, cursorY := y } :=
  ⟨inX, inY, grid.prevX, grid.prevY⟩

theorem move_output (move : Term → Term) (inGrid : ∀ t, t.InGrid → (move t).InGrid)
    (same : ∀ t : Term, t.SameInput (move t)) : Output fun t => termRenderChar 0 (move t) := by
  intro t grid
  obtain ⟨after, drawn, afterGrid, afterSame⟩ := termRenderChar_output 0 (move t) (inGrid t grid)
  exact ⟨after, drawn, afterGrid, (same t).trans afterSame⟩

theorem step_output (room : Term → Prop) [DecidablePred room] (x y : Term → Nat)
    (inside : ∀ t : Term, t.InGrid → room t → x t < screenSizeX ∧ y t < screenSizeY) :
    Output fun t =>
      termRenderChar 0 (if room t then { t with cursorX := x t, cursorY := y t } else t) := by
  refine move_output _ (fun t grid => ?_) (fun t => by split <;> exact ⟨rfl, rfl, rfl, rfl⟩)
  split
  next fits => exact grid.moved (x t) (y t) (inside t grid fits).1 (inside t grid fits).2
  next => exact grid

theorem address_output (row col : UInt8) :
    Output fun t =>
      if posY ≤ row.toNat ∧ row.toNat - posY < screenSizeY ∧ posX ≤ col.toNat ∧
          col.toNat - posX < screenSizeX then
        termRenderChar 0 { t with cursorY := row.toNat - posY, cursorX := col.toNat - posX }
      else t.termRenderChar 0 := by
  by_cases inside : posY ≤ row.toNat ∧ row.toNat - posY < screenSizeY ∧ posX ≤ col.toNat ∧
      col.toNat - posX < screenSizeX
  · simp only [if_pos inside]
    exact move_output _ (fun t grid => grid.moved _ _ inside.2.2.2 inside.2.1)
      fun t => ⟨rfl, rfl, rfl, rfl⟩
  · simp only [if_neg inside]
    exact termRenderChar_output 0

theorem vt52ProcessSequence_output (seq : Bytes) : Output (vt52ProcessSequence seq) := by
  rcases seq with _ | ⟨esc, _ | ⟨command, position⟩⟩
  · exact Output.none
  · exact Output.none
  have sizes : screenSizeX = 40 ∧ screenSizeY = 24 := ⟨rfl, rfl⟩
  have up : Output fun t => termRenderChar 0
      (if t.cursorY > 0 then { t with cursorY := t.cursorY - 1 } else t) :=
    step_output _ Term.cursorX (fun t => t.cursorY - 1) fun t grid _ =>
      ⟨grid.x, (Nat.sub_le _ _).trans_lt grid.y⟩
  have down : Output fun t => termRenderChar 0
      (if t.cursorY < screenSizeY - 1 then { t with cursorY := t.cursorY + 1 } else t) :=
    step_output _ Term.cursorX (fun t => t.cursorY + 1) fun t grid room => ⟨grid.x, by omega⟩
  have right : Output fun t => termRenderChar 0
      (if t.cursorX < screenSizeX - 1 then { t with cursorX := t.cursorX + 1 } else t) :=
    step_output _ (fun t => t.cursorX + 1) Term.cursorY fun t grid room => ⟨by omega, grid.y⟩
  have left : Output fun t => termRenderChar 0
      (if t.cursorX > 0 then { t with cursorX := t.cursorX - 1 } else t) :=
    step_output _ (fun t => t.cursorX - 1) Term.cursorY fun t grid _ =>
      ⟨(Nat.sub_le _ _).trans_lt grid.x, grid.y⟩
  have homed : Output fun t => termRenderChar 0 { t with cursorX := 0, cursorY := 0 } :=
    move_output _ (fun t grid => grid.moved 0 0 (by omega) (by omega)) fun t => ⟨rfl, rfl, rfl, rfl⟩
  have cleared : Output (blank (List.range screenSizeY) (List.range screenSizeX)) :=
    blank_output _ _ (fun y member => List.mem_range.mp member) fun x member => List.mem_range.mp member
  have toEnd : Output fun t => t.blank (List.range' t.cursorY (screenSizeY - t.cursorY))
      (List.range' t.cursorX (screenSizeX - t.cursorX)) := fun t grid =>
    blank_output _ _ (fun y member => mem_columns member) (fun x member => mem_columns member) t grid
  have lineEnd : Output fun t => t.blank [t.cursorY]
      (List.range' t.cursorX (screenSizeX - t.cursorX)) := fun t grid =>
    blank_output _ _ (fun y member => (List.mem_singleton.mp member) ▸ grid.y)
      (fun x member => mem_columns member) t grid
  -- The cases in the order of the source.
  refine .ite up <| .ite down <| .ite right <| .ite left <| .ite (homed.bind cleared) <| .ite homed <|
    .ite toEnd <| .ite lineEnd <| .ite ?_ .none
  split
  next row col => exact address_output row col
  next => exact Output.none

def PrintState.Incomplete : PrintState → Prop
  | .normal => True
  | .esc escBuffer => escBuffer.length < 4 ∧ (escBuffer.length = 1 ∨ escBuffer[1]? = some 89)

theorem printChar_output (chr : UInt8) (state : PrintState) (incomplete : state.Incomplete)
    (t : Term) (grid : t.InGrid) :
    ∃ upcoming after, printChar chr state t = some (upcoming, after) ∧ upcoming.Incomplete ∧
      after.InGrid ∧ t.SameInput after := by
  cases state with
  | normal =>
    by_cases escape : chr = escChar
    · exact ⟨.esc [chr], t, by simp [printChar, escape], by simp [PrintState.Incomplete], grid,
        ⟨rfl, rfl, rfl, rfl⟩⟩
    · obtain ⟨after, rendered, inGrid, same⟩ := termRenderChar_output chr t grid
      exact ⟨.normal, after, by simp [printChar, escape, rendered], trivial, inGrid, same⟩
  | esc escBuffer =>
    obtain ⟨short, begun⟩ := incomplete
    have size : escBufflineSize = 16 := rfl
    have longer : (escBuffer ++ [chr]).length = escBuffer.length + 1 := by simp
    have inside : escBuffer.length < escBufflineSize := by omega
    have flushed : ¬ (escBuffer ++ [chr]).length ≥ escBufflineSize := by omega
    simp only [printChar, if_pos inside, if_neg flushed]
    by_cases complete : if (escBuffer ++ [chr])[1]? = some 89 then (escBuffer ++ [chr]).length = 4
        else (escBuffer ++ [chr]).length = 2
    · obtain ⟨after, processed, inGrid, same⟩ := vt52ProcessSequence_output (escBuffer ++ [chr]) t grid
      refine ⟨.normal, after, ?_, trivial, inGrid, same⟩
      simp only [complete, if_true, processed, Option.map_some, Option.bind_some]
    · refine ⟨.esc (escBuffer ++ [chr]), t, ?_, ?_, grid, ⟨rfl, rfl, rfl, rfl⟩⟩
      · simp only [complete, if_false, Option.bind_some]
      · have address : (escBuffer ++ [chr])[1]? = some 89 := by
          by_contra other
          rw [if_neg other] at complete
          rcases begun with single | address
          · omega
          · have second : 1 < escBuffer.length := (List.getElem?_eq_some_iff.mp address).1
            exact other ((List.getElem?_append_left second).trans address)
        rw [if_pos address] at complete
        exact ⟨by omega, .inr address⟩

theorem printChars_output (chars : Bytes) (state : PrintState) (incomplete : state.Incomplete) :
    Output (printChars chars state) := by
  intro t grid
  induction chars generalizing state t with
  | nil =>
    cases state with
    | normal => exact Output.none t grid
    | esc escBuffer => exact renderAll_output escBuffer t grid
  | cons chr rest ih =>
    obtain ⟨upcoming, now, printed, stays, nowGrid, nowSame⟩ :=
      printChar_output chr state incomplete t grid
    obtain ⟨after, prints, inGrid, same⟩ := ih upcoming stays now nowGrid
    exact ⟨after, by simp [printChars, printed, prints], inGrid, nowSame.trans same⟩

theorem printString_output (str : Bytes) : Output (printString str) :=
  printChars_output (cstr str) .normal trivial

end Term

end MidiToIp.Terminal
