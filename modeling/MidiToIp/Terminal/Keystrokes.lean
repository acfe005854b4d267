import Mathlib.Data.List.Basic
import MidiToIp.Terminal.Grid

set_option autoImplicit false

namespace MidiToIp.Terminal

open Octets

def Uncounted (step : Term → Option Term) : Prop :=
  ∀ t after, step t = some after → after.keystrokeSeq = t.keystrokeSeq

namespace Uncounted

theorem pure {step : Term → Term} (same : ∀ t, (step t).keystrokeSeq = t.keystrokeSeq) :
    Uncounted fun t => some (step t) := by
  intro t after ran
  obtain rfl := Option.some.inj ran
  exact same t

theorem bind {first second : Term → Option Term} (one : Uncounted first) (two : Uncounted second) :
    Uncounted fun t => (first t).bind second := by
  intro t after ran
  obtain ⟨middle, begun, ended⟩ := Option.bind_eq_some_iff.mp ran
  exact (two middle after ended).trans (one t middle begun)

theorem map {first : Term → Option Term} {last : Term → Term} (one : Uncounted first)
    (same : ∀ t, (last t).keystrokeSeq = t.keystrokeSeq) : Uncounted fun t => (first t).map last := by
  intro t after ran
  obtain ⟨middle, begun, rfl⟩ := Option.map_eq_some_iff.mp ran
  exact (same middle).trans (one t middle begun)

theorem placed {step : Term → Option Term} {place : Term → Term} (one : Uncounted step)
    (same : ∀ t, (place t).keystrokeSeq = t.keystrokeSeq) : Uncounted fun t => step (place t) :=
  fun t after ran => (one (place t) after ran).trans (same t)

theorem ite {p : Term → Prop} [DecidablePred p] {first second : Term → Option Term} (one : Uncounted first)
    (two : Uncounted second) : Uncounted fun t => if p t then first t else second t := by
  intro t after ran
  by_cases holds : p t
  · simp only [if_pos holds] at ran
    exact one t after ran
  · simp only [if_neg holds] at ran
    exact two t after ran

theorem foldlM {Item : Type} (step : Term → Item → Option Term) (items : List Item)
    (each : ∀ item, Uncounted fun t => step t item) : Uncounted fun t => items.foldlM step t := by
  induction items with
  | nil => exact pure fun _ => rfl
  | cons item rest ih =>
    intro t after ran
    simp only [List.foldlM_cons] at ran
    exact (each item).bind ih t after ran

theorem poke (x y : Term → Nat) (chr : UInt8) : Uncounted fun t => t.poke (x t) (y t) chr := by
  intro t after ran
  obtain ⟨screen, -, rfl⟩ := Option.map_eq_some_iff.mp ran
  rfl

theorem nextLine (t : Term) : t.nextLine.keystrokeSeq = t.keystrokeSeq := by
  unfold Term.nextLine
  split <;> rfl

theorem termRenderChar (chr : UInt8) : Uncounted (Term.termRenderChar chr) := by
  have put : Uncounted (Term.termPutChar chr) := by
    refine (poke Term.cursorX Term.cursorY chr).map fun t => ?_
    split
    next => exact nextLine t
    next => rfl
  have moved : Uncounted fun t : Term =>
      if isEnter chr then some t.nextLine else if chr ≠ 0 then t.termPutChar chr else some t :=
    (pure nextLine).ite (put.ite (pure fun _ => rfl))
  exact moved.map fun _ => rfl

theorem blank (rows columns : Term → List Nat) : Uncounted fun t => t.blank (rows t) (columns t) := by
  intro t after ran
  unfold Term.blank at ran
  refine foldlM _ _ (fun cell => ?_) t after ran
  exact poke (fun _ => cell.1) (fun _ => cell.2) 0

theorem vt52ProcessSequence (seq : Bytes) : Uncounted (Term.vt52ProcessSequence seq) := by
  rcases seq with _ | ⟨esc, _ | ⟨command, position⟩⟩
  · exact pure fun _ => rfl
  · exact pure fun _ => rfl
  have drawn := termRenderChar 0
  have stepped {room : Term → Prop} [DecidablePred room] {place : Term → Term}
      (same : ∀ t, (place t).keystrokeSeq = t.keystrokeSeq) :
      Uncounted fun t => Term.termRenderChar 0 (if room t then place t else t) := by
    refine drawn.placed fun t => ?_
    split
    next => exact same t
    next => rfl
  have homed : Uncounted fun t => Term.termRenderChar 0 { t with cursorX := 0, cursorY := 0 } :=
    drawn.placed fun _ => rfl
  refine .ite (stepped fun _ => rfl) <| .ite (stepped fun _ => rfl) <| .ite (stepped fun _ => rfl) <|
    .ite (stepped fun _ => rfl) <| .ite (homed.bind (blank _ _)) <| .ite homed <| .ite (blank _ _) <|
    .ite (blank _ _) <| .ite ?_ (pure fun _ => rfl)
  split
  next row col => exact .ite (drawn.placed fun _ => rfl) drawn
  next => exact pure fun _ => rfl

theorem renderAll (chars : Bytes) : Uncounted (Term.renderAll chars) :=
  foldlM _ chars fun chr => termRenderChar chr

theorem printChar (chr : UInt8) (state upcoming : Term.PrintState) (t after : Term)
    (printed : Term.printChar chr state t = some (upcoming, after)) : after.keystrokeSeq = t.keystrokeSeq := by
  cases state with
  | normal =>
    simp only [Term.printChar] at printed
    split at printed
    next =>
      cases printed
      rfl
    next =>
      obtain ⟨drawn, rendered, same⟩ := Option.map_eq_some_iff.mp printed
      cases same
      exact termRenderChar chr t _ rendered
  | esc escBuffer =>
    simp only [Term.printChar] at printed
    obtain ⟨-, step⟩ := Option.ite_none_right_eq_some.mp printed
    obtain ⟨⟨between, middle⟩, completed, flushed⟩ := Option.bind_eq_some_iff.mp step
    have first : middle.keystrokeSeq = t.keystrokeSeq := by
      by_cases complete : if (escBuffer ++ [chr])[1]? = some 89 then (escBuffer ++ [chr]).length = 4
          else (escBuffer ++ [chr]).length = 2
      · simp only [complete, if_true] at completed
        obtain ⟨drawn, processed, same⟩ := Option.map_eq_some_iff.mp completed
        cases same
        exact vt52ProcessSequence _ t _ processed
      · simp only [complete, if_false] at completed
        cases completed
        rfl
    refine Eq.trans ?_ first
    simp only at flushed
    split at flushed
    next =>
      obtain ⟨drawn, rendered, same⟩ := Option.map_eq_some_iff.mp flushed
      cases same
      exact renderAll _ middle _ rendered
    next =>
      cases flushed
      rfl

theorem printChars (chars : Bytes) (state : Term.PrintState) : Uncounted (Term.printChars chars state) := by
  induction chars generalizing state with
  | nil =>
    cases state with
    | normal => exact pure fun _ => rfl
    | esc escBuffer => exact renderAll escBuffer
  | cons chr rest ih =>
    intro t after ran
    obtain ⟨⟨upcoming, middle⟩, printed, prints⟩ := Option.bind_eq_some_iff.mp ran
    exact (ih upcoming middle after prints).trans (printChar chr state upcoming t middle printed)

theorem printString (str : Bytes) : Uncounted (Term.printString str) := printChars _ .normal

theorem store {size : Nat} (cells : Term → Vector UInt8 size) (i : Term → Nat) (chr : UInt8)
    {later : Vector UInt8 size → Term → Option Term}
    (each : ∀ buffer, Uncounted (later buffer)) :
    Uncounted fun t => (Terminal.store (cells t) (i t) chr).bind fun buffer => later buffer t := by
  intro t after ran
  obtain ⟨buffer, -, ends⟩ := Option.bind_eq_some_iff.mp ran
  exact each buffer t after ends

theorem inputBackspace : Uncounted Term.inputBackspace := by
  have blanked : Uncounted fun t => (t.poke t.cursorX t.cursorY 0).map Term.savePrevCursor :=
    (poke Term.cursorX Term.cursorY 0).map fun _ => rfl
  refine .ite (store _ _ 0 fun buffer => ?_) (pure fun _ => rfl)
  exact .ite (.ite (blanked.placed fun _ => rfl) (pure fun _ => rfl)) (blanked.placed fun _ => rfl)

theorem appendChar (chr : UInt8) : Uncounted (Term.appendChar chr) := by
  refine .ite (store _ _ chr fun buffer => ?_) (pure fun _ => rfl)
  exact (termRenderChar chr).placed fun _ => rfl

end Uncounted

theorem Call.perform_uncounted (call : Call) : Uncounted call.perform := by
  cases call with
  | printString str => exact Uncounted.printString str
  | clearScreen | clearInputBuffer | setCommandLevel | setLastSingleKeyCommand =>
    exact Uncounted.pure fun _ => rfl

theorem performAll_uncounted (calls : List Call) : Uncounted (performAll calls) :=
  Uncounted.foldlM _ calls Call.perform_uncounted

section Input

variable {World : Type}

def KeepsCount (step : Session World → Option (Session World)) : Prop :=
  ∀ s after, step s = some after → after.term.keystrokeSeq = s.term.keystrokeSeq

theorem KeepsCount.bind {first second : Session World → Option (Session World)} (one : KeepsCount first)
    (two : KeepsCount second) : KeepsCount fun s => (first s).bind second := by
  intro s after ran
  obtain ⟨middle, begun, ended⟩ := Option.bind_eq_some_iff.mp ran
  exact (two middle after ended).trans (one s middle begun)

theorem KeepsCount.foldlM {Item : Type} (step : Session World → Item → Option (Session World))
    (items : List Item) (each : ∀ item ∈ items, KeepsCount fun s => step s item) :
    KeepsCount fun s => items.foldlM step s := by
  induction items with
  | nil =>
    intro s after ran
    obtain rfl := Option.some.inj ran
    rfl
  | cons item rest ih =>
    intro s after ran
    simp only [List.foldlM_cons] at ran
    have later := ih fun other member => each other (List.mem_cons_of_mem _ member)
    exact (each item List.mem_cons_self).bind later s after ran

theorem Uncounted.update {step : Term → Option Term} (uncounted : Uncounted step) :
    KeepsCount fun s : Session World => s.update step := by
  intro s after ran
  obtain ⟨term, stepped, rfl⟩ := Option.map_eq_some_iff.mp ran
  exact uncounted s.term term stepped

theorem handler_keepsCount {command : Command World} (only : command.OnlyCalls)
    (arg : Session World → Option Bytes) : KeepsCount fun s => command.handler (arg s) s := by
  intro s after handled
  obtain ⟨calls, world, performed⟩ := only (arg s) s
  simp only [performed] at handled
  obtain ⟨term, called, rfl⟩ := Option.map_eq_some_iff.mp handled
  exact performAll_uncounted calls s.term term called

variable (commands : List (Command World)) (listed : ∀ command ∈ commands, command.OnlyCalls)

include listed in
theorem inputSingleKey_keepsCount (chr : UInt8) (shiftKey : Bool) :
    KeepsCount (inputSingleKey commands chr shiftKey) := by
  intro s after handled
  simp only [inputSingleKey] at handled
  generalize (if shiftKey then toupper chr else tolower chr) = key at handled
  cases found : keyed commands key with
  | none =>
    simp only [found, Option.map_some] at handled
    obtain rfl := Option.some.inj handled
    rfl
  | some command =>
    simp only [found] at handled
    obtain ⟨chosen, ran, rfl⟩ := Option.map_eq_some_iff.mp handled
    exact handler_keepsCount (listed command (keyed_mem commands found)) (fun _ => none)
      { s with term := { s.term with lastSingleKeyCommand := key } } chosen ran

include listed in
theorem enterData_keepsCount : KeepsCount (enterData commands) := by
  refine (Uncounted.termRenderChar 10).update.bind fun s after handled => ?_
  cases found : keyed commands s.term.lastSingleKeyCommand with
  | none =>
    simp only [found] at handled
    obtain rfl := Option.some.inj handled
    rfl
  | some command =>
    simp only [found] at handled
    exact handler_keepsCount (listed command (keyed_mem commands found))
      (fun s => some s.term.inputBuffer.toList) s after handled

include listed in
theorem handleAll_keepsCount (named : Bytes) (arg : Session World → Bytes) :
    KeepsCount (handleAll commands named arg) :=
  KeepsCount.foldlM _ _ fun command member =>
    handler_keepsCount (listed command (List.mem_filter.mp member).1) fun s => some (arg s)

include listed in
theorem enterCommand_keepsCount : KeepsCount (enterCommand commands) := by
  intro s after handled
  simp only [enterCommand, Option.bind_eq_bind] at handled
  obtain ⟨lined, rendered, ends⟩ := Option.bind_eq_some_iff.mp handled
  obtain ⟨chosen, ran, tried⟩ := Option.bind_eq_some_iff.mp ends
  have first := (Uncounted.termRenderChar 10).update s lined rendered
  have second := handleAll_keepsCount commands listed _ _ lined chosen ran
  refine Eq.trans ?_ (second.trans first)
  have prompts : KeepsCount fun s : Session World =>
      { s with term := s.term.clearInputBuffer }.update (Term.printString (ascii "> ")) := fun s after ran =>
    (Uncounted.printString _).update { s with term := s.term.clearInputBuffer } after ran
  split at tried
  next => exact (handleAll_keepsCount commands listed [] fun s => s.term.inputBuffer.toList).bind prompts _ _ tried
  next => exact prompts chosen after tried

include listed in
theorem termInputChar_keepsCount (chr : UInt8) (shiftKey : Bool) :
    KeepsCount (termInputChar commands chr shiftKey) := by
  intro s after handled
  rw [termInputChar] at handled
  split at handled
  next => exact Uncounted.inputBackspace.update s after handled
  next =>
    cases level : s.term.commandLevel with
    | singleKey =>
      simp only [level] at handled
      exact inputSingleKey_keepsCount commands listed chr shiftKey s after handled
    | dataInput =>
      simp only [level] at handled
      split at handled
      next => exact enterData_keepsCount commands listed s after handled
      next => exact (Uncounted.appendChar chr).update s after handled
    | commandInput =>
      simp only [level] at handled
      split at handled
      next => exact enterCommand_keepsCount commands listed s after handled
      next => exact (Uncounted.appendChar chr).update s after handled

end Input

end MidiToIp.Terminal
