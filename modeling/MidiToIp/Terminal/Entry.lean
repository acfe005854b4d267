import Mathlib.Data.List.Infix
import MidiToIp.Terminal.Term

set_option autoImplicit false

namespace MidiToIp.Terminal

open Octets CString

abbrev Typed :=
  { protocol : Command.TransmissionProtocol //
    protocol.commandId = appTerminalKeystroke ∧ isEnter (keystroke protocol) = false }

abbrev Enter :=
  { protocol : Command.TransmissionProtocol //
    protocol.commandId = appTerminalKeystroke ∧ isEnter (keystroke protocol) = true }

def Typed.key (typed : Typed) : UInt8 := keystroke typed.val

def echo (before after : Term) (seen : Bytes) : Bytes :=
  if after.cursor = before.cursor then seen
  else if after.cursor + 1 = before.cursor then seen.dropLast
  else seen ++ (after.screen[after.cursor - 1]?).toList

section Entries

variable {World : Type}

def entry (commands : List (Command World)) :
    List Typed → Session World → Bytes → Option (Session World × Bytes)
  | [], s, seen => some (s, seen)
  | typed :: later, s, seen =>
    (termLoop commands typed.val s).bind fun after =>
      entry commands later after (echo s.term after.term seen)

/-- Whatever the commands are, Enter calls the handler in a state where the string in the input
buffer is what the entry shows. -/
def Saved (s : Session World) (keys : List Typed) (enter : Enter) : Prop :=
  ∃ shown seen handed, ∀ (commands : List (Command World)) (command : Command World),
    keyed commands s.term.lastSingleKeyCommand = some command →
      entry commands keys s [] = some (shown, seen) ∧
      termLoop commands enter.val shown =
        command.handler (some handed.term.inputBuffer.toList) handed ∧
      cstr handed.term.inputBuffer.toList = seen ∧ seen.length ≤ inputBufferSize - 1

end Entries

structure Opened (t : Term) : Prop where
  level : t.commandLevel = .dataInput
  inGrid : t.InGrid
  empty : t.inputLength = 0
  cleared : t.inputBuffer = .replicate inputBufferSize 0

/-- The key 0 comes last: once it is held, nothing else is appended, and no backspace is typed while
there is text before it. `text` counts the characters held and `nuls` the keys 0 behind them. -/
def NulsLast : Nat → Nat → Bytes → Prop
  | _, _, [] => True
  | text, nuls, key :: later =>
    if key = backspace then
      if nuls = 0 then NulsLast (text - 1) 0 later else text = 0 ∧ NulsLast 0 (nuls - 1) later
    else if inputBufferSize - 1 ≤ text + nuls then NulsLast text nuls later
    else if key = 0 then NulsLast text (nuls + 1) later
    else nuls = 0 ∧ NulsLast (text + 1) 0 later

instance decidableNulsLast : ∀ (text nuls : Nat) (keys : Bytes), Decidable (NulsLast text nuls keys)
  | _, _, [] => .isTrue trivial
  | text, nuls, key :: later =>
    have := decidableNulsLast (text - 1) 0 later
    have := decidableNulsLast 0 (nuls - 1) later
    have := decidableNulsLast text nuls later
    have := decidableNulsLast text (nuls + 1) later
    have := decidableNulsLast (text + 1) 0 later
    inferInstanceAs (Decidable (if key = backspace then
      if nuls = 0 then NulsLast (text - 1) 0 later else text = 0 ∧ NulsLast 0 (nuls - 1) later
      else if inputBufferSize - 1 ≤ text + nuls then NulsLast text nuls later
      else if key = 0 then NulsLast text (nuls + 1) later
      else nuls = 0 ∧ NulsLast (text + 1) 0 later))

def typeKey : Bytes × Bytes → UInt8 → Bytes × Bytes
  | (held, seen), key =>
    if key = backspace then
      if held = [] then (held, seen) else (held.dropLast, seen.dropLast)
    else if held.length < inputBufferSize - 1 then
      (held ++ [key], if key = 0 then seen else seen ++ [key])
    else (held, seen)

structure Tracks (t : Term) (held seen : Bytes) : Prop where
  level : t.commandLevel = .dataInput
  inGrid : t.InGrid
  length : t.inputLength = held.length
  room : held.length ≤ inputBufferSize - 1
  buffer : t.inputBuffer.toList = padded inputBufferSize held
  fewer : seen.length ≤ held.length
  before : seen.length ≤ t.cursor

theorem Opened.tracks {t : Term} (opened : Opened t) : Tracks t [] [] where
  level := opened.level
  inGrid := opened.inGrid
  length := opened.empty
  room := Nat.zero_le _
  buffer := by simp [opened.cleared, padded]
  fewer := Nat.le_refl _
  before := Nat.zero_le _

theorem store_inside {size : Nat} (cells : Vector UInt8 size) (i : Nat) (chr : UInt8)
    (inside : i < size) :
    ∃ after, store cells i chr = some after ∧ after.toList = cells.toList.set i chr :=
  ⟨cells.set i chr inside, by simp [store, inside], Vector.toList_set _⟩

theorem echo_still {before after : Term} (still : after.cursor = before.cursor) (seen : Bytes) :
    echo before after seen = seen := by
  rw [echo, if_pos still]

theorem echo_back {before after : Term} (back : after.cursor + 1 = before.cursor) (seen : Bytes) :
    echo before after seen = seen.dropLast := by
  rw [echo, if_neg (by omega), if_pos back]

theorem echo_put {before after : Term} {chr : UInt8} (put : Term.Put chr before after)
    (seen : Bytes) : echo before after seen = seen ++ [chr] := by
  have sizes : screenSizeX = 40 ∧ screenSize = 960 := by decide
  have moved := put.moved
  rw [echo, if_neg (by omega), if_neg (by omega), put.shown]
  rfl

theorem appendChar_tracks {t : Term} {held seen : Bytes} (tracks : Tracks t held seen) (key : UInt8)
    (inline : isEnter key = false) (other : key ≠ backspace) :
    ∃ after, t.appendChar key = some after ∧
      echo t after seen = (typeKey (held, seen) key).2 ∧
      Tracks after (typeKey (held, seen) key).1 (typeKey (held, seen) key).2 ∧
      after.lastSingleKeyCommand = t.lastSingleKeyCommand := by
  simp only [typeKey, if_neg other, Term.appendChar, tracks.length]
  by_cases room : held.length < inputBufferSize - 1
  · have inside : held.length < inputBufferSize := room.trans_le (Nat.sub_le _ _)
    obtain ⟨buffer, stored, pushed⟩ := store_inside t.inputBuffer held.length key inside
    rw [tracks.buffer, padded_push _ _ _ inside] at pushed
    have longer : held.length + 1 = (held ++ [key]).length := by simp
    have fewer := tracks.fewer
    have before := tracks.before
    simp only [if_pos room, stored, Option.bind_some]
    by_cases nul : key = 0
    · subst nul
      refine ⟨_, Term.termRenderChar_nul _, echo_still rfl seen, ?_, rfl⟩
      exact
        { level := tracks.level
          inGrid := Term.InGrid.savePrevCursor ⟨tracks.inGrid.x, tracks.inGrid.y,
            tracks.inGrid.prevX, tracks.inGrid.prevY⟩
          length := longer
          room := longer ▸ room
          buffer := pushed
          fewer := by simp only [if_true]; omega
          before := before }
    · have inGrid : Term.InGrid { t with inputBuffer := buffer, inputLength := held.length + 1 } :=
        ⟨tracks.inGrid.x, tracks.inGrid.y, tracks.inGrid.prevX, tracks.inGrid.prevY⟩
      obtain ⟨after, rendered, put⟩ := Term.termRenderChar_put key inGrid nul inline
      have shown := echo_put put seen
      have moved := put.moved
      have sizes : screenSizeX = 40 ∧ screenSize = 960 ∧ inputBufferSize = 256 := by decide
      simp only [if_neg nul]
      refine ⟨after, rendered, shown, ?_, put.sameInput.single⟩
      exact
        { level := put.sameInput.level.trans tracks.level
          inGrid := put.inGrid
          length := put.sameInput.length.trans longer
          room := longer ▸ room
          buffer := by rw [put.sameInput.buffer, pushed]
          fewer := by simp; omega
          before := by
            change _ = t.cursor + 1 ∨ t.cursor = _ ∧ _ at moved
            rw [List.length_append, List.length_singleton]
            omega }
  · simp only [if_neg room]
    exact ⟨t, rfl, echo_still rfl seen, tracks, rfl⟩

theorem erased_tracks {t : Term} {held seen : Bytes} (tracks : Tracks t held seen) (moved : Term)
    (grid : moved.InGrid) (back : moved.cursor + 1 = t.cursor)
    (level : moved.commandLevel = t.commandLevel)
    (single : moved.lastSingleKeyCommand = t.lastSingleKeyCommand)
    (length : moved.inputLength = held.length - 1)
    (popped : moved.inputBuffer.toList = padded inputBufferSize held.dropLast) :
    ∃ after, (moved.poke moved.cursorX moved.cursorY 0).map Term.savePrevCursor = some after ∧
      echo t after seen = seen.dropLast ∧ Tracks after held.dropLast seen.dropLast ∧
      after.lastSingleKeyCommand = t.lastSingleKeyCommand := by
  obtain ⟨after, poked, stays, inGrid, same⟩ := Term.poke_cursor grid
  have room := tracks.room
  have fewer := tracks.fewer
  have before := tracks.before
  refine ⟨after, poked, echo_back (by omega) seen, ?_, same.single.trans single⟩
  exact
    { level := same.level.trans (level.trans tracks.level)
      inGrid := inGrid
      length := by rw [same.length, length, List.length_dropLast]
      room := by rw [List.length_dropLast]; omega
      buffer := by rw [same.buffer, popped]
      fewer := by rw [List.length_dropLast, List.length_dropLast]; omega
      before := by rw [List.length_dropLast]; omega }

theorem inputBackspace_tracks {t : Term} {held seen : Bytes} (tracks : Tracks t held seen) :
    ∃ after, t.inputBackspace = some after ∧
      echo t after seen = (typeKey (held, seen) backspace).2 ∧
      Tracks after (typeKey (held, seen) backspace).1 (typeKey (held, seen) backspace).2 ∧
      after.lastSingleKeyCommand = t.lastSingleKeyCommand := by
  simp only [typeKey, if_true, Term.inputBackspace, tracks.length]
  by_cases none_ : held = []
  · subst none_
    refine ⟨_, rfl, echo_still rfl seen, ?_, rfl⟩
    exact { tracks with inGrid := tracks.inGrid.savePrevCursor }
  · have some_ : held.length > 0 := List.length_pos_iff.mpr none_
    have inside : held.length ≤ inputBufferSize := tracks.room.trans (Nat.sub_le _ _)
    obtain ⟨buffer, stored, popped⟩ := store_inside t.inputBuffer (held.length - 1) 0 (by omega)
    rw [tracks.buffer, padded_pop _ _ inside none_] at popped
    have inX := tracks.inGrid.x
    have inY := tracks.inGrid.y
    have last : screenSizeX - 1 < screenSizeX := by decide
    simp only [if_pos some_, if_neg none_, stored, Option.bind_some]
    by_cases left : t.cursorX = 0
    · rw [if_pos left]
      by_cases below : t.cursorY > 0
      · rw [if_pos below]
        refine erased_tracks tracks _ ⟨last, (Nat.sub_le _ _).trans_lt inY, tracks.inGrid.prevX,
          tracks.inGrid.prevY⟩ ?_ rfl rfl rfl popped
        simp only [Term.cursor, screenSizeX]
        omega
      · -- The top left corner: nothing was shown, so nothing can be taken back.
        rw [if_neg below]
        have corner : t.cursor = 0 := by
          simp only [Term.cursor, screenSizeX]
          omega
        have before := tracks.before
        obtain rfl : seen = [] := List.length_eq_zero_iff.mp (by omega)
        refine ⟨_, rfl, echo_still rfl [], ?_, rfl⟩
        exact
          { level := tracks.level
            inGrid := ⟨inX, inY, tracks.inGrid.prevX, tracks.inGrid.prevY⟩
            length := List.length_dropLast.symm
            room := (List.length_dropLast.trans_le (Nat.sub_le _ _)).trans tracks.room
            buffer := popped
            fewer := Nat.zero_le _
            before := Nat.zero_le _ }
    · rw [if_neg left]
      refine erased_tracks tracks _ ⟨(Nat.sub_le _ _).trans_lt inX, inY, tracks.inGrid.prevX,
        tracks.inGrid.prevY⟩ ?_ rfl rfl rfl popped
      simp only [Term.cursor]
      omega

theorem termInputChar_tracks {World : Type} (s : Session World) (held seen : Bytes)
    (tracks : Tracks s.term held seen) (key : UInt8) (shifted : Bool) (inline : isEnter key = false) :
    ∃ after,
      (∀ commands, termInputChar commands key shifted s = some { s with term := after }) ∧
      echo s.term after seen = (typeKey (held, seen) key).2 ∧
      Tracks after (typeKey (held, seen) key).1 (typeKey (held, seen) key).2 ∧
      after.lastSingleKeyCommand = s.term.lastSingleKeyCommand := by
  unfold termInputChar
  by_cases erases : key = backspace
  · subst erases
    obtain ⟨after, input, rest⟩ := inputBackspace_tracks tracks
    exact ⟨after, fun _ => by simp [Session.update, input], rest⟩
  · obtain ⟨after, input, rest⟩ := appendChar_tracks tracks key inline erases
    exact ⟨after, fun _ => by simp [erases, tracks.level, inline, Session.update, input], rest⟩

theorem termInputChar_enter {World : Type} (commands : List (Command World)) (s : Session World)
    (key : UInt8) (shifted : Bool) (level : s.term.commandLevel = .dataInput)
    (enter : isEnter key = true) : termInputChar commands key shifted s = enterData commands s := by
  have other : key ≠ backspace := by
    rintro rfl
    exact absurd enter (by decide)
  simp only [termInputChar, if_neg other, level, enter, if_true]

theorem enterData_handled {World : Type} (s : Session World) (grid : s.term.InGrid) :
    ∃ handed : Session World, s.term.SameInput handed.term ∧ handed.term.InGrid ∧
      handed.world = s.world ∧
      ∀ (commands : List (Command World)) (command : Command World),
        keyed commands s.term.lastSingleKeyCommand = some command →
          enterData commands s = command.handler (some handed.term.inputBuffer.toList) handed := by
  obtain ⟨after, rendered, inGrid, same⟩ := Term.termRenderChar_output 10 s.term grid
  refine ⟨{ s with term := after }, same, inGrid, rfl, ?_⟩
  intro commands command opener
  have newLine : s.update (Term.termRenderChar 10) = some { s with term := after } := by
    rw [Session.update, rendered, Option.map_some]
  have single : keyed commands after.lastSingleKeyCommand = some command := by
    rw [same.single, opener]
  rw [enterData, newLine, Option.bind_some]
  simp only [single]

def Session.counted {World : Type} (s : Session World) : Session World :=
  { s with term := { s.term with keystrokeSeq := s.term.keystrokeSeq + 1 } }

theorem termLoop_keystroke {World : Type} (commands : List (Command World)) (s : Session World)
    (protocol : Command.TransmissionProtocol) (key : protocol.commandId = appTerminalKeystroke) :
    termLoop commands protocol s =
      termInputChar commands (keystroke protocol) (shiftKey protocol ≠ 0) s.counted := by
  have other : appTerminalKeystroke ≠ appTerminalStart := by decide
  rw [termLoop, key, if_neg other, if_pos rfl]
  rfl

theorem Tracks.counted {World : Type} {s : Session World} {held seen : Bytes}
    (tracks : Tracks s.term held seen) : Tracks s.counted.term held seen :=
  { tracks with inGrid := ⟨tracks.inGrid.x, tracks.inGrid.y, tracks.inGrid.prevX, tracks.inGrid.prevY⟩ }

theorem entry_tracks {World : Type} (keys : List Typed) (s : Session World) (held seen : Bytes)
    (tracks : Tracks s.term held seen) :
    ∃ after,
      (∀ commands, entry commands keys s seen =
        some ({ s with term := after }, ((keys.map Typed.key).foldl typeKey (held, seen)).2)) ∧
      Tracks after ((keys.map Typed.key).foldl typeKey (held, seen)).1
        ((keys.map Typed.key).foldl typeKey (held, seen)).2 ∧
      after.lastSingleKeyCommand = s.term.lastSingleKeyCommand := by
  induction keys generalizing s held seen with
  | nil => exact ⟨s.term, fun _ => rfl, tracks, rfl⟩
  | cons typed later ih =>
    obtain ⟨now, input, echoed, nowTracks, nowSingle⟩ := termInputChar_tracks s.counted held seen
      tracks.counted typed.key (shiftKey typed.val ≠ 0) typed.property.2
    obtain ⟨after, typing, afterTracks, single⟩ := ih { s with term := now } _ _ nowTracks
    refine ⟨after, fun commands => ?_, afterTracks, single.trans nowSingle⟩
    have step : termLoop commands typed.val s = some { s with term := now } := by
      rw [termLoop_keystroke commands s typed.val typed.property.1]
      exact input commands
    rw [entry, step, Option.bind_some]
    change entry commands later _ (echo s.counted.term now seen) = _
    rw [echoed]
    exact typing commands

theorem cstr_nuls (text : Bytes) (nuls : Nat) (solid : ∀ b ∈ text, b ≠ 0) :
    cstr (text ++ List.replicate nuls 0) = text := by
  cases nuls with
  | zero => rw [List.replicate_zero, List.append_nil, cstr_self _ solid]
  | succ nuls => rw [List.replicate_succ, cstr_append_nul _ _ solid]

theorem typeKey_back (text : Bytes) :
    typeKey (text ++ List.replicate 0 0, text) backspace =
      (text.dropLast ++ List.replicate 0 0, text.dropLast) := by
  by_cases empty : text = [] <;> simp [typeKey, empty]

theorem typeKey_backNul (text : Bytes) (nuls : Nat) :
    typeKey (text ++ List.replicate (nuls + 1) 0, text) backspace =
      (text ++ List.replicate nuls 0, text.dropLast) := by
  simp [typeKey, List.replicate_succ', ← List.append_assoc]

theorem typeKey_full (text : Bytes) (nuls : Nat) (key : UInt8) (other : key ≠ backspace)
    (full : inputBufferSize - 1 ≤ text.length + nuls) :
    typeKey (text ++ List.replicate nuls 0, text) key = (text ++ List.replicate nuls 0, text) := by
  have held : (text ++ List.replicate nuls 0).length = text.length + nuls := by simp
  simp only [typeKey, if_neg other, held, if_neg full.not_gt]

theorem typeKey_push (text : Bytes) (nuls : Nat) (key : UInt8) (other : key ≠ backspace)
    (room : ¬ inputBufferSize - 1 ≤ text.length + nuls) :
    typeKey (text ++ List.replicate nuls 0, text) key =
      (text ++ List.replicate nuls 0 ++ [key], if key = 0 then text else text ++ [key]) := by
  have held : (text ++ List.replicate nuls 0).length = text.length + nuls := by simp
  simp only [typeKey, if_neg other, held, if_pos (Nat.lt_of_not_ge room)]

theorem forall_prefix_cons (p : Bytes → Prop) (key : UInt8) (later : Bytes) :
    (∀ typed, typed <+: key :: later → p typed) ↔
      p [] ∧ ∀ typed, typed <+: later → p (key :: typed) := by
  simp only [List.prefix_cons_iff]
  constructor
  · exact fun all => ⟨all [] (.inl rfl), fun typed part => all _ (.inr ⟨typed, rfl, part⟩)⟩
  · rintro ⟨empty, rest⟩ typed (rfl | ⟨typed, rfl, part⟩)
    · exact empty
    · exact rest typed part

theorem nulsLast_iff (keys text : Bytes) (nuls : Nat) (solid : ∀ b ∈ text, b ≠ 0) :
    (∀ typed, typed <+: keys →
      cstr (typed.foldl typeKey (text ++ List.replicate nuls 0, text)).1 =
        (typed.foldl typeKey (text ++ List.replicate nuls 0, text)).2) ↔
      NulsLast text.length nuls keys := by
  induction keys generalizing text nuls with
  | nil => simp [NulsLast, cstr_nuls text nuls solid]
  | cons key later ih =>
    rw [forall_prefix_cons, NulsLast]
    simp only [List.foldl_nil, List.foldl_cons, cstr_nuls text nuls solid, true_and]
    by_cases erases : key = backspace
    · subst erases
      rw [if_pos rfl]
      cases nuls with
      | zero =>
        have rest := ih text.dropLast 0 fun b member => solid b (List.mem_of_mem_dropLast member)
        rw [if_pos rfl, typeKey_back, rest, List.length_dropLast]
      | succ nuls =>
        rw [if_neg (Nat.succ_ne_zero nuls), typeKey_backNul]
        constructor
        · intro all
          -- The backspace takes a character that is still held off the screen, unless there is none.
          have now := all [] List.nil_prefix
          rw [List.foldl_nil, cstr_nuls text nuls solid] at now
          have length := congrArg List.length now
          rw [List.length_dropLast] at length
          obtain rfl : text = [] := List.length_eq_zero_iff.mp (by omega)
          exact ⟨rfl, (ih [] nuls solid).mp all⟩
        · rintro ⟨empty, rest⟩
          obtain rfl := List.length_eq_zero_iff.mp empty
          exact (ih [] nuls solid).mpr rest
    · rw [if_neg erases]
      by_cases full : inputBufferSize - 1 ≤ text.length + nuls
      · rw [if_pos full, typeKey_full text nuls key erases full]
        exact ih text nuls solid
      · rw [if_neg full, typeKey_push text nuls key erases full]
        by_cases nul : key = 0
        · subst nul
          rw [if_pos rfl, if_pos rfl, List.append_assoc, ← List.replicate_succ']
          exact ih text (nuls + 1) solid
        · rw [if_neg nul, if_neg nul]
          cases nuls with
          | zero =>
            have longer : ∀ b ∈ text ++ [key], b ≠ 0 := by
              intro b member
              rcases List.mem_append.mp member with front | back
              · exact solid b front
              · rwa [List.mem_singleton.mp back]
            have rest := ih (text ++ [key]) 0 longer
            rw [List.replicate_zero, List.append_nil] at rest ⊢
            rw [rest, List.length_append, List.length_singleton]
            simp
          | succ nuls =>
            constructor
            · intro all
              -- The key is seen, but it is held behind a NUL.
              have now := all [] List.nil_prefix
              rw [List.foldl_nil, List.replicate_succ, List.append_assoc, List.cons_append,
                cstr_append_nul _ _ solid] at now
              simp at now
            · rintro ⟨none_, -⟩
              cases none_

theorem entry_handed {World : Type} (s : Session World) (opened : Opened s.term) (keys : List Typed)
    (enter : Enter) :
    ∃ shown handed : Session World,
      (∀ commands, entry commands keys s [] =
        some (shown, ((keys.map Typed.key).foldl typeKey ([], [])).2)) ∧
      (∀ (commands : List (Command World)) (command : Command World),
        keyed commands s.term.lastSingleKeyCommand = some command →
          termLoop commands enter.val shown =
            command.handler (some handed.term.inputBuffer.toList) handed) ∧
      cstr handed.term.inputBuffer.toList = cstr ((keys.map Typed.key).foldl typeKey ([], [])).1 ∧
      ((keys.map Typed.key).foldl typeKey ([], [])).2.length ≤ inputBufferSize - 1 ∧
      handed.term.commandLevel = .dataInput ∧ handed.term.InGrid ∧ handed.world = s.world := by
  obtain ⟨after, typing, tracks, single⟩ := entry_tracks keys s [] [] opened.tracks
  have counted : Tracks (Session.counted { s with term := after }).term _ _ := tracks.counted
  obtain ⟨handed, same, inGrid, world, enters⟩ :=
    enterData_handled (Session.counted { s with term := after }) counted.inGrid
  refine ⟨{ s with term := after }, handed, typing, ?_, ?_, tracks.fewer.trans tracks.room,
    same.level.trans counted.level, inGrid, world⟩
  · intro commands command opener
    rw [termLoop_keystroke commands _ enter.val enter.property.1,
      termInputChar_enter commands _ _ _ counted.level enter.property.2]
    refine enters commands command ?_
    rw [← opener]
    exact congrArg (keyed commands) single
  · rw [same.buffer, counted.buffer, cstr_padded _ _ (tracks.room.trans_lt (by decide))]

theorem saved_iff_cstr {World : Type} (s : Session World) (opened : Opened s.term)
    (keys : List Typed) (enter : Enter) :
    Saved s keys enter ↔
      cstr ((keys.map Typed.key).foldl typeKey ([], [])).1 =
        ((keys.map Typed.key).foldl typeKey ([], [])).2 := by
  obtain ⟨shown, handed, typing, ends, read, short, -⟩ := entry_handed s opened keys enter
  constructor
  · rintro ⟨shown, seen, reader, saved⟩
    -- A handler that leaves the state as it is tells which state it was called in.
    let reading : Command World := ⟨[s.term.lastSingleKeyCommand], fun _ s => some s⟩
    have opener : keyed [reading] s.term.lastSingleKeyCommand = some reading := by
      simp [keyed, Command.initial, reading]
    obtain ⟨entered, handled, text, -⟩ := saved [reading] reading opener
    rw [typing, Option.some.injEq, Prod.mk.injEq] at entered
    obtain ⟨rfl, rfl⟩ := entered
    rw [ends [reading] reading opener] at handled
    obtain rfl := Option.some.inj handled
    rw [← read, text]
  · intro equal
    exact ⟨shown, _, handed, fun commands command opener =>
      ⟨typing commands, ends commands command opener, read.trans equal, short⟩⟩

theorem saved_iff {World : Type} (s : Session World) (opened : Opened s.term) (keys : List Typed)
    (enter : Enter) :
    (∀ typed, typed <+: keys → Saved s typed enter) ↔ NulsLast 0 0 (keys.map Typed.key) := by
  have last := nulsLast_iff (keys.map Typed.key) [] 0 (by simp)
  rw [List.length_nil] at last
  simp only [← last, saved_iff_cstr s opened, List.prefix_map_iff]
  constructor
  · rintro all _ ⟨typed, part, rfl⟩
    exact all typed part
  · exact fun all typed part => all _ ⟨typed, part, rfl⟩

def press (key : UInt8) : Command.TransmissionProtocol where
  commandId := appTerminalKeystroke
  payloadSize := 8
  payload i := if i = 2 then key.toUInt16 else 0

def enterKey : Enter := ⟨press 13, by decide⟩

def hostEntry : Session Unit :=
  ⟨{ commandLevel := .dataInput, lastSingleKeyCommand := 104 }, ()⟩

theorem hostEntry_opened : Opened hostEntry.term :=
  ⟨rfl, ⟨by decide, by decide, by decide, by decide⟩, rfl, rfl⟩

theorem saved_corrected :
    Saved hostEntry [⟨press 97, by decide⟩, ⟨press 8, by decide⟩, ⟨press 98, by decide⟩,
      ⟨press 0, by decide⟩] enterKey :=
  (saved_iff hostEntry hostEntry_opened [⟨press 97, by decide⟩, ⟨press 8, by decide⟩,
    ⟨press 98, by decide⟩, ⟨press 0, by decide⟩] enterKey).mpr (by decide) _ List.prefix_rfl

-- A cursor key between two letters: the second one is shown and not read.
theorem cursorKey_hides :
    ¬ ∀ (World : Type) (s : Session World) (keys : List Typed) (enter : Enter),
      Opened s.term → Saved s keys enter := by
  intro saved
  have read := (saved_iff_cstr hostEntry hostEntry_opened
    [⟨press 97, by decide⟩, ⟨press 0, by decide⟩, ⟨press 98, by decide⟩] enterKey).mp
    (saved Unit hostEntry _ enterKey hostEntry_opened)
  exact absurd read (by decide)

end MidiToIp.Terminal
