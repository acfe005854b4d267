import MidiToIp.Command.Acknowledge
import MidiToIp.Command.Launch

set_option autoImplicit false

namespace MidiToIp.Command

open Machines

abbrev RomInRam := Nat → UInt16

-- `WRITE_AND_SWAP_LONGWORD`; a store that is not aligned faults.
def writeAndSwapLongword (offset : UInt32) (data : UInt32) (rom : RomInRam) : Option RomInRam :=
  if offset &&& 3 = 0 then
    some (Function.update (Function.update rom (offset.toNat / 2) (lowWord (swapHalves data)))
      (offset.toNat / 2 + 1) (highWord (swapHalves data)))
  else none

-- `move.l` from an address of the cartridge.
def moveLong (rom : RomInRam) (address : UInt32) : UInt32 :=
  let word := (address &&& 0xFFFF).toNat / 2
  (rom word).toUInt32 <<< 16 ||| (rom (word + 1)).toUInt32

def appMidi : UInt16 := 0x03

def payloadParam32 (payload : Nat → UInt16) : UInt32 := (payload 1).toUInt32 <<< 16 ||| (payload 0).toUInt32

def midiCommandCb (protocol : TransmissionProtocol) (rom : RomInRam) : Option RomInRam :=
  let payload := fun i => protocol.payload (i + 2)
  if (protocol.commandId >>> 8) &&& 0xFF ≠ appMidi then some rom
  else if protocol.commandId = cmdMidiSaveVector then
    let oldVector := payloadParam32 payload
    let xbraFieldAddr := payloadParam32 fun i => payload (i + 2)
    writeAndSwapLongword (xbraFieldAddr &&& 0xFFFF) oldVector rom
  else some rom

-- `bios_xbra_old`, by the location counter ahead of the header.
def biosXbraOld (here : UInt32) : UInt32 := here + ((4 - (here &&& 3)) &&& 3) + 8

def midiDev : UInt16 := 3
def bconstat : UInt16 := 1
def bconin : UInt16 := 2
def bconout : UInt16 := 3
def longframe : UInt32 := 0x59E

structure Trap where
  sp : UInt32
  usp : UInt32
  word : UInt32 → UInt16

inductive Service where
  | chain (vector : UInt32)
  | bconstat
  | bconin
  | bconout (byte : UInt8)
  deriving DecidableEq, Repr

namespace Trap

def supervisor (t : Trap) : Bool := t.word t.sp &&& 0x2000 ≠ 0

-- Exceptions push a format word past a 68000.
def isLong (t : Trap) : Bool := t.word longframe ≠ 0

def a0 (t : Trap) : UInt32 :=
  let cpu := if t.supervisor then t.sp else t.usp - 6
  if t.isLong then cpu + 2 else cpu

def midiBiosTrap (rom : RomInRam) (old : UInt32) (t : Trap) : Service :=
  if t.word (t.a0 + 8) ≠ midiDev then .chain (moveLong rom old)
  else if t.word (t.a0 + 6) = Command.bconout then .bconout (t.word (t.a0 + 10)).toUInt8
  else if t.word (t.a0 + 6) = Command.bconin then .bconin
  else if t.word (t.a0 + 6) = Command.bconstat then .bconstat
  else .chain (moveLong rom old)

def argument (t : Trap) (i : Nat) : UInt16 :=
  let stack := if t.supervisor then t.sp + (if t.isLong then 8 else 6) else t.usp
  t.word (stack + 2 * UInt32.ofNat i)

-- The arguments that the handler passes by: the format word is on the stack of the supervisor only.
def passed (t : Trap) : Nat := if t.isLong && !t.supervisor then 1 else 0

end Trap

def requested (vector : UInt32) (function device char : UInt16) : Service :=
  if device = midiDev ∧ function = bconout then .bconout char.toUInt8
  else if device = midiDev ∧ function = bconin then .bconin
  else if device = midiDev ∧ function = bconstat then .bconstat
  else .chain vector

theorem argument_passed (t : Trap) (i : Nat) :
    t.argument (t.passed + i) = t.word (t.a0 + 6 + 2 * UInt32.ofNat i) := by
  cases long : t.isLong <;> cases mode : t.supervisor <;>
    simp only [Trap.argument, Trap.passed, Trap.a0, long, mode, Bool.not_true, Bool.not_false, Bool.and_true,
      Bool.and_false, Bool.false_eq_true, if_true, if_false, Nat.zero_add, UInt32.ofNat_add] <;>
    congr 1 <;> grind

theorem midiBiosTrap_requested (rom : RomInRam) (old : UInt32) (t : Trap) :
    t.midiBiosTrap rom old =
      requested (moveLong rom old) (t.argument t.passed) (t.argument (t.passed + 1)) (t.argument (t.passed + 2)) := by
  have function : t.argument t.passed = t.word (t.a0 + 6) := by
    have here := argument_passed t 0
    rwa [Nat.add_zero, show 2 * UInt32.ofNat 0 = 0 from rfl, UInt32.add_zero] at here
  have device : t.argument (t.passed + 1) = t.word (t.a0 + 8) := by
    rw [argument_passed, UInt32.add_assoc]
    rfl
  have char : t.argument (t.passed + 2) = t.word (t.a0 + 10) := by
    rw [argument_passed, UInt32.add_assoc]
    rfl
  unfold Trap.midiBiosTrap requested
  rw [function, device, char]
  by_cases midi : t.word (t.a0 + 8) = midiDev
  · rw [if_neg (not_not.mpr midi)]
    simp only [midi, true_and]
  · rw [if_pos midi]
    simp only [midi, false_and, if_false]

theorem word_low (long : UInt32) : lowWord (swapHalves long) = highWord long := by
  apply UInt16.toBitVec_inj.mp
  apply BitVec.eq_of_getLsbD_eq
  intro i inside
  simp only [lowWord, highWord, UInt32.toBitVec_toUInt16, UInt32.toBitVec_shiftRight, BitVec.getLsbD_setWidth,
    getLsbD_swapHalves]
  simp [inside]

theorem word_high (long : UInt32) : highWord (swapHalves long) = lowWord long := by
  have swapped := word_low (swapHalves long)
  rw [swapHalves_swapHalves] at swapped
  exact swapped.symm

section Saved

variable (here vector : UInt32) (rom : RomInRam)

theorem biosXbraOld_aligned : biosXbraOld here &&& 0xFFFF &&& 3 = 0 := by
  apply UInt32.toNat_inj.mp
  have mask (n : Nat) : n &&& 3 = n % 4 := Nat.and_two_pow_sub_one_eq_mod n 2
  have wide (n : Nat) : n &&& 65535 = n % 65536 := Nat.and_two_pow_sub_one_eq_mod n 16
  simp only [biosXbraOld, UInt32.toNat_and, UInt32.toNat_add, UInt32.toNat_sub, UInt32.reduceToNat, mask, wide]
  omega

def fieldWord : Nat := (biosXbraOld here &&& 0xFFFF).toNat / 2

def saved : RomInRam :=
  Function.update (Function.update rom (fieldWord here) (lowWord (swapHalves vector))) (fieldWord here + 1)
    (highWord (swapHalves vector))

theorem write_saved :
    writeAndSwapLongword (biosXbraOld here &&& 0xFFFF) vector rom = some (saved here vector rom) :=
  if_pos (biosXbraOld_aligned here)

theorem moveLong_saved : moveLong (saved here vector rom) (biosXbraOld here) = vector := by
  have low : saved here vector rom (fieldWord here) = highWord vector := by
    rw [saved, Function.update_of_ne (by omega), Function.update_self, word_low]
  have high : saved here vector rom (fieldWord here + 1) = lowWord vector := by
    rw [saved, Function.update_self, word_high]
  change (saved here vector rom (fieldWord here)).toUInt32 <<< 16 |||
    (saved here vector rom (fieldWord here + 1)).toUInt32 = vector
  rw [low, high, UInt32.or_comm, words_long]

theorem saved_saved : saved here vector (saved here vector rom) = saved here vector rom := by
  funext i
  unfold saved
  by_cases second : i = fieldWord here + 1
  · subst second
    rw [Function.update_self, Function.update_self]
  · rw [Function.update_of_ne second]
    by_cases first : i = fieldWord here
    · subst first
      rw [Function.update_self, Function.update_of_ne second, Function.update_self]
    · rw [Function.update_of_ne first]

theorem saved_other (i : Nat) (first : i ≠ fieldWord here) (second : i ≠ fieldWord here + 1) :
    saved here vector rom i = rom i := by
  rw [saved, Function.update_of_ne second, Function.update_of_ne first]

end Saved

def Saves (here vector : UInt32) (command : SyncCommand) : Prop :=
  command.d0 = cmdMidiSaveVector → command.d1 = 8 ∧ command.d3 = vector ∧ command.d4 = biosXbraOld here

instance (here vector : UInt32) (command : SyncCommand) : Decidable (Saves here vector command) :=
  inferInstanceAs (Decidable (_ → _))

theorem TransmissionProtocol.Carries.payload {t : TransmissionProtocol} {command : SyncCommand}
    (carries : t.Carries command.frame) (i : Nat) (inside : i < command.sentWords.length) :
    t.payload i = command.sentWords.getD i 0 := by
  have words : t.words = command.sentWords := carries.words
  have half : t.payloadSize.toNat / 2 = command.sentWords.length := by
    rw [← words, TransmissionProtocol.words, List.length_map, List.length_range]
  rw [← words, TransmissionProtocol.words, half]
  simp [inside]

theorem midiCommandCb_saves {here vector : UInt32} {t : TransmissionProtocol} {command : SyncCommand}
    (carries : t.Carries command.frame) (saves : Saves here vector command) (rom : RomInRam) :
    midiCommandCb t rom =
      some (if command.d0 = cmdMidiSaveVector then saved here vector rom else rom) := by
  have id : t.commandId = command.d0 := carries.commandId
  unfold midiCommandCb
  dsimp only
  rw [id]
  by_cases saving : command.d0 = cmdMidiSaveVector
  · obtain ⟨d1, d3, d4⟩ := saves saving
    have sent : command.sentWords = command.words.take 6 := by
      rw [command.sentWords_eq, d1]
      rfl
    have stored (i : Nat) (inside : i < 6) : t.payload i = (command.words.take 6).getD i 0 := by
      rw [carries.payload i (by rw [sent]; exact inside), sent]
    have param (register : UInt32) {i : Nat} (low : t.payload i = lowWord register)
        (high : t.payload (i + 1) = highWord register) :
        (t.payload (i + 1)).toUInt32 <<< 16 ||| (t.payload i).toUInt32 = register := by
      rw [low, high, UInt32.or_comm, words_long]
    have oldVector : payloadParam32 (fun i => t.payload (i + 2)) = vector := by
      rw [← d3]
      exact param command.d3 (i := 2) (stored 2 (by decide)) (stored 3 (by decide))
    have field : payloadParam32 (fun i => t.payload (i + 2 + 2)) = biosXbraOld here := by
      rw [← d4]
      exact param command.d4 (i := 4) (stored 4 (by decide)) (stored 5 (by decide))
    rw [oldVector, field, write_saved, saving, if_neg (by decide), if_pos rfl, if_pos rfl]
  · rw [if_neg saving, if_neg saving, ite_self]

structure Cartridge where
  exchange : Exchange
  rom : RomInRam
  hooked : Bool := false

inductive CartridgeLabel where
  | command (label : ExchangeLabel)
  | setexc

namespace Cartridge

def dispatched (e : Exchange) : ExchangeLabel → Option TransmissionProtocol
  | .dispatch => e.rp.dispatch.2
  | _ => none

def call (t : Option TransmissionProtocol) (rom : RomInRam) : Option RomInRam :=
  t.elim (some rom) fun t => midiCommandCb t rom

def saveReturned : Caller → Bool
  | .returned command ok => ok && command.d0 = cmdMidiSaveVector
  | _ => false

def next (c : Cartridge) : CartridgeLabel → Option Cartridge
  | .command label =>
    (c.exchange.next label).bind fun exchange =>
      (call (dispatched c.exchange label) c.rom).map fun rom => { c with exchange := exchange, rom := rom }
  | .setexc => if saveReturned c.exchange.caller then some { c with hooked := true } else none

-- Tokens are not shared, and `userfw` is the only caller of the save.
def installs (here vector : UInt32) (c : Cartridge) : CartridgeLabel → Prop
  | .command label =>
    ownTokens c.exchange label ∧
      match label with
      | .issue command => Saves here vector command
      | _ => True
  | .setexc => True

end Cartridge

instance (here vector : UInt32) (c : Cartridge) : (label : CartridgeLabel) → Decidable (c.installs here vector label)
  | .command (.issue command) =>
    inferInstanceAs (Decidable (ownTokens c.exchange (.issue command) ∧ Saves here vector command))
  | .command .word => inferInstanceAs (Decidable (ownTokens c.exchange .word ∧ True))
  | .command .readToken => inferInstanceAs (Decidable (ownTokens c.exchange .readToken ∧ True))
  | .command .readSeed => inferInstanceAs (Decidable (ownTokens c.exchange .readSeed ∧ True))
  | .command .timeout => inferInstanceAs (Decidable (ownTokens c.exchange .timeout ∧ True))
  | .command (.poll timers) => inferInstanceAs (Decidable (ownTokens c.exchange (.poll timers) ∧ True))
  | .command .dispatch => inferInstanceAs (Decidable (ownTokens c.exchange .dispatch ∧ True))
  | .setexc => .isTrue trivial

def cartridge : Machine Cartridge CartridgeLabel := ⟨Cartridge.next⟩

def Caller.command? : Caller → Option SyncCommand
  | .idle => none
  | .sending command _ _ | .polling command _ | .matched command _ | .returned command _ => some command

structure Only (allowed : SyncCommand → Prop) (e : Exchange) : Prop where
  caller : ∀ command ∈ e.caller.command?, allowed command
  ring : ∀ x ∈ e.ring, allowed x.command
  pending : e.rp.protocolPending = true →
    ∃ command, allowed command ∧ e.rp.pendingProtocol.Carries command.frame

theorem beginTry_only {allowed : SyncCommand → Prop} {e : Exchange} {command : SyncCommand} {tries : Nat}
    {given : List TransmissionProtocol}
    (retoken : ∀ command token, allowed command → allowed { command with d2 := token })
    (only : Only allowed e) (fair : allowed command) :
    Only allowed ({ e with dispatched := given }.beginTry command tries) where
  caller other member := by
    obtain rfl := Option.some.inj member
    exact retoken command _ fair
  ring := only.ring
  pending := only.pending

theorem next_only {allowed : SyncCommand → Prop} {e after : Exchange} {label : ExchangeLabel}
    (retoken : ∀ command token, allowed command → allowed { command with d2 := token })
    (issued : ∀ command, label = .issue command → allowed command) (sound : e.Sound) (meets : ownTokens e label)
    (only : Only allowed e) (step : e.next label = some after) : Only allowed after := by
  have moved (caller : Caller) (same : ∀ command ∈ caller.command?, allowed command) :
      Only allowed { e with caller := caller } := ⟨same, only.ring, only.pending⟩
  cases label with
  | issue command =>
    simp only [Exchange.next, Option.ite_none_right_eq_some, Option.some.injEq] at step
    obtain ⟨-, rfl⟩ := step
    exact beginTry_only retoken only (issued command rfl)
  | word =>
    simp only [Exchange.next] at step
    split at step
    next command sent tries here =>
      obtain rfl := Option.some.inj step
      have fair : allowed command := only.caller command (by rw [here]; rfl)
      refine ⟨fun other member => ?_, fun x member => ?_, only.pending⟩
      · have same : (Caller.sentUpTo command (sent + 1) tries).command? = some command := by
          unfold Caller.sentUpTo
          split <;> rfl
        rw [same] at member
        exact Option.some.inj member ▸ fair
      · have captured_ : capture (⟨command, sent⟩ : Piece) e.ring = e.ring ++ [⟨command, sent⟩] := if_neg meets
        rw [captured_] at member
        rcases List.mem_append.mp member with old | new
        · exact only.ring x old
        · rw [List.mem_singleton.mp new]
          exact fair
    next => cases step
  | readToken =>
    simp only [Exchange.next] at step
    split at step
    next command tries here =>
      have fair : allowed command := only.caller command (by rw [here]; rfl)
      split at step
      · obtain rfl := Option.some.inj step
        exact moved _ fun other member => Option.some.inj member ▸ fair
      · exact Option.some.inj step ▸ only
    next => cases step
  | readSeed =>
    simp only [Exchange.next] at step
    split at step
    next command tries here =>
      have fair : allowed command := only.caller command (by rw [here]; rfl)
      split at step
      · obtain rfl := Option.some.inj step
        exact moved _ fun other member => Option.some.inj member ▸ fair
      · obtain rfl := Option.some.inj step
        exact moved _ fun other member => Option.some.inj member ▸ fair
    next => cases step
  | timeout =>
    simp only [Exchange.next] at step
    split at step
    next command tries here =>
      obtain rfl := Option.some.inj step
      exact beginTry_only retoken only (only.caller command (by rw [here]; rfl))
    next command here =>
      obtain rfl := Option.some.inj step
      have fair : allowed command := only.caller command (by rw [here]; rfl)
      exact moved _ fun other member => Option.some.inj member ▸ fair
    next => cases step
  | poll timers =>
    simp only [Exchange.next, Option.ite_none_right_eq_some, Option.map_eq_some_iff] at step
    obtain ⟨⟨-, count⟩, rp, polled, rfl⟩ := step
    obtain ⟨reached, polled', -, handled⟩ :=
      poll_handled e.rp e.ring e.caller.pieces timers count sound.stream sound.expects meets
    obtain rfl : reached = rp := Option.some.inj (polled'.symm.trans polled)
    refine ⟨only.caller, by simp, fun pending => ?_⟩
    rcases handled.pending with ⟨still, same⟩ | ⟨-, command, ⟨x, member, rfl⟩, carries⟩
    · rw [still] at pending
      rw [same]
      exact only.pending pending
    · exact ⟨x.command, only.ring x member, carries⟩
  | dispatch =>
    simp only [Exchange.next, Option.ite_none_right_eq_some, Option.some.injEq] at step
    obtain ⟨-, rfl⟩ := step
    refine ⟨only.caller, only.ring, fun pending => ?_⟩
    rw [e.rp.dispatch_cases.1] at pending
    cases pending

theorem dispatched_after {e after : Exchange} {label : ExchangeLabel} (step : e.next label = some after)
    (t : TransmissionProtocol) (member : t ∈ after.dispatched) :
    t ∈ e.dispatched ∨ t ∈ Cartridge.dispatched e label := by
  cases label with
  | issue command =>
    simp only [Exchange.next, Option.ite_none_right_eq_some, Option.some.injEq] at step
    obtain ⟨-, rfl⟩ := step
    simp [Exchange.beginTry] at member
  | word | readToken | readSeed | timeout =>
    simp only [Exchange.next] at step
    repeat' split at step
    all_goals
      cases step <;> exact .inl member
  | poll timers =>
    simp only [Exchange.next, Option.ite_none_right_eq_some, Option.map_eq_some_iff] at step
    obtain ⟨-, rp, -, rfl⟩ := step
    exact .inl member
  | dispatch =>
    simp only [Exchange.next, Option.ite_none_right_eq_some, Option.some.injEq] at step
    obtain ⟨-, rfl⟩ := step
    refine (List.mem_append.mp member).imp_right fun new => ?_
    simpa [Cartridge.dispatched] using new

theorem call_dispatched {here vector : UInt32} {e : Exchange} (only : Only (Saves here vector) e)
    (label : ExchangeLabel) (rom : RomInRam) :
    Cartridge.call (Cartridge.dispatched e label) rom = some (saved here vector rom) ∨
      Cartridge.call (Cartridge.dispatched e label) rom = some rom ∧
        ∀ t ∈ Cartridge.dispatched e label, t.commandId ≠ cmdMidiSaveVector := by
  cases label with
  | dispatch =>
    simp only [Cartridge.dispatched]
    rcases e.rp.dispatch_cases.2 with ⟨-, -, idle⟩ | ⟨pending, -, taken⟩
    · rw [idle]
      exact .inr ⟨rfl, by simp⟩
    · obtain ⟨command, saves, carries⟩ := only.pending pending
      rw [taken]
      have called := midiCommandCb_saves carries saves rom
      by_cases saving : command.d0 = cmdMidiSaveVector
      · rw [if_pos saving] at called
        exact .inl called
      · rw [if_neg saving] at called
        refine .inr ⟨called, fun t member => ?_⟩
        obtain rfl := Option.some.inj member
        rw [carries.commandId]
        exact saving
  | _ => exact .inr ⟨rfl, by simp [Cartridge.dispatched]⟩

structure Installed (here vector : UInt32) (before : RomInRam) (c : Cartridge) : Prop where
  sound : c.exchange.Sound
  only : Only (Saves here vector) c.exchange
  rom : c.rom = before ∨ c.rom = saved here vector before
  written : (∃ t ∈ c.exchange.dispatched, t.commandId = cmdMidiSaveVector) → c.rom = saved here vector before
  hooked : c.hooked = true → c.rom = saved here vector before

theorem next_installed {here vector : UInt32} {before : RomInRam} {c after : Cartridge} {label : CartridgeLabel}
    (installed : Installed here vector before c) (meets : c.installs here vector label)
    (step : c.next label = some after) : Installed here vector before after := by
  cases label with
  | setexc =>
    obtain ⟨returned, same⟩ := Option.ite_none_right_eq_some.mp step
    obtain rfl := Option.some.inj same
    refine ⟨installed.sound, installed.only, installed.rom, installed.written, fun _ => installed.written ?_⟩
    unfold Cartridge.saveReturned at returned
    split at returned
    next command ok here_ =>
      simp only [Bool.and_eq_true, decide_eq_true_eq] at returned
      have honest := installed.sound.honest
      rw [here_] at honest
      obtain ⟨t, member, asks⟩ := honest returned.1
      simp only [Order.asks, Bool.decide_and, Bool.and_eq_true, decide_eq_true_eq] at asks
      exact ⟨t, member, asks.1.trans returned.2⟩
    next => cases returned
  | command label =>
    obtain ⟨exchange, stepped, called⟩ := Option.bind_eq_some_iff.mp step
    obtain ⟨rom, written, rfl⟩ := Option.map_eq_some_iff.mp called
    obtain ⟨tokens, issued⟩ := meets
    have sound := Exchange.next_sound c.exchange exchange label installed.sound tokens stepped
    have only : Only (Saves here vector) exchange := by
      refine next_only (fun _ _ fair => fair) ?_ installed.sound tokens installed.only stepped
      rintro command rfl
      exact issued
    rcases call_dispatched installed.only label c.rom with saves | ⟨idle, other⟩
    · obtain rfl := Option.some.inj (written.symm.trans saves)
      have now : saved here vector c.rom = saved here vector before := by
        rcases installed.rom with same | same
        · rw [same]
        · rw [same, saved_saved]
      exact ⟨sound, only, .inr now, fun _ => now, fun _ => now⟩
    · obtain rfl := Option.some.inj (written.symm.trans idle)
      refine ⟨sound, only, installed.rom, fun handled => ?_, installed.hooked⟩
      obtain ⟨t, member, saving⟩ := handled
      rcases dispatched_after stepped t member with old | new
      · exact installed.written ⟨t, old, saving⟩
      · exact absurd saving (other t new)

def Cartridge.start (bootUs : UInt64) (rom : RomInRam) : Cartridge :=
  { exchange := { rp := .init bootUs }, rom := rom }

def saveVector (here vector : UInt32) : SyncCommand where
  toRegisters := vectorRegisters vector (biosXbraOld here) 0
  even := (rfl : (8 : UInt16) % 2 = 0)
  bounded := UInt16.le_iff_toNat_le.mpr (by simp [vectorRegisters])

def saveWords : List CartridgeLabel := List.replicate 10 (.command .word)

def secondTry : List CartridgeLabel :=
  [.command (.issue (saveVector 0xFA0842 0xFC0030))] ++ saveWords ++ [.command .timeout] ++ saveWords ++
    [.command (.poll (List.replicate 20 70000)), .command .dispatch, .command .readToken, .command .readSeed, .setexc]

def noteOn : Trap where
  sp := 0x8000
  usp := 0
  word address :=
    if address = 0x8000 then 0x2300 else if address = 0x8006 then 3 else if address = 0x8008 then 3
    else if address = 0x800A then 0x0090 else 0

end MidiToIp.Command
