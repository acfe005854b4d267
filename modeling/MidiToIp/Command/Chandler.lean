import Mathlib.Data.List.Basic
import MidiToIp.Command.SendSync

set_option autoImplicit false

namespace MidiToIp.Command

def swapHalves (long : UInt32) : UInt32 :=
  (long &&& 0xFFFF0000) >>> 16 ||| (long &&& 0x0000FFFF) <<< 16

def getRandomToken (payload : Nat → UInt16) : UInt32 :=
  swapHalves ((payload 0).toUInt32 ||| (payload 1).toUInt32 <<< 16)

def readLong (long : UInt32) : UInt32 := swapHalves long

theorem lowMask (i : Nat) : (65535#32).getLsbD i = decide (i < 16) := by
  rw [BitVec.getLsbD_ofNat, show 65535 = 2 ^ 16 - 1 from rfl, Nat.testBit_two_pow_sub_one]
  grind

theorem highMask (i : Nat) : (4294901760#32).getLsbD i = (decide (16 ≤ i) && decide (i < 32)) := by
  rw [BitVec.getLsbD_ofNat, show 4294901760 = (2 ^ 16 - 1) <<< 16 from rfl, Nat.testBit_shiftLeft,
    Nat.testBit_two_pow_sub_one]
  grind

theorem getLsbD_swapHalves (long : UInt32) (i : Nat) :
    (swapHalves long).toBitVec.getLsbD i =
      if i < 16 then long.toBitVec.getLsbD (16 + i)
      else decide (i < 32) && long.toBitVec.getLsbD (i - 16) := by
  simp only [swapHalves, UInt32.toBitVec_or, UInt32.toBitVec_shiftRight, UInt32.toBitVec_and,
    UInt32.toBitVec_shiftLeft, BitVec.getLsbD_or]
  simp [lowMask, highMask]
  grind

theorem swapHalves_swapHalves (long : UInt32) : swapHalves (swapHalves long) = long := by
  apply UInt32.toBitVec_inj.mp
  apply BitVec.eq_of_getLsbD_eq
  intro i inside
  rw [getLsbD_swapHalves, getLsbD_swapHalves, getLsbD_swapHalves]
  grind

theorem words_long (long : UInt32) :
    (lowWord long).toUInt32 ||| (highWord long).toUInt32 <<< 16 = long := by
  apply UInt32.toBitVec_inj.mp
  apply BitVec.eq_of_getLsbD_eq
  intro i inside
  simp only [lowWord, highWord, UInt32.toBitVec_or, UInt16.toBitVec_toUInt32,
    UInt32.toBitVec_toUInt16, UInt32.toBitVec_shiftLeft, UInt32.toBitVec_shiftRight,
    BitVec.getLsbD_or, BitVec.getLsbD_setWidth]
  simp [-BitVec.setWidth_setWidth_of_le, BitVec.getLsbD_setWidth]
  grind

-- `MAX_PROTOCOL_PAYLOAD_SIZE` where the macro stands alone.
def maxProtocolPayloadSize : UInt16 := 2048 + 64

def tprotocolClampPayloadSize (payloadSize : UInt16) : UInt16 :=
  if payloadSize > maxProtocolPayloadSize then maxProtocolPayloadSize else payloadSize

-- `memcpy` of `size` bytes, an odd one being the low half of its word.
def copyPayload (dst src : Nat → UInt16) (size : Nat) (i : Nat) : UInt16 :=
  if 2 * i + 2 ≤ size then src i
  else if 2 * i + 1 = size then (dst i &&& 0xFF00) ||| (src i &&& 0x00FF)
  else dst i

def tprotocolCopySafely (dst src : TransmissionProtocol) : TransmissionProtocol :=
  { src with
    payload := copyPayload dst.payload src.payload (tprotocolClampPayloadSize src.payloadSize).toNat }

structure Chandler where
  parser : Parser := {}
  pendingProtocol : TransmissionProtocol := {}
  protocolPending : Bool := false
  incrementalCmdCount : UInt32 := 0
  randomToken : UInt32
  randomTokenSeed : UInt32

namespace Chandler

def clearPendingProtocol (c : Chandler) : Chandler :=
  { c with
    pendingProtocol :=
      { c.pendingProtocol with commandId := 0, payloadSize := 0, bytesRead := 0, finalChecksum := 0 }
    protocolPending := false }

def init (bootUs : UInt64) : Chandler :=
  let folded := (bootUs ^^^ (bootUs >>> 32)).toUInt32
  let seed := if folded = 0 then 0xA1F0C0DE else folded
  { randomToken := seed, randomTokenSeed := seed ^^^ 0xDEADBEEF }

def handleProtocolCommand (protocol : TransmissionProtocol) (c : Chandler) : Chandler :=
  if c.protocolPending then c
  else
    { c with
      pendingProtocol := tprotocolCopySafely c.pendingProtocol protocol
      protocolPending := true }

def consumeRom3Sample (timer : UInt32) (sample : UInt16) (c : Chandler) : Option Chandler :=
  (c.parser.tprotocolParse timer (addrLsb sample)).map fun (parser, report) =>
    match report with
    | some (.command protocol) => { c with parser := parser }.handleProtocolCommand protocol
    | _ => { c with parser := parser }

def dispatch (c : Chandler) : Chandler × Option TransmissionProtocol :=
  let pending := c.pendingProtocol
  if c.protocolPending = false then (c, none)
  else if pending.commandId = 0 ∧ pending.payloadSize = 0 ∧ pending.finalChecksum = 0 then
    (c.clearPendingProtocol, none)
  else
    let count := c.incrementalCmdCount + 1
    ({ c with
        incrementalCmdCount := count
        randomToken := getRandomToken pending.payload
        randomTokenSeed := count }.clearPendingProtocol, some pending)

theorem parser_dispatch (c : Chandler) : c.dispatch.1.parser = c.parser := by
  unfold dispatch
  dsimp only
  split_ifs <;> rfl

theorem dispatch_cases (c : Chandler) :
    c.dispatch.1.protocolPending = false ∧
      (c.dispatch.1.randomToken = c.randomToken ∧ c.dispatch.1.randomTokenSeed = c.randomTokenSeed ∧
          c.dispatch.2 = none ∨
        c.protocolPending = true ∧
          c.dispatch.1.randomToken = getRandomToken c.pendingProtocol.payload ∧
          c.dispatch.2 = some c.pendingProtocol) := by
  unfold dispatch
  dsimp only
  split
  next idle => exact ⟨idle, .inl ⟨rfl, rfl, rfl⟩⟩
  next busy =>
    split
    next => exact ⟨rfl, .inl ⟨rfl, rfl, rfl⟩⟩
    next => exact ⟨rfl, .inr ⟨by simpa using busy, rfl, rfl⟩⟩

end Chandler

theorem TransmissionProtocol.Carries.copy {t : TransmissionProtocol} {command : SyncCommand}
    (carries : t.Carries command.frame) (dst : TransmissionProtocol) :
    (tprotocolCopySafely dst t).Carries command.frame := by
  obtain ⟨announced, -, few⟩ := command.size
  have size : t.payloadSize.toNat = 2 * command.sentWords.length := by
    rw [carries.payloadSize]
    exact announced
  have fits : tprotocolClampPayloadSize t.payloadSize = t.payloadSize := by
    refine if_neg (UInt16.not_lt.mpr (UInt16.le_iff_toNat_le.mpr ?_))
    rw [size, show maxProtocolPayloadSize.toNat = 2112 from rfl]
    omega
  refine ⟨carries.commandId, carries.payloadSize, ?_⟩
  rw [← carries.words]
  apply List.map_congr_left
  intro i member
  have below := List.mem_range.mp member
  have inside : 2 * i + 2 ≤ t.payloadSize.toNat := by
    change i < t.payloadSize.toNat / 2 at below
    omega
  simp only [tprotocolCopySafely, fits, copyPayload, if_pos inside]

theorem TransmissionProtocol.Carries.token {t : TransmissionProtocol} {command : SyncCommand}
    (carries : t.Carries command.frame) : readLong (getRandomToken t.payload) = command.d2 := by
  obtain ⟨announced, some_, few⟩ := command.size
  have half : t.payloadSize.toNat / 2 = command.sentWords.length := by
    rw [carries.payloadSize]
    change (command.d1 + 4).toNat / 2 = _
    omega
  have stored (i : Nat) (inside : i < command.sentWords.length) :
      t.payload i = command.sentWords.getD i 0 := by
    have words : t.words = command.sentWords := carries.words
    rw [← words, TransmissionProtocol.words, half]
    simp [inside]
  have sent : command.sentWords = command.words.take (command.d1.toNat / 2 + 2) :=
    command.sentWords_eq
  have low : t.payload 0 = lowWord command.d2 := by
    rw [stored 0 (by omega), sent]
    rfl
  have high : t.payload 1 = highWord command.d2 := by
    rw [stored 1 (by omega), sent]
    rfl
  rw [readLong, getRandomToken, swapHalves_swapHalves, low, high, words_long]

end MidiToIp.Command
