import Mathlib.Data.List.Basic
import MidiToIp.Shared.Bytes

set_option autoImplicit false

namespace MidiToIp.MidiWs

open Octets

def midiWsOpBin : UInt8 := 0x2
def midiWsOpClose : UInt8 := 0x8
def midiWsOpPing : UInt8 := 0x9
def midiWsOpPong : UInt8 := 0xA

def midiWsFrameOverhead : Nat := 8

def b64 : Bytes := ascii "ABCDEFGHIJKLMNOPQRSTUVWXYZabcdefghijklmnopqrstuvwxyz0123456789+/"

def b64Char (v : UInt32) : UInt8 := b64.getD (v &&& 0x3F).toNat 0

def padding : UInt8 := 0x3D

def midiWsBase64 : Bytes → Bytes
  | a :: b :: c :: rest =>
    let v := (a.toUInt32 <<< 16) ||| (b.toUInt32 <<< 8) ||| c.toUInt32
    b64Char (v >>> 18) :: b64Char (v >>> 12) :: b64Char (v >>> 6) :: b64Char v :: midiWsBase64 rest
  | [a, b] =>
    let v := (a.toUInt32 <<< 16) ||| (b.toUInt32 <<< 8)
    [b64Char (v >>> 18), b64Char (v >>> 12), b64Char (v >>> 6), padding]
  | [a] =>
    let v := a.toUInt32 <<< 16
    [b64Char (v >>> 18), b64Char (v >>> 12), padding, padding]
  | [] => []

def rol (v : UInt32) (b : UInt32) : UInt32 := (v <<< b) ||| (v >>> (32 - b))

structure Sha1State where
  a : UInt32
  b : UInt32
  c : UInt32
  d : UInt32
  e : UInt32
  deriving DecidableEq

def sha1Init : Sha1State := ⟨0x67452301, 0xEFCDAB89, 0x98BADCFE, 0x10325476, 0xC3D2E1F0⟩

def blockWord (blk : Bytes) (i : Nat) : UInt32 :=
  ((blk.getD (i * 4) 0).toUInt32 <<< 24) ||| ((blk.getD (i * 4 + 1) 0).toUInt32 <<< 16) |||
    ((blk.getD (i * 4 + 2) 0).toUInt32 <<< 8) ||| (blk.getD (i * 4 + 3) 0).toUInt32

def extendSchedule (w : List UInt32) (i : Nat) : List UInt32 :=
  w ++ [rol (w.getD (i - 3) 0 ^^^ w.getD (i - 8) 0 ^^^ w.getD (i - 14) 0 ^^^ w.getD (i - 16) 0) 1]

def schedule (blk : Bytes) : List UInt32 :=
  (List.range' 16 64).foldl extendSchedule ((List.range 16).map (blockWord blk))

def sha1Round (w : List UInt32) (s : Sha1State) (i : Nat) : Sha1State :=
  let (f, k) :=
    if i < 20 then ((s.b &&& s.c) ||| ((~~~ s.b) &&& s.d), 0x5A827999)
    else if i < 40 then (s.b ^^^ s.c ^^^ s.d, 0x6ED9EBA1)
    else if i < 60 then ((s.b &&& s.c) ||| (s.b &&& s.d) ||| (s.c &&& s.d), 0x8F1BBCDC)
    else (s.b ^^^ s.c ^^^ s.d, 0xCA62C1D6)
  ⟨rol s.a 5 + f + s.e + k + w.getD i 0, s.a, rol s.b 30, s.c, s.d⟩

def sha1Block (state : Sha1State) (blk : Bytes) : Sha1State :=
  let s := (List.range 80).foldl (sha1Round (schedule blk)) state
  ⟨state.a + s.a, state.b + s.b, state.c + s.c, state.d + s.d, state.e + s.e⟩

def wordBytes (v : UInt32) : Bytes := bigEndian 4 v.toNat

-- The loop over whole blocks; `fuel` is the number of blocks.
def sha1Blocks : Nat → Sha1State → Bytes → Sha1State × Bytes
  | 0, state, data => (state, data)
  | fuel + 1, state, data =>
    if data.length ≥ 64 then sha1Blocks fuel (sha1Block state (data.take 64)) (data.drop 64)
    else (state, data)

def sha1 (data : Bytes) : Bytes :=
  let (state, left) := sha1Blocks (data.length / 64) sha1Init data
  let rem := left.length
  let blk := left ++ 0x80 :: List.replicate (63 - rem) 0
  let (state, blk) :=
    if rem ≥ 56 then (sha1Block state blk, List.replicate 64 0) else (state, blk)
  let ml := data.length * 8
  let state := sha1Block state (blk.take 56 ++ bigEndian 8 ml)
  wordBytes state.a ++ wordBytes state.b ++ wordBytes state.c ++ wordBytes state.d ++
    wordBytes state.e

def wsGuid : Bytes := ascii "258EAFA5-E914-47DA-95CA-C5AB0DC85B11"

def midiWsAcceptKey (clientKey : Bytes) : Bytes :=
  if clientKey.length + wsGuid.length > 96 then []
  else midiWsBase64 (sha1 (clientKey ++ wsGuid))

def midiWsBuildFrame (opcode : UInt8) (payload maskKey : Bytes) : Bytes :=
  let len := payload.length
  [0x80 ||| (opcode &&& 0x0F)] ++
    (if len < 126 then [0x80 ||| UInt8.ofNat len]
      else [0x80 ||| 126, UInt8.ofNat (len >>> 8), UInt8.ofNat (len &&& 0xFF)]) ++
    [maskKey.getD 0 0, maskKey.getD 1 0, maskKey.getD 2 0, maskKey.getD 3 0] ++
    payload.mapIdx fun i byte => byte ^^^ maskKey.getD (i &&& 3) 0

inductive DecodeState where
  | op
  | len
  | ext
  | payload
  deriving DecidableEq, Repr

structure MidiWsDecoder where
  state : DecodeState := .op
  opcode : UInt8 := 0
  isControl : Bool := false
  remaining : Nat := 0
  extLeft : Nat := 0
  ctl : Bytes := []
  deriving DecidableEq, Repr

def midiWsDecoderInit : MidiWsDecoder := {}

/-- Where the decoder lives and what its two callbacks do. The callbacks see the whole state, so
one of them may reset the decoder that is calling it. -/
structure DecoderHost (Host : Type) where
  dec : Host → MidiWsDecoder
  setDec : MidiWsDecoder → Host → Host
  onData : Bytes → Host → Host
  onCtl : UInt8 → Bytes → Host → Host

variable {Host : Type} (host : DecoderHost Host)

def complete (s : Host) : Host :=
  let d := host.dec s
  let s := if d.isControl then host.onCtl d.opcode d.ctl s else s
  host.setDec { host.dec s with state := .op } s

def takePayload (s : Host) (data : Bytes) : Host × Bytes :=
  let d := host.dec s
  let take := min d.remaining data.length
  let s :=
    if d.isControl then host.setDec { d with ctl := (d.ctl ++ data.take take).take 125 } s
    else host.onData (data.take take) s
  (host.setDec { host.dec s with remaining := (host.dec s).remaining - take } s, data.drop take)

-- The `S_LEN` case; none is the protocol error.
def readLength (d : MidiWsDecoder) (b : UInt8) : Option MidiWsDecoder :=
  if b &&& 0x80 ≠ 0 then none
  else
    let l := (b &&& 0x7F).toNat
    if d.isControl ∧ l > 125 then none
    else if l < 126 then some { d with remaining := l, state := .payload }
    else if l = 126 then some { d with remaining := 0, extLeft := 2, state := .ext }
    else some { d with remaining := 0, extLeft := 8, state := .ext }

-- The `S_EXT` case: `remaining` is 64 bits wide.
def readExtended (d : MidiWsDecoder) (b : UInt8) : MidiWsDecoder :=
  { d with
    remaining := accumulate d.remaining b % 2 ^ 64
    extLeft := d.extLeft - 1
    state := if d.extLeft - 1 = 0 then .payload else d.state }

def readOpcode (d : MidiWsDecoder) (b : UInt8) : MidiWsDecoder :=
  { d with
    opcode := b &&& 0x0F
    isControl := (b &&& 0x0F &&& 0x08) != 0
    ctl := []
    state := .len }

-- One turn of the `switch` on a non-empty rest of the buffer; none is `return false`.
def decodeTurn (s : Host) (b : UInt8) (rest : Bytes) : Option (Host × Bytes) :=
  let d := host.dec s
  match d.state with
  | .op => some (host.setDec (readOpcode d b) s, rest)
  | .len => (readLength d b).map fun d => (host.setDec d s, rest)
  | .ext => some (host.setDec (readExtended d b) s, rest)
  | .payload =>
    let (s, data) := if d.remaining > 0 then takePayload host s (b :: rest) else (s, b :: rest)
    some (if (host.dec s).remaining = 0 then complete host s else s, data)

/-- The `while` loop and the empty-frame check after it. A turn that takes no byte leaves
`S_PAYLOAD`, so two turns a byte and one more are enough. -/
def decodeLoop : Nat → Host → Bytes → Bool × Host
  | 0, s, _ => (false, s)
  | _ + 1, s, [] =>
    if (host.dec s).state = .payload ∧ (host.dec s).remaining = 0 then (true, complete host s)
    else (true, s)
  | fuel + 1, s, b :: rest =>
    match decodeTurn host s b rest with
    | none => (false, s)
    | some (s, rest) => decodeLoop fuel s rest

def midiWsDecode (s : Host) (data : Bytes) : Bool × Host :=
  decodeLoop host (2 * data.length + 1) s data

end MidiToIp.MidiWs
