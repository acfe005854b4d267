import Mathlib.Data.List.Basic
import MidiToIp.Midi.Config
import MidiToIp.Midi.Queues
import MidiToIp.WebSocket.MidiWs

set_option autoImplicit false

-- `rp/src/midi.c`. What lwIP's calls answer may depend on how many calls came before. A byte received is
-- marked with the PCB it came in on, a byte to send with the link session it was queued in.

namespace MidiToIp.Midi

open Octets MidiWs

abbrev IpAddr := UInt32

abbrev Err := Int

def errOk : Err := 0
def errInprogress : Err := -5

structure Lwip where
  ipaddrAton : Bytes → Option IpAddr
  tcpNew : Nat → Bool
  tcpConnect : Nat → Err
  tcpWrite : Nat → Err
  tcpClose : Nat → Err
  tcpSndbuf : Nat → UInt16
  dnsGethostbyname : Nat → Err × IpAddr

inductive LwipCall where
  | new (pcb : Option Nat)
  | connect (pcb : Nat) (ip : IpAddr) (port : Nat) (err : Err)
  | write (pcb : Nat) (data : Bytes) (err : Err)
  | sndbuf (pcb : Nat) (room : UInt16)
  | output (pcb : Nat)
  | recved (pcb length : Nat)
  | close (pcb : Nat) (err : Err)
  | abort (pcb : Nat)
  | resolve (host : Bytes) (err : Err)
  deriving DecidableEq, Repr

inductive NetState where
  | down
  | connecting
  | wsHandshake
  | up
  deriving DecidableEq, Repr

structure Pcb where
  id : Nat
  towards : Bytes
  deriving DecidableEq, Repr

-- A DNS query that will still call back, and the link session that began it.
structure Query where
  id : Nat
  name : Bytes
  session : Nat
  deriving DecidableEq, Repr

/-- The connection: the module's own two variables, and what lwIP holds for the module. A link
session ends with each drop. -/
structure Link where
  netState : NetState := .down
  netPcb : Option Nat := none
  pcbs : List Pcb := []
  queries : List Query := []
  fresh : Nat := 0
  session : Nat := 0
  deriving DecidableEq, Repr

structure Firmware where
  cfg : Config := {}
  link : Link := {}
  inQueue : Queue := Queue.init 0
  outQueue : Queue := Queue.init 0
  shared : SharedWords := {}
  inAck : UInt32 := 0
  active : Bool := false
  wsDec : MidiWsDecoder := midiWsDecoderInit
  wsHsBuf : Bytes := []
  wsKey : Bytes := []
  wsRand : UInt32 := 0
  nextAttempt : Nat := 0
  nextAttemptValid : Bool := false
  backoffMs : Nat := 500
  upSince : Nat := 0
  now : Nat := 0
  calls : List LwipCall := []
  consumed : List (Cell × Option Nat) := []
  written : List (Cell × Nat) := []

def backoffMinMs : Nat := 500
def backoffMaxMs : Nat := 8000
def wsTxChunk : Nat := 1024
def hsBufSize : Nat := 512

namespace Firmware

def call (c : LwipCall) (s : Firmware) : Firmware := { s with calls := s.calls ++ [c] }

def midiInPush (pcb : Nat) (b : UInt8) (s : Firmware) : Firmware :=
  { s with inQueue := s.inQueue.push ⟨b, pcb⟩ s.now }

def publish (s : Firmware) : Firmware :=
  { s with shared := s.shared.writeAll (midiInPublish s.inQueue.ring) }

def midiNetSendByte (b : UInt8) (s : Firmware) : Firmware :=
  { s with outQueue := s.outQueue.push ⟨b, s.link.session⟩ s.now }

def midiNetFlushInQueue (s : Firmware) : Firmware :=
  publish { s with inQueue := s.inQueue.flush }

def midiWsResetRx (s : Firmware) : Firmware :=
  { s with wsDec := midiWsDecoderInit, wsHsBuf := [] }

def midiNetFlushAll (s : Firmware) : Firmware :=
  let s := midiNetFlushInQueue s
  midiWsResetRx
    { s with
      inQueue := s.inQueue.stamp s.now
      outQueue := s.outQueue.flush.stamp s.now }

variable (lwip : Lwip)

-- The teardown of `midi_net_reset`: a PCB that will not close is aborted.
def dropPcb (s : Firmware) : Firmware :=
  match s.link.netPcb with
  | none => s
  | some pcb =>
    let err := lwip.tcpClose s.calls.length
    let s := call (.close pcb err) s
    let s := if err ≠ errOk then call (.abort pcb) s else s
    { s with
      link := { s.link with netPcb := none, pcbs := s.link.pcbs.filter fun p => p.id != pcb } }

def goDown (s : Firmware) : Firmware :=
  { s with link := { s.link with netState := .down, session := s.link.session + 1 } }

def midiNetReset (s : Firmware) : Firmware :=
  goDown (midiNetFlushAll (dropPcb lwip s))

def midiNetMarkUp (s : Firmware) : Firmware :=
  { s with
    link := { s.link with netState := .up }
    backoffMs := backoffMinMs
    upSince := s.now }

def midiWsNextRand (s : Firmware) : UInt32 × Firmware :=
  let x := if s.wsRand = 0 then 0x2545F491 ^^^ UInt32.ofNat s.now else s.wsRand
  let x := x ^^^ (x <<< 13)
  let x := x ^^^ (x >>> 17)
  let x := x ^^^ (x <<< 5)
  (x, { s with wsRand := x })

def midiWsMaskKey (s : Firmware) : Bytes × Firmware :=
  let (r, s) := midiWsNextRand s
  ([r.toUInt8, (r >>> 8).toUInt8, (r >>> 16).toUInt8, (r >>> 24).toUInt8], s)

def tcpWrite (pcb : Nat) (data : Bytes) (s : Firmware) : Err × Firmware :=
  let err := lwip.tcpWrite s.calls.length
  (err, call (.write pcb data err) s)

def midiWsSendFrame (opcode : UInt8) (payload : Bytes) (s : Firmware) : Firmware :=
  match s.link.netPcb with
  | none => s
  | some pcb =>
    let (mask, s) := midiWsMaskKey s
    let (err, s) := tcpWrite lwip pcb (midiWsBuildFrame opcode (payload.take wsTxChunk) mask) s
    if err = errOk then call (.output pcb) s else s

def midiWsOnData (pcb : Nat) (p : Bytes) (s : Firmware) : Firmware :=
  p.foldl (fun s b => midiInPush pcb b s) s

def midiWsOnCtl (opcode : UInt8) (p : Bytes) (s : Firmware) : Firmware :=
  if opcode = midiWsOpPing then midiWsSendFrame lwip midiWsOpPong p s
  else if opcode = midiWsOpClose then midiNetReset lwip s
  else s

def host (pcb : Nat) : DecoderHost Firmware where
  dec s := s.wsDec
  setDec d s := { s with wsDec := d }
  onData := midiWsOnData pcb
  onCtl := midiWsOnCtl lwip

def midiWsBufContains (hay needle : Bytes) : Bool :=
  !needle.isEmpty && hay.tails.any fun rest => needle.isPrefixOf rest

def nonce : Nat → Firmware → Bytes × Firmware
  | 0, s => ([], s)
  | n + 1, s =>
    let (x, s) := midiWsNextRand s
    let (rest, s) := nonce n s
    (x.toUInt8 :: rest, s)

def upgradeRequest (cfg : Config) (key : Bytes) : Bytes :=
  ascii "GET " ++ cfg.wsPath ++ ascii " HTTP/1.1\r\n" ++
    ascii "Host: " ++ cfg.host ++ ascii ":" ++ ascii (toString cfg.port) ++ ascii "\r\n" ++
    ascii "Upgrade: websocket\r\n" ++
    ascii "Connection: Upgrade\r\n" ++
    ascii "Sec-WebSocket-Key: " ++ key ++ ascii "\r\n" ++
    (if cfg.room ≠ [] then ascii "Authorization: Bearer " ++ cfg.room ++ ascii "\r\n" else []) ++
    ascii "Sec-WebSocket-Version: 13\r\n\r\n"

-- The end of `midi_ws_start_handshake`: a request that does not fit or is refused drops the link.
def sendUpgrade (req : Bytes) (s : Firmware) : Firmware :=
  match s.link.netPcb with
  | none => midiNetReset lwip s
  | some pcb =>
    if req.length ≥ 512 then midiNetReset lwip s
    else
      let (err, s) := tcpWrite lwip pcb req s
      if err ≠ errOk then midiNetReset lwip s else call (.output pcb) s

def midiWsStartHandshake (s : Firmware) : Firmware :=
  let (bytes, s) := nonce 16 s
  let s :=
    { s with
      wsKey := midiWsBase64 bytes
      wsDec := midiWsDecoderInit
      wsHsBuf := []
      link := { s.link with netState := .wsHandshake } }
  sendUpgrade lwip (upgradeRequest s.cfg s.wsKey) s

def headerEnd : Bytes → Option Nat
  | 13 :: 10 :: 13 :: 10 :: _ => some 4
  | _ :: rest => (headerEnd rest).map (· + 1)
  | [] => none

def validUpgrade (key header : Bytes) : Bool :=
  midiWsBufContains header (ascii " 101 ") && midiWsBufContains header (midiWsAcceptKey key)

def midiWsHandshakeRecv (pcb : Nat) (chain : List Bytes) (s : Firmware) : Bool × Firmware :=
  let hs := s.wsHsBuf ++ chain.flatten
  let s := { s with wsHsBuf := hs.take hsBufSize }
  if hs.length > hsBufSize then (false, s)
  else
    match headerEnd hs with
    | none => (true, s)
    | some hdrEnd =>
      if !validUpgrade s.wsKey (hs.take hdrEnd) then (false, s)
      else
        let s := midiNetMarkUp s
        if hdrEnd < hs.length then
          match midiWsDecode (host lwip pcb) s (hs.drop hdrEnd) with
          | (false, s) => (false, s)
          | (true, s) => (true, publish s)
        else (true, s)

-- Buffer after buffer of a chain; a close frame that reset the link ends the walk.
def decodeChain (pcb : Nat) : List Bytes → Firmware → Bool × Firmware
  | [], s => (true, s)
  | q :: rest, s =>
    match midiWsDecode (host lwip pcb) s q with
    | (false, s) => (false, s)
    | (true, s) => if s.link.netState ≠ .up then (true, s) else decodeChain pcb rest s

def recvFrames (pcb : Nat) (chain : List Bytes) (s : Firmware) : Bool × Firmware :=
  match decodeChain lwip pcb chain s with
  | (false, s) => (false, s)
  | (true, s) => (true, if s.link.netState = .up then publish s else s)

def recvByState (pcb : Nat) (chain : List Bytes) (s : Firmware) : Bool × Firmware :=
  match s.link.netState with
  | .wsHandshake => midiWsHandshakeRecv lwip pcb chain s
  | .up => recvFrames lwip pcb chain s
  | _ => (true, s)

def recvWs (pcb : Nat) (chain : List Bytes) (s : Firmware) : Firmware :=
  match recvByState lwip pcb chain s with
  | (false, s) => midiNetReset lwip s
  | (true, s) =>
    if s.link.netState ≠ .down ∧ s.link.netPcb ≠ none then
      call (.recved pcb chain.flatten.length) s
    else s

def recvTcp (pcb : Nat) (chain : List Bytes) (s : Firmware) : Firmware :=
  call (.recved pcb chain.flatten.length) (publish (midiWsOnData pcb chain.flatten s))

def midiNetRecvCb (pcb : Nat) (chain : Option (List Bytes)) (err : Err) (s : Firmware) :
    Err × Firmware :=
  match chain with
  | none => (errOk, midiNetReset lwip s)
  | some chain =>
    if err ≠ errOk then (err, s)
    else if s.cfg.transport = .ws then (errOk, recvWs lwip pcb chain s)
    else (errOk, recvTcp pcb chain s)

-- `midi_net_err_cb`: lwIP has freed the PCB already.
def midiNetErrCb (s : Firmware) : Firmware :=
  goDown (midiNetFlushAll { s with link := { s.link with netPcb := none } })

def midiNetConnectedCb (err : Err) (s : Firmware) : Err × Firmware :=
  if err ≠ errOk then (err, midiNetReset lwip s)
  else if s.cfg.transport = .ws then (errOk, midiWsStartHandshake lwip s)
  else (errOk, midiNetMarkUp s)

def midiNetConnectTo (ip : IpAddr) (towards : Bytes) (s : Firmware) : Firmware :=
  if lwip.tcpNew s.calls.length then
    let pcb := s.link.fresh
    let s := call (.new (some pcb)) s
    let s :=
      { s with
        link := { s.link with
          netState := .connecting
          netPcb := some pcb
          pcbs := s.link.pcbs ++ [⟨pcb, towards⟩]
          fresh := pcb + 1 } }
    let err := lwip.tcpConnect s.calls.length
    let s := call (.connect pcb ip s.cfg.port err) s
    if err ≠ errOk then midiNetReset lwip s else s
  else
    let s := call (.new none) s
    midiNetReset lwip { s with link := { s.link with netPcb := none } }

def midiNetDnsFound (name : Bytes) (ip : Option IpAddr) (s : Firmware) : Firmware :=
  match ip with
  | none => midiNetReset lwip s
  | some ip => midiNetConnectTo lwip ip name s

def midiNetTryConnect (s : Firmware) : Firmware :=
  match lwip.ipaddrAton s.cfg.host with
  | some ip => midiNetConnectTo lwip ip s.cfg.host s
  | none =>
    let s := { s with link := { s.link with netState := .connecting } }
    let (err, ip) := lwip.dnsGethostbyname s.calls.length
    let s := call (.resolve s.cfg.host err) s
    if err = errOk then midiNetConnectTo lwip ip s.cfg.host s
    else if err ≠ errInprogress then midiNetReset lwip s
    else
      { s with
        link := { s.link with
          queries := s.link.queries ++ [⟨s.link.fresh, s.cfg.host, s.link.session⟩]
          fresh := s.link.fresh + 1 } }

-- A run of `n` cells goes to TCP as `data`; what TCP does not take stays in the ring.
def writeRun (pcb n : Nat) (data : Bytes) (s : Firmware) : Firmware × Bool :=
  let (err, s) := tcpWrite lwip pcb data s
  if err ≠ errOk then (s, false)
  else
    ({ s with
        outQueue := { s.outQueue with ring := s.outQueue.ring.drop n }
        written := s.written ++ (s.outQueue.ring.run n).map fun cell => (cell, s.link.session) },
      true)

-- One turn of the loop of `midi_net_flush_out`; false is one of its breaks.
def flushOutTurn (pcb : Nat) (s : Firmware) : Firmware × Bool :=
  let sndbuf := lwip.tcpSndbuf s.calls.length
  let s := call (.sndbuf pcb sndbuf) s
  let contig := s.outQueue.ring.contiguous
  if sndbuf = 0 then (s, false)
  else if s.cfg.transport = .ws then
    if sndbuf.toNat ≤ midiWsFrameOverhead then (s, false)
    else
      let n := min contig (min (sndbuf.toNat - midiWsFrameOverhead) wsTxChunk)
      let (mask, s) := midiWsMaskKey s
      writeRun lwip pcb n
        (midiWsBuildFrame midiWsOpBin ((s.outQueue.ring.run n).map Cell.byte) mask) s
  else
    let n := min contig sndbuf.toNat
    writeRun lwip pcb n ((s.outQueue.ring.run n).map Cell.byte) s

def flushOutLoop (pcb : Nat) : Nat → Bool → Firmware → Bool × Firmware
  | 0, wrote, s => (wrote, s)
  | fuel + 1, wrote, s =>
    if s.outQueue.ring.isEmpty then (wrote, s)
    else
      match flushOutTurn lwip pcb s with
      | (s, true) => flushOutLoop pcb fuel true s
      | (s, false) => (wrote, s)

def midiNetFlushOut (s : Firmware) : Firmware :=
  match s.link.netState, s.link.netPcb with
  | .up, some pcb =>
    let (wrote, s) := flushOutLoop lwip pcb s.outQueue.ring.depth false s
    if wrote then
      let s := call (.output pcb) s
      { s with outQueue := s.outQueue.stamp s.now }
    else s
  | _, _ => s

def cleanupIn (s : Firmware) : Firmware :=
  if s.inQueue.isStale s.now then
    let s := midiNetFlushInQueue s
    { s with inQueue := s.inQueue.stamp s.now }
  else s

def cleanupOut (s : Firmware) : Firmware :=
  if s.outQueue.isStale s.now then { s with outQueue := s.outQueue.flush.stamp s.now } else s

def midiQueueCleanup (s : Firmware) : Firmware := cleanupOut (cleanupIn s)

def midiNetPoll (hasIp : Bool) (s : Firmware) : Firmware :=
  let s := midiQueueCleanup (midiNetFlushOut lwip s)
  if !s.cfg.enabled then s
  else if s.link.netState ≠ .down then s
  else if !hasIp then s
  else if s.nextAttemptValid ∧ s.nextAttempt > s.now then s
  else
    let s :=
      { s with
        nextAttemptValid := true
        nextAttempt := s.now + s.backoffMs * 1000
        backoffMs := min (s.backoffMs * 2) backoffMaxMs }
    midiNetTryConnect lwip s

def midiNetReload (settings : Settings) (s : Firmware) : Firmware :=
  let s := midiNetReset lwip { s with cfg := midiLoadConfig settings s.cfg }
  { s with backoffMs := backoffMinMs, nextAttemptValid := false }

def midiOutMarker : UInt16 := 0x0100
def midiInAdvance : UInt16 := 0x0200
def midiDeactivate : UInt16 := 0x0400

-- The pop of an advance; the ack is counted after the new head is published.
def advance (s : Firmware) : Firmware :=
  let s := { s with
    consumed := s.consumed ++ (s.inQueue.ring.front.toList.map fun cell => (cell, s.link.netPcb))
    inQueue := { ring := s.inQueue.ring.pop, lastDrain := s.now } }
  let s := publish s
  { s with
    inAck := s.inAck + 1
    shared := s.shared.write (.ack (s.inAck + 1)) }

def midiRom3Consumer (addrLsb : UInt16) (s : Firmware) : Bool × Firmware :=
  if !s.active then (false, s)
  else if addrLsb &&& midiDeactivate ≠ 0 then (true, { s with active := false })
  else if addrLsb &&& midiInAdvance ≠ 0 then (true, advance s)
  else if addrLsb &&& midiOutMarker ≠ 0 then (true, midiNetSendByte addrLsb.toUInt8 s)
  else (false, s)

def midiInit (settings : Settings) (now : Nat) : Firmware :=
  { cfg := midiLoadConfig settings {}
    now := now
    inQueue := Queue.init now
    outQueue := Queue.init now }

end Firmware

inductive Event where
  | tick (micros : Nat)
  | poll (hasIp : Bool)
  | reload (settings : Settings)
  | connected (pcb : Nat) (err : Err)
  | recv (pcb : Nat) (chain : Option (List Bytes)) (err : Err)
  | error (pcb : Nat)
  | dnsFound (query : Nat) (ip : Option IpAddr)
  | rom3 (addrLsb : UInt16)
  | setActive (active : Bool)

def Link.isOpen (link : Link) (pcb : Nat) : Bool := link.pcbs.any fun p => p.id == pcb

/-- lwIP calls back only for a PCB that is open, and once for each query. -/
def Firmware.next (lwip : Lwip) (s : Firmware) : Event → Option Firmware
  | .tick micros => some { s with now := s.now + micros }
  | .poll hasIp => some (s.midiNetPoll lwip hasIp)
  | .reload settings => some (s.midiNetReload lwip settings)
  | .connected pcb err => if s.link.isOpen pcb then some (s.midiNetConnectedCb lwip err).2 else none
  | .recv pcb chain err =>
    if s.link.isOpen pcb then some (s.midiNetRecvCb lwip pcb chain err).2 else none
  | .error pcb =>
    if s.link.isOpen pcb then
      some (midiNetErrCb
        { s with link := { s.link with pcbs := s.link.pcbs.filter fun p => p.id != pcb } })
    else none
  | .dnsFound query ip =>
    (s.link.queries.find? fun q => q.id == query).map fun q =>
      midiNetDnsFound lwip q.name ip
        { s with link := { s.link with queries := s.link.queries.filter fun q => q.id != query } }
  | .rom3 addrLsb => some (s.midiRom3Consumer addrLsb).2
  | .setActive active => some { s with active := active }

end MidiToIp.Midi
