import Mathlib.Data.List.Infix
import MidiToIp.Shared.Machine
import MidiToIp.WebSocket.Ws

set_option autoImplicit false

namespace MidiToIp.Gateway

open Octets Machines

-- `_WsSocket`; `initial` is what trailed the handshake response.
structure WsSocket where
  dec : Ws.FrameDecoder := {}
  initial : Bytes := []

inductive HandshakeError where
  | serverClosed
  | badResponse
  deriving DecidableEq, Repr

def headerEnd : Bytes := ascii "\r\n\r\n"

def partition (separator : Bytes) : Bytes → Option (Bytes × Bytes)
  | [] => if separator = [] then some ([], []) else none
  | b :: rest =>
    if separator.isPrefixOf (b :: rest) then some ([], (b :: rest).drop separator.length)
    else (partition separator rest).map fun parts => (b :: parts.1, parts.2)

/-- `ws_handshake` behind its request: `reads` is what the socket returns, read after read, and
`accept` what `accept_key` makes of the key. None is a handshake still waiting. -/
def wsHandshake (accept buf : Bytes) (reads : List Bytes) : Option (Except HandshakeError WsSocket) :=
  match partition headerEnd buf, reads with
  | some (header, rest), _ =>
    if ¬ ascii " 101 " <:+: header ∨ ¬ accept <:+: header then some (.error .badResponse)
    else some (.ok { initial := rest })
  | none, [] => none
  | none, chunk :: later =>
    if chunk = [] then some (.error .serverClosed) else wsHandshake accept (buf ++ chunk) later

def isData (frame : Ws.Frame) : Bool :=
  frame.1 = Ws.opBinary ∨ frame.1 = Ws.opCont ∨ frame.1 = Ws.opText

structure Handled where
  pongs : List Ws.Frame
  out : Option Bytes

def handleFrames (out : Bytes) : List Ws.Frame → Handled
  | [] => ⟨[], some out⟩
  | frame :: rest =>
    if isData frame then handleFrames (out ++ frame.2) rest
    else if frame.1 = Ws.opPing then
      let later := handleFrames out rest
      { later with pongs := (Ws.opPong, frame.2) :: later.pongs }
    else if frame.1 = Ws.opClose then ⟨[], none⟩
    else handleFrames out rest

-- Where `bridge` stands; `rawRecv` is inside the wrapper, in the read of the socket itself.
inductive Pc where
  | entering
  | select
  | readOut (sockReady : Bool)
  | sendOut (data : Bytes) (sockReady : Bool)
  | recv
  | rawRecv
  | deliver (data : Bytes)
  | returned
  deriving DecidableEq, Repr

structure Bridge where
  out : Bytes := []
  outEof : Bool := false
  sock : Bytes := []
  sockEof : Bool := false
  wrapper : WsSocket
  -- The frames sent, before masking.
  sent : List Ws.Frame := []
  inFd : Bytes := []
  pc : Pc := .entering

namespace Bridge

def start (wrapper : WsSocket) : Bridge := { wrapper := wrapper }

def outReadable (b : Bridge) : Prop := b.out ≠ [] ∨ b.outEof

def sockReadable (b : Bridge) : Prop := b.sock ≠ [] ∨ b.sockEof

instance (b : Bridge) : Decidable b.outReadable := inferInstanceAs (Decidable (_ ∨ _))

instance (b : Bridge) : Decidable b.sockReadable := inferInstanceAs (Decidable (_ ∨ _))

def consume (raw : Bytes) (sendable : Nat) (b : Bridge) : Bridge :=
  match b.wrapper.dec.feed raw with
  | (_, .error _) => { b with pc := .returned }
  | (dec, .ok frames) =>
    let handled := handleFrames [] frames
    { b with
      wrapper := { b.wrapper with dec := dec }
      sent := b.sent ++ handled.pongs.take sendable
      pc :=
        if sendable < handled.pongs.length then .returned
        else
          match handled.out with
          | none => .returned
          | some [] => .recv
          | some out => .deliver out }

end Bridge

inductive Label where
  | atariWrites (data : Bytes)
  | atariCloses
  | serverSends (data : Bytes)
  | serverCloses
  | enter
  | select
  | readOut
  | sendOut
  | recv (sendable : Nat)
  | rawRecv (count sendable : Nat)
  | deliver
  | raises
  deriving DecidableEq, Repr

namespace Bridge

def stepSelect (b : Bridge) : Option Bridge :=
  if b.pc = .select ∧ (b.outReadable ∨ b.sockReadable) then
    some { b with pc := if b.outReadable then .readOut b.sockReadable else .recv }
  else none

def stepReadOut (b : Bridge) : Option Bridge :=
  match b.pc with
  | .readOut sockReady =>
    if b.out = [] then some { b with pc := .returned }
    else some { b with out := b.out.drop 4096, pc := .sendOut (b.out.take 4096) sockReady }
  | _ => none

def stepSendOut (b : Bridge) : Option Bridge :=
  match b.pc with
  | .sendOut data sockReady =>
    some { b with
      sent := b.sent ++ [(Ws.opBinary, data)]
      pc := if sockReady then .recv else .select }
  | _ => none

def stepRecv (sendable : Nat) (b : Bridge) : Option Bridge :=
  if b.pc = .recv then
    if b.wrapper.initial ≠ [] then
      some (consume b.wrapper.initial sendable { b with wrapper := { b.wrapper with initial := [] } })
    else some { b with pc := .rawRecv }
  else none

-- `self._sock.recv(n)` gives what has arrived, up to 4096 bytes; it blocks until there is any.
def stepRawRecv (count sendable : Nat) (b : Bridge) : Option Bridge :=
  if b.pc = .rawRecv then
    if b.sock = [] then
      if b.sockEof then some { b with pc := .returned } else none
    else if 0 < count ∧ count ≤ 4096 ∧ count ≤ b.sock.length then
      some (consume (b.sock.take count) sendable { b with sock := b.sock.drop count })
    else none
  else none

def stepDeliver (b : Bridge) : Option Bridge :=
  match b.pc with
  | .deliver data => some { b with inFd := b.inFd ++ data, pc := .select }
  | _ => none

def next (b : Bridge) : Label → Option Bridge
  | .atariWrites data => if b.outEof then none else some { b with out := b.out ++ data }
  | .atariCloses => some { b with outEof := true }
  | .serverSends data => if b.sockEof then none else some { b with sock := b.sock ++ data }
  | .serverCloses => some { b with sockEof := true }
  | .enter => if b.pc = .entering then some { b with pc := .select } else none
  | .select => b.stepSelect
  | .readOut => b.stepReadOut
  | .sendOut => b.stepSendOut
  | .recv sendable => b.stepRecv sendable
  | .rawRecv count sendable => b.stepRawRecv count sendable
  | .deliver => b.stepDeliver
  | .raises => if b.pc = .returned then none else some { b with pc := .returned }

end Bridge

def bridgeMachine : Machine Bridge Label := ⟨Bridge.next⟩

end MidiToIp.Gateway
