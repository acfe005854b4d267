import Mathlib.Data.List.Basic
import MidiToIp.Shared.CString

set_option autoImplicit false

namespace MidiToIp.Midi

open Octets

inductive Transport where
  | tcp
  | ws
  deriving DecidableEq, Repr

def settingsMaxValueLength : Nat := 96

def copyValue (value : Bytes) : Bytes := value.take (settingsMaxValueLength - 1)

structure Config where
  host : Bytes := ascii "0.0.0.0"
  tcpPort : Nat := 5005
  wsPort : Nat := 5006
  port : Nat := 5005
  enabled : Bool := true
  transport : Transport := .tcp
  wsPath : Bytes := ascii "/"
  room : Bytes := []
  deriving DecidableEq, Repr

structure Settings where
  entries : Option (List (String × Bytes))

def Settings.value (settings : Settings) (key : String) : Option Bytes :=
  match settings.entries.bind fun entries => entries.lookup key with
  | some [] => none
  | found => found

-- `long` and `int` have 32 bits.
def atoi (text : Bytes) : Int := (CString.strtol text).1

def toUint16 (value : Int) : Nat := (value % 65536).toNat

def upper (b : UInt8) : UInt8 := if 97 ≤ b && b ≤ 122 then b - 32 else b

def startsWith (allowed : String) (value : Bytes) : Bool :=
  value.head?.any fun c => c ∈ ascii allowed

def midiLoadConfig (settings : Settings) (cfg : Config) : Config :=
  let cfg :=
    if settings.entries.isNone then cfg
    else
      { cfg with
        host := ((settings.value "MIDI_HOST").map copyValue).getD cfg.host
        tcpPort := ((settings.value "MIDI_PORT").map (toUint16 ∘ atoi)).getD cfg.tcpPort
        wsPort := ((settings.value "MIDI_WS_PORT").map (toUint16 ∘ atoi)).getD cfg.wsPort
        enabled := ((settings.value "MIDI_ENABLED").map (startsWith "tT1yY")).getD cfg.enabled
        transport :=
          ((settings.value "MIDI_TRANSPORT").map fun value =>
            if startsWith "wW" value then Transport.ws else .tcp).getD cfg.transport
        wsPath := ((settings.value "MIDI_WS_PATH").map copyValue).getD cfg.wsPath
        room := ((settings.value "MIDI_ROOM").map fun value => (copyValue value).map upper).getD [] }
  { cfg with port := if cfg.transport = .ws then cfg.wsPort else cfg.tcpPort }

end MidiToIp.Midi
