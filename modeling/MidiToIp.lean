import MidiToIp.WebSocket.CodecAgreement
import MidiToIp.WebSocket.WsRoundTrip
import MidiToIp.Midi.SingleConnection
import MidiToIp.Midi.NoReplay
import MidiToIp.Midi.Upgrade
import MidiToIp.Midi.Bconin
import MidiToIp.Orchestrator.RingRelay
import MidiToIp.Orchestrator.Receive
import MidiToIp.Orchestrator.Persistence
import MidiToIp.Orchestrator.Inspector
import MidiToIp.Gateway.Wakeup
import MidiToIp.Settings.Survive
import MidiToIp.Command.Launch
import MidiToIp.Command.Acknowledge
import MidiToIp.Orchestrator.RingCycle
import MidiToIp.Orchestrator.MazeTraffic
import MidiToIp.Command.SampleRing
import MidiToIp.WebSocket.AcceptKey
import MidiToIp.Settings.Migrate
import MidiToIp.Orchestrator.RoomsFile
import MidiToIp.Midi.Abort
import MidiToIp.Midi.OutSide
import MidiToIp.Orchestrator.Downstream
import MidiToIp.Terminal.Entry
import MidiToIp.Terminal.Grid
import MidiToIp.Terminal.Countdown
import MidiToIp.Firmware.RomInRam
import MidiToIp.Orchestrator.Handshake
import MidiToIp.Orchestrator.BothPorts
import MidiToIp.Orchestrator.Lifecycle
import MidiToIp.Orchestrator.Heartbeat
import MidiToIp.Orchestrator.Framed
import MidiToIp.System.Admission
import MidiToIp.System.BytePath
import MidiToIp.System.Bus
import MidiToIp.Gateway.Verbatim
import MidiToIp.Midi.Reconnect
import MidiToIp.Midi.Stalled
import MidiToIp.Command.Hook
import MidiToIp.Display.Screen
import MidiToIp.Settings.Apps
import MidiToIp.Orchestrator.Passed
