import MidiToIp.Orchestrator.Inspector
import MidiToIp.Orchestrator.Persistence
import MidiToIp.Orchestrator.Request
import MidiToIp.Shared.JsonText
import MidiToIp.WebSocket.AcceptKey

set_option autoImplicit false

-- asyncio limits the stream to `limit` bytes a line. What a client sends is fixed beforehand, and so is how
-- the connection ends: a reader that asks for more gets the end of the stream, an OSError, or waits forever.

namespace MidiToIp.Orchestrator

open Octets Dicts CString

structure Details where
  peer : String
  ip : String
  host : String
  transport : String
  connectedAt : Rat
  lastActive : Rat
  bytesOut : Nat
  bytesIn : Nat

structure Site where
  store : RoomStore := {}
  dropped : List Nat := []
  inspectors : Inspectors := fun _ => none
  details : Nat → Details
  clock : Rat
  wall : Rat
  startedAt : Rat
  listenAddr : String
  adminKey : Str
  persists : Bool
  -- What `_gen_room_code` draws.
  codes : List String
  lobbyPage : Bytes
  statusPage : Bytes

def startSite : Site where
  details _ := ⟨"", "", "", "", 0, 0, 0, 0⟩
  clock := 0
  wall := 0
  startedAt := 0
  listenAddr := "0.0.0.0:5004"
  adminKey := []
  persists := false
  codes := []
  lobbyPage := []
  statusPage := []

inductive Ending where
  | eof
  | reset
  | silent
  deriving DecidableEq, Repr

/-- The lines still to be read, without their newlines, and the bytes behind the last newline. `drains`
tells whether `drain` goes through. -/
structure Wire where
  lines : List Bytes
  remnant : Bytes
  ending : Ending
  drains : Bool
  written : Bytes := []
  closed : Bool := false
  site : Site

def splitLines : Bytes → List Bytes × Bytes
  | [] => ([], [])
  | b :: rest =>
    let (lines, remnant) := splitLines rest
    if b = 10 then ([] :: lines, remnant)
    else
      match lines with
      | [] => ([], b :: remnant)
      | line :: lines => ((b :: line) :: lines, remnant)

def joinLines (lines : List Bytes) (remnant : Bytes) : Bytes := lines.flatMap (· ++ [10]) ++ remnant

def connect (site : Site) (input : Bytes) (ending : Ending) (drains : Bool) : Wire :=
  { lines := (splitLines input).1
    remnant := (splitLines input).2
    ending := ending
    drains := drains
    site := site }

inductive Stop where
  | raised (exc : Exc)
  | waiting
  deriving DecidableEq, Repr

abbrev Handler := EStateM Stop Wire

def raise {Result : Type} (exc : Exc) : Handler Result := throw (.raised exc)

def limit : Nat := 65536

def atEnd (read : Bytes) : Handler Bytes := fun wire =>
  match wire.ending with
  | .eof => .ok read { wire with lines := [], remnant := [] }
  | .reset => .error (.raised .osError) wire
  | .silent => .error .waiting wire

def readline : Handler Bytes := fun wire =>
  match wire.lines with
  | line :: rest =>
    if limit < line.length then raise .valueError wire else .ok (line ++ [10]) { wire with lines := rest }
  | [] => if limit < wire.remnant.length then raise .valueError wire else atEnd wire.remnant wire

-- `readexactly`, and what came of it if the stream ends before.
def readexactly (count : Nat) : Handler Bytes := fun wire =>
  let input := joinLines wire.lines wire.remnant
  if count ≤ input.length then
    .ok (input.take count)
      { wire with
        lines := (splitLines (input.drop count)).1
        remnant := (splitLines (input.drop count)).2 }
  else atEnd input wire

def write (data : Bytes) : Handler Unit := modify fun wire => { wire with written := wire.written ++ data }

def drain : Handler Unit := fun wire => if wire.drains then .ok () wire else raise .osError wire

def close : Handler Unit := modify fun wire => { wire with closed := true }

def isBlank (line : Bytes) : Bool := line = [13, 10] ∨ line = [10] ∨ line = []

def readHeaderLines : Nat → Bytes → Handler Bytes
  | 0, _ => throw .waiting
  | fuel + 1, rawHeaders => do
    let line ← readline
    if isBlank line then return rawHeaders else readHeaderLines fuel (rawHeaders ++ line)

def readHead : Handler (Option (Bytes × Bytes)) := do
  let requestLine ← readline
  if requestLine = [] then return none
  else
    let wire ← get
    let rawHeaders ← readHeaderLines (wire.lines.length + 2) []
    return some (requestLine, rawHeaders)

def readBody (clen : Nat) : Handler Bytes := if 0 < clen then readexactly clen else return []

def phaseName : Phase → String
  | .idle => "idle"
  | .electing => "electing"
  | .counting => "counting"
  | .inGame => "in-game"

def truncated (value : Rat) : Int := if 0 ≤ value then value.floor else value.ceil

section Pages

open JsonText

def showPlayer (s : Site) (player : Player) : Value :=
  let details := s.details player.id
  .obj
    [("id", .int player.id), ("ip", .str details.ip), ("host", .str details.host),
      ("peer", .str details.peer), ("transport", .str details.transport),
      ("connected_s", .int (truncated (s.clock - details.connectedAt))),
      ("idle_s", .int (truncated (s.clock - details.lastActive))),
      ("bytes_out", .int details.bytesOut), ("bytes_in", .int details.bytesIn)]

def statusSnapshot (s : Site) (room : String) : Value :=
  let reg := (s.store.rooms.registry room).map s.store.rooms.rings
  let players := (reg.map Registry.players).getD []
  let observed := (reg.map fun reg => roomObserve reg s.inspectors).getD (.idle, none)
  .obj
    [("uptime_s", .int (truncated (s.clock - s.startedAt))), ("listen", .str s.listenAddr),
      ("room", .str room), ("players_online", .int players.length), ("cap", .int maxPlayersPerRoom),
      ("phase", .str (phaseName observed.1)),
      ("master", (observed.2.map fun id => Value.int id).getD .null),
      ("ring", .arr (players.map fun player => .int player.id)),
      ("players", .arr (players.map (showPlayer s)))]

def statusJson (s : Site) (room : String) : Bytes := dumps (some 2) (statusSnapshot s room)

def summaries (s : Site) : List Value :=
  s.store.rooms.dir.entries.map fun entry =>
    .obj
      [("room", .str entry.1), ("players", .int (s.store.rooms.rings entry.2).size),
        ("cap", .int maxPlayersPerRoom),
        ("phase", .str (phaseName (roomObserve (s.store.rooms.rings entry.2) s.inspectors).1))]

def roomsJson (s : Site) : Bytes := dumps (some 2) (.obj [("rooms", .arr (summaries s))])

end Pages

def errorBody (text : String) : Bytes := ascii "\x7b\"error\":\"" ++ ascii text ++ ascii "\"\x7d"

def jsonType : String := "application/json"
def htmlType : String := "text/html; charset=utf-8"

def response (status : String) (body : Bytes) (ctype : String) : Bytes :=
  ascii "HTTP/1.1 " ++ ascii status ++ ascii "\r\n" ++
    ascii "Content-Type: " ++ ascii ctype ++ ascii "\r\n" ++
    ascii "Access-Control-Allow-Origin: *\r\n" ++
    ascii "Content-Length: " ++ decimal body.length ++ ascii "\r\n" ++
    ascii "Connection: close\r\n\r\n" ++ body

def httpSend (status : String) (body : Bytes) (ctype : String) : Handler Unit := do
  write (response status body ctype)
  drain

def adminOk (s : Site) (headers : Headers) : Bool :=
  s.adminKey ≠ [] ∧ headers.get "x-admin-key" "" = s.adminKey

section Handlers

variable (python : Python)

def checked {Result : Type} : Except Exc Result → Handler Result
  | .ok result => pure result
  | .error exc => raise exc

-- `_save`, of the rooms as they have become. It logs an OSError.
def save : Handler Unit := do
  let wire ← get
  if wire.site.persists then
    match python.dump wire.site.store.saved with
    | .error .osError => return ()
    | attempt => checked attempt
  else return ()

def createRoom (key : String) : Handler Bool := do
  let wire ← get
  let (created, store) := wire.site.store.create key wire.site.wall ""
  set { wire with site := { wire.site with store := store } }
  if created then save python
  return created

def deleteRoom (key : String) : Handler (Option (List Player)) := do
  let wire ← get
  let (players, store) := wire.site.store.delete key
  set { wire with site := { wire.site with store := store } }
  if players.isSome then save python
  return players

def closePlayers (players : List Player) : Handler Unit := modify fun wire =>
  { wire with site := { wire.site with dropped := wire.site.dropped ++ players.map Player.conn } }

def sendCreated (key : String) : Handler Unit := do
  let created ← createRoom python key
  httpSend "200 OK" (JsonText.dumps none (.obj [("room", .str key), ("created", .bool created)])) jsonType

def adminRequired : Handler Unit :=
  httpSend "403 Forbidden" (errorBody "admin key required") jsonType

def postRaw (raw : String) : Handler Unit := do
  let wire ← get
  let key := python.normalizeRoom raw
  if key = "" then
    match genRoomCode wire.site.codes wire.site.store.rooms with
    | some code => sendCreated python code
    | none => throw .waiting
  else if !validRoom key then httpSend "400 Bad Request" (errorBody "invalid room key") jsonType
  else sendCreated python key

def postRoom (body : Bytes) : Handler Unit := checked (roomKeyFromBody python body) >>= postRaw python

def sendDeleted (key : String) : Option (List Player) → Handler Unit
  | none => httpSend "404 Not Found" (errorBody "no such room") jsonType
  | some players => do
    closePlayers players
    httpSend "200 OK" (JsonText.dumps none (.obj [("room", .str key), ("deleted", .bool true)])) jsonType

def respond (headers : Headers) (body : Bytes) (route : Route) : Handler Unit := do
  let wire ← get
  match route with
  | .status room => httpSend "200 OK" (statusJson wire.site room) jsonType
  | .rooms => httpSend "200 OK" (roomsJson wire.site) jsonType
  | .createRoom => if !adminOk wire.site headers then adminRequired else postRoom python body
  | .deleteRoom key =>
    if !adminOk wire.site headers then adminRequired else deleteRoom python key >>= sendDeleted key
  | .lobby => httpSend "200 OK" wire.site.lobbyPage htmlType
  | .page => httpSend "200 OK" wire.site.statusPage htmlType
  | .notFound => httpSend "404 Not Found" (errorBody "not found") jsonType

def routeHttp (method path : Str) (headers : Headers) (body : Bytes) : Handler Unit :=
  respond python headers body (route python method path)

def exceptOSError {Result : Type} (body recover : Handler Result) : Handler Result := fun wire =>
  match body wire with
  | .error (.raised .osError) wire => recover wire
  | result => result

def finallyClose {Result : Type} (body : Handler Result) : Handler Result := fun wire =>
  match body wire with
  | .ok result wire => .ok result { wire with closed := true }
  | .error .waiting wire => .error .waiting wire
  | .error (.raised exc) wire => .error (.raised exc) { wire with closed := true }

def httpMethod (requestLine : Bytes) : Str :=
  match python.words (latin1 requestLine) with
  | [] => "GET".toList
  | method :: _ => python.upperCase method

def httpPath (requestLine : Bytes) : Str :=
  match python.words (latin1 requestLine) with
  | _ :: path :: _ => path
  | _ => "/".toList

def httpRequest (requestLine : Bytes) (headers : Headers) : Handler Unit := do
  let body ← readBody (contentLength python headers)
  routeHttp python (httpMethod python requestLine) (httpPath python requestLine) headers body

def httpHead : Option (Bytes × Bytes) → Handler Unit
  | none => close
  | some (requestLine, rawHeaders) => httpRequest python requestLine (parseHeaders python rawHeaders)

def handleHttp : Handler Unit := finallyClose (exceptOSError (readHead >>= httpHead python) (pure ()))

def wsMethod (requestLine : Bytes) : Str :=
  python.upperCase (((latin1 requestLine).splitOn ' ').headD [])

def wsPath (requestLine : Bytes) : Str := ((latin1 requestLine).splitOn ' ').getD 1 []

def roomAsked (requestLine : Bytes) (headers : Headers) : String :=
  let auth := headers.get "authorization" ""
  if python.lowerCase (auth.take 7) = "bearer ".toList then
    python.normalizeRoom (String.ofList (auth.drop 7))
  else python.normalizeRoom (queryParam (wsPath requestLine) "room")

def forbidden : Bytes := ascii "HTTP/1.1 403 Forbidden\r\nConnection: close\r\n\r\n"

def refuse : Handler (Option String) := do
  write forbidden
  drain
  close
  return none

def upgrades (headers : Headers) : Bool := headers.get "sec-websocket-key" "" ≠ [] ∧ isUpgrade python headers

def switchProtocols (roomKey : String) : Option Bytes → Handler (Option String)
  | none => raise .unicodeEncodeError
  | some accept => do
    write (Ws.handshakeResponse accept)
    drain
    return some roomKey

def upgrade (requestLine : Bytes) (headers : Headers) : Handler (Option String) := do
  let roomKey := roomAsked python requestLine headers
  let wire ← get
  if !wire.site.store.rooms.isOpen roomKey then refuse
  else if wire.site.store.rooms.isFull roomKey then refuse
  else switchProtocols roomKey (Ws.acceptKey (String.ofList (headers.get "sec-websocket-key" "")))

def wsRequest (requestLine : Bytes) (headers : Headers) : Handler (Option String) :=
  if !upgrades python headers then do
    let body ← readBody (contentLength python headers)
    routeHttp python (wsMethod python requestLine) (wsPath requestLine) headers body
    close
    return none
  else upgrade python requestLine headers

def wsHead : Option (Bytes × Bytes) → Handler (Option String)
  | none => do
    close
    return none
  | some (requestLine, rawHeaders) => wsRequest python requestLine (parseHeaders python rawHeaders)

def handleWs : Handler (Option String) :=
  exceptOSError (readHead >>= wsHead python) (do
    close
    return none)

end Handlers

end MidiToIp.Orchestrator
