import Mathlib.Data.List.Basic
import MidiToIp.Orchestrator.Rooms
import MidiToIp.Shared.Machine
import MidiToIp.WebSocket.Ws

set_option autoImplicit false

-- What a task of `orchestrator.py` does between two awaits is one step. When an await ends, and how, is up
-- to the environment.

namespace MidiToIp.Orchestrator

open Octets Machines

inductive Carrier where
  | tcp
  | ws (dec : Ws.FrameDecoder)

def Carrier.isWs : Carrier → Bool
  | .tcp => false
  | .ws _ => true

inductive Received where
  | eof
  | raised
  | more (carrier : Carrier)
  | data (carrier : Carrier) (bytes : Bytes)

-- The frames of one read: their data, or none if one of them is a close frame.
def gather (out : Bytes) : List Ws.Frame → Option Bytes
  | [] => some out
  | (opcode, payload) :: rest =>
    if opcode = Ws.opBinary ∨ opcode = Ws.opCont ∨ opcode = Ws.opText then gather (out ++ payload) rest
    else if opcode = Ws.opClose then none
    else gather out rest

-- What `recv` makes of one read; no bytes are the end of the stream.
def Carrier.recv (raw : Bytes) : Carrier → Received
  | .tcp => if raw = [] then .eof else .data .tcp raw
  | .ws dec =>
    if raw = [] then .eof
    else
      match dec.feed raw with
      | (_, .error _) => .raised
      | (dec, .ok frames) =>
        match gather [] frames with
        | none => .eof
        | some [] => .more (.ws dec)
        | some out => .data (.ws dec) out

inductive Awaiting where
  | recv
  | drain (target : Player)
  deriving DecidableEq, Repr

inductive Heartbeat where
  | off
  | sleeping
  | draining
  deriving DecidableEq, Repr

structure Task where
  player : Player
  ring : Nat
  carrier : Carrier
  lastRx : Nat
  awaiting : Awaiting := .recv
  heartbeat : Heartbeat

-- A chunk that was read from `source` and appended to the IN of `target`.
structure Send where
  source : Player
  target : Player
  data : Bytes
  deriving DecidableEq, Repr

structure Server where
  rooms : Rooms := {}
  tasks : Nat → Option Task := fun _ => none
  -- Connections whose upgrade response is being written, with the room they ask for.
  handshakes : List (Nat × String) := []
  nextId : Nat := 1
  now : Nat := 0
  closed : List Nat := []
  reads : List (Player × Bytes) := []
  sends : List Send := []

def wsIdleTimeoutMs : Nat := 30000

namespace Server

def setTask (id : Nat) (task : Option Task) (s : Server) : Server :=
  { s with tasks := fun other => if other = id then task else s.tasks other }

def close (conn : Nat) (s : Server) : Server := { s with closed := s.closed ++ [conn] }

/-- `_drop_player`: the registry is looked up by the player's room. -/
def dropPlayer (player : Player) (s : Server) : Server :=
  let rooms :=
    match s.rooms.registry player.room with
    | some ring => s.rooms.update ring (Registry.remove player.id)
    | none => s.rooms
  close player.conn { s with rooms := rooms }

def handleConn (conn : Nat) (carrier : Carrier) (roomKey : String) (s : Server) : Server :=
  let ring := s.rooms.get roomKey
  if maxPlayersPerRoom ≤ (s.rooms.rings ring).size then close conn s
  else
    let player : Player := ⟨s.nextId, roomKey, conn⟩
    setTask player.id
      (some
        { player := player
          ring := ring
          carrier := carrier
          lastRx := s.now
          heartbeat := if carrier.isWs then .sleeping else .off })
      { s with
        rooms := (s.rooms.update ring (Registry.add player)).markUsed roomKey
        nextId := s.nextId + 1 }

def finish (task : Task) (s : Server) : Server :=
  setTask task.player.id none
    (close task.player.conn
      { s with rooms := s.rooms.update task.ring (Registry.remove task.player.id) })

def relay (task : Task) (data : Bytes) (s : Server) : Server :=
  match (s.rooms.rings task.ring).nextPlayer task.player with
  | none => setTask task.player.id (some { task with awaiting := .recv }) s
  | some target =>
    setTask task.player.id (some { task with awaiting := .drain target })
      { s with sends := s.sends ++ [⟨task.player, target, data⟩] }

def read (task : Task) (raw : Bytes) (s : Server) : Server :=
  match task.carrier.recv raw with
  | .eof => finish task s
  | .raised => finish task s
  | .more carrier =>
    setTask task.player.id (some { task with carrier := carrier, lastRx := s.now }) s
  | .data carrier data =>
    relay { task with carrier := carrier, lastRx := s.now } data
      { s with reads := s.reads ++ [(task.player, data)] }

inductive Drain where
  | done
  | timeout
  | connectionError
  | crash
  deriving DecidableEq, Repr

def drained (task : Task) (target : Player) (outcome : Drain) (s : Server) : Server :=
  let resumed := setTask task.player.id (some { task with awaiting := .recv }) s
  match outcome with
  | .done => resumed
  | .timeout => dropPlayer target resumed
  | .connectionError => resumed
  | .crash => finish task s

def wsRequest (conn : Nat) (roomKey : String) (s : Server) : Server :=
  if !s.rooms.isOpen roomKey then close conn s
  else if s.rooms.isFull roomKey then close conn s
  else { s with handshakes := s.handshakes ++ [(conn, roomKey)] }

def deleteRoom (key : String) (s : Server) : Server :=
  let (dropped, rooms) := s.rooms.delete key
  { s with
    rooms := rooms
    closed := s.closed ++ (dropped.getD []).map Player.conn }

def start (saved : List String) : Server := { rooms := Rooms.load saved }

end Server

inductive Label where
  | tick (ms : Nat)
  | tcpConnect (conn : Nat)
  | wsRequest (conn : Nat) (roomKey : String)
  | wsDrained (conn : Nat) (ok : Bool)
  | read (player : Nat) (raw : Option Bytes)
  | drained (player : Nat) (outcome : Server.Drain)
  | heartbeat (player : Nat)
  | heartbeatDrained (player : Nat) (ok : Bool)
  | create (key : String)
  | delete (key : String)
  | reap (ttl : Nat)

namespace Server

-- A read that raises has no bytes.
def stepRead (player : Nat) (raw : Option Bytes) (s : Server) : Option Server :=
  (s.tasks player).bind fun task =>
    if task.awaiting = .recv then
      match raw with
      | none => some (finish task s)
      | some raw => some (read task raw s)
    else none

def stepDrained (player : Nat) (outcome : Drain) (s : Server) : Option Server :=
  (s.tasks player).bind fun task =>
    match task.awaiting with
    | .recv => none
    | .drain target => some (drained task target outcome s)

def stepHeartbeat (player : Nat) (s : Server) : Option Server :=
  (s.tasks player).bind fun task =>
    if task.heartbeat = .sleeping then
      if s.now - task.lastRx > wsIdleTimeoutMs then
        some (dropPlayer task.player (setTask player (some { task with heartbeat := .off }) s))
      else some (setTask player (some { task with heartbeat := .draining }) s)
    else none

def stepHeartbeatDrained (player : Nat) (ok : Bool) (s : Server) : Option Server :=
  (s.tasks player).bind fun task =>
    if task.heartbeat = .draining then
      if ok then some (setTask player (some { task with heartbeat := .sleeping }) s)
      else some (dropPlayer task.player (setTask player (some { task with heartbeat := .off }) s))
    else none

def stepWsDrained (conn : Nat) (ok : Bool) (s : Server) : Option Server :=
  (s.handshakes.lookup conn).map fun roomKey =>
    let s := { s with handshakes := s.handshakes.filter fun entry => entry.1 ≠ conn }
    if ok then handleConn conn (.ws {}) roomKey s else close conn s

def next (s : Server) : Label → Option Server
  | .tick ms => some { s with now := s.now + ms }
  | .tcpConnect conn => some (s.handleConn conn .tcp defaultRoom)
  | .wsRequest conn roomKey => some (s.wsRequest conn roomKey)
  | .wsDrained conn ok => s.stepWsDrained conn ok
  | .read player raw => s.stepRead player raw
  | .drained player outcome => s.stepDrained player outcome
  | .heartbeat player => s.stepHeartbeat player
  | .heartbeatDrained player ok => s.stepHeartbeatDrained player ok
  | .create key => some { s with rooms := (s.rooms.create key).2 }
  | .delete key => some (s.deleteRoom key)
  | .reap ttl => some { s with rooms := s.rooms.reapEmpty s.now ttl }

end Server

def serverMachine : Machine Server Label := ⟨Server.next⟩

namespace Server

def owner (s : Server) (id : Nat) : Option (Player × Nat) :=
  (s.tasks id).map fun task => (task.player, task.ring)

def joining (s : Server) : Label → Option String
  | .tcpConnect _ => some defaultRoom
  | .wsDrained conn ok => if ok then s.handshakes.lookup conn else none
  | _ => none

def dropping (s : Server) : Label → Option Player
  | .drained id outcome =>
    (s.tasks id).bind fun task =>
      match task.awaiting, outcome with
      | .drain target, .timeout => some target
      | _, _ => none
  | .heartbeat id =>
    (s.tasks id).bind fun task =>
      if s.now - task.lastRx > wsIdleTimeoutMs then some task.player else none
  | .heartbeatDrained id ok => if ok then none else (s.tasks id).map Task.player
  | _ => none

inductive Effect (s : Server) (label : Label) (after : Server) : Prop where
  | quiet (none_ : s.dropping label = none) (rooms : s.rooms.Settles after.rooms)
      (owner : after.owner = s.owner) (nextId : after.nextId = s.nextId)
      (reads : after.reads = s.reads) (sends : after.sends = s.sends)
  | join (none_ : s.dropping label = none) (player : Player) (id : player.id = s.nextId)
      (joins : s.joining label = some player.room)
      (rooms : after.rooms = (s.rooms.update (s.rooms.get player.room)
        (Registry.add player)).markUsed player.room)
      (owner : after.owner =
        Function.update s.owner player.id (some (player, s.rooms.get player.room)))
      (nextId : after.nextId = s.nextId + 1)
      (reads : after.reads = s.reads) (sends : after.sends = s.sends)
  | leave (none_ : s.dropping label = none) (player : Player) (ring : Nat)
      (owned : s.owner player.id = some (player, ring))
      (rooms : after.rooms = s.rooms.update ring (Registry.remove player.id))
      (owner : after.owner = Function.update s.owner player.id none)
      (nextId : after.nextId = s.nextId)
      (reads : after.reads = s.reads) (sends : after.sends = s.sends)
  | drop (player : Player) (drops : s.dropping label = some player)
      (rooms : after.rooms = (s.dropPlayer player).rooms)
      (owner : after.owner = s.owner) (nextId : after.nextId = s.nextId)
      (reads : after.reads = s.reads) (sends : after.sends = s.sends)
  | relay (none_ : s.dropping label = none) (player : Player) (ring : Nat) (data : Bytes)
      (owned : s.owner player.id = some (player, ring)) (rooms : after.rooms = s.rooms)
      (owner : after.owner = s.owner) (nextId : after.nextId = s.nextId)
      (reads : after.reads = s.reads ++ [(player, data)])
      (sends : after.sends = s.sends ++
        (((s.rooms.rings ring).nextPlayer player).map fun target => ⟨player, target, data⟩).toList)

def Keyed (s : Server) : Prop := ∀ id player ring, s.owner id = some (player, ring) → player.id = id

theorem Keyed.task {s : Server} (keyed : s.Keyed) (id : Nat) (task : Task)
    (found : s.tasks id = some task) : task.player.id = id :=
  keyed id task.player task.ring (by simp [owner, found])

theorem owner_setTask (s : Server) (id : Nat) (task : Option Task) :
    (s.setTask id task).owner =
      Function.update s.owner id (task.map fun task => (task.player, task.ring)) := by
  funext other
  by_cases same : other = id
  · subst same
    simp [owner, setTask]
  · simp [owner, setTask, same]

theorem setTask_owner (s : Server) (id : Nat) (before task : Task) (found : s.tasks id = some before)
    (player : task.player = before.player) (ring : task.ring = before.ring) :
    (s.setTask id (some task)).owner = s.owner := by
  rw [owner_setTask, Function.update_eq_self_iff]
  simp [owner, found, player, ring]

theorem setHeartbeat_owner (s : Server) (id : Nat) (task : Task) (found : s.tasks id = some task)
    (heartbeat : Heartbeat) : (s.setTask id (some { task with heartbeat := heartbeat })).owner = s.owner :=
  setTask_owner s id task _ found rfl rfl

theorem handleConn_effect (s middle : Server) (label : Label) (conn : Nat) (carrier : Carrier)
    (roomKey : String) (joins : s.joining label = some roomKey) (none_ : s.dropping label = none)
    (rooms : middle.rooms = s.rooms) (owner : middle.owner = s.owner)
    (nextId : middle.nextId = s.nextId) (reads : middle.reads = s.reads)
    (sends : middle.sends = s.sends) : Effect s label (middle.handleConn conn carrier roomKey) := by
  unfold handleConn
  simp only [rooms, nextId]
  split
  · exact .quiet none_ (by simp only [close, rooms]; exact .refl _) owner nextId reads sends
  · refine .join none_ ⟨s.nextId, roomKey, conn⟩ rfl joins rfl ?_ rfl reads sends
    rw [owner_setTask, ← owner]
    rfl

theorem finish_effect (s : Server) (label : Label) (id : Nat) (task : Task) (keyed : s.Keyed)
    (found : s.tasks id = some task) (none_ : s.dropping label = none) :
    Effect s label (s.finish task) := by
  have isId := keyed.task id task found
  refine .leave none_ task.player task.ring (by simp [owner, isId, found]) rfl ?_ rfl rfl rfl
  rw [finish, owner_setTask]
  rfl

theorem relay_effect (s : Server) (label : Label) (id : Nat) (before task : Task) (data : Bytes)
    (found : s.tasks id = some before) (isId : before.player.id = id)
    (player : task.player = before.player) (ring : task.ring = before.ring)
    (none_ : s.dropping label = none) :
    Effect s label (relay task data { s with reads := s.reads ++ [(task.player, data)] }) := by
  have kept (awaiting : Awaiting) (reads : List (Player × Bytes)) (sends : List Send) :
      (setTask task.player.id (some { task with awaiting := awaiting })
        { s with reads := reads, sends := sends }).owner = s.owner :=
    setTask_owner { s with reads := reads, sends := sends } task.player.id before _
      (by rw [player, isId]; exact found) player ring
  have owned : s.owner task.player.id = some (task.player, task.ring) := by
    simp [owner, player, ring, isId, found]
  unfold Server.relay
  split
  next none_' =>
    exact .relay none_ task.player task.ring data owned rfl (kept _ _ _) rfl rfl
      (by simp [setTask, none_'])
  next target some_ =>
    exact .relay none_ task.player task.ring data owned rfl (kept _ _ _) rfl rfl
      (by simp [setTask, some_])

theorem dropPlayer_effect (s middle : Server) (label : Label) (player : Player)
    (drops : s.dropping label = some player) (rooms : middle.rooms = s.rooms)
    (owner : middle.owner = s.owner) (nextId : middle.nextId = s.nextId)
    (reads : middle.reads = s.reads) (sends : middle.sends = s.sends) :
    Effect s label (middle.dropPlayer player) := by
  refine .drop player drops ?_ owner nextId reads sends
  simp [dropPlayer, close, rooms]

theorem next_effect (s after : Server) (label : Label) (keyed : s.Keyed)
    (step : s.next label = some after) : Effect s label after := by
  cases label with
  | tick ms =>
    obtain rfl := Option.some.inj step
    exact .quiet rfl (.refl _) rfl rfl rfl rfl
  | tcpConnect conn =>
    obtain rfl := Option.some.inj step
    exact handleConn_effect s s _ conn .tcp defaultRoom rfl rfl rfl rfl rfl rfl rfl
  | wsRequest conn roomKey =>
    obtain rfl := Option.some.inj step
    unfold Server.wsRequest
    split
    · exact .quiet rfl (.refl _) rfl rfl rfl rfl
    split
    · exact .quiet rfl (.refl _) rfl rfl rfl rfl
    · exact .quiet rfl (.refl _) rfl rfl rfl rfl
  | wsDrained conn ok =>
    obtain ⟨roomKey, found, rfl⟩ := Option.map_eq_some_iff.mp step
    cases ok with
    | false => exact .quiet rfl (.refl _) rfl rfl rfl rfl
    | true =>
      exact handleConn_effect s _ _ conn (.ws {}) roomKey (by simp [joining, found]) rfl rfl rfl rfl rfl
        rfl
  | read player raw =>
    obtain ⟨task, found, step⟩ := Option.bind_eq_some_iff.mp step
    have isId := keyed.task player task found
    split at step
    next =>
      cases raw with
      | none =>
        obtain rfl := Option.some.inj step
        exact finish_effect s _ player task keyed found rfl
      | some raw =>
        obtain rfl := Option.some.inj step
        unfold Server.read
        split
        · exact finish_effect s _ player task keyed found rfl
        · exact finish_effect s _ player task keyed found rfl
        · exact .quiet rfl (.refl _)
            (setTask_owner s _ task _ (by rw [isId]; exact found) rfl rfl) rfl rfl rfl
        · exact relay_effect s _ player task _ _ found isId rfl rfl rfl
    next => simp at step
  | drained player outcome =>
    obtain ⟨task, found, step⟩ := Option.bind_eq_some_iff.mp step
    have isId := keyed.task player task found
    split at step
    next => simp at step
    next target awaiting =>
      obtain rfl := Option.some.inj step
      have same : (s.setTask task.player.id (some { task with awaiting := .recv })).owner = s.owner :=
        setTask_owner s _ task _ (by rw [isId]; exact found) rfl rfl
      cases outcome with
      | done => exact .quiet (by simp [dropping, found]) (.refl _) same rfl rfl rfl
      | timeout =>
        exact dropPlayer_effect s _ _ target (by simp [dropping, found, awaiting]) rfl same rfl rfl rfl
      | connectionError => exact .quiet (by simp [dropping, found]) (.refl _) same rfl rfl rfl
      | crash => exact finish_effect s _ player task keyed found (by simp [dropping, found])
  | heartbeat player =>
    obtain ⟨task, found, step⟩ := Option.bind_eq_some_iff.mp step
    have same := setHeartbeat_owner s player task found
    split at step
    next =>
      split at step
      next idle =>
        obtain rfl := Option.some.inj step
        exact dropPlayer_effect s _ _ task.player (by simp [dropping, found, idle]) rfl (same .off)
          rfl rfl rfl
      next live =>
        obtain rfl := Option.some.inj step
        exact .quiet (by simp [dropping, found, live]) (.refl _) (same .draining) rfl rfl rfl
    next => simp at step
  | heartbeatDrained player ok =>
    obtain ⟨task, found, step⟩ := Option.bind_eq_some_iff.mp step
    have same := setHeartbeat_owner s player task found
    split at step
    next =>
      cases ok with
      | true =>
        obtain rfl := Option.some.inj step
        exact .quiet (by simp [dropping]) (.refl _) (same .sleeping) rfl rfl rfl
      | false =>
        obtain rfl := Option.some.inj step
        exact dropPlayer_effect s _ _ task.player (by simp [dropping, found]) rfl (same .off)
          rfl rfl rfl
    next => simp at step
  | create key =>
    obtain rfl := Option.some.inj step
    exact .quiet rfl (Rooms.create_settles key s.rooms) rfl rfl rfl rfl
  | delete key =>
    obtain rfl := Option.some.inj step
    exact .quiet rfl (Rooms.delete_settles key s.rooms) rfl rfl rfl rfl
  | reap ttl =>
    obtain rfl := Option.some.inj step
    exact .quiet rfl (Rooms.reapEmpty_settles s.now ttl s.rooms) rfl rfl rfl rfl

structure Owned (s : Server) : Prop where
  keyed : s.Keyed
  below : ∀ id, s.nextId ≤ id → s.owner id = none
  held : ∀ ring p, p ∈ (s.rooms.rings ring).players → s.owner p.id = some (p, ring)

theorem mem_update (rooms : Rooms) (ring other : Nat) (change : Registry → Registry) (p : Player)
    (member : p ∈ ((rooms.update ring change).rings other).players) :
    p ∈ (rooms.rings other).players ∨
      other = ring ∧ p ∈ (change (rooms.rings ring)).players := by
  simp only [Rooms.update] at member
  split at member
  next same => exact .inr ⟨same, member⟩
  next => exact .inl member

theorem mem_dropPlayer (s : Server) (player : Player) (ring : Nat) (p : Player) :
    p ∈ ((s.dropPlayer player).rooms.rings ring).players ↔
      p ∈ (s.rooms.rings ring).players ∧
        ¬ (s.rooms.dir.lookup player.room = some ring ∧ p.id = player.id) := by
  unfold dropPlayer Rooms.registry
  cases found : s.rooms.dir.lookup player.room with
  | none => simp [close]
  | some home =>
    by_cases same : ring = home
    · subst same
      simp [close, Rooms.update, Registry.mem_remove]
    · simp [close, Rooms.update, same, Ne.symm same]

theorem Owned.absent {s : Server} (owned : s.Owned) (ring : Nat) :
    s.nextId ∉ (s.rooms.rings ring).ids := by
  intro member
  obtain ⟨p, held, id⟩ := List.mem_map.mp member
  have none_ := owned.below p.id (by rw [id])
  rw [owned.held ring p held] at none_
  simp at none_

theorem Effect.owned {s after : Server} {label : Label} (effect : Effect s label after)
    (owned : s.Owned) : after.Owned := by
  cases effect with
  | quiet _ rooms owner nextId =>
    exact ⟨by rw [Keyed, owner]; exact owned.keyed, by rw [owner, nextId]; exact owned.below,
      by rw [owner, rooms.rings]; exact owned.held⟩
  | join _ player id _ rooms owner nextId =>
    refine ⟨?_, ?_, ?_⟩
    · intro other p ring found
      rw [owner] at found
      by_cases new : other = player.id
      · subst new
        simp only [Function.update_self, Option.some.injEq, Prod.mk.injEq] at found
        rw [← found.1]
      · rw [Function.update_of_ne new] at found
        exact owned.keyed other p ring found
    · intro other beyond
      rw [nextId] at beyond
      rw [owner, Function.update_of_ne (by omega)]
      exact owned.below other (by omega)
    · intro ring p member
      rw [rooms] at member
      have old (held : p ∈ (s.rooms.rings ring).players) : after.owner p.id = some (p, ring) := by
        have before := owned.held ring p held
        have different : p.id ≠ player.id := by
          intro same
          rw [same, id, owned.below s.nextId (Nat.le_refl _)] at before
          simp at before
        rw [owner, Function.update_of_ne different]
        exact before
      rcases mem_update s.rooms _ ring _ p member with held | ⟨rfl, entered⟩
      · exact old held
      · rw [Registry.players_add _ player (by rw [id]; exact owned.absent _)] at entered
        rcases List.mem_append.mp entered with held | new
        · exact old held
        · obtain rfl := List.mem_singleton.mp new
          rw [owner, Function.update_self]
  | leave _ player ring held rooms owner nextId =>
    refine ⟨?_, ?_, ?_⟩
    · intro other p home found
      rw [owner] at found
      by_cases gone : other = player.id
      · subst gone
        simp at found
      · rw [Function.update_of_ne gone] at found
        exact owned.keyed other p home found
    · intro other beyond
      rw [nextId] at beyond
      rw [owner]
      by_cases gone : other = player.id
      · subst gone
        exact Function.update_self ..
      · rw [Function.update_of_ne gone]
        exact owned.below other beyond
    · intro home p member
      rw [rooms] at member
      have stays : p ∈ (s.rooms.rings home).players ∧ p.id ≠ player.id := by
        rcases mem_update s.rooms ring home _ p member with before | ⟨rfl, before⟩
        · refine ⟨before, fun same => ?_⟩
          have own := owned.held home p before
          rw [same, held] at own
          simp only [Option.some.injEq, Prod.mk.injEq] at own
          obtain ⟨rfl, rfl⟩ := own
          simp [Rooms.update, Registry.mem_remove] at member
        · exact (Registry.mem_remove _ _ p).mp before
      rw [owner, Function.update_of_ne stays.2]
      exact owned.held home p stays.1
  | drop player _ rooms owner nextId =>
    refine ⟨by rw [Keyed, owner]; exact owned.keyed, by rw [owner, nextId]; exact owned.below, ?_⟩
    intro ring p member
    rw [rooms, mem_dropPlayer] at member
    rw [owner]
    exact owned.held ring p member.1
  | relay _ player ring data _ rooms owner nextId =>
    exact ⟨by rw [Keyed, owner]; exact owned.keyed, by rw [owner, nextId]; exact owned.below,
      by rw [owner, rooms]; exact owned.held⟩

theorem start_owned (saved : List String) : (start saved).Owned := by
  refine ⟨by simp [Keyed, start, owner], by simp [start, owner], ?_⟩
  intro ring p member
  have rings := (Rooms.load_settles saved).rings
  simp only [start, rings] at member
  simp at member

end Server

end MidiToIp.Orchestrator
