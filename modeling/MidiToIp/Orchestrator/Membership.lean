import Mathlib.Data.List.Basic
import MidiToIp.Orchestrator.Provisioning
import MidiToIp.Orchestrator.Server

set_option autoImplicit false

namespace MidiToIp.Orchestrator

open Machines Dicts

namespace Server

inductive RoomsStep (s : Server) (label : Label) (after : Server) : Prop where
  | same (rooms : after.rooms = s.rooms) (nextId : after.nextId = s.nextId)
  | create (key : String) (is : label = .create key) (rooms : after.rooms = (s.rooms.create key).2)
      (nextId : after.nextId = s.nextId)
  | delete (key : String) (is : label = .delete key) (rooms : after.rooms = (s.rooms.delete key).2)
      (nextId : after.nextId = s.nextId)
  | reap (ttl : Nat) (is : label = .reap ttl) (rooms : after.rooms = s.rooms.reapEmpty s.now ttl)
      (nextId : after.nextId = s.nextId)
  | join (player : Player) (id : player.id = s.nextId)
      (room : (s.rooms.rings (s.rooms.get player.room)).size < maxPlayersPerRoom)
      (rooms : after.rooms = (s.rooms.update (s.rooms.get player.room)
        (Registry.add player)).markUsed player.room)
      (nextId : after.nextId = s.nextId + 1)
  | remove (ring id : Nat) (rooms : after.rooms = s.rooms.update ring (Registry.remove id))
      (nextId : after.nextId = s.nextId)

theorem handleConn_roomsStep (s middle : Server) (label : Label) (conn : Nat) (carrier : Carrier)
    (roomKey : String) (rooms : middle.rooms = s.rooms) (nextId : middle.nextId = s.nextId) :
    RoomsStep s label (middle.handleConn conn carrier roomKey) := by
  unfold handleConn
  simp only [rooms, nextId]
  split
  next => exact .same rooms nextId
  next room => exact .join ⟨s.nextId, roomKey, conn⟩ rfl (Nat.not_le.mp room) rfl rfl

theorem finish_roomsStep (s : Server) (label : Label) (task : Task) :
    RoomsStep s label (s.finish task) := .remove task.ring task.player.id rfl rfl

theorem dropPlayer_roomsStep (s middle : Server) (label : Label) (player : Player)
    (rooms : middle.rooms = s.rooms) (nextId : middle.nextId = s.nextId) :
    RoomsStep s label (middle.dropPlayer player) := by
  unfold dropPlayer
  rw [rooms]
  cases s.rooms.registry player.room with
  | none => exact .same rfl nextId
  | some ring => exact .remove ring player.id rfl nextId

theorem relay_roomsStep (s : Server) (label : Label) (task : Task) (data : Octets.Bytes)
    (reads : List (Player × Octets.Bytes)) : RoomsStep s label (relay task data { s with reads := reads }) := by
  unfold Server.relay
  split <;> exact .same rfl rfl

theorem next_roomsStep (s after : Server) (label : Label) (step : s.next label = some after) :
    RoomsStep s label after := by
  cases label with
  | tick ms =>
    obtain rfl := Option.some.inj step
    exact .same rfl rfl
  | tcpConnect conn =>
    obtain rfl := Option.some.inj step
    exact handleConn_roomsStep s s _ conn .tcp defaultRoom rfl rfl
  | wsRequest conn roomKey =>
    obtain rfl := Option.some.inj step
    unfold Server.wsRequest
    split_ifs <;> exact .same rfl rfl
  | wsDrained conn ok =>
    obtain ⟨roomKey, -, rfl⟩ := Option.map_eq_some_iff.mp step
    cases ok with
    | false => exact .same rfl rfl
    | true => exact handleConn_roomsStep s _ _ conn (.ws {}) roomKey rfl rfl
  | read player raw =>
    obtain ⟨task, -, step⟩ := Option.bind_eq_some_iff.mp step
    split at step
    next =>
      cases raw with
      | none =>
        obtain rfl := Option.some.inj step
        exact finish_roomsStep s _ task
      | some raw =>
        obtain rfl := Option.some.inj step
        unfold Server.read
        split
        · exact finish_roomsStep s _ task
        · exact finish_roomsStep s _ task
        · exact .same rfl rfl
        · exact relay_roomsStep s _ _ _ _
    next => simp at step
  | drained player outcome =>
    obtain ⟨task, -, step⟩ := Option.bind_eq_some_iff.mp step
    split at step
    next => simp at step
    next target _ =>
      obtain rfl := Option.some.inj step
      cases outcome with
      | done => exact .same rfl rfl
      | timeout => exact dropPlayer_roomsStep s _ _ target rfl rfl
      | connectionError => exact .same rfl rfl
      | crash => exact finish_roomsStep s _ task
  | heartbeat player =>
    obtain ⟨task, -, step⟩ := Option.bind_eq_some_iff.mp step
    split_ifs at step <;> obtain rfl := Option.some.inj step
    · exact dropPlayer_roomsStep s _ _ task.player rfl rfl
    · exact .same rfl rfl
  | heartbeatDrained player ok =>
    obtain ⟨task, -, step⟩ := Option.bind_eq_some_iff.mp step
    split_ifs at step <;> obtain rfl := Option.some.inj step
    · exact .same rfl rfl
    · exact dropPlayer_roomsStep s _ _ task.player rfl rfl
  | create key =>
    obtain rfl := Option.some.inj step
    exact .create key rfl rfl rfl
  | delete key =>
    obtain rfl := Option.some.inj step
    refine .delete key rfl ?_ rfl
    rfl
  | reap ttl =>
    obtain rfl := Option.some.inj step
    exact .reap ttl rfl rfl rfl

theorem RoomsStep.dir {s after : Server} {label : Label} (step : RoomsStep s label after)
    (create : ∀ key, label ≠ .create key) (delete : ∀ key, label ≠ .delete key)
    (reap : ∀ ttl, label ≠ .reap ttl) : after.rooms.dir = s.rooms.dir := by
  cases step with
  | same rooms => rw [rooms]
  | create key is => exact absurd is (create key)
  | delete key is => exact absurd is (delete key)
  | reap ttl is => exact absurd is (reap ttl)
  | join player id room rooms => rw [rooms]; rfl
  | remove ring id rooms => rw [rooms]; rfl

theorem reapEmpty_rings (now ttl : Nat) (rooms : Rooms) :
    (rooms.reapEmpty now ttl).rings = rooms.rings := (Rooms.reapEmpty_settles now ttl rooms).rings

theorem RoomsStep.rings {s after : Server} {label : Label} (step : RoomsStep s label after)
    (owned : s.Owned) (ring : Nat) :
    ((after.rooms.rings ring).size ≤ (s.rooms.rings ring).size ∨
        (after.rooms.rings ring).size ≤ maxPlayersPerRoom) ∧
      ∀ p ∈ (after.rooms.rings ring).players,
        p ∈ (s.rooms.rings ring).players ∨ p.id = s.nextId ∧ after.nextId = s.nextId + 1 := by
  have kept (same : after.rooms.rings = s.rooms.rings) :
      ((after.rooms.rings ring).size ≤ (s.rooms.rings ring).size ∨
          (after.rooms.rings ring).size ≤ maxPlayersPerRoom) ∧
        ∀ p ∈ (after.rooms.rings ring).players,
          p ∈ (s.rooms.rings ring).players ∨ p.id = s.nextId ∧ after.nextId = s.nextId + 1 := by
    rw [same]
    exact ⟨.inl (Nat.le_refl _), fun p member => .inl member⟩
  cases step with
  | same rooms => exact kept (by rw [rooms])
  | create key _ rooms => exact kept (by rw [rooms, (Rooms.create_settles key s.rooms).rings])
  | delete key _ rooms => exact kept (by rw [rooms, (Rooms.delete_settles key s.rooms).rings])
  | reap ttl _ rooms => exact kept (by rw [rooms, reapEmpty_rings])
  | join player id room rooms nextId =>
    have added := Registry.players_add (s.rooms.rings (s.rooms.get player.room)) player
      (by rw [id]; exact owned.absent _)
    by_cases here : ring = s.rooms.get player.room
    · subst here
      have players : (after.rooms.rings (s.rooms.get player.room)).players =
          (s.rooms.rings (s.rooms.get player.room)).players ++ [player] := by
        rw [rooms]
        simpa [Rooms.markUsed, Rooms.update] using added
      refine ⟨.inr ?_, fun p member => ?_⟩
      · rw [Registry.size] at room ⊢
        rw [players, List.length_append]
        exact room
      · rw [players] at member
        rcases List.mem_append.mp member with old | new
        · exact .inl old
        · obtain rfl := List.mem_singleton.mp new
          exact .inr ⟨id, nextId⟩
    · have same : after.rooms.rings ring = s.rooms.rings ring := by
        rw [rooms]
        simp [Rooms.markUsed, Rooms.update, here]
      rw [same]
      exact ⟨.inl (Nat.le_refl _), fun p member => .inl member⟩
  | remove home id rooms =>
    by_cases here : ring = home
    · subst here
      have removed : after.rooms.rings ring = (s.rooms.rings ring).remove id := by
        rw [rooms]
        simp [Rooms.update]
      rw [removed]
      refine ⟨.inl (List.length_filter_le _ _), fun p member => .inl ?_⟩
      exact ((Registry.mem_remove _ _ p).mp member).1
    · have same : after.rooms.rings ring = s.rooms.rings ring := by
        rw [rooms]
        simp [Rooms.update, here]
      rw [same]
      exact ⟨.inl (Nat.le_refl _), fun p member => .inl member⟩

end Server

structure Request where
  label : Label
  wall : Rat := 0
  name : String := ""

-- `issued` are the player ids handed out so far.
structure Host where
  server : Server := {}
  info : List (String × RoomMeta) := []
  issued : List Nat := []

namespace Host

def store (h : Host) : RoomStore := ⟨h.server.rooms, h.info⟩

def infoAfter (request : Request) (h : Host) : List (String × RoomMeta) :=
  match request.label with
  | .create key => (h.store.create key request.wall request.name).2.info
  | .delete key => (h.store.delete key).2.info
  | .reap ttl => (h.store.reapEmpty h.server.now ttl).1.info
  | _ => h.info

def next (h : Host) (request : Request) : Option Host :=
  (h.server.next request.label).map fun server =>
    { server := server
      info := h.infoAfter request
      issued := if server.nextId = h.server.nextId then h.issued else h.issued ++ [h.server.nextId] }

def start (text : Text) (data : Option Json) : Except PyError Host :=
  (({} : RoomStore).load text data).map fun store =>
    { server := { rooms := store.rooms }, info := store.info }

structure Membership (h : Host) : Prop where
  capacity : ∀ ring, (h.server.rooms.rings ring).size ≤ maxPlayersPerRoom
  single : ∀ ring other p q, p ∈ (h.server.rooms.rings ring).players →
    q ∈ (h.server.rooms.rings other).players → p.id = q.id → ring = other ∧ p = q
  unique : h.issued.Nodup
  known : ∀ ring, ∀ p ∈ (h.server.rooms.rings ring).players, p.id ∈ h.issued
  listed : h.store.Listed

structure Sound (h : Host) : Prop extends Membership h where
  owned : h.server.Owned
  below : ∀ id ∈ h.issued, id < h.server.nextId

theorem single_of_owned {s : Server} (owned : s.Owned) (ring other : Nat) (p q : Player)
    (first : p ∈ (s.rooms.rings ring).players) (second : q ∈ (s.rooms.rings other).players)
    (same : p.id = q.id) : ring = other ∧ p = q := by
  have one := owned.held ring p first
  rw [same, owned.held other q second] at one
  simp only [Option.some.injEq, Prod.mk.injEq] at one
  exact ⟨one.2.symm, one.1.symm⟩

theorem infoAfter_listed (h : Host) (request : Request) (after : Server)
    (listed : h.store.Listed) (step : h.server.next request.label = some after) :
    (⟨after.rooms, h.infoAfter request⟩ : RoomStore).Listed := by
  obtain ⟨label, wall, name⟩ := request
  have rooms := Server.next_roomsStep h.server after label step
  cases label with
  | create key =>
    obtain rfl := Option.some.inj step
    exact (h.store.create_listed key wall name listed).same (by rw [h.store.create_rooms]; rfl) rfl
  | delete key =>
    obtain rfl := Option.some.inj step
    exact (h.store.delete_listed key listed).same (by rw [h.store.delete_rooms]; rfl) rfl
  | reap ttl =>
    obtain rfl := Option.some.inj step
    exact (h.store.reapEmpty_listed h.server.now ttl listed).same
      (by rw [h.store.reapEmpty_rooms]; rfl) rfl
  | _ =>
    exact listed.same (rooms.dir (by simp) (by simp) (by simp)) rfl

theorem next_sound (h after : Host) (request : Request) (sound : h.Sound)
    (step : h.next request = some after) : after.Sound := by
  obtain ⟨server, serverStep, rfl⟩ := Option.map_eq_some_iff.mp step
  have owned := (Server.next_effect h.server server request.label sound.owned.keyed serverStep).owned
    sound.owned
  have rings := (Server.next_roomsStep h.server server request.label serverStep).rings sound.owned
  have counted : server.nextId = h.server.nextId ∨ server.nextId = h.server.nextId + 1 := by
    cases Server.next_roomsStep h.server server request.label serverStep with
    | same _ nextId | create _ _ _ nextId | delete _ _ _ nextId | reap _ _ _ nextId
      | remove _ _ _ nextId => exact .inl nextId
    | join _ _ _ _ nextId => exact .inr nextId
  have fresh : h.server.nextId ∉ h.issued := fun member =>
    Nat.lt_irrefl _ (sound.below _ member)
  refine ⟨⟨?_, ?_, ?_, ?_, infoAfter_listed h request server sound.listed serverStep⟩,
    owned, ?_⟩
  · intro ring
    have bound := sound.capacity ring
    rcases (rings ring).1 with fewer | within
    · exact Nat.le_trans fewer bound
    · exact within
  · exact fun ring other p q first second => single_of_owned owned ring other p q first second
  · simp only
    split
    · exact sound.unique
    · rw [List.nodup_append]
      refine ⟨sound.unique, by simp, fun id member new single => ?_⟩
      obtain rfl := List.mem_singleton.mp single
      rintro rfl
      exact fresh member
  · intro ring p member
    simp only
    rcases (rings ring).2 p member with old | ⟨id, nextId⟩
    · have known := sound.known ring p old
      split
      · exact known
      · exact List.mem_append_left _ known
    · rw [if_neg (by omega), id]
      exact List.mem_append_right _ (List.mem_singleton_self _)
  · intro id member
    simp only at member ⊢
    split at member
    next same =>
      rw [same]
      exact sound.below id member
    next different =>
      rcases List.mem_append.mp member with old | new
      · have below := sound.below id old
        omega
      · obtain rfl := List.mem_singleton.mp new
        omega

theorem start_sound (text : Text) (data : Option Json) (h : Host) (started : start text data = .ok h) :
    h.Sound := by
  unfold start at started
  cases loaded : ({} : RoomStore).load text data with
  | error => simp [loaded, Except.map] at started
  | ok store =>
    obtain ⟨listed, settles⟩ := RoomStore.load_listed text data {} store RoomStore.start_listed loaded
    obtain rfl : { server := { rooms := store.rooms }, info := store.info } = h := by
      simpa [loaded, Except.map] using started
    have empty (ring : Nat) : (store.rooms.rings ring).players = [] := by
      rw [settles.rings]
      rfl
    refine ⟨⟨?_, ?_, by simp, ?_, listed⟩, ⟨?_, ?_, ?_⟩, by simp⟩
    · simp [Registry.size, empty]
    · simp [empty]
    · simp [empty]
    · simp [Server.Keyed, Server.owner]
    · simp [Server.owner]
    · simp [empty]

end Host

def hostMachine : Machine Host Request := ⟨Host.next⟩

theorem host_membership (text : Text) (data : Option Json) (start h : Host)
    (requests : List Request) (started : Host.start text data = .ok start)
    (run : hostMachine.Run Machine.anyStep start requests h) : h.Membership :=
  (run.invariant Host.Sound (Host.start_sound text data start started)
    fun s request after sound _ step => Host.next_sound s after request sound step).toMembership

theorem host_membership_deleted :
    ∃ start h, Host.start asciiText none = .ok start ∧
      hostMachine.exec Machine.anyStep start [{ label := .create "A", wall := 7 },
        { label := .wsRequest 1 "A" }, { label := .tcpConnect 2 }, { label := .wsDrained 1 true },
        { label := .delete "A" }] = some h ∧
      h.issued = [1, 2] ∧ h.info.length = 0 ∧ h.Membership := by
  have checked : (hostMachine.exec Machine.anyStep { server := { rooms := {} }, info := [] }
      [{ label := .create "A", wall := 7 }, { label := .wsRequest 1 "A" }, { label := .tcpConnect 2 },
        { label := .wsDrained 1 true }, { label := .delete "A" }]).any
      (fun h => decide (h.issued = [1, 2] ∧ h.info.length = 0)) = true := by decide +kernel
  obtain ⟨h, executed, results⟩ := (Option.any_eq_true _ _).mp checked
  obtain ⟨issued, info⟩ := of_decide_eq_true results
  exact ⟨_, h, rfl, executed, issued, info,
    host_membership asciiText none _ h _ rfl (Machine.run_of_exec executed)⟩

end MidiToIp.Orchestrator
