import MidiToIp.Orchestrator.Isolation
import MidiToIp.Orchestrator.Reaper

set_option autoImplicit false

namespace MidiToIp.Orchestrator

open Machines Octets

def Label.arrives : Label → Option Nat
  | .tcpConnect conn => some conn
  | .wsRequest conn _ => some conn
  | _ => none

def Awaiting.aim : Awaiting → Option Player
  | .recv => none
  | .drain target => some target

namespace Server

def seated (s : Server) (player : Player) (ring : Nat) : Prop :=
  s.rooms.dir.lookup player.room = some ring ∧ player ∈ (s.rooms.rings ring).players

instance (s : Server) (player : Player) (ring : Nat) : Decidable (s.seated player ring) :=
  inferInstanceAs (Decidable (_ ∧ _))

def handshaking (s : Server) : List Nat := s.handshakes.map Prod.fst

def aim (s : Server) (id : Nat) : Option Player := (s.tasks id).bind fun task => task.awaiting.aim

structure Known (arrived waiting : List Nat) (s : Server) (player : Player) : Prop where
  id : player.id < s.nextId
  arrived : player.conn ∈ arrived
  taken : player.conn ∉ waiting
  self : ∀ id other ring, s.owner id = some (other, ring) →
    other.id = player.id ∨ other.conn = player.conn → other = player

structure Tended (arrived waiting : List Nat) (s : Server) : Prop where
  settled : ∀ conn ∈ arrived, conn ∈ waiting ∨
    (∃ id player ring, s.owner id = some (player, ring) ∧ player.conn = conn) ∨ conn ∈ s.closed
  waits : ∀ conn ∈ waiting, conn ∈ arrived ∧ conn ∉ s.closed ∧
    ∀ id player ring, s.owner id = some (player, ring) → player.conn ≠ conn
  closes : ∀ conn ∈ s.closed, conn ∈ arrived
  known : ∀ id player ring, s.owner id = some (player, ring) → Known arrived waiting s player
  aims : ∀ id target, s.aim id = some target → Known arrived waiting s target
  seats : ∀ id player ring, s.owner id = some (player, ring) →
    (player.conn ∉ s.closed ↔ s.seated player ring)

variable {arrived waiting : List Nat} {s after : Server}

theorem Known.congr {other : List Nat} {player : Player} (known : Known arrived waiting s player)
    (same : ∀ conn, conn ∈ waiting ↔ conn ∈ other) : Known arrived other s player :=
  { known with taken := (same _).not.mp known.taken }

theorem Known.arrive {player : Player} (known : Known arrived waiting s player) (conn : Nat)
    (fresh : conn ∉ arrived) : Known (arrived ++ [conn]) (conn :: waiting) s player :=
  { known with
    arrived := List.mem_append_left _ known.arrived
    taken := by
      intro here
      rcases List.mem_cons.mp here with same | old
      · exact fresh (same ▸ known.arrived)
      · exact known.taken old }

theorem Known.fewer {other : List Nat} {player : Player} (known : Known arrived waiting s player)
    (nextId : s.nextId ≤ after.nextId) (less : ∀ conn ∈ other, conn ∈ waiting)
    (owner : ∀ id entry, after.owner id = some entry → s.owner id = some entry) :
    Known arrived other after player where
  id := Nat.lt_of_lt_of_le known.id nextId
  arrived := known.arrived
  taken := fun here => known.taken (less _ here)
  self := fun id other ring served alike => known.self id other ring (owner id _ served) alike

namespace Tended

theorem congr {other : List Nat} (tended : Tended arrived waiting s)
    (same : ∀ conn, conn ∈ waiting ↔ conn ∈ other) : Tended arrived other s where
  settled := fun conn here => by
    rw [← same]
    exact tended.settled conn here
  waits := fun conn here => tended.waits conn ((same conn).mpr here)
  closes := tended.closes
  known := fun id player ring served => (tended.known id player ring served).congr same
  aims := fun id target aimed => (tended.aims id target aimed).congr same
  seats := tended.seats

theorem keep (tended : Tended arrived waiting s) (owner : after.owner = s.owner)
    (closed : after.closed = s.closed) (nextId : after.nextId = s.nextId)
    (aims : ∀ id target, after.aim id = some target → Known arrived waiting s target)
    (seats : ∀ id player ring, s.owner id = some (player, ring) →
      (after.seated player ring ↔ s.seated player ring)) : Tended arrived waiting after := by
  have carried {player : Player} (known : Known arrived waiting s player) :
      Known arrived waiting after player :=
    known.fewer (Nat.le_of_eq nextId.symm) (fun _ here => here) (by rw [owner]; exact fun _ _ h => h)
  refine ⟨?_, ?_, ?_, ?_, fun id target aimed => carried (aims id target aimed), ?_⟩
  · rw [owner, closed]
    exact tended.settled
  · rw [owner, closed]
    exact tended.waits
  · rw [closed]
    exact tended.closes
  · rw [owner]
    exact fun id player ring served => carried (tended.known id player ring served)
  · rw [owner, closed]
    exact fun id player ring served =>
      (tended.seats id player ring served).trans (seats id player ring served).symm

theorem arrive (tended : Tended arrived waiting s) (conn : Nat) (fresh : conn ∉ arrived) :
    Tended (arrived ++ [conn]) (conn :: waiting) s where
  settled := by
    intro other here
    rcases List.mem_append.mp here with old | new
    · exact (tended.settled other old).imp_left (List.mem_cons_of_mem _)
    · obtain rfl := List.mem_singleton.mp new
      exact .inl List.mem_cons_self
  waits := by
    intro other here
    rcases List.mem_cons.mp here with rfl | old
    · refine ⟨List.mem_append_right _ (List.mem_singleton_self _),
        fun closed => fresh (tended.closes _ closed), ?_⟩
      rintro id player ring served rfl
      exact fresh (tended.known id player ring served).arrived
    · obtain ⟨known, rest⟩ := tended.waits other old
      exact ⟨List.mem_append_left _ known, rest⟩
  closes := fun other closed => List.mem_append_left _ (tended.closes other closed)
  known := fun id player ring served => (tended.known id player ring served).arrive conn fresh
  aims := fun id target aimed => (tended.aims id target aimed).arrive conn fresh
  seats := tended.seats

theorem refuse {conn : Nat} (tended : Tended arrived (conn :: waiting) s) (apart : conn ∉ waiting) :
    Tended arrived waiting (s.close conn) := by
  have carried {player : Player} (known : Known arrived (conn :: waiting) s player) :
      Known arrived waiting (s.close conn) player :=
    known.fewer (Nat.le_refl _) (fun _ => List.mem_cons_of_mem _) (fun _ _ served => served)
  have closed (other : Nat) : other ∈ (s.close conn).closed ↔ other ∈ s.closed ∨ other = conn := by
    simp [close]
  refine ⟨?_, ?_, ?_, fun id player ring served => carried (tended.known id player ring served),
    fun id target aimed => carried (tended.aims id target aimed), ?_⟩
  · intro other here
    rw [closed]
    rcases tended.settled other here with waits | served | before
    · rcases List.mem_cons.mp waits with rfl | waits
      · exact .inr (.inr (.inr rfl))
      · exact .inl waits
    · exact .inr (.inl served)
    · exact .inr (.inr (.inl before))
  · intro other here
    obtain ⟨known, still, unserved⟩ := tended.waits other (List.mem_cons_of_mem _ here)
    refine ⟨known, fun now_ => ?_, unserved⟩
    rcases (closed other).mp now_ with before | rfl
    · exact still before
    · exact apart here
  · intro other now_
    rcases (closed other).mp now_ with before | rfl
    · exact tended.closes other before
    · exact (tended.waits _ List.mem_cons_self).1
  · intro id player ring served
    have different := (tended.waits conn List.mem_cons_self).2.2 id player ring served
    rw [closed, or_iff_left different]
    exact tended.seats id player ring served

theorem serve (player : Player) {ring : Nat}
    (tended : Tended arrived (player.conn :: waiting) s) (apart : player.conn ∉ waiting)
    (owned : s.Owned) (id : player.id = s.nextId)
    (home : s.rooms.dir.lookup player.room = some ring)
    (rooms : after.rooms = (s.rooms.update ring (Registry.add player)).markUsed player.room)
    (owner : after.owner = Function.update s.owner player.id (some (player, ring)))
    (nextId : after.nextId = s.nextId + 1) (closed : after.closed = s.closed)
    (aim : ∀ other target, after.aim other = some target → s.aim other = some target) :
    Tended arrived waiting after := by
  have taken := tended.waits player.conn List.mem_cons_self
  have entries (other : Nat) (p : Player) (place : Nat) (served : after.owner other = some (p, place)) :
      p = player ∧ place = ring ∧ other = player.id ∨
        s.owner other = some (p, place) ∧ other ≠ player.id := by
    rw [owner] at served
    by_cases new : other = player.id
    · rw [new, Function.update_self, Option.some.injEq, Prod.mk.injEq] at served
      exact .inl ⟨served.1.symm, served.2.symm, new⟩
    · rw [Function.update_of_ne new] at served
      exact .inr ⟨served, new⟩
  have carried {p : Player} (known : Known arrived (player.conn :: waiting) s p) :
      Known arrived waiting after p := by
    refine ⟨by have := known.id; omega, known.arrived,
      fun here => known.taken (List.mem_cons_of_mem _ here), ?_⟩
    intro other q place served alike
    rcases entries other q place served with ⟨rfl, -, -⟩ | ⟨before, -⟩
    · rcases alike with same | same
      · have := known.id
        omega
      · exact absurd (same ▸ List.mem_cons_self) known.taken
    · exact known.self other q place before alike
  have self : Known arrived waiting after player := by
    refine ⟨by omega, taken.1, apart, ?_⟩
    intro other q place served alike
    rcases entries other q place served with ⟨rfl, -, -⟩ | ⟨before, -⟩
    · rfl
    · rcases alike with same | same
      · have := (tended.known other q place before).id
        omega
      · exact absurd same (taken.2.2 other q place before)
  have member (place : Nat) (p : Player) : after.seated p place ↔
      s.rooms.dir.lookup p.room = some place ∧
        (p ∈ (s.rooms.rings place).players ∨ place = ring ∧ p = player) := by
    unfold seated
    rw [rooms, s.mem_join owned player p id player.room ring place]
    rfl
  refine ⟨?_, ?_, ?_, ?_, fun other target aimed => carried (tended.aims other target (aim _ _ aimed)), ?_⟩
  · intro conn here
    rw [closed]
    rcases tended.settled conn here with waits | ⟨other, p, place, served, conn_⟩ | before
    · rcases List.mem_cons.mp waits with rfl | waits
      · exact .inr (.inl ⟨player.id, player, ring, by rw [owner, Function.update_self], rfl⟩)
      · exact .inl waits
    · refine .inr (.inl ⟨other, p, place, ?_, conn_⟩)
      have different : other ≠ player.id := by
        rintro rfl
        rw [id, owned.below s.nextId (Nat.le_refl _)] at served
        simp at served
      rw [owner, Function.update_of_ne different]
      exact served
    · exact .inr (.inr before)
  · intro conn here
    obtain ⟨known, still, unserved⟩ := tended.waits conn (List.mem_cons_of_mem _ here)
    refine ⟨known, by rw [closed]; exact still, ?_⟩
    intro other p place served
    rcases entries other p place served with ⟨rfl, -, -⟩ | ⟨before, -⟩
    · rintro rfl
      exact apart here
    · exact unserved other p place before
  · rw [closed]
    exact tended.closes
  · intro other p place served
    rcases entries other p place served with ⟨rfl, -, -⟩ | ⟨before, -⟩
    · exact self
    · exact carried (tended.known other p place before)
  · intro other p place served
    rw [closed, member]
    rcases entries other p place served with ⟨rfl, rfl, -⟩ | ⟨before, different⟩
    · exact iff_of_true taken.2.1 ⟨home, .inr ⟨rfl, rfl⟩⟩
    · have old : p ≠ player := by
        rintro rfl
        exact different (owned.keyed other p place before).symm
      rw [tended.seats other p place before, seated]
      simp [old]

theorem shut (gone : List Nat) (tended : Tended arrived waiting s)
    (closed : ∀ conn, conn ∈ after.closed ↔ conn ∈ s.closed ∨ conn ∈ gone)
    (taken : ∀ conn ∈ gone, conn ∈ arrived ∧ conn ∉ waiting) (nextId : after.nextId = s.nextId)
    (owner : ∀ id entry, after.owner id = some entry → s.owner id = some entry)
    (ended : ∀ id player ring, s.owner id = some (player, ring) →
      after.owner id = some (player, ring) ∨ player.conn ∈ gone)
    (aim : ∀ id target, after.aim id = some target → s.aim id = some target)
    (seats : ∀ id player ring, after.owner id = some (player, ring) →
      (after.seated player ring ↔ s.seated player ring ∧ player.conn ∉ gone)) :
    Tended arrived waiting after := by
  have carried {player : Player} (known : Known arrived waiting s player) :
      Known arrived waiting after player :=
    known.fewer (Nat.le_of_eq nextId.symm) (fun _ here => here) owner
  refine ⟨?_, ?_, ?_, fun id player ring served => carried (tended.known id player ring (owner _ _ served)),
    fun id target aimed => carried (tended.aims id target (aim _ _ aimed)), ?_⟩
  · intro conn here
    rw [closed]
    rcases tended.settled conn here with waits | ⟨id, player, ring, served, rfl⟩ | before
    · exact .inl waits
    · rcases ended id player ring served with still | now_
      · exact .inr (.inl ⟨id, player, ring, still, rfl⟩)
      · exact .inr (.inr (.inr now_))
    · exact .inr (.inr (.inl before))
  · intro conn here
    obtain ⟨known, still, unserved⟩ := tended.waits conn here
    refine ⟨known, fun now_ => ?_, fun id player ring served => unserved id player ring (owner _ _ served)⟩
    rcases (closed conn).mp now_ with before | away
    · exact still before
    · exact (taken conn away).2 here
  · intro conn now_
    rcases (closed conn).mp now_ with before | away
    · exact tended.closes conn before
    · exact (taken conn away).1
  · intro id player ring served
    rw [closed, seats id player ring served, not_or,
      tended.seats id player ring (owner _ _ served)]

theorem leave {player : Player} {ring : Nat} (tended : Tended arrived waiting s) (owned : s.Owned)
    (own : s.owner player.id = some (player, ring))
    (rooms : after.rooms = s.rooms.update ring (Registry.remove player.id))
    (owner : after.owner = Function.update s.owner player.id none)
    (nextId : after.nextId = s.nextId) (closed : after.closed = s.closed ++ [player.conn])
    (aim : ∀ id target, after.aim id = some target → s.aim id = some target) :
    Tended arrived waiting after := by
  have known := tended.known player.id player ring own
  have still (id : Nat) (entry : Player × Nat) (served : after.owner id = some entry) :
      s.owner id = some entry ∧ id ≠ player.id := by
    rw [owner] at served
    by_cases gone : id = player.id
    · rw [gone, Function.update_self] at served
      simp at served
    · rw [Function.update_of_ne gone] at served
      exact ⟨served, gone⟩
  refine tended.shut [player.conn] (by simp [closed]) ?_ nextId
    (fun id entry served => (still id entry served).1) ?_ aim ?_
  · intro conn here
    obtain rfl := List.mem_singleton.mp here
    exact ⟨known.arrived, known.taken⟩
  · intro id other place served
    by_cases gone : id = player.id
    · rw [gone, own] at served
      obtain ⟨rfl, -⟩ := Prod.mk.inj (Option.some.inj served)
      exact .inr (List.mem_singleton_self _)
    · refine .inl ?_
      rw [owner, Function.update_of_ne gone]
      exact served
  · intro id other place served
    obtain ⟨before, different⟩ := still id (other, place) served
    have apart : other.id ≠ player.id := by
      rw [owned.keyed id other place before]
      exact different
    have conn : other.conn ≠ player.conn := fun same =>
      apart (congrArg Player.id (known.self id other place before (.inr same)))
    have held : other ∈ ((s.rooms.update ring (Registry.remove player.id)).rings place).players ↔
        other ∈ (s.rooms.rings place).players := by
      simp only [Rooms.update]
      split
      next same => rw [Registry.mem_remove, same, and_iff_left apart]
      next => rfl
    rw [List.mem_singleton, and_iff_left conn, seated, seated, rooms, held]
    rfl

theorem drop {player : Player} (tended : Tended arrived waiting s)
    (known : Known arrived waiting s player) : Tended arrived waiting (s.dropPlayer player) := by
  have lookup (key : String) : (s.dropPlayer player).rooms.dir.lookup key = s.rooms.dir.lookup key := by
    unfold dropPlayer
    simp only [close]
    split <;> rfl
  refine tended.shut [player.conn] (by simp [dropPlayer, close]) ?_ rfl (fun _ _ served => served)
    (fun _ _ _ served => .inl served) (fun _ _ aimed => aimed) ?_
  · intro conn here
    obtain rfl := List.mem_singleton.mp here
    exact ⟨known.arrived, known.taken⟩
  · intro id other ring served
    rw [List.mem_singleton, seated, seated, lookup, mem_dropPlayer]
    constructor
    · rintro ⟨home, member, unlike⟩
      refine ⟨⟨home, member⟩, fun same => ?_⟩
      obtain rfl := known.self id other ring served (.inr same)
      exact unlike ⟨home, rfl⟩
    · rintro ⟨⟨home, member⟩, apart⟩
      refine ⟨home, member, fun gone => apart ?_⟩
      rw [known.self id other ring served (.inl gone.2)]

theorem delete (tended : Tended arrived waiting s) (owned : s.Owned) (separate : s.Separate)
    (key : String) : Tended arrived waiting (s.deleteRoom key) := by
  unfold deleteRoom Rooms.delete
  split_ifs with default_
  · exact tended.keep rfl (List.append_nil _) rfl tended.aims fun _ _ _ _ => Iff.rfl
  · cases found : s.rooms.dir.lookup key with
    | none => exact tended.keep rfl (List.append_nil _) rfl tended.aims fun _ _ _ _ => Iff.rfl
    | some home =>
      refine tended.shut ((s.rooms.rings home).players.map Player.conn)
        (fun conn => List.mem_append) ?_ rfl (fun _ _ served => served)
        (fun _ _ _ served => .inl served) (fun _ _ aimed => aimed) ?_
      · intro conn here
        obtain ⟨player, held, rfl⟩ := List.mem_map.mp here
        have known := tended.known player.id player home (owned.held home player held)
        exact ⟨known.arrived, known.taken⟩
      · intro id player ring served
        simp only [seated, Rooms.forget, Directory.lookup_erase]
        constructor
        · rintro ⟨⟨other, there⟩, member⟩
          refine ⟨⟨there, member⟩, fun away => ?_⟩
          obtain ⟨twin, held, same⟩ := List.mem_map.mp away
          obtain rfl := (tended.known id player ring served).self twin.id twin home
            (owned.held home twin held) (.inr same)
          exact other (separate.own key home found twin held)
        · rintro ⟨⟨there, member⟩, apart⟩
          refine ⟨⟨?_, there⟩, member⟩
          rintro rfl
          obtain rfl := Option.some.inj (found.symm.trans there)
          exact apart (List.mem_map_of_mem member)

theorem create (tended : Tended arrived waiting s) (separate : s.Separate) (key : String) :
    Tended arrived waiting { s with rooms := (s.rooms.create key).2 } := by
  unfold Rooms.create
  split_ifs
  · exact tended.keep rfl rfl rfl tended.aims fun _ _ _ _ => Iff.rfl
  · refine tended.keep rfl rfl rfl tended.aims fun id player ring _ => ?_
    simp only [seated, Directory.lookup_insert]
    constructor
    · rintro ⟨there | ⟨-, -, rfl⟩, member⟩
      · exact ⟨there, member⟩
      · rw [separate.unused _ (Nat.le_refl _)] at member
        simp at member
    · exact fun ⟨there, member⟩ => ⟨.inl there, member⟩

theorem reap (tended : Tended arrived waiting s) (ttl : Nat) :
    Tended arrived waiting { s with rooms := s.rooms.reapEmpty s.now ttl } := by
  refine tended.keep rfl rfl rfl tended.aims fun id player ring _ => ?_
  unfold seated
  simp only [reapEmpty_rings]
  refine and_congr_left fun member => ?_
  cases Rooms.reapEmpty_reaped s.now ttl s.rooms player.room with
  | kept dir => rw [dir]
  | taken home started named used vacant mark late dir =>
    rw [dir, vacant.1]
    refine iff_of_false (by simp) ?_
    rintro same
    obtain rfl := Option.some.inj same
    exact absurd (List.length_pos_of_mem member) (Nat.not_lt.mpr (Nat.le_of_eq vacant.2))

theorem handleConn {conn : Nat} (tended : Tended arrived (conn :: waiting) s)
    (apart : conn ∉ waiting) (owned : s.Owned) (carrier : Carrier) (roomKey : String)
    (home : (s.rooms.dir.lookup roomKey).isSome) :
    Tended arrived waiting (s.handleConn conn carrier roomKey) := by
  unfold Server.handleConn
  simp only
  split
  · exact tended.refuse apart
  · refine tended.serve ⟨s.nextId, roomKey, conn⟩ apart owned rfl
      (get_of_isSome s.rooms roomKey home) rfl ?_ rfl rfl ?_
    · rw [owner_setTask]
      rfl
    · intro other target aimed
      simp only [aim, setTask] at aimed
      split at aimed
      · simp [Awaiting.aim] at aimed
      · exact aimed

theorem goOn {id : Nat} {before : Task} (tended : Tended arrived waiting s)
    (found : s.tasks id = some before) (task : Task) (player : task.player = before.player)
    (ring : task.ring = before.ring)
    (aims : ∀ target, task.awaiting.aim = some target → Known arrived waiting s target)
    (reads : List (Player × Bytes)) (sends : List Send) :
    Tended arrived waiting { s.setTask id (some task) with reads := reads, sends := sends } := by
  refine tended.keep (setTask_owner s id before task found player ring) rfl rfl ?_
    fun _ _ _ _ => Iff.rfl
  intro other target aimed
  simp only [aim, setTask] at aimed
  split at aimed
  · exact aims target aimed
  · exact tended.aims other target aimed

theorem finish {id : Nat} {task : Task} (tended : Tended arrived waiting s) (owned : s.Owned)
    (found : s.tasks id = some task) : Tended arrived waiting (s.finish task) := by
  have isId := owned.keyed.task id task found
  have own : s.owner task.player.id = some (task.player, task.ring) := by simp [owner, isId, found]
  refine tended.leave owned own rfl ?_ rfl rfl ?_
  · rw [Server.finish, owner_setTask]
    rfl
  · intro other target aimed
    simp only [aim, Server.finish, setTask] at aimed
    split at aimed
    · simp at aimed
    · exact aimed

theorem relay {id : Nat} {before : Task} (tended : Tended arrived waiting s) (owned : s.Owned)
    (found : s.tasks id = some before) (task : Task) (player : task.player = before.player)
    (ring : task.ring = before.ring) (data : Bytes) (reads : List (Player × Bytes)) :
    Tended arrived waiting (relay task data { s with reads := reads }) := by
  obtain rfl : task.player.id = id := by rw [player, owned.keyed.task id before found]
  have own : s.owner task.player.id = some (task.player, task.ring) := by
    rw [owner, found, player, ring]
    rfl
  unfold Server.relay
  split
  · exact tended.goOn found { task with awaiting := .recv } player ring (by simp [Awaiting.aim]) _ _
  next target next =>
    refine tended.goOn found { task with awaiting := .drain target } player ring ?_ _ _
    intro other aimed
    obtain rfl : target = other := by simpa [Awaiting.aim] using aimed
    obtain ⟨-, held⟩ := s.nextPlayer_held owned task.player target task.ring own next
    exact tended.known target.id target task.ring (owned.held task.ring target held)

theorem drained {id : Nat} {task : Task} {target : Player} (tended : Tended arrived waiting s)
    (owned : s.Owned) (found : s.tasks id = some task) (awaiting : task.awaiting = .drain target)
    (outcome : Drain) : Tended arrived waiting (s.drained task target outcome) := by
  obtain rfl : task.player.id = id := owned.keyed.task id task found
  have resumed : Tended arrived waiting
      (s.setTask task.player.id (some { task with awaiting := .recv })) :=
    tended.goOn found { task with awaiting := .recv } rfl rfl (by simp [Awaiting.aim]) s.reads s.sends
  have same := setTask_owner s task.player.id task { task with awaiting := .recv } found rfl rfl
  cases outcome with
  | done => exact resumed
  | timeout =>
    have known := tended.aims task.player.id target (by simp [aim, found, awaiting, Awaiting.aim])
    exact resumed.drop (known.fewer (Nat.le_refl _) (fun _ here => here) (by rw [same]; exact fun _ _ h => h))
  | connectionError => exact resumed
  | crash => exact tended.finish owned found

theorem heartbeat {id : Nat} {task : Task} (tended : Tended arrived waiting s)
    (found : s.tasks id = some task) (heartbeat : Heartbeat) :
    Tended arrived waiting (s.setTask id (some { task with heartbeat := heartbeat })) :=
  tended.goOn found { task with heartbeat := heartbeat } rfl rfl
    (fun target aimed => tended.aims id target (by simpa [aim, found] using aimed)) s.reads s.sends

theorem heartbeatDrop {id : Nat} {task : Task} (tended : Tended arrived waiting s)
    (found : s.tasks id = some task) :
    Tended arrived waiting
      ((s.setTask id (some { task with heartbeat := .off })).dropPlayer task.player) := by
  have off := tended.heartbeat found .off
  refine off.drop (off.known id task.player task.ring ?_)
  rw [setHeartbeat_owner s id task found]
  simp [owner, found]

end Tended

theorem handleConn_handshaking (s : Server) (conn : Nat) (carrier : Carrier) (roomKey : String) :
    (s.handleConn conn carrier roomKey).handshaking = s.handshaking := by
  unfold handleConn
  simp only
  split <;> rfl

theorem next_tended (s after : Server) (label : Label) (arrived : List Nat) (owned : s.Owned)
    (separate : s.Separate) (tended : Tended arrived s.handshaking s)
    (fresh : ∀ conn ∈ label.arrives, conn ∉ arrived)
    (joins : ∀ key ∈ s.joining label, (s.rooms.dir.lookup key).isSome)
    (step : s.next label = some after) :
    Tended (arrived ++ label.arrives.toList) after.handshaking after := by
  have apart (conn : Nat) (new : conn ∉ arrived) : conn ∉ s.handshaking := fun here =>
    new (tended.waits conn here).1
  have quiet (same : after.handshaking = s.handshaking) (kept : Tended arrived s.handshaking after) :
      Tended (arrived ++ []) after.handshaking after := by
    rw [same, List.append_nil]
    exact kept
  cases label with
  | tcpConnect conn =>
    obtain rfl := Option.some.inj step
    have new := fresh conn rfl
    change Tended _ (s.handleConn conn .tcp defaultRoom).handshaking _
    rw [handleConn_handshaking]
    exact (tended.arrive conn new).handleConn (apart conn new) owned .tcp defaultRoom (joins _ rfl)
  | wsRequest conn roomKey =>
    obtain rfl := Option.some.inj step
    have new := fresh conn rfl
    have taken := tended.arrive conn new
    unfold Server.wsRequest
    split_ifs
    · exact taken.refuse (apart conn new)
    · exact taken.refuse (apart conn new)
    · have waits : Tended (arrived ++ [conn]) (conn :: s.handshaking)
          { s with handshakes := s.handshakes ++ [(conn, roomKey)] } :=
        taken.keep rfl rfl rfl taken.aims fun _ _ _ _ => Iff.rfl
      refine waits.congr fun other => ?_
      simp only [handshaking, List.map_append, List.mem_append, List.mem_cons, List.map_cons,
        List.map_nil, List.not_mem_nil, or_false]
      exact or_comm
  | wsDrained conn ok =>
    obtain ⟨roomKey, found, rfl⟩ := Option.map_eq_some_iff.mp step
    obtain ⟨earlier, later, entries, -⟩ := List.lookup_eq_some_iff.mp found
    let rest := s.handshakes.filter fun entry => entry.1 ≠ conn
    -- the connection is taken out of those that wait
    have split_ (other : Nat) : other ∈ s.handshaking ↔ other ∈ conn :: rest.map Prod.fst := by
      by_cases same : other = conn
      · subst same
        simp [handshaking, entries]
      · simp [rest, handshaking, same]
    have out : conn ∉ rest.map Prod.fst := by simp [rest]
    have taken : Tended arrived (conn :: rest.map Prod.fst) { s with handshakes := rest } :=
      (tended.congr split_).keep rfl rfl rfl (tended.congr split_).aims fun _ _ _ _ => Iff.rfl
    have still : Server.Owned { s with handshakes := rest } := ⟨owned.keyed, owned.below, owned.held⟩
    cases ok with
    | false =>
      rw [show (Label.wsDrained conn false).arrives.toList = [] from rfl, List.append_nil]
      exact taken.refuse out
    | true =>
      have kept := handleConn_handshaking { s with handshakes := rest } conn (.ws {}) roomKey
      have admitted := taken.handleConn out still (.ws {}) roomKey
        (joins roomKey (by simp [joining, found]))
      rw [show (Label.wsDrained conn true).arrives.toList = [] from rfl, List.append_nil]
      exact kept ▸ admitted
  | tick ms =>
    obtain rfl := Option.some.inj step
    exact quiet rfl (tended.keep rfl rfl rfl tended.aims fun _ _ _ _ => Iff.rfl)
  | read player raw =>
    obtain ⟨task, found, step⟩ := Option.bind_eq_some_iff.mp step
    have isId := owned.keyed.task player task found
    split_ifs at step
    cases raw with
    | none =>
      obtain rfl := Option.some.inj step
      exact quiet rfl (tended.finish owned found)
    | some raw =>
      obtain rfl := Option.some.inj step
      refine quiet ?_ ?_
      · unfold Server.read
        split
        · rfl
        · rfl
        · rfl
        · unfold Server.relay
          split <;> rfl
      · unfold Server.read
        split
        · exact tended.finish owned found
        · exact tended.finish owned found
        next carrier _ =>
          rw [isId]
          exact tended.goOn found { task with carrier := carrier, lastRx := s.now } rfl rfl
            (fun target aimed => tended.aims player target (by simpa [aim, found] using aimed))
            s.reads s.sends
        next carrier data _ =>
          exact tended.relay owned found { task with carrier := carrier, lastRx := s.now } rfl rfl data _
  | drained player outcome =>
    obtain ⟨task, found, step⟩ := Option.bind_eq_some_iff.mp step
    split at step
    next => simp at step
    next target awaiting =>
      obtain rfl := Option.some.inj step
      exact quiet (by cases outcome <;> rfl) (tended.drained owned found awaiting outcome)
  | heartbeat player =>
    obtain ⟨task, found, step⟩ := Option.bind_eq_some_iff.mp step
    split_ifs at step
    · obtain rfl := Option.some.inj step
      exact quiet rfl (tended.heartbeatDrop found)
    · obtain rfl := Option.some.inj step
      exact quiet rfl (tended.heartbeat found .draining)
  | heartbeatDrained player ok =>
    obtain ⟨task, found, step⟩ := Option.bind_eq_some_iff.mp step
    split_ifs at step
    · obtain rfl := Option.some.inj step
      exact quiet rfl (tended.heartbeat found .sleeping)
    · obtain rfl := Option.some.inj step
      exact quiet rfl (tended.heartbeatDrop found)
  | create key =>
    obtain rfl := Option.some.inj step
    exact quiet rfl (tended.create separate key)
  | delete key =>
    obtain rfl := Option.some.inj step
    exact quiet rfl (tended.delete owned separate key)
  | reap ttl =>
    obtain rfl := Option.some.inj step
    exact quiet rfl (tended.reap ttl)

theorem start_tended (saved : List String) :
    Tended [] (start saved).handshaking (start saved) where
  settled := by simp
  waits := by simp [handshaking, start]
  closes := by simp [start]
  known := by simp [start, owner]
  aims := by simp [start, aim]
  seats := by simp [start, owner]

end Server

structure Door where
  server : Server
  arrived : List Nat := []

def Door.next (door : Door) (label : Label) : Option Door :=
  (door.server.next label).map fun server => ⟨server, door.arrived ++ label.arrives.toList⟩

def doorMachine : Machine Door Label := ⟨Door.next⟩

/-- A connection is accepted once, and its room is still there when the player enters. -/
structure Orderly (door : Door) (label : Label) : Prop where
  fresh : ∀ conn ∈ label.arrives, conn ∉ door.arrived
  joins : ∀ key ∈ door.server.joining label, (door.server.rooms.dir.lookup key).isSome

instance (door : Door) (label : Label) : Decidable (Orderly door label) :=
  decidable_of_iff
    ((∀ conn ∈ label.arrives, conn ∉ door.arrived) ∧
      ∀ key ∈ door.server.joining label, (door.server.rooms.dir.lookup key).isSome)
    ⟨fun ⟨fresh, joins⟩ => ⟨fresh, joins⟩, fun orderly => ⟨orderly.fresh, orderly.joins⟩⟩

namespace Door

def serves (door : Door) (player : Player) : Prop := ∃ id ring, door.server.owner id = some (player, ring)

structure Accounted (door : Door) : Prop where
  tended : ∀ conn ∈ door.arrived, conn ∉ door.server.closed →
    conn ∈ door.server.handshaking ∨ ∃ player, door.serves player ∧ player.conn = conn
  -- Nobody is served before the response is out, nor twice.
  waits : ∀ conn ∈ door.server.handshaking, conn ∉ door.server.closed ∧
    ∀ player, door.serves player → player.conn ≠ conn
  single : ∀ player other, door.serves player → door.serves other → player.conn = other.conn →
    player = other
  -- A handler's connection is open exactly while its player sits in its room's ring.
  seats : ∀ id player ring, door.server.owner id = some (player, ring) →
    (player.conn ∉ door.server.closed ↔ door.server.seated player ring)
  live : ∀ key ring, door.server.rooms.dir.lookup key = some ring →
    ∀ player ∈ (door.server.rooms.rings ring).players,
      door.serves player ∧ player.conn ∉ door.server.closed

theorem accounted (door : Door) (owned : door.server.Owned) (separate : door.server.Separate)
    (tended : Server.Tended door.arrived door.server.handshaking door.server) : door.Accounted where
  tended := by
    intro conn here still
    rcases tended.settled conn here with waits | ⟨id, player, ring, served, rfl⟩ | closed
    · exact .inl waits
    · exact .inr ⟨player, ⟨id, ring, served⟩, rfl⟩
    · exact absurd closed still
  waits := by
    intro conn here
    obtain ⟨-, still, unserved⟩ := tended.waits conn here
    exact ⟨still, fun player ⟨id, ring, served⟩ => unserved id player ring served⟩
  single := by
    rintro player other ⟨id, ring, served⟩ ⟨id', ring', served'⟩ same
    exact (tended.known id' other ring' served').self id player ring served (.inr same)
  seats := tended.seats
  live := by
    intro key ring listed player held
    have own := owned.held ring player held
    refine ⟨⟨player.id, ring, own⟩, (tended.seats player.id player ring own).mpr ⟨?_, held⟩⟩
    rw [separate.own key ring listed player held]
    exact listed

end Door

theorem connections_accounted (saved : List String) (labels : List Label) (door : Door)
    (run : doorMachine.Run Orderly ⟨Server.start saved, []⟩ labels door) : door.Accounted := by
  have keeps : door.server.Owned ∧ door.server.Separate ∧
      Server.Tended door.arrived door.server.handshaking door.server := by
    refine run.invariant (fun door => door.server.Owned ∧ door.server.Separate ∧
        Server.Tended door.arrived door.server.handshaking door.server)
      ⟨Server.start_owned saved, Server.start_separate saved, Server.start_tended saved⟩ ?_
    rintro door label after ⟨owned, separate, tended⟩ orderly step
    obtain ⟨server, stepped, rfl⟩ := Option.map_eq_some_iff.mp step
    have effect := Server.next_effect door.server server label owned.keyed stepped
    exact ⟨effect.owned owned, effect.separate owned separate orderly.joins,
      Server.next_tended door.server server label door.arrived owned separate tended orderly.fresh
        orderly.joins stepped⟩
  exact door.accounted keeps.1 keeps.2.1 keeps.2.2

theorem connections_accounted_slow :
    ∃ door, doorMachine.exec Orderly ⟨Server.start ["A"], []⟩
        [.wsRequest 7 "A", .wsDrained 7 true, .wsRequest 8 "A", .tcpConnect 9, .wsDrained 8 true,
          .read 1 (some [0x82, 0x01, 0x90]), .drained 1 .timeout] = some door ∧
      door.server.closed = [8] ∧ door.serves ⟨3, "A", 8⟩ ∧ door.Accounted := by
  have checked : (doorMachine.exec Orderly ⟨Server.start ["A"], []⟩
      [.wsRequest 7 "A", .wsDrained 7 true, .wsRequest 8 "A", .tcpConnect 9, .wsDrained 8 true,
        .read 1 (some [0x82, 0x01, 0x90]), .drained 1 .timeout]).any
        (fun door => decide (door.server.closed = [8] ∧
          door.server.owner 3 = some (⟨3, "A", 8⟩, 1))) = true := by
    decide +kernel
  obtain ⟨door, executed, results⟩ := (Option.any_eq_true _ _).mp checked
  obtain ⟨closed, served⟩ := of_decide_eq_true results
  exact ⟨door, executed, closed, ⟨3, 1, served⟩,
    connections_accounted ["A"] _ door (Machine.run_of_exec executed)⟩

end MidiToIp.Orchestrator
