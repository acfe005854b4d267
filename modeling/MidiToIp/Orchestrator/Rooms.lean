import Mathlib.Data.List.Cycle
import Mathlib.Data.List.GetD

set_option autoImplicit false

-- A registry is an object that outlives its entry in the rooms: whoever joined goes on using it. So the
-- rooms map a key to the number of a registry, and the registries are kept apart.

namespace MidiToIp.Orchestrator

def defaultRoom : String := ""
def maxPlayersPerRoom : Nat := 16

structure Player where
  id : Nat
  room : String
  conn : Nat
  deriving DecidableEq, Repr

structure Registry where
  players : List Player
  distinct : (players.map Player.id).Nodup

namespace Registry

def empty : Registry := ⟨[], by simp⟩

def ids (reg : Registry) : List Nat := reg.players.map Player.id

def size (reg : Registry) : Nat := reg.players.length

def add (player : Player) (reg : Registry) : Registry :=
  if held : player.id ∈ reg.ids then
    { players := reg.players.map fun p => if p.id = player.id then player else p
      distinct := by
        have same : (reg.players.map fun p => if p.id = player.id then player else p).map Player.id =
            reg.ids := by
          rw [List.map_map, ids]
          apply List.map_congr_left
          intro p _
          by_cases replaced : p.id = player.id <;> simp [replaced]
        rw [same]
        exact reg.distinct }
  else
    { players := reg.players ++ [player]
      distinct := by
        rw [List.map_append, List.nodup_append]
        refine ⟨reg.distinct, by simp, ?_⟩
        intro id member other single
        obtain rfl : other = player.id := by simpa using single
        rintro rfl
        exact held member }

def remove (playerId : Nat) (reg : Registry) : Registry :=
  { players := reg.players.filter fun p => p.id ≠ playerId
    distinct := (List.filter_sublist.map Player.id).nodup reg.distinct }

-- The next player in the ring; a ring of one echoes.
def nextPlayer (player : Player) (reg : Registry) : Option Player :=
  if player.id ∉ reg.ids then none
  else if reg.ids.length = 1 then some player
  else
    let nxt := reg.ids.getD ((reg.ids.idxOf player.id + 1) % reg.ids.length) 0
    reg.players.find? fun p => p.id = nxt

theorem mem_ids (reg : Registry) (player : Player) (member : player ∈ reg.players) :
    player.id ∈ reg.ids := List.mem_map_of_mem member

theorem eq_of_id (reg : Registry) (p q : Player) (first : p ∈ reg.players) (second : q ∈ reg.players)
    (same : p.id = q.id) : p = q := List.inj_on_of_nodup_map reg.distinct first second same

@[simp] theorem players_empty : empty.players = [] := rfl

theorem players_add (reg : Registry) (player : Player) (fresh : player.id ∉ reg.ids) :
    (reg.add player).players = reg.players ++ [player] := by
  rw [add, dif_neg fresh]

theorem mem_remove (reg : Registry) (playerId : Nat) (p : Player) :
    p ∈ (reg.remove playerId).players ↔ p ∈ reg.players ∧ p.id ≠ playerId := by
  simp [remove]

theorem size_remove (reg : Registry) (playerId : Nat) : (reg.remove playerId).size ≤ reg.size :=
  List.length_filter_le _ _

theorem size_add_pos (reg : Registry) (player : Player) : 0 < (reg.add player).size := by
  unfold add
  split
  next held =>
    obtain ⟨p, member, -⟩ := List.mem_map.mp held
    have some_ := List.length_pos_of_mem member
    simpa [size] using some_
  next => simp [size]

theorem nextPlayer_eq_next (reg : Registry) (player target : Player)
    (next : reg.nextPlayer player = some target) :
    ∃ member : player.id ∈ reg.ids, target.id = reg.ids.next player.id member ∧
      (target = player ∨ target ∈ reg.players) := by
  unfold nextPlayer at next
  split at next
  next => simp at next
  next member =>
    rw [not_not] at member
    refine ⟨member, ?_⟩
    split at next
    next single =>
      obtain rfl := Option.some.inj next
      obtain ⟨only, ring⟩ := List.length_eq_one_iff.mp single
      refine ⟨?_, .inl rfl⟩
      have self : player.id = only := by simpa [ring] using member
      simp [ring, self]
    next =>
      have found := List.find?_some next
      rw [decide_eq_true_eq] at found
      have within : (reg.ids.idxOf player.id + 1) % reg.ids.length < reg.ids.length :=
        Nat.mod_lt _ (List.length_pos_of_mem member)
      refine ⟨?_, .inr (List.mem_of_find?_eq_some next)⟩
      rw [List.getD_eq_getElem _ _ within] at found
      rw [List.next_eq_getElem member]
      exact found

theorem nextPlayer_isSome (reg : Registry) (player : Player) (member : player.id ∈ reg.ids) :
    (reg.nextPlayer player).isSome := by
  unfold nextPlayer
  rw [if_neg (not_not.mpr member)]
  split
  · rfl
  · have within : (reg.ids.idxOf player.id + 1) % reg.ids.length < reg.ids.length :=
      Nat.mod_lt _ (List.length_pos_of_mem member)
    rw [List.getD_eq_getElem _ _ within]
    obtain ⟨p, held, same⟩ := List.mem_map.mp (List.getElem_mem within)
    exact List.find?_isSome.mpr ⟨p, held, by simpa using same⟩

def pred (reg : Registry) (playerId : Nat) : Option Nat :=
  if member : playerId ∈ reg.ids then some (reg.ids.prev playerId member) else none

theorem pred_of_nextPlayer (reg : Registry) (player target : Player)
    (next : reg.nextPlayer player = some target) : reg.pred target.id = some player.id := by
  obtain ⟨member, id, -⟩ := reg.nextPlayer_eq_next player target next
  have after : reg.ids.next player.id member ∈ reg.ids := List.next_mem _ _ _
  unfold pred
  simp only [id, dif_pos after]
  rw [List.prev_next reg.ids reg.distinct player.id member]

theorem nextPlayer_of_pred (reg : Registry) (playerId : Nat) (player : Player)
    (before : reg.pred playerId = some player.id) :
    ∃ target, reg.nextPlayer player = some target ∧ target.id = playerId := by
  unfold pred at before
  split at before
  next member =>
    have same := Option.some.inj before
    have held : player.id ∈ reg.ids := by
      rw [← same]
      exact List.prev_mem _ _ _
    obtain ⟨target, next⟩ := Option.isSome_iff_exists.mp (reg.nextPlayer_isSome player held)
    obtain ⟨_, id, -⟩ := reg.nextPlayer_eq_next player target next
    refine ⟨target, next, id.trans ?_⟩
    simp only [← same]
    exact List.next_prev reg.ids reg.distinct playerId member
  next => simp at before

end Registry

/-- A dict from keys to registries. Every registry is made for one key. -/
structure Directory where
  entries : List (String × Nat)
  fresh : Nat
  keys : (entries.map Prod.fst).Nodup
  values : (entries.map Prod.snd).Nodup
  below : ∀ entry ∈ entries, entry.2 < fresh

namespace Directory

def init : Directory :=
  { entries := [(defaultRoom, 0)]
    fresh := 1
    keys := by simp
    values := by simp
    below := by simp }

def lookup (dir : Directory) (key : String) : Option Nat := dir.entries.lookup key

def insert (key : String) (dir : Directory) : Directory :=
  if held : key ∈ dir.entries.map Prod.fst then dir
  else
    { entries := dir.entries ++ [(key, dir.fresh)]
      fresh := dir.fresh + 1
      keys := by
        rw [List.map_append, List.nodup_append]
        refine ⟨dir.keys, by simp, ?_⟩
        intro other member new single
        obtain rfl : new = key := by simpa using single
        rintro rfl
        exact held member
      values := by
        rw [List.map_append, List.nodup_append]
        refine ⟨dir.values, by simp, ?_⟩
        intro other member new single
        obtain rfl : new = dir.fresh := by simpa using single
        obtain ⟨entry, present, rfl⟩ := List.mem_map.mp member
        exact Nat.ne_of_lt (dir.below entry present)
      below := by
        intro entry member
        rcases List.mem_append.mp member with old | new
        · exact Nat.lt_succ_of_lt (dir.below entry old)
        · obtain rfl := List.mem_singleton.mp new
          exact Nat.lt_succ_self _ }

def erase (key : String) (dir : Directory) : Directory :=
  { dir with
    entries := dir.entries.filter fun entry => entry.1 ≠ key
    keys := (List.filter_sublist.map Prod.fst).nodup dir.keys
    values := (List.filter_sublist.map Prod.snd).nodup dir.values
    below := fun entry member => dir.below entry (List.mem_of_mem_filter member) }

theorem lookup_eq_some (dir : Directory) (key : String) (ring : Nat) :
    dir.lookup key = some ring ↔ (key, ring) ∈ dir.entries := by
  rw [lookup, List.lookup_eq_some_iff]
  constructor
  · rintro ⟨before, later, entries, -⟩
    rw [entries]
    exact List.mem_append_right _ List.mem_cons_self
  · intro member
    obtain ⟨before, later, entries⟩ := List.append_of_mem member
    refine ⟨before, later, entries, fun other earlier => ?_⟩
    have keys := dir.keys
    rw [entries, List.map_append, List.nodup_append] at keys
    have different := keys.2.2 other.1 (List.mem_map_of_mem earlier) key (by simp)
    simpa using different.symm

theorem lookup_insert (dir : Directory) (key other : String) (ring : Nat) :
    (dir.insert key).lookup other = some ring ↔
      dir.lookup other = some ring ∨
        dir.lookup key = none ∧ other = key ∧ ring = dir.fresh := by
  have absent : dir.lookup key = none ↔ key ∉ dir.entries.map Prod.fst := by
    rw [lookup, List.lookup_eq_none_iff]
    constructor
    · intro none_ member
      obtain ⟨entry, present, rfl⟩ := List.mem_map.mp member
      simpa using none_ entry present
    · intro none_ entry present
      have different : entry.1 ≠ key := by
        rintro rfl
        exact none_ (List.mem_map_of_mem present)
      simpa using different.symm
  rw [lookup_eq_some, lookup_eq_some, absent, insert]
  split
  next held => simp [held]
  next free => simp [free]

theorem lookup_erase (dir : Directory) (key other : String) (ring : Nat) :
    (dir.erase key).lookup other = some ring ↔ other ≠ key ∧ dir.lookup other = some ring := by
  rw [lookup_eq_some, lookup_eq_some, erase]
  simp [and_comm]

theorem insert_fresh (dir : Directory) (key : String) : dir.fresh ≤ (dir.insert key).fresh := by
  rw [insert]
  split
  · exact Nat.le_refl _
  · exact Nat.le_succ _

theorem lookup_lt (dir : Directory) (key : String) (ring : Nat) (found : dir.lookup key = some ring) :
    ring < dir.fresh := dir.below _ ((dir.lookup_eq_some key ring).mp found)

theorem lookup_injective (dir : Directory) (key other : String) (ring : Nat)
    (first : dir.lookup key = some ring) (second : dir.lookup other = some ring) : key = other := by
  rw [lookup_eq_some] at first second
  exact congrArg Prod.fst (List.inj_on_of_nodup_map dir.values first second rfl)

end Directory

structure Rooms where
  dir : Directory := Directory.init
  rings : Nat → Registry := fun _ => Registry.empty
  used : List String := []
  emptySince : List (String × Nat) := []

namespace Rooms

def isOpen (key : String) (rooms : Rooms) : Bool :=
  key == defaultRoom || (rooms.dir.lookup key).isSome

def isFull (key : String) (rooms : Rooms) : Bool :=
  (rooms.dir.lookup key).any fun ring => maxPlayersPerRoom ≤ (rooms.rings ring).size

def markUsed (key : String) (rooms : Rooms) : Rooms :=
  { rooms with
    used := if key ∈ rooms.used then rooms.used else rooms.used ++ [key]
    emptySince := rooms.emptySince.filter fun entry => entry.1 ≠ key }

-- An unknown key falls back to the default room.
def get (key : String) (rooms : Rooms) : Nat :=
  match rooms.dir.lookup key with
  | some ring => ring
  | none => (rooms.dir.lookup defaultRoom).getD 0

def create (key : String) (rooms : Rooms) : Bool × Rooms :=
  if (rooms.dir.lookup key).isSome then (false, rooms)
  else (true, { rooms with dir := rooms.dir.insert key })

def forget (key : String) (rooms : Rooms) : Rooms :=
  { rooms with
    dir := rooms.dir.erase key
    used := rooms.used.filter fun other => other ≠ key
    emptySince := rooms.emptySince.filter fun entry => entry.1 ≠ key }

def delete (key : String) (rooms : Rooms) : Option (List Player) × Rooms :=
  if key = defaultRoom then (none, rooms)
  else
    match rooms.dir.lookup key with
    | none => (none, rooms)
    | some ring => (some (rooms.rings ring).players, rooms.forget key)

def registry (key : String) (rooms : Rooms) : Option Nat := rooms.dir.lookup key

def reapOne (now ttl : Nat) (rooms : Rooms) (key : String) : Rooms :=
  if key = defaultRoom ∨ key ∉ rooms.used then rooms
  else
    match rooms.dir.lookup key with
    | none => rooms
    | some ring =>
      if (rooms.rings ring).size > 0 then
        { rooms with emptySince := rooms.emptySince.filter fun entry => entry.1 ≠ key }
      else
        match rooms.emptySince.lookup key with
        | none => { rooms with emptySince := rooms.emptySince ++ [(key, now)] }
        | some started => if now - started > ttl then rooms.forget key else rooms

def reapEmpty (now ttl : Nat) (rooms : Rooms) : Rooms :=
  (rooms.dir.entries.map Prod.fst).foldl (reapOne now ttl) rooms

def load (saved : List String) : Rooms :=
  saved.foldl (fun rooms key => if key = defaultRoom then rooms else (rooms.create key).2) {}

def update (ring : Nat) (change : Registry → Registry) (rooms : Rooms) : Rooms :=
  { rooms with
    rings := fun other => if other = ring then change (rooms.rings ring) else rooms.rings other }

structure Settles (rooms after : Rooms) : Prop where
  rings : after.rings = rooms.rings
  fresh : rooms.dir.fresh ≤ after.dir.fresh
  lookup : ∀ key ring, after.dir.lookup key = some ring →
    rooms.dir.lookup key = some ring ∨ rooms.dir.fresh ≤ ring
  default : ∀ ring, rooms.dir.lookup defaultRoom = some ring →
    after.dir.lookup defaultRoom = some ring

theorem Settles.refl (rooms : Rooms) : Settles rooms rooms :=
  ⟨rfl, Nat.le_refl _, fun _ _ found => .inl found, fun _ found => found⟩

theorem Settles.trans {rooms middle after : Rooms} (first : Settles rooms middle)
    (second : Settles middle after) : Settles rooms after := by
  refine ⟨second.rings.trans first.rings, Nat.le_trans first.fresh second.fresh, ?_,
    fun ring found => second.default ring (first.default ring found)⟩
  intro key ring found
  rcases second.lookup key ring found with before | new
  · exact first.lookup key ring before
  · exact .inr (Nat.le_trans first.fresh new)

theorem create_settles (key : String) (rooms : Rooms) : Settles rooms (rooms.create key).2 := by
  unfold create
  split
  · exact .refl rooms
  · refine ⟨rfl, rooms.dir.insert_fresh key, fun other ring found => ?_,
      fun ring found => (rooms.dir.lookup_insert key _ ring).mpr (.inl found)⟩
    rcases (rooms.dir.lookup_insert key other ring).mp found with before | ⟨-, -, rfl⟩
    · exact .inl before
    · exact .inr (Nat.le_refl _)

theorem forget_settles (key : String) (rooms : Rooms) (named : key ≠ defaultRoom) :
    Settles rooms (rooms.forget key) where
  rings := rfl
  fresh := Nat.le_refl _
  lookup := fun other ring found => .inl ((rooms.dir.lookup_erase key other ring).mp found).2
  default := fun ring found => (rooms.dir.lookup_erase key _ ring).mpr ⟨Ne.symm named, found⟩

theorem delete_settles (key : String) (rooms : Rooms) : Settles rooms (rooms.delete key).2 := by
  unfold delete
  split
  · exact .refl rooms
  next named =>
    split
    · exact .refl rooms
    · exact forget_settles key rooms named

theorem reapOne_settles (now ttl : Nat) (rooms : Rooms) (key : String) :
    Settles rooms (rooms.reapOne now ttl key) := by
  have same := Settles.refl rooms
  unfold reapOne
  split
  · exact same
  next candidate =>
    split
    · exact same
    split
    · exact ⟨rfl, same.fresh, same.lookup, same.default⟩
    split
    · exact ⟨rfl, same.fresh, same.lookup, same.default⟩
    split
    · exact forget_settles key rooms fun unnamed => candidate (.inl unnamed)
    · exact same

theorem reapEmpty_settles (now ttl : Nat) (rooms : Rooms) :
    Settles rooms (rooms.reapEmpty now ttl) := by
  have all (keys : List String) (start : Rooms) : Settles start (keys.foldl (reapOne now ttl) start) := by
    induction keys generalizing start with
    | nil => exact .refl start
    | cons key rest ih => exact (reapOne_settles now ttl start key).trans (ih _)
  exact all _ rooms

theorem load_settles (saved : List String) : Settles {} (load saved) := by
  have all (start : Rooms) : Settles start (saved.foldl
      (fun rooms key => if key = defaultRoom then rooms else (rooms.create key).2) start) := by
    induction saved generalizing start with
    | nil => exact .refl start
    | cons key rest ih =>
      have one : Settles start (if key = defaultRoom then start else (start.create key).2) := by
        split
        · exact .refl start
        · exact create_settles key start
      exact one.trans (ih _)
  exact all {}

end Rooms

end MidiToIp.Orchestrator
