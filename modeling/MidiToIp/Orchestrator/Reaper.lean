import Mathlib.Data.List.Basic
import MidiToIp.Orchestrator.Membership

set_option autoImplicit false

namespace MidiToIp.Orchestrator

open Machines Dicts

def Rooms.Vacant (rooms : Rooms) (key : String) (ring : Nat) : Prop :=
  rooms.dir.lookup key = some ring ∧ (rooms.rings ring).size = 0

inductive Rooms.Reaped (now ttl : Nat) (rooms after : Rooms) (key : String) : Prop where
  | kept (dir : after.dir.lookup key = rooms.dir.lookup key) (used : key ∈ after.used ↔ key ∈ rooms.used)
      (marks : ∀ started, after.emptySince.lookup key = some started →
        rooms.emptySince.lookup key = some started ∨
          started = now ∧ key ≠ defaultRoom ∧ ∃ ring, rooms.Vacant key ring)
  | taken (ring started : Nat) (named : key ≠ defaultRoom) (used : key ∈ rooms.used)
      (vacant : rooms.Vacant key ring) (mark : rooms.emptySince.lookup key = some started)
      (late : now - started > ttl) (dir : after.dir.lookup key = none) (unused : key ∉ after.used)
      (unmarked : after.emptySince.lookup key = none)

namespace Rooms

theorem Reaped.refl (now ttl : Nat) (rooms : Rooms) (key : String) : Reaped now ttl rooms rooms key :=
  .kept rfl Iff.rfl fun _ mark => .inl mark

-- A mark that the call itself has set is not old enough for the same call.
theorem Reaped.trans {now ttl : Nat} {rooms middle after : Rooms} {key : String}
    (rings : middle.rings = rooms.rings) (first : Reaped now ttl rooms middle key)
    (second : Reaped now ttl middle after key) : Reaped now ttl rooms after key := by
  cases first with
  | kept dir used marks =>
    have vacant (ring : Nat) (vacant : middle.Vacant key ring) : rooms.Vacant key ring := by
      unfold Vacant at vacant ⊢
      rwa [dir, rings] at vacant
    cases second with
    | kept dir' used' marks' =>
      refine .kept (dir'.trans dir) (used'.trans used) fun started mark => ?_
      rcases marks' started mark with old | ⟨now_, named, ring, empty⟩
      · exact marks started old
      · exact .inr ⟨now_, named, ring, vacant ring empty⟩
    | taken ring started named used' empty mark late dir' unused unmarked =>
      rcases marks started mark with old | ⟨rfl, -⟩
      · exact .taken ring started named (used.mp used') (vacant ring empty) old late dir' unused unmarked
      · omega
  | taken ring started named used vacant mark late dir unused unmarked =>
    cases second with
    | kept dir' used' marks' =>
      refine .taken ring started named used vacant mark late (dir'.trans dir)
        (fun member => unused (used'.mp member)) (Option.eq_none_iff_forall_not_mem.mpr fun other mark' => ?_)
      rcases marks' other mark' with old | ⟨-, -, ring', empty⟩
      · simp [unmarked] at old
      · simp [Vacant, dir] at empty
    | taken ring' _ _ _ empty => simp [Vacant, dir] at empty

theorem mem_used_markUsed (room key : String) (rooms : Rooms) :
    key ∈ (rooms.markUsed room).used ↔ key ∈ rooms.used ∨ key = room := by
  unfold markUsed
  split
  next held => exact ⟨.inl, fun either => either.elim id fun same => same ▸ held⟩
  next => exact List.mem_append.trans (or_congr_right List.mem_singleton)

theorem forget_lookup (key other : String) (rooms : Rooms) (different : other ≠ key) :
    (rooms.forget key).dir.lookup other = rooms.dir.lookup other := by
  apply Option.ext
  intro ring
  rw [forget, rooms.dir.lookup_erase]
  simp [different]

theorem forget_lookup_self (key : String) (rooms : Rooms) : (rooms.forget key).dir.lookup key = none := by
  apply Option.eq_none_iff_forall_not_mem.mpr
  intro ring found
  exact ((rooms.dir.lookup_erase key key ring).mp found).1 rfl

theorem reapOne_reaped (now ttl : Nat) (rooms : Rooms) (turn key : String) :
    Reaped now ttl rooms (rooms.reapOne now ttl turn) key := by
  unfold reapOne
  split
  next => exact .refl now ttl rooms key
  next candidate =>
    rw [not_or, not_not] at candidate
    split
    next => exact .refl now ttl rooms key
    next ring held =>
      split
      next =>
        refine .kept rfl Iff.rfl fun started mark => .inl ?_
        rw [lookup_filter_ne] at mark
        split at mark
        · simp at mark
        · exact mark
      next idle =>
        have empty : rooms.Vacant turn ring := ⟨held, Nat.eq_zero_of_not_pos idle⟩
        split
        next =>
          refine .kept rfl Iff.rfl fun started mark => ?_
          rw [List.lookup_append] at mark
          rcases Option.or_eq_some_iff.mp mark with old | ⟨-, new⟩
          · exact .inl old
          · simp only [List.lookup_cons, List.lookup_nil] at new
            split at new
            next same =>
              obtain rfl := beq_iff_eq.mp same
              exact .inr ⟨(Option.some.inj new).symm, candidate.1, ring, empty⟩
            next => simp at new
        next started mark =>
          split_ifs with late
          · by_cases same : key = turn
            · subst same
              refine .taken ring started candidate.1 candidate.2 empty mark late
                (rooms.forget_lookup_self key) ?_ ?_
              · simp [forget]
              · rw [forget, lookup_filter_ne, if_pos rfl]
            · refine .kept (rooms.forget_lookup turn key same) ?_ fun other mark' => .inl ?_
              · simp [forget, same]
              · rwa [forget, lookup_filter_ne, if_neg same] at mark'
          · exact .refl now ttl rooms key

theorem reapEmpty_reaped (now ttl : Nat) (rooms : Rooms) (key : String) :
    Reaped now ttl rooms (rooms.reapEmpty now ttl) key := by
  have all (turns : List String) (start : Rooms) :
      Reaped now ttl start (turns.foldl (reapOne now ttl) start) key := by
    induction turns generalizing start with
    | nil => exact .refl now ttl start key
    | cons turn rest ih =>
      exact (reapOne_reaped now ttl start turn key).trans (reapOne_settles now ttl start turn).rings
        (ih _)
  exact all _ rooms

theorem forget_vacant (key other : String) (ring : Nat) (rooms : Rooms) (different : other ≠ key) :
    (rooms.forget key).Vacant other ring ↔ rooms.Vacant other ring := by
  unfold Vacant
  rw [rooms.forget_lookup key other different]
  rfl

end Rooms

/-- Under this registry the room has had a player. A room that is made again gets another one. -/
def Joined (past : Machine.Past Server) (key : String) (ring : Nat) : Prop :=
  ∃ s ∈ past.states, s.rooms.dir.lookup key = some ring ∧ 0 < (s.rooms.rings ring).size

def EmptySince (past : Machine.Past Server) (key : String) (ring started : Nat) : Prop :=
  ∃ recent since older, past.states = recent ++ since :: older ∧ since.now = started ∧
    ∀ s ∈ recent ++ [since], s.rooms.Vacant key ring

def EmptyLonger (past : Machine.Past Server) (key : String) (ring ttl : Nat) : Prop :=
  ∃ started, started + ttl < past.state.now ∧ EmptySince past key ring started

theorem EmptySince.vacant {past : Machine.Past Server} {key : String} {ring started : Nat}
    (empty : EmptySince past key ring started) : past.state.rooms.Vacant key ring := by
  obtain ⟨recent, since, older, states, -, vacant⟩ := empty
  apply vacant
  cases recent with
  | nil => simp [(List.cons.inj states).1]
  | cons latest rest => simp [(List.cons.inj states).1]

/-- A client that asked for this room has ended up in the default one. -/
def Strayed (past : Machine.Past Server) (key : String) : Prop :=
  ∃ s ∈ past.states, ∃ p ∈ (s.rooms.rings (s.rooms.get defaultRoom)).players, p.room = key

instance (past : Machine.Past Server) (key : String) : Decidable (Strayed past key) :=
  inferInstanceAs (Decidable (∃ s ∈ past.states,
    ∃ p ∈ (s.rooms.rings (s.rooms.get defaultRoom)).players, p.room = key))

/-- No room is made under a key whose clients have ended up in the default room. -/
def freshKey (past : Machine.Past Server) : Label → Prop
  | .create key => (past.state.rooms.dir.lookup key).isSome ∨ ¬ Strayed past key
  | _ => True

instance (past : Machine.Past Server) (label : Label) : Decidable (freshKey past label) := by
  unfold freshKey
  split <;> infer_instance

def unmarkedKey (past : Machine.Past Server) : Label → Prop
  | .create key => (past.state.rooms.dir.lookup key).isSome ∨ key ∉ past.state.rooms.used
  | _ => True

structure Marked (past : Machine.Past Server) : Prop where
  default : (past.state.rooms.dir.lookup defaultRoom).isSome
  used : ∀ key ∈ past.state.rooms.used, ∀ ring,
    past.state.rooms.dir.lookup key = some ring → Joined past key ring
  marks : ∀ key started, past.state.rooms.emptySince.lookup key = some started →
    key ≠ defaultRoom ∧ ∃ ring, EmptySince past key ring started

theorem Marked.step {past : Machine.Past Server} {after : Server} (marked : Marked past)
    (default : (after.rooms.dir.lookup defaultRoom).isSome)
    (used : ∀ key ∈ after.rooms.used, ∀ ring, after.rooms.dir.lookup key = some ring →
      key ∈ past.state.rooms.used ∧ past.state.rooms.dir.lookup key = some ring ∨
        0 < (after.rooms.rings ring).size)
    (marks : ∀ key started, after.rooms.emptySince.lookup key = some started →
      (past.state.rooms.emptySince.lookup key = some started ∨
          started = past.state.now ∧ key ≠ defaultRoom ∧
            ∃ ring, past.state.rooms.Vacant key ring) ∧
        ∀ ring, past.state.rooms.Vacant key ring → after.rooms.Vacant key ring) :
    Marked ⟨after, past.states⟩ where
  default := default
  used key member ring held := by
    rcases used key member ring held with ⟨old, before⟩ | inhabited
    · obtain ⟨s, within, busy⟩ := marked.used key old ring before
      exact ⟨s, List.mem_cons_of_mem _ within, busy⟩
    · exact ⟨after, List.mem_cons_self, held, inhabited⟩
  marks key started mark := by
    obtain ⟨origin, stays⟩ := marks key started mark
    rcases origin with old | ⟨rfl, named, ring, vacant⟩
    · obtain ⟨named, ring, empty⟩ := marked.marks key started old
      have vacantNow := empty.vacant
      obtain ⟨recent, since, older, states, time, vacant⟩ := empty
      refine ⟨named, ring, after :: recent, since, older, ?_, time, ?_⟩
      · change after :: past.states = _
        rw [states]
        rfl
      · intro s member
        rcases List.mem_cons.mp member with rfl | within
        · exact stays ring vacantNow
        · exact vacant s within
    · refine ⟨named, ring, [after], past.state, past.earlier, rfl, rfl, ?_⟩
      intro s member
      rcases List.mem_cons.mp member with rfl | within
      · exact stays ring vacant
      · obtain rfl := List.mem_singleton.mp within
        exact vacant

theorem Marked.same {past : Machine.Past Server} {after : Server} (marked : Marked past)
    (rooms : after.rooms = past.state.rooms) : Marked ⟨after, past.states⟩ := by
  refine marked.step ?_ ?_ ?_ <;> rw [rooms]
  · exact marked.default
  · exact fun key member ring held => .inl ⟨member, held⟩
  · exact fun key started mark => ⟨.inl mark, fun ring vacant => vacant⟩

theorem Marked.create {past : Machine.Past Server} {after : Server} (marked : Marked past)
    (key : String) (fresh : unmarkedKey past (.create key))
    (rooms : after.rooms = (past.state.rooms.create key).2) : Marked ⟨after, past.states⟩ := by
  cases found : past.state.rooms.dir.lookup key with
  | some other => exact marked.same (by rw [rooms]; simp [Rooms.create, found])
  | none =>
    have unused : key ∉ past.state.rooms.used := by simpa [unmarkedKey, found] using fresh
    have made : after.rooms = { past.state.rooms with dir := past.state.rooms.dir.insert key } := by
      rw [rooms]
      simp [Rooms.create, found]
    refine marked.step ?_ ?_ ?_ <;> rw [made]
    · exact (past.state.rooms.dir.isSome_insert key defaultRoom).mpr (.inl marked.default)
    · intro other member ring held
      rcases (past.state.rooms.dir.lookup_insert key other ring).mp held with before | ⟨-, rfl, -⟩
      · exact .inl ⟨member, before⟩
      · exact absurd member unused
    · exact fun other started mark => ⟨.inl mark, fun ring vacant =>
        ⟨(past.state.rooms.dir.lookup_insert key other ring).mpr (.inl vacant.1), vacant.2⟩⟩

theorem Marked.delete {past : Machine.Past Server} {after : Server} (marked : Marked past)
    (key : String) (rooms : after.rooms = (past.state.rooms.delete key).2) :
    Marked ⟨after, past.states⟩ := by
  unfold Rooms.delete at rooms
  split at rooms
  next => exact marked.same rooms
  next named =>
    split at rooms
    next => exact marked.same rooms
    next =>
      refine marked.step ?_ ?_ ?_ <;> rw [rooms]
      · rw [Rooms.forget_lookup key defaultRoom past.state.rooms (Ne.symm named)]
        exact marked.default
      · intro other member ring held
        exact .inl ⟨List.mem_of_mem_filter member,
          ((past.state.rooms.dir.lookup_erase key other ring).mp held).2⟩
      · intro other started mark
        change (Rooms.forget key past.state.rooms).emptySince.lookup other = _ at mark
        rw [Rooms.forget, lookup_filter_ne] at mark
        split at mark
        next => simp at mark
        next different =>
          exact ⟨.inl mark, fun ring =>
            (Rooms.forget_vacant key other ring past.state.rooms different).mpr⟩

theorem Marked.reap {past : Machine.Past Server} {after : Server} (marked : Marked past) (ttl : Nat)
    (rooms : after.rooms = past.state.rooms.reapEmpty past.state.now ttl) :
    Marked ⟨after, past.states⟩ := by
  have settles := Rooms.reapEmpty_settles past.state.now ttl past.state.rooms
  have reaped := Rooms.reapEmpty_reaped past.state.now ttl past.state.rooms
  obtain ⟨ring, held⟩ := Option.isSome_iff_exists.mp marked.default
  refine marked.step ?_ ?_ ?_ <;> rw [rooms]
  · exact Option.isSome_iff_exists.mpr ⟨ring, settles.default ring held⟩
  · intro key member ring held
    cases reaped key with
    | kept dir used => exact .inl ⟨used.mp member, dir ▸ held⟩
    | taken _ _ _ _ _ _ _ _ unused => exact absurd member unused
  · intro key started mark
    cases reaped key with
    | kept dir used marks =>
      refine ⟨marks started mark, fun ring vacant => ?_⟩
      unfold Rooms.Vacant at vacant ⊢
      rwa [dir, settles.rings]
    | taken _ _ _ _ _ _ _ _ _ unmarked => simp [unmarked] at mark

theorem Marked.elsewhere {past : Machine.Past Server} (marked : Marked past) {key room : String}
    {started ring : Nat} (mark : past.state.rooms.emptySince.lookup key = some started)
    (held : past.state.rooms.dir.lookup key = some ring) (different : key ≠ room) :
    ring ≠ past.state.rooms.get room := by
  obtain ⟨home, default⟩ := Option.isSome_iff_exists.mp marked.default
  rintro rfl
  unfold Rooms.get at held
  cases found : past.state.rooms.dir.lookup room with
  | some other =>
    rw [found] at held
    exact different (past.state.rooms.dir.lookup_injective _ _ _ held found)
  | none =>
    rw [found, default] at held
    exact (marked.marks key started mark).1 (past.state.rooms.dir.lookup_injective _ _ _ held default)

theorem Marked.join {past : Machine.Past Server} {after : Server} (marked : Marked past)
    (player : Player)
    (rooms : after.rooms = (past.state.rooms.update (past.state.rooms.get player.room)
      (Registry.add player)).markUsed player.room) : Marked ⟨after, past.states⟩ := by
  have dir : after.rooms.dir = past.state.rooms.dir := by rw [rooms]; rfl
  have rings (ring : Nat) : after.rooms.rings ring =
      if ring = past.state.rooms.get player.room then
        Registry.add player (past.state.rooms.rings (past.state.rooms.get player.room))
      else past.state.rooms.rings ring := by rw [rooms]; rfl
  refine marked.step (by rw [dir]; exact marked.default) ?_ ?_
  · intro key member ring held
    rw [dir] at held
    rw [rooms] at member
    rcases (Rooms.mem_used_markUsed player.room key _).mp member with old | rfl
    · exact .inl ⟨old, held⟩
    · right
      rw [rings, Rooms.get, held]
      simp only [if_true]
      exact Registry.size_add_pos _ player
  · intro key started mark
    rw [rooms] at mark
    change (past.state.rooms.emptySince.filter fun entry => entry.1 ≠ player.room).lookup key = _
      at mark
    rw [lookup_filter_ne] at mark
    split at mark
    next => simp at mark
    next different =>
      refine ⟨.inl mark, fun ring vacant => ?_⟩
      unfold Rooms.Vacant
      rw [dir, rings, if_neg (marked.elsewhere mark vacant.1 different)]
      exact vacant

theorem Marked.remove {past : Machine.Past Server} {after : Server} (marked : Marked past)
    (home id : Nat) (rooms : after.rooms = past.state.rooms.update home (Registry.remove id)) :
    Marked ⟨after, past.states⟩ := by
  refine marked.step ?_ ?_ ?_ <;> rw [rooms]
  · exact marked.default
  · exact fun key member ring held => .inl ⟨member, held⟩
  · refine fun key started mark => ⟨.inl mark, fun ring vacant => ⟨vacant.1, ?_⟩⟩
    have idle := vacant.2
    change ((if ring = home then _ else _ : Registry)).size = 0
    split
    next same =>
      have fewer := (past.state.rooms.rings home).size_remove id
      rw [← same] at fewer ⊢
      omega
    next => exact idle

theorem marked_next (past after : Machine.Past Server) (label : Label) (marked : Marked past)
    (meets : unmarkedKey past label) (step : serverMachine.recorded.next past label = some after) :
    Marked after := by
  obtain ⟨server, serverStep, rfl⟩ := Option.map_eq_some_iff.mp step
  cases Server.next_roomsStep past.state server label serverStep with
  | same rooms => exact marked.same rooms
  | create key is rooms => exact marked.create key (is ▸ meets) rooms
  | delete key is rooms => exact marked.delete key rooms
  | reap ttl is rooms => exact marked.reap ttl rooms
  | join player id room rooms => exact marked.join player rooms
  | remove home id rooms => exact marked.remove home id rooms

theorem start_tables (saved : List String) :
    (Server.start saved).rooms.used = [] ∧ (Server.start saved).rooms.emptySince = [] := by
  have tables (start : Rooms) (clear : start.used = [] ∧ start.emptySince = []) :
      let rooms := saved.foldl
        (fun rooms key => if key = defaultRoom then rooms else (rooms.create key).2) start
      rooms.used = [] ∧ rooms.emptySince = [] := by
    induction saved generalizing start with
    | nil => exact clear
    | cons key rest ih =>
      apply ih
      change (if _ then _ else _ : Rooms).used = [] ∧ (if _ then _ else _ : Rooms).emptySince = []
      unfold Rooms.create
      split_ifs <;> exact clear
  exact tables {} ⟨rfl, rfl⟩

theorem start_marked (saved : List String) : Marked ⟨Server.start saved, []⟩ := by
  obtain ⟨used, marks⟩ := start_tables saved
  refine ⟨?_, ?_, ?_⟩
  · exact Option.isSome_iff_exists.mpr ⟨0, (Rooms.load_settles saved).default 0 rfl⟩
  · intro key member
    have absent : key ∈ ([] : List String) := used ▸ member
    simp at absent
  · intro key started mark
    have absent : ([] : List (String × Nat)).lookup key = some started := marks ▸ mark
    simp at absent

namespace Rooms

def Stray (rooms : Rooms) (key : String) : Prop := key ∈ rooms.used ∧ rooms.dir.lookup key = none

theorem create_stray (made key : String) (rooms : Rooms) :
    (rooms.create made).2.Stray key ↔ rooms.Stray key ∧ key ≠ made := by
  unfold create
  split
  next found =>
    refine ⟨fun stray => ⟨stray, ?_⟩, fun both => both.1⟩
    rintro rfl
    simp [stray.2] at found
  next free =>
    have unmade := Option.not_isSome_iff_eq_none.mp free
    by_cases same : key = made
    · subst same
      have there := (rooms.dir.lookup_insert key key _).mpr (.inr ⟨unmade, rfl, rfl⟩)
      exact ⟨fun stray => absurd (stray.2.symm.trans there) nofun, fun both => absurd rfl both.2⟩
    · have dir : (rooms.dir.insert made).lookup key = rooms.dir.lookup key := by
        apply Option.ext
        intro ring
        simp [rooms.dir.lookup_insert, same]
      unfold Stray
      rw [dir, and_iff_left same]

theorem delete_stray (gone key : String) (rooms : Rooms) :
    (rooms.delete gone).2.Stray key ↔ rooms.Stray key := by
  unfold delete
  split
  next => exact Iff.rfl
  next =>
    cases found : rooms.dir.lookup gone with
    | none => exact Iff.rfl
    | some ring =>
      by_cases same : key = gone
      · subst same
        simp [Stray, forget, found]
      · unfold Stray
        rw [rooms.forget_lookup gone key same]
        simp [forget, same]

theorem reapEmpty_stray (now ttl : Nat) (key : String) (rooms : Rooms) :
    (rooms.reapEmpty now ttl).Stray key ↔ rooms.Stray key := by
  unfold Stray
  cases reapEmpty_reaped now ttl rooms key with
  | kept dir used => rw [dir, used]
  | taken ring _ _ _ vacant _ _ _ unused => simp [unused, vacant.1]

theorem get_unknown (key : String) (rooms : Rooms) (unknown : rooms.dir.lookup key = none) :
    rooms.get key = rooms.get defaultRoom := by
  unfold get
  rw [unknown]
  cases found : rooms.dir.lookup defaultRoom <;> rfl

theorem get_home {rooms : Rooms} (home : rooms.dir.lookup defaultRoom = some 0) : rooms.get defaultRoom = 0 := by
  rw [get, home]

end Rooms

theorem Strayed.later {past : Machine.Past Server} {key : String} (strayed : Strayed past key) (after : Server) :
    Strayed ⟨after, past.states⟩ key := by
  obtain ⟨s, member, stray⟩ := strayed
  exact ⟨s, List.mem_cons_of_mem _ member, stray⟩

theorem Registry.mem_add (reg : Registry) (player p : Player) :
    p ∈ (reg.add player).players → p = player ∨ p ∈ reg.players := by
  unfold add
  split
  next =>
    intro member
    obtain ⟨old, listed, rfl⟩ := List.mem_map.mp member
    by_cases replaced : old.id = player.id <;> simp [replaced, listed]
  next =>
    intro member
    rcases List.mem_append.mp member with old | new
    · exact .inr old
    · exact .inl (List.mem_singleton.mp new)

theorem Registry.mem_add_self (reg : Registry) (player : Player) : player ∈ (reg.add player).players := by
  unfold add
  split
  next held =>
    obtain ⟨old, listed, same⟩ := List.mem_map.mp held
    exact List.mem_map.mpr ⟨old, listed, if_pos same⟩
  next => simp

def MarksStray (past : Machine.Past Server) : Prop :=
  ∀ key ∈ past.state.rooms.used, past.state.rooms.dir.lookup key = none → Strayed past key

theorem MarksStray.next {past after : Machine.Past Server} {label : Label} (marks : MarksStray past)
    (step : serverMachine.recorded.next past label = some after) : MarksStray after := by
  obtain ⟨server, serverStep, rfl⟩ := Option.map_eq_some_iff.mp step
  intro key used absent
  have stray : server.rooms.Stray key := ⟨used, absent⟩
  have kept (before : past.state.rooms.Stray key) : Strayed ⟨server, past.states⟩ key :=
    (marks key before.1 before.2).later server
  cases Server.next_roomsStep past.state server label serverStep with
  | same rooms => exact kept (rooms ▸ stray)
  | create made is rooms => exact kept ((Rooms.create_stray made key _).mp (rooms ▸ stray)).1
  | delete gone is rooms => exact kept ((Rooms.delete_stray gone key _).mp (rooms ▸ stray))
  | reap ttl is rooms => exact kept ((Rooms.reapEmpty_stray _ ttl key _).mp (rooms ▸ stray))
  | join player id room rooms =>
    rw [rooms] at stray
    rcases (Rooms.mem_used_markUsed player.room key _).mp stray.1 with marked | rfl
    · exact kept ⟨marked, stray.2⟩
    -- the player has asked for a room that is not there, and is in the default ring now
    · refine ⟨server, List.mem_cons_self, player, ?_, rfl⟩
      have home : server.rooms.get defaultRoom = past.state.rooms.get player.room := by
        rw [Rooms.get_unknown player.room past.state.rooms stray.2, rooms]
        rfl
      rw [home, rooms]
      change player ∈ (if _ then _ else _ : Registry).players
      rw [if_pos rfl]
      exact Registry.mem_add_self _ player
  | remove home id rooms =>
    rw [rooms] at stray
    exact kept stray

structure StraysMarked (past : Machine.Past Server) : Prop where
  home : past.state.rooms.dir.lookup defaultRoom = some 0
  strays : ∀ key, key ≠ defaultRoom → Strayed past key →
    key ∈ past.state.rooms.used ∧ past.state.rooms.dir.lookup key = none

theorem StraysMarked.step {past : Machine.Past Server} {after : Server} (marked : StraysMarked past)
    (home : after.rooms.dir.lookup defaultRoom = some 0)
    (still : ∀ key, key ≠ defaultRoom → past.state.rooms.Stray key → after.rooms.Stray key)
    (players : ∀ p ∈ (after.rooms.rings 0).players, p ∈ (past.state.rooms.rings 0).players ∨
      (p.room ≠ defaultRoom → after.rooms.Stray p.room)) :
    StraysMarked ⟨after, past.states⟩ where
  home := home
  strays key named strayed := by
    have stays (before : Strayed past key) : after.rooms.Stray key :=
      still key named (marked.strays key named before)
    obtain ⟨s, member, p, listed, rfl⟩ := strayed
    rcases List.mem_cons.mp member with rfl | earlier
    · rw [Rooms.get_home home] at listed
      rcases players p listed with old | new
      · refine stays ⟨past.state, List.mem_cons_self, p, ?_, rfl⟩
        rwa [Rooms.get_home marked.home]
      · exact new named
    · exact stays ⟨s, earlier, p, listed, rfl⟩

theorem StraysMarked.next {past after : Machine.Past Server} {label : Label} (marked : StraysMarked past)
    (meets : unmarkedKey past label) (step : serverMachine.recorded.next past label = some after) :
    StraysMarked after := by
  obtain ⟨server, serverStep, rfl⟩ := Option.map_eq_some_iff.mp step
  -- steps that leave the players where they are
  have settled (settles : Rooms.Settles past.state.rooms server.rooms)
      (still : ∀ key, past.state.rooms.Stray key → server.rooms.Stray key) :
      StraysMarked ⟨server, past.states⟩ :=
    marked.step (settles.default 0 marked.home) (fun key _ => still key) (by
      rw [settles.rings]
      exact fun p listed => .inl listed)
  cases Server.next_roomsStep past.state server label serverStep with
  | same rooms =>
    refine settled ?_ ?_ <;> rw [rooms]
    · exact Rooms.Settles.refl _
    · exact fun key stray => stray
  | create made is rooms =>
    subst is
    refine settled ?_ ?_ <;> rw [rooms]
    · exact Rooms.create_settles made past.state.rooms
    · refine fun key stray => (Rooms.create_stray made key _).mpr ⟨stray, ?_⟩
      rintro rfl
      rcases meets with there | unused
      · simp [stray.2] at there
      · exact unused stray.1
  | delete gone is rooms =>
    refine settled ?_ ?_ <;> rw [rooms]
    · exact Rooms.delete_settles gone past.state.rooms
    · exact fun key => (Rooms.delete_stray gone key _).mpr
  | reap ttl is rooms =>
    refine settled ?_ ?_ <;> rw [rooms]
    · exact Rooms.reapEmpty_settles past.state.now ttl past.state.rooms
    · exact fun key => (Rooms.reapEmpty_stray past.state.now ttl key _).mpr
  | join player id room rooms =>
    have dir : server.rooms.dir = past.state.rooms.dir := by rw [rooms]; rfl
    have used (key : String) : key ∈ server.rooms.used ↔ key ∈ past.state.rooms.used ∨ key = player.room := by
      rw [rooms]
      exact Rooms.mem_used_markUsed player.room key _
    refine marked.step (by rw [dir]; exact marked.home) ?_ ?_
    · exact fun key _ stray => ⟨(used key).mpr (.inl stray.1), by rw [dir]; exact stray.2⟩
    · intro p listed
      have rings : server.rooms.rings 0 = if 0 = past.state.rooms.get player.room then
          Registry.add player (past.state.rooms.rings (past.state.rooms.get player.room))
          else past.state.rooms.rings 0 := by rw [rooms]; rfl
      rw [rings] at listed
      split at listed
      next entered =>
        rw [← entered] at listed
        rcases Registry.mem_add _ player p listed with rfl | old
        -- whoever enters the default ring for another room has found none under its key
        · refine .inr fun named => ⟨(used p.room).mpr (.inr rfl), ?_⟩
          rw [dir]
          refine Option.eq_none_iff_forall_not_mem.mpr fun ring held => ?_
          have zero : ring = 0 := by
            rw [Rooms.get, Option.mem_def.mp held] at entered
            exact entered.symm
          exact named (past.state.rooms.dir.lookup_injective _ _ _ (zero ▸ held) marked.home)
        · exact .inl old
      next => exact .inl listed
  | remove home id rooms =>
    refine marked.step ?_ ?_ ?_ <;> rw [rooms]
    · exact marked.home
    · exact fun key _ stray => stray
    · intro p listed
      change p ∈ (if 0 = home then _ else _ : Registry).players at listed
      split at listed
      next same =>
        rw [← same] at listed
        exact .inl ((Registry.mem_remove _ id p).mp listed).1
      next => exact .inl listed

theorem run_unmarkedKey_iff (saved : List String) (labels : List Label) (past : Machine.Past Server) :
    serverMachine.recorded.Run unmarkedKey ⟨Server.start saved, []⟩ labels past ↔
      serverMachine.recorded.Run freshKey ⟨Server.start saved, []⟩ labels past := by
  have start : StraysMarked ⟨Server.start saved, []⟩ := by
    have settles := Rooms.load_settles saved
    have home : (Rooms.load saved).dir.lookup defaultRoom = some 0 := settles.default 0 rfl
    refine ⟨home, fun key _ strayed => ?_⟩
    obtain ⟨s, member, p, listed, -⟩ := strayed
    obtain rfl := List.mem_singleton.mp member
    have nobody : (Server.start saved).rooms.rings = fun _ => Registry.empty := settles.rings
    rw [nobody] at listed
    simp at listed
  have unmarked : MarksStray ⟨Server.start saved, []⟩ := by
    intro key member
    simp [(start_tables saved).1] at member
  constructor
  · refine fun run => run.strengthen StraysMarked start
      (fun state label after marked meets step => marked.next meets step) fun state label marked meets => ?_
    cases label with
    | create key =>
      rcases meets with there | unused
      · exact .inl there
      · by_cases named : key = defaultRoom
        · exact .inl (by rw [named, marked.home]; rfl)
        · exact .inr fun strayed => unused (marked.strays key named strayed).1
    | _ => trivial
  · refine fun run => run.strengthen MarksStray unmarked
      (fun state label after marks _ step => marks.next step) fun state label marks meets => ?_
    cases label with
    | create key =>
      cases found : state.state.rooms.dir.lookup key with
      | some ring => exact .inl (by rw [found]; rfl)
      | none =>
        rcases meets with there | never
        · simp [found] at there
        · exact .inr fun used => never (marks key used found)
    | _ => trivial

theorem reaper_abandoned (saved : List String) (labels : List Label) (past : Machine.Past Server)
    (ttl : Nat) (after : Server) (key : String) (ring : Nat)
    (run : serverMachine.recorded.Run freshKey ⟨Server.start saved, []⟩ labels past)
    (step : serverMachine.next past.state (.reap ttl) = some after)
    (held : past.state.rooms.dir.lookup key = some ring)
    (gone : after.rooms.dir.lookup key = none) :
    key ≠ defaultRoom ∧ (past.state.rooms.rings ring).size = 0 ∧ Joined past key ring ∧
      EmptyLonger past key ring ttl := by
  have marked := (run_unmarkedKey_iff saved labels past).mpr run |>.invariant Marked (start_marked saved)
    fun state label after marked meets step => marked_next state after label marked meets step
  obtain rfl := Option.some.inj step
  cases Rooms.reapEmpty_reaped past.state.now ttl past.state.rooms key with
  | kept dir =>
    have same := dir.symm.trans gone
    simp [held] at same
  | taken room started named used vacant mark late =>
    obtain rfl : ring = room := Option.some.inj (held.symm.trans vacant.1)
    obtain ⟨-, other, empty⟩ := marked.marks key started mark
    obtain rfl : ring = other := Option.some.inj (held.symm.trans empty.vacant.1)
    exact ⟨named, vacant.2, marked.used key used ring held, started, by omega, empty⟩

theorem reaper_abandoned_left :
    ∃ past after,
      serverMachine.recorded.exec freshKey ⟨Server.start [], []⟩ [.create "A", .wsRequest 1 "A",
        .wsDrained 1 true, .read 1 (some []), .reap 300, .tick 301] = some past ∧
      serverMachine.next past.state (.reap 300) = some after ∧
      past.state.rooms.dir.lookup "A" = some 1 ∧ after.rooms.dir.lookup "A" = none ∧
      Joined past "A" 1 ∧ EmptyLonger past "A" 1 300 := by
  have checked : (serverMachine.recorded.exec freshKey ⟨Server.start [], []⟩ [.create "A",
      .wsRequest 1 "A", .wsDrained 1 true, .read 1 (some []), .reap 300, .tick 301]).any
      (fun past => (serverMachine.next past.state (.reap 300)).any fun after =>
        past.state.rooms.dir.lookup "A" = some 1 ∧ after.rooms.dir.lookup "A" = none) = true := by
    decide +kernel
  obtain ⟨past, executed, reaped⟩ := (Option.any_eq_true _ _).mp checked
  obtain ⟨after, step, results⟩ := (Option.any_eq_true _ _).mp reaped
  obtain ⟨held, gone⟩ := of_decide_eq_true results
  obtain ⟨-, -, joined, empty⟩ :=
    reaper_abandoned [] _ past 300 after "A" 1 (Machine.run_of_exec executed) step held gone
  exact ⟨past, after, executed, step, held, gone, joined, empty⟩

-- The room is deleted while a browser that asked for it is still in its handshake. The browser
-- ends up in the default room, and the room that is made next under the key is taken for a used one.
theorem neverJoined_reaped :
    ∃ past after,
      serverMachine.recorded.exec Machine.anyStep ⟨Server.start [], []⟩ [.create "A",
        .wsRequest 1 "A", .delete "A", .wsDrained 1 true, .create "A", .reap 300, .tick 301] =
        some past ∧
      serverMachine.next past.state (.reap 300) = some after ∧
      past.state.rooms.dir.lookup "A" = some 2 ∧ after.rooms.dir.lookup "A" = none ∧
      ¬ Joined past "A" 2 := by
  have checked : (serverMachine.recorded.exec Machine.anyStep ⟨Server.start [], []⟩ [.create "A",
      .wsRequest 1 "A", .delete "A", .wsDrained 1 true, .create "A", .reap 300, .tick 301]).any
      (fun past => (serverMachine.next past.state (.reap 300)).any fun after =>
        past.state.rooms.dir.lookup "A" = some 2 ∧ after.rooms.dir.lookup "A" = none ∧
          ∀ s ∈ past.states, ¬ (s.rooms.dir.lookup "A" = some 2 ∧ 0 < (s.rooms.rings 2).size)) =
      true := by decide +kernel
  obtain ⟨past, executed, reaped⟩ := (Option.any_eq_true _ _).mp checked
  obtain ⟨after, step, results⟩ := (Option.any_eq_true _ _).mp reaped
  obtain ⟨held, gone, never⟩ := of_decide_eq_true results
  exact ⟨past, after, executed, step, held, gone, fun ⟨s, member, busy⟩ => never s member busy⟩

end MidiToIp.Orchestrator
