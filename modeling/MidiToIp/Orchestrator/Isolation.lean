import Mathlib.Data.List.Basic
import MidiToIp.Orchestrator.Server

set_option autoImplicit false

namespace MidiToIp.Orchestrator

open Machines

namespace Server

def inPlace (s : Server) (player : Player) : Prop :=
  ∀ entry ∈ s.owner player.id, player ∈ (s.rooms.rings entry.2).players →
    s.rooms.dir.lookup player.room = some entry.2

instance (s : Server) (player : Player) : Decidable (s.inPlace player) :=
  inferInstanceAs (Decidable (∀ entry ∈ s.owner player.id, _))

structure Isolation (meets : Server → Label → Prop) (s : Server) : Prop where
  own : ∀ key ring, s.rooms.dir.lookup key = some ring →
    ∀ p ∈ (s.rooms.rings ring).players, p.room = key
  sends : ∀ send ∈ s.sends, send.source.room = send.target.room
  enters : ∀ label after, meets s label → s.next label = some after →
    ∀ ring, ∀ p ∈ (after.rooms.rings ring).players, p ∉ (s.rooms.rings ring).players →
      s.rooms.dir.lookup p.room = some ring
  drops : ∀ label after p, meets s label → s.next label = some after → s.dropping label = some p →
    ∀ ring, p ∉ (after.rooms.rings ring).players

end Server

structure Sound (s : Server) (label : Label) : Prop where
  joins : ∀ key ∈ s.joining label, (s.rooms.dir.lookup key).isSome
  drops : ∀ p ∈ s.dropping label, s.inPlace p

instance (s : Server) (label : Label) : Decidable (Sound s label) :=
  decidable_of_iff
    ((∀ key ∈ s.joining label, (s.rooms.dir.lookup key).isSome) ∧
      ∀ p ∈ s.dropping label, s.inPlace p)
    ⟨fun ⟨joins, drops⟩ => ⟨joins, drops⟩, fun sound => ⟨sound.joins, sound.drops⟩⟩

namespace Server

structure Separate (s : Server) : Prop where
  own : ∀ key ring, s.rooms.dir.lookup key = some ring →
    ∀ p ∈ (s.rooms.rings ring).players, p.room = key
  alike : ∀ ring, ∀ p ∈ (s.rooms.rings ring).players, ∀ q ∈ (s.rooms.rings ring).players,
    p.room = q.room
  unused : ∀ ring, s.rooms.dir.fresh ≤ ring → (s.rooms.rings ring).players = []
  sends : ∀ send ∈ s.sends, send.source.room = send.target.room

theorem Separate.fewer {s after : Server} (separate : s.Separate)
    (fewer : ∀ ring, ∀ p ∈ (after.rooms.rings ring).players, p ∈ (s.rooms.rings ring).players)
    (fresh : s.rooms.dir.fresh ≤ after.rooms.dir.fresh)
    (lookup : ∀ key ring, after.rooms.dir.lookup key = some ring →
      s.rooms.dir.lookup key = some ring ∨ s.rooms.dir.fresh ≤ ring)
    (sends : ∀ send ∈ after.sends, send.source.room = send.target.room) : after.Separate where
  own := by
    intro key ring found p member
    have before := fewer ring p member
    rcases lookup key ring found with old | new
    · exact separate.own key ring old p before
    · rw [separate.unused ring new] at before
      simp at before
  alike := fun ring p member q member' =>
    separate.alike ring p (fewer ring p member) q (fewer ring q member')
  unused := by
    intro ring beyond
    rw [List.eq_nil_iff_forall_not_mem]
    intro p member
    have before := fewer ring p member
    rw [separate.unused ring (Nat.le_trans fresh beyond)] at before
    simp at before
  sends := sends

theorem get_of_isSome (rooms : Rooms) (key : String) (open_ : (rooms.dir.lookup key).isSome) :
    rooms.dir.lookup key = some (rooms.get key) := by
  obtain ⟨ring, found⟩ := Option.isSome_iff_exists.mp open_
  simp [Rooms.get, found]

theorem mem_join (s : Server) (owned : s.Owned) (player p : Player) (id : player.id = s.nextId)
    (key : String) (ring other : Nat) :
    p ∈ (((s.rooms.update ring (Registry.add player)).markUsed key).rings other).players ↔
      p ∈ (s.rooms.rings other).players ∨ other = ring ∧ p = player := by
  have added := Registry.players_add (s.rooms.rings ring) player (by rw [id]; exact owned.absent ring)
  simp only [Rooms.markUsed, Rooms.update]
  split
  next same => simp [same, added]
  next different => simp [different]

theorem nextPlayer_held (s : Server) (owned : s.Owned) (player target : Player) (ring : Nat)
    (own : s.owner player.id = some (player, ring))
    (next : (s.rooms.rings ring).nextPlayer player = some target) :
    player ∈ (s.rooms.rings ring).players ∧ target ∈ (s.rooms.rings ring).players := by
  obtain ⟨member, -, here⟩ := Registry.nextPlayer_eq_next _ player target next
  obtain ⟨p, held, same⟩ := List.mem_map.mp member
  have ownP := owned.held ring p held
  rw [same, own] at ownP
  simp only [Option.some.injEq, Prod.mk.injEq, and_true] at ownP
  subst ownP
  exact ⟨held, here.elim (fun self => self ▸ held) id⟩

theorem Effect.separate {s after : Server} {label : Label} (effect : Effect s label after)
    (owned : s.Owned) (separate : s.Separate)
    (joins : ∀ key ∈ s.joining label, (s.rooms.dir.lookup key).isSome) :
    after.Separate := by
  cases effect with
  | quiet _ rooms _ _ _ sends =>
    exact separate.fewer (by rw [rooms.rings]; exact fun _ _ member => member) rooms.fresh
      rooms.lookup (by rw [sends]; exact separate.sends)
  | join _ player id joined rooms _ _ _ sends =>
    have home := get_of_isSome s.rooms player.room (joins player.room joined)
    have dir : after.rooms.dir = s.rooms.dir := by rw [rooms]; rfl
    have member (ring : Nat) (p : Player) : p ∈ (after.rooms.rings ring).players ↔
        p ∈ (s.rooms.rings ring).players ∨ ring = s.rooms.get player.room ∧ p = player := by
      rw [rooms]
      exact s.mem_join owned player p id player.room _ ring
    -- the ring entered is that of the player's room, so its players are already of that room
    have roomOf (p : Player) (here : p ∈ (s.rooms.rings (s.rooms.get player.room)).players) :
        p.room = player.room := separate.own _ _ home p here
    refine ⟨?_, ?_, ?_, by rw [sends]; exact separate.sends⟩
    · intro key ring found p here
      rw [dir] at found
      rcases (member ring p).mp here with old | ⟨rfl, rfl⟩
      · exact separate.own key ring found p old
      · exact s.rooms.dir.lookup_injective _ _ _ home found
    · intro ring p here q here'
      rcases (member ring p).mp here with old | ⟨rfl, rfl⟩ <;>
        rcases (member _ q).mp here' with old' | ⟨same, rfl⟩
      · exact separate.alike ring p old q old'
      · subst same
        exact roomOf p old
      · exact (roomOf q old').symm
      · rfl
    · intro ring beyond
      rw [dir] at beyond
      rw [List.eq_nil_iff_forall_not_mem]
      intro p here
      rcases (member ring p).mp here with old | ⟨rfl, -⟩
      · rw [separate.unused ring beyond] at old
        simp at old
      · exact absurd (s.rooms.dir.lookup_lt _ _ home) (Nat.not_lt.mpr beyond)
  | leave _ player ring _ rooms _ _ _ sends =>
    refine separate.fewer ?_ (by rw [rooms]; exact Nat.le_refl _)
      (by rw [rooms]; exact fun _ _ found => .inl found) (by rw [sends]; exact separate.sends)
    intro other p member
    rw [rooms] at member
    rcases mem_update s.rooms ring other _ p member with before | ⟨rfl, before⟩
    · exact before
    · exact ((Registry.mem_remove _ _ p).mp before).1
  | drop player _ rooms _ _ _ sends =>
    have dir : after.rooms.dir = s.rooms.dir := by
      rw [rooms, dropPlayer]
      split <;> rfl
    refine separate.fewer ?_ (by rw [dir]) (by rw [dir]; exact fun _ _ found => .inl found)
      (by rw [sends]; exact separate.sends)
    intro other p member
    rw [rooms, mem_dropPlayer] at member
    exact member.1
  | relay _ player ring data own rooms _ _ _ sends =>
    refine separate.fewer (by rw [rooms]; exact fun _ _ member => member) (by rw [rooms])
      (by rw [rooms]; exact fun _ _ found => .inl found) ?_
    rw [sends]
    intro send member
    rcases List.mem_append.mp member with old | new
    · exact separate.sends send old
    · obtain ⟨target, next, rfl⟩ := Option.map_eq_some_iff.mp (Option.mem_toList.mp new)
      obtain ⟨source, here⟩ := s.nextPlayer_held owned player target ring own next
      exact separate.alike ring player source target here

theorem dropPlayer_gone_iff (s : Server) (owned : s.Owned) (player : Player) :
    (∀ ring, player ∉ ((s.dropPlayer player).rooms.rings ring).players) ↔ s.inPlace player := by
  constructor
  · intro gone entry _ held
    by_contra elsewhere
    exact gone entry.2 ((s.mem_dropPlayer player entry.2 player).mpr
      ⟨held, fun both => elsewhere both.1⟩)
  · intro place ring still
    obtain ⟨held, kept⟩ := (s.mem_dropPlayer player ring player).mp still
    exact kept ⟨place (player, ring) (owned.held ring player held) held, rfl⟩

theorem isolation_of_separate (s : Server) (owned : s.Owned) (separate : s.Separate) :
    s.Isolation Sound := by
  refine ⟨separate.own, separate.sends, ?_, ?_⟩
  · intro label after sound step ring p here away
    cases next_effect s after label owned.keyed step with
    | quiet _ rooms =>
      rw [rooms.rings] at here
      exact absurd here away
    | join _ player id joined rooms =>
      rw [rooms, mem_join s owned player p id] at here
      rcases here with before | ⟨rfl, rfl⟩
      · exact absurd before away
      · exact get_of_isSome s.rooms p.room (sound.joins p.room joined)
    | leave _ player home _ rooms =>
      rw [rooms] at here
      rcases mem_update s.rooms home ring _ p here with before | ⟨rfl, before⟩
      · exact absurd before away
      · exact absurd ((Registry.mem_remove _ _ p).mp before).1 away
    | drop player _ rooms =>
      rw [rooms, mem_dropPlayer] at here
      exact absurd here.1 away
    | relay _ _ _ _ _ rooms =>
      rw [rooms] at here
      exact absurd here away
  · intro label after p sound step drops
    have gone := (s.dropPlayer_gone_iff owned p).mpr (sound.drops p drops)
    cases next_effect s after label owned.keyed step with
    | drop player drops' rooms =>
      rw [drops] at drops'
      obtain rfl := Option.some.inj drops'
      rw [rooms]
      exact gone
    | quiet none_ | join none_ | leave none_ | relay none_ =>
      rw [none_] at drops
      simp at drops

theorem start_separate (saved : List String) : (start saved).Separate := by
  have settles := Rooms.load_settles saved
  have empty (ring : Nat) : ((start saved).rooms.rings ring).players = [] := by
    rw [start, settles.rings]
    rfl
  exact ⟨by simp [empty], by simp [empty], fun ring _ => empty ring, by simp [start]⟩

end Server

theorem rooms_isolated (saved : List String) (labels : List Label) (s : Server)
    (run : serverMachine.Run Sound (Server.start saved) labels s) : s.Isolation Sound := by
  have keeps : s.Owned ∧ s.Separate := by
    refine run.invariant (fun s => s.Owned ∧ s.Separate)
      ⟨Server.start_owned saved, Server.start_separate saved⟩ ?_
    rintro s label after ⟨owned, separate⟩ sound step
    have effect := Server.next_effect s after label owned.keyed step
    exact ⟨effect.owned owned, effect.separate owned separate sound.joins⟩
  exact s.isolation_of_separate keeps.1 keeps.2

theorem rooms_isolated_slow :
    ∃ s, serverMachine.exec Sound (Server.start ["A"])
        [.wsRequest 7 "A", .wsDrained 7 true, .wsRequest 8 "A", .wsDrained 8 true,
          .read 1 (some [0x82, 0x01, 0x90]), .drained 1 .timeout] = some s ∧
      s.sends = [⟨⟨1, "A", 7⟩, ⟨2, "A", 8⟩, [0x90]⟩] ∧ s.Isolation Sound := by
  have checked : (serverMachine.exec Sound (Server.start ["A"])
      [.wsRequest 7 "A", .wsDrained 7 true, .wsRequest 8 "A", .wsDrained 8 true,
        .read 1 (some [0x82, 0x01, 0x90]), .drained 1 .timeout]).any
        (fun s => decide (s.sends = [⟨⟨1, "A", 7⟩, ⟨2, "A", 8⟩, [0x90]⟩])) = true := by
    decide +kernel
  obtain ⟨s, executed, sends⟩ := (Option.any_eq_true _ _).mp checked
  exact ⟨s, executed, of_decide_eq_true sends, rooms_isolated ["A"] _ s (Machine.run_of_exec executed)⟩

-- The room is deleted while the upgrade response is being written.
theorem deletedRoom_notIsolated :
    ¬ ∀ (saved : List String) (labels : List Label) (s : Server),
      serverMachine.Run Machine.anyStep (Server.start saved) labels s →
        s.Isolation Machine.anyStep := by
  intro always
  have checked : (serverMachine.exec Machine.anyStep (Server.start [])
      [.create "A", .wsRequest 7 "A", .delete "A", .wsDrained 7 true]).any
        (fun s => decide (s.rooms.dir.lookup defaultRoom = some 0 ∧
          (s.rooms.rings 0).players = [⟨1, "A", 7⟩])) = true := by
    decide +kernel
  obtain ⟨s, executed, landed⟩ := (Option.any_eq_true _ _).mp checked
  obtain ⟨home, players⟩ := of_decide_eq_true landed
  have own := (always [] _ s (Machine.run_of_exec executed)).own defaultRoom 0 home ⟨1, "A", 7⟩
    (by rw [players]; exact List.mem_cons_self)
  simp [defaultRoom] at own

end MidiToIp.Orchestrator
