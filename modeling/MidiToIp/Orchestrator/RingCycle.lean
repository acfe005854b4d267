import MidiToIp.Orchestrator.Rooms
import MidiToIp.Shared.Cycles
import MidiToIp.Shared.Machine

set_option autoImplicit false

namespace MidiToIp.Orchestrator

open Cycles Machines

namespace Registry

theorem distinct_players (reg : Registry) : reg.players.Nodup := List.Nodup.of_map _ reg.distinct

theorem nextPlayer_formPerm (reg : Registry) (player : Player) (member : player ∈ reg.players) :
    reg.nextPlayer player = some (reg.players.formPerm player) := by
  obtain ⟨target, next⟩ := Option.isSome_iff_exists.mp
    (reg.nextPlayer_isSome player (reg.mem_ids player member))
  obtain ⟨held, id, found⟩ := reg.nextPlayer_eq_next player target next
  have within : target ∈ reg.players := found.elim (fun same => same ▸ member) fun found => found
  rw [next, Option.some_inj]
  apply reg.eq_of_id target _ within (List.formPerm_apply_mem_of_mem member)
  rw [id]
  obtain ⟨i, inside, rfl⟩ := List.getElem_of_mem member
  rw [List.formPerm_apply_getElem _ reg.distinct_players]
  have turn := List.next_getElem reg.ids reg.distinct i (by simpa [ids] using inside)
  simpa [ids] using turn

theorem players_remove (reg : Registry) (removed : Player) (held : removed ∈ reg.players) :
    (reg.remove removed.id).players = reg.players.filter fun p => p ≠ removed := by
  apply List.filter_congr
  intro p member
  rw [decide_eq_decide]
  exact not_congr ⟨reg.eq_of_id p removed member held, fun same => same ▸ rfl⟩

theorem nextPlayer_remove (reg : Registry) (removed player : Player) (held : removed ∈ reg.players)
    (left : player ∈ (reg.remove removed.id).players) :
    (reg.remove removed.id).nextPlayer player =
      if reg.nextPlayer player = some removed then reg.nextPlayer removed
      else reg.nextPlayer player := by
  obtain ⟨member, other⟩ := (reg.mem_remove removed.id player).mp left
  have different : player ≠ removed := fun same => other (same ▸ rfl)
  rw [nextPlayer_formPerm _ player left, reg.players_remove removed held,
    formPerm_without reg.players reg.distinct_players removed held player member different,
    reg.nextPlayer_formPerm player member, reg.nextPlayer_formPerm removed held]
  simp only [Option.some_inj]
  split <;> rfl

theorem nextPlayer_add (reg : Registry) (added player : Player) (fresh : added.id ∉ reg.ids)
    (member : player ∈ reg.players) :
    (reg.add added).nextPlayer player =
      if reg.players.getLast? = some player then some added else reg.nextPlayer player := by
  have some_ : reg.players ≠ [] := List.ne_nil_of_mem member
  have players := reg.players_add added fresh
  have distinct := (reg.add added).distinct_players
  have stays : player ∈ (reg.add added).players := by
    rw [players]
    exact List.mem_append_left _ member
  rw [players] at distinct
  rw [nextPlayer_formPerm _ player stays, players,
    formPerm_concat reg.players added distinct some_ player member,
    reg.nextPlayer_formPerm player member, List.getLast?_eq_some_getLast some_]
  by_cases last : player = reg.players.getLast some_
  · rw [if_pos last, if_pos (congrArg some last.symm)]
  · rw [if_neg last, if_neg fun same => last (Option.some.inj same).symm]

theorem nextPlayer_added (reg : Registry) (added : Player) (fresh : added.id ∉ reg.ids) :
    (reg.add added).nextPlayer added = some (reg.players.headD added) := by
  have players := reg.players_add added fresh
  have distinct := (reg.add added).distinct_players
  have here : added ∈ (reg.add added).players := by simp [players]
  rw [players] at distinct
  rw [nextPlayer_formPerm _ added here, players]
  cases ring : reg.players with
  | nil => simp
  | cons first rest =>
    rw [ring] at distinct
    rw [formPerm_concat_added _ added distinct (List.cons_ne_nil _ _)]
    rfl

end Registry

inductive RingStep where
  | add (player : Player)
  | remove (playerId : Nat)
  deriving DecidableEq, Repr

def Registry.step (reg : Registry) : RingStep → Registry
  | .add player => reg.add player
  | .remove playerId => reg.remove playerId

def registryMachine : Machine Registry RingStep := ⟨fun reg step => some (reg.step step)⟩

def freshIds (reg : Registry) : RingStep → Prop
  | .add player => player.id ∉ reg.ids
  | .remove _ => True

instance (reg : Registry) : (step : RingStep) → Decidable (freshIds reg step)
  | .add player => inferInstanceAs (Decidable (player.id ∉ reg.ids))
  | .remove _ => .isTrue trivial

def RingStep.joined : RingStep → Option Player
  | .add player => some player
  | .remove _ => none

theorem run_joinOrder (steps : List RingStep) (reg : Registry)
    (run : registryMachine.Run freshIds Registry.empty steps reg) :
    reg.players.Sublist (steps.filterMap RingStep.joined) := by
  induction run with
  | nil => simp
  | snoc step _ meets moved ih =>
    obtain rfl := Option.some.inj moved
    rw [List.filterMap_append]
    cases step with
    | add player =>
      rw [Registry.step, Registry.players_add _ player meets]
      exact ih.append (.refl _)
    | remove playerId =>
      exact List.filter_sublist.trans (ih.trans (List.sublist_append_left _ _))

theorem ring_oneCycle (steps : List RingStep) (reg : Registry)
    (run : registryMachine.Run freshIds Registry.empty steps reg) :
    (∃ σ : Equiv.Perm Player, (∀ player ∈ reg.players, reg.nextPlayer player = some (σ player)) ∧
        σ.IsCycleOn {player | player ∈ reg.players}) ∧
      reg.players.Sublist (steps.filterMap RingStep.joined) ∧
      (∀ i, (inside : i < reg.players.length) →
        reg.nextPlayer reg.players[i] = reg.players[(i + 1) % reg.players.length]?) ∧
      (∀ added : Player, added.id ∉ reg.ids →
        (reg.add added).nextPlayer added = some (reg.players.headD added) ∧
          ∀ player ∈ reg.players, (reg.add added).nextPlayer player =
            if reg.players.getLast? = some player then some added else reg.nextPlayer player) ∧
      ∀ removed ∈ reg.players, ∀ player ∈ (reg.remove removed.id).players,
        (reg.remove removed.id).nextPlayer player =
          if reg.nextPlayer player = some removed then reg.nextPlayer removed
          else reg.nextPlayer player := by
  refine ⟨⟨reg.players.formPerm, reg.nextPlayer_formPerm, ?_⟩, run_joinOrder steps reg run,
    fun i inside => ?_, fun added fresh => ⟨reg.nextPlayer_added added fresh, ?_⟩, ?_⟩
  · exact reg.distinct_players.isCycleOn_formPerm
  · have within : (i + 1) % reg.players.length < reg.players.length := Nat.mod_lt _ (by omega)
    rw [reg.nextPlayer_formPerm _ (List.getElem_mem inside),
      List.formPerm_apply_getElem _ reg.distinct_players, List.getElem?_eq_getElem within]
  · exact fun player member => reg.nextPlayer_add added player fresh member
  · exact fun removed held player left => reg.nextPlayer_remove removed player held left

theorem ring_oneCycle_left :
    ∃ reg, registryMachine.exec freshIds Registry.empty
        [.add ⟨1, "", 5⟩, .add ⟨2, "", 6⟩, .add ⟨3, "", 7⟩, .remove 2] = some reg ∧
      reg.players = [⟨1, "", 5⟩, ⟨3, "", 7⟩] ∧
      ∃ σ : Equiv.Perm Player, (∀ player ∈ reg.players, reg.nextPlayer player = some (σ player)) ∧
        σ.IsCycleOn {player | player ∈ reg.players} := by
  obtain ⟨reg, executed, players⟩ := (Option.any_eq_true _ _).mp
    (show ((registryMachine.exec freshIds Registry.empty
      [.add ⟨1, "", 5⟩, .add ⟨2, "", 6⟩, .add ⟨3, "", 7⟩, .remove 2]).any fun reg =>
        decide (reg.players = [⟨1, "", 5⟩, ⟨3, "", 7⟩])) = true by decide +kernel)
  exact ⟨reg, executed, of_decide_eq_true players,
    (ring_oneCycle _ reg (Machine.run_of_exec executed)).1⟩

end MidiToIp.Orchestrator
