import Mathlib.Data.List.Basic
import MidiToIp.Orchestrator.Isolation

set_option autoImplicit false

namespace MidiToIp.Orchestrator

open Octets Machines

namespace Server

def sentTo (s : Server) (target : Player) : List Bytes :=
  (s.sends.filter fun send => send.target.id = target.id).map Send.data

def readFrom (s : Server) (source : Player) : List Bytes :=
  (s.reads.filter fun entry => entry.1.id = source.id).map Prod.snd

def returned (s : Server) : Label → List (Player × Bytes)
  | .read player (some raw) =>
    (s.tasks player).elim [] fun task =>
      match task.carrier.recv raw with
      | .data _ data => [(task.player, data)]
      | _ => []
  | _ => []

theorem relay_reads (s : Server) (task : Task) (data : Bytes) : (s.relay task data).reads = s.reads := by
  unfold Server.relay
  split <;> rfl

theorem next_reads (s after : Server) (label : Label) (step : s.next label = some after) :
    after.reads = s.reads ++ s.returned label := by
  have nothing (same : after.reads = s.reads) : after.reads = s.reads ++ [] := by
    rw [same, List.append_nil]
  have handled (s : Server) (conn : Nat) (carrier : Carrier) (roomKey : String) :
      (s.handleConn conn carrier roomKey).reads = s.reads := by
    unfold handleConn
    simp only
    split <;> rfl
  cases label with
  | tick | create | delete | reap =>
    obtain rfl := Option.some.inj step
    exact nothing rfl
  | tcpConnect conn =>
    obtain rfl := Option.some.inj step
    exact nothing (handled s conn .tcp defaultRoom)
  | wsRequest conn roomKey =>
    obtain rfl := Option.some.inj step
    apply nothing
    unfold Server.wsRequest
    split_ifs <;> rfl
  | wsDrained conn ok =>
    obtain ⟨roomKey, -, rfl⟩ := Option.map_eq_some_iff.mp step
    cases ok with
    | false => exact nothing rfl
    | true =>
      exact nothing (handled { s with handshakes := s.handshakes.filter fun entry => entry.1 ≠ conn } conn _ roomKey)
  | read player raw =>
    obtain ⟨task, found, step⟩ := Option.bind_eq_some_iff.mp step
    split_ifs at step
    cases raw with
    | none =>
      obtain rfl := Option.some.inj step
      exact nothing rfl
    | some raw =>
      obtain rfl := Option.some.inj step
      rw [returned, found, Option.elim_some, Server.read]
      cases task.carrier.recv raw with
      | eof | raised | more => exact (List.append_nil _).symm
      | data carrier data => exact relay_reads _ _ _
  | drained player outcome =>
    obtain ⟨task, -, step⟩ := Option.bind_eq_some_iff.mp step
    split at step
    next => simp at step
    next target _ =>
      obtain rfl := Option.some.inj step
      cases outcome <;> exact nothing rfl
  | heartbeat player | heartbeatDrained player ok =>
    obtain ⟨task, -, step⟩ := Option.bind_eq_some_iff.mp step
    split_ifs at step <;> obtain rfl := Option.some.inj step <;> exact nothing rfl

def Forwards (s after : Server) : Prop :=
  after.sends = s.sends ∨
    ∃ ring send,
      send.source ∈ (s.rooms.rings ring).players ∧ send.target ∈ (s.rooms.rings ring).players ∧
        (s.rooms.rings ring).pred send.target.id = some send.source.id ∧
        after.sends = s.sends ++ [send] ∧
        after.reads = s.reads ++ [(send.source, send.data)]

theorem next_forwards (s after : Server) (label : Label) (owned : s.Owned)
    (step : s.next label = some after) : Forwards s after := by
  cases next_effect s after label owned.keyed step with
  | quiet _ _ _ _ _ sends => exact .inl sends
  | join _ _ _ _ _ _ _ _ sends => exact .inl sends
  | leave _ _ _ _ _ _ _ _ sends => exact .inl sends
  | drop _ _ _ _ _ _ sends => exact .inl sends
  | relay _ player ring data own _ _ _ reads sends =>
    cases next : (s.rooms.rings ring).nextPlayer player with
    | none => exact .inl (by simpa [next] using sends)
    | some target =>
      obtain ⟨source, held⟩ := s.nextPlayer_held owned player target ring own next
      exact .inr ⟨ring, ⟨player, target, data⟩, source, held,
        Registry.pred_of_nextPlayer _ player target next, by simpa [next] using sends, reads⟩

theorem next_segment (s after : Server) (label : Label) (owned : s.Owned)
    (step : s.next label = some after) (ring : Nat) (source target : Player)
    (sourceHeld : source ∈ (s.rooms.rings ring).players)
    (targetHeld : target ∈ (s.rooms.rings ring).players)
    (before : (s.rooms.rings ring).pred target.id = some source.id) :
    ∃ chunks, after.sentTo target = s.sentTo target ++ chunks ∧
      after.readFrom source = s.readFrom source ++ chunks := by
  have idle (reads : after.reads = s.reads) (sends : after.sends = s.sends) :
      ∃ chunks, after.sentTo target = s.sentTo target ++ chunks ∧
        after.readFrom source = s.readFrom source ++ chunks :=
    ⟨[], by simp [sentTo, sends], by simp [readFrom, reads]⟩
  cases next_effect s after label owned.keyed step with
  | quiet _ _ _ _ reads sends => exact idle reads sends
  | join _ _ _ _ _ _ _ reads sends => exact idle reads sends
  | leave _ _ _ _ _ _ _ reads sends => exact idle reads sends
  | drop _ _ _ _ _ reads sends => exact idle reads sends
  | relay _ player home data own _ _ _ reads sends =>
    by_cases same : player.id = source.id
    · -- the predecessor has read, and its next player is the target
      have ownSource := owned.held ring source sourceHeld
      rw [← same, own] at ownSource
      simp only [Option.some.injEq, Prod.mk.injEq] at ownSource
      obtain ⟨rfl, rfl⟩ := ownSource
      obtain ⟨found, next, id⟩ := Registry.nextPlayer_of_pred _ target.id player before
      refine ⟨[data], ?_, ?_⟩
      · simp [sentTo, sends, next, id]
      · simp [readFrom, reads]
    · have elsewhere : ∀ found, (s.rooms.rings home).nextPlayer player = some found →
          found.id ≠ target.id := by
        intro found next sameTarget
        obtain ⟨-, held⟩ := s.nextPlayer_held owned player found home own next
        have ownFound := owned.held home found held
        rw [sameTarget, owned.held ring target targetHeld] at ownFound
        simp only [Option.some.injEq, Prod.mk.injEq] at ownFound
        obtain ⟨rfl, rfl⟩ := ownFound
        have previous := Registry.pred_of_nextPlayer _ player target next
        rw [before, Option.some.injEq] at previous
        exact same previous.symm
      refine ⟨[], ?_, by simp [readFrom, reads, same]⟩
      cases next : (s.rooms.rings home).nextPlayer player with
      | none => simp [sentTo, sends, next]
      | some found => simp [sentTo, sends, next, elsewhere found next]

theorem run_segment (s : Server) (owned : s.Owned) (ring : Nat) (members : Registry)
    (labels : List Label) (after : Server)
    (run : serverMachine.Run (fun state _ => state.rooms.rings ring = members) s labels after)
    (source target : Player) (sourceHeld : source ∈ members.players)
    (targetHeld : target ∈ members.players) (before : members.pred target.id = some source.id) :
    ∃ chunks, after.sentTo target = s.sentTo target ++ chunks ∧
      after.readFrom source = s.readFrom source ++ chunks := by
  induction run with
  | nil => exact ⟨[], by simp, by simp⟩
  | snoc label earlier meets step ih =>
    obtain ⟨chunks, sent, read⟩ := ih
    have ownedBefore := earlier.invariant Owned owned fun state label after owned _ step =>
      (next_effect state after label owned.keyed step).owned owned
    obtain ⟨more, sentMore, readMore⟩ := next_segment _ _ label ownedBefore step ring source target
      (by rw [meets]; exact sourceHeld) (by rw [meets]; exact targetHeld) (by rw [meets]; exact before)
    exact ⟨chunks ++ more, by rw [sentMore, sent, List.append_assoc],
      by rw [readMore, read, List.append_assoc]⟩

end Server

theorem relay_refinesRing (saved : List String) (labels : List Label) (s : Server)
    (run : serverMachine.Run Machine.anyStep (Server.start saved) labels s) :
    (∀ label after, s.next label = some after →
        s.Forwards after ∧ after.reads = s.reads ++ s.returned label) ∧
      ∀ (ring : Nat) (members : Registry) (later : List Label) (after : Server),
        serverMachine.Run (fun state _ => state.rooms.rings ring = members) s later after →
          ∀ target ∈ members.players, ∃ source ∈ members.players,
            members.pred target.id = some source.id ∧
              ∃ chunks, after.sentTo target = s.sentTo target ++ chunks ∧
                after.readFrom source = s.readFrom source ++ chunks := by
  have owned : s.Owned := run.invariant Server.Owned (Server.start_owned saved)
    fun state label after owned _ step =>
      (Server.next_effect state after label owned.keyed step).owned owned
  refine ⟨fun label after step => ⟨s.next_forwards after label owned step, s.next_reads after label step⟩, ?_⟩
  intro ring members later after span target held
  obtain ⟨source, sourceHeld, before⟩ : ∃ source ∈ members.players,
      members.pred target.id = some source.id := by
    have member := members.mem_ids target held
    obtain ⟨source, sourceHeld, id⟩ := List.mem_map.mp (List.prev_mem _ _ member)
    exact ⟨source, sourceHeld, by rw [Registry.pred, dif_pos member, id]⟩
  exact ⟨source, sourceHeld, before,
    s.run_segment owned ring members later after span source target sourceHeld held before⟩

theorem relay_refinesRing_pair :
    ∃ s after, serverMachine.exec Machine.anyStep (Server.start []) [.tcpConnect 5, .tcpConnect 6] =
        some s ∧
      s.next (.read 1 (some [0x90])) = some after ∧ s.Forwards after ∧
      after.sends = [⟨⟨1, "", 5⟩, ⟨2, "", 6⟩, [0x90]⟩] ∧
      ∃ source ∈ (s.rooms.rings 0).players, (s.rooms.rings 0).pred 2 = some source.id ∧
        ∃ chunks, after.sentTo ⟨2, "", 6⟩ = s.sentTo ⟨2, "", 6⟩ ++ chunks ∧
          after.readFrom source = s.readFrom source ++ chunks := by
  have checked : (serverMachine.exec Machine.anyStep (Server.start [])
      [.tcpConnect 5, .tcpConnect 6]).any (fun s =>
        decide (⟨2, "", 6⟩ ∈ (s.rooms.rings 0).players) &&
          (s.next (.read 1 (some [0x90]))).any fun after =>
            decide (after.sends = [⟨⟨1, "", 5⟩, ⟨2, "", 6⟩, [0x90]⟩])) = true := by
    decide +kernel
  obtain ⟨s, executed, checks⟩ := (Option.any_eq_true _ _).mp checked
  rw [Bool.and_eq_true, decide_eq_true_eq] at checks
  obtain ⟨after, step, sends⟩ := (Option.any_eq_true _ _).mp checks.2
  have ring := relay_refinesRing [] _ s (Machine.run_of_exec executed)
  exact ⟨s, after, executed, step, (ring.1 _ after step).1, of_decide_eq_true sends,
    ring.2 0 _ [.read 1 (some [0x90])] after (.snoc _ .nil rfl step) ⟨2, "", 6⟩ checks.1⟩

end MidiToIp.Orchestrator
