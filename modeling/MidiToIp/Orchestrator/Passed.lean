import MidiToIp.Orchestrator.Downstream
import MidiToIp.Orchestrator.Heartbeat
import MidiToIp.Orchestrator.RingRelay

set_option autoImplicit false

namespace MidiToIp.Orchestrator

open Octets Machines

namespace Carrier

def chunks : Carrier → List Read → List Bytes
  | _, [] => []
  | carrier, raw :: later =>
    match carrier.recv raw.val with
    | .eof => []
    | .raised => []
    | .more carrier => carrier.chunks later
    | .data carrier data => data :: carrier.chunks later

def after : Carrier → List Read → Option Carrier
  | carrier, [] => some carrier
  | carrier, raw :: later =>
    match carrier.recv raw.val with
    | .eof => none
    | .raised => none
    | .more carrier => carrier.after later
    | .data carrier _ => carrier.after later

theorem received_eq_chunks (carrier : Carrier) (reads : List Read) :
    carrier.received reads = (carrier.chunks reads).flatten := by
  induction reads generalizing carrier with
  | nil => rfl
  | cons raw later ih =>
    unfold received chunks
    cases carrier.recv raw.val with
    | eof | raised => rfl
    | more next => exact ih next
    | data next data => simp [ih next]

theorem chunks_append (carrier next : Carrier) (reads later : List Read) (goesOn : carrier.after reads = some next) :
    carrier.chunks (reads ++ later) = carrier.chunks reads ++ next.chunks later ∧
      carrier.after (reads ++ later) = next.after later := by
  induction reads generalizing carrier with
  | nil =>
    obtain rfl := Option.some.inj goesOn
    exact ⟨rfl, rfl⟩
  | cons raw rest ih =>
    rw [after] at goesOn
    simp only [List.cons_append, chunks, after]
    cases received : carrier.recv raw.val with
    | eof | raised => simp [received] at goesOn
    | more middle =>
      rw [received] at goesOn
      exact ih middle goesOn
    | data middle data =>
      rw [received] at goesOn
      obtain ⟨chunks, after⟩ := ih middle goesOn
      exact ⟨congrArg (data :: ·) chunks, after⟩

theorem after_isWs (carrier next : Carrier) (reads : List Read) (goesOn : carrier.after reads = some next) :
    next.isWs = carrier.isWs := by
  induction reads generalizing carrier with
  | nil =>
    obtain rfl := Option.some.inj goesOn
    rfl
  | cons raw rest ih =>
    rw [after] at goesOn
    have kept := Server.recv_isWs carrier raw.val
    cases received : carrier.recv raw.val with
    | eof | raised => simp [received] at goesOn
    | more middle =>
      rw [received] at goesOn
      exact (ih middle goesOn).trans (kept.1 middle received)
    | data middle data =>
      rw [received] at goesOn
      exact (ih middle goesOn).trans (kept.2 middle data received)

end Carrier

theorem chunks_emitted (dec : Ws.FrameDecoder) (reads : List Read) :
    ∀ chunk ∈ (Carrier.ws dec).chunks reads, (Ws.opBinary, chunk) ∈ emitted dec reads := by
  induction reads generalizing dec with
  | nil => simp [Carrier.chunks]
  | cons raw later ih =>
    intro chunk member
    rw [Carrier.chunks] at member
    rw [emitted]
    simp only [Carrier.recv, if_neg raw.property] at member
    rcases fed : dec.feed raw.val with ⟨next, error | frames⟩
    · simp [fed] at member
    · simp only [fed] at member ⊢
      apply List.mem_append_right
      cases gathered : gather [] frames with
      | none => simp [gathered] at member
      | some out =>
        rw [gathered] at member
        cases out with
        | nil => exact ih next chunk member
        | cons b rest =>
          rcases List.mem_cons.mp member with rfl | further
          · exact List.mem_cons_self
          · exact List.mem_cons_of_mem _ (ih next chunk further)

def Label.readOf (id : Nat) : Label → Option Read
  | .read player (some raw) => if here : player = id ∧ raw ≠ [] then some ⟨raw, here.2⟩ else none
  | _ => none

def readsOf (id : Nat) (labels : List Label) : List Read := labels.filterMap (Label.readOf id)

theorem readsOf_append (id : Nat) (labels later : List Label) :
    readsOf id (labels ++ later) = readsOf id labels ++ readsOf id later := List.filterMap_append

theorem readsOf_read (id : Nat) (raw : Read) : readsOf id [.read id (some raw.val)] = [raw] := by
  simp [readsOf, Label.readOf, raw.property]

namespace Server

theorem readsOf_other (id : Nat) (label : Label) (other : label.hears ≠ some id) : readsOf id [label] = [] := by
  cases label with
  | read player raw =>
    cases raw with
    | none => rfl
    | some raw =>
      have different : player ≠ id := fun same => other (by rw [Label.hears, same])
      simp [readsOf, Label.readOf, different]
  | _ => rfl

theorem readFrom_other (s after : Server) (label : Label) (keyed : s.Keyed) (step : s.next label = some after)
    (player : Player) (other : label.hears ≠ some player.id) : after.readFrom player = s.readFrom player := by
  have reads := next_reads s after label step
  have none_ : (s.returned label).filter (fun entry => entry.1.id = player.id) = [] := by
    cases label with
    | read reader raw =>
      cases raw with
      | none => rfl
      | some raw =>
        have different : reader ≠ player.id := fun same => other (by rw [Label.hears, same])
        rw [returned]
        cases found : s.tasks reader with
        | none => rfl
        | some task =>
          have own := keyed.task reader task found
          rw [Option.elim_some]
          cases task.carrier.recv raw <;> simp [own, different]
    | _ => rfl
  rw [readFrom, reads, List.filter_append, none_, List.append_nil]
  rfl

theorem readFrom_read (s after : Server) (task : Task) (raw : Bytes) (found : s.tasks task.player.id = some task)
    (step : s.next (.read task.player.id (some raw)) = some after) :
    after.readFrom task.player = s.readFrom task.player ++
      match task.carrier.recv raw with
      | .data _ data => [data]
      | _ => [] := by
  have reads := next_reads s after _ step
  rw [returned, found, Option.elim_some] at reads
  rw [readFrom, reads, List.filter_append, List.map_append]
  cases task.carrier.recv raw <;> simp [readFrom]

theorem task_of_read (s after : Server) (label : Label) (id : Nat) (step : s.next label = some after)
    (reads : label.hears = some id) : ∃ task, s.tasks id = some task := by
  cases label with
  | read player raw =>
    cases raw with
    | none => simp [Label.hears] at reads
    | some raw =>
      obtain rfl := Option.some.inj reads
      obtain ⟨task, found, -⟩ := Option.bind_eq_some_iff.mp step
      exact ⟨task, found⟩
  | _ => simp [Label.hears] at reads

structure Reading (labels : List Label) (s : Server) : Prop where
  unborn : ∀ player : Player, s.nextId ≤ player.id → readsOf player.id labels = [] ∧ s.readFrom player = []
  tasks : ∀ id task, s.tasks id = some task → ∃ carrier : Carrier, (carrier = .tcp ∨ carrier = .ws {}) ∧
    carrier.after (readsOf id labels) = some task.carrier ∧
      s.readFrom task.player = carrier.chunks (readsOf id labels)

theorem Reading.next {labels : List Label} {s after : Server} {label : Label} (reading : Reading labels s)
    (owned : s.Owned) (step : s.next label = some after) : Reading (labels ++ [label]) after := by
  have ownedAfter := (next_effect s after label owned.keyed step).owned owned
  have born (player : Player) (unborn : s.nextId ≤ player.id) : label.hears ≠ some player.id := by
    intro reads
    obtain ⟨task, found⟩ := task_of_read s after label player.id step reads
    have none_ := owned.below player.id unborn
    simp [owner, found] at none_
  have silent (player : Player) (unborn : s.nextId ≤ player.id) :
      readsOf player.id (labels ++ [label]) = [] ∧ after.readFrom player = [] := by
    obtain ⟨reads, from_⟩ := reading.unborn player unborn
    have other := born player unborn
    rw [readsOf_append, reads, readsOf_other player.id label other, readFrom_other s after label owned.keyed step
      player other]
    exact ⟨rfl, from_⟩
  refine ⟨fun player beyond => ?_, fun id task held => ?_⟩
  · exact silent player ((next_onward s after label step).nextId.trans beyond)
  · have isId := ownedAfter.keyed.task id task held
    -- a task that goes on without a read
    have keeps (before : Task) (found : s.tasks id = some before) (other : label.hears ≠ some id)
        (player : task.player = before.player) (carrier : task.carrier = before.carrier) :
        ∃ carrier : Carrier, (carrier = .tcp ∨ carrier = .ws {}) ∧
          carrier.after (readsOf id (labels ++ [label])) = some task.carrier ∧
            after.readFrom task.player = carrier.chunks (readsOf id (labels ++ [label])) := by
      obtain ⟨start, fresh, goesOn, chunks⟩ := reading.tasks id before found
      refine ⟨start, fresh, ?_, ?_⟩
      · rw [readsOf_append, readsOf_other id label other, List.append_nil, carrier]
        exact goesOn
      · rw [readFrom_other s after label owned.keyed step task.player (isId.symm ▸ other), readsOf_append,
          readsOf_other id label other, List.append_nil, player]
        exact chunks
    cases next_taskStep s after label owned.keyed step id task held with
    | same before other => exact keeps task before (hears_resumes label id other) rfl rfl
    | joined id_ _ _ _ _ fresh =>
      obtain ⟨reads, from_⟩ := silent task.player (by rw [isId, id_])
      rw [isId] at reads
      exact ⟨task.carrier, fresh, by rw [reads]; rfl, by rw [reads, from_]; rfl⟩
    | read raw is before found player _ _ _ received =>
      obtain ⟨start, fresh, goesOn, chunks⟩ := reading.tasks id before found
      have own := owned.keyed.task id before found
      subst is
      have some_ : raw ≠ [] := by
        rintro rfl
        cases carrier : before.carrier <;> simp [carrier, Carrier.recv] at received
      have reads : readsOf id (labels ++ [.read id (some raw)]) = readsOf id labels ++ [⟨raw, some_⟩] := by
        rw [readsOf_append, readsOf_read id ⟨raw, some_⟩]
      have read := readFrom_read s after before raw (own ▸ found) (own.symm ▸ step)
      obtain ⟨more, further⟩ := start.chunks_append before.carrier _ [⟨raw, some_⟩] goesOn
      refine ⟨start, fresh, ?_, ?_⟩
      · rw [reads, further, Carrier.after]
        rcases received with same | ⟨data, same⟩ <;> rw [same] <;> rfl
      · rw [reads, more, player, read, chunks, Carrier.chunks]
        rcases received with same | ⟨data, same⟩ <;> rw [same] <;> rfl
    | drained outcome is before found waited task_ =>
      subst is task_
      exact keeps before found (by simp [Label.hears]) rfl rfl
    | pings is before found _ _ task_ =>
      subst is task_
      exact keeps before found (by simp [Label.hears]) rfl rfl
    | pinged is before found _ task_ =>
      subst is task_
      exact keeps before found (by simp [Label.hears]) rfl rfl
    | dropped beats before found task_ =>
      subst task_
      refine keeps before found ?_ rfl rfl
      cases label <;> simp [Label.beats, Label.hears] at beats ⊢

theorem run_reading (saved : List String) (labels : List Label) (s : Server)
    (run : serverMachine.Run Machine.anyStep (start saved) labels s) : s.Owned ∧ Reading labels s := by
  induction run with
  | nil => exact ⟨start_owned saved, fun _ _ => ⟨rfl, rfl⟩, fun _ _ none_ => by simp [start] at none_⟩
  | snoc label _ _ step ih =>
    obtain ⟨owned, reading⟩ := ih
    exact ⟨(next_effect _ _ label owned.keyed step).owned owned, reading.next owned step⟩

theorem run_passed (saved : List String) (labels : List Label) (s : Server)
    (run : serverMachine.Run Machine.anyStep (start saved) labels s) (ring : Nat) (members : Registry)
    (later : List Label) (after : Server)
    (span : serverMachine.Run (fun state _ => state.rooms.rings ring = members) s later after)
    (source target : Player) (sourceHeld : source ∈ members.players) (targetHeld : target ∈ members.players)
    (next : members.pred target.id = some source.id) (task : Task)
    (mine : after.tasks source.id = some task) (ws : task.carrier.isWs = true) :
    ∃ chunks, after.sentTo target = s.sentTo target ++ chunks ∧
      s.readFrom source ++ chunks = (Carrier.ws {}).chunks (readsOf source.id (labels ++ later)) := by
  obtain ⟨owned, -⟩ := run_reading saved labels s run
  obtain ⟨chunks, sent, read⟩ := s.run_segment owned ring members later after span source target sourceHeld
    targetHeld next
  have whole : serverMachine.Run Machine.anyStep (start saved) (labels ++ later) after :=
    run.append (span.strengthen (fun _ => True) trivial (fun _ _ _ _ _ _ => trivial) fun _ _ _ _ => trivial)
  obtain ⟨ownedAfter, reading⟩ := run_reading saved (labels ++ later) after whole
  obtain ⟨carrier, fresh, goesOn, said⟩ := reading.tasks source.id task mine
  have own := ownedAfter.keyed.task source.id task mine
  have same : after.readFrom task.player = after.readFrom source := by
    rw [readFrom, readFrom, own]
  have kind := carrier.after_isWs task.carrier _ goesOn
  rcases fresh with rfl | rfl
  · exact absurd (kind.symm.trans ws) (by decide)
  · exact ⟨chunks, sent, by rw [← read, ← same, said]⟩

end Server

inductive Outgoing where
  | data (bytes : Bytes)
  | ping
  | pong (payload : Bytes)

namespace Outgoing

def write : Outgoing → Except Ws.WSError Bytes
  | .data bytes => Ws.binaryFrame bytes none
  | .ping => Ws.encodeFrame Ws.opPing [] none
  | .pong payload => Ws.pongFrame payload none

def frame : Outgoing → Ws.Frame
  | .data bytes => (Ws.opBinary, bytes)
  | .ping => (Ws.opPing, [])
  | .pong payload => (Ws.opPong, payload)

def chunk : Outgoing → Option Bytes
  | .data bytes => some bytes
  | _ => none

theorem write_frame (out : Outgoing) : out.write = Ws.encodeFrame out.frame.1 out.frame.2 none := by
  cases out <;> rfl

theorem relayed_frames (outs : List Outgoing) :
    relayed (outs.map frame) = (outs.filterMap chunk).flatten := by
  induction outs with
  | nil => rfl
  | cons out rest ih =>
    have cons : relayed (out.frame :: rest.map frame) = relayed [out.frame] ++ relayed (rest.map frame) :=
      relayed_append [out.frame] _
    rw [List.map_cons, cons, ih]
    cases out with
    | data bytes => simp [relayed, frame, chunk]
    | ping | pong => simp [List.filterMap_cons, relayed, frame, chunk, Ws.opPing, Ws.opPong, Ws.opBinary]

end Outgoing

end MidiToIp.Orchestrator
