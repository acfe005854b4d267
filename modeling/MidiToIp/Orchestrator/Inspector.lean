import MidiToIp.Orchestrator.Rooms
import MidiToIp.Shared.Bytes

set_option autoImplicit false

namespace MidiToIp.Orchestrator

open Octets

namespace Mm

def masterElect : UInt8 := 0x00
def countPlayers : UInt8 := 0x80
def resetScore : UInt8 := 0x81
def terminateGame : UInt8 := 0x82
def sendData : UInt8 := 0x83
def startGame : UInt8 := 0x84
def about : UInt8 := 0x85
def nameDialog : UInt8 := 0x86
def sendDataFixed : Int := 1 + 1 + 1 + 1 + 1 + 3 + 4096 + 1 + 16 + 1 + 2

def joystick (b : UInt8) : String :=
  let names := ([("L", 1), ("R", 2), ("D", 4), ("U", 8), ("Fire", 16)] : List (String × UInt8)).filter
    fun entry => b &&& entry.2 ≠ 0
  if names = [] then "none" else "+".intercalate (names.map Prod.fst)

end Mm

inductive Phase where
  | idle
  | electing
  | counting
  | inGame
  deriving DecidableEq, Repr

def Phase.order : Phase → Nat
  | .idle => 0
  | .electing => 1
  | .counting => 2
  | .inGame => 3

namespace Inspector

inductive State where
  | normal
  | expectCount
  | sendDataName
  | sendDataFixed
  deriving DecidableEq, Repr

end Inspector

structure Inspector where
  state : Inspector.State := .normal
  fixedLeft : Int := 0
  inGame : Bool := false
  phase : Phase := .idle
  electedMaster : Bool := false
  deriving DecidableEq, Repr

namespace Inspector

def hexDigits (b : UInt8) : String :=
  String.ofList [(b.toNat / 16).digitChar, (b.toNat % 16).digitChar]

def joystickEvent (b : UInt8) : String := "JOYSTICK(" ++ Mm.joystick b ++ ")"

def command (insp : Inspector) (b : UInt8) : List String × Inspector :=
  if b = Mm.countPlayers then
    (["COUNT-PLAYERS-start"],
      { insp with state := .expectCount, phase := .counting, electedMaster := true })
  else if b = Mm.resetScore then (["RESET-SCORE"], insp)
  else if b = Mm.terminateGame then
    (["TERMINATE-GAME"], { insp with phase := .idle, electedMaster := false, inGame := false })
  else if b = Mm.sendData then
    (["SEND-DATA(start)"], { insp with state := .sendDataName, phase := .inGame })
  else if b = Mm.startGame then (["START-GAME"], { insp with phase := .inGame })
  else if b = Mm.about then (["ABOUT"], insp)
  else if b = Mm.nameDialog then (["NAME-DIALOG"], insp)
  else if b = Mm.masterElect then
    if insp.inGame then ([joystickEvent b], insp)
    else (["MASTER-ELECT"], if insp.phase = .idle then { insp with phase := .electing } else insp)
  else if insp.inGame then ([joystickEvent b], insp)
  else (["byte(0x" ++ hexDigits b ++ ")"], insp)

def byte (insp : Inspector) (b : UInt8) : List String × Inspector :=
  match insp.state with
  | .expectCount =>
    (["COUNT-PLAYERS(n=" ++ toString b.toNat ++ ")"], { insp with state := .normal })
  | .sendDataName =>
    ([], if b = 0x00 then { insp with state := .sendDataFixed, fixedLeft := Mm.sendDataFixed } else insp)
  | .sendDataFixed =>
    if insp.fixedLeft - 1 ≤ 0 then
      (["SEND-DATA(end)"],
        { insp with fixedLeft := insp.fixedLeft - 1, state := .normal, inGame := true })
    else ([], { insp with fixedLeft := insp.fixedLeft - 1 })
  | .normal => insp.command b

def feed (insp : Inspector) : Bytes → List String × Inspector
  | [] => ([], insp)
  | b :: data =>
    let (events, insp) := insp.byte b
    let (more, insp) := feed insp data
    (events ++ more, insp)

theorem feed_append (insp : Inspector) (first second : Bytes) :
    insp.feed (first ++ second) =
      ((insp.feed first).1 ++ ((insp.feed first).2.feed second).1,
        ((insp.feed first).2.feed second).2) := by
  induction first generalizing insp with
  | nil => simp [feed]
  | cons b data ih => simp [feed, ih, List.append_assoc]

theorem feed_counts (insp : Inspector) (counts : List UInt8) (ready : insp.state = .normal) :
    (insp.feed (counts.flatMap fun n => [Mm.countPlayers, n])).2 =
      { insp with
        phase := if counts = [] then insp.phase else .counting
        electedMaster := if counts = [] then insp.electedMaster else true } := by
  induction counts generalizing insp with
  | nil => simp [feed]
  | cons n rest ih =>
    have one : (insp.feed [Mm.countPlayers, n]).2 =
        { insp with phase := .counting, electedMaster := true } := by
      simp [feed, byte, command, ready]
    rw [List.flatMap_cons, feed_append, one]
    exact (ih { insp with phase := .counting, electedMaster := true } ready).trans (by simp)

end Inspector

abbrev Inspectors := Nat → Option Inspector

def Inspectors.chunk (inspectors : Inspectors) (sent : Nat × Bytes) : Inspectors :=
  fun id => if id = sent.1 then (inspectors id).map fun insp => (insp.feed sent.2).2 else inspectors id

def Inspectors.chunks (inspectors : Inspectors) (sent : List (Nat × Bytes)) : Inspectors :=
  sent.foldl Inspectors.chunk inspectors

def roomObserveOne (inspectors : Inspectors) (seen : Phase × Option Nat) (player : Player) :
    Phase × Option Nat :=
  match inspectors player.id with
  | none => seen
  | some insp =>
    (if insp.phase.order > seen.1.order then insp.phase else seen.1,
      if insp.electedMaster ∧ seen.2 = none then some player.id else seen.2)

def roomObserve (reg : Registry) (inspectors : Inspectors) : Phase × Option Nat :=
  reg.players.foldl (roomObserveOne inspectors) (.idle, none)

def sentBy (sent : List (Nat × Bytes)) (id : Nat) : Bytes :=
  (sent.filter fun chunk => chunk.1 = id).flatMap Prod.snd

theorem Inspectors.chunks_sentBy (inspectors : Inspectors) (sent : List (Nat × Bytes)) (id : Nat) :
    inspectors.chunks sent id = (inspectors id).map fun insp => (insp.feed (sentBy sent id)).2 := by
  induction sent generalizing inspectors with
  | nil => simp [Inspectors.chunks, sentBy, Inspector.feed]
  | cons first rest ih =>
    have step := ih (inspectors.chunk first)
    unfold Inspectors.chunks at step ⊢
    rw [List.foldl_cons, step]
    by_cases mine : first.1 = id
    · cases held : inspectors id with
      | none => simp [Inspectors.chunk, mine, held]
      | some insp =>
        simp [Inspectors.chunk, mine, held, sentBy, Inspector.feed_append]
    · simp [Inspectors.chunk, mine, Ne.symm mine, sentBy]

theorem roomObserve_master (reg : Registry) (inspectors : Inspectors) :
    (roomObserve reg inspectors).2 = (reg.players.find? fun player =>
      (inspectors player.id).any fun insp => insp.electedMaster).map Player.id := by
  have all (players : List Player) (seen : Phase × Option Nat) :
      (players.foldl (roomObserveOne inspectors) seen).2 =
        seen.2.or ((players.find? fun player =>
          (inspectors player.id).any fun insp => insp.electedMaster).map Player.id) := by
    induction players generalizing seen with
    | nil => simp
    | cons player rest ih =>
      rw [List.foldl_cons, ih, List.find?_cons]
      unfold roomObserveOne
      cases inspectors player.id with
      | none => simp
      | some insp =>
        cases elected : insp.electedMaster <;> cases seen.2 <;> simp [elected]
  exact all reg.players (.idle, none)

def countRound (reg : Registry) : Nat → Player → UInt8 → List (Nat × Bytes)
  | 0, _, _ => []
  | hops + 1, player, count =>
    (player.id, [Mm.countPlayers, count]) ::
      match reg.nextPlayer player with
      | some target => countRound reg hops target (count + 1)
      | none => []

theorem countRound_sentBy (reg : Registry) (hops : Nat) (player : Player) (count : UInt8) (id : Nat) :
    ∃ counts : List UInt8,
      sentBy (countRound reg hops player count) id = counts.flatMap (fun n => [Mm.countPlayers, n]) ∧
        (id ∈ (countRound reg hops player count).map Prod.fst → counts ≠ []) := by
  induction hops generalizing player count with
  | zero => exact ⟨[], rfl, by simp [countRound]⟩
  | succ hops ih =>
    -- The messages behind the first one.
    obtain ⟨later, rest, counts⟩ : ∃ later : List UInt8,
        sentBy ((countRound reg (hops + 1) player count).tail) id =
          later.flatMap (fun n => [Mm.countPlayers, n]) ∧
        (id ∈ (countRound reg (hops + 1) player count).tail.map Prod.fst → later ≠ []) := by
      unfold countRound
      cases reg.nextPlayer player with
      | none => exact ⟨[], rfl, by simp⟩
      | some target => exact ih target (count + 1)
    have first : countRound reg (hops + 1) player count =
        (player.id, [Mm.countPlayers, count]) :: (countRound reg (hops + 1) player count).tail := rfl
    by_cases mine : player.id = id
    · refine ⟨count :: later, ?_, by simp⟩
      rw [first, List.flatMap_cons, ← rest]
      simp [sentBy, mine]
    · refine ⟨later, ?_, fun member => counts ?_⟩
      · rw [first, ← rest]
        simp [sentBy, mine]
      · rw [first, List.map_cons, List.mem_cons] at member
        exact member.resolve_left (Ne.symm mine)

theorem nextPlayer_index (reg : Registry) (player : Player) (member : player ∈ reg.players) :
    ∃ target ∈ reg.players, reg.nextPlayer player = some target ∧
      reg.ids.idxOf target.id = (reg.ids.idxOf player.id + 1) % reg.ids.length := by
  obtain ⟨target, next⟩ := Option.isSome_iff_exists.mp
    (reg.nextPlayer_isSome player (reg.mem_ids player member))
  obtain ⟨held, id, origin⟩ := reg.nextPlayer_eq_next player target next
  have within : (reg.ids.idxOf player.id + 1) % reg.ids.length < reg.ids.length :=
    Nat.mod_lt _ (List.length_pos_of_mem held)
  refine ⟨target, ?_, next, ?_⟩
  · rcases origin with rfl | within
    · exact member
    · exact within
  · rw [id, List.next_eq_getElem held]
    exact List.Nodup.idxOf_getElem reg.distinct _ within

theorem countRound_reaches (reg : Registry) (hops : Nat) (player : Player) (count : UInt8)
    (member : player ∈ reg.players) (other : Player) (held : other ∈ reg.players) (steps : Nat)
    (near : steps < hops)
    (away : reg.ids.idxOf other.id = (reg.ids.idxOf player.id + steps) % reg.ids.length) :
    other.id ∈ (countRound reg hops player count).map Prod.fst := by
  induction hops generalizing player count steps with
  | zero => omega
  | succ hops ih =>
    obtain ⟨target, within, next, index⟩ := nextPlayer_index reg player member
    unfold countRound
    rw [List.map_cons, List.mem_cons, next]
    cases steps with
    | zero =>
      left
      have bound := List.idxOf_lt_length_of_mem (reg.mem_ids player member)
      rw [Nat.add_zero, Nat.mod_eq_of_lt bound] at away
      exact (List.idxOf_inj (reg.mem_ids other held)).mp away
    | succ steps =>
      refine .inr (ih target (count + 1) within steps (by omega) ?_)
      rw [away, index, Nat.mod_add_mod]
      congr 1
      omega

theorem countRound_all (reg : Registry) (player other : Player) (count : UInt8)
    (member : player ∈ reg.players) (held : other ∈ reg.players) :
    other.id ∈ (countRound reg reg.size player count).map Prod.fst := by
  have here := List.idxOf_lt_length_of_mem (reg.mem_ids player member)
  have there := List.idxOf_lt_length_of_mem (reg.mem_ids other held)
  have same : reg.ids.length = reg.size := by rw [Registry.ids, List.length_map, Registry.size]
  refine countRound_reaches reg reg.size player count member other held
    ((reg.ids.idxOf other.id + reg.ids.length - reg.ids.idxOf player.id) % reg.ids.length) ?_ ?_
  · rw [← same]
    exact Nat.mod_lt _ (by omega)
  · rw [Nat.add_mod_mod]
    have around : reg.ids.idxOf player.id +
        (reg.ids.idxOf other.id + reg.ids.length - reg.ids.idxOf player.id) =
          reg.ids.idxOf other.id + reg.ids.length := by omega
    rw [around, Nat.add_mod_right, Nat.mod_eq_of_lt there]

theorem roomObserve_firstJoined (reg : Registry) (master : Player) (member : master ∈ reg.players)
    (inspectors : Inspectors)
    (ready : ∀ player ∈ reg.players, ∃ insp, inspectors player.id = some insp ∧ insp.state = .normal)
    (sent : List (Nat × Bytes))
    (round : ∀ player ∈ reg.players,
      sentBy sent player.id = sentBy (countRound reg reg.size master 0) player.id) :
    (roomObserve reg (inspectors.chunks sent)).2 = some master.id ↔
      reg.players.head? = some master := by
  have elected : ∀ player ∈ reg.players,
      ((inspectors.chunks sent) player.id).any (fun insp => insp.electedMaster) = true := by
    intro player held
    obtain ⟨insp, known, normal⟩ := ready player held
    obtain ⟨counts, said, some_⟩ := countRound_sentBy reg reg.size master 0 player.id
    have counted := some_ (countRound_all reg master player 0 member held)
    rw [Inspectors.chunks_sentBy, known, round player held, said]
    simp [insp.feed_counts counts normal, counted]
  rw [roomObserve_master]
  obtain ⟨first, rest, players⟩ : ∃ first rest, reg.players = first :: rest := by
    cases players : reg.players with
    | nil => simp [players] at member
    | cons first rest => exact ⟨first, rest, rfl⟩
  have firstElected := elected first (by simp [players])
  rw [players, List.find?_cons, firstElected]
  simp only [Option.map_some, List.head?_cons, Option.some.injEq]
  constructor
  · intro same
    exact reg.eq_of_id first master (by simp [players]) member same
  · rintro rfl
    rfl

def twoPlayers : Registry := (Registry.empty.add ⟨1, "PLAY", 11⟩).add ⟨2, "PLAY", 12⟩

theorem roomObserve_firstJoined_two :
    (roomObserve twoPlayers (Inspectors.chunks (fun _ => some {})
      [(1, [0x80]), (1, [0x00]), (2, [0x80, 0x01])])).2 = some 1 :=
  (roomObserve_firstJoined twoPlayers ⟨1, "PLAY", 11⟩ (by decide) (fun _ => some {})
    (fun _ _ => ⟨{}, rfl, rfl⟩) [(1, [0x80]), (1, [0x00]), (2, [0x80, 0x01])]
    (by decide)).mpr (by decide)

-- The second player has itself elected and starts the round; the badge names the first.
theorem secondMaster_unnamed :
    (⟨2, "PLAY", 12⟩ : Player) ∈ twoPlayers.players ∧
      countRound twoPlayers twoPlayers.size ⟨2, "PLAY", 12⟩ 0 = [(2, [0x80, 0x00]), (1, [0x80, 0x01])] ∧
      (roomObserve twoPlayers (Inspectors.chunks (fun _ => some {})
        (countRound twoPlayers twoPlayers.size ⟨2, "PLAY", 12⟩ 0))).2 = some 1 := by
  decide

end MidiToIp.Orchestrator
