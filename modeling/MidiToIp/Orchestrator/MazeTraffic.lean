import MidiToIp.Orchestrator.Inspector

set_option autoImplicit false

namespace MidiToIp.Orchestrator

open Octets

/-- A message of the game; the `fixed` bytes of `data` are all that follows the terminated name. -/
inductive Message (fixed : Nat) where
  | countPlayers (n : UInt8)
  | resetScore
  | terminateGame
  | sendData (name data : Bytes) (free : 0x00 ∉ name) (size : data.length = fixed)
  | startGame
  | about
  | nameDialog
  | single (b : UInt8) (small : b < 0x80)

variable {fixed : Nat}

namespace Message

def serialise : Message fixed → Bytes
  | countPlayers n => [Mm.countPlayers, n]
  | resetScore => [Mm.resetScore]
  | terminateGame => [Mm.terminateGame]
  | sendData name data _ _ => Mm.sendData :: (name ++ 0x00 :: data)
  | startGame => [Mm.startGame]
  | about => [Mm.about]
  | nameDialog => [Mm.nameDialog]
  | single b _ => [b]

def terminates : Message fixed → Bool
  | terminateGame => true
  | _ => false

def counts : Message fixed → Bool
  | countPlayers _ => true
  | _ => false

def deals : Message fixed → Bool
  | sendData _ _ _ _ => true
  | _ => false

def elects : Message fixed → Bool
  | single b _ => b = 0x00
  | _ => false

def decides : Message fixed → Option Phase
  | countPlayers _ => some .counting
  | sendData _ _ _ _ => some .inGame
  | startGame => some .inGame
  | _ => none

end Message

def stream (messages : List (Message fixed)) : Bytes := messages.flatMap Message.serialise

def underWay (messages : List (Message fixed)) : List (Message fixed) :=
  messages.reverse.takeWhile fun message => !message.terminates

def playing (messages : List (Message fixed)) : Bool := (underWay messages).any Message.deals

def counted (messages : List (Message fixed)) : Bool := (underWay messages).any Message.counts

def phaseOf (messages : List (Message fixed)) : Phase :=
  match (underWay messages).findSome? Message.decides with
  | some phase => phase
  | none => if (underWay messages).any Message.elects then .electing else .idle

def Message.events (playing : Bool) : Message fixed → List String
  | countPlayers n => ["COUNT-PLAYERS-start", "COUNT-PLAYERS(n=" ++ toString n.toNat ++ ")"]
  | resetScore => ["RESET-SCORE"]
  | terminateGame => ["TERMINATE-GAME"]
  | sendData _ _ _ _ => ["SEND-DATA(start)", "SEND-DATA(end)"]
  | startGame => ["START-GAME"]
  | about => ["ABOUT"]
  | nameDialog => ["NAME-DIALOG"]
  | single b _ =>
    if playing then [Inspector.joystickEvent b]
    else if b = 0x00 then ["MASTER-ELECT"]
    else ["byte(0x" ++ Inspector.hexDigits b ++ ")"]

def eventsAfter (before : List (Message fixed)) : List (Message fixed) → List String
  | [] => []
  | message :: later => message.events (playing before) ++ eventsAfter (before ++ [message]) later

theorem underWay_concat (messages : List (Message fixed)) (message : Message fixed) :
    underWay (messages ++ [message]) =
      if message.terminates then [] else message :: underWay messages := by
  rw [underWay, List.reverse_append, List.reverse_singleton, List.singleton_append,
    List.takeWhile_cons]
  cases message.terminates <;> rfl

theorem playing_concat (messages : List (Message fixed)) (message : Message fixed) :
    playing (messages ++ [message]) = (!message.terminates && (message.deals || playing messages)) := by
  rw [playing, underWay_concat]
  cases message.terminates <;> simp [playing]

theorem counted_concat (messages : List (Message fixed)) (message : Message fixed) :
    counted (messages ++ [message]) =
      (!message.terminates && (message.counts || counted messages)) := by
  rw [counted, underWay_concat]
  cases message.terminates <;> simp [counted]

theorem decides_lively (message : Message fixed) (phase : Phase) (decided : message.decides = some phase) :
    phase ≠ .idle := by
  cases message with
  | countPlayers | sendData | startGame =>
    obtain rfl := Option.some.inj decided
    simp
  | resetScore | terminateGame | about | nameDialog | single => simp [Message.decides] at decided

theorem phaseOf_idle (messages : List (Message fixed)) (idle : phaseOf messages = .idle) :
    (underWay messages).findSome? Message.decides = none ∧
      (underWay messages).any Message.elects = false := by
  unfold phaseOf at idle
  split at idle
  next phase decided =>
    obtain ⟨message, -, decides⟩ := List.exists_of_findSome?_eq_some decided
    exact absurd idle (decides_lively message phase decides)
  next undecided =>
    refine ⟨undecided, ?_⟩
    cases elects : (underWay messages).any Message.elects with
    | false => rfl
    | true => simp [elects] at idle

theorem phaseOf_playing (messages : List (Message fixed)) (plays : playing messages = true) :
    phaseOf messages ≠ .idle := by
  intro idle
  obtain ⟨message, member, deals⟩ := List.any_eq_true.mp plays
  have undecided := List.findSome?_eq_none_iff.mp (phaseOf_idle messages idle).1 message member
  cases message with
  | sendData => simp [Message.decides] at undecided
  | countPlayers | resetScore | terminateGame | startGame | about | nameDialog | single =>
    simp [Message.deals] at deals

theorem phaseOf_concat (messages : List (Message fixed)) (message : Message fixed) :
    phaseOf (messages ++ [message]) =
      if message.terminates then .idle
      else message.decides.getD
        (if message.elects ∧ phaseOf messages = .idle then .electing else phaseOf messages) := by
  cases terminates : message.terminates with
  | true => simp [phaseOf, underWay_concat, terminates]
  | false =>
    rw [phaseOf, underWay_concat, terminates]
    simp only [Bool.false_eq_true, if_false, List.findSome?_cons]
    cases decides : message.decides with
    | some phase => rfl
    | none =>
      simp only [Option.getD_none, List.any_cons]
      by_cases idle : phaseOf messages = .idle
      · obtain ⟨undecided, quiet⟩ := phaseOf_idle messages idle
        simp [idle, undecided, quiet]
      · simp only [idle, and_false, if_false]
        unfold phaseOf at idle ⊢
        cases decided : (underWay messages).findSome? Message.decides with
        | some phase => simp
        | none =>
          by_cases elects : (underWay messages).any Message.elects = true
          · simp [elects]
          · simp [decided, elects] at idle

namespace Inspector

def feeds (insp : Inspector) : List Bytes → List String × Inspector
  | [] => ([], insp)
  | chunk :: rest =>
    let (events, insp) := insp.feed chunk
    let (more, insp) := feeds insp rest
    (events ++ more, insp)

theorem feeds_flatten (insp : Inspector) (chunks : List Bytes) :
    insp.feeds chunks = insp.feed chunks.flatten := by
  induction chunks generalizing insp with
  | nil => rfl
  | cons chunk rest ih =>
    rw [List.flatten_cons, feed_append, ← ih]
    rfl

theorem feed_name (insp : Inspector) (name : Bytes) (within : insp.state = .sendDataName)
    (free : 0x00 ∉ name) : insp.feed name = ([], insp) := by
  induction name with
  | nil => rfl
  | cons b name ih =>
    rw [List.mem_cons, not_or] at free
    have stays : insp.byte b = ([], insp) := by simp [byte, within, Ne.symm free.1]
    rw [feed, stays]
    simp [ih free.2]

theorem feed_fixed (insp : Inspector) (data : Bytes) (left : Nat) (within : insp.state = .sendDataFixed)
    (counter : insp.fixedLeft = left + 1) (fits : data.length ≤ left + 1) :
    insp.feed data =
      if data.length < left + 1 then ([], { insp with fixedLeft := left + 1 - data.length })
      else (["SEND-DATA(end)"], { insp with fixedLeft := 0, state := .normal, inGame := true }) := by
  induction data generalizing insp left with
  | nil => simp [feed, ← counter]
  | cons b data ih =>
    rw [List.length_cons] at fits
    cases left with
    | zero =>
      obtain rfl : data = [] := List.eq_nil_of_length_eq_zero (by omega)
      simp [feed, byte, within, counter]
    | succ left =>
      have goesOn : ¬ insp.fixedLeft - 1 ≤ 0 := by omega
      have one : insp.byte b = ([], { insp with fixedLeft := insp.fixedLeft - 1 }) := by
        simp [byte, within, goesOn]
      rw [feed, one]
      simp only [List.nil_append]
      rw [ih { insp with fixedLeft := insp.fixedLeft - 1 } left within (by simp [counter]) (by omega)]
      by_cases more : data.length < left + 1
      · have longer : data.length + 1 < left + 1 + 1 := by omega
        simp only [more, if_true, List.length_cons, longer]
        congr 2
        push_cast
        omega
      · have ends : ¬ data.length + 1 < left + 1 + 1 := by omega
        simp [more, List.length_cons, ends]

structure Follows (insp : Inspector) (messages : List (Message fixed)) : Prop where
  phase : insp.phase = phaseOf messages
  elected : insp.electedMaster = counted messages

structure Shows (insp : Inspector) (messages : List (Message fixed)) : Prop extends
    Follows insp messages where
  state : insp.state = .normal
  inGame : insp.inGame = playing messages

theorem feed_one (insp : Inspector) (b : UInt8) (state : insp.state = .normal) :
    insp.feed [b] = insp.command b := by
  simp [feed, byte, state]

theorem feed_sendData (insp : Inspector) (name : Bytes) (free : 0x00 ∉ name)
    (state : insp.state = .normal) :
    insp.feed (Mm.sendData :: name) =
        (["SEND-DATA(start)"], { insp with state := .sendDataName, phase := .inGame }) ∧
      insp.feed (Mm.sendData :: (name ++ [0x00])) =
        (["SEND-DATA(start)"],
          { insp with state := .sendDataFixed, fixedLeft := Mm.sendDataFixed, phase := .inGame }) := by
  have named : insp.feed (Mm.sendData :: name) =
      (["SEND-DATA(start)"], { insp with state := .sendDataName, phase := .inGame }) := by
    have begins : insp.byte Mm.sendData =
        (["SEND-DATA(start)"], { insp with state := .sendDataName, phase := .inGame }) := by
      rw [byte, state]
      rfl
    rw [feed, begins]
    simp only
    rw [feed_name _ name rfl free]
    rfl
  refine ⟨named, ?_⟩
  rw [← List.cons_append, feed_append, named]
  simp [feed, byte]

theorem Shows.concat {insp after : Inspector} {before : List (Message fixed)} (message : Message fixed)
    (shows_ : insp.Shows before) (state : after.state = .normal)
    (inGame : after.inGame = (!message.terminates && (message.deals || insp.inGame)))
    (phase : after.phase = if message.terminates then .idle
      else message.decides.getD
        (if message.elects ∧ insp.phase = .idle then .electing else insp.phase))
    (elected : after.electedMaster =
      (!message.terminates && (message.counts || insp.electedMaster))) :
    after.Shows (before ++ [message]) where
  state := state
  inGame := by rw [inGame, playing_concat, shows_.inGame]
  phase := by rw [phase, phaseOf_concat, shows_.phase]
  elected := by rw [elected, counted_concat, shows_.elected]

theorem feed_message (insp : Inspector) (before : List (Message 4124)) (message : Message 4124)
    (shows_ : insp.Shows before) :
    (insp.feed message.serialise).1 = message.events (playing before) ∧
      (insp.feed message.serialise).2.Shows (before ++ [message]) := by
  have state := shows_.state
  cases message with
  | countPlayers n =>
    have fed : insp.feed [Mm.countPlayers, n] =
        (["COUNT-PLAYERS-start", "COUNT-PLAYERS(n=" ++ toString n.toNat ++ ")"],
          { insp with state := .normal, phase := .counting, electedMaster := true }) := by
      simp [feed, byte, state, command]
    rw [Message.serialise, fed]
    exact ⟨rfl, shows_.concat _ rfl rfl rfl rfl⟩
  | resetScore =>
    rw [Message.serialise, feed_one insp _ state]
    exact ⟨rfl, shows_.concat _ state rfl rfl rfl⟩
  | terminateGame =>
    rw [Message.serialise, feed_one insp _ state]
    exact ⟨rfl, shows_.concat _ state rfl rfl rfl⟩
  | sendData name data free size =>
    have named := (feed_sendData insp name free state).2
    have dealt := feed_fixed
      { insp with state := .sendDataFixed, fixedLeft := Mm.sendDataFixed, phase := .inGame }
      data 4123 rfl (show Mm.sendDataFixed = 4123 + 1 by decide) (by omega)
    rw [if_neg (by omega)] at dealt
    have fed : insp.feed (Mm.sendData :: (name ++ 0x00 :: data)) =
        (["SEND-DATA(start)", "SEND-DATA(end)"],
          { insp with state := .normal, fixedLeft := 0, inGame := true, phase := .inGame }) := by
      rw [List.append_cons, ← List.cons_append, feed_append, named, dealt]
      rfl
    rw [Message.serialise, fed]
    exact ⟨rfl, shows_.concat _ rfl rfl rfl rfl⟩
  | startGame =>
    rw [Message.serialise, feed_one insp _ state]
    exact ⟨rfl, shows_.concat _ state rfl rfl rfl⟩
  | about =>
    rw [Message.serialise, feed_one insp _ state]
    exact ⟨rfl, shows_.concat _ state rfl rfl rfl⟩
  | nameDialog =>
    rw [Message.serialise, feed_one insp _ state]
    exact ⟨rfl, shows_.concat _ state rfl rfl rfl⟩
  | single b small =>
    rw [Message.serialise, feed_one insp b state]
    have other (c : UInt8) (large : ¬ c < 0x80) : b ≠ c := fun same => large (same ▸ small)
    simp only [command, other Mm.countPlayers (by decide), other Mm.resetScore (by decide),
      other Mm.terminateGame (by decide), other Mm.sendData (by decide), other Mm.startGame (by decide),
      other Mm.about (by decide), other Mm.nameDialog (by decide), if_false]
    have played : playing before = insp.inGame := shows_.inGame.symm
    by_cases zero : b = Mm.masterElect
    · rw [if_pos zero]
      cases inGame : insp.inGame with
      | true =>
        have lively : insp.phase ≠ .idle :=
          shows_.phase ▸ phaseOf_playing before (played.trans inGame)
        refine ⟨by simp [Message.events, played, inGame], shows_.concat _ state rfl ?_ rfl⟩
        simp [Message.terminates, Message.decides, lively]
      | false =>
        refine ⟨?_, shows_.concat _ ?_ ?_ ?_ ?_⟩
        · simp [Message.events, played, inGame, zero, Mm.masterElect]
        · by_cases idle : insp.phase = .idle <;> simp [idle, state]
        · by_cases idle : insp.phase = .idle <;>
            simp [idle, inGame, Message.terminates, Message.deals]
        · by_cases idle : insp.phase = .idle <;>
            simp [idle, Message.terminates, Message.decides, Message.elects, zero, Mm.masterElect]
        · by_cases idle : insp.phase = .idle <;>
            simp [idle, Message.terminates, Message.counts]
    · rw [if_neg zero]
      have other : (.single b small : Message 4124).elects = false := decide_eq_false zero
      have stays : insp.Shows (before ++ [.single b small]) :=
        shows_.concat _ state rfl (by simp [Message.terminates, Message.decides, other]) rfl
      cases inGame : insp.inGame with
      | true => exact ⟨by simp [Message.events, played, inGame], stays⟩
      | false =>
        refine ⟨?_, stays⟩
        have notZero : b ≠ 0 := zero
        simp [Message.events, played, inGame, notZero]

theorem feed_part (insp : Inspector) (before : List (Message 4124)) (message : Message 4124)
    (shows_ : insp.Shows before) (part : Bytes) (some_ : part ≠ [])
    (begins : part <+: message.serialise) :
    (insp.feed part).2.Follows (before ++ [message]) := by
  have state := shows_.state
  by_cases whole : part = message.serialise
  · rw [whole]
    exact (feed_message insp before message shows_).2.toFollows
  have shorter : part.length < message.serialise.length :=
    lt_of_le_of_ne begins.length_le fun same => whole (begins.eq_of_length same)
  have long : 0 < part.length := List.length_pos_of_ne_nil some_
  cases message with
  | countPlayers n =>
    have only : part = [Mm.countPlayers] := by
      rw [List.prefix_iff_eq_take.mp begins]
      have one : part.length = 1 := by
        simp only [Message.serialise, List.length_cons, List.length_nil] at shorter
        omega
      rw [one]
      rfl
    rw [only, feed_one insp _ state]
    exact ⟨by rw [phaseOf_concat]; rfl, by rw [counted_concat]; rfl⟩
  | sendData name data free size =>
    rw [Message.serialise, List.prefix_cons_iff] at begins
    obtain ⟨q, rfl, inner⟩ := begins.resolve_left some_
    have dealing (after : Inspector) (phase : after.phase = .inGame)
        (elected : after.electedMaster = insp.electedMaster) :
        after.Follows (before ++ [.sendData name data free size]) :=
      ⟨by rw [phase, phaseOf_concat]; rfl,
        by rw [elected, counted_concat]; exact shows_.elected⟩
    by_cases within : q.length ≤ name.length
    · have ahead : q <+: name := List.prefix_of_prefix_length_le inner (List.prefix_append _ _) within
      rw [(feed_sendData insp q (fun zero => free (ahead.subset zero)) state).1]
      exact dealing _ rfl rfl
    · rw [List.append_cons] at inner
      have named : name ++ [0x00] <+: q := List.prefix_of_prefix_length_le (List.prefix_append _ _)
        inner (by simp only [List.length_append, List.length_singleton]; omega)
      obtain ⟨d, rfl⟩ := named
      have inside := ((List.prefix_append_right_inj _).mp inner).length_le
      rw [← List.cons_append, feed_append, (feed_sendData insp name free state).2]
      simp only
      rw [feed_fixed _ d 4123 rfl (show Mm.sendDataFixed = 4123 + 1 by decide) (by omega)]
      split <;> exact dealing _ rfl rfl
  | resetScore | terminateGame | startGame | about | nameDialog | single =>
    simp only [Message.serialise, List.length_cons, List.length_nil] at shorter
    omega

theorem feed_messages (insp : Inspector) (before messages : List (Message 4124))
    (shows_ : insp.Shows before) :
    (insp.feed (stream messages)).1 = eventsAfter before messages ∧
      (insp.feed (stream messages)).2.Shows (before ++ messages) := by
  induction messages generalizing insp before with
  | nil => exact ⟨rfl, by simpa [stream, feed] using shows_⟩
  | cons message later ih =>
    obtain ⟨events, shown⟩ := feed_message insp before message shows_
    obtain ⟨more, final⟩ := ih _ (before ++ [message]) shown
    rw [stream, List.flatMap_cons, feed_append]
    refine ⟨?_, ?_⟩
    · rw [eventsAfter, events]
      exact congrArg _ more
    · rw [List.append_assoc] at final
      exact final

theorem start_shows : Shows {} ([] : List (Message fixed)) := ⟨⟨rfl, rfl⟩, rfl, rfl⟩

end Inspector

theorem feeds_traffic (messages : List (Message 4124)) :
    (∀ chunks : List Bytes, chunks.flatten = stream messages →
      ((({} : Inspector).feeds chunks).1 = eventsAfter [] messages ∧
        (({} : Inspector).feeds chunks).2.state = .normal ∧
        (({} : Inspector).feeds chunks).2.phase = phaseOf messages ∧
        (({} : Inspector).feeds chunks).2.electedMaster = counted messages)) ∧
      ∀ before message later, messages = before ++ message :: later →
        ∀ part, part ≠ [] → part <+: message.serialise →
          ∀ chunks : List Bytes, chunks.flatten = stream before ++ part →
            (({} : Inspector).feeds chunks).2.phase = phaseOf (before ++ [message]) ∧
              (({} : Inspector).feeds chunks).2.electedMaster = counted (before ++ [message]) := by
  refine ⟨fun chunks cut => ?_, fun before message later _ part some_ begins chunks cut => ?_⟩
  · rw [Inspector.feeds_flatten, cut]
    obtain ⟨events, shown⟩ := Inspector.feed_messages {} [] messages Inspector.start_shows
    exact ⟨events, shown.state, shown.phase, shown.elected⟩
  · rw [Inspector.feeds_flatten, cut, Inspector.feed_append]
    have shown := (Inspector.feed_messages {} [] before Inspector.start_shows).2
    have follows := Inspector.feed_part _ _ message shown part some_ begins
    exact ⟨follows.phase, follows.elected⟩

theorem feeds_traffic_dealt :
    ∃ (messages : List (Message 4124)) (chunks : List Bytes), chunks.length = 2 ∧
      messages.length = 2 ∧ chunks.flatten = stream messages ∧
      (({} : Inspector).feeds chunks).1 =
        ["COUNT-PLAYERS-start", "COUNT-PLAYERS(n=0)", "SEND-DATA(start)", "SEND-DATA(end)"] ∧
      (({} : Inspector).feeds chunks).2.electedMaster = true := by
  have size : (Mm.terminateGame :: List.replicate 4123 Mm.countPlayers).length = 4124 := by
    rw [List.length_cons, List.length_replicate]
  have cut : [[Mm.countPlayers, 0x00, Mm.sendData, 0x41, 0x00, Mm.terminateGame],
      List.replicate 4123 Mm.countPlayers].flatten =
        stream [.countPlayers 0x00, .sendData [0x41] _ (by decide) size] := by
    simp only [stream, Message.serialise, List.flatten_cons, List.flatten_nil, List.flatMap_cons,
      List.flatMap_nil, List.append_nil, List.cons_append, List.nil_append]
  obtain ⟨events, -, -, elected⟩ := (feeds_traffic _).1 _ cut
  exact ⟨_, _, rfl, rfl, cut, events, elected⟩

theorem shortBlock_losesSync :
    ¬ ∀ messages : List (Message 4123), ∀ chunks : List Bytes, chunks.flatten = stream messages →
      (({} : Inspector).feeds chunks).1 = eventsAfter [] messages ∧
        (({} : Inspector).feeds chunks).2.state = .normal := by
  intro always
  obtain ⟨data, size⟩ : ∃ data : Bytes, data.length = 4123 :=
    ⟨List.replicate 4123 0x00, List.length_replicate⟩
  have cut : [Mm.sendData :: ([] ++ [0x00]), data].flatten =
      stream [.sendData [] data (by decide) size] := by simp [stream, Message.serialise]
  have ends := (always _ _ cut).2
  have begun := (Inspector.feed_sendData {} [] (by decide) rfl).2
  have waits := Inspector.feed_fixed { state := .sendDataFixed, fixedLeft := 4124, phase := .inGame }
    data 4123 rfl rfl (by omega)
  rw [if_pos (by omega)] at waits
  rw [Inspector.feeds_flatten, List.flatten_cons, Inspector.feed_append, begun,
    List.flatten_cons, List.flatten_nil, List.append_nil] at ends
  have state := congrArg (fun fed => fed.2.state) waits
  exact absurd (state.symm.trans ends) (by simp)

end MidiToIp.Orchestrator
