import Mathlib.Data.List.Basic
import MidiToIp.Command.Chandler
import MidiToIp.Command.SampleRing

set_option autoImplicit false

-- The m68k sends commands, each with up to four tries; the RP drains the capture ring at any later
-- time. No word of a frame belongs to the MIDI stream here.

namespace MidiToIp.Command

open Machines

structure Piece where
  command : SyncCommand
  index : Nat

namespace Piece

def sample (x : Piece) : UInt16 :=
  captured (tstAddress ((sendSyncCommandToSidecart x.command.toRegisters).getD x.index 0))

def isLast (x : Piece) : Bool := x.index + 1 = x.command.frame.data.length

end Piece

-- Where the m68k is in a `send_sync`: `polling` ahead of a read of the token, `matched` between
-- that read and the one of the seed. The tries left are those after the present one.
inductive Caller where
  | idle
  | sending (command : SyncCommand) (sent tries : Nat)
  | polling (command : SyncCommand) (tries : Nat)
  | matched (command : SyncCommand) (tries : Nat)
  | returned (command : SyncCommand) (ok : Bool)

namespace Caller

def isFree : Caller → Bool
  | .idle | .returned _ _ => true
  | _ => false

def sentUpTo (command : SyncCommand) (index tries : Nat) : Caller :=
  if index = command.frame.data.length then .polling command tries else .sending command index tries

def pieces : Caller → List Piece
  | .sending command sent _ =>
    (List.range' sent (command.frame.data.length - sent)).map fun index => ⟨command, index⟩
  | _ => []

end Caller

/-- `handling` is the time between the drain of `chandler_loop` and its end; `dispatched` is what the
callbacks have been called with since the latest command was issued. -/
structure Exchange where
  caller : Caller := .idle
  ring : List Piece := []
  handling : Bool := false
  rp : Chandler
  dispatched : List TransmissionProtocol := []

inductive ExchangeLabel where
  | issue (command : SyncCommand)
  | word
  | readToken
  | readSeed
  | timeout
  | poll (timers : List UInt32)
  | dispatch

namespace Exchange

def beginTry (command : SyncCommand) (tries : Nat) (e : Exchange) : Exchange :=
  { e with
    caller := .sending { command with d2 := readLong e.rp.randomTokenSeed } 0 tries }

def commemulPoll (rp : Chandler) : List (Piece × UInt32) → Option Chandler
  | [] => some rp
  | (x, timer) :: rest =>
    (rp.consumeRom3Sample timer x.sample).bind fun after => commemulPoll after rest

def next (e : Exchange) : ExchangeLabel → Option Exchange
  | .issue command =>
    if e.caller.isFree then some ({ e with dispatched := [] }.beginTry command cmdRetriesCount)
    else none
  | .word =>
    match e.caller with
    | .sending command sent tries =>
      some { e with
        ring := capture ⟨command, sent⟩ e.ring
        caller := .sentUpTo command (sent + 1) tries }
    | _ => none
  | .readToken =>
    match e.caller with
    | .polling command tries =>
      if readLong e.rp.randomToken = command.d2 then some { e with caller := .matched command tries }
      else some e
    | _ => none
  | .readSeed =>
    match e.caller with
    | .matched command tries =>
      if readLong e.rp.randomTokenSeed = command.d2 then some { e with caller := .polling command tries }
      else some { e with caller := .returned command true }
    | _ => none
  | .timeout =>
    match e.caller with
    | .polling command (tries + 1) => some (e.beginTry command tries)
    | .polling command 0 => some { e with caller := .returned command false }
    | _ => none
  | .poll timers =>
    if e.handling = false ∧ timers.length = e.ring.length then
      (commemulPoll e.rp (e.ring.zip timers)).map fun rp => { e with rp := rp, ring := [], handling := true }
    else none
  | .dispatch =>
    if e.handling then
      some { e with
        rp := e.rp.dispatch.1
        dispatched := e.dispatched ++ e.rp.dispatch.2.toList
        handling := false }
    else none

end Exchange

def exchange : Machine Exchange ExchangeLabel := ⟨Exchange.next⟩

def ExchangeLabel.isWord : ExchangeLabel → Bool
  | .word => true
  | _ => false

theorem Exchange.next_listStep (e : Exchange) (label : ExchangeLabel) (after : Exchange)
    (step : e.next label = some after) : ∃ words given,
      ListStep (e.ring.map Piece.sample) words given (after.ring.map Piece.sample) ∧
        words.length ≤ [label].countP ExchangeLabel.isWord := by
  have keeps (other : Exchange) (same : other.ring = e.ring) : ∃ words given,
      ListStep (e.ring.map Piece.sample) words given (other.ring.map Piece.sample) ∧
        words.length ≤ [label].countP ExchangeLabel.isWord :=
    ⟨[], [], same ▸ .keep _, Nat.zero_le _⟩
  cases label with
  | issue command =>
    simp only [next, Option.ite_none_right_eq_some, Option.some.injEq] at step
    obtain ⟨-, rfl⟩ := step
    exact keeps _ rfl
  | word =>
    simp only [next] at step
    split at step
    next command sent tries here =>
      obtain rfl := Option.some.inj step
      refine ⟨[Piece.sample ⟨command, sent⟩], [], ?_, le_rfl⟩
      rw [capture_map]
      exact .capture _ _
    next => simp at step
  | poll timers =>
    simp only [next, Option.ite_none_right_eq_some, Option.map_eq_some_iff] at step
    obtain ⟨-, rp, -, rfl⟩ := step
    exact ⟨[], _, .poll _, Nat.zero_le _⟩
  | dispatch =>
    simp only [next, Option.ite_none_right_eq_some, Option.some.injEq] at step
    obtain ⟨-, rfl⟩ := step
    exact keeps _ rfl
  | readToken | readSeed | timeout =>
    simp only [next] at step
    split at step
    all_goals first
      | split_ifs at step <;> obtain rfl := Option.some.inj step <;> exact keeps _ rfl
      | obtain rfl := Option.some.inj step; exact keeps _ rfl
      | simp at step

theorem exchange_refinesRing {allowed : Exchange → ExchangeLabel → Prop} (bootUs : UInt64)
    (labels : List ExchangeLabel) (e : Exchange) (run : exchange.Run allowed { rp := .init bootUs } labels e)
    (total : labels.countP ExchangeLabel.isWord < 2 ^ 32 - 1) :
    ∃ ringLabels s, sampleRing.Run Machine.anyStep {} ringLabels s ∧
      s.Unread (e.ring.map Piece.sample) := by
  obtain ⟨ringLabels, s, reached, unread, -⟩ := CommRing.follows_run
    (fun e => e.ring.map Piece.sample) ExchangeLabel.isWord Exchange.next_listStep run rfl total
  exact ⟨ringLabels, s, reached, unread⟩

structure Order where
  token : UInt32
  commandId : UInt16
  parameters : List UInt16

def Order.asks (a b : Order) : Bool := a.commandId = b.commandId ∧ a.parameters = b.parameters

def SyncCommand.order (command : SyncCommand) : Order :=
  ⟨command.d2, command.d0, command.sentWords.drop 2⟩

def TransmissionProtocol.order (t : TransmissionProtocol) : Order :=
  ⟨readLong (getRandomToken t.payload), t.commandId, t.words.drop 2⟩

namespace Exchange

def inFlight (e : Exchange) : List Order :=
  (if e.rp.protocolPending then [e.rp.pendingProtocol.order] else []) ++
    e.ring.map fun x => x.command.order

def ownToken (command : SyncCommand) (e : Exchange) : Bool :=
  let seed := e.rp.randomTokenSeed
  (e.inFlight.all fun o => o.asks command.order) ||
    readLong e.rp.randomToken ≠ readLong seed &&
      e.inFlight.all fun o => o.asks command.order || o.token ≠ readLong seed

end Exchange

def trueHeaders (rp : Chandler) : List (Piece × UInt32) → Bool
  | [] => true
  | (x, timer) :: rest =>
    (x.index = 0 || rp.parser.step timer ≠ .headerDetection || addrLsb x.sample ≠ protocolHeader) &&
      match rp.consumeRom3Sample timer x.sample with
      | some after => trueHeaders after rest
      | none => true

def Exchange.retriesOwn (e : Exchange) : Bool :=
  match e.caller with
  | .polling command (_ + 1) => e.ownToken command
  | _ => true

/-- Every try has a token of its own, the parser starts no frame within a frame, and the ring is not
overrun. -/
def ownTokens (e : Exchange) : ExchangeLabel → Prop
  | .issue command => e.ownToken command = true
  | .timeout => e.retriesOwn = true
  | .word => e.ring.length + 1 ≠ commRingWords
  | .poll timers => trueHeaders e.rp (e.ring.zip timers) = true
  | .readToken | .readSeed | .dispatch => True

instance (e : Exchange) : (label : ExchangeLabel) → Decidable (ownTokens e label)
  | .issue command => inferInstanceAs (Decidable (e.ownToken command = true))
  | .timeout => inferInstanceAs (Decidable (e.retriesOwn = true))
  | .word => inferInstanceAs (Decidable (_ ≠ _))
  | .poll timers => inferInstanceAs (Decidable (trueHeaders e.rp (e.ring.zip timers) = true))
  | .readToken | .readSeed | .dispatch => .isTrue trivial

def Acknowledged (e : Exchange) : Prop :=
  ∀ command, e.caller = .returned command true → ∃ t ∈ e.dispatched, t.order.asks command.order

def Stream : List Piece → Prop
  | [] => True
  | x :: rest =>
    x.index < x.command.frame.data.length ∧
      (if x.isLast then ∀ y ∈ rest.head?, y.index = 0
        else rest.head? = some ⟨x.command, x.index + 1⟩) ∧
      Stream rest

theorem stream_frame (command : SyncCommand) (sent left : Nat)
    (whole : sent + left = command.frame.data.length) :
    Stream ((List.range' sent left).map fun index => ⟨command, index⟩) := by
  induction left generalizing sent with
  | zero => trivial
  | succ left ih =>
    rw [List.range'_succ, List.map_cons]
    refine ⟨by simp only; omega, ?_, ih (sent + 1) (by omega)⟩
    cases left with
    | zero => simp [Piece.isLast, ← whole]
    | succ left =>
      have inside : ¬ sent + 1 = command.frame.data.length := by omega
      simp [Piece.isLast, inside, List.range'_succ]

theorem stream_append (first more : List Piece) (stream : Stream first)
    (starts : ∀ y ∈ more.head?, y.index = 0) (others : Stream more) : Stream (first ++ more) := by
  induction first with
  | nil => exact others
  | cons x rest ih =>
    obtain ⟨inside, next, later⟩ := stream
    refine ⟨inside, ?_, ih later⟩
    cases rest with
    | nil =>
      split at next
      next last => simpa [last] using starts
      next => simp at next
    | cons y rest => exact next

def Expects (p : Parser) (words : List Piece) : Prop :=
  p.nextTPstep = .headerDetection ∨ ∃ x ∈ words.head?, p.Reads x.command.frame x.index

theorem SyncCommand.frame_long (command : SyncCommand) : 6 ≤ command.frame.data.length := by
  have size := command.size
  rw [command.frame.data_length]
  change 6 ≤ command.sentWords.length + 4
  omega

structure Handled (allowed : SyncCommand → Prop) (before after : Chandler) : Prop where
  token : after.randomToken = before.randomToken
  seed : after.randomTokenSeed = before.randomTokenSeed
  pending : after.protocolPending = before.protocolPending ∧
      after.pendingProtocol = before.pendingProtocol ∨
    after.protocolPending = true ∧
      ∃ command, allowed command ∧ after.pendingProtocol.Carries command.frame

theorem handle_handled (rp : Chandler) (parser : Parser) (t : TransmissionProtocol)
    (command : SyncCommand) (frame : t.Carries command.frame) :
    Handled (· = command) rp ({ rp with parser := parser }.handleProtocolCommand t) := by
  unfold Chandler.handleProtocolCommand
  split
  · exact ⟨rfl, rfl, .inl ⟨rfl, rfl⟩⟩
  · exact ⟨rfl, rfl, .inr ⟨rfl, command, rfl, frame.copy _⟩⟩

theorem consume_handled (rp : Chandler) (timer : UInt32) (x : Piece) (rest : List Piece)
    (stream : Stream (x :: rest)) (expects : Expects rp.parser (x :: rest))
    (true_ : x.index = 0 ∨ rp.parser.step timer ≠ .headerDetection ∨
      addrLsb x.sample ≠ protocolHeader) :
    ∃ after, rp.consumeRom3Sample timer x.sample = some after ∧ Expects after.parser rest ∧
      Handled (· = x.command) rp after := by
  obtain ⟨inside, next, -⟩ := stream
  have word : addrLsb x.sample = x.command.frame.data.getD x.index 0 := by
    rw [Piece.sample, addrLsb_captured, SyncCommand.frame_data]
  have same (q : Parser) : Handled (· = x.command) rp { rp with parser := q } :=
    ⟨rfl, rfl, .inl ⟨rfl, rfl⟩⟩
  unfold Chandler.consumeRom3Sample
  by_cases here : rp.parser.step timer = .headerDetection
  · by_cases first : x.index = 0
    · obtain ⟨q, parsed, reads, -⟩ := rp.parser.parse_header timer x.command.frame here
      rw [word, first, parsed]
      refine ⟨{ rp with parser := q }, rfl, .inr ?_, same q⟩
      have notLast : x.isLast = false := by
        have long := x.command.frame_long
        simp only [Piece.isLast, first, decide_eq_false_iff_not]
        omega
      rw [notLast, if_neg Bool.false_ne_true, first] at next
      exact ⟨_, next, reads⟩
    · have other : addrLsb x.sample ≠ protocolHeader := by
        rcases true_ with zero | goesOn | other
        · exact absurd zero first
        · exact absurd here goesOn
        · exact other
      obtain ⟨q, parsed, detects⟩ := rp.parser.parse_skips timer _ here other
      rw [parsed]
      exact ⟨{ rp with parser := q }, rfl, .inl detects, same q⟩
  · have inTime : rp.parser.step timer = rp.parser.nextTPstep :=
      (Parser.step_or timer rp.parser).resolve_left here
    have reads : rp.parser.Reads x.command.frame x.index := by
      rcases expects with detects | ⟨y, isFirst, reads⟩
      · exact absurd (inTime.trans detects) here
      · obtain rfl := Option.some.inj isFirst
        exact reads
    cases at_ : x.index with
    | zero =>
      rw [at_] at reads
      exact absurd (inTime.trans reads) here
    | succ index =>
      rw [at_] at reads inside next
      by_cases last : index + 2 = x.command.frame.data.length
      · obtain ⟨q, t, frame, detects, parsed⟩ :=
          rp.parser.parse_last timer x.command.frame index reads inTime last
        rw [if_pos x.command.frame_check] at parsed
        rw [word, at_, parsed]
        refine ⟨_, rfl, .inl ?_, handle_handled rp q t x.command frame⟩
        simp only [Chandler.handleProtocolCommand]
        split <;> exact detects
      · obtain ⟨q, parsed, further, -⟩ :=
          rp.parser.parse_within timer x.command.frame index reads inTime (by omega)
        rw [word, at_, parsed]
        refine ⟨{ rp with parser := q }, rfl, .inr ?_, same q⟩
        have notLast : x.isLast = false := by
          simp only [Piece.isLast, at_, decide_eq_false_iff_not]
          exact last
        rw [notLast, if_neg Bool.false_ne_true] at next
        exact ⟨_, next, further⟩

theorem Handled.trans {allowed further : SyncCommand → Prop} {before middle after : Chandler}
    (first : Handled allowed before middle) (second : Handled further middle after) :
    Handled (fun command => allowed command ∨ further command) before after := by
  refine ⟨second.token.trans first.token, second.seed.trans first.seed, ?_⟩
  rcases second.pending with ⟨pending, same⟩ | ⟨pending, command, allowed_, frame⟩
  · rcases first.pending with ⟨pending', same'⟩ | ⟨pending', command, allowed_, frame⟩
    · exact .inl ⟨pending.trans pending', same.trans same'⟩
    · exact .inr ⟨pending.trans pending', command, .inl allowed_, same ▸ frame⟩
  · exact .inr ⟨pending, command, .inr allowed_, frame⟩

theorem poll_handled (rp : Chandler) (ring more : List Piece) (timers : List UInt32)
    (count : timers.length = ring.length) (stream : Stream (ring ++ more))
    (expects : Expects rp.parser (ring ++ more)) (true_ : trueHeaders rp (ring.zip timers) = true) :
    ∃ after, Exchange.commemulPoll rp (ring.zip timers) = some after ∧ Expects after.parser more ∧
      Handled (fun command => ∃ x ∈ ring, x.command = command) rp after := by
  induction ring generalizing rp timers with
  | nil => exact ⟨rp, by simp [Exchange.commemulPoll], expects, rfl, rfl, .inl ⟨rfl, rfl⟩⟩
  | cons x rest ih =>
    cases timers with
    | nil => simp at count
    | cons timer timers =>
      simp only [List.zip_cons_cons, trueHeaders, Bool.and_eq_true, Bool.or_eq_true,
        decide_eq_true_eq] at true_
      obtain ⟨header, later⟩ := true_
      obtain ⟨middle, consumed, expects', one⟩ :=
        consume_handled rp timer x (rest ++ more) stream expects (or_assoc.mp header)
      rw [consumed] at later
      obtain ⟨after, polled, expectsMore, others⟩ :=
        ih middle timers (by simpa using count) stream.2.2 expects' later
      refine ⟨after, ?_, expectsMore, ?_⟩
      · simp only [List.zip_cons_cons, Exchange.commemulPoll, consumed, Option.bind_some, polled]
      · obtain ⟨token, seed, pending⟩ := one.trans others
        refine ⟨token, seed, pending.imp_right fun ⟨now, command, origin, frame⟩ =>
          ⟨now, command, ?_, frame⟩⟩
        rcases origin with rfl | ⟨y, member, rfl⟩
        · exact ⟨x, List.mem_cons_self, rfl⟩
        · exact ⟨y, List.mem_cons_of_mem _ member, rfl⟩

theorem TransmissionProtocol.Carries.order {t : TransmissionProtocol} {command : SyncCommand}
    (frame : t.Carries command.frame) : t.order = command.order := by
  rw [TransmissionProtocol.order, SyncCommand.order, frame.token, frame.commandId, frame.words]
  rfl

theorem order_retoken (command : SyncCommand) (token : UInt32) (o : Order) :
    o.asks ({ command with d2 := token } : SyncCommand).order = o.asks command.order := by
  have parameters : ({ command with d2 := token } : SyncCommand).sentWords.drop 2 =
      command.sentWords.drop 2 := by
    rw [SyncCommand.sentWords_eq, SyncCommand.sentWords_eq, List.drop_take, List.drop_take]
    rfl
  simp only [Order.asks, SyncCommand.order, parameters]
  rfl

theorem asks_self (command : SyncCommand) : command.order.asks command.order = true := by
  simp [Order.asks]

-- A try with its token: its command was dispatched, or the token slot does not hold the token and
-- no other command in flight can bring it there, or no other command is in flight at all and nothing was
-- dispatched yet.
def Trying (command : SyncCommand) (matched : Bool) (e : Exchange) : Prop :=
  (∃ t ∈ e.dispatched, t.order.asks command.order = true) ∨
  (matched = false ∧ readLong e.rp.randomToken ≠ command.d2 ∧
    ∀ o ∈ e.inFlight, o.asks command.order = true ∨ o.token ≠ command.d2) ∨
  (readLong e.rp.randomTokenSeed = command.d2 ∧ ∀ o ∈ e.inFlight, o.asks command.order = true)

theorem Trying.mono {command : SyncCommand} {matched : Bool} {e after : Exchange}
    (trying : Trying command matched e) (token : after.rp.randomToken = e.rp.randomToken)
    (seed : after.rp.randomTokenSeed = e.rp.randomTokenSeed)
    (dispatched : after.dispatched = e.dispatched)
    (fewer : ∀ o ∈ after.inFlight, o ∈ e.inFlight ∨ o.asks command.order = true) :
    Trying command matched after := by
  rcases trying with done | ⟨open_, absent, others⟩ | ⟨unchanged, own⟩
  · exact .inl (by rw [dispatched]; exact done)
  · refine .inr (.inl ⟨open_, by rw [token]; exact absent, fun o member => ?_⟩)
    rcases fewer o member with old | asks
    · exact others o old
    · exact .inl asks
  · refine .inr (.inr ⟨by rw [seed]; exact unchanged, fun o member => ?_⟩)
    rcases fewer o member with old | asks
    · exact own o old
    · exact asks

theorem beginTry_trying (command : SyncCommand) (tries : Nat) (e : Exchange)
    (own : e.ownToken command = true) :
    Trying { command with d2 := readLong e.rp.randomTokenSeed } false (e.beginTry command tries) := by
  have flight : (e.beginTry command tries).inFlight = e.inFlight := rfl
  simp only [Exchange.ownToken, Bool.or_eq_true, Bool.and_eq_true, List.all_eq_true,
    decide_eq_true_eq] at own
  rcases own with alone | ⟨differs, others⟩
  · exact .inr (.inr ⟨rfl, fun o member => by rw [order_retoken]; exact alone o member⟩)
  · exact .inr (.inl ⟨rfl, differs, fun o member => by rw [order_retoken]; exact others o member⟩)

theorem dispatch_trying (command : SyncCommand) (matched : Bool) (e after : Exchange)
    (trying : Trying command matched e) (ring : after.ring = e.ring)
    (rp : after.rp = e.rp.dispatch.1)
    (dispatched : after.dispatched = e.dispatched ++ e.rp.dispatch.2.toList) :
    Trying command matched after := by
  obtain ⟨cleared, effect⟩ := e.rp.dispatch_cases
  rw [← rp] at cleared effect
  have flight (o : Order) (member : o ∈ after.inFlight) : o ∈ e.inFlight := by
    simp only [Exchange.inFlight, cleared, ring, Bool.false_eq_true, if_false, List.nil_append] at member
    exact List.mem_append_right _ member
  rcases effect with ⟨token, seed, none_⟩ | ⟨pending, token, called⟩
  · refine trying.mono token seed ?_ fun o member => .inl (flight o member)
    simpa [none_] using dispatched
  · have inside : e.rp.pendingProtocol.order ∈ e.inFlight := by simp [Exchange.inFlight, pending]
    have new : e.rp.pendingProtocol ∈ after.dispatched := by simp [dispatched, called]
    rcases trying with ⟨t, member, asks⟩ | ⟨open_, absent, others⟩ | ⟨unchanged, own⟩
    · refine .inl ⟨t, ?_, asks⟩
      rw [dispatched]
      exact List.mem_append_left _ member
    · -- The token slot takes the token of the protocol that was pending.
      rcases others _ inside with asks | foreign
      · exact .inl ⟨_, new, asks⟩
      · refine .inr (.inl ⟨open_, ?_, fun o member => others o (flight o member)⟩)
        rw [token]
        exact foreign
    · exact .inl ⟨_, new, own _ inside⟩

theorem Caller.pieces_sentUpTo (command : SyncCommand) (index tries : Nat) :
    (Caller.sentUpTo command index tries).pieces =
      (List.range' index (command.frame.data.length - index)).map fun index => ⟨command, index⟩ := by
  unfold sentUpTo
  split
  next last => simp [pieces, last]
  next => rfl

def Caller.Honest (e : Exchange) : Caller → Prop
  | .idle => True
  | .sending command _ _ | .polling command _ => Trying command false e
  | .matched command _ => Trying command true e
  | .returned command ok => ok = true → ∃ t ∈ e.dispatched, t.order.asks command.order = true

theorem Caller.Honest.imp {caller : Caller} {e after : Exchange} (honest : caller.Honest e)
    (trying : ∀ command matched, Trying command matched e → Trying command matched after)
    (kept : ∀ t ∈ e.dispatched, t ∈ after.dispatched) : caller.Honest after := by
  cases caller with
  | idle => trivial
  | sending command sent tries => exact trying _ _ honest
  | polling command tries => exact trying _ _ honest
  | matched command tries => exact trying _ _ honest
  | returned command ok =>
    intro success
    obtain ⟨t, member, asks⟩ := honest success
    exact ⟨t, kept t member, asks⟩

theorem Expects.append {p : Parser} {first : List Piece} (expects : Expects p first)
    (more : List Piece) : Expects p (first ++ more) := by
  refine expects.imp_right fun ⟨x, front, reads⟩ => ⟨x, ?_, reads⟩
  obtain ⟨rest, rfl⟩ := List.head?_eq_some_iff.mp front
  rfl

theorem stream_right (first more : List Piece) (stream : Stream (first ++ more)) : Stream more := by
  induction first with
  | nil => exact stream
  | cons x rest ih => exact ih stream.2.2

namespace Exchange

structure Sound (e : Exchange) : Prop where
  stream : Stream (e.ring ++ e.caller.pieces)
  expects : Expects e.rp.parser (e.ring ++ e.caller.pieces)
  sending : ∀ command sent tries, e.caller = .sending command sent tries →
    sent < command.frame.data.length
  honest : e.caller.Honest e

theorem move_sound (e : Exchange) (caller : Caller) (sound : e.Sound) (before : e.caller.pieces = [])
    (after : caller.pieces = []) (silent : ∀ command sent tries, caller ≠ .sending command sent tries)
    (honest : caller.Honest { e with caller := caller }) : Sound { e with caller := caller } := by
  have stream := sound.stream
  have expects := sound.expects
  rw [before, ← after] at stream expects
  exact ⟨stream, expects, fun command sent tries here => absurd here (silent command sent tries), honest⟩

theorem beginTry_sound (e : Exchange) (command : SyncCommand) (tries : Nat) (sound : e.Sound)
    (before : e.caller.pieces = []) (dispatched : List TransmissionProtocol)
    (own : e.ownToken command = true) :
    Sound ({ e with dispatched := dispatched }.beginTry command tries) := by
  have stream := sound.stream
  have expects := sound.expects
  rw [before, List.append_nil] at stream expects
  refine ⟨?_, expects.append _, fun _ _ _ here => ?_, beginTry_trying command tries _ own⟩
  · refine stream_append e.ring _ stream ?_ (stream_frame _ 0 _ (Nat.zero_add _))
    intro y front
    obtain ⟨rest, frame⟩ := List.head?_eq_some_iff.mp front
    obtain ⟨index, others, start, rfl, -⟩ := List.map_eq_cons_iff.mp frame
    have first := congrArg List.head? start
    rw [List.head?_range'] at first
    split at first
    · simp at first
    · exact (Option.some.inj first).symm
  · obtain ⟨rfl, rfl, rfl⟩ := Caller.sending.inj here
    exact Nat.lt_of_lt_of_le (by decide) (SyncCommand.frame_long _)

theorem word_sound (e : Exchange) (command : SyncCommand) (sent tries : Nat) (sound : e.Sound)
    (here : e.caller = .sending command sent tries) (room : e.ring.length + 1 ≠ commRingWords) :
    Sound { e with
      ring := capture ⟨command, sent⟩ e.ring, caller := .sentUpTo command (sent + 1) tries } := by
  have inside := sound.sending command sent tries here
  have trying : Trying command false e := by
    have honest := sound.honest
    rw [here] at honest
    exact honest
  have captured_ : capture ⟨command, sent⟩ e.ring = e.ring ++ [⟨command, sent⟩] := if_neg room
  -- The word changes sides: from what is still to be sent to what is captured.
  have words : e.ring ++ e.caller.pieces =
      capture ⟨command, sent⟩ e.ring ++ (Caller.sentUpTo command (sent + 1) tries).pieces := by
    have count : command.frame.data.length - sent = command.frame.data.length - (sent + 1) + 1 := by omega
    rw [captured_, Caller.pieces_sentUpTo, here, List.append_assoc]
    simp only [Caller.pieces, count, List.range'_succ, List.map_cons, List.singleton_append]
  have further (caller : Caller) : Trying command false
      { e with ring := capture ⟨command, sent⟩ e.ring, caller := caller } := by
    refine trying.mono rfl rfl rfl fun o member => ?_
    simp only [inFlight, captured_, List.map_append, List.map_cons, List.map_nil] at member
    rw [← List.append_assoc] at member
    rcases List.mem_append.mp member with old | own
    · exact .inl old
    · right
      rw [List.mem_singleton.mp own]
      exact asks_self command
  refine ⟨words ▸ sound.stream, words ▸ sound.expects, fun c i left at_ => ?_, ?_⟩
  · simp only [Caller.sentUpTo] at at_
    split at at_
    next => simp at at_
    next more =>
      obtain ⟨rfl, rfl, rfl⟩ := Caller.sending.inj at_
      omega
  · simp only [Caller.sentUpTo]
    split
    next => exact further _
    next => exact further _

theorem poll_sound (e : Exchange) (timers : List UInt32) (sound : e.Sound)
    (count : timers.length = e.ring.length) (true_ : trueHeaders e.rp (e.ring.zip timers) = true)
    (rp : Chandler) (polled : commemulPoll e.rp (e.ring.zip timers) = some rp) :
    Sound { e with rp := rp, ring := [], handling := true } := by
  obtain ⟨after, polled', expects, token, seed, pending⟩ :=
    poll_handled e.rp e.ring e.caller.pieces timers count sound.stream sound.expects true_
  obtain rfl : after = rp := Option.some.inj (polled'.symm.trans polled)
  refine ⟨stream_right _ _ sound.stream, expects, sound.sending, ?_⟩
  refine sound.honest.imp (fun command matched trying => ?_) fun t member => member
  refine trying.mono token seed rfl fun o member => .inl ?_
  simp only [inFlight, List.map_nil, List.append_nil] at member
  rcases pending with ⟨still, same⟩ | ⟨-, command', ⟨x, inRing, rfl⟩, frame⟩
  · rw [still, same] at member
    exact List.mem_append_left _ member
  · -- What is pending now was in the ring before.
    refine List.mem_append_right _ (List.mem_map.mpr ⟨x, inRing, ?_⟩)
    split at member
    · rw [← frame.order]
      exact (List.mem_singleton.mp member).symm
    · simp at member

theorem next_sound (e after : Exchange) (label : ExchangeLabel) (sound : e.Sound)
    (meets : ownTokens e label) (step : e.next label = some after) : after.Sound := by
  have honest := sound.honest
  cases label with
  | issue command =>
    simp only [next, Option.ite_none_right_eq_some, Option.some.injEq] at step
    obtain ⟨free, rfl⟩ := step
    have between : e.caller.pieces = [] := by
      cases here : e.caller with
      | sending => simp [here, Caller.isFree] at free
      | _ => rfl
    exact beginTry_sound e command cmdRetriesCount sound between [] meets
  | word =>
    simp only [next] at step
    split at step
    next command sent tries here =>
      obtain rfl := Option.some.inj step
      exact word_sound e command sent tries sound here meets
    next => simp at step
  | readToken =>
    simp only [next] at step
    split at step
    next command tries here =>
      rw [here] at honest
      have between : e.caller.pieces = [] := by rw [here]; rfl
      split at step
      next matches_ =>
        obtain rfl := Option.some.inj step
        refine move_sound e _ sound between rfl (by simp) ?_
        rcases honest with done | ⟨-, absent, -⟩ | own
        · exact .inl done
        · exact absurd matches_ absent
        · exact .inr (.inr own)
      next => exact Option.some.inj step ▸ sound
    next => simp at step
  | readSeed =>
    simp only [next] at step
    split at step
    next command tries here =>
      rw [here] at honest
      have between : e.caller.pieces = [] := by rw [here]; rfl
      split at step
      next =>
        obtain rfl := Option.some.inj step
        refine move_sound e _ sound between rfl (by simp) ?_
        rcases honest with done | ⟨open_, -⟩ | own
        · exact .inl done
        · simp at open_
        · exact .inr (.inr own)
      next changed =>
        obtain rfl := Option.some.inj step
        refine move_sound e _ sound between rfl (by simp) fun _ => ?_
        rcases honest with done | ⟨open_, -⟩ | ⟨unchanged, -⟩
        · exact done
        · simp at open_
        · exact absurd unchanged changed
    next => simp at step
  | timeout =>
    simp only [next] at step
    split at step
    next command tries here =>
      obtain rfl := Option.some.inj step
      have own : e.ownToken command = true := by
        have retries := meets
        simp only [ownTokens, retriesOwn, here] at retries
        exact retries
      exact beginTry_sound e command tries sound (by rw [here]; rfl) e.dispatched own
    next command here =>
      obtain rfl := Option.some.inj step
      exact move_sound e _ sound (by rw [here]; rfl) rfl (by simp) (by simp [Caller.Honest])
    next => simp at step
  | poll timers =>
    simp only [next, Option.ite_none_right_eq_some, Option.map_eq_some_iff] at step
    obtain ⟨⟨-, count⟩, rp, polled, rfl⟩ := step
    exact poll_sound e timers sound count meets rp polled
  | dispatch =>
    simp only [next, Option.ite_none_right_eq_some, Option.some.injEq] at step
    obtain ⟨-, rfl⟩ := step
    refine ⟨sound.stream, ?_, sound.sending, ?_⟩
    · simp only
      rw [Expects, Chandler.parser_dispatch]
      exact sound.expects
    · refine honest.imp (fun command matched trying => ?_) fun t member => ?_
      · exact dispatch_trying command matched e _ trying rfl rfl rfl
      · exact List.mem_append_left _ member

end Exchange

theorem start_sound (bootUs : UInt64) : Exchange.Sound { rp := .init bootUs } where
  stream := trivial
  expects := .inl rfl
  sending := by simp
  honest := trivial

theorem sendSync_acknowledged (bootUs : UInt64) (labels : List ExchangeLabel) (e : Exchange)
    (run : exchange.Run ownTokens { rp := .init bootUs } labels e) : Acknowledged e := by
  have sound : e.Sound :=
    run.invariant Exchange.Sound (start_sound bootUs) fun e label after sound meets step =>
      Exchange.next_sound e after label sound meets step
  intro command here
  have honest := sound.honest
  rw [here] at honest
  exact honest rfl

def keystroke (key : UInt32) : SyncCommand where
  toRegisters := ⟨1, 4, 0, key, 0, 0, 0⟩
  even := rfl
  bounded := UInt16.le_iff_toNat_le.mpr (by simp)

def keystrokeWords : List ExchangeLabel := List.replicate 8 .word

def lateAnswer : List ExchangeLabel :=
  [.issue (keystroke 0x61)] ++ keystrokeWords ++ [.readToken, .timeout] ++ keystrokeWords ++
    [.poll (List.replicate 16 70000), .dispatch, .readToken, .readSeed, .issue (keystroke 0x62)] ++
    keystrokeWords ++ [.poll (List.replicate 8 90000), .dispatch, .readToken, .readSeed]

theorem sendSync_acknowledged_late :
    ∃ e, exchange.exec ownTokens { rp := .init 5 } lateAnswer = some e ∧
      (∃ command, e.caller = .returned command true) ∧ Acknowledged e := by
  have checked : (exchange.exec ownTokens { rp := .init 5 } lateAnswer).any (fun e =>
      match e.caller with
      | .returned _ ok => ok
      | _ => false) = true := by decide +kernel
  obtain ⟨e, executed, succeeded⟩ := (Option.any_eq_true _ _).mp checked
  refine ⟨e, executed, ?_, sendSync_acknowledged 5 _ e (Machine.run_of_exec executed)⟩
  split at succeeded
  next command ok here => exact ⟨command, succeeded ▸ here⟩
  next => simp at succeeded

def unanswered : List ExchangeLabel := keystrokeWords ++ [.timeout]

-- The tries of one command time out, the next command takes the same token, and the RP drains all
-- of it in one go.
def sharedToken : List ExchangeLabel :=
  [.issue (keystroke 0x61)] ++ unanswered ++ unanswered ++ unanswered ++ unanswered ++
    [.issue (keystroke 0x62)] ++ keystrokeWords ++
    [.poll (List.replicate 40 70000), .dispatch, .readToken, .readSeed]

theorem sharedToken_falselyAcknowledged :
    ¬ ∀ (bootUs : UInt64) (labels : List ExchangeLabel) (e : Exchange),
      exchange.Run Machine.anyStep { rp := .init bootUs } labels e → Acknowledged e := by
  intro always
  have checked : (exchange.exec Machine.anyStep { rp := .init 5 } sharedToken).any (fun e =>
      match e.caller with
      | .returned command ok => ok && e.dispatched.all fun t => !t.order.asks command.order
      | _ => false) = true := by decide +kernel
  obtain ⟨e, executed, failed⟩ := (Option.any_eq_true _ _).mp checked
  have acknowledged := always 5 _ e (Machine.run_of_exec executed)
  split at failed
  next command ok here =>
    simp only [Bool.and_eq_true, List.all_eq_true, Bool.not_eq_true'] at failed
    obtain ⟨rfl, never⟩ := failed
    obtain ⟨t, member, asks⟩ := acknowledged command here
    simp [never t member] at asks
  next => simp at failed

end MidiToIp.Command
