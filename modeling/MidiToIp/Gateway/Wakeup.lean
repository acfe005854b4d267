import Mathlib.Data.List.Basic
import MidiToIp.Gateway.Bridge

set_option autoImplicit false

namespace MidiToIp.Gateway

open Octets Machines Framing

theorem partition_parts (separator bytes before behind : Bytes)
    (parts : partition separator bytes = some (before, behind)) :
    bytes = before ++ separator ++ behind := by
  induction bytes generalizing before with
  | nil =>
    simp only [partition, Option.ite_none_right_eq_some, Option.some.injEq, Prod.mk.injEq] at parts
    obtain ⟨rfl, rfl, rfl⟩ := parts
    rfl
  | cons b rest ih =>
    simp only [partition] at parts
    split_ifs at parts with here
    · obtain ⟨behind', whole⟩ := List.isPrefixOf_iff_prefix.mp here
      simp only [Option.some.injEq, Prod.mk.injEq] at parts
      obtain ⟨rfl, rfl⟩ := parts
      simp [← whole]
    · obtain ⟨⟨first, second⟩, later, same⟩ := Option.map_eq_some_iff.mp parts
      simp only [Prod.mk.injEq] at same
      obtain ⟨rfl, rfl⟩ := same
      simp [ih first later]

theorem wsHandshake_reads (accept buf : Bytes) (reads : List Bytes) (wrapper : WsSocket)
    (opened : wsHandshake accept buf reads = some (.ok wrapper)) :
    wrapper.dec = {} ∧ ∃ read header, read <+: reads ∧
      buf ++ read.flatten = header ++ headerEnd ++ wrapper.initial := by
  fun_induction wsHandshake accept buf reads with
  | case1 buf reads header rest parts refused => simp at opened
  | case2 buf reads header rest parts accepted =>
    simp only [Option.some.injEq, Except.ok.injEq] at opened
    obtain rfl := opened
    exact ⟨rfl, [], header, List.nil_prefix, by simpa using partition_parts _ _ _ _ parts⟩
  | case3 => simp at opened
  | case4 => simp at opened
  | case5 buf chunk later parts more ih =>
    obtain ⟨fresh, read, header, taken, whole⟩ := ih opened
    exact ⟨fresh, chunk :: read, header, by simpa using taken, by simpa using whole⟩

theorem wsHandshake_opened (accept : Bytes) (reads : List Bytes) (trailing : Bytes)
    (initial : ((wsHandshake accept [] reads).bind Except.toOption).map WsSocket.initial =
      some trailing) :
    wsHandshake accept [] reads = some (.ok { initial := trailing }) := by
  obtain ⟨wrapper, opened, rfl⟩ := Option.map_eq_some_iff.mp initial
  obtain ⟨answer, found, accepted⟩ := Option.bind_eq_some_iff.mp opened
  cases answer with
  | error => simp [Except.toOption] at accepted
  | ok wrapper' =>
    obtain rfl := Option.some.inj accepted
    obtain ⟨fresh, -⟩ := wsHandshake_reads _ _ _ _ found
    rw [found, ← fresh]

def WsSocket.decoded (wrapper : WsSocket) (raw : Bytes) : Drained Ws.Frame Ws.WSError UInt8 :=
  (Ws.scanner wrapper.dec.maxPayload).drain (wrapper.dec.buf ++ raw)

def WsSocket.held (wrapper : WsSocket) : List Ws.Frame :=
  (wrapper.decoded wrapper.initial).items.filter isData

-- A read after which the loop of `_WsSocket.recv` ends: undecodable, a close frame, a pong that
-- cannot be sent, or some data.
def endsLoop (sendable : Nat) (decoded : Drained Ws.Frame Ws.WSError UInt8) : Prop :=
  decoded.failed ≠ none ∨ (∃ frame ∈ decoded.items, frame.1 = Ws.opClose) ∨
    sendable < (decoded.items.filter fun frame => frame.1 = Ws.opPing).length ∨
    ∃ frame ∈ decoded.items, isData frame ∧ frame.2 ≠ []

instance (sendable : Nat) (decoded : Drained Ws.Frame Ws.WSError UInt8) :
    Decidable (endsLoop sendable decoded) :=
  inferInstanceAs (Decidable (_ ∨ _ ∨ _ ∨ _))

namespace Bridge

def Blocked (b : Bridge) : Prop :=
  (b.pc = .select ∧ ¬ b.outReadable ∧ ¬ b.sockReadable) ∨ (b.pc = .rawRecv ∧ ¬ b.sockReadable)

instance (b : Bridge) : Decidable b.Blocked := inferInstanceAs (Decidable (_ ∨ _))

structure Awake (b : Bridge) : Prop where
  idle : b.Blocked → b.out = [] ∧ b.wrapper.held = []
  readable : b.pc = .rawRecv → b.sockReadable

/-- The steps that cannot put the bridge to sleep: it enters its loop with no data frame behind
the handshake response, or with more to read, and a read of the socket either ends the wrapper's
loop or leaves something to read. -/
def keepsAwake (b : Bridge) : Label → Prop
  | .enter => b.wrapper.held = [] ∨ b.sockReadable
  | .rawRecv count sendable =>
    endsLoop sendable (b.wrapper.decoded (b.sock.take count)) ∨ count < b.sock.length ∨ b.sockEof
  | _ => True

instance (b : Bridge) (label : Label) : Decidable (b.keepsAwake label) := by
  cases label <;> unfold keepsAwake <;> infer_instance

end Bridge

theorem isData_notControl (frame : Ws.Frame) (data : isData frame = true) :
    frame.1 ≠ Ws.opClose ∧ frame.1 ≠ Ws.opPing := by
  obtain ⟨opcode, payload⟩ := frame
  have known : opcode = Ws.opBinary ∨ opcode = Ws.opCont ∨ opcode = Ws.opText := by
    simpa [isData] using data
  simp only [Ws.opBinary, Ws.opCont, Ws.opText, Ws.opClose, Ws.opPing] at known ⊢
  omega

theorem handleFrames_out (out : Bytes) (frames : List Ws.Frame) :
    (handleFrames out frames).out = some [] ↔
      out = [] ∧ (∀ frame ∈ frames, frame.1 ≠ Ws.opClose) ∧
        ∀ frame ∈ frames, isData frame → frame.2 = [] := by
  induction frames generalizing out with
  | nil => simp [handleFrames]
  | cons frame rest ih =>
    simp only [handleFrames, List.forall_mem_cons]
    by_cases data : isData frame = true
    · have control := isData_notControl frame data
      simp only [data, if_true, ih, List.append_eq_nil_iff]
      tauto
    by_cases ping : frame.1 = Ws.opPing
    · have stays : frame.1 ≠ Ws.opClose := by rw [ping]; decide
      rw [if_neg data, if_pos ping]
      simp only [ih]
      tauto
    rw [if_neg data, if_neg ping]
    by_cases closing : frame.1 = Ws.opClose
    · rw [if_pos closing]
      simp only [reduceCtorEq]
      tauto
    · rw [if_neg closing, ih]
      tauto

theorem handleFrames_pongs (out : Bytes) (frames : List Ws.Frame)
    (open_ : ∀ frame ∈ frames, frame.1 ≠ Ws.opClose) :
    (handleFrames out frames).pongs.length =
      (frames.filter fun frame => frame.1 = Ws.opPing).length := by
  induction frames generalizing out with
  | nil => rfl
  | cons frame rest ih =>
    have here := open_ frame (by simp)
    have later := fun out => ih out fun other member => open_ other (by simp [member])
    unfold handleFrames
    by_cases data : isData frame = true
    · simp [data, (isData_notControl frame data).2, later]
    · by_cases ping : frame.1 = Ws.opPing <;> simp [data, ping, here, later]

theorem endsLoop_handled (sendable : Nat) (decoded : Drained Ws.Frame Ws.WSError UInt8)
    (sound : decoded.failed = none) :
    endsLoop sendable decoded ↔
      sendable < (handleFrames [] decoded.items).pongs.length ∨
        (handleFrames [] decoded.items).out ≠ some [] := by
  rw [Ne, handleFrames_out]
  by_cases closing : ∃ frame ∈ decoded.items, frame.1 = Ws.opClose
  · obtain ⟨frame, member, close⟩ := closing
    have notOpen : ¬ ∀ frame ∈ decoded.items, frame.1 ≠ Ws.opClose := fun stays => stays _ member close
    exact iff_of_true (.inr (.inl ⟨frame, member, close⟩)) (.inr fun quiet => notOpen quiet.2.1)
  · have stays : ∀ frame ∈ decoded.items, frame.1 ≠ Ws.opClose := by
      intro frame member close
      exact closing ⟨frame, member, close⟩
    rw [handleFrames_pongs [] _ stays]
    have someData : (∃ frame ∈ decoded.items, isData frame = true ∧ frame.2 ≠ []) ↔
        ¬ ∀ frame ∈ decoded.items, isData frame = true → frame.2 = [] := by
      push Not
      rfl
    simp only [endsLoop, sound, closing, someData]
    tauto

namespace Bridge

structure Consumed (raw : Bytes) (sendable : Nat) (b after : Bridge) : Prop where
  out : after.out = b.out ∧ after.outEof = b.outEof
  sock : after.sock = b.sock ∧ after.sockEof = b.sockEof
  initial : after.wrapper.initial = b.wrapper.initial
  pc : after.pc = .recv ∨ after.pc = .returned ∨ ∃ data, after.pc = .deliver data
  loops : after.pc = .recv ↔ ¬ endsLoop sendable (b.wrapper.decoded raw)
  settled : after.pc ≠ .returned → after.wrapper.initial = [] → after.wrapper.held = []

theorem consume_consumed (raw : Bytes) (sendable : Nat) (b : Bridge) :
    Consumed raw sendable b (b.consume raw sendable) := by
  unfold consume Ws.FrameDecoder.feed
  cases failed : (b.wrapper.decoded raw).failed with
  | some error =>
    have broken := failed
    unfold WsSocket.decoded at broken
    simp only [broken]
    exact ⟨⟨rfl, rfl⟩, ⟨rfl, rfl⟩, rfl, .inr (.inl rfl), by simp [endsLoop, failed], by simp⟩
  | none =>
    have sound := failed
    unfold WsSocket.decoded at sound
    simp only [sound]
    have ends := endsLoop_handled sendable (b.wrapper.decoded raw) failed
    generalize handled : handleFrames [] (b.wrapper.decoded raw).items = read at ends
    have same := handled
    unfold WsSocket.decoded at same
    simp only [same]
    refine ⟨⟨rfl, rfl⟩, ⟨rfl, rfl⟩, rfl, ?_, ?_, ?_⟩
    · split_ifs
      · exact .inr (.inl rfl)
      · split <;> simp
    · rw [ends]
      split_ifs with unsent
      · simp [unsent]
      · split <;> simp_all
    · intro _ empty
      have settled := (Ws.scanner b.wrapper.dec.maxPayload).scan_kept _ sound
      have nothing := (Ws.scanner b.wrapper.dec.maxPayload).drain_more _ settled
      simp only at empty
      simp [WsSocket.held, WsSocket.decoded, empty, nothing]

def Vigilant (b : Bridge) : Prop :=
  match b.pc with
  | .entering => True
  | .select => b.wrapper.held = [] ∨ b.sockReadable
  | .readOut sockReady => (b.wrapper.held = [] ∨ b.sockReadable) ∧ (sockReady → b.sockReadable)
  | .sendOut _ sockReady => (b.wrapper.held = [] ∨ b.sockReadable) ∧ (sockReady → b.sockReadable)
  | .recv => b.sockReadable
  | .rawRecv => b.wrapper.initial = [] ∧ b.sockReadable
  | .deliver _ => b.wrapper.held = []
  | .returned => True

theorem Vigilant.awake {b : Bridge} (vigilant : b.Vigilant) : b.Awake := by
  constructor
  · rintro (⟨pc, outQuiet, sockQuiet⟩ | ⟨pc, sockQuiet⟩)
    · simp only [Vigilant, pc] at vigilant
      have unread : b.out = [] := by
        by_contra some_
        exact outQuiet (.inl some_)
      exact ⟨unread, vigilant.resolve_right sockQuiet⟩
    · simp only [Vigilant, pc] at vigilant
      exact absurd vigilant.2 sockQuiet
  · intro pc
    simp only [Vigilant, pc] at vigilant
    exact vigilant.2

theorem Vigilant.arrival {b after : Bridge} (vigilant : b.Vigilant) (pc : after.pc = b.pc)
    (wrapper : after.wrapper = b.wrapper) (more : b.sockReadable → after.sockReadable) :
    after.Vigilant := by
  unfold Vigilant at vigilant ⊢
  rw [pc, wrapper]
  cases here : b.pc <;> simp only [here] at vigilant ⊢ <;> grind

theorem Consumed.vigilant {raw : Bytes} {sendable : Nat} {b after : Bridge}
    (consumed : Consumed raw sendable b after) (empty : b.wrapper.initial = [])
    (more : endsLoop sendable (b.wrapper.decoded raw) ∨ b.sockReadable) : after.Vigilant := by
  have settled := consumed.settled
  rw [consumed.initial, empty] at settled
  rcases consumed.pc with loops | done | ⟨data, delivers⟩
  · have readable : b.sockReadable := more.resolve_left (consumed.loops.mp loops)
    simp only [Vigilant, loops]
    rwa [sockReadable, consumed.sock.1, consumed.sock.2]
  · simp [Vigilant, done]
  · simp only [Vigilant, delivers]
    exact settled (by simp [delivers]) rfl

theorem vigilant_step (b : Bridge) (label : Label) (after : Bridge) (vigilant : b.Vigilant)
    (meets : b.keepsAwake label) (step : bridgeMachine.next b label = some after) :
    after.Vigilant := by
  change b.next label = some after at step
  cases label with
  | atariWrites data =>
    simp only [next, Option.ite_none_left_eq_some, Option.some.injEq] at step
    obtain ⟨-, rfl⟩ := step
    exact vigilant.arrival rfl rfl id
  | atariCloses =>
    obtain rfl := Option.some.inj step
    exact vigilant.arrival rfl rfl id
  | serverSends data =>
    simp only [next, Option.ite_none_left_eq_some, Option.some.injEq] at step
    obtain ⟨-, rfl⟩ := step
    refine vigilant.arrival rfl rfl fun readable => ?_
    simp only [sockReadable, List.append_eq_nil_iff, ne_eq] at readable ⊢
    tauto
  | serverCloses =>
    obtain rfl := Option.some.inj step
    exact vigilant.arrival rfl rfl fun _ => .inr rfl
  | enter =>
    simp only [next, Option.ite_none_right_eq_some, Option.some.injEq] at step
    obtain ⟨-, rfl⟩ := step
    exact meets
  | select =>
    simp only [next, stepSelect, Option.ite_none_right_eq_some, Option.some.injEq] at step
    obtain ⟨⟨pc, ready⟩, rfl⟩ := step
    simp only [Vigilant, pc] at vigilant
    by_cases outReady : b.outReadable
    · simp only [Vigilant, outReady, if_true, decide_eq_true_eq]
      exact ⟨vigilant, id⟩
    · simp only [Vigilant, outReady, if_false]
      exact ready.resolve_left outReady
  | readOut =>
    simp only [next, stepReadOut] at step
    split at step
    next sockReady pc =>
      simp only [Vigilant, pc] at vigilant
      split_ifs at step <;> obtain rfl := Option.some.inj step
      · trivial
      · exact vigilant
    next => simp at step
  | sendOut =>
    simp only [next, stepSendOut] at step
    split at step
    next data sockReady pc =>
      simp only [Vigilant, pc] at vigilant
      obtain rfl := Option.some.inj step
      cases sockReady with
      | true => exact vigilant.2 rfl
      | false => exact vigilant.1
    next => simp at step
  | recv sendable =>
    simp only [next, stepRecv] at step
    split_ifs at step with pc initial
    all_goals
      simp only [Vigilant, pc] at vigilant
      obtain rfl := Option.some.inj step
    · exact (consume_consumed _ sendable _).vigilant rfl (.inr vigilant)
    · exact ⟨not_not.mp initial, vigilant⟩
  | rawRecv count sendable =>
    simp only [next, stepRawRecv] at step
    split_ifs at step with pc empty eof bounds
    all_goals
      simp only [Vigilant, pc] at vigilant
      obtain rfl := Option.some.inj step
    · trivial
    · refine (consume_consumed _ sendable _).vigilant vigilant.1 ?_
      -- The decoder settles the read, or there is more to read behind it.
      rcases meets with ends | behind | eof
      · exact .inl ends
      · refine .inr (.inl ?_)
        simp only [ne_eq, List.drop_eq_nil_iff]
        omega
      · exact .inr (.inr eof)
  | deliver =>
    simp only [next, stepDeliver] at step
    split at step
    next data pc =>
      simp only [Vigilant, pc] at vigilant
      obtain rfl := Option.some.inj step
      exact .inl vigilant
    next => simp at step
  | raises =>
    simp only [next, Option.ite_none_left_eq_some, Option.some.injEq] at step
    obtain ⟨-, rfl⟩ := step
    trivial

theorem Vigilant.turnsBack_iff {b read turned : Bridge} {count sendable : Nat}
    (vigilant : b.Vigilant) (reads : b.next (.rawRecv count sendable) = some read)
    (turns : read.next (.recv 0) = some turned) :
    turned.Awake ↔ b.keepsAwake (.rawRecv count sendable) := by
  simp only [next, stepRawRecv] at reads
  split_ifs at reads with pc empty eof bounds
  all_goals obtain rfl := Option.some.inj reads
  · simp [next, stepRecv] at turns
  simp only [Vigilant, pc] at vigilant
  have consumed := consume_consumed (b.sock.take count) sendable { b with sock := b.sock.drop count }
  generalize ({ b with sock := b.sock.drop count }).consume (b.sock.take count) sendable = read
    at consumed turns
  simp only [next, stepRecv] at turns
  split_ifs at turns with loops initial
  · exact absurd (consumed.initial.trans vigilant.1) initial
  obtain rfl := Option.some.inj turns
  have endless := consumed.loops.mp loops
  have readable : read.sockReadable ↔ count < b.sock.length ∨ b.sockEof = true := by
    simp only [sockReadable, consumed.sock.1, consumed.sock.2, ne_eq, List.drop_eq_nil_iff, not_le]
  constructor
  · intro awake
    exact .inr (readable.mp (awake.readable rfl))
  · intro meets
    have more := readable.mpr (meets.resolve_left endless)
    refine ⟨?_, fun _ => more⟩
    rintro (⟨selecting, -⟩ | ⟨-, quiet⟩)
    · simp at selecting
    · exact absurd more quiet

end Bridge

theorem Bridge.start_vigilant (wrapper : WsSocket) : (Bridge.start wrapper).Vigilant := trivial

theorem bridge_awake (wrapper : WsSocket) (labels : List Label) (b : Bridge)
    (run : bridgeMachine.Run Bridge.keepsAwake (Bridge.start wrapper) labels b) :
    b.Awake ∧ ∀ count sendable read turned, b.next (.rawRecv count sendable) = some read →
      read.next (.recv 0) = some turned →
        (turned.Awake ↔ b.keepsAwake (.rawRecv count sendable)) := by
  have vigilant : b.Vigilant := 
    run.invariant Bridge.Vigilant (Bridge.start_vigilant wrapper) Bridge.vigilant_step
  exact ⟨vigilant.awake, fun _ _ _ _ => vigilant.turnsBack_iff⟩

def sampleAccept : Bytes := ascii "s3pPLMBiTxaQ9kYGzzhZRbK+xOo="

theorem bridge_awake_ping :
    ∃ wrapper b, wsHandshake sampleAccept []
          [Ws.handshakeResponse sampleAccept ++ [0x82, 0x01]] = some (.ok wrapper) ∧
        bridgeMachine.exec Bridge.keepsAwake (Bridge.start wrapper)
          [.atariWrites [0x90], .serverSends [0x91, 0x89, 0x00, 0x82, 0x01], .enter, .select,
            .readOut, .sendOut, .recv 0, .recv 0, .rawRecv 1 0, .deliver, .select, .recv 0,
            .rawRecv 2 1, .recv 0, .serverSends [0x92], .rawRecv 3 0, .deliver] = some b ∧
        (b.sent, b.inFd) = ([(Ws.opBinary, [0x90]), (Ws.opPong, [])], [0x91, 0x92]) ∧ b.Awake := by
  have opened : wsHandshake sampleAccept [] [Ws.handshakeResponse sampleAccept ++ [0x82, 0x01]] =
      some (.ok { initial := [0x82, 0x01] }) :=
    wsHandshake_opened _ _ _ (by decide +kernel)
  have checked : (bridgeMachine.exec Bridge.keepsAwake (Bridge.start { initial := [0x82, 0x01] })
      [.atariWrites [0x90], .serverSends [0x91, 0x89, 0x00, 0x82, 0x01], .enter, .select,
        .readOut, .sendOut, .recv 0, .recv 0, .rawRecv 1 0, .deliver, .select, .recv 0,
        .rawRecv 2 1, .recv 0, .serverSends [0x92], .rawRecv 3 0, .deliver]).any
      (fun b => decide ((b.sent, b.inFd) =
        ([(Ws.opBinary, [0x90]), (Ws.opPong, [])], [0x91, 0x92]))) = true := by decide +kernel
  obtain ⟨b, executed, results⟩ := (Option.any_eq_true _ _).mp checked
  exact ⟨_, b, opened, executed, of_decide_eq_true results,
    (bridge_awake _ _ b (Machine.run_of_exec executed)).1⟩

-- The server sends a ping and nothing else; then the Atari writes.
theorem pingOnly_asleep :
    ¬ ∀ (accept : Bytes) (reads : List Bytes) (wrapper : WsSocket) (labels : List Label) (b : Bridge),
      wsHandshake accept [] reads = some (.ok wrapper) →
        bridgeMachine.Run Machine.anyStep (Bridge.start wrapper) labels b → b.Awake := by
  intro always
  have opened : wsHandshake sampleAccept [] [Ws.handshakeResponse sampleAccept] =
      some (.ok { initial := [] }) :=
    wsHandshake_opened _ _ _ (by decide +kernel)
  have checked : (bridgeMachine.exec Machine.anyStep (Bridge.start { initial := [] })
      [.enter, .serverSends [0x89, 0x00], .select, .recv 0, .rawRecv 2 1, .recv 0,
        .atariWrites [0x90]]).any
      (fun b => decide (b.pc = .rawRecv ∧ ¬ b.sockReadable ∧ b.out = [0x90])) = true := by
    decide +kernel
  obtain ⟨b, executed, stuck⟩ := (Option.any_eq_true _ _).mp checked
  obtain ⟨pc, quiet, unread⟩ := of_decide_eq_true stuck
  have awake := always _ _ _ _ b opened (Machine.run_of_exec executed)
  exact quiet (awake.readable pc)

-- The other kind: a data frame behind the handshake response, and nothing more to read.
example : (bridgeMachine.exec Machine.anyStep (Bridge.start { initial := [0x82, 0x01, 0x90] })
    [.enter]).any (fun b => decide (b.Blocked ∧ b.wrapper.held = [(Ws.opBinary, [0x90])])) = true := by
  decide +kernel

end MidiToIp.Gateway
