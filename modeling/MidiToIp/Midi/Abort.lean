import Mathlib.Data.List.Basic
import MidiToIp.Midi.LinkEffects

set_option autoImplicit false

namespace MidiToIp.Midi

open Octets MidiWs Machines

def errAbrt : Err := -13

def LwipCall.touches (pcb : Nat) : LwipCall → Bool
  | .connect id _ _ _ | .write id _ _ | .sndbuf id _ | .output id | .recved id _ | .close id _
  | .abort id => id = pcb
  | .new _ | .resolve _ _ => false

inductive Callback where
  | recv (chain : Option (List Bytes)) (err : Err)
  | connected (err : Err)

namespace Firmware

variable (lwip : Lwip)

def callback (pcb : Nat) (s : Firmware) : Callback → Err × Firmware
  | .recv chain err => s.midiNetRecvCb lwip pcb chain err
  | .connected err => s.midiNetConnectedCb lwip err

/-- What lwIP asks of a callback that returned `result`: an abort of its PCB is reported, and the
PCB is not used after it. -/
def Reported (pcb : Nat) (s : Firmware) (result : Err) (after : Firmware) : Prop :=
  ∃ made, after.calls = s.calls ++ made ∧
    (.abort pcb ∈ made → result = errAbrt ∧ after.link.netPcb = none) ∧
    ∀ earlier later, made = earlier ++ .abort pcb :: later → ∀ c ∈ later, c.touches pcb = false

structure Pongs where
  dec : MidiWsDecoder
  closed : Bool := false
  count : Nat := 0

def ponger : DecoderHost Pongs where
  dec t := t.dec
  setDec d t := { t with dec := d }
  onData _ t := t
  onCtl opcode _ t :=
    if opcode = midiWsOpPing then { t with count := if t.closed then t.count else t.count + 1 }
    else if opcode = midiWsOpClose then { t with dec := midiWsDecoderInit, closed := true }
    else t

def decodePongs : List Bytes → Pongs → Bool × Pongs
  | [], t => (true, t)
  | q :: rest, t =>
    match midiWsDecode ponger t q with
    | (false, t) => (false, t)
    | (true, t) => if t.closed then (true, t) else decodePongs rest t

def afterPongs : Nat → Nat → Nat
  | 0, calls => calls
  | count + 1, calls =>
    let calls := afterPongs count calls
    if lwip.tcpWrite calls = errOk then calls + 2 else calls + 1

def framesCloseAt (s : Firmware) (chain : List Bytes) : Option Nat :=
  let (fine, t) := decodePongs chain { dec := s.wsDec }
  if fine && !t.closed then none else some (afterPongs lwip t.count s.calls.length)

def handshakeClosesAt (s : Firmware) (chain : List Bytes) : Option Nat :=
  let hs := s.wsHsBuf ++ chain.flatten
  if hs.length > hsBufSize then some s.calls.length
  else
    match headerEnd hs with
    | none => none
    | some hdrEnd =>
      if !validUpgrade s.wsKey (hs.take hdrEnd) then some s.calls.length
      else if hdrEnd < hs.length then framesCloseAt lwip s [hs.drop hdrEnd]
      else none

def requestClosesAt (req : Bytes) (s : Firmware) : Option Nat :=
  if req.length ≥ 512 then some s.calls.length
  else if lwip.tcpWrite s.calls.length ≠ errOk then some (s.calls.length + 1)
  else none

def upgradeClosesAt (s : Firmware) : Option Nat :=
  requestClosesAt lwip (upgradeRequest s.cfg (midiWsBase64 (nonce 16 s).1)) s

def closesAt (s : Firmware) : Callback → Option Nat
  | .recv none _ => some s.calls.length
  | .recv (some chain) err =>
    if err ≠ errOk ∨ s.cfg.transport ≠ .ws then none
    else
      match s.link.netState with
      | .wsHandshake => handshakeClosesAt lwip s chain
      | .up => framesCloseAt lwip s chain
      | .down | .connecting => none
  | .connected err =>
    if err ≠ errOk then some s.calls.length
    else if s.cfg.transport = .ws then upgradeClosesAt lwip s
    else none

def closing (pcb : Option Nat) (calls : Nat) : List LwipCall :=
  match pcb with
  | none => []
  | some pcb =>
    .close pcb (lwip.tcpClose calls) ::
      if lwip.tcpClose calls ≠ errOk then [.abort pcb] else []

def Spoke (s after : Firmware) (k : Nat) (closed : Bool) : Prop :=
  ∃ talk, (∀ pcb, .abort pcb ∉ talk) ∧ (s.link.netPcb ≠ none → s.calls.length + talk.length = k) ∧
    if closed then
      after.link.netPcb = none ∧
        after.calls = s.calls ++ talk ++ closing lwip s.link.netPcb (s.calls.length + talk.length)
    else after.link.netPcb = s.link.netPcb ∧ after.calls = s.calls ++ talk

theorem Spoke.start (s : Firmware) : Spoke lwip s s s.calls.length false :=
  ⟨[], by simp, by simp, rfl, by simp⟩

theorem Spoke.same {s after other : Firmware} {k : Nat} {closed : Bool}
    (spoke : Spoke lwip s after k closed) (netPcb : other.link.netPcb = after.link.netPcb)
    (calls : other.calls = after.calls) : Spoke lwip s other k closed := by
  obtain ⟨talk, quiet, count, ends⟩ := spoke
  exact ⟨talk, quiet, count, by rw [netPcb, calls]; exact ends⟩

theorem midiNetReset_calls (s : Firmware) :
    (midiNetReset lwip s).link.netPcb = none ∧
      (midiNetReset lwip s).calls = s.calls ++ closing lwip s.link.netPcb s.calls.length := by
  unfold midiNetReset dropPcb closing
  cases held : s.link.netPcb with
  | none => exact ⟨held, (List.append_nil _).symm⟩
  | some pcb =>
    by_cases closes : lwip.tcpClose s.calls.length = errOk
    · simp only [closes, ne_eq, not_true_eq_false, if_false]
      exact ⟨rfl, rfl⟩
    · simp only [closes, ne_eq, not_false_eq_true, if_true]
      exact ⟨rfl, List.append_assoc _ _ _⟩

theorem Spoke.reset {s after : Firmware} {k : Nat} {closed : Bool}
    (spoke : Spoke lwip s after k closed) : Spoke lwip s (midiNetReset lwip after) k true := by
  obtain ⟨netPcb, calls⟩ := midiNetReset_calls lwip after
  obtain ⟨talk, quiet, count, ends⟩ := spoke
  refine ⟨talk, quiet, count, netPcb, ?_⟩
  cases closed with
  | true =>
    rw [calls, ends.1, ends.2]
    simp [closing]
  | false =>
    rw [calls, ends.1, ends.2]
    simp

theorem Spoke.call {s after : Firmware} {k : Nat} (c : LwipCall) (other : ∀ pcb, c ≠ .abort pcb)
    (spoke : Spoke lwip s after k false) : Spoke lwip s (after.call c) (k + 1) false := by
  obtain ⟨talk, quiet, count, netPcb, calls⟩ := spoke
  refine ⟨talk ++ [c], fun pcb member => ?_, fun held => ?_, netPcb, ?_⟩
  · rcases List.mem_append.mp member with earlier | last
    · exact quiet pcb earlier
    · exact other pcb (List.mem_singleton.mp last).symm
  · rw [List.length_append, List.length_singleton, ← count held]
    omega
  · rw [Firmware.call, calls, List.append_assoc]

theorem Spoke.pong {s after : Firmware} {k : Nat} (p : Bytes) (spoke : Spoke lwip s after k false) :
    Spoke lwip s (midiWsSendFrame lwip midiWsOpPong p after)
      (if lwip.tcpWrite k = errOk then k + 2 else k + 1) false := by
  obtain ⟨talk, quiet, count, netPcb, calls⟩ := id spoke
  unfold midiWsSendFrame
  cases held : s.link.netPcb with
  | none =>
    simp only [netPcb, held]
    exact ⟨talk, quiet, by simp [held], netPcb, calls⟩
  | some pcb =>
    have masked : Spoke lwip s (midiWsMaskKey after).2 k false := spoke.same lwip rfl rfl
    have length : (midiWsMaskKey after).2.calls.length = k := by
      rw [← count (by simp [held])]
      change after.calls.length = _
      rw [calls, List.length_append]
    simp only [netPcb, held, tcpWrite, length]
    have wrote := masked.call lwip (.write pcb
      (midiWsBuildFrame midiWsOpPong (p.take wsTxChunk) (midiWsMaskKey after).1) (lwip.tcpWrite k))
      (by simp)
    by_cases taken : lwip.tcpWrite k = errOk
    · simp only [taken, if_true] at wrote ⊢
      exact wrote.call lwip (.output pcb) (by simp)
    · simp only [taken, if_false] at wrote ⊢
      exact wrote

structure Answers (s after : Firmware) (t : Pongs) : Prop where
  dec : after.wsDec = t.dec
  spoke : Spoke lwip s after (afterPongs lwip t.count s.calls.length) t.closed
  state : after.link.netState = if t.closed then .down else s.link.netState

theorem host_answers (pcb : Nat) (s : Firmware) :
    Simulates (host lwip pcb) ponger (Answers lwip s) where
  dec := fun _ _ answers => answers.dec
  setDec := fun _ _ _ answers => ⟨rfl, answers.spoke.same lwip rfl rfl, answers.state⟩
  onData := by
    intro after t p answers
    simp only [host, midiWsOnData_effect]
    exact ⟨answers.dec, answers.spoke.same lwip rfl rfl, answers.state⟩
  onCtl := by
    intro after t opcode p answers
    simp only [host, midiWsOnCtl, ponger]
    by_cases ping : opcode = midiWsOpPing
    · rw [if_pos ping, if_pos ping]
      obtain ⟨rand, calls, effect⟩ := midiWsSendFrame_effect lwip midiWsOpPong p after
      have link : (midiWsSendFrame lwip midiWsOpPong p after).link = after.link := by rw [effect]
      have dec : (midiWsSendFrame lwip midiWsOpPong p after).wsDec = after.wsDec := by rw [effect]
      refine ⟨dec.trans answers.dec, ?_, by rw [link]; exact answers.state⟩
      have spoke := answers.spoke
      cases closed : t.closed with
      | false =>
        rw [closed] at spoke
        exact spoke.pong lwip p
      | true =>
        rw [closed] at spoke
        -- The PCB is gone, so the pong is not sent.
        have gone : after.link.netPcb = none := by
          obtain ⟨talk, -, -, ends⟩ := spoke
          exact ends.1
        have unsent : midiWsSendFrame lwip midiWsOpPong p after = after := by
          rw [midiWsSendFrame, gone]
        rw [unsent]
        exact spoke
    · rw [if_neg ping, if_neg ping]
      by_cases close : opcode = midiWsOpClose
      · rw [if_pos close, if_pos close]
        exact ⟨rfl, answers.spoke.reset lwip, rfl⟩
      · rw [if_neg close, if_neg close]
        exact answers

theorem decodePongs_single (q : Bytes) (t : Pongs) : decodePongs [q] t = midiWsDecode ponger t q := by
  rw [decodePongs]
  obtain ⟨fine, t'⟩ := midiWsDecode ponger t q
  cases fine with
  | false => rfl
  | true => cases closed : t'.closed <;> simp [closed, decodePongs]

theorem decodeChain_answers (pcb : Nat) (s : Firmware) (up : s.link.netState = .up)
    (chain : List Bytes) (after : Firmware) (t : Pongs) (opened : t.closed = false)
    (answers : Answers lwip s after t) :
    (decodeChain lwip pcb chain after).1 = (decodePongs chain t).1 ∧
      Answers lwip s (decodeChain lwip pcb chain after).2 (decodePongs chain t).2 := by
  induction chain generalizing after t with
  | nil => exact ⟨rfl, answers⟩
  | cons q rest ih =>
    obtain ⟨same, next⟩ := (host_answers lwip pcb s).midiWsDecode_related after t q answers
    unfold decodeChain decodePongs
    generalize midiWsDecode (host lwip pcb) after q = decoded at same next ⊢
    generalize midiWsDecode ponger t q = ponged at same next ⊢
    obtain ⟨fine, after'⟩ := decoded
    obtain ⟨fine', t'⟩ := ponged
    obtain rfl : fine = fine' := same
    cases fine with
    | false => exact ⟨rfl, next⟩
    | true =>
      have state := next.state
      simp only at state ⊢
      cases closed : t'.closed with
      | true =>
        have down : after'.link.netState ≠ .up := by simp [state, closed]
        rw [if_pos down, if_pos rfl]
        exact ⟨rfl, next⟩
      | false =>
        have still : ¬ after'.link.netState ≠ .up := by simp [state, closed, up]
        rw [if_neg still, if_neg (by simp)]
        exact ih after' t' closed next

def Ends (s after : Firmware) : Option Nat → Prop
  | some k => Spoke lwip s after k true
  | none => ∃ k, Spoke lwip s after k false

theorem Ends.same {s after other : Firmware} {closes : Option Nat} (ends : Ends lwip s after closes)
    (netPcb : other.link.netPcb = after.link.netPcb) (calls : other.calls = after.calls) :
    Ends lwip s other closes := by
  cases closes with
  | some k => exact Spoke.same lwip ends netPcb calls
  | none =>
    obtain ⟨k, spoke⟩ := ends
    exact ⟨k, spoke.same lwip netPcb calls⟩

theorem Ends.moved {s other after : Firmware} {closes : Option Nat} (ends : Ends lwip s after closes)
    (netPcb : s.link.netPcb = other.link.netPcb) (calls : s.calls = other.calls) :
    Ends lwip other after closes := by
  unfold Ends Spoke at *
  rwa [← netPcb, ← calls]

theorem Ends.publish {s after : Firmware} {closes : Option Nat} (ends : Ends lwip s after closes) :
    Ends lwip s (publish after) closes := by
  obtain ⟨shared, effect, -⟩ := publish_effect after
  rw [effect]
  exact ends.same lwip rfl rfl

def settled (decoded : Bool × Firmware) : Firmware :=
  if decoded.1 then decoded.2 else midiNetReset lwip decoded.2

theorem framesCloseAt_ends (s : Firmware) (chain : List Bytes) (decoded : Bool × Firmware)
    (same : decoded.1 = (decodePongs chain { dec := s.wsDec }).1)
    (answers : Answers lwip s decoded.2 (decodePongs chain { dec := s.wsDec }).2) :
    Ends lwip s (settled lwip decoded) (framesCloseAt lwip s chain) := by
  unfold framesCloseAt settled
  generalize decodePongs chain { dec := s.wsDec } = ponged at same answers ⊢
  obtain ⟨fine, after⟩ := decoded
  obtain ⟨fine', t⟩ := ponged
  obtain rfl : fine = fine' := same
  have spoke := answers.spoke
  cases fine with
  | false => exact spoke.reset lwip
  | true =>
    cases closed : t.closed with
    | true =>
      rw [closed] at spoke
      simpa [closed, Ends] using spoke
    | false =>
      rw [closed] at spoke
      simpa [closed, Ends] using ⟨_, spoke⟩

theorem recvFrames_ends (pcb : Nat) (chain : List Bytes) (s : Firmware)
    (up : s.link.netState = .up) :
    Ends lwip s (settled lwip (recvFrames lwip pcb chain s)) (framesCloseAt lwip s chain) := by
  have start : Answers lwip s s { dec := s.wsDec } := ⟨rfl, .start lwip s, rfl⟩
  obtain ⟨same, answers⟩ := decodeChain_answers lwip pcb s up chain s _ rfl start
  have ends := framesCloseAt_ends lwip s chain _ same answers
  unfold recvFrames
  generalize decodeChain lwip pcb chain s = decoded at ends ⊢
  obtain ⟨fine, after⟩ := decoded
  cases fine with
  | false => exact ends
  | true =>
    change Ends lwip s (if after.link.netState = .up then Firmware.publish after else after) _
    split
    · exact Ends.publish lwip ends
    · exact ends

theorem midiWsHandshakeRecv_ends (pcb : Nat) (chain : List Bytes) (s : Firmware) :
    Ends lwip s (settled lwip (midiWsHandshakeRecv lwip pcb chain s))
      (handshakeClosesAt lwip s chain) := by
  have start : Spoke lwip s { s with wsHsBuf := (s.wsHsBuf ++ chain.flatten).take hsBufSize }
      s.calls.length false := (Spoke.start lwip s).same lwip rfl rfl
  unfold midiWsHandshakeRecv handshakeClosesAt
  simp only
  by_cases long : (s.wsHsBuf ++ chain.flatten).length > hsBufSize
  · rw [if_pos long, if_pos long]
    exact start.reset lwip
  rw [if_neg long, if_neg long]
  cases headerEnd (s.wsHsBuf ++ chain.flatten) with
  | none => exact ⟨_, start⟩
  | some hdrEnd =>
    simp only
    cases validUpgrade s.wsKey ((s.wsHsBuf ++ chain.flatten).take hdrEnd) with
    | false => exact start.reset lwip
    | true =>
      simp only [Bool.not_true, Bool.false_eq_true, if_false]
      by_cases more : hdrEnd < (s.wsHsBuf ++ chain.flatten).length
      · rw [if_pos more, if_pos more]
        obtain ⟨up, upIs⟩ : ∃ up, up =
            midiNetMarkUp { s with wsHsBuf := (s.wsHsBuf ++ chain.flatten).take hsBufSize } := ⟨_, rfl⟩
        have same : framesCloseAt lwip s [(s.wsHsBuf ++ chain.flatten).drop hdrEnd] =
            framesCloseAt lwip up [(s.wsHsBuf ++ chain.flatten).drop hdrEnd] := by
          rw [upIs]
          rfl
        rw [same, ← upIs]
        refine Ends.moved lwip (s := up) ?_ (by rw [upIs]; rfl) (by rw [upIs]; rfl)
        have start : Answers lwip up up { dec := up.wsDec } := ⟨rfl, .start lwip up, rfl⟩
        have decoded := (host_answers lwip pcb up).midiWsDecode_related up _
          ((s.wsHsBuf ++ chain.flatten).drop hdrEnd) start
        rw [← decodePongs_single] at decoded
        have ends := framesCloseAt_ends lwip up _ _ decoded.1 decoded.2
        generalize midiWsDecode (host lwip pcb) up _ = result at ends ⊢
        obtain ⟨fine, after⟩ := result
        cases fine with
        | false => exact ends
        | true => exact Ends.publish lwip ends
      · rw [if_neg more, if_neg more]
        exact ⟨_, start.same lwip rfl rfl⟩

theorem recvWs_ends (pcb : Nat) (chain : List Bytes) (s : Firmware) (closes : Option Nat)
    (ends : Ends lwip s (settled lwip (recvByState lwip pcb chain s)) closes) :
    Ends lwip s (recvWs lwip pcb chain s) closes := by
  unfold recvWs
  generalize recvByState lwip pcb chain s = result at ends ⊢
  obtain ⟨fine, after⟩ := result
  cases fine with
  | false => exact ends
  | true =>
    change Ends lwip s after closes at ends
    simp only
    split
    next alive =>
      cases closes with
      | none =>
        obtain ⟨k, spoke⟩ := ends
        exact ⟨_, spoke.call lwip (.recved pcb chain.flatten.length) (by simp)⟩
      | some k =>
        -- A link that was reset has no PCB to acknowledge data on.
        obtain ⟨talk, -, -, gone, -⟩ := ends
        exact absurd gone alive.2
    next => exact ends

theorem recvTcp_ends (pcb : Nat) (chain : List Bytes) (s : Firmware) :
    Ends lwip s (recvTcp pcb chain s) none := by
  have stored : Ends lwip s (midiWsOnData pcb chain.flatten s) none := by
    rw [midiWsOnData_effect]
    exact ⟨_, (Spoke.start lwip s).same lwip rfl rfl⟩
  obtain ⟨k, spoke⟩ := Ends.publish lwip stored
  exact ⟨_, spoke.call lwip (.recved pcb chain.flatten.length) (by simp)⟩

theorem Ends.idle {s after : Firmware} (closes : Option Nat) (unheld : s.link.netPcb = none)
    (netPcb : after.link.netPcb = none) (calls : after.calls = s.calls) :
    Ends lwip s after closes := by
  cases closes with
  | none => exact ⟨s.calls.length, [], by simp, by simp, by rw [unheld]; exact netPcb, by simpa using calls⟩
  | some k => exact ⟨[], by simp, by simp [unheld], netPcb, by simpa [unheld, closing] using calls⟩

theorem sendUpgrade_ends (req : Bytes) (s : Firmware) :
    Ends lwip s (sendUpgrade lwip req s) (requestClosesAt lwip req s) := by
  have start := Spoke.start lwip s
  unfold sendUpgrade requestClosesAt
  cases held : s.link.netPcb with
  | none =>
    obtain ⟨gone, made⟩ := midiNetReset_calls lwip s
    refine Ends.idle lwip _ held gone ?_
    rw [made, held]
    exact List.append_nil _
  | some pcb =>
    simp only
    by_cases long : req.length ≥ 512
    · rw [if_pos long, if_pos long]
      exact start.reset lwip
    rw [if_neg long, if_neg long]
    have wrote := start.call lwip (.write pcb req (lwip.tcpWrite s.calls.length)) (by simp)
    by_cases taken : lwip.tcpWrite s.calls.length = errOk
    · simp only [tcpWrite, taken, ne_eq, not_true_eq_false, if_false] at wrote ⊢
      exact ⟨_, wrote.call lwip (.output pcb) (by simp)⟩
    · simp only [tcpWrite, taken, ne_eq, not_false_eq_true, if_true]
      exact wrote.reset lwip

theorem midiWsStartHandshake_sends (s : Firmware) :
    ∃ shaking : Firmware,
      midiWsStartHandshake lwip s =
          sendUpgrade lwip (upgradeRequest s.cfg (midiWsBase64 (nonce 16 s).1)) shaking ∧
        shaking.link.netPcb = s.link.netPcb ∧ shaking.calls = s.calls := by
  obtain ⟨rand, drawn⟩ := nonce_effect 16 s
  unfold midiWsStartHandshake
  simp only [drawn]
  exact ⟨_, rfl, rfl, rfl⟩

-- With the call named, no tactic tries to compute the request.
theorem midiWsStartHandshake_ends (s : Firmware) (call : Option Nat)
    (closes : upgradeClosesAt lwip s = call) : Ends lwip s (midiWsStartHandshake lwip s) call := by
  obtain ⟨shaking, starts, netPcb, calls⟩ := midiWsStartHandshake_sends lwip s
  rw [starts, ← closes, upgradeClosesAt]
  generalize upgradeRequest s.cfg (midiWsBase64 (nonce 16 s).1) = req
  have same : requestClosesAt lwip req shaking = requestClosesAt lwip req s := by
    rw [requestClosesAt, calls, requestClosesAt]
  rw [← same]
  exact (sendUpgrade_ends lwip req shaking).moved lwip netPcb calls

theorem callback_ends (pcb : Nat) (s : Firmware) (cb : Callback) :
    Ends lwip s (callback lwip pcb s cb).2 (closesAt lwip s cb) := by
  have start := Spoke.start lwip s
  cases cb with
  | recv chain err =>
    cases chain with
    | none => exact start.reset lwip
    | some chain =>
      simp only [callback, midiNetRecvCb, closesAt]
      by_cases failed : err ≠ errOk
      · rw [if_pos failed, if_pos (.inl failed)]
        exact ⟨_, start⟩
      rw [if_neg failed]
      by_cases ws : s.cfg.transport = .ws
      · rw [if_pos ws, if_neg (by simp [ws, not_not.mp failed])]
        apply recvWs_ends
        unfold recvByState
        cases state : s.link.netState with
        | wsHandshake => exact midiWsHandshakeRecv_ends lwip pcb chain s
        | up => exact recvFrames_ends lwip pcb chain s state
        | down | connecting => exact ⟨_, start⟩
      · rw [if_neg ws, if_pos (.inr ws)]
        exact recvTcp_ends lwip pcb chain s
  | connected err =>
    simp only [callback, midiNetConnectedCb, closesAt]
    by_cases failed : err ≠ errOk
    · rw [if_pos failed, if_pos failed]
      exact start.reset lwip
    rw [if_neg failed, if_neg failed]
    by_cases ws : s.cfg.transport = .ws
    · rw [if_pos ws, if_pos ws]
      generalize closes : upgradeClosesAt lwip s = call
      exact midiWsStartHandshake_ends lwip s call closes
    · rw [if_neg ws, if_neg ws]
      exact ⟨_, start.same lwip rfl rfl⟩

theorem callback_result (pcb : Nat) (s : Firmware) (cb : Callback) (k : Nat)
    (closes : closesAt lwip s cb = some k) :
    (callback lwip pcb s cb).1 = errAbrt ↔ cb = .connected errAbrt := by
  cases cb with
  | recv chain err =>
    cases chain with
    | none => simp [callback, midiNetRecvCb, errOk, errAbrt]
    | some chain =>
      by_cases none_ : err ≠ errOk ∨ s.cfg.transport ≠ .ws
      · simp [closesAt, none_] at closes
      · rw [not_or, not_not, not_not] at none_
        simp [callback, midiNetRecvCb, none_.1, none_.2, errOk, errAbrt]
  | connected err =>
    by_cases failed : err ≠ errOk
    · simp [callback, midiNetConnectedCb, failed]
    · rw [not_not] at failed
      have other : (errOk : Err) ≠ errAbrt := by decide
      by_cases ws : s.cfg.transport = .ws <;>
        simp [callback, midiNetConnectedCb, failed, ws, other]

theorem reported_open (pcb : Nat) (s after : Firmware) (result : Err) (k : Nat)
    (spoke : Spoke lwip s after k false) : Reported pcb s result after := by
  obtain ⟨talk, quiet, -, -, calls⟩ := spoke
  refine ⟨talk, calls, fun aborted => absurd aborted (quiet pcb), ?_⟩
  rintro earlier later rfl
  exact absurd (by simp) (quiet pcb)

theorem mem_closing (held : Option Nat) (pcb k : Nat) :
    .abort pcb ∈ closing lwip held k ↔ held = some pcb ∧ lwip.tcpClose k ≠ errOk := by
  cases held with
  | none => simp [closing]
  | some id =>
    by_cases closes : lwip.tcpClose k = errOk
    · simp [closing, closes]
    · simp [closing, closes, eq_comm]

theorem closing_ends (held : Option Nat) (pcb k : Nat) (talk earlier later : List LwipCall)
    (quiet : .abort pcb ∉ talk)
    (split : talk ++ closing lwip held k = earlier ++ .abort pcb :: later) : later = [] := by
  have aborted : .abort pcb ∈ closing lwip held k := by
    have member : LwipCall.abort pcb ∈ talk ++ closing lwip held k := by simp [split]
    exact (List.mem_append.mp member).resolve_left quiet
  obtain ⟨rfl, refused⟩ := (mem_closing lwip held pcb k).mp aborted
  have teardown : talk ++ closing lwip (some pcb) k =
      (talk ++ [.close pcb (lwip.tcpClose k)]) ++ [.abort pcb] := by
    simp [closing, refused]
  rw [teardown] at split
  rcases concat_split _ earlier later _ _ split with ⟨nothing, -⟩ | ⟨rest, -, front⟩
  · exact nothing
  · have early : LwipCall.abort pcb ∈ talk ++ [.close pcb (lwip.tcpClose k)] := by simp [front]
    simp [quiet] at early

theorem reported_closed (pcb : Nat) (s after : Firmware) (result : Err) (k : Nat)
    (spoke : Spoke lwip s after k true) :
    Reported pcb s result after ↔
      (s.link.netPcb = some pcb → lwip.tcpClose k = errOk ∨ result = errAbrt) := by
  obtain ⟨talk, quiet, count, gone, calls⟩ := spoke
  rw [List.append_assoc] at calls
  constructor
  · rintro ⟨made, log, aborted, -⟩ held
    obtain rfl : talk ++ closing lwip s.link.netPcb (s.calls.length + talk.length) = made :=
      List.append_cancel_left (calls.symm.trans log)
    rw [count (by simp [held])] at aborted
    by_cases closes : lwip.tcpClose k = errOk
    · exact .inl closes
    · exact .inr (aborted (List.mem_append_right _ ((mem_closing lwip _ pcb k).mpr ⟨held, closes⟩))).1
  · intro fine
    refine ⟨_, calls, fun member => ?_, fun earlier later split c within => ?_⟩
    · have aborted := (List.mem_append.mp member).resolve_left (quiet pcb)
      obtain ⟨held, refused⟩ := (mem_closing lwip _ pcb _).mp aborted
      rw [count (by simp [held])] at refused
      exact ⟨(fine held).resolve_left refused, gone⟩
    · rw [closing_ends lwip _ pcb _ talk earlier later (quiet pcb) split] at within
      simp at within

theorem callback_reported (pcb : Nat) (s : Firmware) (cb : Callback) :
    Reported pcb s (callback lwip pcb s cb).1 (callback lwip pcb s cb).2 ↔
      ∀ k, closesAt lwip s cb = some k → s.link.netPcb = some pcb →
        lwip.tcpClose k = errOk ∨ cb = .connected errAbrt := by
  have ends := callback_ends lwip pcb s cb
  cases closes : closesAt lwip s cb with
  | none =>
    rw [closes] at ends
    obtain ⟨k, spoke⟩ := ends
    simp [reported_open lwip pcb s _ _ k spoke]
  | some k =>
    rw [closes] at ends
    rw [reported_closed lwip pcb s _ _ k ends, callback_result lwip pcb s cb k closes]
    simp

def unclosable : Lwip := { willing with tcpClose := fun _ => -1 }

-- The first connection of a module that boots is up when its peer closes it.
theorem peerClose_unreported :
    ∃ s, (linkMachine unclosable).exec Machine.anyStep (midiInit ⟨none⟩ 0)
        [.poll true, .connected 0 errOk] = some s ∧
      ¬ Reported 0 s (callback unclosable 0 s (.recv none errOk)).1
        (callback unclosable 0 s (.recv none errOk)).2 := by
  obtain ⟨s, ran, held⟩ : ∃ s, (linkMachine unclosable).exec Machine.anyStep (midiInit ⟨none⟩ 0)
      [.poll true, .connected 0 errOk] = some s ∧ s.link.netPcb = some 0 := ⟨_, rfl, rfl⟩
  refine ⟨s, ran, fun reported => ?_⟩
  have ends := callback_ends unclosable 0 s (.recv none errOk)
  have fine := (reported_closed unclosable 0 s _ _ s.calls.length ends).mp reported held
  change (-1 : Err) = errOk ∨ errOk = errAbrt at fine
  exact absurd fine (by decide)

end Firmware

end MidiToIp.Midi
