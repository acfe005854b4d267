import MidiToIp.Midi.LinkEffects
import MidiToIp.WebSocket.AcceptKey

set_option autoImplicit false

namespace MidiToIp.Midi

open Octets MidiWs

namespace Firmware

inductive Change (s : Firmware) : Firmware → Prop
  | notes (shared : SharedWords) (dec : MidiWsDecoder) (hs key : Bytes) (rand : UInt32) (calls : List LwipCall)
      (hsFits : hs = s.wsHsBuf ∨ hs.length ≤ hsBufSize) (keyFits : key = s.wsKey ∨ key.length = 24) :
      Change s { s with
        shared := shared, wsDec := dec, wsHsBuf := hs, wsKey := key, wsRand := rand, calls := calls }
  | push (cell : Cell) : Change s { s with inQueue := s.inQueue.push cell s.now }
  | drop (link : Link) (calls : List LwipCall) (session : link.session = s.link.session) :
      Change s (s.afterDrop link calls)
  | moves (link : Link) (calls : List LwipCall) (session : link.session = s.link.session)
      (calm : link.netState ≠ .up) : Change s { s with link := link, calls := calls }

inductive Changes (s : Firmware) : Bool → Firmware → Prop
  | start : Changes s false s
  | next {up : Bool} {middle after : Firmware} (earlier : Changes s up middle) (change : Change middle after) :
      Changes s up after
  | up {middle : Firmware} (earlier : Changes s false middle) : Changes s true (midiNetMarkUp middle)

theorem Changes.trans {s middle after : Firmware} {up : Bool} (first : Changes s up middle)
    (second : Changes middle false after) : Changes s up after := by
  generalize calm : false = came at second
  induction second with
  | start => exact first
  | next _ change ih => exact .next (ih calm) change
  | up => cases calm

theorem Change.changes {s after : Firmware} (change : Change s after) : Changes s false after :=
  .next .start change

-- What every change and the coming up keep.
theorem Changes.keep {s after : Firmware} {up : Bool} (changes : Changes s up after) (holds : Firmware → Prop)
    (step : ∀ before later, Change before later → holds before → holds later)
    (comesUp : ∀ before, holds before → holds (midiNetMarkUp before)) (start : holds s) : holds after := by
  induction changes with
  | start => exact start
  | next _ change ih => exact step _ _ change ih
  | up _ ih => exact comesUp _ ih

structure Kept (s after : Firmware) : Prop where
  cfg : after.cfg = s.cfg
  now : after.now = s.now
  written : after.written = s.written
  inAck : after.inAck = s.inAck
  active : after.active = s.active

theorem Changes.kept {s after : Firmware} {up : Bool} (changes : Changes s up after) : Kept s after := by
  apply changes.keep (Kept s)
  · intro before later change kept
    cases change with
    | notes => exact ⟨kept.cfg, kept.now, kept.written, kept.inAck, kept.active⟩
    | push => exact ⟨kept.cfg, kept.now, kept.written, kept.inAck, kept.active⟩
    | drop => exact ⟨kept.cfg, kept.now, kept.written, kept.inAck, kept.active⟩
    | moves => exact ⟨kept.cfg, kept.now, kept.written, kept.inAck, kept.active⟩
  · intro before kept
    exact ⟨kept.cfg, kept.now, kept.written, kept.inAck, kept.active⟩
  · exact ⟨rfl, rfl, rfl, rfl, rfl⟩

variable (lwip : Lwip)

theorem calls_changes (s : Firmware) (calls : List LwipCall) : Changes s false { s with calls := calls } :=
  (Change.notes s.shared s.wsDec s.wsHsBuf s.wsKey s.wsRand calls (.inl rfl) (.inl rfl)).changes

theorem midiNetReset_changes (s : Firmware) : Changes s false (midiNetReset lwip s) := by
  obtain ⟨calls, effect⟩ := midiNetReset_effect lwip s
  rw [effect]
  exact (Change.drop s.link.dropped calls rfl).changes

theorem publish_changes (s : Firmware) : Changes s false (publish s) := by
  obtain ⟨shared, effect, -⟩ := publish_effect s
  rw [effect]
  exact (Change.notes shared s.wsDec s.wsHsBuf s.wsKey s.wsRand s.calls (.inl rfl) (.inl rfl)).changes

theorem midiWsOnData_changes (pcb : Nat) (p : Bytes) (s : Firmware) : Changes s false (midiWsOnData pcb p s) := by
  induction p generalizing s with
  | nil => exact .start
  | cons b rest ih => exact (Change.push ⟨b, pcb⟩).changes.trans (ih (midiInPush pcb b s))

theorem midiWsOnCtl_changes (opcode : UInt8) (p : Bytes) (s : Firmware) :
    Changes s false (midiWsOnCtl lwip opcode p s) := by
  unfold midiWsOnCtl
  split
  · obtain ⟨rand, calls, effect⟩ := midiWsSendFrame_effect lwip midiWsOpPong p s
    rw [effect]
    exact (Change.notes s.shared s.wsDec s.wsHsBuf s.wsKey rand calls (.inl rfl) (.inl rfl)).changes
  split
  · exact midiNetReset_changes lwip s
  · exact .start

theorem midiWsDecode_changes (pcb : Nat) (s : Firmware) (data : Bytes) :
    Changes s false (midiWsDecode (host lwip pcb) s data).2 := by
  apply midiWsDecode_keeps (host lwip pcb) (Changes s false)
  · intro after dec earlier
    exact .next earlier
      (.notes after.shared dec after.wsHsBuf after.wsKey after.wsRand after.calls (.inl rfl) (.inl rfl))
  · intro after p earlier
    exact earlier.trans (midiWsOnData_changes pcb p after)
  · intro after opcode p earlier
    exact earlier.trans (midiWsOnCtl_changes lwip opcode p after)
  · exact .start

theorem decodeChain_changes (pcb : Nat) (chain : List Bytes) (s : Firmware) :
    Changes s false (decodeChain lwip pcb chain s).2 := by
  induction chain generalizing s with
  | nil => exact .start
  | cons q rest ih =>
    have decoded := midiWsDecode_changes lwip pcb s q
    rw [decodeChain]
    generalize midiWsDecode (host lwip pcb) s q = fed at *
    obtain ⟨ok, after⟩ := fed
    cases ok with
    | false => exact decoded
    | true =>
      simp only
      split
      · exact decoded
      · exact decoded.trans (ih after)

theorem recvFrames_changes (pcb : Nat) (chain : List Bytes) (s : Firmware) :
    Changes s false (recvFrames lwip pcb chain s).2 := by
  have decoded := decodeChain_changes lwip pcb chain s
  unfold recvFrames
  generalize decodeChain lwip pcb chain s = fed at *
  obtain ⟨ok, after⟩ := fed
  cases ok with
  | false => exact decoded
  | true =>
    simp only
    split
    · exact decoded.trans (publish_changes after)
    · exact decoded

def upgradedBy (s : Firmware) (chain : List Bytes) : Bool :=
  (s.wsHsBuf ++ chain.flatten).length ≤ hsBufSize &&
    (headerEnd (s.wsHsBuf ++ chain.flatten)).any fun hdrEnd =>
      validUpgrade s.wsKey ((s.wsHsBuf ++ chain.flatten).take hdrEnd)

theorem midiWsHandshakeRecv_changes (pcb : Nat) (chain : List Bytes) (s : Firmware) :
    Changes s (s.upgradedBy chain) (midiWsHandshakeRecv lwip pcb chain s).2 := by
  unfold midiWsHandshakeRecv upgradedBy
  simp only
  generalize s.wsHsBuf ++ chain.flatten = hs
  have stored : Changes s false { s with wsHsBuf := hs.take hsBufSize } :=
    (Change.notes s.shared s.wsDec (hs.take hsBufSize) s.wsKey s.wsRand s.calls
      (.inr (List.length_take_le ..)) (.inl rfl)).changes
  split
  next long =>
    simp only [Nat.not_le.mpr long, decide_false, Bool.false_and]
    exact stored
  next fits =>
    simp only [Nat.not_lt.mp fits, decide_true, Bool.true_and]
    cases headerEnd hs with
    | none => exact stored
    | some hdrEnd =>
      simp only [Option.any_some]
      cases validUpgrade s.wsKey (hs.take hdrEnd) with
      | false => exact stored
      | true =>
        simp only [Bool.not_true, Bool.false_eq_true, if_false]
        split
        · have decoded := midiWsDecode_changes lwip pcb
            (midiNetMarkUp { s with wsHsBuf := hs.take hsBufSize }) (hs.drop hdrEnd)
          generalize midiWsDecode (host lwip pcb) (midiNetMarkUp { s with wsHsBuf := hs.take hsBufSize })
            (hs.drop hdrEnd) = fed at *
          obtain ⟨ok, after⟩ := fed
          cases ok with
          | false => exact (Changes.up stored).trans decoded
          | true => exact ((Changes.up stored).trans decoded).trans (publish_changes after)
        · exact .up stored

theorem recvByState_changes (pcb : Nat) (chain : List Bytes) (s : Firmware) :
    Changes s (s.link.netState = .wsHandshake && s.upgradedBy chain) (recvByState lwip pcb chain s).2 := by
  unfold recvByState
  cases s.link.netState with
  | wsHandshake => simpa using midiWsHandshakeRecv_changes lwip pcb chain s
  | up => exact recvFrames_changes lwip pcb chain s
  | down => exact .start
  | connecting => exact .start

def comesUp (s : Firmware) : Event → Bool
  | .connected _ err => err = errOk && s.cfg.transport ≠ .ws
  | .recv _ (some chain) err =>
    err = errOk && s.cfg.transport = .ws && s.link.netState = .wsHandshake && s.upgradedBy chain
  | _ => false

theorem midiNetRecvCb_changes (pcb : Nat) (chain : Option (List Bytes)) (err : Err) (s : Firmware) :
    Changes s (s.comesUp (.recv pcb chain err)) (midiNetRecvCb lwip pcb chain err s).2 := by
  cases chain with
  | none => exact midiNetReset_changes lwip s
  | some chain =>
    unfold midiNetRecvCb comesUp
    by_cases failed : err = errOk
    · simp only [failed, ne_eq, not_true_eq_false, if_false, decide_true, Bool.true_and]
      by_cases ws : s.cfg.transport = .ws
      · have taken := recvByState_changes lwip pcb chain s
        simp only [ws, if_true, decide_true, Bool.true_and, recvWs]
        generalize recvByState lwip pcb chain s = result at *
        obtain ⟨ok, after⟩ := result
        cases ok with
        | false => exact taken.trans (midiNetReset_changes lwip after)
        | true =>
          simp only
          split
          · exact taken.trans (calls_changes after _)
          · exact taken
      · simp only [ws, if_false, decide_false, Bool.false_and, recvTcp]
        have pushed := (midiWsOnData_changes pcb chain.flatten s).trans (publish_changes _)
        exact pushed.trans (calls_changes _ _)
    · simp only [failed, ne_eq, not_false_eq_true, if_true, decide_false, Bool.false_and]
      exact .start

theorem nonce_length (n : Nat) (s : Firmware) : (nonce n s).1.length = n := by
  induction n generalizing s with
  | zero => rfl
  | succ n ih =>
    rw [nonce]
    exact congrArg (· + 1) (ih (midiWsNextRand s).2)

theorem midiWsStartHandshake_changes (s : Firmware) : Changes s false (midiWsStartHandshake lwip s) := by
  have key : (midiWsBase64 (nonce 16 s).1).length = 24 := by
    rw [midiWsBase64_eq, Base64.Alphabet.encode_length, nonce_length]
  obtain ⟨rand, drawn⟩ := nonce_effect 16 s
  unfold midiWsStartHandshake
  simp only [drawn]
  have asked : Changes s false { s with
      wsRand := rand, wsKey := midiWsBase64 (nonce 16 s).1, wsDec := midiWsDecoderInit, wsHsBuf := []
      link := { s.link with netState := .wsHandshake } } :=
    Changes.next
      (Change.notes s.shared midiWsDecoderInit [] _ rand s.calls (.inr (Nat.zero_le _)) (.inr key)).changes
      (Change.moves _ s.calls rfl (by simp))
  obtain ⟨calls, sent | refused⟩ := sendUpgrade_effect lwip (upgradeRequest s.cfg (midiWsBase64 (nonce 16 s).1)) { s with
      wsRand := rand, wsKey := midiWsBase64 (nonce 16 s).1, wsDec := midiWsDecoderInit, wsHsBuf := []
      link := { s.link with netState := .wsHandshake } }
  · rw [sent]
    exact asked.trans (calls_changes _ calls)
  · rw [refused]
    exact asked.next (.drop _ calls rfl)

theorem midiNetConnectedCb_changes (pcb : Nat) (err : Err) (s : Firmware) :
    Changes s (s.comesUp (.connected pcb err)) (midiNetConnectedCb lwip err s).2 := by
  unfold midiNetConnectedCb comesUp
  by_cases failed : err = errOk
  · simp only [failed, ne_eq, not_true_eq_false, if_false, decide_true, Bool.true_and]
    by_cases ws : s.cfg.transport = .ws
    · simp only [ws, if_true, not_true_eq_false, decide_false]
      exact midiWsStartHandshake_changes lwip s
    · simp only [ws, if_false, not_false_eq_true, decide_true]
      exact .up .start
  · simp only [failed, ne_eq, not_false_eq_true, if_true, decide_false, Bool.false_and]
    exact midiNetReset_changes lwip s

theorem midiNetConnectTo_changes (ip : IpAddr) (towards : Bytes) (s : Firmware) :
    Changes s false (midiNetConnectTo lwip ip towards s) := by
  obtain ⟨calls, ⟨-, effect⟩ | ⟨-, link, opened | unheld, effect⟩⟩ := midiNetConnectTo_effect lwip ip towards s
  · rw [effect]
    exact (Change.moves (s.link.opened towards) calls rfl (by simp [Link.opened])).changes
  · rw [effect, opened]
    exact Change.changes (.drop (s.link.opened towards).dropped calls rfl)
  · rw [effect, unheld]
    exact Change.changes (.drop { s.link with netPcb := none }.dropped calls rfl)

theorem midiNetTryConnect_changes (s : Firmware) : Changes s false (midiNetTryConnect lwip s) := by
  unfold midiNetTryConnect
  split
  · exact midiNetConnectTo_changes lwip _ _ s
  · simp only [call]
    have asked : Changes s false { s with
        link := { s.link with netState := .connecting }
        calls := s.calls ++ [.resolve s.cfg.host (lwip.dnsGethostbyname s.calls.length).1] } :=
      (Change.moves { s.link with netState := .connecting } _ rfl (by simp)).changes
    split
    · exact asked.trans (midiNetConnectTo_changes lwip _ _ _)
    split
    · exact asked.trans (midiNetReset_changes lwip _)
    · exact asked.next (.moves _ _ rfl (by simp))

theorem midiNetTryConnect_effect (s : Firmware) :
    ∃ link calls, link.session = s.link.session ∧
      (midiNetTryConnect lwip s = { s with link := link, calls := calls } ∨
        midiNetTryConnect lwip s = s.afterDrop link calls) := by
  have connects (ip : IpAddr) (state : NetState) (made : List LwipCall) :
      ∃ link calls, link.session = s.link.session ∧
        (midiNetConnectTo lwip ip s.cfg.host { s with link := { s.link with netState := state }, calls := made } =
            { s with link := link, calls := calls } ∨
          midiNetConnectTo lwip ip s.cfg.host { s with link := { s.link with netState := state }, calls := made } =
            s.afterDrop link calls) := by
    obtain ⟨calls, ⟨-, effect⟩ | ⟨-, link, opened | unheld, effect⟩⟩ := midiNetConnectTo_effect lwip ip s.cfg.host
      { s with link := { s.link with netState := state }, calls := made }
    · exact ⟨{ s.link with netState := state }.opened s.cfg.host, calls, rfl, .inl effect⟩
    · exact ⟨link.dropped, calls, by rw [opened]; rfl, .inr effect⟩
    · exact ⟨link.dropped, calls, by rw [unheld]; rfl, .inr effect⟩
  unfold midiNetTryConnect
  split
  · exact connects _ s.link.netState s.calls
  · simp only [call]
    split
    · exact connects _ .connecting _
    split
    · obtain ⟨calls, effect⟩ := midiNetReset_effect lwip { s with
        link := { s.link with netState := .connecting }
        calls := s.calls ++ [.resolve s.cfg.host (lwip.dnsGethostbyname s.calls.length).1] }
      exact ⟨Link.dropped { s.link with netState := .connecting }, calls, rfl, .inr effect⟩
    · refine ⟨{ s.link with
        netState := .connecting
        queries := s.link.queries ++ [⟨s.link.fresh, s.cfg.host, s.link.session⟩]
        fresh := s.link.fresh + 1 }, _, rfl, .inl rfl⟩

theorem midiNetDnsFound_changes (name : Bytes) (ip : Option IpAddr) (s : Firmware) :
    Changes s false (midiNetDnsFound lwip name ip s) := by
  unfold midiNetDnsFound
  split
  · exact midiNetReset_changes lwip s
  · exact midiNetConnectTo_changes lwip _ name s

def tended (s : Firmware) : Firmware := midiQueueCleanup (midiNetFlushOut lwip s)

theorem midiNetPoll_tended (hasIp : Bool) (s : Firmware) :
    midiNetPoll lwip hasIp s = tended lwip s ∨
      ∃ next backoff, midiNetPoll lwip hasIp s = midiNetTryConnect lwip { tended lwip s with
        nextAttemptValid := true, nextAttempt := next, backoffMs := backoff } := by
  unfold midiNetPoll tended
  dsimp only
  split_ifs
  · exact .inl rfl
  · exact .inl rfl
  · exact .inl rfl
  · exact .inl rfl
  · exact .inr ⟨_, _, rfl⟩

end Firmware

end MidiToIp.Midi
