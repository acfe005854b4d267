import Mathlib.Data.List.Chain
import MidiToIp.Midi.Changes
import MidiToIp.Midi.OutSide

set_option autoImplicit false

namespace MidiToIp.Midi

open Octets MidiWs Machines

def LwipCall.opens : LwipCall → Bool
  | .new _ => true
  | .resolve _ _ => true
  | .connect _ _ _ _ => true
  | _ => false

def Firmware.openings (s : Firmware) : Nat := (s.calls.filter LwipCall.opens).length

structure Attempt where
  time : Nat
  delay : Nat
  succeeded : Bool
  deriving DecidableEq, Repr

structure Watched where
  firmware : Firmware
  attempts : List Attempt := []
  succeeded : Bool := false

def Watched.record (w : Watched) (after : Firmware) : Event → Watched
  | .reload _ => { firmware := after }
  | .poll _ =>
    if w.firmware.openings < after.openings then
      { firmware := after
        attempts := ⟨w.firmware.now, w.firmware.backoffMs, w.succeeded⟩ :: w.attempts }
    else { w with firmware := after }
  | event => { w with firmware := after, succeeded := w.succeeded || w.firmware.comesUp event }

def watchMachine (lwip : Lwip) : Machine Watched Event :=
  ⟨fun w event => (w.firmware.next lwip event).map fun after => w.record after event⟩

namespace Firmware

variable (lwip : Lwip)

structure Steady (up : Bool) (s after : Firmware) : Prop where
  next : after.nextAttempt = s.nextAttempt
  valid : after.nextAttemptValid = s.nextAttemptValid
  backoff : after.backoffMs = if up then backoffMinMs else s.backoffMs

theorem Changes.steady {s after : Firmware} {up : Bool} (changes : Changes s up after) : Steady up s after := by
  induction changes with
  | start => exact ⟨rfl, rfl, rfl⟩
  | next _ change ih =>
    obtain ⟨next, valid, backoff⟩ := ih
    cases change with
    | notes => exact ⟨next, valid, backoff⟩
    | push => exact ⟨next, valid, backoff⟩
    | drop => exact ⟨next, valid, backoff⟩
    | moves => exact ⟨next, valid, backoff⟩
  | up _ ih => exact ⟨ih.next, ih.valid, rfl⟩

theorem dropPcb_calls (s : Firmware) : s.calls <+: (dropPcb lwip s).calls := by
  unfold dropPcb
  split
  · exact List.prefix_rfl
  · simp only [call]
    split
    · rw [List.append_assoc]
      exact List.prefix_append ..
    · exact List.prefix_append ..

theorem midiNetReset_extends (s : Firmware) {calls : List LwipCall} (made : calls <+: s.calls) :
    calls <+: (midiNetReset lwip s).calls := by
  have same : (midiNetReset lwip s).calls = (dropPcb lwip s).calls := rfl
  rw [same]
  exact made.trans (dropPcb_calls lwip s)

theorem midiNetConnectTo_opens (ip : IpAddr) (towards : Bytes) (s : Firmware) :
    ∃ c, LwipCall.opens c = true ∧ s.calls ++ [c] <+: (midiNetConnectTo lwip ip towards s).calls := by
  unfold midiNetConnectTo
  by_cases allocated : lwip.tcpNew s.calls.length = true
  · refine ⟨.new (some s.link.fresh), rfl, ?_⟩
    have count : (s.calls ++ [LwipCall.new (some s.link.fresh)]).length = s.calls.length + 1 := by simp
    simp only [allocated, if_true, call, count]
    generalize lwip.tcpConnect (s.calls.length + 1) = err
    by_cases taken : err = errOk
    · rw [if_neg (by simp [taken])]
      exact List.prefix_append ..
    · rw [if_pos taken]
      apply midiNetReset_extends
      exact List.prefix_append ..
  · refine ⟨.new none, rfl, ?_⟩
    rw [if_neg allocated]
    apply midiNetReset_extends
    exact List.prefix_rfl

theorem midiNetTryConnect_opens (s : Firmware) : s.openings < (midiNetTryConnect lwip s).openings := by
  have more {c : LwipCall} {calls : List LwipCall} (opens : c.opens = true) (part : s.calls ++ [c] <+: calls) :
      s.openings < (calls.filter LwipCall.opens).length := by
    have shorter := (part.filter LwipCall.opens).length_le
    rw [List.filter_append, List.filter_singleton, opens, List.length_append] at shorter
    exact shorter
  unfold midiNetTryConnect
  split
  · obtain ⟨c, opens, part⟩ := midiNetConnectTo_opens lwip _ s.cfg.host s
    exact more opens part
  · simp only [call]
    apply more (c := .resolve s.cfg.host (lwip.dnsGethostbyname s.calls.length).1) rfl
    split
    · obtain ⟨c, -, part⟩ := midiNetConnectTo_opens lwip (lwip.dnsGethostbyname s.calls.length).2 s.cfg.host { s with
        link := { s.link with netState := .connecting }
        calls := s.calls ++ [.resolve s.cfg.host (lwip.dnsGethostbyname s.calls.length).1] }
      exact (List.prefix_append ..).trans part
    split
    · apply midiNetReset_extends
      exact List.prefix_rfl
    · exact List.prefix_rfl

theorem writes_opens {transport : Transport} {pcb : Nat} {made : List LwipCall} {payloads : List Bytes}
    (writes : Writes transport pcb made payloads) : made.filter LwipCall.opens = [] := by
  induction writes with
  | nil => rfl
  | asked room _ ih => simp [ih, LwipCall.opens]
  | output _ ih => simp [ih, LwipCall.opens]
  | refused room payload data err _ _ _ _ ih => simp [ih, LwipCall.opens]
  | taken room payload data _ _ _ ih => simp [ih, LwipCall.opens]

structure Tended (s after : Firmware) : Prop extends Steady false s after where
  cfg : after.cfg = s.cfg
  link : after.link = s.link
  now : after.now = s.now
  openings : after.openings = s.openings

theorem tended_tended (s : Firmware) : Tended s (tended lwip s) := by
  have flushed : (midiNetFlushOut lwip s).openings = s.openings := by
    cases held : s.link.netPcb with
    | none =>
      have nothing : midiNetFlushOut lwip s = s := by
        unfold midiNetFlushOut
        rw [held]
        cases s.link.netState <;> rfl
      rw [nothing]
    | some pcb =>
      obtain ⟨made, payloads, carried, -⟩ := midiNetFlushOut_carried lwip pcb s held
      rw [openings, carried.log, List.filter_append, writes_opens carried.writes, List.append_nil, openings]
  obtain ⟨rand, calls, queue, k, flush, -⟩ := midiNetFlushOut_effect lwip s
  obtain ⟨inQueue, shared, cleanedIn, -⟩ := cleanupIn_effect (midiNetFlushOut lwip s)
  obtain ⟨outQueue, cleanedOut, -⟩ := cleanupOut_effect (cleanupIn (midiNetFlushOut lwip s))
  rw [tended, midiQueueCleanup, cleanedOut, cleanedIn]
  rw [flush] at flushed ⊢
  exact ⟨⟨rfl, rfl, rfl⟩, rfl, rfl, rfl, flushed⟩

def Due (s : Firmware) (hasIp : Bool) : Prop :=
  s.cfg.enabled = true ∧ s.link.netState = .down ∧ hasIp = true ∧
    ¬ (s.nextAttemptValid = true ∧ s.nextAttempt > s.now)

structure Tries (s after : Firmware) : Prop where
  opens : s.openings < after.openings
  valid : after.nextAttemptValid = true
  next : after.nextAttempt = s.now + s.backoffMs * 1000
  backoff : after.backoffMs = min (s.backoffMs * 2) backoffMaxMs

theorem midiNetPoll_cases (hasIp : Bool) (s : Firmware) :
    s.Due hasIp ∧ Tries s (midiNetPoll lwip hasIp s) ∨
      ¬ s.Due hasIp ∧ Steady false s (midiNetPoll lwip hasIp s) ∧ (midiNetPoll lwip hasIp s).openings = s.openings := by
  have first := tended_tended lwip s
  have polled : midiNetPoll lwip hasIp s =
      if !(tended lwip s).cfg.enabled then tended lwip s
      else if (tended lwip s).link.netState ≠ .down then tended lwip s
      else if !hasIp then tended lwip s
      else if (tended lwip s).nextAttemptValid ∧ (tended lwip s).nextAttempt > (tended lwip s).now then tended lwip s
      else
        midiNetTryConnect lwip
          { tended lwip s with
            nextAttemptValid := true
            nextAttempt := (tended lwip s).now + (tended lwip s).backoffMs * 1000
            backoffMs := min ((tended lwip s).backoffMs * 2) backoffMaxMs } := rfl
  have waits (because : ¬ s.Due hasIp) (same : midiNetPoll lwip hasIp s = tended lwip s) :
      ¬ s.Due hasIp ∧ Steady false s (midiNetPoll lwip hasIp s) ∧ (midiNetPoll lwip hasIp s).openings = s.openings := by
    rw [same]
    exact ⟨because, first.toSteady, first.openings⟩
  rw [first.cfg, first.link, first.valid, first.next, first.now, first.backoff] at polled
  by_cases enabled : s.cfg.enabled = true
  · by_cases down : s.link.netState = .down
    · by_cases address : hasIp = true
      · by_cases timer : s.nextAttemptValid = true ∧ s.nextAttempt > s.now
        · exact .inr (waits (fun due => due.2.2.2 timer) (by simpa [enabled, down, address, timer] using polled))
        · refine .inl ⟨⟨enabled, down, address, timer⟩, ?_⟩
          have tried : midiNetPoll lwip hasIp s = midiNetTryConnect lwip { tended lwip s with
              nextAttemptValid := true
              nextAttempt := s.now + s.backoffMs * 1000
              backoffMs := min (s.backoffMs * 2) backoffMaxMs } := by
            simpa [enabled, down, address, timer] using polled
          have still := (midiNetTryConnect_changes lwip { tended lwip s with
              nextAttemptValid := true
              nextAttempt := s.now + s.backoffMs * 1000
              backoffMs := min (s.backoffMs * 2) backoffMaxMs }).steady
          have opened := midiNetTryConnect_opens lwip { tended lwip s with
              nextAttemptValid := true
              nextAttempt := s.now + s.backoffMs * 1000
              backoffMs := min (s.backoffMs * 2) backoffMaxMs }
          rw [← tried] at still opened
          exact ⟨first.openings ▸ opened, still.valid, still.next, still.backoff⟩
      · exact .inr (waits (fun due => address due.2.2.1) (by simpa [enabled, down, address] using polled))
    · exact .inr (waits (fun due => down due.2.1) (by simpa [enabled, down] using polled))
  · exact .inr (waits (fun due => enabled due.1) (by simpa [enabled] using polled))

end Firmware

structure Follows (later earlier : Attempt) : Prop where
  rests : earlier.time + earlier.delay * 1000 ≤ later.time
  delay : later.delay = if later.succeeded then backoffMinMs else min (earlier.delay * 2) backoffMaxMs

def Watched.Scheduled (w : Watched) : Prop :=
  match w.attempts with
  | [] => w.firmware.nextAttemptValid = false ∧ w.firmware.backoffMs = backoffMinMs
  | last :: _ =>
    w.firmware.nextAttemptValid = true ∧
      w.firmware.nextAttempt = last.time + last.delay * 1000 ∧
      w.firmware.backoffMs = if w.succeeded then backoffMinMs else min (last.delay * 2) backoffMaxMs

structure Watched.Good (w : Watched) : Prop where
  chain : w.attempts.IsChain Follows
  first : ∀ a ∈ w.attempts.getLast?, a.delay = backoffMinMs
  scheduled : w.Scheduled

section

variable (lwip : Lwip)

theorem Watched.Scheduled.steady {w : Watched} {up : Bool} {after : Firmware} (scheduled : w.Scheduled)
    (steady : w.firmware.Steady up after) :
    Watched.Scheduled { w with firmware := after, succeeded := w.succeeded || up } := by
  unfold Scheduled at *
  simp only
  cases attempts : w.attempts with
  | nil =>
    simp only [attempts] at scheduled ⊢
    refine ⟨steady.valid.trans scheduled.1, ?_⟩
    rw [steady.backoff, scheduled.2, ite_self]
  | cons last rest =>
    simp only [attempts] at scheduled ⊢
    refine ⟨steady.valid.trans scheduled.1, steady.next.trans scheduled.2.1, ?_⟩
    rw [steady.backoff, scheduled.2.2]
    cases up <;> simp

theorem Watched.Good.steady {w : Watched} {up : Bool} {after : Firmware} (good : w.Good)
    (steady : w.firmware.Steady up after) :
    Watched.Good { w with firmware := after, succeeded := w.succeeded || up } :=
  ⟨good.chain, good.first, good.scheduled.steady steady⟩

theorem midiRom3Consumer_steady (addrLsb : UInt16) (s : Firmware) :
    s.Steady false (s.midiRom3Consumer addrLsb).2 := by
  unfold Firmware.midiRom3Consumer
  split
  · exact ⟨rfl, rfl, rfl⟩
  split
  · exact ⟨rfl, rfl, rfl⟩
  split
  · obtain ⟨shared, effect, -⟩ := Firmware.advance_effect s
    rw [effect]
    exact ⟨rfl, rfl, rfl⟩
  split
  · exact ⟨rfl, rfl, rfl⟩
  · exact ⟨rfl, rfl, rfl⟩

theorem Watched.Good.tries {w : Watched} {hasIp : Bool} {after : Firmware} (good : w.Good)
    (due : w.firmware.Due hasIp) (tries : w.firmware.Tries after) :
    Watched.Good
      { firmware := after
        attempts := ⟨w.firmware.now, w.firmware.backoffMs, w.succeeded⟩ :: w.attempts } := by
  have scheduled := good.scheduled
  unfold Scheduled at scheduled
  refine ⟨?_, ?_, tries.valid, tries.next, tries.backoff⟩
  · cases attempts : w.attempts with
    | nil => exact .singleton _
    | cons last rest =>
      simp only [attempts] at scheduled
      have timer := due.2.2.2
      rw [scheduled.2.1] at timer
      refine .cons_cons ⟨?_, scheduled.2.2⟩ (attempts ▸ good.chain)
      exact Nat.not_lt.mp fun later => timer ⟨scheduled.1, later⟩
  · cases attempts : w.attempts with
    | nil =>
      simp only [attempts] at scheduled
      simpa using scheduled.2
    | cons last rest =>
      have first := good.first
      rw [attempts] at first
      simpa using first

theorem good_step {w after : Watched} {event : Event} (good : w.Good)
    (step : (watchMachine lwip).next w event = some after) : after.Good := by
  obtain ⟨s, stepped, rfl⟩ := Option.map_eq_some_iff.mp step
  cases event with
  | tick micros =>
    obtain rfl := Option.some.inj stepped
    exact good.steady ⟨rfl, rfl, rfl⟩
  | poll hasIp =>
    obtain rfl := Option.some.inj stepped
    simp only [Watched.record]
    obtain ⟨due, tries⟩ | ⟨-, still, none⟩ := w.firmware.midiNetPoll_cases lwip hasIp
    · rw [if_pos tries.opens]
      exact good.tries due tries
    · rw [if_neg (by omega)]
      simpa using good.steady still
  | reload settings =>
    obtain rfl := Option.some.inj stepped
    exact ⟨.nil, by simp [Watched.record], rfl, rfl⟩
  | connected pcb err =>
    obtain ⟨-, reached⟩ := Option.ite_none_right_eq_some.mp stepped
    obtain rfl := Option.some.inj reached
    exact good.steady (w.firmware.midiNetConnectedCb_changes lwip pcb err).steady
  | recv pcb chain err =>
    obtain ⟨-, reached⟩ := Option.ite_none_right_eq_some.mp stepped
    obtain rfl := Option.some.inj reached
    exact good.steady (w.firmware.midiNetRecvCb_changes lwip pcb chain err).steady
  | error pcb =>
    obtain ⟨-, reached⟩ := Option.ite_none_right_eq_some.mp stepped
    obtain rfl := Option.some.inj reached
    have still := Firmware.midiNetErrCb_effect
      { w.firmware with link := { w.firmware.link with pcbs := w.firmware.link.pcbs.filter fun p => p.id != pcb } }
    rw [still]
    exact good.steady ⟨rfl, rfl, rfl⟩
  | dnsFound query ip =>
    obtain ⟨q, -, rfl⟩ := Option.map_eq_some_iff.mp stepped
    have steady := (Firmware.midiNetDnsFound_changes lwip q.name ip
      { w.firmware with
        link := { w.firmware.link with
          queries := w.firmware.link.queries.filter fun q => q.id != query } }).steady
    exact good.steady ⟨steady.next, steady.valid, steady.backoff⟩
  | rom3 addrLsb =>
    obtain rfl := Option.some.inj stepped
    exact good.steady (midiRom3Consumer_steady addrLsb w.firmware)
  | setActive active =>
    obtain rfl := Option.some.inj stepped
    exact good.steady ⟨rfl, rfl, rfl⟩

def Delay (delay : Nat) : Prop := ∃ k ≤ 4, delay = backoffMinMs * 2 ^ k

theorem Follows.inRange {later earlier : Attempt} (follows : Follows later earlier)
    (range : Delay earlier.delay) : Delay later.delay := by
  obtain ⟨k, small, delay⟩ := range
  rw [Delay, follows.delay, delay, backoffMinMs, backoffMaxMs]
  split
  · exact ⟨0, by omega, rfl⟩
  · obtain rfl | rfl | rfl | rfl | rfl : k = 0 ∨ k = 1 ∨ k = 2 ∨ k = 3 ∨ k = 4 := by omega
    · exact ⟨1, by omega, rfl⟩
    · exact ⟨2, by omega, rfl⟩
    · exact ⟨3, by omega, rfl⟩
    · exact ⟨4, by omega, rfl⟩
    · exact ⟨4, by omega, rfl⟩

theorem delays_inRange {attempts : List Attempt} (chain : attempts.IsChain Follows)
    (first : ∀ a ∈ attempts.getLast?, a.delay = backoffMinMs) : ∀ a ∈ attempts, Delay a.delay := by
  induction attempts with
  | nil => simp
  | cons last rest ih =>
    cases rest with
    | nil =>
      have delay : last.delay = backoffMinMs := by simpa using first
      have least : Delay backoffMinMs := ⟨0, by omega, rfl⟩
      rw [List.forall_mem_singleton, delay]
      exact least
    | cons earlier more =>
      obtain ⟨follows, chain⟩ := List.isChain_cons_cons.mp chain
      have ranges := ih chain (by simpa using first)
      exact List.forall_mem_cons.mpr ⟨follows.inRange (ranges earlier (by simp)), ranges⟩

theorem opens_iff (w : Watched) (good : w.Good) (hasIp : Bool) :
    w.firmware.openings < (w.firmware.midiNetPoll lwip hasIp).openings ↔
      w.firmware.cfg.enabled = true ∧ w.firmware.link.netState = .down ∧ hasIp = true ∧
        ∀ last ∈ w.attempts.head?, last.time + last.delay * 1000 ≤ w.firmware.now := by
  have timer : (¬ (w.firmware.nextAttemptValid = true ∧ w.firmware.nextAttempt > w.firmware.now)) ↔
      ∀ last ∈ w.attempts.head?, last.time + last.delay * 1000 ≤ w.firmware.now := by
    have scheduled := good.scheduled
    unfold Watched.Scheduled at scheduled
    cases attempts : w.attempts with
    | nil =>
      simp only [attempts] at scheduled
      simp [scheduled.1]
    | cons last rest =>
      simp only [attempts] at scheduled
      simp [scheduled.1, scheduled.2.1]
  rw [← timer]
  obtain ⟨due, tries⟩ | ⟨waits, -, none⟩ := w.firmware.midiNetPoll_cases lwip hasIp
  · exact iff_of_true tries.opens due
  · exact iff_of_false (by omega) waits

theorem reconnect_schedule {settings : Settings} {now : Nat} {events : List Event} {w : Watched}
    (run : (watchMachine lwip).Run Machine.anyStep { firmware := Firmware.midiInit settings now } events w) :
    w.attempts.IsChain Follows ∧
      (∀ first ∈ w.attempts.getLast?, first.delay = backoffMinMs) ∧
      (∀ a ∈ w.attempts, Delay a.delay) ∧
      ∀ hasIp, w.firmware.openings < (w.firmware.midiNetPoll lwip hasIp).openings ↔
        w.firmware.cfg.enabled = true ∧ w.firmware.link.netState = .down ∧ hasIp = true ∧
          ∀ last ∈ w.attempts.head?, last.time + last.delay * 1000 ≤ w.firmware.now := by
  have initially : Watched.Good { firmware := Firmware.midiInit settings now } := ⟨.nil, by simp, rfl, rfl⟩
  have good : w.Good := run.invariant Watched.Good initially
    fun _ _ _ before _ step => good_step lwip before step
  exact ⟨good.chain, good.first, delays_inRange good.chain good.first, opens_iff lwip w good⟩

def attempted : List Event :=
  [.poll true, .error 0, .tick 500000, .poll true, .connected 1 errOk, .error 1, .tick 999999, .poll true, .tick 1,
    .poll true]

theorem reconnect_schedule_attempted :
    ∃ w, (watchMachine willing).exec Machine.anyStep { firmware := Firmware.midiInit ⟨none⟩ 0 } attempted = some w ∧
      w.attempts = [⟨1500000, 500, true⟩, ⟨500000, 1000, false⟩, ⟨0, 500, false⟩] ∧
      w.attempts.IsChain Follows := by
  obtain ⟨w, executed, attempts⟩ : ∃ w,
      (watchMachine willing).exec Machine.anyStep { firmware := Firmware.midiInit ⟨none⟩ 0 } attempted = some w ∧
        w.attempts = [⟨1500000, 500, true⟩, ⟨500000, 1000, false⟩, ⟨0, 500, false⟩] := ⟨_, rfl, by decide⟩
  exact ⟨w, executed, attempts, (reconnect_schedule willing (Machine.run_of_exec executed)).1⟩

end

structure Config.Fits (cfg : Config) : Prop where
  host : cfg.host.length < settingsMaxValueLength
  wsPath : cfg.wsPath.length < settingsMaxValueLength
  room : cfg.room.length < settingsMaxValueLength
  tcpPort : cfg.tcpPort < 65536
  wsPort : cfg.wsPort < 65536
  port : cfg.port < 65536

theorem copyValue_fits (value : Bytes) : (copyValue value).length < settingsMaxValueLength := by
  have most := List.length_take_le (settingsMaxValueLength - 1) value
  rw [copyValue]
  unfold settingsMaxValueLength at most ⊢
  omega

theorem toUint16_lt (value : Int) : toUint16 value < 65536 := by
  unfold toUint16
  omega

theorem midiLoadConfig_fits (settings : Settings) (cfg : Config) (fits : cfg.Fits) :
    (midiLoadConfig settings cfg).Fits := by
  have copied (key : String) (old : Bytes) (short : old.length < settingsMaxValueLength) :
      (((settings.value key).map copyValue).getD old).length < settingsMaxValueLength := by
    cases settings.value key with
    | none => exact short
    | some value => exact copyValue_fits value
  have roomFits :
      (((settings.value "MIDI_ROOM").map fun value => (copyValue value).map upper).getD []).length <
        settingsMaxValueLength := by
    cases settings.value "MIDI_ROOM" with
    | none => exact Nat.zero_lt_succ _
    | some value =>
      rw [Option.map_some, Option.getD_some, List.length_map]
      exact copyValue_fits value
  have ports (key : String) (old : Nat) (small : old < 65536) :
      ((settings.value key).map (toUint16 ∘ atoi)).getD old < 65536 := by
    cases settings.value key with
    | none => exact small
    | some value => exact toUint16_lt _
  unfold midiLoadConfig
  dsimp only
  split
  · refine ⟨fits.host, fits.wsPath, fits.room, fits.tcpPort, fits.wsPort, ?_⟩
    split
    · exact fits.wsPort
    · exact fits.tcpPort
  · refine ⟨copied _ _ fits.host, copied _ _ fits.wsPath, roomFits, ports _ _ fits.tcpPort, ports _ _ fits.wsPort, ?_⟩
    split
    · exact ports _ _ fits.wsPort
    · exact ports _ _ fits.tcpPort

namespace Firmware

variable (lwip : Lwip)

theorem midiNetPoll_cfg (hasIp : Bool) (s : Firmware) : (midiNetPoll lwip hasIp s).cfg = s.cfg := by
  have first := (tended_tended lwip s).cfg
  obtain same | ⟨next, backoff, tried⟩ := midiNetPoll_tended lwip hasIp s
  · rw [same, first]
  · rw [tried, (midiNetTryConnect_changes lwip _).kept.cfg]
    exact first

theorem midiRom3Consumer_cfg (addrLsb : UInt16) (s : Firmware) : (s.midiRom3Consumer addrLsb).2.cfg = s.cfg := by
  unfold midiRom3Consumer
  split
  · rfl
  split
  · rfl
  split
  · obtain ⟨shared, effect, -⟩ := advance_effect s
    rw [effect]
  split
  · rfl
  · rfl

theorem next_cfg {s after : Firmware} {event : Event} (step : s.next lwip event = some after) :
    after.cfg = s.cfg ∨ ∃ settings, after.cfg = midiLoadConfig settings s.cfg := by
  cases event with
  | tick micros =>
    obtain rfl := Option.some.inj step
    exact .inl rfl
  | poll hasIp =>
    obtain rfl := Option.some.inj step
    exact .inl (midiNetPoll_cfg lwip hasIp s)
  | reload settings =>
    obtain rfl := Option.some.inj step
    obtain ⟨calls, effect⟩ := midiNetReset_effect lwip { s with cfg := midiLoadConfig settings s.cfg }
    refine .inr ⟨settings, ?_⟩
    simp only [midiNetReload, effect]
    rfl
  | connected pcb err =>
    obtain ⟨-, reached⟩ := Option.ite_none_right_eq_some.mp step
    obtain rfl := Option.some.inj reached
    exact .inl (midiNetConnectedCb_changes lwip pcb err s).kept.cfg
  | recv pcb chain err =>
    obtain ⟨-, reached⟩ := Option.ite_none_right_eq_some.mp step
    obtain rfl := Option.some.inj reached
    exact .inl (midiNetRecvCb_changes lwip pcb chain err s).kept.cfg
  | error pcb =>
    obtain ⟨-, reached⟩ := Option.ite_none_right_eq_some.mp step
    obtain rfl := Option.some.inj reached
    exact .inl rfl
  | dnsFound query ip =>
    obtain ⟨q, -, rfl⟩ := Option.map_eq_some_iff.mp step
    exact .inl (midiNetDnsFound_changes lwip q.name ip _).kept.cfg
  | rom3 addrLsb =>
    obtain rfl := Option.some.inj step
    exact .inl (midiRom3Consumer_cfg addrLsb s)
  | setActive active =>
    obtain rfl := Option.some.inj step
    exact .inl rfl

theorem upgradeRequest_length {cfg : Config} (fits : cfg.Fits) {nonce : Bytes} (size : nonce.length = 16) :
    (upgradeRequest cfg (midiWsBase64 nonce)).length ≤ 453 := by
  have key : (midiWsBase64 nonce).length = 24 := by
    rw [midiWsBase64_eq, Base64.Alphabet.encode_length, size]
  have digits : (ascii (toString cfg.port)).length ≤ 5 := by
    have small := fits.port
    rw [ascii, List.length_map, String.length_toList, Nat.toString_eq_repr,
      Nat.length_repr_le_iff (by omega)]
    omega
  have asks : (if cfg.room ≠ [] then ascii "Authorization: Bearer " ++ cfg.room ++ ascii "\r\n" else []).length ≤
      24 + cfg.room.length := by
    split
    · simp [ascii]
      omega
    · simp
  obtain ⟨host, wsPath, room, -, -, -⟩ := fits
  unfold settingsMaxValueLength at host wsPath room
  have texts : (ascii "GET ").length = 4 ∧ (ascii " HTTP/1.1\r\n").length = 11 ∧ (ascii "Host: ").length = 6 ∧
      (ascii ":").length = 1 ∧ (ascii "\r\n").length = 2 ∧ (ascii "Upgrade: websocket\r\n").length = 20 ∧
      (ascii "Connection: Upgrade\r\n").length = 21 ∧ (ascii "Sec-WebSocket-Key: ").length = 19 ∧
      (ascii "Sec-WebSocket-Version: 13\r\n\r\n").length = 29 := by decide
  simp only [upgradeRequest, List.length_append, key, texts]
  omega

theorem midiNetConnectedCb_asks (s : Firmware) (fits : s.cfg.Fits) (ws : s.cfg.transport = .ws) :
    (midiNetConnectedCb lwip errOk s).2.link.netState = .wsHandshake ↔
      s.link.netPcb ≠ none ∧ lwip.tcpWrite s.calls.length = errOk := by
  have started : (midiNetConnectedCb lwip errOk s).2 = midiWsStartHandshake lwip s := by
    simp [midiNetConnectedCb, ws]
  obtain ⟨rand, drawn⟩ := nonce_effect 16 s
  have short := upgradeRequest_length fits (nonce_length 16 s)
  rw [started]
  unfold midiWsStartHandshake
  simp only [drawn]
  generalize upgradeRequest s.cfg (midiWsBase64 (nonce 16 s).1) = req at short ⊢
  have refused (after : Firmware) : (midiNetReset lwip after).link.netState ≠ .wsHandshake := by
    obtain ⟨calls, effect⟩ := midiNetReset_effect lwip after
    rw [effect]
    exact fun same => NetState.noConfusion same
  unfold sendUpgrade
  cases held : s.link.netPcb with
  | none => exact iff_of_false (refused _) fun both => both.1 rfl
  | some pcb =>
    simp only [tcpWrite]
    rw [if_neg (by omega)]
    by_cases taken : lwip.tcpWrite s.calls.length = errOk
    · simp only [taken, ne_eq, not_true_eq_false, if_false]
      exact iff_of_true rfl ⟨Option.some_ne_none pcb, trivial⟩
    · simp only [taken, ne_eq, not_false_eq_true, if_true]
      exact iff_of_false (refused _) fun both => both.2

end Firmware

theorem upgrade_asked (lwip : Lwip) {settings : Settings} {now : Nat} {events : List Event} {s : Firmware}
    (run : (linkMachine lwip).Run Machine.anyStep (Firmware.midiInit settings now) events s) :
    (∀ nonce : Bytes, nonce.length = 16 → (Firmware.upgradeRequest s.cfg (midiWsBase64 nonce)).length ≤ 453) ∧
      (s.cfg.transport = .ws →
        ((Firmware.midiNetConnectedCb lwip errOk s).2.link.netState = .wsHandshake ↔
          s.link.netPcb ≠ none ∧ lwip.tcpWrite s.calls.length = errOk)) := by
  have default_ : Config.Fits {} := ⟨by decide, by decide, by decide, by decide, by decide, by decide⟩
  have fits : s.cfg.Fits := by
    refine run.invariant (fun s => s.cfg.Fits) (midiLoadConfig_fits settings {} default_) ?_
    intro before event after fits _ step
    obtain same | ⟨settings, loaded⟩ := Firmware.next_cfg lwip step
    · rwa [same]
    · rw [loaded]
      exact midiLoadConfig_fits settings _ fits
  exact ⟨fun nonce size => Firmware.upgradeRequest_length fits size,
    fun ws => Firmware.midiNetConnectedCb_asks lwip s fits ws⟩

def longRoom : Settings := ⟨some [("MIDI_TRANSPORT", ascii "ws"), ("MIDI_ROOM", List.replicate 200 97)]⟩

theorem upgrade_asked_longRoom :
    ∃ s, (linkMachine willing).exec Machine.anyStep (Firmware.midiInit ⟨none⟩ 0)
        [.poll true, .connected 0 errOk, .reload longRoom, .poll true] = some s ∧
      (Firmware.midiNetConnectedCb willing errOk s).2.link.netState = .wsHandshake := by
  obtain ⟨s, executed, ws, held⟩ : ∃ s, (linkMachine willing).exec Machine.anyStep (Firmware.midiInit ⟨none⟩ 0)
      [.poll true, .connected 0 errOk, .reload longRoom, .poll true] = some s ∧ s.cfg.transport = .ws ∧
        s.link.netPcb ≠ none := ⟨_, rfl, by decide, by decide⟩
  exact ⟨s, executed, ((upgrade_asked willing (Machine.run_of_exec executed)).2 ws).mpr ⟨held, rfl⟩⟩

end MidiToIp.Midi
