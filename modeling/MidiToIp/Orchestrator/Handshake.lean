import MidiToIp.Orchestrator.Answer

set_option autoImplicit false

namespace MidiToIp.Orchestrator

open Octets

variable (python : Python)

/-- The connection is handed on behind a 101 response, or the writer is closed before the handler
returns or raises. A handler that waits has done neither yet. -/
def Settled : EStateM.Result Stop Wire (Option String) → Prop
  | .ok (some _) wire => ∃ accept, wire.written = Ws.handshakeResponse accept
  | .ok none wire => wire.closed = true
  | .error (.raised _) wire => wire.closed = true
  | .error .waiting _ => True

structure BadKey (site : Site) (line : Bytes) (headers : Headers) : Prop where
  upgrade : upgrades python headers = true
  isOpen : site.store.rooms.isOpen (roomAsked python line headers) = true
  room : site.store.rooms.isFull (roomAsked python line headers) = false
  key : ∃ c ∈ headers.get "sec-websocket-key" "", 128 ≤ c.toNat

/-- What a client can send, and what can happen on the server, that leaves the writer open. -/
inductive Leaks (wire : Wire) : Prop where
  | line (overruns : Overruns wire)
  | key (head : Head) (arrives : Arrives wire head)
      (bad : BadKey python wire.site head.line (parseHeaders python head.block))
  | route (head : Head) (body : Bytes) (method path : Str) (more : List Str) (arrives : Arrives wire head)
      (plain : upgrades python (parseHeaders python head.block) = false)
      (read : BodyArrives (wire.behind head) (contentLength python (parseHeaders python head.block)) body)
      (words : (latin1 head.line).splitOn ' ' = method :: path :: more)
      (fails : RoutingFails python (parseHeaders python head.block) body wire.site
        (route python (python.upperCase method) path))

def recovered (body : Handler (Option String)) : Handler (Option String) :=
  exceptOSError body (do
    close
    return none)

theorem recovered_congr {body other : Handler (Option String)} {wire after : Wire}
    (same : body wire = other after) : recovered body wire = recovered other after := by
  rw [recovered, recovered, exceptOSError, exceptOSError, same]

section Recovered

variable {body : Handler (Option String)} {wire after : Wire}

theorem settled_ok {room : Option String} (ran : body wire = .ok room after) :
    Settled (recovered body wire) ↔ Settled (.ok room after) := by
  rw [recovered, exceptOSError, ran]

theorem settled_closed (ran : body wire = .ok none after) (closed : after.closed = true) :
    Settled (recovered body wire) := (settled_ok ran).mpr closed

theorem settled_error {stop : Stop} (ran : body wire = .error stop after) (open_ : after.closed = false) :
    Settled (recovered body wire) ↔ ¬ Escapes (.error stop after : EStateM.Result Stop Wire Unit) := by
  rw [recovered, exceptOSError, ran]
  cases stop with
  | waiting => exact iff_of_true trivial not_false
  | raised exc =>
    cases exc with
    | osError => exact iff_of_true rfl fun escapes => escapes rfl
    | _ =>
      exact iff_of_false (fun closed => Bool.noConfusion (open_.symm.trans closed))
        fun caught => caught Exc.noConfusion

end Recovered

theorem stop_caught (ending : Ending) (wire : Wire) :
    ¬ Escapes (.error ending.stop wire : EStateM.Result Stop Wire Unit) := by
  unfold Ending.stop
  split
  · exact not_false
  · exact fun escapes => escapes rfl

theorem acceptKey_none (key : Str) :
    Ws.acceptKey (String.ofList key) = none ↔ ∃ c ∈ key, 128 ≤ c.toNat := by
  have guid : Ws.wsGuid.toList.all (fun c => c.toNat < 128) = true := by decide
  simp only [Ws.acceptKey, Ws.encodeAscii, Option.map_eq_none_iff, String.toList_append, List.all_append,
    guid, Bool.and_true, String.toList_ofList]
  simp

theorem settled_sends {body : Handler (Option String)} (rest : Handler (Option String)) {data : Bytes}
    (room : Option String) {wire after : Wire} (begun : body wire = (drain >>= fun _ => rest) (wire.sends data))
    (ran : rest (wire.sends data) = .ok room after) (settled : Settled (.ok room after))
    (open_ : wire.closed = false) : Settled (recovered body wire) := by
  cases drains : wire.drains with
  | true =>
    have gone : drain (wire.sends data) = .ok () (wire.sends data) := by
      simp only [drain, Wire.sends, drains, if_true]
    exact (settled_ok (begun.trans ((bind_ok gone).trans ran))).mpr settled
  | false =>
    have broken : drain (wire.sends data) = .error (.raised .osError) (wire.sends data) := by
      simp only [drain, Wire.sends, drains, Bool.false_eq_true, if_false]
      rfl
    exact (settled_error (begun.trans (bind_error broken)) open_).mpr fun escapes => escapes rfl

theorem settled_refuse (wire : Wire) (open_ : wire.closed = false) : Settled (recovered refuse wire) :=
  settled_sends (do
    close
    return none) none rfl rfl rfl open_

theorem upgrade_settles (line : Bytes) (headers : Headers) (wire : Wire) (silent : wire.written = [])
    (open_ : wire.closed = false) (asks : upgrades python headers = true) :
    Settled (recovered (upgrade python line headers) wire) ↔ ¬ BadKey python wire.site line headers := by
  have begun : upgrade python line headers wire =
      (if !wire.site.store.rooms.isOpen (roomAsked python line headers) then refuse
      else if wire.site.store.rooms.isFull (roomAsked python line headers) then refuse
      else switchProtocols (roomAsked python line headers)
        (Ws.acceptKey (String.ofList (headers.get "sec-websocket-key" ""))) : Handler (Option String)) wire := rfl
  rw [recovered_congr begun]
  cases isOpen : wire.site.store.rooms.isOpen (roomAsked python line headers) with
  | false => exact iff_of_true (settled_refuse wire open_) fun bad => Bool.noConfusion (isOpen.symm.trans bad.isOpen)
  | true =>
    cases room : wire.site.store.rooms.isFull (roomAsked python line headers) with
    | true => exact iff_of_true (settled_refuse wire open_) fun bad => Bool.noConfusion (room.symm.trans bad.room)
    | false =>
      have key := acceptKey_none (headers.get "sec-websocket-key" "")
      cases accepts : Ws.acceptKey (String.ofList (headers.get "sec-websocket-key" "")) with
      | none =>
        refine iff_of_false ?_ fun fine => fine ⟨asks, isOpen, room, key.mp accepts⟩
        exact fun settled => (settled_error rfl open_).mp settled Exc.noConfusion
      | some accept =>
        rw [accepts] at key
        refine iff_of_true ?_ fun bad => Option.some_ne_none _ (key.mpr bad.key)
        have sent : (wire.sends (Ws.handshakeResponse accept)).written = Ws.handshakeResponse accept := by
          rw [Wire.sends, silent]
          rfl
        exact settled_sends (return some _) _ rfl rfl ⟨accept, sent⟩ open_

theorem fails_words (headers : Headers) (body line : Bytes) (site : Site) :
    RoutingFails python headers body site (route python (wsMethod python line) (wsPath line)) ↔
      ∃ method path more, (latin1 line).splitOn ' ' = method :: path :: more ∧
        RoutingFails python headers body site (route python (python.upperCase method) path) := by
  unfold wsMethod wsPath
  have unknown (method : Str) : route python method [] = .notFound := by
    simp [route, pathOnly]
  rcases (latin1 line).splitOn ' ' with _ | ⟨method, _ | ⟨path, more⟩⟩
  · simp [unknown, RoutingFails]
  · simp [unknown, RoutingFails]
  · simp

theorem plain_settles (line : Bytes) (headers : Headers) (wire : Wire) (open_ : wire.closed = false)
    (plain : upgrades python headers = false) :
    Settled (recovered (wsRequest python line headers) wire) ↔
      ∀ body, BodyArrives wire (contentLength python headers) body →
        ¬ RoutingFails python headers body wire.site (route python (wsMethod python line) (wsPath line)) := by
  have begun : wsRequest python line headers wire = (do
      let body ← readBody (contentLength python headers)
      respond python headers body (route python (wsMethod python line) (wsPath line))
      close
      return none : Handler (Option String)) wire := by
    rw [wsRequest, plain]
    rfl
  rw [recovered_congr begun]
  rcases readBody_cases wire (contentLength python headers) with ⟨body, arrives⟩ | stops
  · obtain ⟨lines, remnant, read⟩ := arrives.readBody
    have only : (∀ other, BodyArrives wire (contentLength python headers) other →
        ¬ RoutingFails python headers other wire.site (route python (wsMethod python line) (wsPath line))) ↔
        ¬ RoutingFails python headers body wire.site (route python (wsMethod python line) (wsPath line)) :=
      ⟨fun all => all body arrives, fun one other too => arrives.unique too ▸ one⟩
    rw [only, recovered_congr (bind_ok read)]
    have escapes := escapes_respond python headers body (route python (wsMethod python line) (wsPath line))
      { wire with lines := lines, remnant := remnant }
    have closed := respond_closed python headers body (route python (wsMethod python line) (wsPath line))
      { wire with lines := lines, remnant := remnant }
    rw [← escapes]
    cases ran : respond python headers body (route python (wsMethod python line) (wsPath line))
        { wire with lines := lines, remnant := remnant } with
    | ok _ after =>
      exact iff_of_true (settled_closed (bind_ok ran) rfl) not_false
    | error stop after =>
      rw [ran] at closed
      exact settled_error (bind_error ran) (closed.trans open_)
  · refine iff_of_true ?_ fun body arrives => ?_
    · exact (settled_error (bind_error stops) open_).mpr (stop_caught wire.ending wire)
    · obtain ⟨lines, remnant, read⟩ := arrives.readBody
      rw [stops] at read
      cases read

theorem upgrade_request {line : Bytes} {headers : Headers} (asks : upgrades python headers = true) :
    wsRequest python line headers = upgrade python line headers := by
  rw [wsRequest, asks]
  rfl

theorem Leaks.reads {python : Python} {wire : Wire} (leaks : Leaks python wire) (newline : 10 ∉ wire.remnant) :
    (∃ head : Head, readHead wire = .ok (some (head.line, head.block)) (wire.behind head)) ∨
      ∃ lines, readHead wire = .error (.raised .valueError) { wire with lines := lines } := by
  cases leaks with
  | line overruns => exact .inr overruns.readHead
  | key head arrives => exact .inl ⟨head, arrives.readHead newline⟩
  | route head body method path more arrives => exact .inl ⟨head, arrives.readHead newline⟩

theorem request_settles {head : Head} {wire : Wire} (arrives : Arrives wire head) (newline : 10 ∉ wire.remnant)
    (open_ : wire.closed = false) (silent : wire.written = []) :
    Settled (recovered (wsRequest python head.line (parseHeaders python head.block)) (wire.behind head)) ↔
      ¬ Leaks python wire := by
  cases asks : upgrades python (parseHeaders python head.block) with
  | true =>
    rw [upgrade_request python asks, upgrade_settles python _ _ (wire.behind head) silent open_ asks]
    refine not_congr ⟨fun bad => .key head arrives bad, fun leaks => ?_⟩
    cases leaks with
    | line overruns => exact (arrives.not_overruns newline overruns).elim
    | key other too bad => exact arrives.unique too newline ▸ bad
    | route other body method path more too plain =>
      rw [← arrives.unique too newline, asks] at plain
      cases plain
  | false =>
    rw [plain_settles python _ _ (wire.behind head) open_ asks]
    constructor
    · rintro fine (overruns | ⟨other, too, bad⟩ | ⟨other, body, method, path, more, too, -, read, words, fails⟩)
      · exact arrives.not_overruns newline overruns
      · have upgrade := bad.upgrade
        rw [← arrives.unique too newline, asks] at upgrade
        cases upgrade
      · rw [← arrives.unique too newline] at read words fails
        exact fine body read ((fails_words python _ body _ _).mpr ⟨method, path, more, words, fails⟩)
    · intro fine body read fails
      obtain ⟨method, path, more, words, fails⟩ := (fails_words python _ body _ _).mp fails
      exact fine (.route head body method path more arrives asks read words fails)

theorem settles_iff (wire : Wire) (newline : 10 ∉ wire.remnant) (open_ : wire.closed = false)
    (silent : wire.written = []) : Settled (handleWs python wire) ↔ ¬ Leaks python wire := by
  change Settled (recovered (readHead >>= wsHead python) wire) ↔ _
  rcases head_cases wire with ⟨head, arrives⟩ | overruns | nothing | broken
  · rw [recovered_congr (bind_ok (arrives.readHead newline)), wsHead]
    exact request_settles python arrives newline open_ silent
  · obtain ⟨lines, read⟩ := overruns.readHead
    refine iff_of_false (fun settled => ?_) fun fine => fine (.line overruns)
    exact (settled_error (bind_error read) open_).mp settled Exc.noConfusion
  · refine iff_of_true (settled_closed (bind_ok nothing.readHead) rfl) fun leaks => ?_
    rcases leaks.reads newline with ⟨head, read⟩ | ⟨lines, read⟩ <;>
      cases nothing.readHead.symm.trans read
  · obtain ⟨lines, read⟩ := broken.readHead
    refine iff_of_true ((settled_error (bind_error read) open_).mpr (stop_caught wire.ending _)) fun leaks => ?_
    rcases leaks.reads newline with ⟨head, again⟩ | ⟨lines, again⟩
    · cases read.symm.trans again
    · have valueError := (EStateM.Result.error.inj (read.symm.trans again)).1
      cases ending : wire.ending <;> rw [ending] at valueError <;> cases valueError

theorem handleWs_settles (site : Site) (input : Bytes) (ending : Ending) (drains : Bool) :
    Settled (handleWs python (connect site input ending drains)) ↔
      ¬ Leaks python (connect site input ending drains) :=
  settles_iff python _ (connect_newline site input ending drains) rfl rfl

-- An otherwise good request with the key é.
def accentedUpgrade : Bytes :=
  ascii "GET /ws HTTP/1.1\r\nUpgrade: websocket\r\nConnection: Upgrade\r\nSec-WebSocket-Key: " ++ [0xE9] ++
    ascii "\r\n\r\n"

theorem accentedUpgrade_leaks : ¬ Settled (handleWs asciiPython (connect startSite accentedUpgrade .eof true)) := by
  rw [settles_iff _ _ (connect_newline _ _ _ _) rfl rfl, not_not]
  have lines_eq : (connect startSite accentedUpgrade .eof true).lines =
      ascii "GET /ws HTTP/1.1\r" :: ([ascii "Upgrade: websocket\r", ascii "Connection: Upgrade\r",
        ascii "Sec-WebSocket-Key: " ++ [0xE9] ++ ascii "\r"] ++ ascii "\r" :: []) := by
    decide +kernel
  refine .key _ (.blank _ _ _ _ lines_eq ?_ ?_ ?_) ⟨?_, ?_, ?_, Char.ofNat 0xE9, ?_, ?_⟩
  · unfold InLimit
    decide +kernel
  · unfold Filled
    decide +kernel
  all_goals decide +kernel

end MidiToIp.Orchestrator
