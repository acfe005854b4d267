import MidiToIp.Orchestrator.Guarded
import MidiToIp.Shared.HttpMessage

set_option autoImplicit false

namespace MidiToIp.Orchestrator

open Octets CString HttpMessage

def statuses : List String :=
  ["200 OK", "400 Bad Request", "403 Forbidden", "404 Not Found"]

def ctypes : List String := [jsonType, htmlType]

def httpVersion : Bytes := ascii "HTTP/1.1 "

def pageMessage (status : String) (body : Bytes) (ctype : String) : HttpMessage where
  start := httpVersion ++ ascii status
  fields :=
    [(ascii "Content-Type", ascii ctype), (ascii "Access-Control-Allow-Origin", ascii "*"),
      (lengthName, decimal body.length), (ascii "Connection", ascii "close")]
  body := body

def forbiddenMessage : HttpMessage where
  start := httpVersion ++ ascii "403 Forbidden"
  fields := [(ascii "Connection", ascii "close")]
  body := []

def switchingMessage (accept : Bytes) : HttpMessage where
  start := httpVersion ++ ascii "101 Switching Protocols"
  fields :=
    [(ascii "Upgrade", ascii "websocket"), (ascii "Connection", ascii "Upgrade"),
      (ascii "Sec-WebSocket-Accept", accept)]
  body := []

theorem ascii_inline (text : String) (inline_ : (ascii text).all (fun b => b ≠ 13) = true) :
    13 ∉ ascii text := by
  intro member
  simpa using List.all_eq_true.mp inline_ 13 member

theorem response_wire (status : String) (body : Bytes) (ctype : String) :
    response status body ctype = (pageMessage status body ctype).wire := by
  have ends : ascii "\r\n" = lineEnd := by decide
  have type_ : ascii "Content-Type: " = ascii "Content-Type" ++ separator := by decide
  have origin : ascii "Access-Control-Allow-Origin: *\r\n" =
      ascii "Access-Control-Allow-Origin" ++ separator ++ ascii "*" ++ lineEnd := by decide
  have length_ : ascii "Content-Length: " = lengthName ++ separator := by decide
  have close_ : ascii "Connection: close\r\n\r\n" =
      ascii "Connection" ++ separator ++ ascii "close" ++ lineEnd ++ lineEnd := by decide
  unfold response
  rw [ends, type_, origin, length_, close_]
  simp [wire, pageMessage, fieldLine, httpVersion]

theorem forbidden_wire : forbidden = forbiddenMessage.wire := by decide

theorem handshakeResponse_wire (accept : Bytes) :
    Ws.handshakeResponse accept = (switchingMessage accept).wire := by
  have ends : ascii "\r\n" = lineEnd := by decide
  have start : ascii "HTTP/1.1 101 Switching Protocols\r\n" =
      httpVersion ++ ascii "101 Switching Protocols" ++ lineEnd := by decide
  have upgrade_ : ascii "Upgrade: websocket\r\n" =
      ascii "Upgrade" ++ separator ++ ascii "websocket" ++ lineEnd := by decide
  have connection : ascii "Connection: Upgrade\r\n" =
      ascii "Connection" ++ separator ++ ascii "Upgrade" ++ lineEnd := by decide
  have accept_ : ascii "Sec-WebSocket-Accept: " = ascii "Sec-WebSocket-Accept" ++ separator := by decide
  unfold Ws.handshakeResponse
  rw [ends, start, upgrade_, connection, accept_]
  simp [wire, switchingMessage, fieldLine]

theorem decimal_plain (n : Nat) : 13 ∉ decimal n ∧ (decimal n).head? ≠ some 32 := by
  have digits := decimal_isdigit n
  refine ⟨fun member => by simpa [isdigit] using digits 13 member, fun first => ?_⟩
  have member : 32 ∈ decimal n := List.mem_of_head? first
  simpa [isdigit] using digits 32 member

theorem pageMessage_wellFormed (status : String) (body : Bytes) (ctype : String)
    (known : status ∈ statuses) (typed : ctype ∈ ctypes) : WellFormed (pageMessage status body ctype) where
  start := by
    have all : statuses.all (fun status => (httpVersion ++ ascii status).all (fun b => b ≠ 13)) = true := by
      decide
    intro member
    simpa using List.all_eq_true.mp (List.all_eq_true.mp all status known) 13 member
  names := by
    intro field member
    simp only [pageMessage, List.mem_cons, List.not_mem_nil, or_false] at member
    rcases member with rfl | rfl | rfl | rfl
    · exact (by decide : 13 ∉ ascii "Content-Type" ∧ 58 ∉ ascii "Content-Type")
    · exact ⟨by decide, by decide⟩
    · exact (by decide : 13 ∉ lengthName ∧ 58 ∉ lengthName)
    · exact ⟨by decide, by decide⟩
  values := by
    have all : ctypes.all (fun ctype => (ascii ctype).all (fun b => b ≠ 13) ∧
      (ascii ctype).head? ≠ some 32) = true := by decide
    obtain ⟨within, shown⟩ := of_decide_eq_true (List.all_eq_true.mp all ctype typed)
    intro field member
    simp only [pageMessage, List.mem_cons, List.not_mem_nil, or_false] at member
    rcases member with rfl | rfl | rfl | rfl
    · exact ⟨ascii_inline ctype within, shown⟩
    · exact ⟨by decide, by decide⟩
    · exact decimal_plain body.length
    · exact ⟨by decide, by decide⟩
  sized := by
    have found : (pageMessage status body ctype).fields.lookup lengthName = some (decimal body.length) := by
      have other : (lengthName == ascii "Content-Type") = false := by decide
      have another : (lengthName == ascii "Access-Control-Allow-Origin") = false := by decide
      simp [pageMessage, List.lookup_cons, other, another]
    rw [sized, found, Option.all_some, number_decimal]
    simp [pageMessage]

theorem switchingMessage_wellFormed (accept : Bytes) (inline_ : 13 ∉ accept)
    (shown : accept.head? ≠ some 32) : WellFormed (switchingMessage accept) where
  start := (by decide : 13 ∉ httpVersion ++ ascii "101 Switching Protocols")
  names := by
    intro field member
    simp only [switchingMessage, List.mem_cons, List.not_mem_nil, or_false] at member
    rcases member with rfl | rfl | rfl
    · exact ⟨by decide, by decide⟩
    · exact ⟨by decide, by decide⟩
    · exact (by decide : 13 ∉ ascii "Sec-WebSocket-Accept" ∧ 58 ∉ ascii "Sec-WebSocket-Accept")
  values := by
    intro field member
    simp only [switchingMessage, List.mem_cons, List.not_mem_nil, or_false] at member
    rcases member with rfl | rfl | rfl
    · exact ⟨by decide, by decide⟩
    · exact ⟨by decide, by decide⟩
    · exact ⟨inline_, shown⟩
  sized := by
    have one : (lengthName == ascii "Upgrade") = false := by decide
    have two : (lengthName == ascii "Connection") = false := by decide
    have three : (lengthName == ascii "Sec-WebSocket-Accept") = false := by decide
    simp [sized, switchingMessage, List.lookup_cons, one, two, three]

theorem forbiddenMessage_wellFormed : WellFormed forbiddenMessage where
  start := by decide
  names := by decide
  values := by decide
  sized := by decide

inductive Paged : Bytes → Prop where
  | nothing : Paged []
  | page (status : String) (body : Bytes) (ctype : String) (known : status ∈ statuses)
      (typed : ctype ∈ ctypes) : Paged (response status body ctype)

def pageOf (site : Site) : Route → Option (String × Bytes × String)
  | .status room => some ("200 OK", statusJson site room, jsonType)
  | .rooms => some ("200 OK", roomsJson site, jsonType)
  | .lobby => some ("200 OK", site.lobbyPage, htmlType)
  | .page => some ("200 OK", site.statusPage, htmlType)
  | .notFound => some ("404 Not Found", errorBody "not found", jsonType)
  | .createRoom => none
  | .deleteRoom _ => none

section Routes

variable (python : Python) (headers : Headers) (body : Bytes)

theorem postRoom_paged (wire : Wire) :
    ∃ sent, Paged sent ∧ (left (postRoom python body wire)).written = wire.written ++ sent := by
  have silent : ∃ sent, Paged sent ∧ wire.written = wire.written ++ sent :=
    ⟨[], .nothing, (List.append_nil _).symm⟩
  have posted := postRoom_posted python body wire
  generalize postRoom python body wire = result at posted ⊢
  cases posted with
  | unreadable => exact silent
  | new raw key =>
    rcases sendCreated_left python key wire with ⟨page, answer⟩ | answer
    · rw [answer]
      exact ⟨_, .page "200 OK" page jsonType (by decide) (by decide), rfl⟩
    · rw [answer]
      exact silent
  | noCode => exact silent
  | invalid =>
    rw [left_httpSend]
    exact ⟨_, .page "400 Bad Request" _ jsonType (by decide) (by decide), rfl⟩

theorem deleteRoom_paged (key : String) (wire : Wire) :
    ∃ sent, Paged sent ∧
      (left ((deleteRoom python key >>= sendDeleted key) wire)).written = wire.written ++ sent := by
  rcases deleteRoom_cases python key wire with ⟨ok, -⟩ | ⟨exc, -, error, -⟩
  · rw [bind_ok ok]
    cases (wire.site.store.delete key).1 with
    | none =>
      rw [sendDeleted, left_httpSend]
      exact ⟨_, .page "404 Not Found" _ jsonType (by decide) (by decide), rfl⟩
    | some players =>
      rw [sendDeleted_some, left_httpSend]
      exact ⟨_, .page "200 OK" _ jsonType (by decide) (by decide), rfl⟩
  · rw [bind_error error]
    exact ⟨[], .nothing, (List.append_nil _).symm⟩

theorem respond_page (r : Route) (wire : Wire) (status : String) (page : Bytes) (ctype : String)
    (shows : pageOf wire.site r = some (status, page, ctype)) :
    status ∈ statuses ∧ ctype ∈ ctypes ∧
      (left (respond python headers body r wire)).written = wire.written ++ response status page ctype := by
  have sent : (left (httpSend status page ctype wire)).written = wire.written ++ response status page ctype := by
    rw [left_httpSend]
    rfl
  cases r with
  | createRoom | deleteRoom => cases shows
  | status | rooms =>
    cases shows
    exact ⟨by decide, by decide, sent⟩
  | lobby | page =>
    cases shows
    exact ⟨by decide, by decide, sent⟩
  | notFound =>
    cases shows
    exact ⟨by decide, by decide, sent⟩

theorem respond_paged (r : Route) (wire : Wire) :
    ∃ sent, Paged sent ∧ (left (respond python headers body r wire)).written = wire.written ++ sent := by
  have stranger : ∃ sent, Paged sent ∧ (left (adminRequired wire)).written = wire.written ++ sent := by
    rw [adminRequired, left_httpSend]
    exact ⟨_, .page "403 Forbidden" _ jsonType (by decide) (by decide), rfl⟩
  cases shows : pageOf wire.site r with
  | some page =>
    obtain ⟨known, typed, sent⟩ := respond_page python headers body r wire page.1 page.2.1 page.2.2 shows
    exact ⟨_, .page page.1 page.2.1 page.2.2 known typed, sent⟩
  | none =>
    cases r with
    | createRoom =>
      rw [respond_createRoom]
      split_ifs
      · exact postRoom_paged python body wire
      · exact stranger
    | deleteRoom key =>
      rw [respond_deleteRoom]
      split_ifs
      · exact deleteRoom_paged python key wire
      · exact stranger
    | status | rooms | lobby | page | notFound => cases shows

theorem answered_paged (method path : Str) (wire : Wire) :
    ∃ sent, Paged sent ∧ (left (answered python method path headers wire)).written = wire.written ++ sent := by
  rw [answered]
  rcases readBody_cases wire (Orchestrator.contentLength python headers) with ⟨body, arrives⟩ | stops
  · obtain ⟨lines, remnant, read⟩ := arrives.readBody
    rw [bind_ok read, routeHttp]
    exact respond_paged python headers body _ { wire with lines := lines, remnant := remnant }
  · rw [bind_error stops]
    exact ⟨[], .nothing, (List.append_nil _).symm⟩

end Routes

structure Complete (sent : Bytes) (message : HttpMessage) : Prop where
  reads : read sent = some message
  status : message.start ∈ (statuses ++ ["101 Switching Protocols"]).map fun status => httpVersion ++ ascii status

theorem pageMessage_complete (status : String) (body : Bytes) (ctype : String)
    (known : status ∈ statuses) (typed : ctype ∈ ctypes) :
    Complete (response status body ctype) (pageMessage status body ctype) where
  reads := by
    rw [response_wire]
    exact read_wire _ (pageMessage_wellFormed status body ctype known typed)
  status := List.mem_map.mpr ⟨status, List.mem_append_left _ known, rfl⟩

theorem Paged.complete {sent : Bytes} (paged : Paged sent) : sent = [] ∨ ∃ message, Complete sent message := by
  cases paged with
  | nothing => exact .inl rfl
  | page status body ctype known typed => exact .inr ⟨_, pageMessage_complete status body ctype known typed⟩

theorem UpgradeAnswer.complete {sent : Bytes} (answer : UpgradeAnswer sent) :
    sent = [] ∨ ∃ message, Complete sent message := by
  cases answer with
  | refused =>
    refine .inr ⟨forbiddenMessage, ?_, by decide⟩
    rw [forbidden_wire]
    exact read_wire _ forbiddenMessage_wellFormed
  | badKey => exact .inl rfl
  | accepted key accept accepts =>
    have visible : accept.all (fun b => 33 ≤ b.toNat ∧ b.toNat < 127) = true := by
      obtain ⟨bytes, -, rfl⟩ := Option.map_eq_some_iff.mp accepts
      exact Base64.standard_visible _
    have shown : accept.head? ≠ some 32 := by
      intro first
      have range := of_decide_eq_true (List.all_eq_true.mp visible 32 (List.mem_of_head? first))
      simp at range
    refine .inr ⟨switchingMessage accept, ?_, List.mem_map.mpr ⟨"101 Switching Protocols", by decide, rfl⟩⟩
    rw [handshakeResponse_wire]
    exact read_wire _ (switchingMessage_wellFormed _ (visible_inline visible).1 shown)

section Served

variable (python : Python) (request : HttpRequest) (site : Site)

theorem effect_answered (method path : Str) (head : Head) :
    ∃ sent, Paged sent ∧ (effect (answered python method path (parseHeaders python head.block)
      ((request.wire site).behind head))).1 = sent :=
  answered_paged python _ method path ((request.wire site).behind head)

theorem answers_framed :
    ((request.serve python site).1 = [] ∨ ∃ message, Complete (request.serve python site).1 message) ∧
      ∀ head body status page ctype, Arrives (request.wire site) head →
        (request.port = .ws → upgrades python (parseHeaders python head.block) = false) →
        BodyArrives ((request.wire site).behind head)
          (Orchestrator.contentLength python (parseHeaders python head.block)) body →
        pageOf site (request.route python head.line) = some (status, page, ctype) →
        read (request.serve python site).1 = some (pageMessage status page ctype) := by
  constructor
  · by_cases some_ : ∃ head, Arrives (request.wire site) head
    · obtain ⟨head, arrives⟩ := some_
      rcases effect_serve python request site head arrives with
        ⟨method, path, -, served⟩ | ⟨-, -, sent, answer, served⟩
      · obtain ⟨sent, paged, done⟩ := effect_answered python request site method path head
        rw [served, done]
        exact paged.complete
      · rw [served]
        exact answer.complete
    · rw [effect_headless python request site some_]
      exact .inl rfl
  · intro head body status page ctype arrives plain whole shows
    rcases effect_serve python request site head arrives with
      ⟨method, path, routed, served⟩ | ⟨port, upgrading, -⟩
    · obtain ⟨lines, remnant, read_⟩ := whole.readBody
      rw [routed] at shows
      obtain ⟨known, typed, sent⟩ := respond_page python (parseHeaders python head.block) body _
        { (request.wire site).behind head with lines := lines, remnant := remnant } status page ctype shows
      have done : (request.serve python site).1 = response status page ctype := by
        rw [served, answered, bind_ok read_]
        exact sent
      rw [done]
      exact (pageMessage_complete status page ctype known typed).reads
    · rw [plain port] at upgrading
      cases upgrading

end Served

def roomsRequest : HttpRequest := ⟨.http, getRooms, .eof, true⟩

theorem answers_framed_rooms :
    read (roomsRequest.serve asciiPython startSite).1 =
      some (pageMessage "200 OK" (roomsJson startSite) jsonType) :=
  (answers_framed asciiPython roomsRequest startSite).2 _ [] _ _ _ getRooms_arrives (by decide)
    (.inl ⟨Nat.zero_le _, by decide +kernel⟩) (by decide +kernel)

end MidiToIp.Orchestrator
