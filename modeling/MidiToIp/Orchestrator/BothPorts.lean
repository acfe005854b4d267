import MidiToIp.Orchestrator.Answer
import MidiToIp.Orchestrator.RequestLine

set_option autoImplicit false

namespace MidiToIp.Orchestrator

open Octets CString

variable (python : Python)

def effect {Result : Type} (result : EStateM.Result Stop Wire Result) : Bytes × Site :=
  ((left result).written, (left result).site)

def SameResponse (wire : Wire) : Prop := effect (handleWs python wire) = effect (handleHttp python wire)

theorem response_injective (status ctype : String) (body other : Bytes)
    (same : response status body ctype = response status other ctype) : body = other := by
  let headerEnd := ascii "\r\nConnection: close\r\n\r\n"
  have lengthLine (body : Bytes) : response status body ctype =
      ascii "HTTP/1.1 " ++ ascii status ++ ascii "\r\n" ++ ascii "Content-Type: " ++ ascii ctype ++
        ascii "\r\n" ++ ascii "Access-Control-Allow-Origin: *\r\n" ++ ascii "Content-Length: " ++
        (decimal body.length ++ (headerEnd ++ body)) := by
    have joined : headerEnd = ascii "\r\n" ++ ascii "Connection: close\r\n\r\n" := by decide
    rw [joined]
    simp [response]
  rw [lengthLine, lengthLine] at same
  have lengths := List.append_cancel_left same
  have digits (n : Nat) (rest : Bytes) :
      (decimal n ++ (headerEnd ++ rest)).takeWhile isdigit = decimal n :=
    takeWhile_append_stop isdigit (decimal n) _ 13 (decimal_isdigit n) (by decide)
  have equal : decimal body.length = decimal other.length := by
    rw [← digits body.length body, lengths, digits]
  rw [equal] at lengths
  exact List.append_cancel_left (List.append_cancel_left lengths)

theorem statusJson_injective (s : Site) (room other : String)
    (same : statusJson s room = statusJson s other) : room = other :=
  JsonText.field_injective (some 2)
    [("uptime_s", .int (truncated (s.clock - s.startedAt))), ("listen", .str s.listenAddr)] _ _ "room" room other
    same

section Routes

variable (headers : Headers) (body : Bytes) (wire : Wire)

theorem status_same (room other : String) :
    effect (respond python headers body (.status room) wire) =
      effect (respond python headers body (.status other) wire) ↔ room = other := by
  have sent (room : String) : effect (respond python headers body (.status room) wire) =
      (wire.written ++ response "200 OK" (statusJson wire.site room) jsonType, wire.site) := by
    have answer := left_httpSend "200 OK" (statusJson wire.site room) jsonType wire
    change effect (httpSend "200 OK" (statusJson wire.site room) jsonType wire) = _
    rw [effect, answer]
    rfl
  rw [sent, sent]
  refine ⟨fun same => ?_, fun same => by rw [same]⟩
  have bytes := List.append_cancel_left (Prod.mk.inj same).1
  exact statusJson_injective wire.site room other (response_injective _ _ _ _ bytes)

theorem delete_deletable (site : Site) (key : String) (deletable : Deletable site key) (other : String)
    (ring : Nat) :
    (site.store.delete key).2.rooms.registry other = some ring ↔
      other ≠ key ∧ site.store.rooms.registry other = some ring := by
  obtain ⟨named, held⟩ := deletable
  obtain ⟨found, held⟩ := Option.isSome_iff_exists.mp held
  rw [Rooms.registry] at held
  simp only [RoomStore.delete, Rooms.delete, named, held, if_false]
  exact Directory.lookup_erase site.store.rooms.dir key other ring

theorem delete_kept (site : Site) (key : String) (kept : ¬ Deletable site key) :
    site.store.delete key = (none, site.store) := by
  rw [← deleted_iff, RoomStore.delete] at kept
  rw [RoomStore.delete]
  split at kept
  · rfl
  · simp at kept

theorem delete_differs (site : Site) (key other : String) (different : key ≠ other)
    (deletable : Deletable site key) : (site.store.delete key).2 ≠ (site.store.delete other).2 := by
  intro same
  obtain ⟨ring, held⟩ := Option.isSome_iff_exists.mp deletable.2
  have stays : (site.store.delete other).2.rooms.registry key = some ring := by
    by_cases both : Deletable site other
    · exact (delete_deletable site other both key ring).mpr ⟨different, held⟩
    · rw [delete_kept site other both, held]
  rw [← same] at stays
  exact ((delete_deletable site key deletable key ring).mp stays).1 rfl

theorem sendDeleted_store (key : String) (dropped : Option (List Player)) :
    (left (sendDeleted key dropped wire)).site.store = wire.site.store := by
  cases dropped with
  | none =>
    rw [sendDeleted, left_httpSend]
    rfl
  | some players =>
    rw [sendDeleted_some, left_httpSend]
    rfl

theorem deleted_store (key : String) (admin : adminOk wire.site headers = true) :
    (left (respond python headers body (.deleteRoom key) wire)).site.store = (wire.site.store.delete key).2 := by
  rw [respond_deleteRoom, if_pos admin]
  rcases deleteRoom_cases python key wire with ⟨ok, -⟩ | ⟨exc, -, error, -⟩
  · rw [bind_ok ok, sendDeleted_store]
    rfl
  · rw [bind_error error]
    rfl

theorem undeletable (key : String) (admin : adminOk wire.site headers = true)
    (kept : ¬ Deletable wire.site key) :
    respond python headers body (.deleteRoom key) wire =
      httpSend "404 Not Found" (errorBody "no such room") jsonType wire := by
  rw [respond_deleteRoom, if_pos admin]
  rcases deleteRoom_cases python key wire with ⟨ok, -⟩ | ⟨exc, -, -, some_, -⟩
  · rw [bind_ok ok, delete_kept wire.site key kept]
    rfl
  · exact absurd ((deleted_iff wire.site key).mp some_) kept

def SameDeletion (site : Site) (key other : String) : Prop :=
  key = other ∨ adminOk site headers = false ∨ (¬ Deletable site key ∧ ¬ Deletable site other)

theorem delete_same (key other : String) :
    effect (respond python headers body (.deleteRoom key) wire) =
      effect (respond python headers body (.deleteRoom other) wire) ↔
        SameDeletion headers wire.site key other := by
  rw [SameDeletion]
  by_cases equal : key = other
  · simp [equal]
  cases admin : adminOk wire.site headers with
  | false =>
    rw [respond_deleteRoom, respond_deleteRoom, admin]
    simp
  | true =>
    simp only [equal, Bool.true_eq_false, false_or]
    constructor
    · intro same
      have stores := congrArg (fun effect : Bytes × Site => effect.2.store) same
      simp only [effect, deleted_store python headers body wire _ admin] at stores
      exact ⟨fun deletable => delete_differs _ key other equal deletable stores,
        fun deletable => delete_differs _ other key (Ne.symm equal) deletable stores.symm⟩
    · rintro ⟨first, second⟩
      rw [undeletable python headers body wire key admin first,
        undeletable python headers body wire other admin second]

end Routes

def Unknown (line : Str) : Prop :=
  match python.words line with
  | [] => False
  | [method] => python.upperCase method ≠ "GET".toList
  | method :: target :: _ => ¬ Known (python.upperCase method) target

/-- A request line that both ports take for the same, or for nothing they know. -/
inductive ReadsAlike (site : Site) (headers : Headers) (line : Str) : Prop where
  | unknown (unknown : Unknown python line)
  | plain (method target rest : Str) (spaced : Spaced python line method target [] rest)
  | query (method target tail rest : Str) (spaced : Spaced python line method target tail rest)
      (question : '?' ∈ target)
      (room : python.upperCase method = "GET".toList → pathOnly target = "/status.json".toList →
        python.normalizeRoom (queryParam target "room") =
          python.normalizeRoom (queryParam (target ++ tail) "room"))
  | deletion (method target tail rest : Str) (spaced : Spaced python line method target tail rest)
      (question : '?' ∉ target) (delete : python.upperCase method = "DELETE".toList)
      (rooms : "/rooms/".toList <+: target)
      (same : SameDeletion headers site (python.normalizeRoom (String.ofList (target.drop 7)))
        (python.normalizeRoom (String.ofList ((target ++ pathOnly tail).drop 7))))

theorem known_slash (method : Str) : Known method "/".toList ↔ method = "GET".toList := by
  have slash : pathOnly "/".toList = "/".toList := by decide
  constructor
  · rintro (⟨get, -⟩ | ⟨-, rooms⟩ | ⟨-, rooms⟩)
    · exact get
    · exact absurd rooms (by decide)
    · exact absurd rooms (by decide)
  · intro get
    refine .inl ⟨get, ?_⟩
    rw [slash]
    decide

theorem unknown_iff (requestLine : Bytes) :
    Unknown python (latin1 requestLine) ↔
      ¬ Known (httpMethod python requestLine) (httpPath python requestLine) := by
  unfold Unknown httpMethod httpPath
  rcases python.words (latin1 requestLine) with _ | ⟨method, _ | ⟨target, more⟩⟩
  · exact iff_of_false not_false fun unknown => unknown ((known_slash _).mpr rfl)
  · exact not_congr (known_slash _).symm
  · exact Iff.rfl

theorem Spaced.unique {python : Python} {requestLine : Bytes} {method target tail rest : Str}
    {method' target' tail' rest' : Str}
    (spaced : Spaced python (latin1 requestLine) method target tail rest)
    (again : Spaced python (latin1 requestLine) method' target' tail' rest') :
    python.upperCase method' = python.upperCase method ∧ target' = target ∧ tail' = tail := by
  have target_eq : target' = target := again.httpPath.symm.trans spaced.httpPath
  refine ⟨again.httpMethod.symm.trans spaced.httpMethod, target_eq, ?_⟩
  have path := again.wsPath.symm.trans spaced.wsPath
  rw [target_eq] at path
  exact List.append_cancel_left path

theorem Known.query {method target : Str} (tail : Str) (question : '?' ∈ target) :
    Known method (target ++ tail) ↔ Known method target := by
  rw [Known, Known, pathOnly_append_of_mem target tail question]

theorem ReadsAlike.known {python : Python} {site : Site} {headers : Headers} {requestLine : Bytes}
    (alike : ReadsAlike python site headers (latin1 requestLine))
    (known : Known (httpMethod python requestLine) (httpPath python requestLine)) :
    Known (wsMethod python requestLine) (wsPath requestLine) := by
  cases alike with
  | unknown unknown => exact absurd known ((unknown_iff python requestLine).mp unknown)
  | plain method target rest spaced =>
    rw [spaced.httpMethod, spaced.httpPath] at known
    rwa [spaced.wsMethod, spaced.wsPath, List.append_nil]
  | query method target tail rest spaced question =>
    rw [spaced.httpMethod, spaced.httpPath] at known
    rwa [spaced.wsMethod, spaced.wsPath, Known.query tail question]
  | deletion method target tail rest spaced question delete rooms =>
    rw [spaced.wsMethod, spaced.wsPath]
    refine .inr (.inr ⟨delete, ?_⟩)
    rw [pathOnly_append_of_not_mem target tail question]
    exact rooms.trans (List.prefix_append _ _)

theorem question_blank (tail : Str) (blank : ∀ c later, tail = c :: later → python.isSpace c = true)
    (some_ : tail ≠ []) : ∃ c later, pathOnly tail = c :: later ∧ python.isSpace c = true := by
  cases tail with
  | nil => exact absurd rfl some_
  | cons c later =>
    have space := blank c later rfl
    have notQuestion : c ≠ '?' := by
      rintro rfl
      rw [solid_ascii python ['?'] (by decide) '?' (by simp)] at space
      exact Bool.noConfusion space
    refine ⟨c, pathOnly later, ?_, space⟩
    rw [pathOnly, List.takeWhile_cons_of_pos (by simpa using notQuestion)]
    rfl

theorem Known.blank {python : Python} {method target tail : Str} (known : Known method (target ++ tail))
    (blank : ∀ c later, tail = c :: later → python.isSpace c = true) (some_ : tail ≠ [])
    (question : '?' ∉ target) : method = "DELETE".toList ∧ "/rooms/".toList <+: target := by
  obtain ⟨c, later, tail_eq, space⟩ := question_blank python tail blank some_
  have path : pathOnly (target ++ tail) = target ++ c :: later := by
    rw [pathOnly_append_of_not_mem target tail question, tail_eq]
  have absent : ∀ text ∈ ["/status.json".toList, "/rooms".toList, "/lobby".toList, "/".toList],
      target ++ c :: later ≠ text := by
    intro text member same
    have notSpace := paths_solid python text member c (by simp [← same])
    rw [space] at notSpace
    exact Bool.noConfusion notSpace
  rw [Known, path] at known
  rcases known with ⟨-, one⟩ | ⟨-, rooms⟩ | ⟨delete, rooms⟩
  · exact absurd rfl (absent _ one)
  · exact absurd rooms (absent _ (by simp))
  · refine ⟨delete, prefix_cut python _ target (c :: later) (solid_ascii python _ (by decide)) ?_ rooms⟩
    intro d more same
    rw [← (List.cons.inj same).1]
    exact space

theorem route_delete (target : Str) (rooms : "/rooms/".toList <+: pathOnly target) :
    route python "DELETE".toList target =
      .deleteRoom (python.normalizeRoom (String.ofList ((pathOnly target).drop 7))) := by
  rw [route, if_neg (by simp), if_neg (by simp), if_neg (by simp), if_pos ⟨rfl, rooms⟩]

theorem route_query (method target tail : Str) (question : '?' ∈ target)
    (other : ¬ (method = "GET".toList ∧ pathOnly target = "/status.json".toList)) :
    route python method (target ++ tail) = route python method target := by
  rw [route, route, pathOnly_append_of_mem target tail question, if_neg other, if_neg other]

theorem route_status (target : Str) (status : pathOnly target = "/status.json".toList) :
    route python "GET".toList target = .status (python.normalizeRoom (queryParam target "room")) := by
  rw [route, if_pos ⟨rfl, status⟩]

section Answers

variable (headers : Headers) (body : Bytes) (wire : Wire)

theorem effect_known (r : Route) (served : r ≠ .notFound) :
    effect (respond python headers body r wire) ≠ effect (respond python headers body .notFound wire) := by
  obtain ⟨sent, other, answered⟩ := respond_answers python headers body r served wire
  intro same
  have bytes := (Prod.mk.inj same).1
  have unknown : (left (respond python headers body .notFound wire)).written = wire.written ++ unknownPath :=
    (answered_httpSend _ _ _ wire).written
  rw [answered.written, unknown] at bytes
  exact other (List.append_cancel_left bytes)

section Blanks

variable {python} {headers} {wire} {requestLine : Bytes} {method target tail rest : Str}
  (spaced : Spaced python (latin1 requestLine) method target tail rest)
  (served : Known (python.upperCase method) target) (some_ : tail ≠ [])

include spaced served some_

theorem readsAlike_cases (alike : ReadsAlike python wire.site headers (latin1 requestLine)) :
    ('?' ∈ target ∧ (python.upperCase method = "GET".toList → pathOnly target = "/status.json".toList →
        python.normalizeRoom (queryParam target "room") =
          python.normalizeRoom (queryParam (target ++ tail) "room"))) ∨
      ('?' ∉ target ∧ SameDeletion headers wire.site (python.normalizeRoom (String.ofList (target.drop 7)))
        (python.normalizeRoom (String.ofList ((target ++ pathOnly tail).drop 7)))) := by
  cases alike with
  | unknown unknown =>
    rw [unknown_iff, spaced.httpMethod, spaced.httpPath] at unknown
    exact absurd served unknown
  | plain method' target' rest' again => exact absurd (spaced.unique again).2.2.symm some_
  | query method' target' tail' rest' again question room =>
    obtain ⟨upper, same, same'⟩ := spaced.unique again
    rw [upper, same, same'] at room
    rw [same] at question
    exact .inl ⟨question, room⟩
  | deletion method' target' tail' rest' again question delete rooms same =>
    rw [(spaced.unique again).2.1, (spaced.unique again).2.2] at same
    rw [(spaced.unique again).2.1] at question
    exact .inr ⟨question, same⟩

theorem answers_query (question : '?' ∈ target) :
    effect (respond python headers body (route python (python.upperCase method) target) wire) =
      effect (respond python headers body (route python (python.upperCase method) (target ++ tail)) wire) ↔
      ReadsAlike python wire.site headers (latin1 requestLine) := by
  by_cases status : python.upperCase method = "GET".toList ∧ pathOnly target = "/status.json".toList
  · have path := pathOnly_append_of_mem target tail question
    rw [status.1, route_status python target status.2,
      route_status python (target ++ tail) (path.trans status.2), status_same]
    refine ⟨fun same => .query method target tail rest spaced question fun _ _ => same, fun alike => ?_⟩
    rcases readsAlike_cases spaced served some_ alike with ⟨-, room⟩ | ⟨absent, -⟩
    · exact room status.1 status.2
    · exact absurd question absent
  · rw [route_query python _ target tail question status]
    exact iff_of_true rfl
      (.query method target tail rest spaced question fun get json => absurd ⟨get, json⟩ status)

theorem answers_blank (known : Known (python.upperCase method) (target ++ tail)) (question : '?' ∉ target) :
    effect (respond python headers body (route python (python.upperCase method) target) wire) =
      effect (respond python headers body (route python (python.upperCase method) (target ++ tail)) wire) ↔
      ReadsAlike python wire.site headers (latin1 requestLine) := by
  obtain ⟨delete, rooms⟩ := known.blank spaced.tail_.2 some_ question
  have path := pathOnly_self target question
  have path' := pathOnly_append_of_not_mem target tail question
  rw [delete, route_delete python target (by rw [path]; exact rooms),
    route_delete python (target ++ tail) (by rw [path']; exact rooms.trans (List.prefix_append _ _)),
    path, path', delete_same]
  refine ⟨fun same => .deletion method target tail rest spaced question delete rooms same, fun alike => ?_⟩
  rcases readsAlike_cases spaced served some_ alike with ⟨present, -⟩ | ⟨-, same⟩
  · exact absurd present question
  · exact same

end Blanks

theorem answers_alike (requestLine : Bytes) :
    effect (respond python headers body
        (route python (httpMethod python requestLine) (httpPath python requestLine)) wire) =
      effect (respond python headers body
        (route python (wsMethod python requestLine) (wsPath requestLine)) wire) ↔
      ReadsAlike python wire.site headers (latin1 requestLine) := by
  by_cases known : Known (wsMethod python requestLine) (wsPath requestLine)
  · obtain ⟨method, target, tail, rest, spaced⟩ := known_spaced python requestLine known
    rw [spaced.wsMethod, spaced.wsPath] at known
    rw [spaced.httpMethod, spaced.httpPath, spaced.wsMethod, spaced.wsPath]
    have served := known.cut python spaced.tail_.2
    by_cases none_ : tail = []
    · subst none_
      rw [List.append_nil]
      exact iff_of_true rfl (.plain method target rest spaced)
    · by_cases question : '?' ∈ target
      · exact answers_query body spaced served none_ question
      · exact answers_blank body spaced served none_ known question
  · rw [route_unknown python known]
    by_cases served : Known (httpMethod python requestLine) (httpPath python requestLine)
    · exact iff_of_false (effect_known python headers body wire _ ((route_known python _ _).mpr served))
        fun alike => known (alike.known served)
    · rw [route_unknown python served]
      exact iff_of_true rfl (.unknown ((unknown_iff python requestLine).mpr served))

end Answers

theorem effect_http (body : Handler Unit) (wire : Wire) :
    effect (finallyClose (exceptOSError body (pure ())) wire) = effect (body wire) := by
  rw [finallyClose, exceptOSError]
  rcases body wire with ⟨_, after⟩ | ⟨exc | _, after⟩
  · rfl
  · cases exc <;> rfl
  · rfl

theorem effect_ws (body : Handler (Option String)) (wire : Wire) :
    effect (exceptOSError body (do
      close
      return none) wire) = effect (body wire) := by
  rw [exceptOSError]
  rcases body wire with ⟨_, after⟩ | ⟨exc | _, after⟩
  · rfl
  · cases exc <;> rfl
  · rfl

theorem effect_close (body : Handler Unit) (wire : Wire) :
    effect ((do
      body
      close
      return none : Handler (Option String)) wire) = effect (body wire) := by
  cases ran : body wire with
  | ok _ after =>
    rw [bind_ok ran]
    rfl
  | error stop after =>
    rw [bind_error ran]
    rfl

theorem effect_handleHttp (wire : Wire) :
    effect (handleHttp python wire) = effect ((readHead >>= httpHead python) wire) :=
  effect_http _ wire

theorem effect_handleWs (wire : Wire) :
    effect (handleWs python wire) = effect ((readHead >>= wsHead python) wire) :=
  effect_ws _ wire

theorem requests_alike (line : Bytes) (headers : Headers) (wire : Wire) (plain : upgrades python headers = false) :
    effect (wsRequest python line headers wire) = effect (httpRequest python line headers wire) ↔
      ∀ body, BodyArrives wire (contentLength python headers) body →
        ReadsAlike python wire.site headers (latin1 line) := by
  have begun : wsRequest python line headers wire = (do
      let body ← readBody (contentLength python headers)
      routeHttp python (wsMethod python line) (wsPath line) headers body
      close
      return none : Handler (Option String)) wire := by
    rw [wsRequest, plain]
    rfl
  rw [begun, httpRequest]
  rcases readBody_cases wire (contentLength python headers) with ⟨body, arrives⟩ | stops
  · obtain ⟨lines, remnant, read⟩ := arrives.readBody
    rw [bind_ok read, bind_ok read, effect_close, eq_comm]
    exact (answers_alike python headers body _ line).trans ⟨fun alike _ _ => alike, fun alike => alike body arrives⟩
  · rw [bind_error stops, bind_error stops]
    refine iff_of_true rfl fun body arrives => ?_
    obtain ⟨lines, remnant, read⟩ := arrives.readBody
    cases stops.symm.trans read

theorem sameResponse_iff (wire : Wire) (newline : 10 ∉ wire.remnant)
    (plain : ∀ head, Arrives wire head → upgrades python (parseHeaders python head.block) = false) :
    SameResponse python wire ↔ ∀ head body, Arrives wire head →
      BodyArrives (wire.behind head) (contentLength python (parseHeaders python head.block)) body →
      ReadsAlike python wire.site (parseHeaders python head.block) (latin1 head.line) := by
  rw [SameResponse, effect_handleWs, effect_handleHttp]
  rcases head_cases wire with ⟨head, arrives⟩ | overruns | nothing | broken
  · have read := arrives.readHead newline
    have request := requests_alike python head.line (parseHeaders python head.block) (wire.behind head)
      (plain head arrives)
    rw [bind_ok read, bind_ok read, wsHead, httpHead]
    refine request.trans ⟨fun alike other body too => ?_, fun alike body => alike head body arrives⟩
    rw [← arrives.unique too newline]
    exact alike body
  · obtain ⟨lines, read⟩ := overruns.readHead
    rw [bind_error read, bind_error read]
    exact iff_of_true rfl fun head body arrives => (arrives.not_overruns newline overruns).elim
  · have read := nothing.readHead
    rw [bind_ok read, bind_ok read]
    refine iff_of_true rfl fun head body arrives => ?_
    cases read.symm.trans (arrives.readHead newline)
  · obtain ⟨lines, read⟩ := broken.readHead
    rw [bind_error read, bind_error read]
    refine iff_of_true rfl fun head body arrives => ?_
    cases read.symm.trans (arrives.readHead newline)

theorem bothPorts_alike (site : Site) (input : Bytes) (ending : Ending) (drains : Bool)
    (plain : ∀ head, Arrives (connect site input ending drains) head →
      upgrades python (parseHeaders python head.block) = false) :
    SameResponse python (connect site input ending drains) ↔
      ∀ head body, Arrives (connect site input ending drains) head →
        BodyArrives ((connect site input ending drains).behind head)
          (contentLength python (parseHeaders python head.block)) body →
        ReadsAlike python site (parseHeaders python head.block) (latin1 head.line) :=
  sameResponse_iff python _ (connect_newline site input ending drains) plain

def getRooms : Bytes := ascii "GET /rooms HTTP/1.1\r\n\r\n"

theorem getRooms_arrives : Arrives (connect startSite getRooms .eof true)
    { line := ascii "GET /rooms HTTP/1.1\r\n", block := [], lines := [], remnant := [] } :=
  .blank (ascii "GET /rooms HTTP/1.1\r") [13] [] [] (by decide +kernel)
    (by unfold InLimit; decide +kernel) (by unfold Filled; decide) rfl

theorem bothPorts_alike_getRooms : SameResponse asciiPython (connect startSite getRooms .eof true) := by
  have newline := connect_newline startSite getRooms .eof true
  refine (bothPorts_alike asciiPython startSite getRooms .eof true fun head arrives => ?_).mpr
    fun head body arrives _ => ?_
  · rw [← getRooms_arrives.unique arrives newline]
    decide +kernel
  · rw [← getRooms_arrives.unique arrives newline]
    refine .plain "GET".toList "/rooms".toList " HTTP/1.1\r\n".toList ?_
    constructor
    · decide +kernel
    · exact ⟨by decide, solid_ascii asciiPython _ (by decide)⟩
    · exact ⟨by decide, solid_ascii asciiPython _ (by decide)⟩
    · simp
    · intro c later same
      exact (List.cons.inj same).1.symm

def getRoomsBare : Bytes := ascii "GET /rooms\r\n\r\n"

theorem getRoomsBare_arrives : Arrives (connect startSite getRoomsBare .eof true)
    { line := ascii "GET /rooms\r\n", block := [], lines := [], remnant := [] } :=
  .blank (ascii "GET /rooms\r") [13] [] [] (by decide +kernel)
    (by unfold InLimit; decide +kernel) (by unfold Filled; decide) rfl

theorem bareLine_differs :
    (∀ head, Arrives (connect startSite getRoomsBare .eof true) head →
      upgrades asciiPython (parseHeaders asciiPython head.block) = false) ∧
      ¬ SameResponse asciiPython (connect startSite getRoomsBare .eof true) := by
  have newline := connect_newline startSite getRoomsBare .eof true
  have plain : ∀ head, Arrives (connect startSite getRoomsBare .eof true) head →
      upgrades asciiPython (parseHeaders asciiPython head.block) = false := by
    intro head arrives
    rw [← getRoomsBare_arrives.unique arrives newline]
    decide +kernel
  refine ⟨plain, fun same => ?_⟩
  have alike := (sameResponse_iff asciiPython _ newline plain).mp same _ [] getRoomsBare_arrives
    (.inl ⟨Nat.zero_le _, by decide +kernel⟩)
  have served : Known (httpMethod asciiPython (ascii "GET /rooms\r\n"))
      (httpPath asciiPython (ascii "GET /rooms\r\n")) := by
    unfold Known
    decide +kernel
  have unserved : ¬ Known (wsMethod asciiPython (ascii "GET /rooms\r\n")) (wsPath (ascii "GET /rooms\r\n")) := by
    unfold Known
    decide +kernel
  exact unserved (alike.known served)

end MidiToIp.Orchestrator
