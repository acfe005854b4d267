import Mathlib.Data.List.Infix
import MidiToIp.Orchestrator.BothPorts
import MidiToIp.Orchestrator.Join

set_option autoImplicit false

-- A handler reads its request before it looks at the rooms, so requests that overlap change the rooms in
-- some order of their own, one after the other.

namespace MidiToIp.Orchestrator

open Octets Dicts

inductive Port where
  | http
  | ws
  deriving DecidableEq, Repr

structure HttpRequest where
  port : Port
  input : Bytes
  ending : Ending
  drains : Bool

inductive Amendment where
  | create (key : String)
  | delete (key : String)
  -- The rooms file cannot be written, so the handler ends before it closes the players.
  | deleteUnsaved (key : String)
  deriving DecidableEq, Repr

namespace Amendment

def apply (site : Site) : Amendment → Site
  | .create key => { site with store := (site.store.create key site.wall "").2 }
  | .delete key =>
    { site with
      store := (site.store.delete key).2
      dropped := site.dropped ++ ((site.store.delete key).1.getD []).map Player.conn }
  | .deleteUnsaved key => { site with store := (site.store.delete key).2 }

def route : Amendment → Route
  | .create _ => .createRoom
  | .delete key => .deleteRoom key
  | .deleteUnsaved key => .deleteRoom key

def Valid (site : Site) : Amendment → Prop
  | .create key => validRoom key = true ∨ key ∈ site.codes
  | .delete _ => True
  | .deleteUnsaved _ => site.persists = true

end Amendment

section Routes

variable (python : Python) (headers : Headers) (body : Bytes)

inductive Amends (site : Site) (r : Route) : Site → Prop where
  | nothing : Amends site r site
  | amended (amendment : Amendment) (admin : adminOk site headers = true) (routed : amendment.route = r)
      (valid : amendment.Valid site) : Amends site r (amendment.apply site)

theorem postKey_valid (raw key : String) (site : Site)
    (found : postKey python.toText raw site.codes site.store.rooms = some key) :
    validRoom key = true ∨ key ∈ site.codes := by
  unfold postKey at found
  simp only at found
  split_ifs at found with empty valid
  · exact .inr (List.mem_of_find?_eq_some found)
  · obtain rfl := Option.some.inj found
    exact .inl (by simpa using valid)

theorem respond_amends (r : Route) (wire : Wire) :
    Amends headers wire.site r (left (respond python headers body r wire)).site := by
  have sent (status : String) (page : Bytes) (ctype : String) :
      (left (httpSend status page ctype wire)).site = wire.site := by rw [left_httpSend]; rfl
  cases r with
  | createRoom =>
    rw [respond_createRoom]
    cases admin : adminOk wire.site headers with
    | false =>
      rw [if_neg Bool.false_ne_true, adminRequired, sent]
      exact .nothing
    | true =>
      rw [if_pos rfl]
      have posted := postRoom_posted python body wire
      generalize postRoom python body wire = result at posted ⊢
      cases posted with
      | unreadable => exact .nothing
      | new raw key read found =>
        have amended : Amends headers wire.site .createRoom ((Amendment.create key).apply wire.site) :=
          .amended _ admin rfl (postKey_valid python raw key wire.site found)
        rcases sendCreated_left python key wire with ⟨page, answer⟩ | answer <;> rw [answer] <;>
          exact amended
      | noCode => exact .nothing
      | invalid =>
        rw [sent]
        exact .nothing
  | deleteRoom key =>
    rw [respond_deleteRoom]
    cases admin : adminOk wire.site headers with
    | false =>
      rw [if_neg Bool.false_ne_true, adminRequired, sent]
      exact .nothing
    | true =>
      rw [if_pos rfl]
      rcases deleteRoom_cases python key wire with ⟨ok, -⟩ | ⟨exc, -, error, -, fails⟩
      · rw [bind_ok ok]
        have amended : Amends headers wire.site (.deleteRoom key)
            ((Amendment.delete key).apply wire.site) := .amended _ admin rfl trivial
        cases gone : (wire.site.store.delete key).1 with
        | none =>
          rw [Amendment.apply, gone] at amended
          rw [sendDeleted, left_httpSend]
          simpa [Wire.sends, Wire.at, Amendment.route] using amended
        | some players =>
          rw [Amendment.apply, gone] at amended
          rw [sendDeleted_some, left_httpSend]
          exact amended
      · rw [bind_error error]
        exact .amended (.deleteUnsaved key) admin rfl fails.1
  | status room => exact (sent _ _ _).symm ▸ .nothing
  | rooms => exact (sent _ _ _).symm ▸ .nothing
  | lobby => exact (sent _ _ _).symm ▸ .nothing
  | page => exact (sent _ _ _).symm ▸ .nothing
  | notFound => exact (sent _ _ _).symm ▸ .nothing

end Routes

namespace HttpRequest

def wire (request : HttpRequest) (site : Site) : Wire :=
  connect site request.input request.ending request.drains

def serve (python : Python) (request : HttpRequest) (site : Site) : Bytes × Site :=
  match request.port with
  | .http => effect (handleHttp python (request.wire site))
  | .ws => effect (handleWs python (request.wire site))

def route (python : Python) (request : HttpRequest) (line : Bytes) : Route :=
  match request.port with
  | .http => Orchestrator.route python (httpMethod python line) (httpPath python line)
  | .ws => Orchestrator.route python (wsMethod python line) (wsPath line)

end HttpRequest

section Ports

variable (python : Python)

def answered (method path : Str) (headers : Headers) : Handler Unit := do
  let body ← readBody (contentLength python headers)
  routeHttp python method path headers body

theorem answered_amends (method path : Str) (headers : Headers) (wire : Wire) :
    (left (answered python method path headers wire)).site = wire.site ∨
      Amends headers wire.site (route python method path)
        (left (answered python method path headers wire)).site := by
  rw [answered]
  rcases readBody_cases wire (contentLength python headers) with ⟨body, arrives⟩ | stops
  · obtain ⟨lines, remnant, read⟩ := arrives.readBody
    rw [bind_ok read, routeHttp]
    exact .inr (respond_amends python headers body _ { wire with lines := lines, remnant := remnant })
  · rw [bind_error stops]
    exact .inl rfl

theorem effect_sent {Result : Type} (data : Bytes) (rest : Handler Result) (wire : Wire)
    (quiet : effect (rest (wire.sends data)) = (wire.written ++ data, wire.site)) :
    effect ((do
      write data
      drain
      rest : Handler Result) wire) = (wire.written ++ data, wire.site) := by
  change effect ((drain >>= fun _ => rest) (wire.sends data)) = _
  cases drains : wire.drains with
  | true =>
    have gone : drain (wire.sends data) = .ok () (wire.sends data) := by
      simp only [drain, Wire.sends, drains, if_true]
    rw [bind_ok gone]
    exact quiet
  | false =>
    have broken : drain (wire.sends data) = .error (.raised .osError) (wire.sends data) := by
      simp only [drain, Wire.sends, drains, Bool.false_eq_true, if_false]
      rfl
    rw [bind_error broken]
    rfl

inductive UpgradeAnswer : Bytes → Prop where
  | refused : UpgradeAnswer forbidden
  | badKey : UpgradeAnswer []
  | accepted (key : String) (accept : Bytes) (accepts : Ws.acceptKey key = some accept) :
      UpgradeAnswer (Ws.handshakeResponse accept)

theorem effect_upgrade (line : Bytes) (headers : Headers) (wire : Wire) :
    ∃ sent, UpgradeAnswer sent ∧
      effect (upgrade python line headers wire) = (wire.written ++ sent, wire.site) := by
  have refused : effect (refuse wire) = (wire.written ++ forbidden, wire.site) :=
    effect_sent forbidden (do
      close
      return none) wire rfl
  rw [upgrade_run]
  split_ifs
  · exact ⟨forbidden, .refused, refused⟩
  · exact ⟨forbidden, .refused, refused⟩
  · cases accepts : Ws.acceptKey (String.ofList (headers.get "sec-websocket-key" "")) with
    | none =>
      refine ⟨[], .badKey, ?_⟩
      rw [List.append_nil]
      rfl
    | some accept => exact ⟨_, .accepted _ accept accepts, effect_sent _ (return some _) wire rfl⟩

theorem effect_wsRequest (line : Bytes) (headers : Headers) (wire : Wire)
    (plain : upgrades python headers = false) :
    effect (wsRequest python line headers wire) =
      effect (answered python (wsMethod python line) (wsPath line) headers wire) := by
  have begun : wsRequest python line headers wire = (do
      let body ← readBody (contentLength python headers)
      routeHttp python (wsMethod python line) (wsPath line) headers body
      close
      return none : Handler (Option String)) wire := by
    rw [wsRequest, plain]
    rfl
  rw [begun, answered]
  rcases readBody_cases wire (contentLength python headers) with ⟨body, arrives⟩ | stops
  · obtain ⟨lines, remnant, read⟩ := arrives.readBody
    rw [bind_ok read, bind_ok read, effect_close]
  · rw [bind_error stops, bind_error stops]
    rfl

theorem effect_serve (request : HttpRequest) (site : Site) (head : Head)
    (arrives : Arrives (request.wire site) head) :
    (∃ method path, request.route python head.line = Orchestrator.route python method path ∧
      request.serve python site = effect (answered python method path (parseHeaders python head.block)
        ((request.wire site).behind head))) ∨
    request.port = .ws ∧ upgrades python (parseHeaders python head.block) = true ∧
      ∃ sent, UpgradeAnswer sent ∧ request.serve python site = (sent, site) := by
  have newline : 10 ∉ (request.wire site).remnant := connect_newline site request.input _ _
  have read := arrives.readHead newline
  unfold HttpRequest.serve HttpRequest.route
  cases request.port with
  | http =>
    refine .inl ⟨_, _, rfl, ?_⟩
    rw [effect_handleHttp, bind_ok read]
    rfl
  | ws =>
    simp only
    rw [effect_handleWs, bind_ok read, wsHead]
    cases upgrades_ : upgrades python (parseHeaders python head.block) with
    | false =>
      refine .inl ⟨_, _, rfl, ?_⟩
      exact effect_wsRequest python head.line _ _ upgrades_
    | true =>
      refine .inr ⟨trivial, rfl, ?_⟩
      obtain ⟨sent, kind, done⟩ := effect_upgrade python head.line (parseHeaders python head.block)
        ((request.wire site).behind head)
      refine ⟨sent, kind, ?_⟩
      rw [wsRequest, upgrades_]
      exact done

theorem effect_headless (request : HttpRequest) (site : Site)
    (nothing : ¬ ∃ head, Arrives (request.wire site) head) :
    request.serve python site = ([], site) := by
  have unread : ∀ {Result : Type} (next : Option (Bytes × Bytes) → Handler Result),
      (∀ wire : Wire, effect (next none wire) = (wire.written, wire.site)) →
      effect ((readHead >>= next) (request.wire site)) = ([], site) := by
    intro Result next quiet
    rcases head_cases (request.wire site) with arrives | overruns | nothing | broken
    · exact absurd arrives nothing
    · obtain ⟨lines, read⟩ := overruns.readHead
      rw [bind_error read]
      rfl
    · rw [bind_ok nothing.readHead, quiet]
      rfl
    · obtain ⟨lines, read⟩ := broken.readHead
      rw [bind_error read]
      rfl
  unfold HttpRequest.serve
  cases request.port with
  | http =>
    simp only
    rw [effect_handleHttp]
    exact unread _ fun wire => rfl
  | ws =>
    simp only
    rw [effect_handleWs]
    exact unread _ fun wire => rfl

theorem serve_amends (request : HttpRequest) (site : Site) :
    (request.serve python site).2 = site ∨
      ∃ head, Arrives (request.wire site) head ∧
        Amends (parseHeaders python head.block) site (request.route python head.line)
          (request.serve python site).2 := by
  by_cases some_ : ∃ head, Arrives (request.wire site) head
  · obtain ⟨head, arrives⟩ := some_
    rcases effect_serve python request site head arrives with ⟨method, path, routed, served⟩ | ⟨-, -, sent, -, served⟩
    · rw [served]
      have done := answered_amends python method path (parseHeaders python head.block)
        ((request.wire site).behind head)
      refine done.imp id fun amends => ⟨head, arrives, ?_⟩
      rw [routed]
      exact amends
    · rw [served]
      exact .inl rfl
  · rw [effect_headless python request site some_]
    exact .inl rfl

end Ports

theorem splitCrLf_within (raw line : Bytes) (member : line ∈ splitCrLf raw) : line <:+: raw := by
  -- the first line starts the text, and the others are in what follows it
  have both : ((splitCrLf raw).headD [] <+: raw) ∧ ∀ line ∈ (splitCrLf raw).tail, line <:+: raw := by
    clear member
    induction raw using splitCrLf.induct with
    | case1 => simp [splitCrLf]
    | case2 b => simp [splitCrLf]
    | case3 b c rest crLf ih =>
      rw [splitCrLf, if_pos crLf]
      refine ⟨List.nil_prefix, fun line member => ?_⟩
      have behind : line <:+: rest := by
        rcases lines : splitCrLf rest with _ | ⟨first, more⟩
        · simp [lines] at member
        · rw [lines] at member ih
          rcases List.mem_cons.mp member with rfl | later
          · exact ih.1.isInfix
          · exact ih.2 line later
      exact behind.trans (List.suffix_append [b, c] rest).isInfix
    | case4 b c rest other ih =>
      rw [splitCrLf, if_neg other]
      rcases lines : splitCrLf (c :: rest) with _ | ⟨first, more⟩
      · simp
      · rw [lines] at ih
        refine ⟨List.cons_prefix_cons.mpr ⟨rfl, ih.1⟩, fun line member => ?_⟩
        exact (ih.2 line member).trans (List.suffix_cons b _).isInfix
  rcases lines : splitCrLf raw with _ | ⟨first, more⟩
  · simp [lines] at member
  · rw [lines] at member both
    rcases List.mem_cons.mp member with rfl | later
    · exact both.1.isInfix
    · exact both.2 line later

theorem stripped_within (text : Text) (s : Str) : text.stripped s <:+: s := by
  have trimmed := List.dropWhile_suffix (p := text.isSpace) (l := (s.dropWhile text.isSpace).reverse)
  have front : text.stripped s <+: s.dropWhile text.isSpace := by
    rw [← List.reverse_suffix, Text.stripped, List.reverse_reverse]
    exact trimmed
  exact front.isInfix.trans (List.dropWhile_suffix _).isInfix

theorem mem_dictSet {Key Value : Type} [DecidableEq Key] (key : Key) (value : Value)
    (entries : List (Key × Value)) (entry : Key × Value) (member : entry ∈ dictSet key value entries) :
    entry = (key, value) ∨ entry ∈ entries := by
  unfold dictSet at member
  split at member
  · obtain ⟨old, before, rfl⟩ := List.mem_map.mp member
    split_ifs
    · exact .inl rfl
    · exact .inr before
  · rcases List.mem_append.mp member with before | new
    · exact .inr before
    · exact .inl (List.mem_singleton.mp new)

section Key

variable (python : Python)

theorem parseHeaders_within (raw : Bytes) (entry : Str × Str) (member : entry ∈ parseHeaders python raw) :
    entry.2 <:+: latin1 raw := by
  have all (lines : List Bytes) (within : ∀ line ∈ lines, line <:+: raw) (headers : Headers)
      (before : ∀ entry ∈ headers, entry.2 <:+: latin1 raw) :
      ∀ entry ∈ lines.foldl (parseHeader python) headers, entry.2 <:+: latin1 raw := by
    induction lines generalizing headers with
    | nil => exact before
    | cons line rest ih =>
      refine ih (fun other later => within other (List.mem_cons_of_mem _ later)) _ fun entry member => ?_
      unfold parseHeader at member
      split at member
      · exact before entry member
      · rcases mem_dictSet _ _ headers entry member with rfl | old
        · have value : ((line.dropWhile (· ≠ colon)).drop 1) <:+: line :=
            (List.drop_suffix 1 _).isInfix.trans (List.dropWhile_suffix _).isInfix
          exact (stripped_within python.toText _).trans
            ((value.trans (within line List.mem_cons_self)).map _)
        · exact before entry old
  exact all (splitCrLf raw) (fun line here => splitCrLf_within raw line here) [] (by simp) entry member

theorem joinLines_cons (line : Bytes) (lines : List Bytes) (remnant : Bytes) :
    joinLines (line :: lines) remnant = (line ++ [10]) ++ joinLines lines remnant := by
  simp [joinLines]

theorem joinLines_append (first second : List Bytes) (remnant : Bytes) :
    joinLines (first ++ second) remnant = joinLines first [] ++ joinLines second remnant := by
  simp [joinLines]

theorem Arrives.block {wire : Wire} {head : Head} (arrives : Arrives wire head) :
    head.block <:+: joinLines wire.lines wire.remnant := by
  cases arrives with
  | blank first stop more later lines_eq =>
    rw [lines_eq, joinLines_cons, joinLines_append more]
    exact ⟨_, _, List.append_assoc _ _ _⟩
  | ended first more lines_eq =>
    rw [lines_eq, joinLines_cons]
    exact (List.suffix_append _ _).isInfix
  | lineOnly => exact List.nil_infix

theorem adminOk_sent (request : HttpRequest) (site : Site) (head : Head)
    (arrives : Arrives (request.wire site) head)
    (admin : adminOk site (parseHeaders python head.block) = true) :
    site.adminKey ≠ [] ∧ site.adminKey <:+: latin1 request.input := by
  obtain ⟨some_, given⟩ := of_decide_eq_true admin
  refine ⟨some_, ?_⟩
  have sent : head.block <:+: request.input := by
    have within := arrives.block
    rwa [HttpRequest.wire, connect, joinLines_splitLines] at within
  unfold Headers.get at given
  cases found : (parseHeaders python head.block).lookup "x-admin-key".toList with
  | none =>
    rw [found] at given
    exact absurd given.symm some_
  | some value =>
    rw [found, Option.getD_some] at given
    obtain ⟨before, later, entries, -⟩ := List.lookup_eq_some_iff.mp found
    have member : ("x-admin-key".toList, value) ∈ parseHeaders python head.block := by
      rw [entries]
      exact List.mem_append_right _ List.mem_cons_self
    rw [← given]
    exact (parseHeaders_within python head.block _ member).trans (sent.map _)

structure Authorised (site : Site) (request : HttpRequest) (amendment : Amendment) : Prop where
  key : site.adminKey ≠ [] ∧ site.adminKey <:+: latin1 request.input
  asks : ∃ head, Arrives (request.wire site) head ∧ request.route python head.line = amendment.route
  valid : amendment.Valid site

structure SameOffice (site after : Site) : Prop where
  adminKey : after.adminKey = site.adminKey
  codes : after.codes = site.codes
  persists : after.persists = site.persists

theorem apply_sameOffice (site : Site) (amendment : Amendment) :
    SameOffice site (amendment.apply site) := by
  cases amendment <;> exact ⟨rfl, rfl, rfl⟩

theorem Arrives.elsewhere {request : HttpRequest} {site : Site} (other : Site) {head : Head}
    (arrives : Arrives (request.wire site) head) : Arrives (request.wire other) head := by
  cases arrives with
  | blank first stop more later lines_eq fits filled stops =>
    exact .blank first stop more later lines_eq fits filled stops
  | ended first more lines_eq fits filled rest_fits ends =>
    exact .ended first more lines_eq fits filled rest_fits ends
  | lineOnly lines_eq sent rest_fits ends => exact .lineOnly lines_eq sent rest_fits ends

theorem Authorised.before {python : Python} {site after : Site} {request : HttpRequest} {amendment : Amendment}
    (authorised : Authorised python after request amendment) (same : SameOffice site after) :
    Authorised python site request amendment := by
  obtain ⟨key, ⟨head, arrives, asks⟩, valid⟩ := authorised
  refine ⟨same.adminKey ▸ key, ⟨head, arrives.elsewhere site, asks⟩, ?_⟩
  cases amendment with
  | create key => exact valid.imp id fun drawn => same.codes ▸ drawn
  | delete key => exact valid
  | deleteUnsaved key => exact same.persists.symm.trans valid

theorem serve_authorised (request : HttpRequest) (site : Site) :
    (request.serve python site).2 = site ∨
      ∃ amendment, Authorised python site request amendment ∧
        (request.serve python site).2 = amendment.apply site := by
  rcases serve_amends python request site with same | ⟨head, arrives, amends⟩
  · exact .inl same
  · generalize (request.serve python site).2 = after at amends ⊢
    generalize routed : request.route python head.line = r at amends
    cases amends with
    | nothing => exact .inl rfl
    | amended amendment admin asks valid =>
      exact .inr ⟨amendment, ⟨adminOk_sent python request site head arrives admin,
        ⟨head, arrives, routed.trans asks.symm⟩, valid⟩, rfl⟩

def serveAll : List HttpRequest → Site → Site
  | [], site => site
  | request :: rest, site => serveAll rest (request.serve python site).2

def amendAll (amendments : List Amendment) (site : Site) : Site := amendments.foldl Amendment.apply site

theorem requests_guarded (requests : List HttpRequest) (site : Site) :
    ∃ granted : List (HttpRequest × Amendment),
      List.Sublist (granted.map Prod.fst) requests ∧
      (∀ entry ∈ granted, Authorised python site entry.1 entry.2) ∧
      serveAll python requests site = amendAll (granted.map Prod.snd) site := by
  induction requests generalizing site with
  | nil => exact ⟨[], .slnil, by simp, rfl⟩
  | cons request rest ih =>
    rcases serve_authorised python request site with same | ⟨amendment, authorised, served⟩
    · obtain ⟨granted, within, authorised, done⟩ := ih site
      refine ⟨granted, within.cons request, authorised, ?_⟩
      rw [serveAll, same, done]
    · obtain ⟨granted, within, later, done⟩ := ih (amendment.apply site)
      refine ⟨(request, amendment) :: granted, within.cons_cons request, ?_, ?_⟩
      · intro entry member
        rcases List.mem_cons.mp member with rfl | here
        · exact authorised
        · exact (later entry here).before (apply_sameOffice site amendment)
      · rw [serveAll, served, done]
        rfl

end Key

end MidiToIp.Orchestrator
