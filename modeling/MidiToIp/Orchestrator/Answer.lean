import MidiToIp.Orchestrator.Stream

set_option autoImplicit false

namespace MidiToIp.Orchestrator

open Octets

def left {Result : Type} : EStateM.Result Stop Wire Result → Wire
  | .ok _ wire => wire
  | .error _ wire => wire

def Fails {Result : Type} : Except Exc Result → Prop
  | .error exc => exc ≠ .osError
  | .ok _ => False

def Escapes {Result : Type} : EStateM.Result Stop Wire Result → Prop
  | .error (.raised exc) _ => exc ≠ .osError
  | _ => False

def Wire.sends (data : Bytes) (wire : Wire) : Wire := { wire with written := wire.written ++ data }

def Wire.at (site : Site) (wire : Wire) : Wire := { wire with site := site }

theorem httpSend_run (status : String) (body : Bytes) (ctype : String) (wire : Wire) :
    httpSend status body ctype wire =
      if wire.drains then .ok () (wire.sends (response status body ctype))
      else .error (.raised .osError) (wire.sends (response status body ctype)) := by
  have drained : httpSend status body ctype wire = drain (wire.sends (response status body ctype)) := rfl
  rw [drained]
  rfl

theorem left_httpSend (status : String) (body : Bytes) (ctype : String) (wire : Wire) :
    left (httpSend status body ctype wire) = wire.sends (response status body ctype) := by
  rw [httpSend_run]
  split_ifs <;> rfl

theorem httpSend_caught (status : String) (body : Bytes) (ctype : String) (wire : Wire) :
    ¬ Escapes (httpSend status body ctype wire) := by
  rw [httpSend_run]
  split_ifs
  · exact not_false
  · exact fun escapes => escapes rfl

section Rooms

variable (python : Python)

def Creatable (site : Site) (key : String) : Prop := site.store.rooms.registry key = none

def Deletable (site : Site) (key : String) : Prop :=
  key ≠ defaultRoom ∧ (site.store.rooms.registry key).isSome = true

theorem created_iff (site : Site) (key : String) :
    (site.store.create key site.wall "").1 = true ↔ Creatable site key := by
  rw [RoomStore.create, Rooms.create, Creatable, Rooms.registry]
  cases site.store.rooms.dir.lookup key <;> simp

theorem deleted_iff (site : Site) (key : String) :
    (site.store.delete key).1.isSome = true ↔ Deletable site key := by
  rw [RoomStore.delete, Rooms.delete, Deletable, Rooms.registry]
  by_cases named : key = defaultRoom
  · simp [named]
  · cases site.store.rooms.dir.lookup key <;> simp [named]

/-- The rooms as they would be cannot be written to the rooms file, for another reason than an OSError. -/
def SaveFails (site : Site) (store : RoomStore) : Prop :=
  site.persists = true ∧ Fails (python.dump store.saved)

theorem save_run (wire : Wire) :
    save python wire =
      if wire.site.persists then
        match python.dump wire.site.store.saved with
        | .error .osError => .ok () wire
        | .error exc => .error (.raised exc) wire
        | .ok _ => .ok () wire
      else .ok () wire := by
  rw [save]
  change (if wire.site.persists = true then _ else _ : Handler Unit) wire = _
  split_ifs
  · rcases python.dump wire.site.store.saved with exc | _
    · cases exc <;> rfl
    · rfl
  · rfl

theorem save_cases (wire : Wire) :
    save python wire = .ok () wire ∧ ¬ SaveFails python wire.site wire.site.store ∨
      ∃ exc, exc ≠ .osError ∧ save python wire = .error (.raised exc) wire ∧
        SaveFails python wire.site wire.site.store := by
  rw [save_run, SaveFails]
  split_ifs with persists
  · rcases python.dump wire.site.store.saved with exc | _
    · by_cases caught : exc = .osError
      · simp [caught, Fails]
      · refine .inr ⟨exc, caught, ?_, persists, caught⟩
        cases exc <;> first | rfl | exact absurd rfl caught
    · exact .inl ⟨rfl, fun fails => fails.2⟩
  · exact .inl ⟨rfl, fun fails => persists fails.1⟩

theorem saving_cases {Result : Type} (changed : Bool) (result : Result) (wire : Wire) :
    let saving : Handler Result := do
      if changed then save python
      return result
    saving wire = .ok result wire ∧ ¬ (changed = true ∧ SaveFails python wire.site wire.site.store) ∨
      ∃ exc, exc ≠ .osError ∧ saving wire = .error (.raised exc) wire ∧ changed = true ∧
        SaveFails python wire.site wire.site.store := by
  cases changed with
  | false => exact .inl ⟨rfl, fun impossible => Bool.noConfusion impossible.1⟩
  | true =>
    rcases save_cases python wire with ⟨ok, sound⟩ | ⟨exc, uncaught, error, fails⟩
    · exact .inl ⟨bind_ok ok, fun both => sound both.2⟩
    · exact .inr ⟨exc, uncaught, bind_error error, rfl, fails⟩

theorem createRoom_cases (key : String) (wire : Wire) :
    let created := (wire.site.store.create key wire.site.wall "").1
    let store := (wire.site.store.create key wire.site.wall "").2
    let after := wire.at { wire.site with store := store }
    createRoom python key wire = .ok created after ∧ ¬ (created = true ∧ SaveFails python wire.site store) ∨
      ∃ exc, exc ≠ .osError ∧ createRoom python key wire = .error (.raised exc) after ∧ created = true ∧
        SaveFails python wire.site store :=
  saving_cases python (wire.site.store.create key wire.site.wall "").1 _ (wire.at _)

theorem deleteRoom_cases (key : String) (wire : Wire) :
    let players := (wire.site.store.delete key).1
    let store := (wire.site.store.delete key).2
    let after := wire.at { wire.site with store := store }
    deleteRoom python key wire = .ok players after ∧
        ¬ (players.isSome = true ∧ SaveFails python wire.site store) ∨
      ∃ exc, exc ≠ .osError ∧ deleteRoom python key wire = .error (.raised exc) after ∧
        players.isSome = true ∧ SaveFails python wire.site store :=
  saving_cases python (wire.site.store.delete key).1.isSome _ (wire.at _)

theorem sendCreated_left (key : String) (wire : Wire) :
    let after := wire.at { wire.site with store := (wire.site.store.create key wire.site.wall "").2 }
    (∃ body, left (sendCreated python key wire) = after.sends (response "200 OK" body jsonType)) ∨
      left (sendCreated python key wire) = after := by
  rw [sendCreated]
  rcases createRoom_cases python key wire with ⟨ok, -⟩ | ⟨exc, -, error, -⟩
  · rw [bind_ok ok, left_httpSend]
    exact .inl ⟨_, rfl⟩
  · rw [bind_error error]
    exact .inr rfl

theorem escapes_sendCreated (key : String) (wire : Wire) :
    Escapes (sendCreated python key wire) ↔
      Creatable wire.site key ∧ SaveFails python wire.site (wire.site.store.create key wire.site.wall "").2 := by
  rw [sendCreated, ← created_iff]
  rcases createRoom_cases python key wire with ⟨ok, sound⟩ | ⟨exc, uncaught, error, fails⟩
  · rw [bind_ok ok]
    exact iff_of_false (httpSend_caught _ _ _ _) sound
  · rw [bind_error error]
    exact iff_of_true uncaught fails

end Rooms

section Routes

variable (python : Python) (headers : Headers) (body : Bytes)

def PostFails (site : Site) : Prop :=
  match roomKeyFromBody python body with
  | .error exc => exc ≠ .osError
  | .ok raw =>
    ∃ key, postKey python.toText raw site.codes site.store.rooms = some key ∧
      Creatable site key ∧ SaveFails python site (site.store.create key site.wall "").2

def RoutingFails (site : Site) : Route → Prop
  | .createRoom => adminOk site headers = true ∧ PostFails python body site
  | .deleteRoom key =>
    adminOk site headers = true ∧ Deletable site key ∧ SaveFails python site (site.store.delete key).2
  | _ => False

inductive Posted (wire : Wire) : EStateM.Result Stop Wire Unit → Prop where
  | unreadable (exc : Exc) (read : roomKeyFromBody python body = .error exc) :
      Posted wire (.error (.raised exc) wire)
  | new (raw key : String) (read : roomKeyFromBody python body = .ok raw)
      (found : postKey python.toText raw wire.site.codes wire.site.store.rooms = some key) :
      Posted wire (sendCreated python key wire)
  | noCode (raw : String) (read : roomKeyFromBody python body = .ok raw)
      (nothing : postKey python.toText raw wire.site.codes wire.site.store.rooms = none) :
      Posted wire (.error .waiting wire)
  | invalid (raw : String) (read : roomKeyFromBody python body = .ok raw)
      (nothing : postKey python.toText raw wire.site.codes wire.site.store.rooms = none) :
      Posted wire (httpSend "400 Bad Request" (errorBody "invalid room key") jsonType wire)

theorem postRoom_posted (wire : Wire) : Posted python body wire (postRoom python body wire) := by
  cases read : roomKeyFromBody python body with
  | error exc =>
    have refused : checked (.error exc) wire = (.error (.raised exc) wire : EStateM.Result Stop Wire String) := rfl
    have stops : postRoom python body wire = .error (.raised exc) wire := by
      rw [postRoom, read]
      exact bind_error refused
    rw [stops]
    exact .unreadable exc read
  | ok raw =>
    have given : checked (.ok raw) wire = .ok raw wire := rfl
    have goes : postRoom python body wire = postRaw python raw wire := by
      rw [postRoom, read]
      exact bind_ok given
    have got : (get : Handler Wire) wire = .ok wire wire := rfl
    rw [goes, postRaw, bind_ok got]
    by_cases empty : python.normalizeRoom raw = ""
    · have key : postKey python.toText raw wire.site.codes wire.site.store.rooms =
          genRoomCode wire.site.codes wire.site.store.rooms := by
        rw [postKey, if_pos empty]
      rw [if_pos empty]
      cases drawn : genRoomCode wire.site.codes wire.site.store.rooms with
      | some code => exact .new raw code read (key.trans drawn)
      | none => exact .noCode raw read (key.trans drawn)
    · rw [if_neg empty]
      cases valid : validRoom (python.normalizeRoom raw) with
      | false => exact .invalid raw read (by simp [postKey, empty, valid])
      | true => exact .new raw _ read (by simp [postKey, empty, valid])

theorem respond_createRoom (wire : Wire) :
    respond python headers body .createRoom wire =
      if adminOk wire.site headers then postRoom python body wire else adminRequired wire := by
  have begun : respond python headers body .createRoom wire =
      (if !adminOk wire.site headers then adminRequired else postRoom python body : Handler Unit) wire := rfl
  rw [begun]
  cases adminOk wire.site headers <;> rfl

theorem respond_deleteRoom (wire : Wire) (key : String) :
    respond python headers body (.deleteRoom key) wire =
      if adminOk wire.site headers then (deleteRoom python key >>= sendDeleted key) wire
      else adminRequired wire := by
  have begun : respond python headers body (.deleteRoom key) wire =
      (if !adminOk wire.site headers then adminRequired
      else deleteRoom python key >>= sendDeleted key : Handler Unit) wire := rfl
  rw [begun]
  cases adminOk wire.site headers <;> rfl

theorem escapes_postRoom (wire : Wire) :
    Escapes (postRoom python body wire) ↔ PostFails python body wire.site := by
  have posted := postRoom_posted python body wire
  rw [PostFails]
  generalize postRoom python body wire = result at posted ⊢
  cases posted with
  | unreadable exc read =>
    rw [read]
    exact Iff.rfl
  | new raw key read found =>
    rw [read, escapes_sendCreated]
    simp [found]
  | noCode raw read nothing =>
    rw [read]
    exact iff_of_false not_false (by simp [nothing])
  | invalid raw read nothing =>
    rw [read]
    exact iff_of_false (httpSend_caught _ _ _ wire) (by simp [nothing])

theorem sendDeleted_some (key : String) (players : List Player) (wire : Wire) :
    sendDeleted key (some players) wire =
      httpSend "200 OK" (JsonText.dumps none (.obj [("room", .str key), ("deleted", .bool true)])) jsonType
        (wire.at { wire.site with dropped := wire.site.dropped ++ players.map Player.conn }) := rfl

theorem sendDeleted_caught (key : String) (dropped : Option (List Player)) (wire : Wire) :
    ¬ Escapes (sendDeleted key dropped wire) := by
  cases dropped with
  | none => exact httpSend_caught _ _ _ wire
  | some players =>
    rw [sendDeleted_some]
    exact httpSend_caught _ _ _ _

theorem escapes_deleteRoom (key : String) (wire : Wire) :
    Escapes ((deleteRoom python key >>= sendDeleted key) wire) ↔
      Deletable wire.site key ∧ SaveFails python wire.site (wire.site.store.delete key).2 := by
  rw [← deleted_iff]
  rcases deleteRoom_cases python key wire with ⟨ok, sound⟩ | ⟨exc, uncaught, error, fails⟩
  · rw [bind_ok ok]
    exact iff_of_false (sendDeleted_caught _ _ _) sound
  · rw [bind_error error]
    exact iff_of_true uncaught fails

theorem escapes_respond (r : Route) (wire : Wire) :
    Escapes (respond python headers body r wire) ↔ RoutingFails python headers body wire.site r := by
  have stranger : ¬ Escapes (adminRequired wire) := httpSend_caught _ _ _ wire
  cases r with
  | createRoom =>
    rw [RoutingFails, respond_createRoom, ← escapes_postRoom]
    cases adminOk wire.site headers <;> simp [stranger]
  | deleteRoom key =>
    rw [RoutingFails, respond_deleteRoom, ← escapes_deleteRoom]
    cases adminOk wire.site headers <;> simp [stranger]
  | _ => exact iff_of_false (httpSend_caught _ _ _ wire) not_false

def unknownPath : Bytes := response "404 Not Found" (errorBody "not found") jsonType

structure Answered (wire : Wire) (sent : Bytes) (after : Wire) : Prop where
  written : after.written = wire.written ++ sent
  closed : after.closed = wire.closed

theorem answered_httpSend (status : String) (body : Bytes) (ctype : String) (wire : Wire) :
    Answered wire (response status body ctype) (left (httpSend status body ctype wire)) := by
  rw [left_httpSend]
  exact ⟨rfl, rfl⟩

theorem response_status (status : String) (body : Bytes) (ctype : String) (digits : 3 ≤ (ascii status).length) :
    ((response status body ctype).drop 9).take 3 = (ascii status).take 3 := by
  have version : (ascii "HTTP/1.1 ").length = 9 := by decide
  simp only [response, List.append_assoc]
  rw [← version, List.drop_left, List.take_append_of_le_length digits]

theorem response_ne (status : String) (body : Bytes) (ctype : String)
    (digits : 3 ≤ (ascii status).length ∧ (ascii status).take 3 ≠ ascii "404") :
    response status body ctype ≠ unknownPath := by
  intro same
  have code := response_status status body ctype digits.1
  rw [same, unknownPath, response_status _ _ _ (by decide)] at code
  exact digits.2 (code.symm.trans (by decide))

theorem noSuchRoom_ne : response "404 Not Found" (errorBody "no such room") jsonType ≠ unknownPath := by
  decide +kernel

theorem nil_ne : [] ≠ unknownPath := by
  decide +kernel

theorem sendDeleted_answers (key : String) (dropped : Option (List Player)) (wire : Wire) :
    ∃ sent, sent ≠ unknownPath ∧ Answered wire sent (left (sendDeleted key dropped wire)) := by
  cases dropped with
  | none => exact ⟨_, noSuchRoom_ne, answered_httpSend _ _ _ wire⟩
  | some players =>
    rw [sendDeleted_some, left_httpSend]
    exact ⟨_, response_ne _ _ _ (by decide), rfl, rfl⟩

theorem postRoom_answers (wire : Wire) :
    ∃ sent, sent ≠ unknownPath ∧ Answered wire sent (left (postRoom python body wire)) := by
  have posted := postRoom_posted python body wire
  generalize postRoom python body wire = result at posted ⊢
  cases posted with
  | unreadable => exact ⟨[], nil_ne, (List.append_nil _).symm, rfl⟩
  | new raw key =>
    rcases sendCreated_left python key wire with ⟨sent, answer⟩ | answer
    · rw [answer]
      exact ⟨_, response_ne "200 OK" sent jsonType (by decide), rfl, rfl⟩
    · rw [answer]
      exact ⟨[], nil_ne, (List.append_nil _).symm, rfl⟩
  | noCode => exact ⟨[], nil_ne, (List.append_nil _).symm, rfl⟩
  | invalid => exact ⟨_, response_ne _ _ _ (by decide), answered_httpSend _ _ _ wire⟩

theorem deleteRoom_answers (key : String) (wire : Wire) :
    ∃ sent, sent ≠ unknownPath ∧ Answered wire sent (left ((deleteRoom python key >>= sendDeleted key) wire)) := by
  rcases deleteRoom_cases python key wire with ⟨ok, -⟩ | ⟨exc, -, error, -⟩
  · rw [bind_ok ok]
    obtain ⟨sent, ne, answered⟩ := sendDeleted_answers key (wire.site.store.delete key).1
      (wire.at { wire.site with store := (wire.site.store.delete key).2 })
    exact ⟨sent, ne, answered.written, answered.closed⟩
  · rw [bind_error error]
    exact ⟨[], nil_ne, (List.append_nil _).symm, rfl⟩

theorem respond_answers (r : Route) (served : r ≠ .notFound) (wire : Wire) :
    ∃ sent, sent ≠ unknownPath ∧ Answered wire sent (left (respond python headers body r wire)) := by
  have forbidden : ∃ sent, sent ≠ unknownPath ∧ Answered wire sent (left (adminRequired wire)) :=
    ⟨_, response_ne _ _ _ (by decide), answered_httpSend _ _ _ wire⟩
  cases r with
  | createRoom =>
    rw [respond_createRoom]
    cases adminOk wire.site headers with
    | false => exact forbidden
    | true => exact postRoom_answers python body wire
  | deleteRoom key =>
    rw [respond_deleteRoom]
    cases adminOk wire.site headers with
    | false => exact forbidden
    | true => exact deleteRoom_answers python key wire
  | status room => exact ⟨_, response_ne _ _ _ (by decide), answered_httpSend "200 OK" _ jsonType wire⟩
  | rooms => exact ⟨_, response_ne _ _ _ (by decide), answered_httpSend "200 OK" _ jsonType wire⟩
  | lobby => exact ⟨_, response_ne _ _ _ (by decide), answered_httpSend "200 OK" _ htmlType wire⟩
  | page => exact ⟨_, response_ne _ _ _ (by decide), answered_httpSend "200 OK" _ htmlType wire⟩
  | notFound => exact absurd rfl served

theorem respond_closed (r : Route) (wire : Wire) :
    (left (respond python headers body r wire)).closed = wire.closed := by
  by_cases served : r = .notFound
  · rw [served]
    exact (answered_httpSend _ _ _ wire).closed
  · obtain ⟨sent, -, answered⟩ := respond_answers python headers body r served wire
    exact answered.closed

end Routes

end MidiToIp.Orchestrator
