import MidiToIp.Orchestrator.Provisioning

set_option autoImplicit false

-- `nesting` is how deep `json.load` follows brackets before the interpreter raises RecursionError.

namespace MidiToIp.Orchestrator

open Dicts

namespace Json

mutual

def depth : Json → Nat
  | .arr items => depthItems items + 1
  | .obj fields => depthFields fields + 1
  | .null | .bool _ | .num _ | .str _ => 0

def depthItems : List Json → Nat
  | [] => 0
  | item :: rest => max item.depth (depthItems rest)

def depthFields : List (String × Json) → Nat
  | [] => 0
  | field :: rest => max field.2.depth (depthFields rest)

end

end Json

inductive RoomsFile where
  | absent
  | unreadable
  | holds (data : Json)

inductive LoadError where
  | recursionError
  | raised (error : PyError)
  deriving DecidableEq, Repr

def jsonLoad (nesting : Nat) (data : Json) : Except LoadError Json :=
  if data.depth ≤ nesting then .ok data else .error .recursionError

-- Only OSError and ValueError are caught.
def RoomStore.setPersist (text : Text) (nesting : Nat) (file : RoomsFile) (store : RoomStore) :
    Except LoadError RoomStore :=
  match file with
  | .absent | .unreadable => (store.load text none).mapError .raised
  | .holds data => do
    let data ← jsonLoad nesting data
    (store.load text (some data)).mapError .raised

def Json.roomKey (text : Text) : Json → Option String
  | .obj fields =>
    match fields.lookup "key" with
    | some (.str raw) => if text.normalizeRoom raw = "" then none else some (text.normalizeRoom raw)
    | _ => none
  | _ => none

def Json.roomMeta : Json → RoomMeta
  | .obj fields =>
    { createdAt := (fields.lookup "created_at").getD .null
      name := (fields.lookup "name").getD (.str "") }
  | _ => ⟨.null, .str ""⟩

def RoomsFile.entries : RoomsFile → List Json
  | .holds (.obj fields) =>
    match fields.lookup "rooms" with
    | some (.arr entries) => entries
    | _ => []
  | _ => []

namespace RoomStore

structure Normalised (text : Text) (store : RoomStore) : Prop where
  default : (store.rooms.dir.lookup defaultRoom).isSome
  keys : ∀ key, (store.rooms.dir.lookup key).isSome →
    key = defaultRoom ∨ key ≠ "" ∧ ∃ raw, text.normalizeRoom raw = key

structure Loads (text : Text) (entries : List Json) (store after : RoomStore) : Prop where
  rooms : ∀ entry ∈ entries, ∀ key, entry.roomKey text = some key →
    (after.rooms.dir.lookup key).isSome
  info : ∀ entry key, (entries.find? fun entry => entry.roomKey text = some key) = some entry →
    (store.rooms.dir.lookup key).isNone → after.info.lookup key = some entry.roomMeta

end RoomStore

def Json.keyed : Json → Bool
  | .obj fields =>
    match (fields.lookup "key").getD (.str "") with
    | .str _ => true
    | value => !value.truthy
  | _ => false

def Json.tolerable : Json → Bool
  | .obj fields =>
    match (fields.lookup "rooms").getD (.arr []) with
    | .arr entries => entries.all Json.keyed
    | .str value => value = ""
    | .obj fields => fields.isEmpty
    | .null | .bool _ | .num _ => false
  | _ => false

def RoomsFile.Tolerable (nesting : Nat) : RoomsFile → Prop
  | .absent | .unreadable => True
  | .holds data => data.depth ≤ nesting ∧ data.tolerable = true

namespace RoomStore

def enrol (text : Text) (store : RoomStore) (entry : Json) : RoomStore :=
  match entry.roomKey text with
  | some key =>
    if (store.rooms.dir.lookup key).isNone then
      { rooms := (store.rooms.create key).2, info := dictSet key entry.roomMeta store.info }
    else store
  | none => store

theorem normalizeValue_str (text : Text) (raw : String) :
    text.normalizeValue (.str raw) = .ok (text.normalizeRoom raw) := by
  unfold Text.normalizeValue Json.truthy
  by_cases empty : raw = "" <;> simp [empty]

theorem normalizeValue_other (text : Text) (value : Json) (other : ∀ raw, value ≠ .str raw) :
    text.normalizeValue value =
      if value.truthy then .error .attributeError else .ok "" := by
  unfold Text.normalizeValue
  split
  · cases value with
    | str raw => exact absurd rfl (other raw)
    | null | bool | num | arr | obj => rfl
  · rfl

theorem loadEntry_keyed (text : Text) (store : RoomStore) (entry : Json) (keyed : entry.keyed = true) :
    loadEntry text store entry = .ok (store.enrol text entry) := by
  cases entry with
  | null | bool | num | str | arr => simp [Json.keyed] at keyed
  | obj fields =>
    unfold Json.keyed at keyed
    unfold loadEntry enrol Json.roomKey
    simp only [Json.get, bind, Except.bind, pure, Except.pure]
    cases found : fields.lookup "key" with
    | none => simp [normalizeValue_str, Text.normalizeRoom, Text.strip, Text.toUpper]
    | some value =>
      simp only [found, Option.getD_some] at keyed ⊢
      by_cases named : ∃ raw, value = .str raw
      · obtain ⟨raw, rfl⟩ := named
        rw [normalizeValue_str]
        by_cases empty : text.normalizeRoom raw = ""
        · simp [empty]
        · by_cases free : (store.rooms.dir.lookup (text.normalizeRoom raw)).isNone <;>
            simp [empty, free, Json.roomMeta]
      · rw [not_exists] at named
        have falsy : value.truthy = false := by
          cases value with
          | str raw => exact absurd rfl (named raw)
          | null | bool | num | arr | obj => simpa using keyed
        rw [normalizeValue_other text value named]
        cases value with
        | str raw => exact absurd rfl (named raw)
        | null | bool | num | arr | obj => simp [falsy]

theorem loadEntry_unkeyed (text : Text) (store : RoomStore) (entry : Json)
    (unkeyed : entry.keyed = false) :
    loadEntry text store entry = .error .attributeError := by
  cases entry with
  | null | bool | num | str | arr => rfl
  | obj fields =>
    unfold Json.keyed at unkeyed
    unfold loadEntry
    simp only [Json.get, bind, Except.bind]
    obtain ⟨value, read⟩ : ∃ value, (fields.lookup "key").getD (.str "") = value := ⟨_, rfl⟩
    simp only [read] at unkeyed ⊢
    cases value with
    | str raw => simp at unkeyed
    | null | bool | num | arr | obj =>
      rw [normalizeValue_other text _ (by simp)]
      simp_all

theorem loadEntries_keyed (text : Text) (entries : List Json) (store : RoomStore)
    (keyed : entries.all Json.keyed = true) :
    entries.foldlM (loadEntry text) store = .ok (entries.foldl (enrol text) store) := by
  induction entries generalizing store with
  | nil => rfl
  | cons entry rest ih =>
    rw [List.all_cons, Bool.and_eq_true] at keyed
    rw [List.foldlM_cons, loadEntry_keyed text store entry keyed.1, List.foldl_cons]
    exact ih _ keyed.2

theorem loadEntries_unkeyed (text : Text) (entries : List Json) (store : RoomStore)
    (unkeyed : entries.all Json.keyed = false) :
    entries.foldlM (loadEntry text) store = .error .attributeError := by
  induction entries generalizing store with
  | nil => simp at unkeyed
  | cons entry rest ih =>
    rw [List.foldlM_cons]
    cases keyed : entry.keyed with
    | false => rw [loadEntry_unkeyed text store entry keyed]; rfl
    | true =>
      rw [loadEntry_keyed text store entry keyed]
      rw [List.all_cons, keyed, Bool.true_and] at unkeyed
      exact ih _ unkeyed

theorem enrol_lookup (text : Text) (store : RoomStore) (entry : Json) (key : String) :
    ((store.enrol text entry).rooms.dir.lookup key).isSome ↔
      (store.rooms.dir.lookup key).isSome ∨ entry.roomKey text = some key := by
  unfold enrol
  cases named : entry.roomKey text with
  | none => simp
  | some own =>
    by_cases free : (store.rooms.dir.lookup own).isNone
    · simp only [free, if_true, create_free own store.rooms free, Option.some.injEq]
      rw [store.rooms.dir.isSome_insert]
      exact or_congr_right ⟨Eq.symm, Eq.symm⟩
    · have held : (store.rooms.dir.lookup own).isSome :=
        Option.isSome_iff_ne_none.mpr (by simpa using free)
      simp only [free, Option.some.injEq]
      exact ⟨.inl, fun either => either.elim id fun same => same ▸ held⟩

theorem enrol_info (text : Text) (store : RoomStore) (entry : Json) (key : String) :
    (store.enrol text entry).info.lookup key =
      if entry.roomKey text = some key ∧ (store.rooms.dir.lookup key).isNone then some entry.roomMeta
      else store.info.lookup key := by
  unfold enrol
  cases named : entry.roomKey text with
  | none => simp
  | some own =>
    by_cases same : own = key
    · obtain rfl := same
      by_cases free : (store.rooms.dir.lookup own).isNone <;> simp [free, lookup_set]
    · have other : key ≠ own := Ne.symm same
      by_cases free : (store.rooms.dir.lookup own).isNone <;> simp [free, lookup_set, same, other]

theorem enrols_lookup (text : Text) (entries : List Json) (store : RoomStore) (key : String) :
    ((entries.foldl (enrol text) store).rooms.dir.lookup key).isSome ↔
      (store.rooms.dir.lookup key).isSome ∨ ∃ entry ∈ entries, entry.roomKey text = some key := by
  induction entries generalizing store with
  | nil => simp
  | cons entry rest ih =>
    rw [List.foldl_cons, ih, enrol_lookup]
    simp only [List.mem_cons, exists_eq_or_imp, or_assoc]

theorem enrols_held (text : Text) (entries : List Json) (store : RoomStore) (key : String)
    (held : (store.rooms.dir.lookup key).isSome) :
    (entries.foldl (enrol text) store).info.lookup key = store.info.lookup key := by
  induction entries generalizing store with
  | nil => rfl
  | cons entry rest ih =>
    have stays := (enrol_lookup text store entry key).mpr (.inl held)
    have taken : ¬ (store.rooms.dir.lookup key).isNone := by
      simpa using Option.isSome_iff_ne_none.mp held
    rw [List.foldl_cons, ih _ stays, enrol_info, if_neg fun both => taken both.2]

theorem enrols_info (text : Text) (entries : List Json) (store : RoomStore) (entry : Json)
    (key : String) (first : (entries.find? fun entry => entry.roomKey text = some key) = some entry)
    (free : (store.rooms.dir.lookup key).isNone) :
    (entries.foldl (enrol text) store).info.lookup key = some entry.roomMeta := by
  induction entries generalizing store with
  | nil => simp at first
  | cons head rest ih =>
    rw [List.foldl_cons]
    by_cases own : head.roomKey text = some key
    · obtain rfl : head = entry := by simpa [own] using first
      rw [enrols_held text rest _ key ((enrol_lookup text store head key).mpr (.inr own)),
        enrol_info, if_pos ⟨own, free⟩]
    · refine ih (store.enrol text head) (by simpa [own] using first) ?_
      have absent := enrol_lookup text store head key
      simp only [own, or_false] at absent
      rw [Option.isNone_iff_eq_none, ← Option.not_isSome_iff_eq_none] at free ⊢
      rwa [absent]

theorem roomKey_normal (text : Text) (entry : Json) (key : String)
    (named : entry.roomKey text = some key) : key ≠ "" ∧ ∃ raw, text.normalizeRoom raw = key := by
  unfold Json.roomKey at named
  split at named
  · split at named
    · split_ifs at named with empty
      obtain rfl := Option.some.inj named
      exact ⟨empty, _, rfl⟩
    · simp at named
  · simp at named

theorem enrols_loads (text : Text) (entries : List Json) (store : RoomStore)
    (normal : store.Normalised text) :
    (entries.foldl (enrol text) store).Normalised text ∧
      Loads text entries store (entries.foldl (enrol text) store) := by
  refine ⟨⟨?_, fun key held => ?_⟩, ⟨fun entry member key named => ?_, fun entry key first free => ?_⟩⟩
  · exact (enrols_lookup text entries store defaultRoom).mpr (.inl normal.default)
  · rcases (enrols_lookup text entries store key).mp held with before | ⟨entry, -, named⟩
    · exact normal.keys key before
    · exact .inr (roomKey_normal text entry key named)
  · exact (enrols_lookup text entries store key).mpr (.inr ⟨entry, member, named⟩)
  · exact enrols_info text entries store entry key first free

theorem load_tolerable (text : Text) (store : RoomStore) (data : Json)
    (tolerable : data.tolerable = true) :
    store.load text (some data) = .ok ((RoomsFile.holds data).entries.foldl (enrol text) store) := by
  cases data with
  | null | bool | num | str | arr => simp [Json.tolerable] at tolerable
  | obj fields =>
    unfold Json.tolerable at tolerable
    unfold load RoomsFile.entries
    simp only [Json.get, bind, Except.bind]
    cases found : fields.lookup "rooms" with
    | none => rfl
    | some rooms =>
      simp only [found, Option.getD_some] at tolerable ⊢
      cases rooms with
      | null | bool | num => simp at tolerable
      | str value =>
        obtain rfl : value = "" := by simpa using tolerable
        rfl
      | obj inner =>
        obtain rfl : inner = [] := by simpa using tolerable
        rfl
      | arr entries => exact loadEntries_keyed text entries store tolerable

theorem load_intolerable (text : Text) (store : RoomStore) (data : Json)
    (intolerable : data.tolerable = false) : ∃ error, store.load text (some data) = .error error := by
  cases data with
  | null | bool | num | str | arr => exact ⟨_, rfl⟩
  | obj fields =>
    unfold Json.tolerable at intolerable
    unfold load
    simp only [Json.get, bind, Except.bind]
    obtain ⟨rooms, read⟩ : ∃ rooms, (fields.lookup "rooms").getD (.arr []) = rooms := ⟨_, rfl⟩
    simp only [read] at intolerable ⊢
    cases rooms with
    | null | bool | num => exact ⟨_, rfl⟩
    | str value =>
      -- The characters of a text are texts, and so are the keys of an object.
      refine ⟨_, loadEntries_unkeyed text _ store ?_⟩
      obtain ⟨c, rest, spelled⟩ : ∃ c rest, value.toList = c :: rest := by
        cases spelled : value.toList with
        | nil => simp [String.toList_eq_nil_iff.mp spelled] at intolerable
        | cons c rest => exact ⟨c, rest, rfl⟩
      rw [spelled]
      rfl
    | obj inner =>
      refine ⟨_, loadEntries_unkeyed text _ store ?_⟩
      cases inner with
      | nil => simp at intolerable
      | cons field rest => rfl
    | arr entries => exact ⟨_, loadEntries_unkeyed text entries store intolerable⟩

theorem setPersist_holds (text : Text) (nesting : Nat) (data : Json) (store : RoomStore) :
    store.setPersist text nesting (.holds data) =
      if data.depth ≤ nesting then (store.load text (some data)).mapError .raised
      else .error .recursionError := by
  unfold setPersist jsonLoad
  by_cases shallow : data.depth ≤ nesting <;> simp [shallow, bind, Except.bind]

theorem setPersist_tolerates (text : Text) (nesting : Nat) (file : RoomsFile) (store : RoomStore)
    (normal : store.Normalised text) :
    (∃ after, store.setPersist text nesting file = .ok after ∧ after.Normalised text ∧
      Loads text file.entries store after) ↔ file.Tolerable nesting := by
  cases file with
  | absent | unreadable =>
    exact ⟨fun _ => trivial, fun _ => ⟨store, rfl, enrols_loads text [] store normal⟩⟩
  | holds data =>
    rw [setPersist_holds]
    constructor
    · rintro ⟨after, returns, -⟩
      split_ifs at returns with shallow
      refine ⟨shallow, ?_⟩
      by_contra intolerable
      obtain ⟨error, raised⟩ :=
        load_intolerable text store data (Bool.eq_false_of_not_eq_true intolerable)
      simp [raised, Except.mapError] at returns
    · rintro ⟨shallow, tolerable⟩
      rw [if_pos shallow, load_tolerable text store data tolerable]
      exact ⟨_, rfl, enrols_loads text _ store normal⟩

theorem start_normalised (text : Text) : ({} : RoomStore).Normalised text := by
  refine ⟨start_listed.default, fun key held => ?_⟩
  by_cases same : key = defaultRoom
  · exact .inl same
  · exact absurd ((start_listed.rooms key).mpr ⟨same, held⟩) (by simp [dictKeys])

theorem setPersist_tolerates_blank :
    ∃ after, ({} : RoomStore).setPersist asciiText 3
        (.holds (.obj [("rooms", .arr [.obj [("key", .str "den ")], .obj [("key", .num 0)]])])) =
          .ok after ∧
      (after.rooms.dir.lookup "DEN").isSome ∧ after.info.lookup "DEN" = some ⟨.null, .str ""⟩ := by
  obtain ⟨after, returns, -, loads⟩ :=
    (setPersist_tolerates asciiText 3
      (.holds (.obj [("rooms", .arr [.obj [("key", .str "den ")], .obj [("key", .num 0)]])]))
      {} (start_normalised asciiText)).mpr ⟨by decide, by decide +kernel⟩
  have named : Json.roomKey asciiText (.obj [("key", .str "den ")]) = some "DEN" := by decide +kernel
  exact ⟨after, returns, loads.rooms _ List.mem_cons_self "DEN" named,
    loads.info (.obj [("key", .str "den ")]) "DEN" (List.find?_cons_of_pos (by simp [named]))
      (by decide +kernel)⟩

-- A list that is null.
theorem nullRooms_raises :
    ¬ ∃ after, ({} : RoomStore).setPersist asciiText 3 (.holds (.obj [("rooms", .null)])) = .ok after ∧
      after.Normalised asciiText ∧
      Loads asciiText (RoomsFile.holds (.obj [("rooms", .null)])).entries {} after := by
  rintro ⟨after, returns, -⟩
  have raises : ({} : RoomStore).setPersist asciiText 3 (.holds (.obj [("rooms", .null)])) =
      .error (.raised .typeError) := rfl
  rw [raises] at returns
  simp at returns

end RoomStore

end MidiToIp.Orchestrator
