import Mathlib.Data.List.Lemmas
import Mathlib.Data.Rat.Defs
import MidiToIp.Orchestrator.Rooms
import MidiToIp.Shared.Dict

set_option autoImplicit false

-- What `json.load` returns for the file is a `Json`; a float that `json.dump` wrote is read back as it was.

namespace MidiToIp.Orchestrator

open Dicts

/-- `str.strip` and `str.upper` on a character: Python's own beyond ASCII, and no character turns
into an ASCII letter of lower case. -/
structure Text where
  isSpace : Char → Bool
  upper : Char → List Char
  space_ascii : ∀ c : Char, c.toNat < 128 →
    isSpace c = (c.toNat = 32 ∨ (9 ≤ c.toNat ∧ c.toNat ≤ 13) ∨ (28 ≤ c.toNat ∧ c.toNat ≤ 31) : Bool)
  upper_ascii : ∀ c : Char, c.toNat < 128 → upper c = [c.toUpper]
  upper_notLower : ∀ c, ∀ d ∈ upper c, ¬ (97 ≤ d.toNat ∧ d.toNat ≤ 122)

def asciiText : Text where
  isSpace c := (c.toNat = 32 ∨ (9 ≤ c.toNat ∧ c.toNat ≤ 13) ∨ (28 ≤ c.toNat ∧ c.toNat ≤ 31) : Bool)
  upper c := [c.toUpper]
  space_ascii _ _ := rfl
  upper_ascii _ _ := rfl
  upper_notLower c d member := by
    obtain rfl := List.mem_singleton.mp member
    unfold Char.toUpper
    split
    next lower =>
      have least : 97 ≤ c.val.toNat := UInt32.le_iff_toNat_le.mp lower.1
      have most : c.val.toNat ≤ 122 := UInt32.le_iff_toNat_le.mp lower.2
      have moved : (c.val + ('A'.val - 'a'.val)).toNat = c.val.toNat - 32 := by
        have gap : ('A'.val - 'a'.val).toNat = 2 ^ 32 - 32 := by decide
        rw [UInt32.toNat_add, gap]
        omega
      change ¬ (97 ≤ (c.val + ('A'.val - 'a'.val)).toNat ∧ (c.val + ('A'.val - 'a'.val)).toNat ≤ 122)
      rw [moved]
      omega
    next notLower =>
      intro within
      exact notLower ⟨UInt32.le_iff_toNat_le.mpr within.1, UInt32.le_iff_toNat_le.mpr within.2⟩

def Text.strip (text : Text) (s : String) : String :=
  String.ofList (((s.toList.dropWhile text.isSpace).reverse.dropWhile text.isSpace).reverse)

def Text.toUpper (text : Text) (s : String) : String := String.ofList (s.toList.flatMap text.upper)

def Text.normalizeRoom (text : Text) (key : String) : String := text.toUpper (text.strip key)

def validRoom (key : String) : Bool :=
  1 ≤ key.toList.length ∧ key.toList.length ≤ 16 ∧ key.toList.all fun c => c.isAlphanum

def roomCodeAlphabet : String := "ABCDEFGHJKMNPQRSTUVWXYZ23456789"

def roomCodeLen : Nat := 5

inductive Json where
  | null
  | bool (value : Bool)
  | num (value : Rat)
  | str (value : String)
  | arr (items : List Json)
  | obj (fields : List (String × Json))

inductive PyError where
  | attributeError
  | typeError
  deriving DecidableEq, Repr

def Json.get (value : Json) (key : String) (default : Json) : Except PyError Json :=
  match value with
  | .obj fields => .ok ((fields.lookup key).getD default)
  | _ => .error .attributeError

def Json.items : Json → Except PyError (List Json)
  | .arr items => .ok items
  | .str value => .ok (value.toList.map fun c => .str c.toString)
  | .obj fields => .ok (fields.map fun field => .str field.1)
  | _ => .error .typeError

def Json.truthy : Json → Bool
  | .null => false
  | .bool value => value
  | .num value => value ≠ 0
  | .str value => value ≠ ""
  | .arr items => !items.isEmpty
  | .obj fields => !fields.isEmpty

def Text.normalizeValue (text : Text) (value : Json) : Except PyError String :=
  if value.truthy then
    match value with
    | .str key => .ok (text.normalizeRoom key)
    | _ => .error .attributeError
  else .ok (text.normalizeRoom "")

structure RoomMeta where
  createdAt : Json
  name : Json

structure RoomStore where
  rooms : Rooms := {}
  info : List (String × RoomMeta) := []

def Rooms.reaps (now ttl : Nat) (rooms : Rooms) (key : String) : Bool :=
  key ≠ defaultRoom ∧ key ∈ rooms.used ∧
    ((rooms.dir.lookup key).any fun ring => (rooms.rings ring).size = 0) ∧
    (rooms.emptySince.lookup key).any fun started => now - started > ttl

namespace RoomStore

def create (key : String) (createdAt : Rat) (name : String) (store : RoomStore) : Bool × RoomStore :=
  let (created, rooms) := store.rooms.create key
  if created then
    (true,
      { rooms := rooms
        info := dictSet key ⟨.num createdAt, .str name⟩ store.info })
  else (false, store)

def delete (key : String) (store : RoomStore) : Option (List Player) × RoomStore :=
  match store.rooms.delete key with
  | (none, _) => (none, store)
  | (some players, rooms) => (some players, { rooms := rooms, info := dictPop key store.info })

def reapOne (now ttl : Nat) (store : RoomStore × List String) (key : String) :
    RoomStore × List String :=
  ({ rooms := store.1.rooms.reapOne now ttl key
     info := if store.1.rooms.reaps now ttl key then dictPop key store.1.info else store.1.info },
    if store.1.rooms.reaps now ttl key then store.2 ++ [key] else store.2)

def reapEmpty (now ttl : Nat) (store : RoomStore) : RoomStore × List String :=
  (dictKeys store.rooms.dir.entries).foldl (reapOne now ttl) (store, [])

def saveEntry (store : RoomStore) (key : String) : Json :=
  .obj (("key", .str key) ::
    match store.info.lookup key with
    | some data => [("created_at", data.createdAt), ("name", data.name)]
    | none => [])

def saved (store : RoomStore) : Json :=
  .obj [("rooms", .arr (((dictKeys store.rooms.dir.entries).filter fun key => key ≠ defaultRoom).map
    store.saveEntry))]

def loadEntry (text : Text) (store : RoomStore) (entry : Json) : Except PyError RoomStore := do
  let value ← entry.get "key" (.str "")
  let key ← text.normalizeValue value
  if key ≠ "" ∧ (store.rooms.dir.lookup key).isNone then
    let createdAt ← entry.get "created_at" .null
    let name ← entry.get "name" (.str "")
    return { rooms := (store.rooms.create key).2, info := dictSet key ⟨createdAt, name⟩ store.info }
  else return store

def load (text : Text) (data : Option Json) (store : RoomStore) : Except PyError RoomStore :=
  match data with
  | none => .ok store
  | some data => do
    let rooms ← data.get "rooms" (.arr [])
    let entries ← rooms.items
    entries.foldlM (loadEntry text) store

end RoomStore

structure RoomStore.Listed (store : RoomStore) : Prop where
  default : (store.rooms.dir.lookup defaultRoom).isSome
  keys : (dictKeys store.info).Nodup
  rooms : ∀ key, key ∈ dictKeys store.info ↔
    key ≠ defaultRoom ∧ (store.rooms.dir.lookup key).isSome

theorem Directory.isSome_insert (dir : Directory) (key other : String) :
    ((dir.insert key).lookup other).isSome ↔ (dir.lookup other).isSome ∨ other = key := by
  simp only [Option.isSome_iff_exists, dir.lookup_insert]
  constructor
  · rintro ⟨ring, old | ⟨-, new, -⟩⟩
    · exact .inl ⟨ring, old⟩
    · exact .inr new
  · rintro (⟨ring, old⟩ | rfl)
    · exact ⟨ring, .inl old⟩
    · cases found : dir.lookup other with
      | none => exact ⟨dir.fresh, .inr ⟨rfl, rfl, rfl⟩⟩
      | some ring => exact ⟨ring, .inl rfl⟩

theorem Directory.isSome_erase (dir : Directory) (key other : String) :
    ((dir.erase key).lookup other).isSome ↔ other ≠ key ∧ (dir.lookup other).isSome := by
  simp only [Option.isSome_iff_exists, dir.lookup_erase]
  tauto

namespace RoomStore

theorem Listed.insert {store after : RoomStore} (listed : store.Listed) (key : String)
    (data : RoomMeta) (free : (store.rooms.dir.lookup key).isNone)
    (dir : after.rooms.dir = store.rooms.dir.insert key)
    (info : after.info = dictSet key data store.info) : after.Listed := by
  have absent : ¬ (store.rooms.dir.lookup key).isSome := by simpa using free
  have named : key ≠ defaultRoom := by
    rintro rfl
    exact absent listed.default
  have new : key ∉ dictKeys store.info := fun member => absent ((listed.rooms key).mp member).2
  have keys : dictKeys after.info = dictKeys store.info ++ [key] := by
    rw [info, dictKeys_set, if_neg new]
  refine ⟨?_, ?_, fun other => ?_⟩
  · rw [dir, store.rooms.dir.isSome_insert]
    exact .inl listed.default
  · rw [keys, List.nodup_append]
    refine ⟨listed.keys, by simp, fun other member single found => ?_⟩
    obtain rfl := List.mem_singleton.mp found
    rintro rfl
    exact new member
  · rw [keys, List.mem_append, List.mem_singleton, listed.rooms, dir, store.rooms.dir.isSome_insert]
    constructor
    · rintro (⟨named', held⟩ | rfl)
      · exact ⟨named', .inl held⟩
      · exact ⟨named, .inr rfl⟩
    · rintro ⟨named', held | same⟩
      · exact .inl ⟨named', held⟩
      · exact .inr same

theorem Listed.erase {store after : RoomStore} (listed : store.Listed) (key : String)
    (named : key ≠ defaultRoom) (dir : after.rooms.dir = store.rooms.dir.erase key)
    (info : after.info = dictPop key store.info) : after.Listed := by
  refine ⟨?_, ?_, fun other => ?_⟩
  · rw [dir, store.rooms.dir.isSome_erase]
    exact ⟨Ne.symm named, listed.default⟩
  · rw [info, dictKeys_pop]
    exact listed.keys.filter _
  · rw [info, dictKeys_pop, List.mem_filter, listed.rooms, dir, store.rooms.dir.isSome_erase]
    simp only [decide_eq_true_eq]
    tauto

theorem Listed.same {store after : RoomStore} (listed : store.Listed)
    (dir : after.rooms.dir = store.rooms.dir) (info : after.info = store.info) : after.Listed :=
  ⟨by rw [dir]; exact listed.default, by rw [info]; exact listed.keys,
    by rw [info, dir]; exact listed.rooms⟩

theorem create_rooms (key : String) (createdAt : Rat) (name : String) (store : RoomStore) :
    (store.create key createdAt name).2.rooms = (store.rooms.create key).2 := by
  unfold create Rooms.create
  by_cases held : (store.rooms.dir.lookup key).isSome <;> simp [held]

theorem create_listed (key : String) (createdAt : Rat) (name : String) (store : RoomStore)
    (listed : store.Listed) : (store.create key createdAt name).2.Listed := by
  unfold create Rooms.create
  by_cases held : (store.rooms.dir.lookup key).isSome
  · simpa [held] using listed
  · simp only [held]
    exact listed.insert key _ (by simpa using held) rfl rfl

theorem delete_rooms (key : String) (store : RoomStore) :
    (store.delete key).2.rooms = (store.rooms.delete key).2 := by
  unfold delete Rooms.delete
  by_cases unnamed : key = defaultRoom
  · simp [unnamed]
  · simp only [unnamed, if_false]
    cases store.rooms.dir.lookup key <;> rfl

theorem delete_listed (key : String) (store : RoomStore) (listed : store.Listed) :
    (store.delete key).2.Listed := by
  unfold delete Rooms.delete
  by_cases unnamed : key = defaultRoom
  · simpa [unnamed] using listed
  · simp only [unnamed, if_false]
    cases held : store.rooms.dir.lookup key with
    | none => simpa using listed
    | some ring => exact listed.erase key unnamed rfl rfl

theorem reapOne_cases (now ttl : Nat) (rooms : Rooms) (key : String) :
    (rooms.reaps now ttl key = true ∧ rooms.reapOne now ttl key = rooms.forget key) ∨
      (rooms.reaps now ttl key = false ∧ (rooms.reapOne now ttl key).dir = rooms.dir) := by
  unfold Rooms.reaps Rooms.reapOne
  by_cases candidate : key = defaultRoom ∨ key ∉ rooms.used
  · right
    simp only [if_pos candidate]
    grind
  · have wanted : key ≠ defaultRoom ∧ key ∈ rooms.used := by
      rw [not_or, not_not] at candidate
      exact candidate
    simp only [if_neg candidate]
    cases held : rooms.dir.lookup key with
    | none => simp
    | some ring =>
      by_cases inhabited : (rooms.rings ring).size > 0
      · right
        have busy : (rooms.rings ring).size ≠ 0 := by omega
        simp [inhabited, busy]
      · have idle : (rooms.rings ring).size = 0 := by omega
        cases since : rooms.emptySince.lookup key with
        | none => simp [idle]
        | some started =>
          by_cases late : now - started > ttl <;> simp [idle, late, wanted]

theorem reapOne_listed (now ttl : Nat) (store : RoomStore × List String) (key : String)
    (listed : store.1.Listed) : (reapOne now ttl store key).1.Listed := by
  rcases reapOne_cases now ttl store.1.rooms key with ⟨reaps, forgets⟩ | ⟨stays, dir⟩
  · have named : key ≠ defaultRoom := by
      unfold Rooms.reaps at reaps
      simp only [decide_eq_true_eq] at reaps
      exact reaps.1
    exact listed.erase key named (by simp [reapOne, forgets, Rooms.forget]) (by simp [reapOne, reaps])
  · exact listed.same (by simp [reapOne, dir]) (by simp [reapOne, stays])

theorem reapEmpty_rooms (now ttl : Nat) (store : RoomStore) :
    (store.reapEmpty now ttl).1.rooms = store.rooms.reapEmpty now ttl := by
  have all (keys : List String) (start : RoomStore × List String) :
      (keys.foldl (reapOne now ttl) start).1.rooms =
        keys.foldl (Rooms.reapOne now ttl) start.1.rooms := by
    induction keys generalizing start with
    | nil => rfl
    | cons key rest ih => exact ih _
  exact all _ (store, [])

theorem reapEmpty_listed (now ttl : Nat) (store : RoomStore) (listed : store.Listed) :
    (store.reapEmpty now ttl).1.Listed := by
  have all (keys : List String) (start : RoomStore × List String) (listed : start.1.Listed) :
      (keys.foldl (reapOne now ttl) start).1.Listed := by
    induction keys generalizing start with
    | nil => exact listed
    | cons key rest ih => exact ih _ (reapOne_listed now ttl start key listed)
  exact all _ (store, []) listed

theorem create_free (key : String) (rooms : Rooms) (free : (rooms.dir.lookup key).isNone) :
    (rooms.create key).2 = { rooms with dir := rooms.dir.insert key } := by
  have absent : ¬ (rooms.dir.lookup key).isSome := by simpa using free
  rw [Rooms.create, if_neg absent]

theorem loadEntry_cases (text : Text) (store after : RoomStore) (entry : Json)
    (loaded : loadEntry text store entry = .ok after) :
    after = store ∨ ∃ key data, (store.rooms.dir.lookup key).isNone ∧
      after = { rooms := (store.rooms.create key).2, info := dictSet key data store.info } := by
  unfold loadEntry at loaded
  cases entry with
  | obj fields =>
    simp only [Json.get, bind, Except.bind] at loaded
    split at loaded
    next => simp at loaded
    next key _ =>
      split_ifs at loaded with new
      · exact .inr ⟨key, _, new.2, (Except.ok.inj loaded).symm⟩
      · exact .inl (Except.ok.inj loaded).symm
  | null | bool | num | str | arr => simp [Json.get, bind, Except.bind] at loaded

theorem loadEntry_listed (text : Text) (store after : RoomStore) (entry : Json)
    (listed : store.Listed) (loaded : loadEntry text store entry = .ok after) :
    after.Listed ∧ Rooms.Settles store.rooms after.rooms := by
  rcases loadEntry_cases text store after entry loaded with rfl | ⟨key, data, free, rfl⟩
  · exact ⟨listed, .refl _⟩
  · refine ⟨listed.insert key data free ?_ rfl, Rooms.create_settles key store.rooms⟩
    rw [create_free key store.rooms free]

theorem start_listed : ({} : RoomStore).Listed := by
  refine ⟨rfl, by simp [dictKeys], fun key => ?_⟩
  have only : (({} : RoomStore).rooms.dir.lookup key).isSome ↔ key = defaultRoom := by
    change (List.lookup key [(defaultRoom, 0)]).isSome ↔ _
    by_cases same : key = defaultRoom
    · simp [same]
    · simp [List.lookup_cons, beq_false_of_ne same, same]
  rw [only]
  simp [dictKeys]

theorem load_listed (text : Text) (data : Option Json) (store after : RoomStore)
    (listed : store.Listed) (loaded : store.load text data = .ok after) :
    after.Listed ∧ Rooms.Settles store.rooms after.rooms := by
  have all (entries : List Json) (start final : RoomStore) (listed : start.Listed)
      (loaded : entries.foldlM (loadEntry text) start = .ok final) :
      final.Listed ∧ Rooms.Settles start.rooms final.rooms := by
    induction entries generalizing start with
    | nil =>
      obtain rfl := Except.ok.inj loaded
      exact ⟨listed, .refl _⟩
    | cons entry rest ih =>
      rw [List.foldlM_cons] at loaded
      cases one : loadEntry text start entry with
      | error => simp [one, bind, Except.bind] at loaded
      | ok middle =>
        obtain ⟨middleListed, first⟩ := loadEntry_listed text start middle entry listed one
        obtain ⟨finalListed, second⟩ := ih middle middleListed (by simpa [one, bind, Except.bind] using loaded)
        exact ⟨finalListed, first.trans second⟩
  unfold load at loaded
  cases data with
  | none =>
    obtain rfl := Except.ok.inj loaded
    exact ⟨listed, .refl _⟩
  | some data =>
    simp only [bind, Except.bind] at loaded
    split at loaded
    next => simp at loaded
    next rooms _ =>
      split at loaded
      next => simp at loaded
      next entries _ => exact all entries store after listed loaded

end RoomStore

end MidiToIp.Orchestrator
