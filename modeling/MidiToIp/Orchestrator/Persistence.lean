import Mathlib.Data.List.Basic
import MidiToIp.Orchestrator.Reaper

set_option autoImplicit false

namespace MidiToIp.Orchestrator

open Machines Dicts

-- `_gen_room_code` for the codes drawn one after the other.
def genRoomCode (codes : List String) (rooms : Rooms) : Option String :=
  codes.find? fun code => !rooms.isOpen code

def postKey (text : Text) (raw : String) (codes : List String) (rooms : Rooms) : Option String :=
  let key := text.normalizeRoom raw
  if key = "" then genRoomCode codes rooms
  else if !validRoom key then none
  else some key

def isRoomCode (code : String) : Bool :=
  code.toList.length = roomCodeLen ∧ code.toList.all fun c => c ∈ roomCodeAlphabet.toList

def Canonical (c : Char) : Prop := 48 ≤ c.toNat ∧ c.toNat ≤ 57 ∨ 65 ≤ c.toNat ∧ c.toNat ≤ 90

theorem canonical_of_code (c : Char) (member : c ∈ roomCodeAlphabet.toList) : Canonical c := by
  have all : roomCodeAlphabet.toList.all
      (fun c => 48 ≤ c.toNat ∧ c.toNat ≤ 57 ∨ 65 ≤ c.toNat ∧ c.toNat ≤ 90) = true := by decide +kernel
  have inRange := List.all_eq_true.mp all c member
  rw [decide_eq_true_eq] at inRange
  exact inRange

theorem canonical_of_alphanum (c : Char) (alphanum : c.isAlphanum = true)
    (notLower : ¬ (97 ≤ c.toNat ∧ c.toNat ≤ 122)) : Canonical c := by
  unfold Canonical
  change ((decide ('A'.val ≤ c.val ∧ c.val ≤ 'Z'.val) || ('a'.val ≤ c.val && c.val ≤ 'z'.val)) ||
    ('0'.val ≤ c.val && c.val ≤ '9'.val)) = true at alphanum
  simp only [Bool.or_eq_true, Bool.and_eq_true, decide_eq_true_eq, UInt32.le_iff_toNat_le] at alphanum
  change ((65 ≤ c.toNat ∧ c.toNat ≤ 90) ∨ (97 ≤ c.toNat ∧ c.toNat ≤ 122)) ∨
    (48 ≤ c.toNat ∧ c.toNat ≤ 57) at alphanum
  omega

theorem toUpper_canonical (c : Char) (canonical : Canonical c) : c.toUpper = c := by
  unfold Char.toUpper
  refine dif_neg fun lower => ?_
  have least : 97 ≤ c.toNat := UInt32.le_iff_toNat_le.mp lower.1
  unfold Canonical at canonical
  omega

theorem normalizeRoom_canonical (text : Text) (key : String)
    (canonical : ∀ c ∈ key.toList, Canonical c) : text.normalizeRoom key = key := by
  have solid : ∀ c ∈ key.toList, text.isSpace c = false := by
    intro c member
    have range := canonical c member
    unfold Canonical at range
    rw [text.space_ascii c (by omega)]
    simp only [decide_eq_false_iff_not]
    omega
  have upper : ∀ c ∈ key.toList, text.upper c = [c] := by
    intro c member
    have range := canonical c member
    rw [text.upper_ascii c (by unfold Canonical at range; omega), toUpper_canonical c range]
  have kept (l : List Char) (solid : ∀ c ∈ l, text.isSpace c = false) : l.dropWhile text.isSpace = l := by
    cases l with
    | nil => rfl
    | cons c rest => simp [solid c]
  have strip : text.strip key = key := by
    unfold Text.strip
    rw [kept _ solid, kept _ (by simpa using solid), List.reverse_reverse, String.ofList_toList]
  have same : key.toList.flatMap text.upper = key.toList := by
    rw [List.flatMap_congr upper]
    simp
  rw [Text.normalizeRoom, strip, Text.toUpper, same, String.ofList_toList]

theorem postKey_fixed (text : Text) (raw : String) (codes : List String) (rooms : Rooms) (key : String)
    (drawn : codes.all isRoomCode = true) (admitted : postKey text raw codes rooms = some key) :
    text.normalizeRoom key = key := by
  apply normalizeRoom_canonical
  unfold postKey at admitted
  simp only at admitted
  split_ifs at admitted with empty valid
  · have code := List.all_eq_true.mp drawn key (List.mem_of_find?_eq_some admitted)
    unfold isRoomCode at code
    simp only [decide_eq_true_eq, List.all_eq_true] at code
    exact fun c member => canonical_of_code c (code.2 c member)
  · obtain rfl := Option.some.inj admitted
    intro c member
    have alphanum : c.isAlphanum = true := by
      unfold validRoom at valid
      simp only [Bool.not_eq_true', decide_eq_false_iff_not, not_not, List.all_eq_true] at valid
      exact valid.2.2 c member
    apply canonical_of_alphanum c alphanum
    rw [Text.normalizeRoom, Text.toUpper, String.toList_ofList] at member
    obtain ⟨before, -, produced⟩ := List.mem_flatMap.mp member
    exact text.upper_notLower before c produced

namespace RoomStore

structure Restored (store restored : RoomStore) : Prop where
  rooms : ∀ key, (restored.rooms.dir.lookup key).isSome ↔ (store.rooms.dir.lookup key).isSome
  info : ∀ key, restored.info.lookup key = store.info.lookup key
  empty : ∀ ring, (restored.rooms.rings ring).players = []

def Restores (text : Text) (file : Option Json) (store : RoomStore) : Prop :=
  ∃ restored, ({} : RoomStore).load text file = .ok restored ∧ Restored store restored

def Normal (text : Text) (store : RoomStore) : Prop :=
  ∀ key, (store.rooms.dir.lookup key).isSome → key ≠ defaultRoom → text.normalizeRoom key = key

theorem loadEntry_saveEntry (text : Text) (store into : RoomStore) (key : String) (data : RoomMeta)
    (named : key ≠ "") (normal : text.normalizeRoom key = key)
    (found : store.info.lookup key = some data) (free : (into.rooms.dir.lookup key).isNone) :
    loadEntry text into (store.saveEntry key) =
      .ok { rooms := (into.rooms.create key).2, info := dictSet key data into.info } := by
  unfold loadEntry saveEntry
  simp [found, Json.get, bind, Except.bind, Text.normalizeValue, Json.truthy, named, normal, free,
    List.lookup_cons, pure, Except.pure, show ("created_at" == "key") = false by decide,
    show ("name" == "key") = false by decide, show ("name" == "created_at") = false by decide]

theorem loadEntries_saved (text : Text) (store : RoomStore) (keys : List String) (into : RoomStore)
    (distinct : keys.Nodup)
    (each : ∀ key ∈ keys, key ≠ "" ∧ text.normalizeRoom key = key ∧
      (store.info.lookup key).isSome ∧ (into.rooms.dir.lookup key).isNone) :
    ∃ loaded, (keys.map store.saveEntry).foldlM (loadEntry text) into = .ok loaded ∧
      (∀ key, (loaded.rooms.dir.lookup key).isSome ↔
        (into.rooms.dir.lookup key).isSome ∨ key ∈ keys) ∧
      (∀ key, loaded.info.lookup key =
        if key ∈ keys then store.info.lookup key else into.info.lookup key) ∧
      loaded.rooms.rings = into.rooms.rings := by
  induction keys generalizing into with
  | nil => exact ⟨into, rfl, by simp, by simp, rfl⟩
  | cons key rest ih =>
    obtain ⟨named, normal, known, free⟩ := each key List.mem_cons_self
    obtain ⟨data, found⟩ := Option.isSome_iff_exists.mp known
    obtain ⟨fresh, distinct⟩ := List.nodup_cons.mp distinct
    have one := loadEntry_saveEntry text store into key data named normal found free
    obtain ⟨middle, middleIs⟩ : ∃ middle : RoomStore, middle =
      ⟨(into.rooms.create key).2, dictSet key data into.info⟩ := ⟨_, rfl⟩
    rw [← middleIs] at one
    have dir (other : String) : (middle.rooms.dir.lookup other).isSome ↔
        (into.rooms.dir.lookup other).isSome ∨ other = key := by
      rw [middleIs, create_free key into.rooms free]
      exact into.rooms.dir.isSome_insert key other
    obtain ⟨loaded, folded, rooms, info, rings⟩ := ih middle distinct fun other member => by
      obtain ⟨named, normal, known, free⟩ := each other (List.mem_cons_of_mem _ member)
      refine ⟨named, normal, known, ?_⟩
      rw [Option.isNone_iff_eq_none, ← Option.not_isSome_iff_eq_none, dir]
      rintro (held | rfl)
      · simp [Option.isNone_iff_eq_none.mp free] at held
      · exact fresh member
    refine ⟨loaded, ?_, ?_, ?_, ?_⟩
    · rw [List.map_cons, List.foldlM_cons, one]
      exact folded
    · intro other
      rw [rooms, dir, List.mem_cons, or_assoc]
    · intro other
      rw [info, middleIs, lookup_set]
      by_cases same : other = key
      · simp [same, fresh, found]
      · simp [same]
    · rw [rings, middleIs, (Rooms.create_settles key into.rooms).rings]

theorem restores_saved (text : Text) (store : RoomStore) (listed : store.Listed)
    (normal : store.Normal text) : Restores text (some store.saved) store := by
  have member (key : String) : key ∈ (dictKeys store.rooms.dir.entries).filter
      (fun key => key ≠ defaultRoom) ↔ key ≠ defaultRoom ∧ (store.rooms.dir.lookup key).isSome := by
    rw [List.mem_filter, dictKeys, List.mem_map]
    simp only [decide_eq_true_eq, Option.isSome_iff_exists, store.rooms.dir.lookup_eq_some]
    constructor
    · rintro ⟨⟨entry, present, rfl⟩, named⟩
      exact ⟨named, entry.2, present⟩
    · rintro ⟨named, ring, present⟩
      exact ⟨⟨_, present, rfl⟩, named⟩
  have only (key : String) : (({} : RoomStore).rooms.dir.lookup key).isSome ↔ key = defaultRoom := by
    have listed := start_listed.rooms key
    have default := start_listed.default
    by_cases same : key = defaultRoom
    · simpa [same] using default
    · simpa [same, dictKeys] using listed
  obtain ⟨loaded, folded, rooms, info, rings⟩ := loadEntries_saved text store
    ((dictKeys store.rooms.dir.entries).filter fun key => key ≠ defaultRoom) {}
    (store.rooms.dir.keys.filter _) fun key within => by
      obtain ⟨named, held⟩ := (member key).mp within
      refine ⟨named, normal key held named, (lookup_isSome key _).mpr ((listed.rooms key).mpr ⟨named, held⟩), ?_⟩
      rw [Option.isNone_iff_eq_none, ← Option.not_isSome_iff_eq_none, only]
      exact named
  refine ⟨loaded, ?_, ?_, ?_, fun ring => by rw [rings]; rfl⟩
  · simpa [load, saved, Json.get, Json.items, bind, Except.bind] using folded
  · intro key
    rw [rooms, member, only]
    by_cases same : key = defaultRoom
    · simpa [same] using listed.default
    · simp [same]
  · intro key
    rw [info]
    split
    next => rfl
    next absent =>
      have unknown : store.info.lookup key = none := by
        rw [← Option.not_isSome_iff_eq_none, lookup_isSome, listed.rooms, ← member]
        exact absent
      rw [unknown]
      rfl

theorem Restores.congr {text : Text} {file : Option Json} {store after : RoomStore}
    (restores : Restores text file store) (dir : after.rooms.dir = store.rooms.dir)
    (info : after.info = store.info) : Restores text file after := by
  obtain ⟨restored, loaded, same⟩ := restores
  exact ⟨restored, loaded, by rw [dir]; exact same.rooms, by rw [info]; exact same.info, same.empty⟩

theorem reapEmpty_none (now ttl : Nat) (store : RoomStore)
    (nothing : (store.reapEmpty now ttl).2 = []) :
    (store.reapEmpty now ttl).1.rooms.dir = store.rooms.dir ∧
      (store.reapEmpty now ttl).1.info = store.info := by
  have grows (keys : List String) (start : RoomStore × List String) :
      start.2 <+: (keys.foldl (reapOne now ttl) start).2 := by
    induction keys generalizing start with
    | nil => exact List.prefix_refl _
    | cons key rest ih =>
      refine List.IsPrefix.trans ?_ (ih _)
      unfold reapOne
      simp only
      split
      · exact List.prefix_append _ _
      · exact List.prefix_refl _
  have all (keys : List String) (start : RoomStore × List String)
      (nothing : (keys.foldl (reapOne now ttl) start).2 = []) :
      (keys.foldl (reapOne now ttl) start).1.rooms.dir = start.1.rooms.dir ∧
        (keys.foldl (reapOne now ttl) start).1.info = start.1.info := by
    induction keys generalizing start with
    | nil => exact ⟨rfl, rfl⟩
    | cons key rest ih =>
      obtain ⟨dir, info⟩ := ih _ nothing
      have kept : (reapOne now ttl start key).2 = [] := by
        have before := grows rest (reapOne now ttl start key)
        rw [List.foldl_cons] at nothing
        rw [nothing] at before
        exact List.prefix_nil.mp before
      rcases reapOne_cases now ttl start.1.rooms key with ⟨reaps, -⟩ | ⟨stays, same⟩
      · simp [reapOne, reaps] at kept
      · rw [List.foldl_cons, dir, info]
        exact ⟨by simp [reapOne, same], by simp [reapOne, stays]⟩
  exact all _ (store, []) nothing

end RoomStore

inductive Tmp where
  | absent
  | unfinished
  | complete (data : Json)

structure Disk where
  file : Option Json := none
  tmp : Tmp := .absent

inductive Stage where
  | entered
  | opened
  | dumped
  deriving DecidableEq, Repr

/-- A call of `_save`; `before` is the store that the calling operation found. -/
structure Saving where
  before : RoomStore
  data : Json
  stage : Stage

structure Process where
  host : Host := {}
  disk : Disk := {}
  saving : Option Saving := none

inductive ProcessLabel where
  | post (raw : String) (codes : List String) (name : String) (wall : Rat)
  | serve (label : Label)
  | openTmp
  | dumpTmp
  | replaceTmp
  | restart

namespace Process

def saves (request : Request) (h : Host) : Bool :=
  match request.label with
  | .create key => (h.store.create key request.wall request.name).1
  | .delete key => (h.store.delete key).1.isSome
  | .reap ttl => (h.store.reapEmpty h.server.now ttl).2 ≠ []
  | _ => false

-- Nothing else is served before `_save` returns.
def serve (request : Request) (p : Process) : Option Process :=
  match p.saving with
  | some _ => none
  | none => (p.host.next request).map fun host =>
    { p with
      host := host
      saving := if saves request p.host then some ⟨p.host.store, host.store.saved, .entered⟩ else none }

def isCreate : Label → Bool
  | .create _ => true
  | _ => false

def next (text : Text) (p : Process) : ProcessLabel → Option Process
  | .post raw codes name wall =>
    if codes.all isRoomCode then
      match postKey text raw codes p.host.server.rooms with
      | some key => p.serve { label := .create key, wall := wall, name := name }
      | none => some p
    else none
  | .serve label => if isCreate label then none else p.serve { label := label }
  | .openTmp =>
    match p.saving with
    | some ⟨before, data, .entered⟩ =>
      some { p with disk.tmp := .unfinished, saving := some ⟨before, data, .opened⟩ }
    | _ => none
  | .dumpTmp =>
    match p.saving with
    | some ⟨before, data, .opened⟩ =>
      some { p with disk.tmp := .complete data, saving := some ⟨before, data, .dumped⟩ }
    | _ => none
  | .replaceTmp =>
    match p.saving, p.disk.tmp with
    | some ⟨_, _, .dumped⟩, .complete data => some { p with disk := ⟨some data, .absent⟩, saving := none }
    | _, _ => none
  | .restart =>
    match Host.start text p.disk.file with
    | .ok host => some { host := host, disk := p.disk }
    | .error _ => none

end Process

def processMachine (text : Text) : Machine Process ProcessLabel := ⟨Process.next text⟩

namespace Host

theorem store_rooms (h : Host) : h.store.rooms = h.server.rooms := rfl

theorem unsaved (h after : Host) (request : Request) (quiet : Process.saves request h = false)
    (step : h.next request = some after) :
    after.store.rooms.dir = h.store.rooms.dir ∧ after.store.info = h.store.info := by
  obtain ⟨server, serverStep, rfl⟩ := Option.map_eq_some_iff.mp step
  obtain ⟨label, wall, name⟩ := request
  have rooms := Server.next_roomsStep h.server server label serverStep
  cases label with
  | create key =>
    obtain rfl := Option.some.inj serverStep
    have same : h.store.create key wall name = (false, h.store) := by
      unfold Process.saves RoomStore.create at quiet
      unfold RoomStore.create
      simp only at quiet ⊢
      split_ifs at quiet ⊢
      rfl
    refine ⟨?_, ?_⟩
    · change (h.server.rooms.create key).2.dir = _
      rw [← h.store_rooms, ← h.store.create_rooms key wall name, same]
    · change (h.store.create key wall name).2.info = _
      rw [same]
  | delete key =>
    obtain rfl := Option.some.inj serverStep
    have same : h.store.delete key = (none, h.store) := by
      unfold Process.saves RoomStore.delete at quiet
      unfold RoomStore.delete
      simp only at quiet ⊢
      split at quiet
      next => rfl
      next => simp at quiet
    refine ⟨?_, ?_⟩
    · change (h.server.rooms.delete key).2.dir = _
      rw [← h.store_rooms, ← h.store.delete_rooms key, same]
    · change (h.store.delete key).2.info = _
      rw [same]
  | reap ttl =>
    obtain rfl := Option.some.inj serverStep
    have nothing : (h.store.reapEmpty h.server.now ttl).2 = [] := by
      simpa [Process.saves] using quiet
    obtain ⟨dir, info⟩ := h.store.reapEmpty_none h.server.now ttl nothing
    refine ⟨?_, info⟩
    rw [h.store.reapEmpty_rooms] at dir
    exact dir
  | _ => exact ⟨rooms.dir (by simp) (by simp) (by simp), rfl⟩

theorem next_normal (text : Text) (h after : Host) (request : Request) (normal : h.store.Normal text)
    (created : ∀ key, request.label = .create key → text.normalizeRoom key = key)
    (step : h.next request = some after) : after.store.Normal text := by
  obtain ⟨server, serverStep, rfl⟩ := Option.map_eq_some_iff.mp step
  have old (key : String) (origin : (h.server.rooms.dir.lookup key).isSome)
      (named : key ≠ defaultRoom) : text.normalizeRoom key = key := normal key origin named
  intro key held named
  change (server.rooms.dir.lookup key).isSome at held
  cases Server.next_roomsStep h.server server request.label serverStep with
  | same rooms => exact old key (by rwa [rooms] at held) named
  | create other is rooms =>
    rw [rooms] at held
    unfold Rooms.create at held
    split at held
    · exact old key held named
    · rcases (h.server.rooms.dir.isSome_insert other key).mp held with before | rfl
      · exact old key before named
      · exact created key is
  | delete other is rooms =>
    rw [rooms] at held
    unfold Rooms.delete at held
    split at held
    · exact old key held named
    · split at held
      · exact old key held named
      · exact old key ((h.server.rooms.dir.isSome_erase other key).mp held).2 named
  | reap ttl is rooms =>
    rw [rooms] at held
    cases Rooms.reapEmpty_reaped h.server.now ttl h.server.rooms key with
    | kept dir => exact old key (by rwa [dir] at held) named
    | taken _ _ _ _ _ _ _ gone => simp [gone] at held
  | join player id room rooms => exact old key (by rwa [rooms] at held) named
  | remove ring id rooms => exact old key (by rwa [rooms] at held) named

end Host

namespace Process

structure Sound (text : Text) (p : Process) : Prop where
  listed : p.host.store.Listed
  normal : p.host.store.Normal text
  idle : p.saving = none → p.host.store.Restores text p.disk.file
  busy : ∀ saving, p.saving = some saving → saving.before.Restores text p.disk.file ∧
    saving.before.Normal text ∧ saving.data = p.host.store.saved ∧
    (saving.stage = .dumped → p.disk.tmp = .complete saving.data)

theorem serve_sound (text : Text) (p after : Process) (request : Request) (sound : p.Sound text)
    (created : ∀ key, request.label = .create key → text.normalizeRoom key = key)
    (step : p.serve request = some after) : after.Sound text := by
  unfold serve at step
  split at step
  next => simp at step
  next idle =>
    obtain ⟨host, hostStep, rfl⟩ := Option.map_eq_some_iff.mp step
    have listed : host.store.Listed := by
      obtain ⟨server, serverStep, rfl⟩ := Option.map_eq_some_iff.mp hostStep
      exact Host.infoAfter_listed p.host request server sound.listed serverStep
    refine ⟨listed, Host.next_normal text p.host host request sound.normal created hostStep, ?_, ?_⟩
    · intro quiet
      simp only [ite_eq_right_iff, reduceCtorEq, imp_false, Bool.not_eq_true] at quiet
      obtain ⟨dir, info⟩ := Host.unsaved p.host host request quiet hostStep
      exact (sound.idle idle).congr dir info
    · intro saving started
      simp only [Option.ite_none_right_eq_some] at started
      obtain rfl := Option.some.inj started.2
      exact ⟨sound.idle idle, sound.normal, rfl, by simp⟩

theorem restart_sound (text : Text) (p after : Process) (sound : p.Sound text)
    (step : Process.next text p .restart = some after) : after.Sound text := by
  -- Whatever the file stands for, all its keys are normal.
  obtain ⟨store, ⟨restored, loaded, same⟩, normal⟩ :
      ∃ store, RoomStore.Restores text p.disk.file store ∧ store.Normal text := by
    cases saving : p.saving with
    | none => exact ⟨_, sound.idle saving, sound.normal⟩
    | some saving =>
      obtain ⟨restores, normal, -⟩ := sound.busy _ saving
      exact ⟨_, restores, normal⟩
  have started : Host.start text p.disk.file =
      .ok { server := { rooms := restored.rooms }, info := restored.info } := by
    rw [Host.start, loaded]
    rfl
  simp only [Process.next, started, Option.some.injEq] at step
  subst step
  refine ⟨(RoomStore.load_listed text _ {} restored RoomStore.start_listed loaded).1, ?_, fun _ => ?_,
    by simp⟩
  · exact fun key held named => normal key ((same.rooms key).mp held) named
  · exact ⟨restored, loaded, fun _ => Iff.rfl, fun _ => rfl, same.empty⟩

theorem writeTmp_sound (text : Text) (p : Process) (sound : p.Sound text) (saving : Saving)
    (busy : p.saving = some saving) (stage : Stage) (tmp : Tmp)
    (dumped : stage = .dumped → tmp = .complete saving.data) :
    Sound text { p with disk.tmp := tmp, saving := some ⟨saving.before, saving.data, stage⟩ } := by
  obtain ⟨restores, normal, saved, -⟩ := sound.busy saving busy
  refine ⟨sound.listed, sound.normal, by simp, fun later same => ?_⟩
  obtain rfl := Option.some.inj same
  exact ⟨restores, normal, saved, dumped⟩

theorem next_sound (text : Text) (p after : Process) (label : ProcessLabel) (sound : p.Sound text)
    (step : Process.next text p label = some after) : after.Sound text := by
  cases label with
  | post raw codes name wall =>
    simp only [Process.next] at step
    split_ifs at step with drawn
    cases admitted : postKey text raw codes p.host.server.rooms with
    | none =>
      rw [admitted] at step
      obtain rfl := Option.some.inj step
      exact sound
    | some key =>
      rw [admitted] at step
      refine serve_sound text p after _ sound (fun other same => ?_) step
      obtain rfl := Label.create.inj same
      exact postKey_fixed text raw codes _ key drawn admitted
  | serve label =>
    simp only [Process.next] at step
    split_ifs at step with creates
    refine serve_sound text p after _ sound (fun key same => ?_) step
    simp only at same
    rw [same] at creates
    simp [isCreate] at creates
  | openTmp =>
    simp only [Process.next] at step
    split at step
    next before data saving =>
      obtain rfl := Option.some.inj step
      exact writeTmp_sound text p sound _ saving .opened _ (by simp)
    next => simp at step
  | dumpTmp =>
    simp only [Process.next] at step
    split at step
    next before data saving =>
      obtain rfl := Option.some.inj step
      exact writeTmp_sound text p sound _ saving .dumped _ fun _ => rfl
    next => simp at step
  | replaceTmp =>
    simp only [Process.next] at step
    split at step
    next data before written saving complete =>
      obtain rfl := Option.some.inj step
      obtain ⟨-, -, saved, dumped⟩ := sound.busy _ saving
      obtain rfl := Tmp.complete.inj (complete.symm.trans (dumped rfl))
      refine ⟨sound.listed, sound.normal, fun _ => ?_, by simp⟩
      simp only at saved
      simp only [saved]
      exact RoomStore.restores_saved text p.host.store sound.listed sound.normal
    next => simp at step
  | restart => exact restart_sound text p after sound step

end Process

theorem rooms_survive (text : Text) (labels : List ProcessLabel) (p : Process)
    (run : (processMachine text).Run Machine.anyStep {} labels p) :
    match p.saving with
    | none => p.host.store.Restores text p.disk.file
    | some saving => saving.before.Restores text p.disk.file := by
  have start : Process.Sound text {} := by
    refine ⟨RoomStore.start_listed, fun key held named => ?_, fun _ => ?_, by simp⟩
    · have listed := (RoomStore.start_listed.rooms key).mpr ⟨named, held⟩
      simp [dictKeys] at listed
    · exact ⟨{}, rfl, fun _ => Iff.rfl, fun _ => rfl, fun _ => rfl⟩
  have sound := run.invariant (Process.Sound text) start
    fun state label after sound _ step => Process.next_sound text state after label sound step
  cases saving : p.saving with
  | none => exact sound.idle saving
  | some saving' => exact (sound.busy _ saving).1

theorem rooms_survive_stopped :
    ∃ p, (processMachine asciiText).exec Machine.anyStep {} [.post " abc" [] "" 7, .openTmp, .dumpTmp,
        .restart, .post "abc" [] "" 9, .openTmp, .dumpTmp, .replaceTmp, .restart] = some p ∧
      dictKeys p.host.info = ["ABC"] ∧ p.host.store.Restores asciiText p.disk.file := by
  have checked : ((processMachine asciiText).exec Machine.anyStep {} [.post " abc" [] "" 7, .openTmp,
      .dumpTmp, .restart, .post "abc" [] "" 9, .openTmp, .dumpTmp, .replaceTmp, .restart]).any
      (fun p => decide (dictKeys p.host.info = ["ABC"] ∧ p.saving.isNone)) = true := by
    decide +kernel
  obtain ⟨p, executed, results⟩ := (Option.any_eq_true _ _).mp checked
  obtain ⟨keys, idle⟩ := of_decide_eq_true results
  have restores := rooms_survive asciiText _ p (Machine.run_of_exec executed)
  rw [Option.isNone_iff_eq_none.mp idle] at restores
  exact ⟨p, executed, keys, restores⟩

end MidiToIp.Orchestrator
