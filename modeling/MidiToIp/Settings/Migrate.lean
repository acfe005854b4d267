import Mathlib.Data.List.Nodup
import MidiToIp.Settings.Survive

set_option autoImplicit false

namespace MidiToIp.Settings

open Octets CString NorFlash

theorem overwrite_map (entry : ConfigEntry) (entries : List ConfigEntry)
    (distinct : (entries.map ConfigEntry.name).Nodup) :
    overwrite entry entries =
      entries.map fun held => if held.name = entry.name then entry else held := by
  induction entries with
  | nil => rfl
  | cons held rest ih =>
    obtain ⟨fresh, distinct⟩ := List.nodup_cons.mp distinct
    rw [overwrite, strnSame_name, List.map_cons]
    by_cases same : held.name = entry.name
    · have untouched := map_unnamed entry.name (fun _ => entry) rest (same ▸ fresh)
      simp [same, untouched]
    · simp [same, ih distinct]

def migrated (read : List ConfigEntry) (held : ConfigEntry) : ConfigEntry :=
  (read.find? fun entry => entry.name = held.name).getD held

theorem migrated_name (read : List ConfigEntry) (held : ConfigEntry) :
    (migrated read held).name = held.name := by
  unfold migrated
  cases found : read.find? fun entry => entry.name = held.name with
  | none => rfl
  | some entry => simpa using List.find?_some found

theorem migrated_read (read : List ConfigEntry) (held entry : ConfigEntry)
    (distinct : (read.map ConfigEntry.name).Nodup) (member : entry ∈ read)
    (same : held.name = entry.name) : migrated read held = entry := by
  unfold migrated
  cases found : read.find? fun entry => entry.name = held.name with
  | none =>
    have nobody := List.find?_eq_none.mp found entry member
    simp [same] at nobody
  | some other =>
    have named : other.name = held.name := by simpa using List.find?_some found
    exact List.inj_on_of_nodup_map distinct (List.mem_of_find?_eq_some found) member
      (named.trans same)

theorem migrated_other (read : List ConfigEntry) (held : ConfigEntry)
    (others : ∀ entry ∈ read, entry.name ≠ held.name) : migrated read held = held := by
  have none_ : (read.find? fun entry => entry.name = held.name) = none :=
    List.find?_eq_none.mpr fun entry member named => others entry member (of_decide_eq_true named)
  rw [migrated, none_, Option.getD_none]

theorem overwrites_map (read entries : List ConfigEntry)
    (distinctRead : (read.map ConfigEntry.name).Nodup)
    (distinct : (entries.map ConfigEntry.name).Nodup) :
    read.foldl (fun held entry => overwrite entry held) entries = entries.map (migrated read) := by
  induction read generalizing entries with
  | nil => exact (List.map_id entries).symm
  | cons entry rest ih =>
    obtain ⟨fresh, distinctRest⟩ := List.nodup_cons.mp distinctRead
    have names := overwrite_names entry entries
    rw [List.foldl_cons, ih (overwrite entry entries) distinctRest (by rwa [names]),
      overwrite_map entry entries distinct, List.map_map]
    refine List.map_congr_left fun held _ => ?_
    simp only [Function.comp_apply, migrated, List.find?_cons]
    by_cases same : held.name = entry.name
    · -- Later entries have other names, so none of them takes the place again.
      have none_ : rest.find? (fun other => other.name = entry.name) = none := by
        rw [List.find?_eq_none]
        intro other member named
        exact fresh (of_decide_eq_true named ▸ List.mem_map_of_mem member)
      simp [same, none_]
    · simp [same, Ne.symm same]

theorem entryAt_blank (flash : Flash) (address : Nat)
    (blank : ∀ a, address ≤ a → a < address + entrySize → flash a = 0xFF) :
    checkKeyFormat (entryAt flash address).memory = false := by
  have erased : flash.read address entrySize = List.replicate entrySize 0xFF := by
    rw [Flash.read, List.eq_replicate_iff]
    refine ⟨by simp, fun b member => ?_⟩
    obtain ⟨i, inside, rfl⟩ := List.mem_map.mp member
    have within := List.mem_range.mp inside
    exact blank (address + i) (by omega) (by omega)
  rw [memory_entryAt, erased]
  decide

def Blank (flash : Flash) (first limit : Nat) : Prop := ∀ a, first ≤ a → a < limit → flash a = 0xFF

theorem loadFlashEntries_blank (flash : Flash) (limit remaining address : Nat)
    (entries : List ConfigEntry) (blank : Blank flash address limit) :
    loadFlashEntries flash limit remaining address entries = entries := by
  cases remaining with
  | zero => rfl
  | succ remaining =>
    rw [loadFlashEntries]
    by_cases room : address + entrySize ≤ limit
    · have refused := entryAt_blank flash address fun a first last => blank a first (by omega)
      simp [room, refused]
    · simp [room]

theorem loadFlashEntries_scan (flash : Flash) (limit remaining address : Nat)
    (stored entries : List ConfigEntry) (holds : Holds flash address stored)
    (room : address + stored.length * entrySize ≤ limit) (valid : ∀ entry ∈ stored, Valid entry)
    (blank : Blank flash (address + stored.length * entrySize) limit) :
    loadFlashEntries flash limit remaining address entries =
      (stored.take remaining).foldl (fun held entry => overwrite entry held) entries := by
  induction stored generalizing address remaining entries with
  | nil => simpa using loadFlashEntries_blank flash limit remaining address entries (by simpa using blank)
  | cons entry rest ih =>
    cases remaining with
    | zero => rfl
    | succ remaining =>
      have first : entryAt flash address = entry := by simpa using holds 0 entry rfl
      have size : address + (entry :: rest).length * entrySize =
          address + entrySize + rest.length * entrySize := by
        rw [List.length_cons, Nat.succ_mul]
        omega
      rw [size] at room blank
      have later : Holds flash (address + entrySize) rest := by
        intro i other found
        have next := holds (i + 1) other (by simpa using found)
        rwa [Nat.succ_mul, Nat.add_comm (i * entrySize), ← Nat.add_assoc] at next
      rw [loadFlashEntries_valid flash limit remaining address entry entries first (by omega)
        (valid entry List.mem_cons_self), List.take_succ_cons, List.foldl_cons]
      exact ih remaining (address + entrySize) (overwrite entry entries) later room
        (fun other member => valid other (List.mem_cons_of_mem _ member)) blank

theorem paddedEntries_pad (ctx : Context) :
    ∀ b ∈ (paddedEntries ctx).drop (ctx.entries.length * entrySize), b = 0xFF := by
  intro b member
  unfold paddedEntries at member
  simp only [List.drop_append] at member
  rcases List.mem_append.mp member with image | pad
  · have none_ := List.drop_of_length_le (l := ctx.entries.flatMap ConfigEntry.memory)
      (i := ctx.entries.length * entrySize) (Nat.le_of_eq (memories_length ctx.entries))
    rw [List.drop_take, none_, List.take_nil] at image
    simp at image
  · exact List.eq_of_mem_replicate (List.mem_of_mem_drop pad)

theorem settingsSave_blank (mallocs : Nat → Bool) (ctx : Context) (flash after : Flash)
    (saved : settingsSave mallocs (some ctx) flash = (0, after)) :
    Blank after (ctx.flashSettingsOffset + ctx.entries.length * entrySize)
      (ctx.flashSettingsOffset + ctx.flashSettingsSize) := by
  intro a first last
  have inside : ctx.flashSettingsOffset ≤ a ∧
      a < ctx.flashSettingsOffset + ctx.flashSettingsSize := by omega
  unfold settingsSave at saved
  simp only at saved
  split_ifs at saved
  · simp at saved
  · simp at saved
  · obtain rfl := (Prod.mk.inj saved).2
    obtain ⟨i, rfl⟩ : ∃ i, a = ctx.flashSettingsOffset + (ctx.entries.length * entrySize + i) :=
      ⟨a - (ctx.flashSettingsOffset + ctx.entries.length * entrySize), by omega⟩
    rw [Flash.program_erase_inside flash _ _ _ _ inside, Nat.add_sub_cancel_left,
      List.getD_eq_getElem?_getD, ← List.getElem?_drop]
    cases found : ((paddedEntries ctx).drop (ctx.entries.length * entrySize))[i]? with
    | none => rfl
    | some b => exact paddedEntries_pad ctx b (List.mem_of_getElem? found)
  · obtain rfl := (Prod.mk.inj saved).2
    rw [Flash.erase, if_pos inside]

def ConfigEntry.setting (entry : ConfigEntry) : UInt8 × Bytes := (entry.dataType, cstr entry.value)

structure Migrated (stored new loaded : List ConfigEntry) : Prop where
  kept : ∀ entry ∈ stored, entry.name ∈ new.map ConfigEntry.name →
    ∃ held ∈ loaded, held.name = entry.name ∧ held.setting = entry.setting
  fresh : ∀ default ∈ new, default.name ∉ stored.map ConfigEntry.name → default ∈ loaded
  only : loaded.map ConfigEntry.name = magicVersionKey :: new.map ConfigEntry.name

def looked (magic : UInt32) (count : Nat) : List ConfigEntry → Nat
  | [] => 0
  | stamp :: _ => if UInt32.ofNat (strtoul stamp.value) = magic then count + 1 else 0

theorem migrated_iff (magic : UInt32) (looked : Nat) (stored new : List ConfigEntry)
    (distinct : (stored.map ConfigEntry.name).Nodup) (valid : ValidDefaults new) :
    Migrated stored new ((magicEntry magic :: new).map (migrated (stored.take looked))) ↔
      ∀ entry ∈ stored.drop looked, ∀ default ∈ new, default.name = entry.name →
        default.setting = entry.setting := by
  have parts : ((stored.take looked ++ stored.drop looked).map ConfigEntry.name).Nodup := by
    rwa [List.take_append_drop]
  rw [List.map_append, List.nodup_append] at parts
  obtain ⟨distinctRead, -, apart⟩ := parts
  have stays (entry default : ConfigEntry) (member : entry ∈ stored.drop looked)
      (same : default.name = entry.name) : migrated (stored.take looked) default = default := by
    refine migrated_other _ default fun other read named => ?_
    exact apart _ (List.mem_map_of_mem read) _ (List.mem_map_of_mem member) (named.trans same)
  have names : ((magicEntry magic :: new).map (migrated (stored.take looked))).map ConfigEntry.name =
      magicVersionKey :: new.map ConfigEntry.name := by
    rw [List.map_map, ← (defaults_genuine magic valid).names]
    exact List.map_congr_left fun held _ => migrated_name _ held
  constructor
  · intro migrates entry member default within same
    obtain ⟨held, loaded, named, setting⟩ := migrates.kept entry (List.mem_of_mem_drop member)
      (same ▸ List.mem_map_of_mem within)
    obtain ⟨origin, among, rfl⟩ := List.mem_map.mp loaded
    rw [migrated_name] at named
    have own : origin = default :=
      List.inj_on_of_nodup_map ((defaults_genuine magic valid).named.distinct valid) among
        (List.mem_cons_of_mem _ within) (named.trans same.symm)
    rwa [own, stays entry default member same] at setting
  · intro equal
    refine ⟨fun entry member among => ?_, fun default within fresh => ?_, names⟩
    · obtain ⟨default, within, same⟩ := List.mem_map.mp among
      have there : migrated (stored.take looked) default ∈
          (magicEntry magic :: new).map (migrated (stored.take looked)) :=
        List.mem_map_of_mem (List.mem_cons_of_mem _ within)
      refine ⟨_, there, (migrated_name _ default).trans same, ?_⟩
      rw [← List.take_append_drop looked stored] at member
      rcases List.mem_append.mp member with read | behind
      · rw [migrated_read _ default entry distinctRead read same]
      · rw [stays entry default behind same]
        exact equal entry behind default within same
    · refine List.mem_map.mpr ⟨default, List.mem_cons_of_mem _ within, ?_⟩
      refine migrated_other _ default fun other read named => fresh ?_
      rw [← named]
      exact List.mem_map_of_mem (List.mem_of_mem_take read)

theorem booted_named (flash : Flash) (region : Region) (magic : UInt32) (defaults : List ConfigEntry)
    (valid : ValidDefaults defaults) : Named defaults (booted flash region magic defaults) := by
  have start := (defaults_genuine magic valid).named
  unfold booted
  split
  · exact start
  · exact loadFlashEntries_named flash _ _ _ start

theorem booted_migrated (flash : Flash) (region : Region) (magic : UInt32)
    (old stored new : List ConfigEntry) (validOld : ValidDefaults old) (validNew : ValidDefaults new)
    (named : Named old stored) (holds : Holds flash region.offset stored)
    (room : stored.length * entrySize ≤ region.size)
    (blank : Blank flash (region.offset + stored.length * entrySize) (region.offset + region.size)) :
    booted flash region magic new =
      (magicEntry magic :: new).map (migrated (stored.take (looked magic new.length stored))) := by
  have distinct := named.distinct validOld
  have distinctNew := (defaults_genuine magic validNew).named.distinct validNew
  have count := named.length
  obtain ⟨stamp, rest, rfl⟩ : ∃ stamp rest, stored = stamp :: rest := by
    cases stored with
    | nil => simp at count
    | cons stamp rest => exact ⟨stamp, rest, rfl⟩
  have there : entryAt flash region.offset = stamp := by simpa using holds 0 stamp rfl
  have number : storedMagic flash region.offset = UInt32.ofNat (strtoul stamp.value) := by
    rw [← there]
    rfl
  rw [booted, number, looked]
  by_cases found : UInt32.ofNat (strtoul stamp.value) = magic
  · have distinctRead := distinct.sublist ((List.take_sublist (new.length + 1) _).map ConfigEntry.name)
    rw [if_neg (not_not.mpr found), if_pos found,
      loadFlashEntries_scan flash _ (new.length + 1) _ (stamp :: rest) _ holds (by omega)
        (named.valid validOld) blank,
      overwrites_map _ _ distinctRead distinctNew]
  · rw [if_pos found, if_neg found, List.take_zero]
    exact (List.map_id _).symm

def opened (flash : Flash) (region : Region) (magic : UInt32) (defaults : List ConfigEntry) : Context where
  magic := magic
  entries := booted flash region magic defaults
  flashSettingsSize := region.size
  flashSettingsOffset := region.offset

theorem settings_reload (mallocs : Nat → Bool) (region : Region) (magic version : UInt16)
    (old new : List ConfigEntry) (flash : Flash) (puts : List Put)
    (granted : ∀ size, mallocs size = true) (validOld : ValidDefaults old) (validNew : ValidDefaults new)
    (fitsOld : (old.length + 1) * entrySize ≤ region.size)
    (fitsNew : (new.length + 1) * entrySize ≤ region.size) (stored : List ConfigEntry)
    (written : (putAll puts (opened flash region (combinedMagic magic version) old)).entries = stored) :
    Named old stored ∧ ∃ error after result loaded,
      settingsInit mallocs flash old region.offset region.size magic version =
        some (error, opened flash region (combinedMagic magic version) old) ∧
      settingsSave mallocs (some (putAll puts (opened flash region (combinedMagic magic version) old)))
        flash = (0, after) ∧
      settingsInit mallocs after new region.offset region.size magic version = some (result, loaded) ∧
      loaded.entries = (magicEntry (combinedMagic magic version) :: new).map
        (migrated (stored.take (looked (combinedMagic magic version) new.length stored))) := by
  generalize number : combinedMagic magic version = stamp at written
  have init := settingsInit_booted mallocs flash region magic version old granted validOld fitsOld
  obtain ⟨put, named⟩ := putAll_named validOld puts (opened flash region stamp old)
    (booted_named flash region stamp old validOld)
  have place : (putAll puts (opened flash region stamp old)).flashSettingsOffset = region.offset := by
    rw [put, opened]
  have size : (putAll puts (opened flash region stamp old)).flashSettingsSize = region.size := by
    rw [put, opened]
  have room : (putAll puts (opened flash region stamp old)).entries.length * entrySize ≤ region.size := by
    rw [named.length]
    exact fitsOld
  obtain ⟨after, saved, holds, -⟩ := settingsSave_holds mallocs _ flash granted (by rw [size]; exact room)
  have blank := settingsSave_blank mallocs _ flash after saved
  rw [place] at holds blank
  rw [size] at blank
  rw [written] at named holds room blank
  have again := settingsInit_booted mallocs after region magic version new granted validNew fitsNew
  rw [number] at init again
  exact ⟨named, _, after, _, _, init, saved, again,
    booted_migrated after region stamp old stored new validOld validNew named holds room blank⟩

theorem settings_migrate (mallocs : Nat → Bool) (region : Region) (magic version : UInt16)
    (old new : List ConfigEntry) (flash : Flash) (puts : List Put)
    (granted : ∀ size, mallocs size = true) (validOld : ValidDefaults old) (validNew : ValidDefaults new)
    (fitsOld : (old.length + 1) * entrySize ≤ region.size)
    (fitsNew : (new.length + 1) * entrySize ≤ region.size) :
    ∃ error ctx after result loaded stored,
      settingsInit mallocs flash old region.offset region.size magic version = some (error, ctx) ∧
      (putAll puts ctx).entries = stored ∧
      settingsSave mallocs (some (putAll puts ctx)) flash = (0, after) ∧
      settingsInit mallocs after new region.offset region.size magic version = some (result, loaded) ∧
      (Migrated stored new loaded.entries ↔
        ∀ entry ∈ stored.drop (looked (combinedMagic magic version) new.length stored),
          ∀ default ∈ new, default.name = entry.name → default.setting = entry.setting) := by
  obtain ⟨named, error, after, result, loaded, init, saved, again, entries⟩ :=
    settings_reload mallocs region magic version old new flash puts granted validOld validNew fitsOld
      fitsNew _ rfl
  refine ⟨error, _, after, result, loaded, _, init, rfl, saved, again, ?_⟩
  rw [entries]
  exact migrated_iff _ _ _ new (named.distinct validOld) validNew

def modeEntry : ConfigEntry := textEntry (ascii "MODE") (ascii "ws")
def hostEntry : ConfigEntry := textEntry (ascii "HOST_1") []

theorem hostEntry_valid : ValidDefaults [hostEntry] := by
  refine ⟨fun entry member => ?_, by decide, by decide⟩
  obtain rfl := List.mem_singleton.mp member
  exact ⟨by decide, by decide, by decide⟩

theorem modeHost_valid : ValidDefaults [modeEntry, hostEntry] := by
  refine ⟨fun entry member => ?_, by decide, by decide⟩
  rcases List.mem_cons.mp member with rfl | member
  · exact ⟨by decide, by decide, by decide⟩
  · exact hostEntry_valid.each entry member

def hostPut : Put := .string (ascii "HOST_1") (some (ascii "ring.local"))

theorem blank_unstamped : storedMagic (fun _ => 0xFF) 0x1E0000 ≠ combinedMagic 0x1234 1 := by
  decide +kernel

theorem opened_blank (defaults : List ConfigEntry) :
    opened (fun _ => 0xFF) configRegion (combinedMagic 0x1234 1) defaults =
      ⟨combinedMagic 0x1234 1, magicEntry (combinedMagic 0x1234 1) :: defaults, 0x1000, 0x1E0000⟩ := by
  rw [opened, booted, if_pos]
  · rfl
  · exact blank_unstamped

theorem settings_migrate_reordered :
    ∃ error ctx after result loaded,
      settingsInit (fun _ => true) (fun _ => 0xFF) [modeEntry, hostEntry] 0x1E0000 0x1000 0x1234 1 =
        some (error, ctx) ∧
      settingsSave (fun _ => true) (some (putAll [hostPut] ctx)) (fun _ => 0xFF) = (0, after) ∧
      settingsInit (fun _ => true) after [hostEntry, modeEntry] 0x1E0000 0x1000 0x1234 1 =
        some (result, loaded) ∧
      Migrated (putAll [hostPut] ctx).entries [hostEntry, modeEntry] loaded.entries := by
  have turned : ValidDefaults [hostEntry, modeEntry] := by
    refine ⟨fun entry member => ?_, by decide, by decide⟩
    exact modeHost_valid.each entry ((List.Perm.swap modeEntry hostEntry []).mem_iff.mp member)
  obtain ⟨error, ctx, after, result, loaded, stored, init, rfl, saved, again, migrates⟩ :=
    settings_migrate (fun _ => true) configRegion 0x1234 1 [modeEntry, hostEntry] [hostEntry, modeEntry]
      (fun _ => 0xFF) [hostPut] (fun _ => rfl) modeHost_valid turned (by decide) (by decide)
  refine ⟨error, ctx, after, result, loaded, init, saved, again, migrates.mpr ?_⟩
  have start := settingsInit_booted (fun _ => true) (fun _ => 0xFF) configRegion 0x1234 1
    [modeEntry, hostEntry] (fun _ => rfl) modeHost_valid (by decide)
  have same : ctx = opened (fun _ => 0xFF) configRegion (combinedMagic 0x1234 1) [modeEntry, hostEntry] :=
    (Prod.mk.inj (Option.some.inj (init.symm.trans start))).2
  rw [same, opened_blank]
  decide +kernel

-- `MODE` is no longer a setting; the host that was stored behind it is lost.
theorem removedKey_losesHost :
    ∃ error ctx after result loaded,
      settingsInit (fun _ => true) (fun _ => 0xFF) [modeEntry, hostEntry] 0x1E0000 0x1000 0x1234 1 =
        some (error, ctx) ∧
      settingsSave (fun _ => true) (some (putAll [hostPut] ctx)) (fun _ => 0xFF) = (0, after) ∧
      settingsInit (fun _ => true) after [hostEntry] 0x1E0000 0x1000 0x1234 1 = some (result, loaded) ∧
      ¬ Migrated (putAll [hostPut] ctx).entries [hostEntry] loaded.entries := by
  obtain ⟨named, error, after, result, loaded, init, saved, again, entries⟩ :=
    settings_reload (fun _ => true) configRegion 0x1234 1 [modeEntry, hostEntry] [hostEntry]
      (fun _ => 0xFF) [hostPut] (fun _ => rfl) modeHost_valid hostEntry_valid (by decide) (by decide) _ rfl
  refine ⟨error, _, after, result, loaded, init, saved, again, fun migrates => ?_⟩
  rw [entries, migrated_iff _ _ _ _ (named.distinct modeHost_valid) hostEntry_valid, opened_blank]
    at migrates
  exact absurd migrates (by decide +kernel)

end MidiToIp.Settings
