import MidiToIp.Settings.Survive
import MidiToIp.Shared.Machine

set_option autoImplicit false

namespace MidiToIp.Settings

open Octets CString NorFlash Machines

def xipBase : Nat := 0x10000000
def configFlashStart : Nat := 0x101E0000
def globalLookupFlashStart : Nat := 0x101FE000
def globalConfigFlashStart : Nat := 0x101FF000

def uuidSize : Nat := 36
def aconfigLookupEntrySize : Nat := 38
def aconfigBufferSize : Nat := 4096
def aconfigMagicNumber : UInt16 := 0x1234
def aconfigVersionNumber : UInt16 := 0x0001

def aconfigSuccess : Int := 0
def aconfigInitError : Int := -1
def aconfigAppkeylookupError : Int := -3

def isxdigit (b : UInt8) : Bool :=
  isdigit b ∨ (65 ≤ b.toNat ∧ b.toNat ≤ 70) ∨ (97 ≤ b.toNat ∧ b.toNat ≤ 102)

def hyphenPositions : List Nat := [8, 13, 18, 23]

def isValidUuid4 (uuid : Bytes) : Bool :=
  hyphenPositions.all (fun i => uuid.getD i 0 = 45) &&
    uuid.getD 14 0 = 52 &&
    [56, 57, 65, 66, 97, 98].contains (uuid.getD 19 0) &&
    (List.range uuidSize).all fun i => hyphenPositions.contains i || isxdigit (uuid.getD i 0)

def sectorAt (flash : Flash) (ptr : Nat) : Nat :=
  (flash (ptr + uuidSize)).toNat + (flash (ptr + uuidSize + 1)).toNat * 256

def lookupSector (flash : Flash) (currentAppId : Bytes) : Nat → Nat → Option Nat
  | 0, _ => none
  | remaining + 1, ptr =>
    if flash ptr = 0 then none
    else if !isValidUuid4 (flash.read ptr uuidSize) then none
    else if flash.read ptr uuidSize = currentAppId then some (sectorAt flash ptr)
    else lookupSector flash currentAppId remaining (ptr + aconfigLookupEntrySize)

structure App where
  currentAppId : Bytes
  defaultEntries : List ConfigEntry

def lookupTable : Nat := globalLookupFlashStart - xipBase

def lookupEntries : Nat := (globalConfigFlashStart - globalLookupFlashStart) / aconfigLookupEntrySize

def flashAddress (sector : Nat) : Nat := configFlashStart + sector * flashPageSize

def aconfigInit (mallocs : Nat → Bool) (flash : Flash) (app : App) : Option (Int × Option Context) :=
  match lookupSector flash app.currentAppId lookupEntries lookupTable with
  | none => some (aconfigAppkeylookupError, none)
  | some sector =>
    (settingsInit mallocs flash app.defaultEntries (flashAddress sector - xipBase) aconfigBufferSize
      aconfigMagicNumber aconfigVersionNumber).map fun (err, ctx) =>
        (if err < 0 then aconfigInitError else aconfigSuccess, some ctx)

structure Device where
  flash : Flash
  running : Option (Nat × Context) := none
  saved : Nat → Option (List ConfigEntry) := fun _ => none

inductive DeviceLabel where
  | boot (app : Nat)
  | put (put : Put)
  | save

namespace Device

def settingsSave (mallocs : Nat → Bool) (app : Nat) (ctx : Context) (d : Device) : Option Device :=
  match Settings.settingsSave mallocs (some ctx) d.flash with
  | (err, flash) =>
    if err < 0 then none
    else some { d with flash := flash, saved := Function.update d.saved app (some ctx.entries) }

def boot (mallocs : Nat → Bool) (app : Nat) (image : App) (d : Device) : Option Device :=
  (aconfigInit mallocs d.flash image).map fun (err, found) =>
    match found with
    | none => { d with running := none }
    | some ctx =>
      if err = aconfigInitError then
        match d.settingsSave mallocs app ctx with
        | none => { d with running := none }
        | some after => { after with running := some (app, ctx) }
      else { d with running := some (app, ctx) }

def next (mallocs : Nat → Bool) (apps : List App) (d : Device) : DeviceLabel → Option Device
  | .boot app => apps[app]?.bind fun image => d.boot mallocs app image
  | .put put => d.running.map fun (app, ctx) => { d with running := some (app, (put.call ctx).2) }
  | .save => d.running.bind fun (app, ctx) => d.settingsSave mallocs app ctx

end Device

def device (mallocs : Nat → Bool) (apps : List App) : Machine Device DeviceLabel := ⟨Device.next mallocs apps⟩

-- No setting is put under the key of the stamp.
def plainPuts (_ : Device) : DeviceLabel → Prop
  | .put put => cstr put.key ≠ magicVersionKey
  | _ => True

instance (d : Device) : (label : DeviceLabel) → Decidable (plainPuts d label)
  | .put put => inferInstanceAs (Decidable (cstr put.key ≠ magicVersionKey))
  | .boot _ | .save => .isTrue trivial

structure Row extends App where
  sector : Nat

structure Table (rows : List Row) (flash : Flash) : Prop where
  few : rows.length ≤ lookupEntries
  stored : ∀ i row, rows[i]? = some row →
    flash.read (lookupTable + i * aconfigLookupEntrySize) uuidSize = row.currentAppId ∧
      sectorAt flash (lookupTable + i * aconfigLookupEntrySize) = row.sector
  uuid : ∀ row ∈ rows, isValidUuid4 row.currentAppId = true
  ids : (rows.map fun row => row.currentAppId).Nodup
  apart : (rows.map Row.sector).Nodup
  inConfig : ∀ row ∈ rows, row.sector < 30

theorem valid_begins {flash : Flash} {ptr : Nat} (valid : isValidUuid4 (flash.read ptr uuidSize) = true) :
    flash ptr ≠ 0 := by
  intro zero
  simp only [isValidUuid4, Bool.and_eq_true, List.all_eq_true] at valid
  have digit := valid.2 0 (by decide)
  have first : (flash.read ptr uuidSize).getD 0 0 = flash ptr := by simp [Flash.read, uuidSize]
  rw [first, zero] at digit
  revert digit
  decide

theorem lookupSector_row {flash : Flash} (rows : List Row) (ptr remaining : Nat) (enough : rows.length ≤ remaining)
    (stored : ∀ i row, rows[i]? = some row →
      flash.read (ptr + i * aconfigLookupEntrySize) uuidSize = row.currentAppId ∧
        sectorAt flash (ptr + i * aconfigLookupEntrySize) = row.sector)
    (uuid : ∀ row ∈ rows, isValidUuid4 row.currentAppId = true)
    (ids : (rows.map fun row => row.currentAppId).Nodup) {row : Row} (member : row ∈ rows) :
    lookupSector flash row.currentAppId remaining ptr = some row.sector := by
  induction rows generalizing ptr remaining with
  | nil => simp at member
  | cons first rest ih =>
    obtain ⟨left, rfl⟩ : ∃ left, remaining = left + 1 := ⟨remaining - 1, by rw [List.length_cons] at enough; omega⟩
    obtain ⟨fresh, ids⟩ := List.nodup_cons.mp ids
    have here := stored 0 first rfl
    rw [Nat.zero_mul, Nat.add_zero] at here
    have valid := uuid first List.mem_cons_self
    rw [← here.1] at valid
    rw [lookupSector, if_neg (valid_begins valid), valid]
    simp only [Bool.not_true, Bool.false_eq_true, if_false]
    rw [here.1, here.2]
    rcases List.mem_cons.mp member with rfl | later
    · rw [if_pos rfl]
    · have other : first.currentAppId ≠ row.currentAppId := by
        intro same
        exact fresh (List.mem_map.mpr ⟨row, later, same.symm⟩)
      rw [if_neg other]
      refine ih (ptr + aconfigLookupEntrySize) left (by rw [List.length_cons] at enough; omega) (fun i next found => ?_)
        (fun next within => uuid next (List.mem_cons_of_mem _ within)) ids later
      have after := stored (i + 1) next (by simpa using found)
      rwa [Nat.succ_mul, Nat.add_comm (i * aconfigLookupEntrySize), ← Nat.add_assoc] at after

def Row.region (row : Row) (inConfig : row.sector < 30) : Region where
  offset := flashAddress row.sector - xipBase
  size := aconfigBufferSize
  offsetAligned := by simp only [flashAddress, configFlashStart, xipBase, flashPageSize]; omega
  sizeAligned := rfl
  within := by simp only [flashAddress, configFlashStart, xipBase, flashPageSize, aconfigBufferSize, flashBytes]; omega

def Agree (first limit : Nat) (flash other : Flash) : Prop := ∀ a, first ≤ a → a < limit → other a = flash a

theorem Agree.read {flash other : Flash} {first limit : Nat} (agree : Agree first limit flash other)
    {address length : Nat} (least : first ≤ address) (most : address + length ≤ limit) :
    other.read address length = flash.read address length := by
  unfold Flash.read
  apply List.map_congr_left
  intro i member
  have inside := List.mem_range.mp member
  exact agree _ (by omega) (by omega)

theorem Agree.entryAt {flash other : Flash} {first limit : Nat} (agree : Agree first limit flash other) {address : Nat}
    (least : first ≤ address) (most : address + entrySize ≤ limit) : entryAt other address = entryAt flash address := by
  apply ConfigEntry.ext_memory
  rw [memory_entryAt, memory_entryAt]
  exact agree.read least most

section Region

variable {flash other : Flash} {offset : Nat} (agree : Agree offset (offset + aconfigBufferSize) flash other)
  {count : Nat} (fits : count * entrySize ≤ aconfigBufferSize)

include agree fits

theorem Agree.entries {i : Nat} (inside : i < count) :
    Settings.entryAt other (offset + i * entrySize) = Settings.entryAt flash (offset + i * entrySize) := by
  have below : (i + 1) * entrySize ≤ count * entrySize := Nat.mul_le_mul_right _ inside
  rw [Nat.succ_mul] at below
  exact agree.entryAt (by omega) (by omega)

theorem Agree.holds {entries : List ConfigEntry} (length : entries.length = count)
    (holds : Holds flash offset entries) : Holds other offset entries := by
  intro i entry found
  have inside : i < count := by
    rw [← length]
    exact (List.getElem?_eq_some_iff.mp found).1
  rw [agree.entries fits inside]
  exact holds i entry found

end Region

theorem Agree.loadFlashEntries {flash other : Flash} {first limit : Nat} (agree : Agree first limit flash other)
    (remaining address : Nat) (least : first ≤ address) (entries : List ConfigEntry) :
    Settings.loadFlashEntries other limit remaining address entries =
      Settings.loadFlashEntries flash limit remaining address entries := by
  induction remaining generalizing address entries with
  | zero => rfl
  | succ remaining ih =>
    unfold Settings.loadFlashEntries
    by_cases room : address + entrySize ≤ limit
    · have later := ih (address + entrySize) (by omega)
      rw [if_pos room, if_pos room, agree.entryAt least room]
      simp only [later]
    · rw [if_neg room, if_neg room]

def aconfigMagic : UInt32 := combinedMagic aconfigMagicNumber aconfigVersionNumber

def Row.offset (row : Row) : Nat := flashAddress row.sector - xipBase

def Row.context (row : Row) (entries : List ConfigEntry) : Context where
  magic := aconfigMagic
  entries := entries
  flashSettingsSize := aconfigBufferSize
  flashSettingsOffset := row.offset

/-- The defaults fit, and no sector holds what an app would take for its stamp with another number. -/
structure Ready (rows : List Row) (flash : Flash) : Prop extends Table rows flash where
  defaults : ∀ row ∈ rows, ValidDefaults row.defaultEntries
  fits : ∀ row ∈ rows, (row.defaultEntries.length + 1) * entrySize ≤ aconfigBufferSize
  sane : ∀ row ∈ rows, Sane flash row.offset (row.defaultEntries.length + 1) aconfigMagic

def Outside (rows : List Row) (a : Nat) : Prop :=
  ∀ row ∈ rows, a < row.offset ∨ row.offset + aconfigBufferSize ≤ a

structure KeptApart (rows : List Row) (before : Flash) (d : Device) : Prop where
  outside : ∀ a, Outside rows a → d.flash a = before a
  fresh : ∀ i row, rows[i]? = some row → d.saved i = none →
    Agree row.offset (row.offset + aconfigBufferSize) before d.flash
  holds : ∀ i row entries, rows[i]? = some row → d.saved i = some entries →
    Genuine aconfigMagic row.defaultEntries entries ∧ Holds d.flash row.offset entries
  running : ∀ i ctx, d.running = some (i, ctx) → ∃ row, rows[i]? = some row ∧
    Genuine aconfigMagic row.defaultEntries ctx.entries ∧ ctx.flashSettingsOffset = row.offset ∧
      ctx.flashSettingsSize = aconfigBufferSize

section Device

variable {rows : List Row} {flash : Flash} (ready : Ready rows flash) {mallocs : Nat → Bool}
  (granted : ∀ size, mallocs size = true) {d : Device} (apart : KeptApart rows flash d)

include ready

theorem Ready.disjoint {i j : Nat} {row other : Row} (found : rows[i]? = some row) (found' : rows[j]? = some other)
    (different : i ≠ j) : row.offset + aconfigBufferSize ≤ other.offset ∨ other.offset + aconfigBufferSize ≤ row.offset := by
  have sectors : row.sector ≠ other.sector := by
    intro same
    have inside : i < (rows.map Row.sector).length := by
      rw [List.length_map]
      exact (List.getElem?_eq_some_iff.mp found).1
    refine different ((List.getElem?_inj inside ready.apart).mp ?_)
    rw [List.getElem?_map, List.getElem?_map, found, found', Option.map_some, Option.map_some, same]
  simp only [Row.offset, flashAddress, configFlashStart, xipBase, flashPageSize, aconfigBufferSize]
  omega

theorem Ready.tableOutside (a : Nat) (behind : lookupTable ≤ a) : Outside rows a := by
  intro row member
  have small := ready.inConfig row member
  right
  simp only [lookupTable, globalLookupFlashStart, xipBase] at behind
  simp only [Row.offset, flashAddress, configFlashStart, xipBase, flashPageSize, aconfigBufferSize]
  omega

include apart

theorem lookupSector_kept {row : Row} (member : row ∈ rows) :
    lookupSector d.flash row.currentAppId lookupEntries lookupTable = some row.sector := by
  refine lookupSector_row rows lookupTable lookupEntries ready.few (fun i next found => ?_) ready.uuid ready.ids member
  have same : Agree lookupTable (lookupTable + i * aconfigLookupEntrySize + aconfigLookupEntrySize) flash d.flash :=
    fun a behind _ => apart.outside a (ready.tableOutside a behind)
  have key : d.flash.read (lookupTable + i * aconfigLookupEntrySize) uuidSize =
      flash.read (lookupTable + i * aconfigLookupEntrySize) uuidSize :=
    same.read (by omega) (by simp only [uuidSize, aconfigLookupEntrySize]; omega)
  have sector : sectorAt d.flash (lookupTable + i * aconfigLookupEntrySize) =
      sectorAt flash (lookupTable + i * aconfigLookupEntrySize) := by
    unfold sectorAt
    simp only [uuidSize, aconfigLookupEntrySize] at same ⊢
    rw [same _ (by omega) (by omega), same _ (by omega) (by omega)]
  rw [key, sector]
  exact ready.stored i next found

include granted

theorem aconfigInit_kept {row : Row} (member : row ∈ rows) :
    aconfigInit mallocs d.flash row.toApp =
      some (if storedMagic d.flash row.offset ≠ aconfigMagic then aconfigInitError else aconfigSuccess,
        some (row.context (booted d.flash (row.region (ready.inConfig row member)) aconfigMagic row.defaultEntries))) := by
  have init := settingsInit_booted mallocs d.flash (row.region (ready.inConfig row member)) aconfigMagicNumber
    aconfigVersionNumber row.defaultEntries granted (ready.defaults row member) (ready.fits row member)
  unfold aconfigInit
  rw [lookupSector_kept ready apart member]
  refine (congrArg (Option.map _) init).trans ?_
  rw [Option.map_some]
  congr 2
  by_cases stamped : storedMagic d.flash row.offset = aconfigMagic
  · have other : ¬ storedMagic d.flash (row.region (ready.inConfig row member)).offset ≠
        combinedMagic aconfigMagicNumber aconfigVersionNumber := not_not.mpr stamped
    rw [if_neg other, if_neg (not_not.mpr stamped)]
    have positive (n : Nat) : ¬ (n : Int) < 0 := Int.not_lt.mpr (Int.natCast_nonneg n)
    refine Prod.ext ?_ rfl
    simp only [positive, if_false]
  · have other : storedMagic d.flash (row.region (ready.inConfig row member)).offset ≠
        combinedMagic aconfigMagicNumber aconfigVersionNumber := stamped
    rw [if_pos other, if_pos stamped]
    rfl

theorem settingsSave_kept {i : Nat} {row : Row} {ctx : Context} (found : rows[i]? = some row)
    (genuine : Genuine aconfigMagic row.defaultEntries ctx.entries) (offset : ctx.flashSettingsOffset = row.offset)
    (size : ctx.flashSettingsSize = aconfigBufferSize) :
    ∃ after, d.settingsSave mallocs i ctx = some after ∧ after.running = d.running ∧ KeptApart rows flash after := by
  have member := List.mem_of_getElem? found
  have count := genuine.named.length
  obtain ⟨saved, same, holds, outside⟩ := settingsSave_holds mallocs ctx d.flash granted
    (by rw [count, size]; exact ready.fits row member)
  rw [offset, size] at outside
  rw [offset] at holds
  refine ⟨{ d with flash := saved, saved := Function.update d.saved i (some ctx.entries) }, ?_, rfl, ?_⟩
  · unfold Device.settingsSave
    rw [same]
    simp only [Int.lt_irrefl, if_false]
  -- The sector of another app stays as it was.
  have others (j : Nat) (other : Row) (found' : rows[j]? = some other) (different : j ≠ i) :
      Agree other.offset (other.offset + aconfigBufferSize) d.flash saved := by
    intro a least most
    have disjoint := ready.disjoint found' found different
    exact outside a (by omega)
  refine ⟨fun a out => ?_, fun j other found' fresh => ?_, fun j other entries found' shelf => ?_, apart.running⟩
  · exact (outside a (out row member)).trans (apart.outside a out)
  · have different : j ≠ i := by
      rintro rfl
      simp at fresh
    simp only [Function.update_of_ne different] at fresh
    intro a least most
    exact (others j other found' different a least most).trans (apart.fresh j other found' fresh a least most)
  · by_cases same : j = i
    · subst same
      obtain rfl : other = row := Option.some.inj (found'.symm.trans found)
      simp only [Function.update_self, Option.some.injEq] at shelf
      subst shelf
      exact ⟨genuine, holds⟩
    · simp only [Function.update_of_ne same] at shelf
      obtain ⟨genuine', holds'⟩ := apart.holds j other entries found' shelf
      exact ⟨genuine', (others j other found' same).holds (ready.fits other (List.mem_of_getElem? found'))
        genuine'.named.length holds'⟩

omit granted in
theorem booted_kept {i : Nat} {row : Row} (found : rows[i]? = some row) (region : Region)
    (offset : region.offset = row.offset) (size : region.size = aconfigBufferSize) :
    Genuine aconfigMagic row.defaultEntries (booted d.flash region aconfigMagic row.defaultEntries) ∧
      (∀ entries, d.saved i = some entries →
        storedMagic d.flash row.offset = aconfigMagic ∧
          booted d.flash region aconfigMagic row.defaultEntries = entries) ∧
      (d.saved i = none →
        (storedMagic d.flash row.offset = storedMagic flash row.offset ∧
          booted d.flash region aconfigMagic row.defaultEntries =
            booted flash region aconfigMagic row.defaultEntries)) := by
  have member := List.mem_of_getElem? found
  have fits : (row.defaultEntries.length + 1) * entrySize ≤ region.size := size ▸ ready.fits row member
  have stored (entries : List ConfigEntry) (shelf : d.saved i = some entries) :
      Genuine aconfigMagic row.defaultEntries entries ∧ storedMagic d.flash row.offset = aconfigMagic ∧
        booted d.flash region aconfigMagic row.defaultEntries = entries := by
    obtain ⟨genuine, holds⟩ := apart.holds i row entries found shelf
    obtain ⟨stamped, same, -⟩ := booted_holds d.flash region aconfigMagic row.defaultEntries entries
      (ready.defaults row member) genuine fits (offset ▸ holds)
    exact ⟨genuine, offset ▸ stamped, same⟩
  have blank (fresh : d.saved i = none) : storedMagic d.flash row.offset = storedMagic flash row.offset ∧
      booted d.flash region aconfigMagic row.defaultEntries = booted flash region aconfigMagic row.defaultEntries := by
    have agree := apart.fresh i row found fresh
    have stamp : storedMagic d.flash row.offset = storedMagic flash row.offset := by
      unfold storedMagic
      rw [agree.read (by omega) (by simp only [maxKeyLength, maxValueLength, aconfigBufferSize]; omega)]
    refine ⟨stamp, ?_⟩
    unfold booted
    rw [offset, size, stamp, agree.loadFlashEntries _ _ (Nat.le_refl _)]
  refine ⟨?_, fun entries shelf => (stored entries shelf).2, blank⟩
  cases shelf : d.saved i with
  | some entries =>
    obtain ⟨genuine, -, same⟩ := stored entries shelf
    rw [same]
    exact genuine
  | none =>
    rw [(blank shelf).2, booted]
    split
    next => exact defaults_genuine _ (ready.defaults row member)
    next stamped =>
      refine loadFlashEntries_genuine flash _ _ _ (defaults_genuine _ (ready.defaults row member)) ?_
      rw [offset]
      exact ready.sane row member (by simpa [offset] using stamped)

theorem next_kept {label : DeviceLabel} {after : Device} (meets : plainPuts d label)
    (step : Device.next mallocs (rows.map Row.toApp) d label = some after) : KeptApart rows flash after := by
  have started (i : Nat) (row : Row) (found : rows[i]? = some row) (ctx : Context)
      (genuine : Genuine aconfigMagic row.defaultEntries ctx.entries) (offset : ctx.flashSettingsOffset = row.offset)
      (size : ctx.flashSettingsSize = aconfigBufferSize) {d : Device} (apart : KeptApart rows flash d) :
      KeptApart rows flash { d with running := some (i, ctx) } := by
    refine ⟨apart.outside, apart.fresh, apart.holds, fun j other same => ?_⟩
    obtain ⟨rfl, rfl⟩ := Prod.mk.inj (Option.some.inj same)
    exact ⟨row, found, genuine, offset, size⟩
  cases label with
  | boot i =>
    obtain ⟨image, listed, booting⟩ := Option.bind_eq_some_iff.mp step
    rw [List.getElem?_map] at listed
    obtain ⟨row, found, rfl⟩ := Option.map_eq_some_iff.mp listed
    have member := List.mem_of_getElem? found
    have init := aconfigInit_kept ready granted apart member
    obtain ⟨genuine, -⟩ := booted_kept ready apart found (row.region (ready.inConfig row member)) rfl rfl
    generalize booted d.flash (row.region (ready.inConfig row member)) aconfigMagic row.defaultEntries = entries
      at init genuine
    rw [Device.boot, init, Option.map_some] at booting
    obtain rfl := Option.some.inj booting
    simp only
    split
    next =>
      obtain ⟨saved, stored, -, kept⟩ :=
        settingsSave_kept ready granted apart found (show Genuine _ _ (row.context entries).entries from genuine) rfl rfl
      rw [stored]
      exact started i row found (row.context entries) genuine rfl rfl kept
    next => exact started i row found (row.context entries) genuine rfl rfl apart
  | put put =>
    obtain ⟨⟨i, ctx⟩, running, rfl⟩ := Option.map_eq_some_iff.mp step
    obtain ⟨row, found, genuine, offset, size⟩ := apart.running i ctx running
    have defaults := ready.defaults row (List.mem_of_getElem? found)
    have called := put.call_map ctx (genuine.named.valid defaults) (genuine.named.distinct defaults)
    refine started i row found _ ?_ ?_ ?_ apart
    · rw [called]
      exact rewrite_genuine genuine put meets
    · rw [called]
      exact offset
    · rw [called]
      exact size
  | save =>
    obtain ⟨⟨i, ctx⟩, running, saving⟩ := Option.bind_eq_some_iff.mp step
    obtain ⟨row, found, genuine, offset, size⟩ := apart.running i ctx running
    obtain ⟨saved, stored, -, kept⟩ := settingsSave_kept ready granted apart found genuine offset size
    obtain rfl := Option.some.inj (stored.symm.trans saving)
    exact kept

end Device

theorem start_kept (rows : List Row) (flash : Flash) : KeptApart rows flash { flash := flash } :=
  ⟨fun _ _ => rfl, fun _ _ _ _ _ _ _ => rfl, by simp, by simp⟩

theorem apps_kept {mallocs : Nat → Bool} {rows : List Row} {flash : Flash} {labels : List DeviceLabel} {d : Device}
    (granted : ∀ size, mallocs size = true) (ready : Ready rows flash)
    (run : (device mallocs (rows.map Row.toApp)).Run plainPuts { flash := flash } labels d) :
    (∀ a, Outside rows a → d.flash a = flash a) ∧
      ∀ i row, rows[i]? = some row →
        (∀ entries, d.saved i = some entries → ∃ ctx,
          aconfigInit mallocs d.flash row.toApp = some (aconfigSuccess, some ctx) ∧ ctx.entries = entries) ∧
        (d.saved i = none → aconfigInit mallocs d.flash row.toApp = aconfigInit mallocs flash row.toApp) := by
  have apart : KeptApart rows flash d := by
    refine run.invariant (KeptApart rows flash) (start_kept rows flash) fun _ _ _ apart meets step => ?_
    exact next_kept ready granted apart meets step
  refine ⟨apart.outside, fun i row found => ?_⟩
  have member := List.mem_of_getElem? found
  have init := aconfigInit_kept ready granted apart member
  obtain ⟨-, kept, untouched⟩ := booted_kept ready apart found (row.region (ready.inConfig row member)) rfl rfl
  refine ⟨fun entries shelf => ?_, fun fresh => ?_⟩
  · obtain ⟨stamped, same⟩ := kept entries shelf
    rw [if_neg (not_not.mpr stamped), same] at init
    exact ⟨row.context entries, init, rfl⟩
  · obtain ⟨stamp, same⟩ := untouched fresh
    rw [init, stamp, same]
    exact (aconfigInit_kept ready granted (start_kept rows flash) member).symm

def otherApp : Row where
  currentAppId := ascii "0d3e7c1a-93b2-4f60-a1c5-7e2b9d04f818"
  defaultEntries := [textEntry (ascii "FOLDER") (ascii "/roms")]
  sector := 3

def thisApp : Row where
  currentAppId := ascii "44444444-4444-4444-8444-444444444444"
  defaultEntries := [textEntry (ascii "FOLDER") (ascii "/test"), textEntry (ascii "HOST_1") []]
  sector := 0

def bothApps : Flash := fun a =>
  if a < lookupTable then 0xFF
  else (otherApp.currentAppId ++ [3, 0] ++ thisApp.currentAppId ++ [0, 0]).getD (a - lookupTable) 0

theorem bothApps_rows (i : Nat) (row : Row) (found : [otherApp, thisApp][i]? = some row) :
    bothApps.read (lookupTable + i * aconfigLookupEntrySize) uuidSize = row.currentAppId ∧
      sectorAt bothApps (lookupTable + i * aconfigLookupEntrySize) = row.sector := by
  have first : bothApps.read (lookupTable + 0 * aconfigLookupEntrySize) uuidSize = otherApp.currentAppId ∧
      sectorAt bothApps (lookupTable + 0 * aconfigLookupEntrySize) = otherApp.sector := by decide +kernel
  have second : bothApps.read (lookupTable + 1 * aconfigLookupEntrySize) uuidSize = thisApp.currentAppId ∧
      sectorAt bothApps (lookupTable + 1 * aconfigLookupEntrySize) = thisApp.sector := by decide +kernel
  rcases i with _ | _ | i
  · obtain rfl : otherApp = row := Option.some.inj found
    exact first
  · obtain rfl : thisApp = row := Option.some.inj found
    exact second
  · simp at found

theorem bothApps_ready : Ready [otherApp, thisApp] bothApps := by
  have each (P : Row → Prop) (one : P otherApp) (two : P thisApp) : ∀ row ∈ [otherApp, thisApp], P row := by
    intro row member
    rcases List.mem_cons.mp member with rfl | member
    · exact one
    · rw [List.mem_singleton.mp member]
      exact two
  have text (key value : Bytes) (checked : (decide ((textEntry key value).name.length < maxKeyLength) &&
      checkKeyFormat (textEntry key value).key && checkTypeFormat (textEntry key value).dataType) = true) :
      Valid (textEntry key value) := by
    simp only [Bool.and_eq_true, decide_eq_true_eq] at checked
    exact ⟨checked.1.1, checked.1.2, checked.2⟩
  have blank (offset : Nat) (count : Nat) (unstamped : storedMagic bothApps offset ≠ aconfigMagic) :
      Sane bothApps offset count aconfigMagic := fun stamped => absurd stamped unstamped
  refine ⟨⟨by decide, bothApps_rows, each _ (by decide +kernel) (by decide +kernel), by decide +kernel,
    by decide +kernel, each _ (by decide) (by decide)⟩, each _ ?_ ?_, each _ (by decide) (by decide),
    each _ (blank _ _ (by decide +kernel)) (blank _ _ (by decide +kernel))⟩
  · refine ⟨fun entry member => ?_, by decide +kernel, by decide +kernel⟩
    rw [List.mem_singleton.mp member]
    exact text _ _ (by decide +kernel)
  · refine ⟨fun entry member => ?_, by decide +kernel, by decide +kernel⟩
    rcases List.mem_cons.mp member with rfl | member
    · exact text _ _ (by decide +kernel)
    · rw [List.mem_singleton.mp member]
      exact text _ _ (by decide +kernel)

def takeTurns : List DeviceLabel :=
  [.boot 1, .put (.string (ascii "HOST_1") (some (ascii "ring.local"))), .save, .boot 0]

theorem apps_kept_takeTurns :
    ∃ d entries ctx,
      (device (fun _ => true) ([otherApp, thisApp].map Row.toApp)).exec plainPuts { flash := bothApps } takeTurns = some d ∧
        d.saved 1 = some entries ∧ entries.any (fun entry => cstr entry.value = ascii "ring.local") = true ∧
        aconfigInit (fun _ => true) d.flash thisApp.toApp = some (aconfigSuccess, some ctx) ∧ ctx.entries = entries := by
  have checked : ((device (fun _ => true) ([otherApp, thisApp].map Row.toApp)).exec plainPuts { flash := bothApps }
      takeTurns).any (fun d => (d.saved 1).any fun entries =>
        entries.any fun entry => cstr entry.value = ascii "ring.local") = true := by decide +kernel
  obtain ⟨d, executed, shelf⟩ := (Option.any_eq_true _ _).mp checked
  obtain ⟨entries, saved, value⟩ := (Option.any_eq_true _ _).mp shelf
  have kept := apps_kept (fun _ => rfl) bothApps_ready (Machine.run_of_exec executed)
  obtain ⟨ctx, booted, same⟩ := (kept.2 1 thisApp rfl).1 entries saved
  exact ⟨d, entries, ctx, executed, saved, value, booted, same⟩

end MidiToIp.Settings
