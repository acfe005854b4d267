import Mathlib.Data.List.Basic
import MidiToIp.Shared.CString
import MidiToIp.Shared.Flash

set_option autoImplicit false

-- `settings.c`: `size_t`, `unsigned long` and `int` have 32 bits and the enumeration has one byte. `mallocs`
-- says which sizes can be allocated.

namespace MidiToIp.Settings

open Octets CString NorFlash

def maxKeyLength : Nat := 30
def maxValueLength : Nat := 96
def flashPageSize : Nat := 4096
def magicVersionKey : Bytes := ascii "MAGICVERSION"

def typeInt : UInt8 := 0
def typeString : UInt8 := 1
def typeBool : UInt8 := 2

structure ConfigEntry where
  key : Bytes
  dataType : UInt8
  value : Bytes
  keyLength : key.length = maxKeyLength
  valueLength : value.length = maxValueLength
  deriving DecidableEq

def entrySize : Nat := maxKeyLength + 1 + maxValueLength

def ConfigEntry.memory (entry : ConfigEntry) : Bytes := entry.key ++ entry.dataType :: entry.value

def ConfigEntry.name (entry : ConfigEntry) : Bytes := cstr entry.key

structure Context where
  magic : UInt32
  entries : List ConfigEntry
  flashSettingsSize : Nat
  flashSettingsOffset : Nat
  deriving DecidableEq

def checkKeyFormat (key : Bytes) : Bool :=
  cstr key ≠ [] ∧ (cstr key).all fun chr => isupper chr ∨ isdigit chr ∨ chr = 95

def checkTypeFormat (type : UInt8) : Bool := type = typeInt ∨ type = typeString ∨ type = typeBool

-- A key without a NUL runs on into the rest of its entry.
def loadDefaultEntries : List ConfigEntry → List ConfigEntry
  | [] => []
  | entry :: rest =>
    if cstr entry.memory = [] then []
    else if !checkTypeFormat entry.dataType then loadDefaultEntries rest
    else if !checkKeyFormat entry.memory then loadDefaultEntries rest
    else entry :: loadDefaultEntries rest

def entryAt (flash : Flash) (address : Nat) : ConfigEntry where
  key := flash.read address maxKeyLength
  dataType := flash (address + maxKeyLength)
  value := flash.read (address + maxKeyLength + 1) maxValueLength
  keyLength := Flash.read_length _ _ _
  valueLength := Flash.read_length _ _ _

def overwrite (entry : ConfigEntry) : List ConfigEntry → List ConfigEntry
  | [] => []
  | held :: rest =>
    if strnSame maxKeyLength held.key entry.key then entry :: rest else held :: overwrite entry rest

def loadFlashEntries (flash : Flash) (limit : Nat) : Nat → Nat → List ConfigEntry → List ConfigEntry
  | 0, _, entries => entries
  | remaining + 1, address, entries =>
    if address + entrySize ≤ limit then
      let entry := entryAt flash address
      if entry.key.head? = some 0 then entries
      else if !checkKeyFormat entry.memory then entries
      else if !checkTypeFormat entry.dataType then entries
      else loadFlashEntries flash limit remaining (address + entrySize) (overwrite entry entries)
    else entries

def storedMagic (flash : Flash) (offset : Nat) : UInt32 :=
  UInt32.ofNat (strtoul (flash.read (offset + maxKeyLength + 1) maxValueLength))

def loadAllEntries (flash : Flash) (ctx : Context) (entries : List ConfigEntry)
    (numEntries maxEntries : Nat) : Int × Context :=
  let numEntries := if numEntries > maxEntries then maxEntries else numEntries
  let ctx := { ctx with entries := loadDefaultEntries (entries.take numEntries) }
  if storedMagic flash ctx.flashSettingsOffset ≠ ctx.magic then (-1, ctx)
  else
    (0, { ctx with
      entries := loadFlashEntries flash (ctx.flashSettingsOffset + ctx.flashSettingsSize) numEntries
        ctx.flashSettingsOffset ctx.entries })

-- An array that a string is copied into, closed by hand.
def valueArray (value : Bytes) : Bytes := strncpy (maxValueLength - 1) value ++ [0]

theorem valueArray_length (value : Bytes) : (valueArray value).length = maxValueLength := by
  simp [valueArray, maxValueLength]

def magicEntry (magic : UInt32) : ConfigEntry where
  key := strncpy maxKeyLength magicVersionKey
  dataType := typeInt
  value := valueArray (decimal magic.toNat)
  keyLength := strncpy_length _ _
  valueLength := valueArray_length _

def combinedMagic (magic version : UInt16) : UInt32 := magic.toUInt32 <<< 16 ||| version.toUInt32

/-- None is a failed assertion. The numbers of entries are 16 bits wide. -/
def settingsInit (mallocs : Nat → Bool) (flash : Flash) (defaultEntries : List ConfigEntry)
    (flashOffset flashSize : Nat) (magic version : UInt16) : Option (Int × Context) :=
  let maxEntries := flashSize / entrySize
  if flashSize % flashPageSize ≠ 0 ∨ flashOffset % flashPageSize ≠ 0 ∨
      ¬ defaultEntries.length ≤ maxEntries then none
  else
    let ctx : Context :=
      { magic := combinedMagic magic version
        entries := []
        flashSettingsSize := flashSize
        flashSettingsOffset := flashOffset }
    let defaultNumEntries := (defaultEntries.length + 1) % 2 ^ 16
    if !mallocs flashSize then some (-1, ctx)
    else if !mallocs (defaultNumEntries * entrySize) then some (-1, ctx)
    else
      let (error, ctx) := loadAllEntries flash ctx
        (magicEntry ctx.magic :: defaultEntries.take (defaultNumEntries - 1)) defaultNumEntries
        (maxEntries % 2 ^ 16)
      some (if error = 0 then ctx.entries.length else error, ctx)

def paddedEntries (ctx : Context) : Bytes :=
  let image := ctx.entries.flatMap ConfigEntry.memory
  let totalUsed := ctx.entries.length * entrySize
  let rounded := (totalUsed + flashPageSize - 1) / flashPageSize * flashPageSize
  let programSize := if rounded > ctx.flashSettingsSize then ctx.flashSettingsSize else rounded
  let copied := if totalUsed < programSize then totalUsed else programSize
  image.take copied ++ List.replicate (programSize - copied) 0xFF

def settingsSave (mallocs : Nat → Bool) (ctx : Option Context) (flash : Flash) : Int × Flash :=
  match ctx with
  | none => (-1, flash)
  | some ctx =>
    let totalUsed := ctx.entries.length * entrySize
    if totalUsed > ctx.flashSettingsSize then (-1, flash)
    else if totalUsed > 0 then
      let padded := paddedEntries ctx
      if !mallocs padded.length then (-1, flash)
      else
        (0, (flash.erase ctx.flashSettingsOffset ctx.flashSettingsSize).program
          ctx.flashSettingsOffset padded)
    else (0, flash.erase ctx.flashSettingsOffset ctx.flashSettingsSize)

def settingsFindEntry (ctx : Context) (key : Bytes) : Option ConfigEntry :=
  if !checkKeyFormat key then none
  else ctx.entries.find? fun entry => strnSame maxKeyLength entry.key key

def ConfigEntry.write (dataType : UInt8) (value : Bytes) (entry : ConfigEntry) : ConfigEntry :=
  { entry with
    dataType := dataType
    value := valueArray value
    valueLength := valueArray_length value }

def updateFirst (key : Bytes) (dataType : UInt8) (value : Bytes) :
    List ConfigEntry → Option (List ConfigEntry)
  | [] => none
  | entry :: rest =>
    if strnSame maxKeyLength entry.key key then some (entry.write dataType value :: rest)
    else (updateFirst key dataType value rest).map fun rest => entry :: rest

def settingsUpdateEntry (key : Bytes) (dataType : UInt8) (value : Bytes) (ctx : Context) :
    Int × Context :=
  if !checkKeyFormat key then (-1, ctx)
  else if !checkTypeFormat dataType then (-1, ctx)
  else
    match updateFirst key dataType value ctx.entries with
    | some entries => (0, { ctx with entries := entries })
    | none => (-1, ctx)

def settingsPutBool (key : Bytes) (value : Bool) (ctx : Context) : Int × Context :=
  settingsUpdateEntry key typeBool (if value then ascii "true" else ascii "false") ctx

def settingsPutString (key : Bytes) (value : Option Bytes) (ctx : Context) : Int × Context :=
  match value with
  | none => (-1, ctx)
  | some value => settingsUpdateEntry key typeString (valueArray value) ctx

def settingsPutInteger (key : Bytes) (value : Int32) (ctx : Context) : Int × Context :=
  settingsUpdateEntry key typeInt (valueArray (signed value.toInt)) ctx

end MidiToIp.Settings
