import Mathlib.Data.List.DropRight
import MidiToIp.Firmware.CArray

set_option autoImplicit false

-- The machine is little endian, and the cartridge port takes its words as they are.

namespace MidiToIp.Firmware

open Octets CInitializer

abbrev Memory := Nat → UInt8

def eraseFirmwareInRam : Memory := fun _ => 0

def readWord (memory : Memory) (offset : Nat) : Nat :=
  (memory offset).toNat + 256 * (memory (offset + 1)).toNat

def stored (array : List UInt16) : Memory := fun a =>
  let word := array.getD (a / 2) 0
  if a % 2 = 0 then word.toUInt8 else (word >>> 8).toUInt8

def moveUnit (size : Nat) (source target : Memory) (i : Nat) : Memory := fun a =>
  if size * i ≤ a ∧ a < size * (i + 1) then source a else target a

def moveUnits (size count : Nat) (source target : Memory) : Memory :=
  (List.range count).foldl (moveUnit size source) target

/-- `COPY_FIRMWARE_TO_RAM`: transfers of 32 bits, or a loop over words if no channel was free. The
stream of the flash counts as many transfers as the channel. -/
def copyFirmwareToRam (dmaChan : Int) (emulRom : List UInt16) (emulRomLength : UInt16)
    (romInRam : Memory) : Memory :=
  if dmaChan < 0 then moveUnits 2 emulRomLength.toNat (stored emulRom) romInRam
  else moveUnits 4 (emulRomLength.toNat / 2) (stored emulRom) romInRam

def targetFirmware (content : Bytes) : Option (List UInt16 × UInt16) :=
  (initializer content).map fun values =>
    (values.map UInt16.ofNat, UInt16.ofNat values.length)

def kept (image : Bytes) : Bytes := image.rdropWhile (· = 0)

def bigEndianWord (image : Bytes) (offset : Nat) : Nat :=
  fromBigEndian [image.getD offset 0, image.getD (offset + 1) 0]

def Serves (romInRam : Memory) (image : Bytes) : Prop :=
  ∀ offset, offset % 2 = 0 → readWord romInRam offset = bigEndianWord image offset

def Served (arrayName : Identifier) (image : Bytes) : Prop :=
  ∃ content array length, binaryToCArray image arrayName .little = .ok content ∧
    targetFirmware content = some (array, length) ∧
    ∀ dmaChan, Serves (copyFirmwareToRam dmaChan array length eraseFirmwareInRam) image

theorem moveUnits_apply (size count : Nat) (source target : Memory) (a : Nat) :
    moveUnits size count source target a = if a < size * count then source a else target a := by
  induction count with
  | zero => simp [moveUnits]
  | succ count ih =>
    rw [moveUnits, List.range_succ, List.foldl_append, List.foldl_cons, List.foldl_nil, moveUnit]
    change (if size * count ≤ a ∧ a < size * (count + 1) then source a
      else moveUnits size count source target a) = _
    rw [ih, Nat.mul_succ]
    split_ifs <;> first | rfl | omega

theorem words_length (endianFormat : EndianFormat) (data : Bytes) :
    (words endianFormat data).length = data.length / 2 := by
  fun_induction words endianFormat data with
  | case1 high low rest ih =>
    rw [List.length_cons, ih, List.length_cons, List.length_cons]
    omega
  | case2 rest short =>
    cases rest with
    | nil => rfl
    | cons b rest =>
      cases rest with
      | nil => simp
      | cons c rest => exact absurd rfl (short b c rest)

theorem words_getD (data : Bytes) (even : data.length % 2 = 0) (i : Nat) :
    (words .little data).getD i 0 = bigEndianWord data (2 * i) := by
  induction i generalizing data with
  | zero =>
    match data, even with
    | [], _ => rfl
    | [_], even => simp at even
    | high :: low :: rest, _ => simp [words, word, bigEndianWord, fromBigEndian, accumulate]
  | succ i ih =>
    match data, even with
    | [], _ => simp [words, bigEndianWord, fromBigEndian, accumulate]
    | [_], even => simp at even
    | high :: low :: rest, even =>
      have later := ih rest (by simpa [Nat.add_assoc] using even)
      simpa [words, bigEndianWord, Nat.mul_succ] using later

theorem bigEndianWord_lt (image : Bytes) (offset : Nat) : bigEndianWord image offset < 65536 := by
  have high := (image.getD offset 0).toNat_lt
  have low := (image.getD (offset + 1) 0).toNat_lt
  simp only [bigEndianWord, fromBigEndian, accumulate, List.foldl_cons, List.foldl_nil]
  omega

theorem readWord_stored (array : List UInt16) (i : Nat) :
    readWord (stored array) (2 * i) = (array.getD i 0).toNat := by
  have low : (2 * i) / 2 = i ∧ 2 * i % 2 = 0 := by omega
  have high : (2 * i + 1) / 2 = i ∧ ¬ (2 * i + 1) % 2 = 0 := by omega
  have small := (array.getD i 0).toNat_lt
  simp only [readWord, stored, low, high, if_true, if_false]
  rw [UInt16.toNat_toUInt8, UInt16.toNat_toUInt8, UInt16.toNat_shiftRight]
  have shift : (8 : UInt16).toNat % 16 = 8 := by decide
  rw [shift, Nat.shiftRight_eq_div_pow]
  omega

theorem readWord_words (data : Bytes) (even : data.length % 2 = 0) (i : Nat) :
    readWord (stored ((words .little data).map UInt16.ofNat)) (2 * i) = bigEndianWord data (2 * i) := by
  have value : ((words .little data).map UInt16.ofNat).getD i 0 =
      UInt16.ofNat ((words .little data).getD i 0) := by
    simp only [List.getD_eq_getElem?_getD, List.getElem?_map]
    cases (words .little data)[i]? <;> rfl
  rw [readWord_stored, value, words_getD data even, UInt16.toNat_ofNat']
  exact Nat.mod_eq_of_lt (bigEndianWord_lt data (2 * i))

theorem readWord_moveUnits (size count : Nat) (even : size % 2 = 0) (source : Memory) (i : Nat) :
    readWord (moveUnits size count source eraseFirmwareInRam) (2 * i) =
      if 2 * i < size * count then readWord source (2 * i) else 0 := by
  obtain ⟨half, rfl⟩ : ∃ half, size = 2 * half := ⟨size / 2, by omega⟩
  have both : 2 * i + 1 < 2 * half * count ↔ 2 * i < 2 * half * count := by
    rw [Nat.mul_assoc]
    omega
  simp only [readWord, moveUnits_apply, both, eraseFirmwareInRam]
  split_ifs <;> rfl

theorem kept_getD (image : Bytes) (i : Nat) : (kept image).getD i 0 = image.getD i 0 := by
  induction image using List.reverseRecOn with
  | nil => rfl
  | append_singleton image b ih =>
    by_cases zero : b = 0
    · rw [kept, List.rdropWhile_concat_pos _ _ _ (by simpa using zero), ← kept, ih, zero]
      by_cases inside : i < image.length
      · exact (List.getD_append _ _ _ _ inside).symm
      · have beyond : image.length ≤ i := Nat.le_of_not_lt inside
        rw [List.getD_eq_default _ _ beyond, List.getD_append_right _ _ _ _ beyond]
        cases i - image.length <;> rfl
    · rw [kept, List.rdropWhile_concat_neg _ _ _ (by simpa using zero)]

theorem kept_last (image : Bytes) (i : Nat) (last : (kept image).length = i + 1) :
    (kept image).getD i 0 ≠ 0 := by
  have some_ : kept image ≠ [] := by
    intro empty
    simp [empty] at last
  have solid : (kept image).getLast some_ ≠ 0 := fun zero =>
    List.rdropWhile_last_not (fun b : UInt8 => decide (b = 0)) image some_ (decide_eq_true zero)
  rw [List.getLast_eq_getElem] at solid
  rw [List.getD_eq_getElem _ _ (by omega)]
  have place : (kept image).length - 1 = i := by omega
  intro zero
  apply solid
  rw [← zero]
  exact getElem_congr_idx place

theorem bigEndianWord_kept (image : Bytes) (offset : Nat) :
    bigEndianWord (kept image) offset = bigEndianWord image offset := by
  simp only [bigEndianWord, kept_getD]

theorem bigEndianWord_beyond (data : Bytes) (offset : Nat) (beyond : data.length ≤ offset) :
    bigEndianWord data offset = 0 := by
  simp [bigEndianWord, beyond, Nat.le_succ_of_le, fromBigEndian, accumulate]

def copied (image : Bytes) (size count : Nat) : Memory :=
  moveUnits size count (stored ((words .little (kept image)).map UInt16.ofNat)) eraseFirmwareInRam

section Copied

variable (image : Bytes) (even : (kept image).length % 2 = 0) (size count : Nat) (sized : size % 2 = 0)

include even sized

theorem copied_serves (whole : (kept image).length ≤ size * count) :
    Serves (copied image size count) image := by
  intro offset aligned
  obtain ⟨i, rfl⟩ : ∃ i, offset = 2 * i := ⟨offset / 2, by omega⟩
  rw [copied, readWord_moveUnits size count sized, readWord_words _ even, ← bigEndianWord_kept image]
  split
  next => rfl
  next beyond => exact (bigEndianWord_beyond _ _ (by omega)).symm

theorem copied_misses (short : size * count < (kept image).length) :
    ¬ Serves (copied image size count) image := by
  intro serves
  have aligned : size * count % 2 = 0 := by rw [Nat.mul_mod, sized, Nat.zero_mul, Nat.zero_mod]
  obtain ⟨i, place⟩ : ∃ i, (kept image).length = 2 * i + 1 + 1 :=
    ⟨(kept image).length / 2 - 1, by omega⟩
  have served := serves (2 * i) (by omega)
  rw [copied, readWord_moveUnits size count sized, if_neg (by omega), ← bigEndianWord_kept image] at served
  have byte : ((kept image).getD (2 * i + 1) 0).toNat ≠ 0 := fun zero =>
    kept_last image _ place (UInt8.toNat_inj.mp zero)
  simp only [bigEndianWord, fromBigEndian, accumulate, List.foldl_cons, List.foldl_nil] at served
  omega

end Copied

theorem kept_length_le (image : Bytes) : (kept image).length ≤ image.length :=
  (List.rdropWhile_prefix _ _).length_le

theorem targetFirmware_binaryToCArray (arrayName : Identifier) (image : Bytes)
    (even : (kept image).length % 2 = 0) (small : image.length ≤ 8192) :
    ∃ content length, binaryToCArray image arrayName .little = .ok content ∧
      targetFirmware content = some ((words .little (kept image)).map UInt16.ofNat, length) ∧
      length.toNat = (kept image).length / 2 := by
  have converted := binaryToCArray_words image arrayName .little
  rw [trimmedData_eq, ← kept, if_pos even] at converted
  obtain ⟨content, written, read⟩ := converted
  refine ⟨content, UInt16.ofNat (words .little (kept image)).length, written, ?_, ?_⟩
  · rw [targetFirmware, read, Option.map_some]
  · have fits := kept_length_le image
    rw [UInt16.toNat_ofNat', words_length, Nat.mod_eq_of_lt]
    omega

theorem binaryToCArray_refuses (arrayName : Identifier) (image : Bytes)
    (odd : ¬ (kept image).length % 2 = 0) :
    binaryToCArray image arrayName .little = .error valueError := by
  have converted := binaryToCArray_words image arrayName .little
  rwa [trimmedData_eq, ← kept, if_neg odd] at converted

theorem copyFirmwareToRam_copied (image : Bytes) (length : UInt16)
    (size : length.toNat = (kept image).length / 2) (dmaChan : Int) :
    copyFirmwareToRam dmaChan ((words .little (kept image)).map UInt16.ofNat) length eraseFirmwareInRam =
      if dmaChan < 0 then copied image 2 ((kept image).length / 2)
      else copied image 4 ((kept image).length / 2 / 2) := by
  rw [copyFirmwareToRam, size]
  rfl

theorem binaryToCArray_serves (arrayName : Identifier) (image : Bytes) (small : image.length ≤ 8192) :
    if (kept image).length % 2 = 0 then
      ∃ content array length, binaryToCArray image arrayName .little = .ok content ∧
        targetFirmware content = some (array, length) ∧
        ∀ dmaChan, (dmaChan < 0 ∨ array.length % 2 = 0) →
          Serves (copyFirmwareToRam dmaChan array length eraseFirmwareInRam) image
    else binaryToCArray image arrayName .little = .error valueError := by
  by_cases kept_even : (kept image).length % 2 = 0
  · rw [if_pos kept_even]
    obtain ⟨content, length, written, compiled, size⟩ :=
      targetFirmware_binaryToCArray arrayName image kept_even small
    refine ⟨content, _, length, written, compiled, fun dmaChan path => ?_⟩
    rw [copyFirmwareToRam_copied image length size]
    by_cases loop : dmaChan < 0
    · rw [if_pos loop]
      exact copied_serves image kept_even 2 _ rfl (by omega)
    · rw [if_neg loop]
      rw [List.length_map, words_length] at path
      exact copied_serves image kept_even 4 _ rfl (by omega)
  · rw [if_neg kept_even]
    exact binaryToCArray_refuses arrayName image kept_even

theorem targetFirmware_letters : (ascii "target_firmware").all (fun b =>
    (48 ≤ b.toNat ∧ b.toNat ≤ 57) ∨ (65 ≤ b.toNat ∧ b.toNat ≤ 90) ∨ b.toNat = 95 ∨
      (97 ≤ b.toNat ∧ b.toNat ≤ 122)) = true := by decide

def targetFirmwareName : Identifier :=
  ⟨ascii "target_firmware", fun b member =>
    of_decide_eq_true (List.all_eq_true.mp targetFirmware_letters b member)⟩

theorem binaryToCArray_serves_longword :
    ∃ content array length,
      binaryToCArray [0x12, 0x34, 0x56, 0x78] targetFirmwareName .little = .ok content ∧
        targetFirmware content = some (array, length) ∧
        ∀ dmaChan, (dmaChan < 0 ∨ array.length % 2 = 0) →
          Serves (copyFirmwareToRam dmaChan array length eraseFirmwareInRam) [0x12, 0x34, 0x56, 0x78] := by
  have served := binaryToCArray_serves targetFirmwareName [0x12, 0x34, 0x56, 0x78] (by decide)
  rwa [if_pos (by decide)] at served

theorem served_iff (arrayName : Identifier) (image : Bytes) (small : image.length ≤ 8192) :
    Served arrayName image ↔ (kept image).length % 4 = 0 := by
  constructor
  · rintro ⟨content, array, length, written, compiled, serves⟩
    by_cases even : (kept image).length % 2 = 0
    · obtain ⟨other, count, same, read, size⟩ :=
        targetFirmware_binaryToCArray arrayName image even small
      obtain rfl : other = content := Except.ok.inj (same.symm.trans written)
      obtain ⟨rfl, rfl⟩ := Prod.mk.inj (Option.some.inj (read.symm.trans compiled))
      have transfers := serves 0
      rw [copyFirmwareToRam_copied image _ size, if_neg (by decide)] at transfers
      by_contra odd
      exact copied_misses image even 4 _ rfl (by omega) transfers
    · rw [binaryToCArray_refuses arrayName image even] at written
      simp at written
  · intro whole
    obtain ⟨content, length, written, compiled, size⟩ :=
      targetFirmware_binaryToCArray arrayName image (by omega) small
    refine ⟨content, _, length, written, compiled, fun dmaChan => ?_⟩
    rw [copyFirmwareToRam_copied image length size]
    split
    next => exact copied_serves image (by omega) 2 _ rfl (by omega)
    next => exact copied_serves image (by omega) 4 _ rfl (by omega)

-- A last byte of zero leaves half a word, and a single word is no transfer.
theorem not_served :
    ¬ Served targetFirmwareName [0x4E, 0x00] ∧ ¬ Served targetFirmwareName [0x4E, 0x75] := by
  constructor
  · rw [served_iff _ _ (by decide)]
    decide
  · rw [served_iff _ _ (by decide)]
    decide

end MidiToIp.Firmware
