import MidiToIp.Settings.Settings

set_option autoImplicit false

namespace MidiToIp.Settings

open Octets CString NorFlash

structure Valid (entry : ConfigEntry) : Prop where
  terminated : entry.name.length < maxKeyLength
  format : checkKeyFormat entry.key = true
  type : checkTypeFormat entry.dataType = true

structure ValidDefaults (entries : List ConfigEntry) : Prop where
  each : ∀ entry ∈ entries, Valid entry
  distinct : (entries.map ConfigEntry.name).Nodup
  unmagic : magicVersionKey ∉ entries.map ConfigEntry.name

@[simp] theorem ConfigEntry.memory_length (entry : ConfigEntry) : entry.memory.length = entrySize := by
  simp [memory, entry.keyLength, entry.valueLength, entrySize]
  omega

theorem ConfigEntry.name_length (entry : ConfigEntry) : entry.name.length ≤ maxKeyLength := by
  rw [← entry.keyLength]
  exact (List.takeWhile_sublist _).length_le

theorem cstr_memory (entry : ConfigEntry) (terminated : entry.name.length < maxKeyLength) :
    cstr entry.memory = entry.name :=
  cstr_append entry.key _ (by rwa [entry.keyLength])

theorem strnSame_name (a b : ConfigEntry) : strnSame maxKeyLength a.key b.key = decide (a.name = b.name) := by
  have left : (cstr a.key).take maxKeyLength = a.name := List.take_of_length_le a.name_length
  have right : (cstr b.key).take maxKeyLength = b.name := List.take_of_length_le b.name_length
  rw [strnSame, left, right]

theorem strnSame_key (entry : ConfigEntry) (key : Bytes) (terminated : entry.name.length < maxKeyLength) :
    strnSame maxKeyLength entry.key key = decide (entry.name = cstr key) := by
  have left : (cstr entry.key).take maxKeyLength = entry.name := List.take_of_length_le entry.name_length
  rw [strnSame, left]
  apply decide_eq_decide.mpr
  constructor
  · intro same
    rw [same, List.length_take] at terminated
    rw [same, List.take_of_length_le (by omega)]
  · rintro same
    rw [← same]
    exact (List.take_of_length_le entry.name_length).symm

theorem ConfigEntry.ext_memory (a b : ConfigEntry) (same : a.memory = b.memory) : a = b := by
  have lengths : a.key.length = b.key.length := by rw [a.keyLength, b.keyLength]
  obtain ⟨keys, rest⟩ := List.append_inj same lengths
  cases a
  cases b
  simp_all

theorem memory_entryAt (flash : Flash) (address : Nat) :
    (entryAt flash address).memory = flash.read address entrySize := by
  have split (first second : Nat) : flash.read address (first + second) =
      flash.read address first ++ flash.read (address + first) second := by
    unfold Flash.read
    rw [List.range_add, List.map_append, List.map_map]
    congr 1
    apply List.map_congr_left
    intro i _
    simp [Nat.add_assoc]
  have one : flash.read (address + maxKeyLength) 1 = [flash (address + maxKeyLength)] := by
    simp [Flash.read]
  rw [entrySize, split, split, one, ConfigEntry.memory, entryAt, List.append_assoc]
  rfl

theorem Valid.format_memory {entry : ConfigEntry} (valid : Valid entry) :
    checkKeyFormat entry.memory = true := by
  have format := valid.format
  unfold checkKeyFormat at format ⊢
  rwa [cstr_memory entry valid.terminated]

theorem Valid.begins {entry : ConfigEntry} (valid : Valid entry) : entry.key.head? ≠ some 0 := by
  intro zero
  have format := valid.format
  unfold checkKeyFormat at format
  cases key : entry.key with
  | nil => simp [key] at zero
  | cons b others =>
    rw [key] at zero format
    simp only [List.head?_cons, Option.some.injEq] at zero
    simp [cstr, zero] at format

theorem loadDefaultEntries_valid (entries : List ConfigEntry) (valid : ∀ entry ∈ entries, Valid entry) :
    loadDefaultEntries entries = entries := by
  induction entries with
  | nil => rfl
  | cons entry rest ih =>
    have checked := (valid entry List.mem_cons_self).format_memory
    have present : cstr entry.memory ≠ [] := by
      unfold checkKeyFormat at checked
      simp only [decide_eq_true_eq] at checked
      exact checked.1
    rw [loadDefaultEntries, if_neg present]
    simp only [(valid entry List.mem_cons_self).type, checked, Bool.not_true, Bool.false_eq_true, if_false]
    rw [ih fun other member => valid other (List.mem_cons_of_mem _ member)]

theorem overwrite_names (entry : ConfigEntry) (entries : List ConfigEntry) :
    (overwrite entry entries).map ConfigEntry.name = entries.map ConfigEntry.name := by
  induction entries with
  | nil => rfl
  | cons held rest ih =>
    unfold overwrite
    rw [strnSame_name]
    by_cases same : held.name = entry.name
    · simp [same]
    · simp [same, ih]

theorem mem_overwrite (entry other : ConfigEntry) (entries : List ConfigEntry)
    (member : other ∈ overwrite entry entries) : other = entry ∨ other ∈ entries := by
  induction entries with
  | nil => simp [overwrite] at member
  | cons held rest ih =>
    unfold overwrite at member
    split at member
    · rcases List.mem_cons.mp member with first | later
      · exact .inl first
      · exact .inr (List.mem_cons_of_mem _ later)
    · rcases List.mem_cons.mp member with first | later
      · exact .inr (first ▸ List.mem_cons_self)
      · exact (ih later).imp_right (List.mem_cons_of_mem _)

theorem map_unnamed (name : Bytes) (change : ConfigEntry → ConfigEntry) (entries : List ConfigEntry)
    (fresh : name ∉ entries.map ConfigEntry.name) :
    (entries.map fun entry => if entry.name = name then change entry else entry) = entries := by
  rw [List.map_congr_left (g := id)]
  · exact List.map_id entries
  · intro entry member
    have different : entry.name ≠ name := by
      rintro rfl
      exact fresh (List.mem_map_of_mem member)
    exact if_neg different

theorem overwrite_append (entry held : ConfigEntry) (done base : List ConfigEntry)
    (new : entry.name ∉ done.map ConfigEntry.name) (same : held.name = entry.name) :
    overwrite entry (done ++ held :: base) = done ++ entry :: base := by
  induction done with
  | nil => simp [overwrite, strnSame_name, same]
  | cons first rest ih =>
    rw [List.map_cons, List.mem_cons, not_or] at new
    have different : first.name ≠ entry.name := Ne.symm new.1
    simp [overwrite, strnSame_name, different, ih new.2]

theorem loadFlashEntries_valid (flash : Flash) (limit remaining address : Nat) (entry : ConfigEntry)
    (entries : List ConfigEntry) (there : entryAt flash address = entry)
    (room : address + entrySize ≤ limit) (valid : Valid entry) :
    loadFlashEntries flash limit (remaining + 1) address entries =
      loadFlashEntries flash limit remaining (address + entrySize) (overwrite entry entries) := by
  rw [loadFlashEntries, if_pos room, there]
  simp only [valid.begins, valid.format_memory, valid.type, Bool.not_true, Bool.false_eq_true, if_false]

theorem loadFlashEntries_stored (flash : Flash) (limit address : Nat) (stored done base : List ConfigEntry)
    (there : ∀ i entry, stored[i]? = some entry → entryAt flash (address + i * entrySize) = entry)
    (room : address + stored.length * entrySize ≤ limit)
    (names : base.map ConfigEntry.name = stored.map ConfigEntry.name)
    (distinct : ((done ++ stored).map ConfigEntry.name).Nodup)
    (valid : ∀ entry ∈ stored, Valid entry) :
    loadFlashEntries flash limit stored.length address (done ++ base) = done ++ stored := by
  induction stored generalizing address done base with
  | nil => simpa [loadFlashEntries] using names
  | cons entry rest ih =>
    obtain ⟨held, others, rfl⟩ : ∃ held others, base = held :: others := by
      cases base with
      | nil => simp at names
      | cons held others => exact ⟨held, others, rfl⟩
    obtain ⟨same, restNames⟩ := List.cons.inj names
    have first : entryAt flash address = entry := by simpa using there 0 entry rfl
    have new : entry.name ∉ done.map ConfigEntry.name := by
      rw [List.map_append, List.nodup_append] at distinct
      exact fun member => distinct.2.2 _ member _ (by simp) rfl
    have fits : address + entrySize ≤ limit := by
      rw [List.length_cons, Nat.succ_mul] at room
      omega
    rw [List.length_cons, loadFlashEntries_valid flash limit rest.length address entry _ first fits
      (valid entry List.mem_cons_self), overwrite_append entry held done others new same]
    have step := ih (address + entrySize) (done ++ [entry]) others
      (fun i other found => by
        have next := there (i + 1) other (by simpa using found)
        rwa [Nat.succ_mul, Nat.add_comm (i * entrySize), ← Nat.add_assoc] at next)
      (by
        rw [List.length_cons, Nat.succ_mul] at room
        omega)
      restNames (by simpa using distinct) fun other member => valid other (List.mem_cons_of_mem _ member)
    simpa using step

theorem memories_length (entries : List ConfigEntry) :
    (entries.flatMap ConfigEntry.memory).length = entries.length * entrySize := by
  induction entries with
  | nil => simp
  | cons entry rest ih =>
    rw [List.flatMap_cons, List.length_append, ih, entry.memory_length, List.length_cons, Nat.succ_mul]
    omega

theorem memories_get (entries : List ConfigEntry) (pad : Bytes) (i : Nat) (entry : ConfigEntry)
    (found : entries[i]? = some entry) :
    ((entries.flatMap ConfigEntry.memory ++ pad).drop (i * entrySize)).take entrySize =
      entry.memory := by
  induction entries generalizing i with
  | nil => simp at found
  | cons first rest ih =>
    rw [List.flatMap_cons, List.append_assoc]
    cases i with
    | zero =>
      obtain rfl : first = entry := by simpa using found
      rw [Nat.zero_mul, List.drop_zero]
      exact List.take_left' first.memory_length
    | succ i =>
      rw [Nat.succ_mul, Nat.add_comm, ← List.drop_drop, List.drop_left' first.memory_length]
      exact ih i (by simpa using found)

theorem paddedEntries_eq (ctx : Context) (fits : ctx.entries.length * entrySize ≤ ctx.flashSettingsSize) :
    ∃ pad, paddedEntries ctx = ctx.entries.flatMap ConfigEntry.memory ++ pad ∧
      (paddedEntries ctx).length ≤ ctx.flashSettingsSize := by
  unfold paddedEntries
  simp only
  generalize total : ctx.entries.length * entrySize = used at fits
  have whole : (ctx.entries.flatMap ConfigEntry.memory).length = used := by rw [memories_length, total]
  have rounds : used ≤ (used + flashPageSize - 1) / flashPageSize * flashPageSize := by
    unfold flashPageSize
    omega
  generalize (used + flashPageSize - 1) / flashPageSize * flashPageSize = rounded at rounds
  obtain ⟨size, sized, least, most⟩ : ∃ size,
      (if rounded > ctx.flashSettingsSize then ctx.flashSettingsSize else rounded) = size ∧
        used ≤ size ∧ size ≤ ctx.flashSettingsSize := by
    refine ⟨_, rfl, ?_, ?_⟩ <;> split <;> omega
  have copied : (if used < size then used else size) = used := by
    split <;> omega
  rw [sized, copied, List.take_of_length_le (Nat.le_of_eq whole)]
  refine ⟨_, rfl, ?_⟩
  rw [List.length_append, whole, List.length_replicate]
  omega

def Holds (flash : Flash) (offset : Nat) (entries : List ConfigEntry) : Prop :=
  ∀ i entry, entries[i]? = some entry → entryAt flash (offset + i * entrySize) = entry

theorem settingsSave_holds (mallocs : Nat → Bool) (ctx : Context) (flash : Flash)
    (granted : ∀ size, mallocs size = true)
    (fits : ctx.entries.length * entrySize ≤ ctx.flashSettingsSize) :
    ∃ after, settingsSave mallocs (some ctx) flash = (0, after) ∧
      Holds after ctx.flashSettingsOffset ctx.entries ∧
      ∀ a, a < ctx.flashSettingsOffset ∨ ctx.flashSettingsOffset + ctx.flashSettingsSize ≤ a →
        after a = flash a := by
  obtain ⟨pad, padded, within⟩ := paddedEntries_eq ctx fits
  unfold settingsSave
  simp only [Nat.not_lt.mpr fits, if_false, granted, Bool.not_true, Bool.false_eq_true]
  split
  next =>
    refine ⟨_, rfl, fun i entry found => ?_, fun a outside =>
      Flash.program_erase_outside flash _ _ _ a within outside⟩
    apply ConfigEntry.ext_memory
    have inside : i < ctx.entries.length := (List.getElem?_eq_some_iff.mp found).1
    have bound : i * entrySize + entrySize ≤ (paddedEntries ctx).length := by
      have more : (i + 1) * entrySize ≤ ctx.entries.length * entrySize :=
        Nat.mul_le_mul_right _ inside
      rw [padded, List.length_append, memories_length]
      rw [Nat.succ_mul] at more
      omega
    rw [memory_entryAt, Flash.read_program_erase flash _ _ _ _ _ within bound, padded]
    exact memories_get ctx.entries pad i entry found
  next nothing =>
    have none_ : ctx.entries = [] := by
      cases entries : ctx.entries with
      | nil => rfl
      | cons entry rest =>
        rw [entries, List.length_cons, Nat.succ_mul] at nothing
        simp [entrySize, maxKeyLength, maxValueLength] at nothing
    refine ⟨_, rfl, by simp [Holds, none_], fun a outside => ?_⟩
    have notErased : ¬ (ctx.flashSettingsOffset ≤ a ∧
        a < ctx.flashSettingsOffset + ctx.flashSettingsSize) := by omega
    rw [Flash.erase, if_neg notErased]

structure Named (defaults entries : List ConfigEntry) : Prop where
  names : entries.map ConfigEntry.name = magicVersionKey :: defaults.map ConfigEntry.name
  types : ∀ entry ∈ entries, checkTypeFormat entry.dataType = true

structure Genuine (magic : UInt32) (defaults entries : List ConfigEntry) : Prop where
  names : entries.map ConfigEntry.name = magicVersionKey :: defaults.map ConfigEntry.name
  types : ∀ entry ∈ entries, checkTypeFormat entry.dataType = true
  stamp : ∀ entry ∈ entries, entry.name = magicVersionKey →
    UInt32.ofNat (strtoul entry.value) = magic

theorem valid_of_name (entry : ConfigEntry) (terminated : entry.name.length < maxKeyLength)
    (format : checkKeyFormat entry.name = true) (type : checkTypeFormat entry.dataType = true) :
    Valid entry := by
  refine ⟨terminated, ?_, type⟩
  unfold checkKeyFormat at format ⊢
  unfold ConfigEntry.name at format
  rwa [cstr_cstr] at format

theorem Valid.format_name {entry : ConfigEntry} (valid : Valid entry) :
    checkKeyFormat entry.name = true := by
  have format := valid.format
  unfold checkKeyFormat at format ⊢
  unfold ConfigEntry.name
  rwa [cstr_cstr]

theorem magicVersionKey_name : cstr (strncpy maxKeyLength magicVersionKey) = magicVersionKey := by
  decide

theorem magicEntry_valid (magic : UInt32) : Valid (magicEntry magic) := by
  have name : (magicEntry magic).name = magicVersionKey := magicVersionKey_name
  refine valid_of_name _ ?_ ?_ rfl
  · rw [name]
    decide
  · rw [name]
    decide

theorem magicEntry_stamp (magic : UInt32) :
    UInt32.ofNat (strtoul (magicEntry magic).value) = magic := by
  have short : (decimal magic.toNat).length ≤ maxValueLength - 1 := by
    have few := digits_length (magic.toNat + 1) magic.toNat 9 (by have := magic.toNat_lt; omega)
    exact Nat.le_trans few (by decide)
  have text : cstr (magicEntry magic).value = decimal magic.toNat := by
    change cstr (strncpy (maxValueLength - 1) (decimal magic.toNat) ++ [0]) = _
    rw [cstr_strncpy, cstr_self _ (decimal_nonzero _), List.take_of_length_le short]
  have parsed : strtoul (magicEntry magic).value = magic.toNat := by
    have same := strtoul_decimal magic.toNat magic.toNat_lt
    unfold strtoul at same ⊢
    rwa [text, ← cstr_self _ (decimal_nonzero magic.toNat)]
  rw [parsed, UInt32.ofNat_toNat]

section Booting

variable {magic : UInt32} {defaults entries : List ConfigEntry}

theorem Genuine.named (genuine : Genuine magic defaults entries) : Named defaults entries :=
  ⟨genuine.names, genuine.types⟩

theorem Named.valid (named : Named defaults entries) (valid : ValidDefaults defaults) :
    ∀ entry ∈ entries, Valid entry := by
  intro entry member
  have listed : entry.name ∈ magicVersionKey :: defaults.map ConfigEntry.name := by
    rw [← named.names]
    exact List.mem_map_of_mem member
  rcases List.mem_cons.mp listed with same | among
  · refine valid_of_name entry ?_ ?_ (named.types entry member)
    · rw [same]
      decide
    · rw [same]
      decide
  · obtain ⟨default, within, same⟩ := List.mem_map.mp among
    have plain := valid.each default within
    refine valid_of_name entry ?_ ?_ (named.types entry member)
    · rw [← same]
      exact plain.terminated
    · rw [← same]
      exact plain.format_name

theorem Named.distinct (named : Named defaults entries) (valid : ValidDefaults defaults) :
    (entries.map ConfigEntry.name).Nodup := by
  rw [named.names, List.nodup_cons]
  exact ⟨valid.unmagic, valid.distinct⟩

theorem Named.length (named : Named defaults entries) :
    entries.length = defaults.length + 1 := by
  have lengths := congrArg List.length named.names
  simpa using lengths

theorem defaults_genuine (magic : UInt32) (valid : ValidDefaults defaults) :
    Genuine magic defaults (magicEntry magic :: defaults) := by
  refine ⟨?_, ?_, ?_⟩
  · exact congrArg (fun name => name :: defaults.map ConfigEntry.name) magicVersionKey_name
  · intro entry member
    rcases List.mem_cons.mp member with rfl | within
    · exact (magicEntry_valid magic).type
    · exact (valid.each entry within).type
  · intro entry member named
    rcases List.mem_cons.mp member with rfl | within
    · exact magicEntry_stamp magic
    · exact absurd (named ▸ List.mem_map_of_mem within) valid.unmagic

theorem overwrite_named (named : Named defaults entries) (entry : ConfigEntry)
    (type : checkTypeFormat entry.dataType = true) : Named defaults (overwrite entry entries) := by
  refine ⟨(overwrite_names entry entries).trans named.names, fun other member => ?_⟩
  rcases mem_overwrite entry other entries member with rfl | old
  · exact type
  · exact named.types other old

theorem overwrite_genuine (genuine : Genuine magic defaults entries) (entry : ConfigEntry)
    (type : checkTypeFormat entry.dataType = true)
    (stamp : entry.name = magicVersionKey → UInt32.ofNat (strtoul entry.value) = magic) :
    Genuine magic defaults (overwrite entry entries) := by
  have named := overwrite_named genuine.named entry type
  refine ⟨named.names, named.types, fun other member stamped => ?_⟩
  rcases mem_overwrite entry other entries member with rfl | old
  · exact stamp stamped
  · exact genuine.stamp other old stamped

theorem loadFlashEntries_named (flash : Flash) (limit remaining address : Nat)
    (named : Named defaults entries) :
    Named defaults (loadFlashEntries flash limit remaining address entries) := by
  induction remaining generalizing address entries with
  | zero => exact named
  | succ remaining ih =>
    unfold loadFlashEntries
    simp only
    split_ifs with room ended format type
    · exact named
    · exact named
    · exact named
    · have checked : checkTypeFormat (entryAt flash address).dataType = true := by simpa using type
      exact ih (address + entrySize) (overwrite_named named _ checked)
    · exact named

theorem loadFlashEntries_genuine (flash : Flash) (limit remaining address : Nat)
    (genuine : Genuine magic defaults entries)
    (stamps : ∀ i < remaining, (entryAt flash (address + i * entrySize)).name = magicVersionKey →
      UInt32.ofNat (strtoul (entryAt flash (address + i * entrySize)).value) = magic) :
    Genuine magic defaults (loadFlashEntries flash limit remaining address entries) := by
  induction remaining generalizing address entries with
  | zero => exact genuine
  | succ remaining ih =>
    unfold loadFlashEntries
    simp only
    split_ifs with room ended format type
    · exact genuine
    · exact genuine
    · exact genuine
    · have checked : checkTypeFormat (entryAt flash address).dataType = true := by simpa using type
      have first := stamps 0 (Nat.succ_pos _)
      rw [Nat.zero_mul, Nat.add_zero] at first
      refine ih (address + entrySize) (overwrite_genuine genuine _ checked first) fun i inside => ?_
      have next := stamps (i + 1) (by omega)
      rwa [Nat.succ_mul, Nat.add_comm (i * entrySize), ← Nat.add_assoc] at next
    · exact genuine

end Booting

def flashBytes : Nat := 0x200000

structure Region where
  offset : Nat
  size : Nat
  offsetAligned : offset % flashPageSize = 0
  sizeAligned : size % flashPageSize = 0
  within : offset + size ≤ flashBytes

/-- No entry that booting would take for the stamp carries another number. -/
def Sane (flash : Flash) (offset count : Nat) (magic : UInt32) : Prop :=
  storedMagic flash offset = magic → ∀ i < count,
    (entryAt flash (offset + i * entrySize)).name = magicVersionKey →
      UInt32.ofNat (strtoul (entryAt flash (offset + i * entrySize)).value) = magic

def booted (flash : Flash) (region : Region) (magic : UInt32) (defaults : List ConfigEntry) :
    List ConfigEntry :=
  if storedMagic flash region.offset ≠ magic then magicEntry magic :: defaults
  else loadFlashEntries flash (region.offset + region.size) (defaults.length + 1) region.offset
    (magicEntry magic :: defaults)

theorem settingsInit_booted (mallocs : Nat → Bool) (flash : Flash) (region : Region)
    (magic version : UInt16) (defaults : List ConfigEntry) (granted : ∀ size, mallocs size = true)
    (valid : ValidDefaults defaults) (fits : (defaults.length + 1) * entrySize ≤ region.size) :
    settingsInit mallocs flash defaults region.offset region.size magic version =
      some (if storedMagic flash region.offset ≠ combinedMagic magic version then -1
          else ((booted flash region (combinedMagic magic version) defaults).length : Int),
        { magic := combinedMagic magic version
          entries := booted flash region (combinedMagic magic version) defaults
          flashSettingsSize := region.size
          flashSettingsOffset := region.offset }) := by
  have bound := region.within
  have size : entrySize = 127 := rfl
  have most : defaults.length + 1 ≤ region.size / entrySize := (Nat.le_div_iff_mul_le (by decide)).mpr fits
  have small : region.size / entrySize < 2 ^ 16 := by
    rw [size]
    unfold flashBytes at bound
    omega
  have accepted : ¬ (region.size % flashPageSize ≠ 0 ∨ region.offset % flashPageSize ≠ 0 ∨
      ¬ defaults.length ≤ region.size / entrySize) := by
    have one := region.sizeAligned
    have other := region.offsetAligned
    omega
  have loaded : loadDefaultEntries (magicEntry (combinedMagic magic version) :: defaults) =
      magicEntry (combinedMagic magic version) :: defaults := by
    apply loadDefaultEntries_valid
    intro entry member
    rcases List.mem_cons.mp member with rfl | within
    · exact magicEntry_valid _
    · exact valid.each entry within
  unfold settingsInit
  simp only [if_neg accepted, granted, Bool.not_true, Bool.false_eq_true, if_false,
    Nat.mod_eq_of_lt small, Nat.mod_eq_of_lt (Nat.lt_of_le_of_lt most small), Nat.add_sub_cancel,
    List.take_length]
  unfold loadAllEntries booted
  simp only [gt_iff_lt, Nat.not_lt.mpr most, if_false]
  rw [List.take_of_length_le (by simp), loaded]
  split <;> simp

inductive Put where
  | bool (key : Bytes) (value : Bool)
  | string (key : Bytes) (value : Option Bytes)
  | integer (key : Bytes) (value : Int32)

namespace Put

def key : Put → Bytes
  | .bool key _ | .string key _ | .integer key _ => key

def call (put : Put) (ctx : Context) : Int × Context :=
  match put with
  | .bool key value => settingsPutBool key value ctx
  | .string key value => settingsPutString key value ctx
  | .integer key value => settingsPutInteger key value ctx

-- The type and the text that a call is to leave; a null pointer leaves nothing.
def writes : Put → Option (UInt8 × Bytes)
  | .bool _ value => some (typeBool, if value then ascii "true" else ascii "false")
  | .string _ none => none
  | .string _ (some value) => some (typeString, value)
  | .integer _ value => some (typeInt, signed value.toInt)

def rewrite (entry : ConfigEntry) (put : Put) : ConfigEntry :=
  match put.writes with
  | none => entry
  | some (type, value) => if entry.name = cstr put.key then entry.write type value else entry

theorem rewrite_name (entry : ConfigEntry) (put : Put) : (rewrite entry put).name = entry.name := by
  unfold rewrite
  split
  · rfl
  · split <;> rfl

theorem rewrite_other (entry : ConfigEntry) (put : Put) (other : cstr put.key ≠ entry.name) :
    rewrite entry put = entry := by
  unfold rewrite
  split
  · rfl
  · rw [if_neg (Ne.symm other)]

theorem rewrite_own (entry : ConfigEntry) (put : Put) (type : UInt8) (value : Bytes)
    (writes : put.writes = some (type, value)) (own : entry.name = cstr put.key) :
    (rewrite entry put).dataType = type ∧
      cstr (rewrite entry put).value = (cstr value).take (maxValueLength - 1) := by
  rw [rewrite, writes]
  simp only [own, if_true]
  exact ⟨rfl, cstr_strncpy (maxValueLength - 1) value⟩

theorem rewrites_name (entry : ConfigEntry) (puts : List Put) : (puts.foldl rewrite entry).name = entry.name := by
  induction puts generalizing entry with
  | nil => rfl
  | cons put rest ih => exact (ih (rewrite entry put)).trans (rewrite_name entry put)

theorem rewrites_other (entry : ConfigEntry) (puts : List Put)
    (others : ∀ put ∈ puts, put.writes = none ∨ cstr put.key ≠ entry.name) : puts.foldl rewrite entry = entry := by
  induction puts with
  | nil => rfl
  | cons put rest ih =>
    have first : rewrite entry put = entry := by
      rcases others put List.mem_cons_self with nothing | other
      · rw [rewrite, nothing]
      · exact rewrite_other entry put other
    rw [List.foldl_cons, first]
    exact ih fun other member => others other (List.mem_cons_of_mem _ member)

theorem rewrites_own (entry : ConfigEntry) (earlier later : List Put) (put : Put) (type : UInt8) (value : Bytes)
    (writes : put.writes = some (type, value)) (own : entry.name = cstr put.key)
    (last : ∀ other ∈ later, other.writes = none ∨ cstr other.key ≠ cstr put.key) :
    ((earlier ++ put :: later).foldl rewrite entry).dataType = type ∧
      cstr ((earlier ++ put :: later).foldl rewrite entry).value = (cstr value).take (maxValueLength - 1) := by
  have before := rewrites_name entry earlier
  have named : (rewrite (earlier.foldl rewrite entry) put).name = cstr put.key := by
    rw [rewrite_name, before, own]
  rw [List.foldl_append, List.foldl_cons, rewrites_other _ later (by rw [named]; exact last)]
  exact rewrite_own _ put type value writes (before.trans own)

end Put

theorem valueArray_valueArray (value : Bytes) : valueArray (valueArray value) = valueArray value := by
  rw [valueArray, valueArray, strncpy_strncpy]

theorem write_valueArray (entry : ConfigEntry) (type : UInt8) (value : Bytes) :
    entry.write type (valueArray value) = entry.write type value := by
  simp only [ConfigEntry.write, valueArray_valueArray]

theorem updateFirst_map (key : Bytes) (type : UInt8) (value : Bytes) (entries : List ConfigEntry)
    (terminated : ∀ entry ∈ entries, entry.name.length < maxKeyLength)
    (distinct : (entries.map ConfigEntry.name).Nodup) :
    (updateFirst key type value entries).getD entries =
      entries.map fun entry => if entry.name = cstr key then entry.write type value else entry := by
  induction entries with
  | nil => rfl
  | cons entry rest ih =>
    obtain ⟨fresh, distinct⟩ := List.nodup_cons.mp distinct
    have tail := ih (fun other member => terminated other (List.mem_cons_of_mem _ member)) distinct
    unfold updateFirst
    rw [strnSame_key entry key (terminated entry List.mem_cons_self)]
    by_cases same : entry.name = cstr key
    · have untouched := map_unnamed (cstr key) (fun entry => entry.write type value) rest (same ▸ fresh)
      simp [same, untouched]
    · simp only [same, decide_false, Bool.false_eq_true, if_false, List.map_cons, ← tail]
      cases updateFirst key type value rest <;> rfl

theorem settingsUpdateEntry_map (key : Bytes) (type : UInt8) (value : Bytes) (ctx : Context)
    (valid : ∀ entry ∈ ctx.entries, Valid entry)
    (distinct : (ctx.entries.map ConfigEntry.name).Nodup) (known : checkTypeFormat type = true) :
    (settingsUpdateEntry key type value ctx).2 =
      { ctx with entries := ctx.entries.map fun entry =>
          if entry.name = cstr key then entry.write type value else entry } := by
  have mapped := updateFirst_map key type value ctx.entries
    (fun entry member => (valid entry member).terminated) distinct
  unfold settingsUpdateEntry
  simp only [known, Bool.not_true, Bool.false_eq_true, if_false]
  split
  next refused =>
    -- A key that is refused is not the key of a valid entry.
    have nobody : (ctx.entries.map fun entry =>
        if entry.name = cstr key then entry.write type value else entry) = ctx.entries := by
      refine map_unnamed (cstr key) (fun entry => entry.write type value) ctx.entries fun named => ?_
      obtain ⟨entry, member, same⟩ := List.mem_map.mp named
      have format := (valid entry member).format_name
      unfold checkKeyFormat at format refused
      rw [same, cstr_cstr] at format
      rw [format] at refused
      simp at refused
    rw [nobody]
  next =>
    split
    next entries found => rw [← mapped, found]; rfl
    next missing =>
      rw [missing] at mapped
      rw [← mapped]
      rfl

theorem Put.call_map (put : Put) (ctx : Context) (valid : ∀ entry ∈ ctx.entries, Valid entry)
    (distinct : (ctx.entries.map ConfigEntry.name).Nodup) :
    (put.call ctx).2 = { ctx with entries := ctx.entries.map fun entry => put.rewrite entry } := by
  cases put with
  | bool key value => exact settingsUpdateEntry_map key typeBool _ ctx valid distinct rfl
  | string key value =>
    cases value with
    | none => simp [call, settingsPutString, rewrite, writes]
    | some value =>
      refine (settingsUpdateEntry_map key typeString _ ctx valid distinct rfl).trans ?_
      simp only [write_valueArray]
      rfl
  | integer key value =>
    refine (settingsUpdateEntry_map key typeInt _ ctx valid distinct rfl).trans ?_
    simp only [write_valueArray]
    rfl

def putAll (puts : List Put) (ctx : Context) : Context :=
  puts.foldl (fun ctx put => (put.call ctx).2) ctx

theorem rewrite_named {defaults entries : List ConfigEntry} (named : Named defaults entries)
    (put : Put) : Named defaults (entries.map fun entry => put.rewrite entry) := by
  refine ⟨?_, fun entry member => ?_⟩
  · rw [List.map_map, ← named.names]
    exact List.map_congr_left fun entry _ => put.rewrite_name entry
  · obtain ⟨before, within, rfl⟩ := List.mem_map.mp member
    have type := named.types before within
    cases put with
    | bool | integer =>
      simp only [Put.rewrite, Put.writes]
      split
      · rfl
      · exact type
    | string key value =>
      cases value with
      | none => exact type
      | some value =>
        simp only [Put.rewrite, Put.writes]
        split
        · rfl
        · exact type

theorem rewrite_genuine {magic : UInt32} {defaults entries : List ConfigEntry}
    (genuine : Genuine magic defaults entries) (put : Put) (other : cstr put.key ≠ magicVersionKey) :
    Genuine magic defaults (entries.map fun entry => put.rewrite entry) := by
  have named := rewrite_named genuine.named put
  refine ⟨named.names, named.types, fun entry member stamped => ?_⟩
  obtain ⟨before, within, rfl⟩ := List.mem_map.mp member
  rw [put.rewrite_name] at stamped
  rw [put.rewrite_other before (by rwa [stamped])]
  exact genuine.stamp before within stamped

theorem putAll_named {defaults : List ConfigEntry} (valid : ValidDefaults defaults)
    (puts : List Put) (ctx : Context) (named : Named defaults ctx.entries) :
    putAll puts ctx = { ctx with entries := ctx.entries.map fun entry => puts.foldl Put.rewrite entry } ∧
      Named defaults (putAll puts ctx).entries := by
  induction puts generalizing ctx with
  | nil => exact ⟨by simp [putAll], named⟩
  | cons put rest ih =>
    have one := put.call_map ctx (named.valid valid) (named.distinct valid)
    have next := rewrite_named named put
    obtain ⟨all, final⟩ := ih (put.call ctx).2 (by rw [one]; exact next)
    have split : putAll (put :: rest) ctx = putAll rest (put.call ctx).2 := rfl
    refine ⟨?_, by rw [split]; exact final⟩
    rw [split, all, one]
    simp [List.map_map, Function.comp_def]

theorem putAll_genuine {magic : UInt32} {defaults : List ConfigEntry} (valid : ValidDefaults defaults)
    (puts : List Put) (others : ∀ put ∈ puts, cstr put.key ≠ magicVersionKey) (ctx : Context)
    (genuine : Genuine magic defaults ctx.entries) : Genuine magic defaults (putAll puts ctx).entries := by
  induction puts generalizing ctx with
  | nil => exact genuine
  | cons put rest ih =>
    have one := put.call_map ctx (genuine.named.valid valid) (genuine.named.distinct valid)
    have next := rewrite_genuine genuine put (others put List.mem_cons_self)
    exact ih (fun other member => others other (List.mem_cons_of_mem _ member))
      (put.call ctx).2 (by rw [one]; exact next)

theorem booted_holds (flash : Flash) (region : Region) (magic : UInt32)
    (defaults entries : List ConfigEntry) (valid : ValidDefaults defaults)
    (genuine : Genuine magic defaults entries)
    (fits : (defaults.length + 1) * entrySize ≤ region.size)
    (holds : Holds flash region.offset entries) :
    storedMagic flash region.offset = magic ∧ booted flash region magic defaults = entries ∧
      Sane flash region.offset (defaults.length + 1) magic := by
  have count := genuine.named.length
  have stored : storedMagic flash region.offset = magic := by
    obtain ⟨first, rest, split⟩ : ∃ first rest, entries = first :: rest := by
      cases entries with
      | nil => simp at count
      | cons first rest => exact ⟨first, rest, rfl⟩
    have there : entryAt flash region.offset = first := by simpa using holds 0 first (by simp [split])
    have named : first.name = magicVersionKey := by
      have names := genuine.names
      rw [split] at names
      exact (List.cons.inj names).1
    have stamp := genuine.stamp first (by simp [split]) named
    rw [← there] at stamp
    exact stamp
  refine ⟨stored, ?_, fun _ i inside named => ?_⟩
  · rw [booted, if_neg (not_not.mpr stored), ← count]
    have loaded := loadFlashEntries_stored flash (region.offset + region.size) region.offset entries []
      (magicEntry magic :: defaults) holds (by rw [count]; omega)
      ((defaults_genuine magic valid).names.trans genuine.names.symm)
      (genuine.named.distinct valid) (genuine.named.valid valid)
    simpa using loaded
  · obtain ⟨entry, found⟩ : ∃ entry, entries[i]? = some entry :=
      ⟨_, List.getElem?_eq_getElem (by omega)⟩
    rw [holds i entry found] at named ⊢
    exact genuine.stamp entry (List.mem_of_getElem? found) named

theorem settings_survive (mallocs : Nat → Bool) (region : Region) (magic version : UInt16)
    (defaults : List ConfigEntry) (flash : Flash) (puts : List Put)
    (granted : ∀ size, mallocs size = true) (valid : ValidDefaults defaults)
    (fits : (defaults.length + 1) * entrySize ≤ region.size)
    (sane : Sane flash region.offset (defaults.length + 1) (combinedMagic magic version))
    (others : ∀ put ∈ puts, cstr put.key ≠ magicVersionKey) :
    ∃ error ctx after,
      settingsInit mallocs flash defaults region.offset region.size magic version = some (error, ctx) ∧
      settingsSave mallocs (some (putAll puts ctx)) flash = (0, after) ∧
      settingsInit mallocs after defaults region.offset region.size magic version =
        some (((defaults.length + 1 : Nat) : Int), putAll puts ctx) ∧
      (putAll puts ctx).entries.map ConfigEntry.name =
        magicVersionKey :: defaults.map ConfigEntry.name ∧
      (putAll puts ctx).entries = ctx.entries.map (fun entry => puts.foldl Put.rewrite entry) ∧
      (∀ entry ∈ ctx.entries, (∀ put ∈ puts, cstr put.key ≠ entry.name) →
        entry ∈ (putAll puts ctx).entries) ∧
      (∀ earlier put later type value, puts = earlier ++ put :: later → put.writes = some (type, value) →
        (∀ other ∈ later, other.writes = none ∨ cstr other.key ≠ cstr put.key) →
          ∀ entry ∈ (putAll puts ctx).entries, entry.name = cstr put.key →
            entry.dataType = type ∧ cstr entry.value = (cstr value).take (maxValueLength - 1)) ∧
      Sane after region.offset (defaults.length + 1) (combinedMagic magic version) := by
  have init := settingsInit_booted mallocs flash region magic version defaults granted valid fits
  have start : Genuine (combinedMagic magic version) defaults
      (booted flash region (combinedMagic magic version) defaults) := by
    unfold booted
    split
    next => exact defaults_genuine _ valid
    next found =>
      exact loadFlashEntries_genuine flash _ _ _ (defaults_genuine _ valid) (sane (not_not.mp found))
  obtain ⟨ctx, contextIs⟩ : ∃ ctx : Context, ctx = ⟨combinedMagic magic version,
      booted flash region (combinedMagic magic version) defaults, region.size, region.offset⟩ :=
    ⟨_, rfl⟩
  rw [← contextIs] at init
  have begins : Genuine (combinedMagic magic version) defaults ctx.entries := by
    rw [contextIs]
    exact start
  obtain ⟨written, -⟩ := putAll_named valid puts ctx begins.named
  have genuine := putAll_genuine valid puts others ctx begins
  have place : (putAll puts ctx).flashSettingsOffset = region.offset := by rw [written, contextIs]
  have size : (putAll puts ctx).flashSettingsSize = region.size := by rw [written, contextIs]
  have stamped : (putAll puts ctx).magic = combinedMagic magic version := by rw [written, contextIs]
  obtain ⟨after, saved, holds, -⟩ := settingsSave_holds mallocs (putAll puts ctx) flash granted
    (by rw [genuine.named.length, size]; exact fits)
  rw [place] at holds
  obtain ⟨stored, restored, saneAfter⟩ :=
    booted_holds after region _ defaults _ valid genuine fits holds
  refine ⟨_, ctx, after, init, saved, ?_, genuine.names, by rw [written], ?_, ?_, saneAfter⟩
  · rw [settingsInit_booted mallocs after region magic version defaults granted valid fits, restored,
      if_neg (not_not.mpr stored), genuine.named.length]
    congr 2
    rw [← stamped, ← place, ← size]
  · intro entry member untouched
    rw [written]
    exact List.mem_map.mpr ⟨entry, member, Put.rewrites_other entry puts fun put listed => .inr (untouched put listed)⟩
  · rintro earlier put later type value rfl writes last entry member named
    rw [written] at member
    obtain ⟨before, -, rfl⟩ := List.mem_map.mp member
    rw [Put.rewrites_name] at named
    exact Put.rewrites_own before earlier later put type value writes named last

def configRegion : Region := ⟨0x1E0000, 0x1000, by decide, by decide, by decide⟩

def textEntry (key value : Bytes) : ConfigEntry :=
  ⟨strncpy maxKeyLength key, typeString, valueArray value, strncpy_length _ _, valueArray_length _⟩

theorem settings_survive_first :
    ∃ error ctx after,
      settingsInit (fun _ => true) (fun _ => 0xFF) [textEntry (ascii "MODE") (ascii "ws"),
        textEntry (ascii "HOST_1") []] 0x1E0000 0x1000 0x1234 1 = some (error, ctx) ∧
      settingsSave (fun _ => true)
        (some (putAll [.string (ascii "HOST_1") (some (ascii "ring.local"))] ctx)) (fun _ => 0xFF) =
          (0, after) ∧
      settingsInit (fun _ => true) after [textEntry (ascii "MODE") (ascii "ws"),
        textEntry (ascii "HOST_1") []] 0x1E0000 0x1000 0x1234 1 =
          some (3, putAll [.string (ascii "HOST_1") (some (ascii "ring.local"))] ctx) := by
  have valid : ValidDefaults [textEntry (ascii "MODE") (ascii "ws"),
      textEntry (ascii "HOST_1") []] := by
    refine ⟨fun entry member => ?_, by decide, by decide⟩
    rcases List.mem_cons.mp member with rfl | member
    · exact ⟨by decide, by decide, by decide⟩
    · obtain rfl := List.mem_singleton.mp member
      exact ⟨by decide, by decide, by decide⟩
  have blank : storedMagic (fun _ => 0xFF) 0x1E0000 ≠ combinedMagic 0x1234 1 := by decide +kernel
  obtain ⟨error, ctx, after, booted, saved, again, -⟩ :=
    settings_survive (fun _ => true) configRegion 0x1234 1 _ (fun _ => 0xFF)
      [.string (ascii "HOST_1") (some (ascii "ring.local"))] (fun _ => rfl) valid (by decide)
      (fun found => absurd found blank) (by decide)
  exact ⟨error, ctx, after, booted, saved, again⟩

end MidiToIp.Settings
