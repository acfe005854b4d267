import Mathlib.Data.List.Basic
import MidiToIp.Shared.CString
import MidiToIp.Shared.Hexadecimal

set_option autoImplicit false

namespace JsonText

open Octets CString Hexadecimal

inductive Value where
  | null
  | bool (value : Bool)
  | int (value : Int)
  | str (text : String)
  | arr (items : List Value)
  | obj (fields : List (String × Value))

def units (c : Char) : List Nat :=
  if c.toNat < 0x10000 then [c.toNat]
  else [0xD800 + (c.toNat - 0x10000) / 0x400, 0xDC00 + (c.toNat - 0x10000) % 0x400]

def doubleQuote : UInt8 := 34
def backslash : UInt8 := 92

def shortEscapes : List (Nat × UInt8) :=
  [(34, 34), (92, 92), (10, 110), (13, 114), (9, 116), (12, 102), (8, 98)]

def escapeUnit (u : Nat) : Bytes :=
  match shortEscapes.lookup u with
  | some letter => [backslash, letter]
  | none =>
    if 32 ≤ u ∧ u < 127 then [UInt8.ofNat u] else backslash :: 117 :: hexadecimal lowerDigit 4 u

def escape (text : String) : Bytes := (text.toList.flatMap units).flatMap escapeUnit

def quoted (text : String) : Bytes := doubleQuote :: escape text ++ [doubleQuote]

def newline (indent : Option Nat) (level : Nat) : Bytes :=
  match indent with
  | none => []
  | some n => 10 :: List.replicate (n * level) 32

def separator (indent : Option Nat) (level : Nat) : Bytes :=
  if indent = none then ascii ", " else 44 :: newline indent level

def bracket (indent : Option Nat) (level : Nat) (opening closing : UInt8) (items : List Bytes) : Bytes :=
  if items = [] then [opening, closing]
  else
    opening :: newline indent (level + 1) ++ (separator indent (level + 1)).intercalate items ++
      newline indent level ++ [closing]

mutual

def dump (indent : Option Nat) (level : Nat) : Value → Bytes
  | .null => ascii "null"
  | .bool value => if value then ascii "true" else ascii "false"
  | .int value => signed value
  | .str text => quoted text
  | .arr items => bracket indent level 91 93 (dumpItems indent (level + 1) items)
  | .obj fields => bracket indent level 123 125 (dumpFields indent (level + 1) fields)

def dumpItems (indent : Option Nat) (level : Nat) : List Value → List Bytes
  | [] => []
  | item :: rest => dump indent level item :: dumpItems indent level rest

def dumpFields (indent : Option Nat) (level : Nat) : List (String × Value) → List Bytes
  | [] => []
  | field :: rest =>
    (quoted field.1 ++ ascii ": " ++ dump indent level field.2) :: dumpFields indent level rest

end

def dumps (indent : Option Nat) (value : Value) : Bytes := dump indent 0 value

def readUnit : Bytes → Option (Nat × Bytes)
  | b :: rest =>
    if b = doubleQuote then none
    else if b = backslash then
      match rest with
      | [] => none
      | letter :: rest =>
        if letter = 117 then (hexRead (rest.take 4)).map (·, rest.drop 4)
        else (shortEscapes.find? fun entry => entry.2 = letter).map fun entry => (entry.1, rest)
    else some (b.toNat, rest)
  | [] => none

theorem shortEscapes_read : ∀ entry ∈ shortEscapes,
    entry.2 ≠ 117 ∧ (shortEscapes.find? fun other => other.2 = entry.2) = some entry := by
  decide

theorem readUnit_escapeUnit (u : Nat) (small : u < 0x10000) (rest : Bytes) :
    readUnit (escapeUnit u ++ rest) = some (u, rest) := by
  unfold escapeUnit
  cases short : shortEscapes.lookup u with
  | some letter =>
    have member : (u, letter) ∈ shortEscapes := by
      obtain ⟨before, after, split, -⟩ := List.lookup_eq_some_iff.mp short
      simp [split]
    obtain ⟨notHex, found⟩ := shortEscapes_read _ member
    simp [readUnit, backslash, doubleQuote, notHex, found]
  | none =>
    by_cases printable : 32 ≤ u ∧ u < 127
    · have plain : ∀ n, n < 127 → shortEscapes.lookup n = none →
          UInt8.ofNat n ≠ doubleQuote ∧ UInt8.ofNat n ≠ backslash ∧ (UInt8.ofNat n).toNat = n := by
        decide
      obtain ⟨notQuote, notBackslash, value⟩ := plain u printable.2 short
      simp only [if_pos printable, List.singleton_append, readUnit, if_neg notQuote,
        if_neg notBackslash, value]
    · have digits : (hexadecimal lowerDigit 4 u).length = 4 := hexadecimal_length _ _ _
      have value : hexRead (hexadecimal lowerDigit 4 u) = some u := by
        rw [hexRead_hexadecimal _ hexValue_lowerDigit, Nat.mod_eq_of_lt (by simpa using small)]
      have taken : (hexadecimal lowerDigit 4 u ++ rest).take 4 = hexadecimal lowerDigit 4 u :=
        List.take_left' digits
      have dropped : (hexadecimal lowerDigit 4 u ++ rest).drop 4 = rest := List.drop_left' digits
      simp [readUnit, printable, backslash, doubleQuote, taken, dropped, value]

theorem toNat_valid (c : Char) : c.toNat < 0xD800 ∨ (0xDFFF < c.toNat ∧ c.toNat < 0x110000) := c.valid

theorem units_lt (c : Char) : ∀ u ∈ units c, u < 0x10000 := by
  have valid := toNat_valid c
  intro u member
  unfold units at member
  split at member
  next small =>
    obtain rfl := List.mem_singleton.mp member
    exact small
  next =>
    rcases List.mem_pair.mp member with high | low <;> omega

theorem units_append (c d : Char) (first second : List Nat) (same : units c ++ first = units d ++ second) :
    c = d ∧ first = second := by
  have validC := toNat_valid c
  have validD := toNat_valid d
  have ofNat : c.toNat = d.toNat → c = d := fun equal => Char.ext (UInt32.toNat_inj.mp equal)
  -- The first unit tells whether there is a second one.
  by_cases smallC : c.toNat < 0x10000 <;> by_cases smallD : d.toNat < 0x10000 <;>
    simp only [units, smallC, smallD, if_true, if_false, List.cons_append, List.nil_append,
      List.cons.injEq] at same
  · exact ⟨ofNat same.1, same.2⟩
  · omega
  · omega
  · exact ⟨ofNat (by omega), same.2.2⟩

theorem units_injective (first second : List Char) (same : first.flatMap units = second.flatMap units) :
    first = second := by
  have some_ : ∀ c, units c ≠ [] := fun c => by
    unfold units
    split <;> simp
  induction first generalizing second with
  | nil =>
    cases second with
    | nil => rfl
    | cons d later => exact absurd (List.append_eq_nil_iff.mp same.symm).1 (some_ d)
  | cons c rest ih =>
    cases second with
    | nil => exact absurd (List.append_eq_nil_iff.mp same).1 (some_ c)
    | cons d later =>
      obtain ⟨rfl, tails⟩ := units_append c d _ _ same
      rw [ih later tails]

theorem escapeUnits_append (first second : List Nat) (after later : Bytes)
    (firstSmall : ∀ u ∈ first, u < 0x10000) (secondSmall : ∀ u ∈ second, u < 0x10000)
    (same : first.flatMap escapeUnit ++ doubleQuote :: after =
      second.flatMap escapeUnit ++ doubleQuote :: later) : first = second ∧ after = later := by
  induction first generalizing second with
  | nil =>
    cases second with
    | nil => exact ⟨rfl, (List.cons.inj same).2⟩
    | cons v rest =>
      have read := readUnit_escapeUnit v (secondSmall v List.mem_cons_self)
        (rest.flatMap escapeUnit ++ doubleQuote :: later)
      rw [List.flatMap_cons, List.append_assoc] at same
      rw [← same] at read
      simp [readUnit] at read
  | cons u tail ih =>
    have read := readUnit_escapeUnit u (firstSmall u List.mem_cons_self)
      (tail.flatMap escapeUnit ++ doubleQuote :: after)
    rw [List.flatMap_cons, List.append_assoc] at same
    cases second with
    | nil =>
      rw [same] at read
      simp [readUnit] at read
    | cons v rest =>
      rw [List.flatMap_cons, List.append_assoc] at same
      rw [same, readUnit_escapeUnit v (secondSmall v List.mem_cons_self)] at read
      obtain ⟨rfl, tails⟩ := Prod.mk.inj (Option.some.inj read)
      obtain ⟨rfl, ends⟩ := ih rest (fun u member => firstSmall u (List.mem_cons_of_mem _ member))
        (fun u member => secondSmall u (List.mem_cons_of_mem _ member)) tails.symm
      exact ⟨rfl, ends⟩

theorem quoted_append (text other : String) (after later : Bytes)
    (same : quoted text ++ after = quoted other ++ later) : text = other ∧ after = later := by
  have small : ∀ text : String, ∀ u ∈ text.toList.flatMap units, u < 0x10000 := by
    intro text u member
    obtain ⟨c, -, within⟩ := List.mem_flatMap.mp member
    exact units_lt c u within
  have inner : escape text ++ doubleQuote :: after = escape other ++ doubleQuote :: later := by
    simpa [quoted] using same
  obtain ⟨units, ends⟩ := escapeUnits_append _ _ after later (small text) (small other) inner
  exact ⟨String.toList_inj.mp (units_injective _ _ units), ends⟩

theorem intercalate_behind (sep : Bytes) (before : List Bytes) :
    ∃ start, ∀ item later, ∃ rest, sep.intercalate (before ++ item :: later) = start ++ (item ++ rest) := by
  induction before with
  | nil =>
    refine ⟨[], fun item later => ?_⟩
    cases later with
    | nil => exact ⟨[], by simp⟩
    | cons next later => exact ⟨sep ++ sep.intercalate (next :: later), by simp [List.intercalate_cons_cons]⟩
  | cons first before ih =>
    obtain ⟨start, behind⟩ := ih
    refine ⟨first ++ sep ++ start, fun item later => ?_⟩
    obtain ⟨rest, same⟩ := behind item later
    refine ⟨rest, ?_⟩
    cases before with
    | nil =>
      rw [List.cons_append, List.nil_append, List.intercalate_cons_cons]
      rw [List.nil_append] at same
      simp [same]
    | cons second before =>
      rw [List.cons_append, List.cons_append, List.intercalate_cons_cons]
      rw [List.cons_append] at same
      simp [same]

theorem dumpFields_append (indent : Option Nat) (level : Nat) (first second : List (String × Value)) :
    dumpFields indent level (first ++ second) = dumpFields indent level first ++ dumpFields indent level second := by
  induction first with
  | nil => rw [List.nil_append, dumpFields, List.nil_append]
  | cons field rest ih => rw [List.cons_append, dumpFields, dumpFields, ih, List.cons_append]

theorem field_injective (indent : Option Nat) (before after later : List (String × Value))
    (name text other : String)
    (same : dumps indent (.obj (before ++ (name, .str text) :: after)) =
      dumps indent (.obj (before ++ (name, .str other) :: later))) : text = other := by
  obtain ⟨start, behind⟩ := intercalate_behind (separator indent 1) (dumpFields indent 1 before)
  have dumped (text : String) (after : List (String × Value)) :
      ∃ rest, dumps indent (.obj (before ++ (name, .str text) :: after)) =
        123 :: newline indent 1 ++ start ++ quoted name ++ ascii ": " ++ (quoted text ++ rest) := by
    obtain ⟨rest, shown⟩ := behind (quoted name ++ ascii ": " ++ quoted text) (dumpFields indent 1 after)
    refine ⟨rest ++ newline indent 0 ++ [125], ?_⟩
    rw [dumps, dump, dumpFields_append, dumpFields, dump, bracket, if_neg (by simp), shown]
    simp
  obtain ⟨rest, first⟩ := dumped text after
  obtain ⟨rest', second⟩ := dumped other later
  rw [first, second] at same
  exact (quoted_append text other _ _ (List.append_cancel_left same)).1

end JsonText
