import Mathlib.Data.List.Lemmas

set_option autoImplicit false

namespace Dicts

variable {Key Value : Type}

def dictKeys (entries : List (Key × Value)) : List Key := entries.map Prod.fst

variable [DecidableEq Key]

def dictSet (key : Key) (value : Value) (entries : List (Key × Value)) : List (Key × Value) :=
  if key ∈ dictKeys entries then
    entries.map fun entry => if entry.1 = key then (key, value) else entry
  else entries ++ [(key, value)]

def dictPop (key : Key) (entries : List (Key × Value)) : List (Key × Value) :=
  entries.filter fun entry => entry.1 ≠ key

theorem dictKeys_set (key : Key) (value : Value) (entries : List (Key × Value)) :
    dictKeys (dictSet key value entries) =
      if key ∈ dictKeys entries then dictKeys entries else dictKeys entries ++ [key] := by
  unfold dictSet
  split
  · rw [dictKeys, List.map_map]
    apply List.map_congr_left
    intro entry _
    by_cases same : entry.1 = key <;> simp [same]
  · simp [dictKeys]

theorem dictKeys_pop (key : Key) (entries : List (Key × Value)) :
    dictKeys (dictPop key entries) = (dictKeys entries).filter fun other => other ≠ key := by
  simp [dictKeys, dictPop, List.filter_map, Function.comp_def]

theorem lookup_isSome (key : Key) (entries : List (Key × Value)) :
    (entries.lookup key).isSome ↔ key ∈ dictKeys entries := by
  rw [← not_iff_not, Option.not_isSome_iff_eq_none, List.lookup_eq_none_iff]
  simp only [dictKeys, List.mem_map, not_exists, not_and]
  exact ⟨fun all entry member same => by simpa [same] using all entry member,
    fun all entry member => by simpa using fun same => all entry member (Eq.symm same)⟩

theorem lookup_filter_ne (key other : Key) (entries : List (Key × Value)) :
    (entries.filter fun entry => entry.1 ≠ key).lookup other =
      if other = key then none else entries.lookup other := by
  induction entries with
  | nil => simp
  | cons entry rest ih =>
    obtain ⟨name, value⟩ := entry
    by_cases dropped : name = key
    · rw [List.filter_cons_of_neg (by simpa using dropped), ih]
      split
      next => rfl
      next different =>
        have skipped : (other == name) = false := by simp [dropped, different]
        simp [List.lookup_cons, skipped]
    · rw [List.filter_cons_of_pos (by simpa using dropped), List.lookup_cons, List.lookup_cons, ih]
      by_cases found : other = name
      · simp [found, dropped]
      · simp [beq_false_of_ne found]

theorem lookup_replace (key other : Key) (value : Value) (entries : List (Key × Value))
    (held : key ∈ dictKeys entries) :
    (entries.map fun entry => if entry.1 = key then (key, value) else entry).lookup other =
      if other = key then some value else entries.lookup other := by
  -- Behind the first entry of the key the rest may or may not have another.
  have kept (l : List (Key × Value)) (different : other ≠ key) :
      (l.map fun entry => if entry.1 = key then (key, value) else entry).lookup other =
        l.lookup other := by
    induction l with
    | nil => rfl
    | cons entry rest ih =>
      obtain ⟨name, old⟩ := entry
      by_cases named : name = key
      · simp [List.lookup_cons, named, beq_false_of_ne different, ih]
      · simp [List.lookup_cons, named, ih]
  by_cases different : other = key
  · subst different
    rw [if_pos rfl]
    induction entries with
    | nil => simp [dictKeys] at held
    | cons entry rest ih =>
      obtain ⟨name, old⟩ := entry
      by_cases named : name = other
      · simp [named]
      · have later : other ∈ dictKeys rest := by
          rcases List.mem_cons.mp held with first | later
          · exact absurd first.symm named
          · exact later
        simp [List.lookup_cons, named, beq_false_of_ne (Ne.symm named), ih later]
  · rw [if_neg different, kept entries different]

theorem lookup_set (key other : Key) (value : Value) (entries : List (Key × Value)) :
    (dictSet key value entries).lookup other =
      if other = key then some value else entries.lookup other := by
  unfold dictSet
  split
  next held => exact lookup_replace key other value entries held
  next absent =>
    rw [List.lookup_append]
    by_cases asked : other = key
    · have none_ : entries.lookup key = none := by
        rw [← Option.not_isSome_iff_eq_none, lookup_isSome]
        exact absent
      simp [asked, none_]
    · simp [List.lookup_cons, asked, beq_false_of_ne asked]

end Dicts
