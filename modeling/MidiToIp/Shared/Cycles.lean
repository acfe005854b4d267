import Mathlib.GroupTheory.Perm.Cycle.Concrete

set_option autoImplicit false

namespace Cycles

variable {Item : Type} [DecidableEq Item]

theorem formPerm_cons (removed : Item) (rest : List Item) (distinct : (removed :: rest).Nodup)
    (x : Item) (member : x ∈ rest) :
    rest.formPerm x =
      if (removed :: rest).formPerm x = removed then (removed :: rest).formPerm removed
      else (removed :: rest).formPerm x := by
  cases rest with
  | nil => simp at member
  | cons first others =>
    have absent : removed ∉ first :: others := (List.nodup_cons.mp distinct).1
    have stays : (first :: others).formPerm x ≠ removed := fun same =>
      absent (same ▸ List.formPerm_apply_mem_of_mem member)
    rw [List.formPerm_cons_cons, Equiv.Perm.mul_apply, Equiv.Perm.mul_apply,
      List.formPerm_apply_of_notMem absent, Equiv.swap_apply_left]
    by_cases closes : (first :: others).formPerm x = first
    · rw [closes, Equiv.swap_apply_right, if_pos rfl]
    · rw [Equiv.swap_apply_of_ne_of_ne stays closes, if_neg stays]

theorem formPerm_without (items : List Item) (distinct : items.Nodup) (removed : Item)
    (held : removed ∈ items) (x : Item) (member : x ∈ items) (other : x ≠ removed) :
    (items.filter fun item => item ≠ removed).formPerm x =
      if items.formPerm x = removed then items.formPerm removed else items.formPerm x := by
  obtain ⟨before, later, rfl⟩ := List.append_of_mem held
  have turned : (before ++ removed :: later) ~r (removed :: (later ++ before)) :=
    List.isRotated_append
  have distinctTurned : (removed :: (later ++ before)).Nodup := turned.nodup_iff.mp distinct
  have remaining : (before ++ removed :: later).filter (fun item => item ≠ removed) =
      before ++ later := by
    have absent : removed ∉ before ∧ removed ∉ later := by
      have gone := (List.nodup_cons.mp distinctTurned).1
      rw [List.mem_append, not_or] at gone
      exact gone.symm
    rw [List.filter_append, List.filter_cons_of_neg (by simp),
      List.filter_eq_self.mpr fun y held => by simpa using fun same : y = removed => absent.1 (same ▸ held),
      List.filter_eq_self.mpr fun y held => by simpa using fun same : y = removed => absent.2 (same ▸ held)]
  have distinctRest : (before ++ later).Nodup :=
    List.isRotated_append.nodup_iff.mpr (List.nodup_cons.mp distinctTurned).2
  have within : x ∈ later ++ before := by
    simp only [List.mem_append, List.mem_cons] at member ⊢
    tauto
  rw [remaining, List.formPerm_eq_of_isRotated distinctRest List.isRotated_append,
    List.formPerm_eq_of_isRotated distinct turned]
  exact formPerm_cons removed (later ++ before) distinctTurned x within

theorem formPerm_concat (items : List Item) (added : Item) (distinct : (items ++ [added]).Nodup)
    (some_ : items ≠ []) (x : Item) (member : x ∈ items) :
    (items ++ [added]).formPerm x =
      if x = items.getLast some_ then added else items.formPerm x := by
  have distinctBefore : items.Nodup := (List.nodup_append.mp distinct).1
  obtain ⟨i, inside, rfl⟩ := List.getElem_of_mem member
  have within : i < (items ++ [added]).length := by
    simp
    omega
  have later : (items ++ [added])[i] = items[i] := List.getElem_append_left inside
  have bigger := List.formPerm_apply_getElem (items ++ [added]) distinct i within
  rw [later] at bigger
  rw [bigger, List.formPerm_apply_getElem items distinctBefore, List.getLast_eq_getElem]
  simp only [List.Nodup.getElem_inj_iff distinctBefore]
  by_cases last : i = items.length - 1
  · have length : i + 1 = items.length := by omega
    rw [if_pos last]
    simp [length]
  · have further : i + 1 < items.length := by omega
    simp [last, Nat.mod_eq_of_lt further, Nat.mod_eq_of_lt (Nat.lt_succ_of_lt further), further]

theorem formPerm_concat_added (items : List Item) (added : Item)
    (distinct : (items ++ [added]).Nodup) (some_ : items ≠ []) :
    (items ++ [added]).formPerm added = items.head some_ := by
  have pos : 0 < items.length := List.length_pos_of_ne_nil some_
  have at_ := List.formPerm_apply_getElem (items ++ [added]) distinct items.length (by simp)
  simpa [List.head_eq_getElem, pos] using at_

end Cycles
