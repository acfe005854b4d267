import Mathlib.Data.List.Basic
import Mathlib.Data.Nat.Bitwise

set_option autoImplicit false

-- One cell always stays free, so equal indices mean empty.

namespace Rings

-- An index is masked, not reduced; for a power of two that is the same.
def wrap (bits i : Nat) : Nat := i &&& (2 ^ bits - 1)

theorem wrap_lt (bits i : Nat) : wrap bits i < 2 ^ bits := by
  rw [wrap, Nat.and_two_pow_sub_one_eq_mod]
  exact Nat.mod_lt _ (Nat.two_pow_pos bits)

theorem wrap_of_lt (bits i : Nat) (within : i < 2 ^ bits) : wrap bits i = i := by
  rw [wrap, Nat.and_two_pow_sub_one_eq_mod, Nat.mod_eq_of_lt within]

theorem wrap_of_le (bits i : Nat) (beyond : 2 ^ bits ≤ i) : wrap bits i = wrap bits (i - 2 ^ bits) := by
  rw [wrap, wrap, Nat.and_two_pow_sub_one_eq_mod, Nat.and_two_pow_sub_one_eq_mod,
    Nat.mod_eq_sub_mod beyond]

theorem wrap_cases (bits i : Nat) (within : i < 2 * 2 ^ bits) :
    i < 2 ^ bits ∧ wrap bits i = i ∨ 2 ^ bits ≤ i ∧ wrap bits i = i - 2 ^ bits := by
  rcases Nat.lt_or_ge i (2 ^ bits) with below | beyond
  · exact .inl ⟨below, wrap_of_lt bits i below⟩
  · refine .inr ⟨beyond, ?_⟩
    rw [wrap_of_le bits i beyond, wrap_of_lt bits _ (by omega)]

structure Ring (Cell : Type) (bits : Nat) where
  cells : Nat → Cell
  head : Nat
  tail : Nat
  headBound : head < 2 ^ bits
  tailBound : tail < 2 ^ bits

namespace Ring

variable {Cell : Type} {bits : Nat} (ring : Ring Cell bits)

def init (blank : Cell) : Ring Cell bits :=
  ⟨fun _ => blank, 0, 0, Nat.two_pow_pos bits, Nat.two_pow_pos bits⟩

def depth : Nat := wrap bits (ring.head + 2 ^ bits - ring.tail)

def isEmpty : Bool := ring.head == ring.tail

def isFull : Bool := wrap bits (ring.head + 1) == ring.tail

def push (cell : Cell) : Ring Cell bits :=
  if ring.isFull then ring
  else
    { ring with
      cells := fun i => if i = ring.head then cell else ring.cells i
      head := wrap bits (ring.head + 1)
      headBound := wrap_lt bits _ }

def drop (n : Nat) : Ring Cell bits :=
  { ring with tail := wrap bits (ring.tail + n), tailBound := wrap_lt bits _ }

def pop : Ring Cell bits := if ring.isEmpty then ring else ring.drop 1

def flush : Ring Cell bits := { ring with tail := ring.head, tailBound := ring.headBound }

def front : Option Cell := if ring.depth ≠ 0 then some (ring.cells ring.tail) else none

def contiguous : Nat :=
  if ring.head > ring.tail then ring.head - ring.tail else 2 ^ bits - ring.tail

def run (n : Nat) : List Cell := (List.range n).map fun i => ring.cells (ring.tail + i)

def contents : List Cell :=
  (List.range ring.depth).map fun i => ring.cells (wrap bits (ring.tail + i))

theorem depth_cases :
    ring.tail ≤ ring.head ∧ ring.depth = ring.head - ring.tail ∨
      ring.head < ring.tail ∧ ring.depth = ring.head + 2 ^ bits - ring.tail := by
  have headBound := ring.headBound
  have tailBound := ring.tailBound
  unfold depth
  rcases wrap_cases bits (ring.head + 2 ^ bits - ring.tail) (by omega) with ⟨_, eq⟩ | ⟨_, eq⟩ <;>
    rw [eq] <;> omega

theorem depth_lt : ring.depth < 2 ^ bits := wrap_lt bits _

@[simp] theorem contents_length : ring.contents.length = ring.depth := by simp [contents]

theorem isEmpty_iff : ring.isEmpty = true ↔ ring.depth = 0 := by
  have headBound := ring.headBound
  have tailBound := ring.tailBound
  have cases_ := ring.depth_cases
  rw [isEmpty, beq_iff_eq]
  omega

theorem isFull_iff : ring.isFull = true ↔ ring.depth + 1 = 2 ^ bits := by
  have headBound := ring.headBound
  have tailBound := ring.tailBound
  have cases_ := ring.depth_cases
  rw [isFull, beq_iff_eq]
  rcases wrap_cases bits (ring.head + 1) (by omega) with ⟨_, eq⟩ | ⟨_, eq⟩ <;> rw [eq] <;> omega

@[simp] theorem contents_init (blank : Cell) : (init blank : Ring Cell bits).contents = [] := by
  apply List.length_eq_zero_iff.mp
  rw [contents_length, ← isEmpty_iff]
  simp [isEmpty, init]

@[simp] theorem contents_flush : ring.flush.contents = [] := by
  apply List.length_eq_zero_iff.mp
  rw [contents_length, ← isEmpty_iff]
  simp [isEmpty, flush]

theorem contents_eq_nil_iff : ring.contents = [] ↔ ring.isEmpty = true := by
  rw [isEmpty_iff, ← contents_length, List.length_eq_zero_iff]

theorem push_of_isFull (cell : Cell) (full : ring.isFull = true) : ring.push cell = ring := by
  simp [push, full]

theorem depth_push (cell : Cell) (room : ring.isFull = false) :
    (ring.push cell).depth = ring.depth + 1 := by
  have headBound := ring.headBound
  have tailBound := ring.tailBound
  have before := ring.depth_cases
  have after := (ring.push cell).depth_cases
  have open_ : ¬ ring.depth + 1 = 2 ^ bits := by rw [← isFull_iff, room]; simp
  simp only [push, room, Bool.false_eq_true, if_false] at after ⊢
  rcases wrap_cases bits (ring.head + 1) (by omega) with ⟨_, eq⟩ | ⟨_, eq⟩ <;> omega

theorem contents_push (cell : Cell) (room : ring.isFull = false) :
    (ring.push cell).contents = ring.contents ++ [cell] := by
  have headBound := ring.headBound
  have tailBound := ring.tailBound
  have before := ring.depth_cases
  have open_ : ¬ ring.depth + 1 = 2 ^ bits := by rw [← isFull_iff, room]; simp
  -- the cell that is written lies right behind the contents
  have atHead : wrap bits (ring.tail + ring.depth) = ring.head := by
    rcases wrap_cases bits (ring.tail + ring.depth) (by omega) with ⟨_, eq⟩ | ⟨_, eq⟩ <;> omega
  have elsewhere (i : Nat) (within : i < ring.depth) : wrap bits (ring.tail + i) ≠ ring.head := by
    rcases wrap_cases bits (ring.tail + i) (by omega) with ⟨_, eq⟩ | ⟨_, eq⟩ <;> omega
  unfold contents
  rw [depth_push ring cell room, List.range_succ, List.map_append]
  simp only [push, room, Bool.false_eq_true, if_false, List.map_cons, List.map_nil, atHead, if_true]
  congr 1
  apply List.map_congr_left
  intro i member
  simp [elsewhere i (List.mem_range.mp member)]

theorem contents_drop (n : Nat) (within : n ≤ ring.depth) :
    (ring.drop n).contents = ring.contents.drop n := by
  have headBound := ring.headBound
  have tailBound := ring.tailBound
  have before := ring.depth_cases
  have after := (ring.drop n).depth_cases
  have fewer : (ring.drop n).depth = ring.depth - n := by
    simp only [drop] at after ⊢
    rcases wrap_cases bits (ring.tail + n) (by omega) with ⟨_, eq⟩ | ⟨_, eq⟩ <;> omega
  apply List.ext_getElem
  · simp [fewer]
  · intro i _ short
    simp only [List.length_drop, contents_length] at short
    have same : wrap bits (wrap bits (ring.tail + n) + i) = wrap bits (ring.tail + (n + i)) := by
      rcases wrap_cases bits (ring.tail + n) (by omega) with ⟨_, eq⟩ | ⟨beyond, eq⟩
      · rw [eq, Nat.add_assoc]
      · rw [eq, wrap_of_le bits (ring.tail + (n + i)) (by omega)]
        congr 1
        omega
    simp [contents, drop, same]

theorem contents_pop : ring.pop.contents = ring.contents.tail := by
  unfold pop
  cases empty : ring.isEmpty with
  | true => simp [(contents_eq_nil_iff ring).mpr empty]
  | false =>
    have some_ : ring.depth ≠ 0 := by
      intro none
      rw [← isEmpty_iff, empty] at none
      simp at none
    simp only [Bool.false_eq_true, if_false]
    rw [contents_drop ring 1 (by omega), List.drop_one]

theorem contents_head? : ring.contents.head? = ring.front := by
  unfold front contents
  cases count : ring.depth with
  | zero => simp
  | succ n => simp [List.range_succ_eq_map, wrap_of_lt bits _ ring.tailBound]

theorem contiguous_le : ring.isEmpty = false → ring.contiguous ≤ ring.depth ∧ 0 < ring.contiguous := by
  intro some_
  have headBound := ring.headBound
  have tailBound := ring.tailBound
  have cases_ := ring.depth_cases
  simp only [isEmpty, beq_eq_false_iff_ne] at some_
  unfold contiguous
  split <;> omega

theorem run_eq_take (n : Nat) (some_ : ring.isEmpty = false) (within : n ≤ ring.contiguous) :
    ring.run n = ring.contents.take n := by
  have bound := ring.contiguous_le some_
  have tailBound := ring.tailBound
  have headBound := ring.headBound
  have straight (i : Nat) (small : i < n) : wrap bits (ring.tail + i) = ring.tail + i := by
    apply wrap_of_lt
    unfold contiguous at within
    split at within <;> omega
  apply List.ext_getElem
  · simp [run]
    omega
  · intro i small _
    simp only [run, List.length_map, List.length_range] at small
    simp [run, contents, straight i small]

end Ring

end Rings
