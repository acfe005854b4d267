import Mathlib.Data.List.Basic
import Mathlib.Data.List.Induction
import Mathlib.Data.Nat.Bitwise
import Mathlib.Tactic.Ring

set_option autoImplicit false

namespace Octets

abbrev Bytes := List UInt8

def ascii (text : String) : Bytes := text.toList.map fun c => UInt8.ofNat c.toNat

def bigEndian : Nat → Nat → Bytes
  | 0, _ => []
  | width + 1, value => bigEndian width (value / 256) ++ [UInt8.ofNat value]

def accumulate (value : Nat) (byte : UInt8) : Nat := value * 256 + byte.toNat

def fromBigEndian (bytes : Bytes) : Nat := bytes.foldl accumulate 0

@[simp] theorem bigEndian_length (width value : Nat) : (bigEndian width value).length = width := by
  induction width generalizing value with
  | zero => rfl
  | succ width ih => simp [bigEndian, ih]

theorem accumulate_bigEndian (width value start : Nat) :
    (bigEndian width value).foldl accumulate start =
      start * 256 ^ width + value % 256 ^ width := by
  induction width generalizing value with
  | zero => simp [bigEndian, Nat.mod_one]
  | succ width ih =>
    have split : value % 256 ^ (width + 1) = value / 256 % 256 ^ width * 256 + value % 256 := by
      rw [Nat.pow_succ, Nat.mul_comm, Nat.mod_mul]
      ring
    simp only [bigEndian, List.foldl_append, ih, List.foldl_cons, List.foldl_nil, accumulate]
    rw [split, UInt8.toNat_ofNat']
    ring

theorem fromBigEndian_bigEndian (width value : Nat) (fits : value < 256 ^ width) :
    fromBigEndian (bigEndian width value) = value := by
  rw [fromBigEndian, accumulate_bigEndian, Nat.mod_eq_of_lt fits]
  simp

theorem fromBigEndian_concat (bytes : Bytes) (byte : UInt8) :
    fromBigEndian (bytes ++ [byte]) = fromBigEndian bytes * 256 + byte.toNat := by
  simp [fromBigEndian, accumulate]

theorem fromBigEndian_lt (bytes : Bytes) : fromBigEndian bytes < 256 ^ bytes.length := by
  induction bytes using List.reverseRecOn with
  | nil => simp [fromBigEndian]
  | append_singleton bytes byte ih =>
    have small := byte.toNat_lt
    rw [fromBigEndian_concat, List.length_append, List.length_singleton, Nat.pow_succ]
    omega

theorem bigEndian_fromBigEndian (bytes : Bytes) :
    bigEndian bytes.length (fromBigEndian bytes) = bytes := by
  induction bytes using List.reverseRecOn with
  | nil => rfl
  | append_singleton bytes byte ih =>
    have small := byte.toNat_lt
    have high : (fromBigEndian bytes * 256 + byte.toNat) / 256 = fromBigEndian bytes := by omega
    have low : UInt8.ofNat (fromBigEndian bytes * 256 + byte.toNat) = byte := by
      apply UInt8.toNat_inj.mp
      rw [UInt8.toNat_ofNat']
      omega
    rw [fromBigEndian_concat, List.length_append, List.length_singleton, bigEndian, high, ih, low]

theorem take_take_append {Item : Type} (n : Nat) (first second : List Item) :
    (first.take n ++ second).take n = (first ++ second).take n := by
  rw [List.take_append, List.take_append, List.take_take, Nat.min_self, List.length_take]
  congr 2
  omega

end Octets
