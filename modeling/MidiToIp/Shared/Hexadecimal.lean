import Mathlib.Data.List.Basic
import MidiToIp.Shared.Bytes

set_option autoImplicit false

namespace Hexadecimal

open Octets

def upperDigit (n : Nat) : UInt8 := UInt8.ofNat (if n < 10 then 48 + n else 55 + n)
def lowerDigit (n : Nat) : UInt8 := UInt8.ofNat (if n < 10 then 48 + n else 87 + n)

def hexadecimal (digit : Nat → UInt8) : Nat → Nat → Bytes
  | 0, _ => []
  | width + 1, n => hexadecimal digit width (n / 16) ++ [digit (n % 16)]

def hexValue (b : UInt8) : Option Nat :=
  if 48 ≤ b.toNat ∧ b.toNat ≤ 57 then some (b.toNat - 48)
  else if 65 ≤ b.toNat ∧ b.toNat ≤ 70 then some (b.toNat - 55)
  else if 97 ≤ b.toNat ∧ b.toNat ≤ 102 then some (b.toNat - 87)
  else none

def hexRead (text : Bytes) : Option Nat :=
  text.foldlM (fun value b => (hexValue b).map (value * 16 + ·)) 0

theorem hexValue_upperDigit : ∀ n, n < 16 → hexValue (upperDigit n) = some n := by decide

theorem hexValue_lowerDigit : ∀ n, n < 16 → hexValue (lowerDigit n) = some n := by decide

theorem hexRead_concat (text : Bytes) (b : UInt8) :
    hexRead (text ++ [b]) = (hexRead text).bind fun value => (hexValue b).map (value * 16 + ·) := by
  simp only [hexRead, List.foldlM_append, List.foldlM_cons, List.foldlM_nil]
  simp

section Digits

variable (digit : Nat → UInt8)

@[simp] theorem hexadecimal_length (width n : Nat) : (hexadecimal digit width n).length = width := by
  induction width generalizing n with
  | zero => rfl
  | succ width ih => simp [hexadecimal, ih]

theorem hexRead_hexadecimal (reads : ∀ n, n < 16 → hexValue (digit n) = some n) (width n : Nat) :
    hexRead (hexadecimal digit width n) = some (n % 16 ^ width) := by
  induction width generalizing n with
  | zero => simp [hexadecimal, hexRead, Nat.mod_one]
  | succ width ih =>
    have split : n % 16 ^ (width + 1) = n / 16 % 16 ^ width * 16 + n % 16 := by
      rw [Nat.pow_succ, Nat.mul_comm, Nat.mod_mul]
      omega
    rw [hexadecimal, hexRead_concat, ih, reads _ (Nat.mod_lt _ (by decide)), split]
    rfl

theorem mem_hexadecimal (holds : UInt8 → Prop) (each : ∀ n, n < 16 → holds (digit n)) (width n : Nat) :
    ∀ b ∈ hexadecimal digit width n, holds b := by
  induction width generalizing n with
  | zero => simp [hexadecimal]
  | succ width ih =>
    intro b member
    rcases List.mem_append.mp member with front | last
    · exact ih (n / 16) b front
    · obtain rfl := List.mem_singleton.mp last
      exact each _ (Nat.mod_lt _ (by decide))

end Digits

end Hexadecimal
