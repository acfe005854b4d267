import Mathlib.Data.List.Basic
import Mathlib.Data.List.Nodup
import MidiToIp.Shared.Bytes

set_option autoImplicit false

namespace Base64

open Octets

structure Alphabet where
  chars : Bytes
  pad : UInt8
  size : chars.length = 64
  distinct : chars.Nodup
  fresh : pad ∉ chars

namespace Alphabet

variable (alphabet : Alphabet)

def char (digit : Nat) : UInt8 := alphabet.chars.getD (digit % 64) 0

def digit (char : UInt8) : Nat := alphabet.chars.idxOf char

theorem digits_inside (digit : Nat) : digit % 64 < alphabet.chars.length := by
  rw [alphabet.size]
  omega

theorem char_eq (digit : Nat) :
    alphabet.char digit = alphabet.chars.get ⟨digit % 64, alphabet.digits_inside digit⟩ := by
  rw [char, List.getD_eq_getElem _ _ (alphabet.digits_inside digit), List.get_eq_getElem]

theorem digit_char (digit : Nat) : alphabet.digit (alphabet.char digit) = digit % 64 := by
  rw [char_eq, Alphabet.digit]
  exact alphabet.distinct.idxOf_getElem _ _

theorem char_ne_pad (digit : Nat) : alphabet.char digit ≠ alphabet.pad := by
  rw [char_eq]
  intro same
  exact alphabet.fresh (same ▸ List.getElem_mem _)

def encode : Bytes → Bytes
  | a :: b :: c :: rest =>
    let group := fromBigEndian [a, b, c]
    alphabet.char (group / 64 ^ 3) :: alphabet.char (group / 64 ^ 2) :: alphabet.char (group / 64) ::
      alphabet.char group :: encode rest
  | [a, b] =>
    let group := fromBigEndian [a, b] * 2 ^ 2
    [alphabet.char (group / 64 ^ 2), alphabet.char (group / 64), alphabet.char group, alphabet.pad]
  | [a] =>
    let group := fromBigEndian [a] * 2 ^ 4
    [alphabet.char (group / 64), alphabet.char group, alphabet.pad, alphabet.pad]
  | [] => []

def decode : Bytes → Bytes
  | c0 :: c1 :: c2 :: c3 :: rest =>
    let digits := alphabet.digit c0 * 64 + alphabet.digit c1
    if c2 = alphabet.pad then [UInt8.ofNat (digits / 2 ^ 4)]
    else if c3 = alphabet.pad then bigEndian 2 ((digits * 64 + alphabet.digit c2) / 2 ^ 2)
    else bigEndian 3 ((digits * 64 + alphabet.digit c2) * 64 + alphabet.digit c3) ++ decode rest
  | _ => []

theorem encode_length (bytes : Bytes) :
    (alphabet.encode bytes).length = 4 * ((bytes.length + 2) / 3) := by
  induction bytes using encode.induct with
  | case1 a b c rest ih =>
    simp only [encode, List.length_cons, ih]
    omega
  | case2 a b => simp [encode]
  | case3 a => simp [encode]
  | case4 => rfl

theorem decode_encode (bytes : Bytes) : alphabet.decode (alphabet.encode bytes) = bytes := by
  induction bytes using encode.induct with
  | case1 a b c rest ih =>
    have group := fromBigEndian_lt [a, b, c]
    have back := bigEndian_fromBigEndian [a, b, c]
    simp only [List.length_cons, List.length_nil] at group back
    have digits : ((fromBigEndian [a, b, c] / 64 ^ 3 % 64 * 64 + fromBigEndian [a, b, c] / 64 ^ 2 % 64) *
        64 + fromBigEndian [a, b, c] / 64 % 64) * 64 + fromBigEndian [a, b, c] % 64 =
          fromBigEndian [a, b, c] := by omega
    simp only [encode, decode, alphabet.char_ne_pad, if_false, digit_char, ih, digits, back]
    rfl
  | case2 a b =>
    have group := fromBigEndian_lt [a, b]
    have back := bigEndian_fromBigEndian [a, b]
    simp only [List.length_cons, List.length_nil] at group back
    have digits : ((fromBigEndian [a, b] * 2 ^ 2 / 64 ^ 2 % 64 * 64 +
        fromBigEndian [a, b] * 2 ^ 2 / 64 % 64) * 64 + fromBigEndian [a, b] * 2 ^ 2 % 64) / 2 ^ 2 =
          fromBigEndian [a, b] := by omega
    simp only [encode, decode, alphabet.char_ne_pad, if_false, if_true, digit_char, digits, back]
  | case3 a =>
    have group := fromBigEndian_lt [a]
    have back := bigEndian_fromBigEndian [a]
    simp only [List.length_cons, List.length_nil] at group back
    have digits : (fromBigEndian [a] * 2 ^ 4 / 64 % 64 * 64 + fromBigEndian [a] * 2 ^ 4 % 64) / 2 ^ 4 =
        fromBigEndian [a] := by omega
    simp only [encode, decode, if_true, digit_char, digits]
    exact back
  | case4 => rfl

theorem encode_injective : Function.Injective alphabet.encode :=
  Function.LeftInverse.injective alphabet.decode_encode

end Alphabet

def standard : Alphabet where
  chars := ascii "ABCDEFGHIJKLMNOPQRSTUVWXYZabcdefghijklmnopqrstuvwxyz0123456789+/"
  pad := 0x3D
  size := by decide
  distinct := by decide
  fresh := by decide

theorem standard_visible (bytes : Bytes) :
    (standard.encode bytes).all (fun b => 33 ≤ b.toNat ∧ b.toNat < 127) = true := by
  have chars : (standard.chars ++ [standard.pad]).all
      (fun b => 33 ≤ b.toNat ∧ b.toNat < 127) = true := by decide
  have each (b : UInt8) (member : b ∈ standard.chars ++ [standard.pad]) :
      33 ≤ b.toNat ∧ b.toNat < 127 := of_decide_eq_true (List.all_eq_true.mp chars b member)
  have char (digit : Nat) : 33 ≤ (standard.char digit).toNat ∧ (standard.char digit).toNat < 127 := by
    apply each
    rw [Alphabet.char_eq]
    exact List.mem_append_left _ (List.get_mem ..)
  have pad := each standard.pad (List.mem_append_right _ (List.mem_singleton_self _))
  induction bytes using Alphabet.encode.induct with
  | case1 a b c rest ih => simpa [Alphabet.encode, char] using ih
  | case2 a b => simp [Alphabet.encode, char, pad]
  | case3 a => simp [Alphabet.encode, char, pad]
  | case4 => rfl

end Base64
