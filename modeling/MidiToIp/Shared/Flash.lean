import Mathlib.Data.List.Basic
import MidiToIp.Shared.Bytes

set_option autoImplicit false

namespace NorFlash

open Octets

abbrev Flash := Nat → UInt8

namespace Flash

def read (address length : Nat) (flash : Flash) : Bytes :=
  (List.range length).map fun i => flash (address + i)

def erase (address length : Nat) (flash : Flash) : Flash :=
  fun a => if address ≤ a ∧ a < address + length then 0xFF else flash a

def program (address : Nat) (data : Bytes) (flash : Flash) : Flash :=
  fun a => if address ≤ a ∧ a < address + data.length then flash a &&& data.getD (a - address) 0
    else flash a

@[simp] theorem read_length (address length : Nat) (flash : Flash) :
    (flash.read address length).length = length := by
  simp [read]

theorem read_program_erase (flash : Flash) (address length : Nat) (data : Bytes) (i count : Nat)
    (fits : data.length ≤ length) (within : i + count ≤ data.length) :
    ((flash.erase address length).program address data).read (address + i) count =
      (data.drop i).take count := by
  apply List.ext_getElem
  · simp
    omega
  · intro n left right
    rw [read_length] at left
    have place : address + i + n - address = i + n := by omega
    have inside : i + n < data.length := by omega
    have erased : address ≤ address + i + n ∧ address + i + n < address + length := by omega
    have programmed : address ≤ address + i + n ∧ address + i + n < address + data.length := by omega
    have kept (b : UInt8) : 0xFF &&& b = b := UInt8.neg_one_and
    simp [read, program, erase, programmed, erased, place, inside, kept]

theorem program_erase_outside (flash : Flash) (address length : Nat) (data : Bytes) (a : Nat)
    (fits : data.length ≤ length) (outside : a < address ∨ address + length ≤ a) :
    (flash.erase address length).program address data a = flash a := by
  have notErased : ¬ (address ≤ a ∧ a < address + length) := by omega
  have notProgrammed : ¬ (address ≤ a ∧ a < address + data.length) := by omega
  rw [program, if_neg notProgrammed, erase, if_neg notErased]

theorem program_erase_inside (flash : Flash) (address length : Nat) (data : Bytes) (a : Nat)
    (inside : address ≤ a ∧ a < address + length) :
    (flash.erase address length).program address data a = data.getD (a - address) 0xFF := by
  have kept (b : UInt8) : 0xFF &&& b = b := UInt8.neg_one_and
  by_cases written : address ≤ a ∧ a < address + data.length
  · have within : a - address < data.length := by omega
    rw [program, if_pos written, erase, if_pos inside, kept]
    simp [within]
  · have beyond : data.length ≤ a - address := by omega
    rw [program, if_neg written, erase, if_pos inside]
    simp [beyond]

end Flash

end NorFlash
