import Mathlib.Data.List.TakeWhile
import MidiToIp.Shared.Bytes

set_option autoImplicit false

namespace CString

open Octets

def cstr (memory : Bytes) : Bytes := memory.takeWhile fun b => b ≠ 0

def strncpy (n : Nat) (source : Bytes) : Bytes :=
  (cstr source).take n ++ List.replicate (n - (cstr source).length) 0

def strnSame (n : Nat) (a b : Bytes) : Bool := (cstr a).take n = (cstr b).take n

def isupper (b : UInt8) : Bool := 65 ≤ b.toNat ∧ b.toNat ≤ 90
def isdigit (b : UInt8) : Bool := 48 ≤ b.toNat ∧ b.toNat ≤ 57
def isspace (b : UInt8) : Bool := b.toNat = 32 ∨ (9 ≤ b.toNat ∧ b.toNat ≤ 13)

def digits : Nat → Nat → Bytes
  | 0, _ => []
  | fuel + 1, n =>
    if n < 10 then [UInt8.ofNat (48 + n)] else digits fuel (n / 10) ++ [UInt8.ofNat (48 + n % 10)]

def decimal (n : Nat) : Bytes := digits (n + 1) n

def signed (n : Int) : Bytes := if n < 0 then 45 :: decimal n.natAbs else decimal n.natAbs

def digitValue (value : Nat) (b : UInt8) : Nat := value * 10 + (b.toNat - 48)

def sign : Bytes → Bool × Bytes
  | [] => (false, [])
  | b :: rest =>
    if b = 43 then (false, rest) else if b = 45 then (true, rest) else (false, b :: rest)

def strtoul (text : Bytes) : Nat :=
  let (negative, text) := sign ((cstr text).dropWhile isspace)
  let value := (text.takeWhile isdigit).foldl digitValue 0
  if 2 ^ 32 ≤ value then 2 ^ 32 - 1
  else if negative then (2 ^ 32 - value) % 2 ^ 32
  else value

-- `strtol` in base 10 for a `long` of 32 bits, and what is left of the string behind the number.
def strtol (text : Bytes) : Int × Bytes :=
  let (negative, number) := sign ((cstr text).dropWhile isspace)
  let value := (number.takeWhile isdigit).foldl digitValue 0
  let signedValue : Int := if negative then -(value : Int) else value
  if number.takeWhile isdigit = [] then (0, cstr text)
  else
    (max (-2 ^ 31) (min (2 ^ 31 - 1) signedValue), number.dropWhile isdigit)

@[simp] theorem strncpy_length (n : Nat) (source : Bytes) : (strncpy n source).length = n := by
  simp [strncpy]
  omega

theorem takeWhile_append_stop {α : Type} (p : α → Bool) (before after : List α) (stop : α)
    (all : ∀ x ∈ before, p x = true) (stops : p stop = false) :
    (before ++ stop :: after).takeWhile p = before := by
  induction before with
  | nil => simp [stops]
  | cons x rest ih =>
    simp [all x List.mem_cons_self, ih fun y member => all y (List.mem_cons_of_mem _ member)]

theorem cstr_nonzero (memory : Bytes) : ∀ b ∈ cstr memory, b ≠ 0 := by
  intro b member
  simpa using List.mem_takeWhile_imp member

theorem cstr_append_nul (text after : Bytes) (nonzero : ∀ b ∈ text, b ≠ 0) :
    cstr (text ++ 0 :: after) = text :=
  takeWhile_append_stop _ text after 0 (by simpa using nonzero) (by simp)

theorem cstr_self (text : Bytes) (nonzero : ∀ b ∈ text, b ≠ 0) : cstr text = text := by
  rw [cstr, List.takeWhile_eq_self_iff]
  simpa using nonzero

theorem cstr_cstr (memory : Bytes) : cstr (cstr memory) = cstr memory :=
  cstr_self _ (cstr_nonzero memory)

theorem cstr_append (memory after : Bytes) (ends : (cstr memory).length < memory.length) :
    cstr (memory ++ after) = cstr memory := by
  unfold cstr at ends ⊢
  rw [List.takeWhile_append]
  split
  next whole => omega
  next => rfl

theorem cstr_strncpy (n : Nat) (source : Bytes) :
    cstr (strncpy n source ++ [0]) = (cstr source).take n := by
  have nonzero : ∀ b ∈ (cstr source).take n, b ≠ 0 := fun b member =>
    cstr_nonzero source b (List.mem_of_mem_take member)
  unfold strncpy
  rw [List.append_assoc]
  cases n - (cstr source).length with
  | zero => exact cstr_append_nul _ [] nonzero
  | succ more =>
    rw [List.replicate_succ, List.cons_append]
    exact cstr_append_nul _ _ nonzero

theorem strncpy_strncpy (n : Nat) (source : Bytes) :
    strncpy n (strncpy n source ++ [0]) = strncpy n source := by
  have same := cstr_strncpy n source
  rw [strncpy, same, strncpy, List.take_take, Nat.min_self, List.length_take]
  congr 2
  omega

theorem digits_isdigit (fuel n : Nat) : ∀ b ∈ digits fuel n, isdigit b = true := by
  induction fuel generalizing n with
  | zero => simp [digits]
  | succ fuel ih =>
    have one (d : Nat) (small : d < 10) : isdigit (UInt8.ofNat (48 + d)) = true := by
      have value : (UInt8.ofNat (48 + d)).toNat = 48 + d := by
        rw [UInt8.toNat_ofNat']
        omega
      simp only [isdigit, value, decide_eq_true_eq]
      omega
    unfold digits
    split
    next small => simpa using one n small
    next =>
      intro b member
      rcases List.mem_append.mp member with front | last
      · exact ih (n / 10) b front
      · obtain rfl := List.mem_singleton.mp last
        exact one (n % 10) (Nat.mod_lt _ (by decide))

theorem digits_value (fuel n : Nat) (enough : n < fuel) : (digits fuel n).foldl digitValue 0 = n := by
  induction fuel generalizing n with
  | zero => omega
  | succ fuel ih =>
    have one (value d : Nat) (small : d < 10) :
        digitValue value (UInt8.ofNat (48 + d)) = value * 10 + d := by
      rw [digitValue, UInt8.toNat_ofNat']
      omega
    unfold digits
    split
    next small => simpa using one 0 n small
    next large =>
      rw [List.foldl_append, ih (n / 10) (by omega), List.foldl_cons, List.foldl_nil,
        one _ _ (Nat.mod_lt _ (by decide))]
      omega

theorem digits_ne_nil (fuel n : Nat) : digits (fuel + 1) n ≠ [] := by
  unfold digits
  split <;> simp

theorem digits_length (fuel n k : Nat) (fits : n < 10 ^ (k + 1)) : (digits fuel n).length ≤ k + 1 := by
  induction fuel generalizing n k with
  | zero => simp [digits]
  | succ fuel ih =>
    unfold digits
    split
    next => simp
    next large =>
      cases k with
      | zero => simp at fits; omega
      | succ k =>
        have front : n / 10 < 10 ^ (k + 1) := by
          rw [Nat.pow_succ] at fits
          omega
        have shorter := ih (n / 10) k front
        simp
        omega

theorem decimal_isdigit (n : Nat) : ∀ b ∈ decimal n, isdigit b = true := digits_isdigit (n + 1) n

theorem decimal_nonzero (n : Nat) : ∀ b ∈ decimal n, b ≠ 0 := by
  intro b member
  have digit := decimal_isdigit n b member
  rintro rfl
  simp [isdigit] at digit

theorem strtoul_decimal (n : Nat) (fits : n < 2 ^ 32) : strtoul (decimal n) = n := by
  have all := decimal_isdigit n
  have value : (decimal n).foldl digitValue 0 = n := digits_value (n + 1) n (Nat.lt_succ_self n)
  unfold strtoul
  rw [cstr_self _ (decimal_nonzero n)]
  cases text : decimal n with
  | nil => exact absurd text (digits_ne_nil n n)
  | cons first rest =>
    rw [text] at all value
    have digit := all first List.mem_cons_self
    have range : 48 ≤ first.toNat ∧ first.toNat ≤ 57 := by simpa [isdigit] using digit
    have solid : isspace first = false := by
      simp only [isspace, decide_eq_false_iff_not]
      omega
    have plus : first ≠ 43 := by
      rintro rfl
      simp at range
    have minus : first ≠ 45 := by
      rintro rfl
      simp at range
    have whole : (first :: rest).takeWhile isdigit = first :: rest :=
      List.takeWhile_eq_self_iff.mpr all
    have unsigned : sign (first :: rest) = (false, first :: rest) := by
      rw [sign, if_neg plus, if_neg minus]
    rw [List.dropWhile_cons_of_neg (by simp [solid]), unsigned]
    simp only [whole, value, Bool.false_eq_true, if_false]
    rw [if_neg (by omega)]

def padded (n : Nat) (text : Bytes) : Bytes := text ++ List.replicate (n - text.length) 0

theorem padded_push (n : Nat) (text : Bytes) (chr : UInt8) (room : text.length < n) :
    (padded n text).set text.length chr = padded n (text ++ [chr]) := by
  obtain ⟨more, rfl⟩ : ∃ more, n = text.length + (more + 1) := ⟨n - text.length - 1, by omega⟩
  have rest : text.length + (more + 1) - (text ++ [chr]).length = more := by
    rw [List.length_append, List.length_singleton]
    omega
  simp only [padded, rest, Nat.add_sub_cancel_left, List.replicate_succ]
  simp

theorem padded_pop (n : Nat) (text : Bytes) (room : text.length ≤ n) (some_ : text ≠ []) :
    (padded n text).set (text.length - 1) 0 = padded n text.dropLast := by
  obtain ⟨front, last, rfl⟩ : ∃ front last, text = front ++ [last] :=
    ⟨text.dropLast, text.getLast some_, (List.dropLast_append_getLast some_).symm⟩
  rw [List.length_append, List.length_singleton] at room
  obtain ⟨more, rfl⟩ : ∃ more, n = front.length + (more + 1) := ⟨n - front.length - 1, by omega⟩
  simp only [padded, List.length_append, List.length_singleton, List.dropLast_concat,
    Nat.add_sub_cancel_left, List.replicate_succ, List.append_assoc, List.singleton_append]
  simp [Nat.add_sub_add_left]

theorem cstr_padded (n : Nat) (text : Bytes) (room : text.length < n) :
    cstr (padded n text) = cstr text := by
  obtain ⟨more, rfl⟩ : ∃ more, n = text.length + (more + 1) := ⟨n - text.length - 1, by omega⟩
  rw [padded, Nat.add_sub_cancel_left, List.replicate_succ]
  unfold cstr
  rw [List.takeWhile_append]
  split
  next whole =>
    have all := (List.takeWhile_prefix fun b : UInt8 => b ≠ 0).eq_of_length whole
    rw [all, List.takeWhile_cons_of_neg (by simp), List.append_nil]
  next => rfl

end CString
