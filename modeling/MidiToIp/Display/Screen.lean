import Mathlib.Data.Nat.Bitwise
import Mathlib.Logic.Function.Iterate
import MidiToIp.Shared.Bytes

set_option autoImplicit false

namespace MidiToIp.Display

open Octets

abbrev Frame := Nat → UInt8

def displayBufferSize : Nat := 8000

-- Forty bytes a row, the leftmost pixel in the highest bit.
def Frame.pixel (frame : Frame) (x y : Nat) : Bool := (frame (40 * y + x / 8)).toNat.testBit (7 - x % 8)

def Frame.word (frame : Frame) (i : Nat) : UInt16 :=
  (frame (2 * i)).toUInt16 ||| (frame (2 * i + 1)).toUInt16 <<< 8

def termScreenSizeX : Nat := 40
def displayTermCharHeight : Nat := 8
def termDisplayRowBytes : Nat := 8 * termScreenSizeX

-- `termScrollupBuffer`, which leaves the last row of characters alone.
def termScrollupBuffer (blankBytes : Nat) (frame : Frame) : Frame := fun i =>
  let moved := displayBufferSize - blankBytes - termScreenSizeX * displayTermCharHeight
  if i < moved then frame (i + blankBytes)
  else if i < moved + blankBytes then 0
  else frame i

def rol8 (word : UInt16) : UInt16 := word <<< 8 ||| word >>> 8

abbrev Screen := Nat → UInt16

structure Copy where
  source : Nat := 0
  target : Nat := 0
  screen : Screen

def moveLong (high low : UInt16) (target : Nat) (screen : Screen) : Screen :=
  Function.update (Function.update screen target high) (target + 1) low

def copyScreenLow (frame : Frame) (c : Copy) : Copy :=
  let d1 := rol8 (frame.word c.source)
  { source := c.source + 1
    target := c.target + 4
    screen := moveLong d1 d1 (c.target + 2) (moveLong d1 d1 c.target c.screen) }

def printLow (frame : Frame) (screen : Screen) : Screen :=
  ((copyScreenLow frame)^[displayBufferSize / 2] { screen := screen }).screen

def bytesRowHigh : Nat := 80
def colsHigh : Nat := 20
def rowsHigh : Nat := 200

def copyScreenColHigh (frame : Frame) (transtable : UInt16 → UInt16) (c : Copy) : Copy :=
  let d2 := rol8 (frame.word c.source)
  -- The offset into the table, of two bytes an entry, is shifted by one less.
  let high := transtable ((d2 &&& 0xFF00) >>> 8)
  let low := transtable (d2 &&& 0x00FF)
  { source := c.source + 1
    target := c.target + 2
    screen := moveLong high low (c.target + bytesRowHigh / 2) (moveLong high low c.target c.screen) }

def copyScreenRowHigh (frame : Frame) (transtable : UInt16 → UInt16) (c : Copy) : Copy :=
  let copied := (copyScreenColHigh frame transtable)^[colsHigh] c
  { copied with target := copied.target + bytesRowHigh / 2 }

def printHigh (frame : Frame) (transtable : UInt16 → UInt16) (screen : Screen) : Screen :=
  ((copyScreenRowHigh frame transtable)^[rowsHigh] { screen := screen }).screen

def maskBit (i mask bit : Nat) : Nat := if i &&& (1 <<< bit) ≠ 0 then mask ||| (3 <<< (2 * bit)) else mask

def mask (i : Nat) : Nat := (List.range 8).foldl (maskBit i) 0

def transtable (i : UInt16) : UInt16 := UInt16.ofNat (mask i.toNat)

def Screen.pixelLow (screen : Screen) (x y plane : Nat) : Bool :=
  (screen (80 * y + 4 * (x / 16) + plane)).toNat.testBit (15 - x % 16)

def Screen.pixelHigh (screen : Screen) (x y : Nat) : Bool :=
  (screen (40 * y + x / 16)).toNat.testBit (15 - x % 16)

theorem rol8_bytes (first second : UInt8) :
    rol8 (first.toUInt16 ||| second.toUInt16 <<< 8) = first.toUInt16 <<< 8 ||| second.toUInt16 := by
  apply UInt16.toBitVec_inj.mp
  apply BitVec.eq_of_getLsbD_eq
  intro i inside
  simp only [rol8, UInt16.toBitVec_or, UInt16.toBitVec_shiftLeft, UInt16.toBitVec_shiftRight, BitVec.getLsbD_or,
    UInt8.toBitVec_toUInt16]
  simp [BitVec.getLsbD_setWidth]
  grind

theorem joined_toNat (first second : UInt8) :
    (first.toUInt16 <<< 8 ||| second.toUInt16).toNat = first.toNat * 256 + second.toNat := by
  have high : (first.toUInt16 <<< 8).toNat = first.toNat <<< 8 := by
    rw [UInt16.toNat_shiftLeft, UInt8.toNat_toUInt16, show (8 : UInt16).toNat % 16 = 8 from rfl]
    have small := first.toNat_lt
    exact Nat.mod_eq_of_lt (by rw [Nat.shiftLeft_eq]; omega)
  rw [UInt16.toNat_or, high, UInt8.toNat_toUInt16, ← Nat.shiftLeft_add_eq_or_of_lt second.toNat_lt, Nat.shiftLeft_eq]

theorem joined_high (first second : UInt8) :
    ((first.toUInt16 <<< 8 ||| second.toUInt16) &&& 0xFF00) >>> 8 = first.toUInt16 := by
  apply UInt16.toNat_inj.mp
  have small := second.toNat_lt
  have upper : (first.toNat * 256 + second.toNat) >>> 8 = first.toNat := by
    rw [Nat.shiftRight_eq_div_pow]
    omega
  rw [UInt16.toNat_shiftRight, UInt16.toNat_and, joined_toNat, show (8 : UInt16).toNat % 16 = 8 from rfl,
    Nat.shiftRight_and_distrib, upper, UInt8.toNat_toUInt16]
  exact (Nat.and_two_pow_sub_one_eq_mod _ 8).trans (Nat.mod_eq_of_lt first.toNat_lt)

theorem joined_low (first second : UInt8) :
    (first.toUInt16 <<< 8 ||| second.toUInt16) &&& 0x00FF = second.toUInt16 := by
  apply UInt16.toNat_inj.mp
  have small := second.toNat_lt
  rw [UInt16.toNat_and, joined_toNat, UInt8.toNat_toUInt16]
  refine (Nat.and_two_pow_sub_one_eq_mod _ 8).trans ?_
  omega

theorem testBit_three (j : Nat) : Nat.testBit 3 j = decide (j < 2) := Nat.testBit_two_pow_sub_one 2 j

theorem testBit_maskBit (i m n j : Nat) :
    (maskBit i m n).testBit j = (m.testBit j || (decide (j / 2 = n) && i.testBit n)) := by
  have set_ : i &&& (1 <<< n) ≠ 0 ↔ i.testBit n = true := by
    rw [Nat.one_shiftLeft, Nat.and_two_pow]
    cases i.testBit n <;> simp
  unfold maskBit
  simp only [set_]
  cases i.testBit n with
  | false => simp
  | true =>
    rw [if_pos rfl, Nat.testBit_or, Nat.testBit_shiftLeft, testBit_three]
    grind

theorem testBit_mask (i j : Nat) : (mask i).testBit j = (decide (j < 16) && i.testBit (j / 2)) := by
  have upTo (n : Nat) : ((List.range n).foldl (maskBit i) 0).testBit j = (decide (j < 2 * n) && i.testBit (j / 2)) := by
    induction n with
    | zero => simp
    | succ n ih =>
      rw [List.range_succ, List.foldl_append, List.foldl_cons, List.foldl_nil, testBit_maskBit, ih]
      grind
  exact upTo 8

theorem testBit_transtable (b : UInt8) (j : Nat) :
    (transtable b.toUInt16).toNat.testBit j = (decide (j < 16) && b.toNat.testBit (j / 2)) := by
  have small : mask b.toNat < 2 ^ 16 := by
    apply Nat.lt_pow_two_of_testBit
    intro i past
    rw [testBit_mask, decide_eq_false (by omega), Bool.false_and]
  rw [transtable, UInt8.toNat_toUInt16, UInt16.toNat_ofNat', Nat.mod_eq_of_lt small, testBit_mask]

theorem moveLong_apply (high low : UInt16) (target i : Nat) (screen : Screen) :
    moveLong high low target screen i = if i = target + 1 then low else if i = target then high else screen i := by
  simp only [moveLong, Function.update_apply]

def pair (frame : Frame) (i : Nat) : UInt16 := (frame (2 * i)).toUInt16 <<< 8 ||| (frame (2 * i + 1)).toUInt16

theorem copyScreenLow_loop (frame : Frame) (screen : Screen) (n : Nat) :
    (copyScreenLow frame)^[n] { screen := screen } =
      { source := n, target := 4 * n, screen := fun i => if i < 4 * n then pair frame (i / 4) else screen i } := by
  induction n with
  | zero => simp
  | succ n ih =>
    rw [Function.iterate_succ_apply', ih, copyScreenLow]
    simp only [Frame.word, rol8_bytes, Copy.mk.injEq]
    refine ⟨trivial, by omega, ?_⟩
    funext i
    simp only [moveLong_apply]
    by_cases written : 4 * n ≤ i ∧ i < 4 * (n + 1)
    · have quarter : i / 4 = n := by omega
      rw [if_pos written.2, quarter]
      split_ifs <;> first | rfl | omega
    · split_ifs <;> first | rfl | omega

def doubled (frame : Frame) (i : Nat) : UInt16 := transtable (frame i).toUInt16

theorem copyScreenColHigh_loop (frame : Frame) (c : Copy) (n : Nat) (inside : n ≤ colsHigh) :
    (copyScreenColHigh frame transtable)^[n] c =
      { source := c.source + n
        target := c.target + 2 * n
        screen := fun i =>
          if c.target ≤ i ∧ i < c.target + 2 * n then doubled frame (2 * c.source + (i - c.target))
          else if c.target + 40 ≤ i ∧ i < c.target + 40 + 2 * n then
            doubled frame (2 * c.source + (i - (c.target + 40)))
          else c.screen i } := by
  induction n with
  | zero =>
    have none_ (from_ i : Nat) : ¬ (from_ ≤ i ∧ i < from_ + 2 * 0) := by omega
    simp only [none_, if_false]
    rfl
  | succ n ih =>
    rw [Function.iterate_succ_apply', ih (by omega), copyScreenColHigh]
    simp only [Frame.word, rol8_bytes, joined_high, joined_low, Copy.mk.injEq]
    refine ⟨by omega, by omega, ?_⟩
    funext i
    simp only [colsHigh] at inside
    have high : transtable (frame (2 * (c.source + n))).toUInt16 = doubled frame (2 * c.source + 2 * n) := by
      rw [doubled, Nat.mul_add]
    have low : transtable (frame (2 * (c.source + n) + 1)).toUInt16 = doubled frame (2 * c.source + (2 * n + 1)) := by
      rw [doubled, Nat.mul_add, Nat.add_assoc]
    simp only [moveLong_apply, bytesRowHigh, high, low]
    split_ifs <;> first | rfl | omega | (congr 1; omega)

theorem copyScreenRowHigh_loop (frame : Frame) (screen : Screen) (n : Nat) :
    (copyScreenRowHigh frame transtable)^[n] { screen := screen } =
      { source := 20 * n
        target := 80 * n
        screen := fun i => if i < 80 * n then doubled frame (40 * (i / 80) + i % 40) else screen i } := by
  induction n with
  | zero => simp
  | succ n ih =>
    rw [Function.iterate_succ_apply', ih, copyScreenRowHigh, copyScreenColHigh_loop frame _ _ (Nat.le_refl _)]
    simp only [colsHigh, bytesRowHigh, Copy.mk.injEq]
    refine ⟨by omega, by omega, ?_⟩
    funext i
    by_cases upper : 80 * n ≤ i ∧ i < 80 * n + 2 * 20
    · refine (if_pos upper).trans ?_
      rw [if_pos (by omega)]
      congr 1
      omega
    · refine (if_neg upper).trans ?_
      by_cases lower : 80 * n + 40 ≤ i ∧ i < 80 * n + 40 + 2 * 20
      · refine (if_pos lower).trans ?_
        rw [if_pos (by omega)]
        congr 1
        omega
      · have same : i < 80 * n ↔ i < 80 * (n + 1) := by omega
        refine (if_neg lower).trans ?_
        simp only [same]

theorem pixelLow_print (frame : Frame) (screen : Screen) {x y plane : Nat} (column : x < 320) (row : y < 200)
    (inside : plane < 4) : (printLow frame screen).pixelLow x y plane = frame.pixel x y := by
  have place : 80 * y + 4 * (x / 16) + plane < 4 * 4000 := by omega
  have quarter : (80 * y + 4 * (x / 16) + plane) / 4 = 20 * y + x / 16 := by omega
  rw [Screen.pixelLow, printLow, copyScreenLow_loop]
  simp only [displayBufferSize, if_pos place, quarter, pair]
  rw [joined_toNat, Nat.mul_comm _ 256, show 256 = 2 ^ 8 from rfl, Nat.testBit_two_pow_mul_add _ (UInt8.toNat_lt _),
    Frame.pixel]
  by_cases left : x % 16 < 8
  · rw [if_neg (by omega), show 40 * y + x / 8 = 2 * (20 * y + x / 16) by omega]
    congr 1
    omega
  · rw [if_pos (by omega), show 40 * y + x / 8 = 2 * (20 * y + x / 16) + 1 by omega]
    congr 1
    omega

theorem pixelHigh_print (frame : Frame) (screen : Screen) {x y : Nat} (column : x < 640) (row : y < 400) :
    (printHigh frame transtable screen).pixelHigh x y = frame.pixel (x / 2) (y / 2) := by
  have place : 40 * y + x / 16 < 80 * 200 := by omega
  have source : 40 * ((40 * y + x / 16) / 80) + (40 * y + x / 16) % 40 = 40 * (y / 2) + x / 2 / 8 := by omega
  rw [Screen.pixelHigh, printHigh, copyScreenRowHigh_loop]
  simp only [rowsHigh, if_pos place, source, doubled]
  rw [testBit_transtable, decide_eq_true (by omega), Bool.true_and, Frame.pixel]
  congr 1
  omega

theorem termScrollupBuffer_row (frame : Frame) (i : Nat) :
    termScrollupBuffer termDisplayRowBytes frame i =
      if i < 7360 then frame (i + 320) else if i < 7680 then 0 else frame i := rfl

theorem pixel_scrolled (frame : Frame) (x y : Nat) (column : x < 320) (n : Nat) :
    ((termScrollupBuffer termDisplayRowBytes)^[n] frame).pixel x y =
      if 192 ≤ y then frame.pixel x y else if y + 8 * n < 192 then frame.pixel x (y + 8 * n) else false := by
  induction n generalizing frame with
  | zero =>
    rw [Function.iterate_zero_apply]
    split_ifs <;> first | rfl | omega
  | succ n ih =>
    rw [Function.iterate_succ_apply, ih]
    have line (row : Nat) : (termScrollupBuffer termDisplayRowBytes frame).pixel x row =
        if 192 ≤ row then frame.pixel x row else if row + 8 < 192 then frame.pixel x (row + 8) else false := by
      rw [Frame.pixel, Frame.pixel, Frame.pixel, termScrollupBuffer_row]
      by_cases bar : 192 ≤ row
      · rw [if_neg (by omega), if_neg (by omega), if_pos bar]
      · rw [if_neg bar]
        by_cases up : row + 8 < 192
        · rw [if_pos (by omega), if_pos up, show 40 * row + x / 8 + 320 = 40 * (row + 8) + x / 8 by omega]
        · rw [if_neg (by omega), if_pos (by omega), if_neg up]
          simp
    rw [line, line]
    split_ifs <;> first | rfl | omega

theorem screen_shows (frame : Frame) (screen : Screen) (n : Nat) :
    let scrolled := (termScrollupBuffer termDisplayRowBytes)^[n] frame
    let shown := fun x y =>
      if 192 ≤ y then frame.pixel x y else if y + 8 * n < 192 then frame.pixel x (y + 8 * n) else false
    (∀ x y plane, x < 320 → y < 200 → plane < 4 → (printLow scrolled screen).pixelLow x y plane = shown x y) ∧
      (∀ x y, x < 640 → y < 400 → (printHigh scrolled transtable screen).pixelHigh x y = shown (x / 2) (y / 2)) ∧
      ∀ i, 16000 ≤ i → printLow scrolled screen i = screen i ∧ printHigh scrolled transtable screen i = screen i := by
  intro scrolled shown
  refine ⟨fun x y plane column row inside => ?_, fun x y column row => ?_, fun i past => ⟨?_, ?_⟩⟩
  · rw [pixelLow_print scrolled screen column row inside]
    exact pixel_scrolled frame x y column n
  · rw [pixelHigh_print scrolled screen column row]
    exact pixel_scrolled frame (x / 2) (y / 2) (by omega) n
  · rw [printLow, copyScreenLow_loop]
    exact if_neg (by simp only [displayBufferSize]; omega)
  · rw [printHigh, copyScreenRowHigh_loop]
    exact if_neg (by simp only [rowsHigh]; omega)

end MidiToIp.Display
