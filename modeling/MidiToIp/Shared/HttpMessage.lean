import Mathlib.Data.List.Basic
import Mathlib.Data.List.TakeWhile
import MidiToIp.Shared.CString

set_option autoImplicit false

open Octets CString

structure HttpMessage where
  start : Bytes
  fields : List (Bytes × Bytes)
  body : Bytes
  deriving DecidableEq, Repr

namespace HttpMessage

def lineEnd : Bytes := [13, 10]
def separator : Bytes := [58, 32]
def lengthName : Bytes := ascii "Content-Length"

def fieldLine (field : Bytes × Bytes) : Bytes := field.1 ++ separator ++ field.2

def wire (message : HttpMessage) : Bytes :=
  message.start ++ lineEnd ++ message.fields.flatMap (fun field => fieldLine field ++ lineEnd) ++ lineEnd ++
    message.body

def takeLine : Bytes → Option (Bytes × Bytes)
  | [] => none
  | [_] => none
  | b :: c :: rest =>
    if b = 13 ∧ c = 10 then some ([], rest)
    else (takeLine (c :: rest)).map fun line => (b :: line.1, line.2)

def takeLines : Nat → Bytes → Option (List Bytes × Bytes)
  | 0, _ => none
  | fuel + 1, text =>
    (takeLine text).bind fun (line, rest) =>
      if line = [] then some ([], rest)
      else (takeLines fuel rest).map fun lines => (line :: lines.1, lines.2)

def readField (line : Bytes) : Option (Bytes × Bytes) :=
  if 58 ∈ line then
    some (line.takeWhile (· ≠ 58), ((line.dropWhile (· ≠ 58)).drop 1).dropWhile (· = 32))
  else none

def number (text : Bytes) : Option Nat :=
  if text ≠ [] ∧ text.all isdigit then some (text.foldl digitValue 0) else none

def sized (fields : List (Bytes × Bytes)) (body : Bytes) : Bool :=
  (fields.lookup lengthName).all fun value => number value = some body.length

def read (text : Bytes) : Option HttpMessage :=
  (takeLine text).bind fun (start, rest) =>
    (takeLines (rest.length + 1) rest).bind fun (lines, body) =>
      (lines.mapM readField).bind fun fields =>
        if sized fields body then some ⟨start, fields, body⟩ else none

structure WellFormed (message : HttpMessage) : Prop where
  start : 13 ∉ message.start
  names : ∀ field ∈ message.fields, 13 ∉ field.1 ∧ 58 ∉ field.1
  values : ∀ field ∈ message.fields, 13 ∉ field.2 ∧ field.2.head? ≠ some 32
  sized : sized message.fields message.body = true

theorem takeLine_line (line rest : Bytes) (inline_ : 13 ∉ line) :
    takeLine (line ++ lineEnd ++ rest) = some (line, rest) := by
  induction line with
  | nil => simp [takeLine, lineEnd]
  | cons b line ih =>
    rw [List.mem_cons, not_or] at inline_
    have later := ih inline_.2
    rw [lineEnd] at later ⊢
    cases line with
    | nil =>
      simp only [List.nil_append, List.cons_append] at later ⊢
      rw [takeLine, if_neg (fun both => inline_.1 both.1.symm), later]
      rfl
    | cons c line =>
      simp only [List.cons_append] at later ⊢
      rw [takeLine, if_neg (fun both => inline_.1 both.1.symm), later]
      rfl

theorem takeLines_lines (lines : List Bytes) (body : Bytes) (fuel : Nat) (enough : lines.length < fuel)
    (inline_ : ∀ line ∈ lines, 13 ∉ line ∧ line ≠ []) :
    takeLines fuel (lines.flatMap (· ++ lineEnd) ++ lineEnd ++ body) = some (lines, body) := by
  induction lines generalizing fuel with
  | nil =>
    obtain ⟨fuel, rfl⟩ := Nat.exists_eq_succ_of_ne_zero (Nat.ne_of_gt enough)
    have blank := takeLine_line [] body (by simp)
    simp only [List.nil_append] at blank
    simp [takeLines, blank]
  | cons line lines ih =>
    obtain ⟨fuel, rfl⟩ := Nat.exists_eq_succ_of_ne_zero (Nat.ne_of_gt (Nat.zero_lt_of_lt enough))
    obtain ⟨within, some_⟩ := inline_ line List.mem_cons_self
    have first := takeLine_line line (lines.flatMap (· ++ lineEnd) ++ lineEnd ++ body) within
    have later := ih fuel (Nat.lt_of_succ_lt_succ enough)
      fun other member => inline_ other (List.mem_cons_of_mem _ member)
    simp only [List.append_assoc] at first later
    simp [takeLines, first, some_, later]

theorem readField_fieldLine (field : Bytes × Bytes) (name : 58 ∉ field.1)
    (value : field.2.head? ≠ some 32) : readField (fieldLine field) = some field := by
  have unlike : ∀ b ∈ field.1, (decide (b ≠ 58)) = true := by
    intro b member
    rw [decide_eq_true_eq]
    rintro rfl
    exact name member
  have name_ : (field.1 ++ (separator ++ field.2)).takeWhile (· ≠ 58) = field.1 := by
    rw [List.takeWhile_append_of_pos unlike]
    simp [separator]
  have rest : (field.1 ++ (separator ++ field.2)).dropWhile (· ≠ 58) = separator ++ field.2 := by
    rw [List.dropWhile_append_of_pos unlike]
    simp [separator]
  have text : ((separator ++ field.2).drop 1).dropWhile (· = 32) = field.2 := by
    have blank : (separator ++ field.2).drop 1 = 32 :: field.2 := rfl
    rw [blank, List.dropWhile_cons_of_pos (by simp)]
    cases shown : field.2 with
    | nil => rfl
    | cons b rest =>
      rw [shown] at value
      rw [List.dropWhile_cons_of_neg]
      simpa using value
  have colon : 58 ∈ field.1 ++ (separator ++ field.2) := by simp [separator]
  rw [readField, fieldLine, List.append_assoc, if_pos colon, name_, rest, text]

theorem mapM_readField (fields : List (Bytes × Bytes))
    (fine : ∀ field ∈ fields, 58 ∉ field.1 ∧ field.2.head? ≠ some 32) :
    (fields.map fieldLine).mapM readField = some fields := by
  induction fields with
  | nil => rfl
  | cons field fields ih =>
    obtain ⟨name, value⟩ := fine field List.mem_cons_self
    have later := ih fun other member => fine other (List.mem_cons_of_mem _ member)
    rw [List.map_cons, List.mapM_cons, readField_fieldLine field name value, later]
    rfl

theorem number_decimal (n : Nat) : number (decimal n) = some n := by
  have some_ : decimal n ≠ [] := digits_ne_nil n n
  have all : (decimal n).all isdigit = true := List.all_eq_true.mpr (decimal_isdigit n)
  rw [number, if_pos ⟨some_, all⟩]
  exact congrArg some (digits_value (n + 1) n (Nat.lt_succ_self n))

theorem read_wire (message : HttpMessage) (fine : WellFormed message) : read message.wire = some message := by
  let lines := message.fields.map fieldLine
  have written : message.wire =
      message.start ++ lineEnd ++ (lines.flatMap (· ++ lineEnd) ++ lineEnd ++ message.body) := by
    simp [wire, lines, List.flatMap_map]
  have whole : ∀ line ∈ lines, 13 ∉ line ∧ line ≠ [] := by
    intro line member
    obtain ⟨field, here, rfl⟩ := List.mem_map.mp member
    have name := (fine.names field here).1
    have value := (fine.values field here).1
    exact ⟨by simp [fieldLine, separator, name, value], by simp [fieldLine, separator]⟩
  have room : lines.length < (lines.flatMap (· ++ lineEnd) ++ lineEnd ++ message.body).length + 1 := by
    have each (lines : List Bytes) : lines.length ≤ (lines.flatMap (· ++ lineEnd)).length := by
      induction lines with
      | nil => exact Nat.le_refl _
      | cons line lines ih =>
        have ended : 0 < (line ++ lineEnd).length := by simp [lineEnd]
        rw [List.flatMap_cons, List.length_append, List.length_cons]
        omega
    have := each lines
    simp only [List.length_append]
    omega
  rw [read, written, takeLine_line _ _ fine.start]
  simp only [Option.bind_some]
  rw [takeLines_lines lines message.body _ room whole]
  simp only [Option.bind_some]
  rw [mapM_readField message.fields fun field here => ⟨(fine.names field here).2, (fine.values field here).2⟩]
  simp only [Option.bind_some]
  rw [if_pos fine.sized]

end HttpMessage
