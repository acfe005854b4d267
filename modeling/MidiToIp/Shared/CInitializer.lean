import Mathlib.Data.List.Basic
import MidiToIp.Shared.CString
import MidiToIp.Shared.Hexadecimal

set_option autoImplicit false

namespace CInitializer

open Octets CString Hexadecimal

def comma : UInt8 := 44
def opening : UInt8 := 123
def closing : UInt8 := 125

def constant : Bytes → Option Nat
  | 48 :: 120 :: text => if text = [] then none else hexRead text
  | _ => none

theorem constant_hexadecimal (width n : Nat) (fits : n < 16 ^ (width + 1)) :
    constant (48 :: 120 :: hexadecimal upperDigit (width + 1) n) = some n := by
  have some_ : hexadecimal upperDigit (width + 1) n ≠ [] := by simp [hexadecimal]
  rw [constant, if_neg some_, hexRead_hexadecimal _ hexValue_upperDigit, Nat.mod_eq_of_lt fits]

inductive Token where
  | comma
  | word (text : Bytes)
  deriving DecidableEq, Repr

def isWord (b : UInt8) : Bool := !isspace b && b ≠ comma

def joinWord (b : UInt8) (adjacent : Bool) : List Token → List Token
  | .word text :: rest => if adjacent then .word (b :: text) :: rest else .word [b] :: .word text :: rest
  | tokens => .word [b] :: tokens

def lex : Bytes → List Token
  | [] => []
  | b :: rest =>
    if isspace b then lex rest
    else if b = comma then .comma :: lex rest
    else joinWord b (rest.head?.any isWord) (lex rest)

def elements : List Token → Option (List Nat)
  | [] => some []
  | [.word text] => (constant text).map ([·])
  | .word text :: .comma :: rest =>
    (constant text).bind fun value => (elements rest).map (value :: ·)
  | _ => none

def initializer (source : Bytes) : Option (List Nat) :=
  elements (lex (((source.dropWhile (· ≠ opening)).drop 1).takeWhile (· ≠ closing)))

theorem isWord_notSpace {b : UInt8} (solid : isWord b = true) : isspace b = false ∧ b ≠ comma := by
  simpa [isWord] using solid

theorem lex_space (b : UInt8) (rest : Bytes) (space : isspace b = true) : lex (b :: rest) = lex rest := by
  rw [lex, if_pos space]

theorem lex_word (text rest : Bytes) (some_ : text ≠ []) (solid : ∀ b ∈ text, isWord b = true)
    (ends : rest.head?.any isWord = false) : lex (text ++ rest) = .word text :: lex rest := by
  induction text with
  | nil => exact absurd rfl some_
  | cons b later ih =>
    obtain ⟨notSpace, notComma⟩ := isWord_notSpace (solid b List.mem_cons_self)
    rw [List.cons_append, lex, if_neg (by simp [notSpace]), if_neg notComma]
    cases later with
    | nil =>
      rw [List.nil_append, ends]
      cases lex rest with
      | nil => rfl
      | cons token tokens => cases token <;> rfl
    | cons next later =>
      have following : ((next :: later) ++ rest).head?.any isWord = true := by
        simpa using solid next (List.mem_cons_of_mem _ List.mem_cons_self)
      rw [following, ih (by simp) fun b member => solid b (List.mem_cons_of_mem _ member)]
      rfl

theorem hexadecimal_isWord (width n : Nat) : ∀ b ∈ hexadecimal upperDigit width n, isWord b = true :=
  mem_hexadecimal upperDigit _ (by decide) width n

theorem hexadecimal_notClosing (width n : Nat) : closing ∉ hexadecimal upperDigit width n :=
  fun member => mem_hexadecimal upperDigit (· ≠ closing) (by decide) width n _ member rfl

def separator : Bytes := [comma, 32]

def separated : List Bytes → List Token
  | [] => []
  | [text] => [.word text]
  | text :: next :: more => .word text :: .comma :: separated (next :: more)

theorem lex_intercalate (texts : List Bytes) (rest : Bytes) (some_ : texts ≠ [])
    (words : ∀ text ∈ texts, text ≠ [] ∧ ∀ b ∈ text, isWord b = true)
    (ends : rest.head?.any isWord = false) :
    lex (separator.intercalate texts ++ rest) = separated texts ++ lex rest := by
  induction texts with
  | nil => exact absurd rfl some_
  | cons text later ih =>
    have first := words text List.mem_cons_self
    cases later with
    | nil => simpa [separated] using lex_word text rest first.1 first.2 ends
    | cons next more =>
      have after := ih (by simp) fun text member => words text (List.mem_cons_of_mem _ member)
      have blank : lex (separator ++ (separator.intercalate (next :: more) ++ rest)) =
          .comma :: lex (separator.intercalate (next :: more) ++ rest) := by
        simp [separator, lex, isspace, comma]
      rw [List.intercalate_cons_cons, List.append_assoc, List.append_assoc,
        lex_word text _ first.1 first.2 (by rfl), blank, after]
      rfl

theorem intercalate_last (texts : List Bytes) (some_ : texts ≠ [])
    (words : ∀ text ∈ texts, text ≠ [] ∧ ∀ b ∈ text, isWord b = true) :
    ∃ before b, separator.intercalate texts = before ++ [b] ∧ isWord b = true := by
  induction texts with
  | nil => exact absurd rfl some_
  | cons text later ih =>
    cases later with
    | nil =>
      obtain ⟨filled, solid⟩ := words text List.mem_cons_self
      refine ⟨text.dropLast, text.getLast filled, ?_, solid _ (List.getLast_mem filled)⟩
      rw [List.intercalate_singleton, List.dropLast_append_getLast]
    | cons next more =>
      obtain ⟨before, b, last, solid⟩ :=
        ih (by simp) fun text member => words text (List.mem_cons_of_mem _ member)
      refine ⟨text ++ (separator ++ before), b, ?_, solid⟩
      rw [List.intercalate_cons_cons, last, List.append_assoc, List.append_assoc, List.append_assoc]

theorem mem_intercalate (texts : List Bytes) (b : UInt8) (member : b ∈ separator.intercalate texts) :
    b ∈ separator ∨ ∃ text ∈ texts, b ∈ text := by
  induction texts with
  | nil => simp at member
  | cons text later ih =>
    cases later with
    | nil => exact .inr ⟨text, List.mem_cons_self, by simpa using member⟩
    | cons next more =>
      rw [List.intercalate_cons_cons, List.append_assoc, List.mem_append, List.mem_append] at member
      rcases member with here | between | later
      · exact .inr ⟨text, List.mem_cons_self, here⟩
      · exact .inl between
      · rcases ih later with between | ⟨other, listed, within⟩
        · exact .inl between
        · exact .inr ⟨other, List.mem_cons_of_mem _ listed, within⟩

section Printed

variable (print : Nat → Bytes)

theorem elements_separated_comma (values : List Nat) (tokens : List Token) (some_ : values ≠ [])
    (reads : ∀ value ∈ values, constant (print value) = some value) :
    elements (separated (values.map print) ++ .comma :: tokens) =
      (elements tokens).map (values ++ ·) := by
  induction values with
  | nil => exact absurd rfl some_
  | cons value later ih =>
    have first := reads value List.mem_cons_self
    cases later with
    | nil => simp [separated, elements, first]
    | cons next more =>
      have after := ih (by simp) fun value member => reads value (List.mem_cons_of_mem _ member)
      simp only [List.map_cons, separated, List.cons_append, elements, first, Option.bind_some] at after ⊢
      rw [after, Option.map_map]
      rfl

theorem elements_separated (values : List Nat)
    (reads : ∀ value ∈ values, constant (print value) = some value) :
    elements (separated (values.map print)) = some values := by
  induction values with
  | nil => rfl
  | cons value later ih =>
    have first := reads value List.mem_cons_self
    have after := ih fun value member => reads value (List.mem_cons_of_mem _ member)
    cases later with
    | nil => simp [separated, elements, first]
    | cons next more =>
      simp only [List.map_cons, separated, elements, first, Option.bind_some] at after ⊢
      rw [after]
      rfl

end Printed

theorem initializer_braces (before between after : Bytes) (closed : opening ∉ before)
    (inner : closing ∉ between) :
    initializer (before ++ opening :: (between ++ closing :: after)) = elements (lex between) := by
  have skipped : (before ++ opening :: (between ++ closing :: after)).dropWhile (· ≠ opening) =
      opening :: (between ++ closing :: after) := by
    rw [List.dropWhile_append_of_pos fun b member => by simpa using fun same : b = opening => closed (same ▸ member)]
    exact List.dropWhile_cons_of_neg (by simp)
  have taken := takeWhile_append_stop (· ≠ closing) between after closing
    (fun b member => by simpa using fun same : b = closing => inner (same ▸ member)) (by simp)
  rw [initializer, skipped, List.drop_one, List.tail_cons, taken]

end CInitializer
