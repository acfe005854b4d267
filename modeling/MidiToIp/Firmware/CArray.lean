import Mathlib.Data.List.DropRight
import MidiToIp.Shared.CInitializer

set_option autoImplicit false

namespace MidiToIp.Firmware

open Octets CString CInitializer Hexadecimal

def maxWordsPerLine : Nat := 16

-- Anything but "big" is little endian.
inductive EndianFormat where
  | little
  | big
  deriving DecidableEq, Repr

abbrev Identifier :=
  { name : Bytes // ∀ b ∈ name, (48 ≤ b.toNat ∧ b.toNat ≤ 57) ∨ (65 ≤ b.toNat ∧ b.toNat ≤ 90) ∨
    b.toNat = 95 ∨ (97 ≤ b.toNat ∧ b.toNat ≤ 122) }

def lastNonZeroIndex (data : Bytes) : Nat → Option Nat
  | 0 => none
  | i + 1 => if data.getD i 0 ≠ 0 then some i else lastNonZeroIndex data i

def trimmedData (data : Bytes) : Bytes :=
  match lastNonZeroIndex data data.length with
  | none => []
  | some last => data.take (last + 1)

def word (endianFormat : EndianFormat) (first second : UInt8) : Nat :=
  match endianFormat with
  | .big => first.toNat + second.toNat * 256
  | .little => first.toNat * 256 + second.toNat

def words (endianFormat : EndianFormat) : Bytes → List Nat
  | first :: second :: rest => word endianFormat first second :: words endianFormat rest
  | _ => []

def hexConstant (word : Nat) : Bytes := ascii "0x" ++ hexadecimal upperDigit 4 word

def line (endianFormat : EndianFormat) (chunk : Bytes) : Bytes :=
  ascii "    " ++ separator.intercalate ((words endianFormat chunk).map hexConstant) ++ ascii ",\n"

def chunks (trimmed : Bytes) : List Bytes :=
  (List.range ((trimmed.length + (2 * maxWordsPerLine - 1)) / (2 * maxWordsPerLine))).map fun i =>
    (trimmed.drop (2 * maxWordsPerLine * i)).take (2 * maxWordsPerLine)

def rstrip (chars text : Bytes) : Bytes := (text.reverse.dropWhile (· ∈ chars)).reverse

def declaration (arrayName : Identifier) : Bytes :=
  ascii "const uint16_t " ++ arrayName.val ++ ascii "[] = "

def arrayLength (arrayName : Identifier) : Bytes :=
  ascii "uint16_t " ++ arrayName.val ++ ascii "_length = sizeof(" ++ arrayName.val ++
    ascii ") / sizeof(" ++ arrayName.val ++ ascii "[0]);\n\n"

def valueError : String :=
  "The binary file size (after trimming zeros) should be an even number of bytes for word processing."

def binaryToCArray (data : Bytes) (arrayName : Identifier) (endianFormat : EndianFormat) :
    Except String Bytes :=
  let trimmed := trimmedData data
  if trimmed.length % 2 ≠ 0 then .error valueError
  else
    let content := declaration arrayName ++ opening :: ascii "\n" ++
      (chunks trimmed).flatMap (line endianFormat)
    .ok (rstrip (ascii ",\n") content ++ ascii "\n" ++ closing :: ascii ";\n" ++ arrayLength arrayName)

theorem lastNonZeroIndex_append (data more : Bytes) (i : Nat) (inside : i ≤ data.length) :
    lastNonZeroIndex (data ++ more) i = lastNonZeroIndex data i := by
  induction i with
  | zero => rfl
  | succ i ih => rw [lastNonZeroIndex, lastNonZeroIndex, List.getD_append _ _ _ _ inside, ih (by omega)]

theorem lastNonZeroIndex_le (data : Bytes) (i last : Nat) (found : lastNonZeroIndex data i = some last) :
    last < i := by
  induction i with
  | zero => simp [lastNonZeroIndex] at found
  | succ i ih =>
    rw [lastNonZeroIndex] at found
    split_ifs at found
    · obtain rfl := Option.some.inj found
      exact Nat.lt_succ_self i
    · exact (ih found).trans (Nat.lt_succ_self i)

theorem trimmedData_eq (data : Bytes) : trimmedData data = data.rdropWhile (· = 0) := by
  induction data using List.reverseRecOn with
  | nil => rfl
  | append_singleton data b ih =>
    have last : (data ++ [b]).getD data.length 0 = b := by simp
    rw [trimmedData, List.length_append, List.length_singleton, lastNonZeroIndex, last]
    by_cases zero : b = 0
    · rw [if_neg (not_not.mpr zero), lastNonZeroIndex_append data [b] _ le_rfl,
        List.rdropWhile_concat_pos _ _ _ (by simpa using zero), ← ih, trimmedData]
      cases found : lastNonZeroIndex data data.length with
      | none => rfl
      | some last =>
        have inside := lastNonZeroIndex_le data _ last found
        exact List.take_append_of_le_length inside
    · rw [if_pos zero, List.rdropWhile_concat_neg _ _ _ (by simpa using zero)]
      exact List.take_of_length_le (by simp)

theorem words_append (endianFormat : EndianFormat) (first second : Bytes) (even : first.length % 2 = 0) :
    words endianFormat (first ++ second) = words endianFormat first ++ words endianFormat second := by
  fun_induction words endianFormat first with
  | case1 high low rest ih =>
    rw [List.length_cons, List.length_cons] at even
    simp only [List.cons_append, words, ih (by omega)]
  | case2 rest short =>
    cases rest with
    | nil => rfl
    | cons b rest =>
      cases rest with
      | nil => simp at even
      | cons c rest => exact absurd rfl (short b c rest)

theorem words_lt (endianFormat : EndianFormat) (data : Bytes) :
    ∀ word ∈ words endianFormat data, word < 16 ^ 4 := by
  fun_induction words endianFormat data with
  | case1 high low rest ih =>
    have highSmall := high.toNat_lt
    have lowSmall := low.toNat_lt
    intro word member
    rcases List.mem_cons.mp member with rfl | later
    · cases endianFormat <;> simp only [word] <;> omega
    · exact ih word later
  | case2 => simp

theorem hexConstant_words (endianFormat : EndianFormat) (data : Bytes) :
    ∀ text ∈ (words endianFormat data).map hexConstant,
      text ≠ [] ∧ ∀ b ∈ text, isWord b = true := by
  intro text member
  obtain ⟨word, -, rfl⟩ := List.mem_map.mp member
  refine ⟨by simp [hexConstant, ascii], fun b within => ?_⟩
  rcases List.mem_append.mp within with zero | digit
  · have both : (ascii "0x").all isWord = true := by decide
    exact List.all_eq_true.mp both b zero
  · exact hexadecimal_isWord 4 word b digit

theorem constant_hexConstant (endianFormat : EndianFormat) (data : Bytes) :
    ∀ word ∈ words endianFormat data, constant (hexConstant word) = some word := fun word member =>
  constant_hexadecimal 3 word (words_lt endianFormat data word member)

theorem words_ne_nil (endianFormat : EndianFormat) (data : Bytes) (even : data.length % 2 = 0)
    (some_ : data ≠ []) : words endianFormat data ≠ [] := by
  match data, even, some_ with
  | [], _, some_ => exact absurd rfl some_
  | [_], even, _ => simp at even
  | _ :: _ :: _, _, _ => simp [words]

theorem lex_indent (text : Bytes) : lex (ascii "    " ++ text) = lex text := by
  simp [ascii, lex, isspace]

theorem lex_line (endianFormat : EndianFormat) (chunk rest : Bytes) (even : chunk.length % 2 = 0)
    (some_ : chunk ≠ []) :
    lex (line endianFormat chunk ++ rest) =
      separated ((words endianFormat chunk).map hexConstant) ++ .comma :: lex rest := by
  have filled : (words endianFormat chunk).map hexConstant ≠ [] := by
    simpa using words_ne_nil endianFormat chunk even some_
  have ended : lex (ascii ",\n" ++ rest) = .comma :: lex rest := by
    simp [ascii, lex, isspace, comma]
  rw [line, List.append_assoc, List.append_assoc, lex_indent,
    lex_intercalate _ _ filled (hexConstant_words endianFormat chunk) (by rfl), ended]

theorem elements_lines (endianFormat : EndianFormat) (lines : List Bytes) (rest : Bytes)
    (each : ∀ chunk ∈ lines, chunk.length % 2 = 0 ∧ chunk ≠ []) :
    elements (lex (lines.flatMap (line endianFormat) ++ rest)) =
      (elements (lex rest)).map (lines.flatMap (words endianFormat) ++ ·) := by
  induction lines with
  | nil => simp
  | cons chunk later ih =>
    obtain ⟨even, some_⟩ := each chunk List.mem_cons_self
    have after := ih fun other member => each other (List.mem_cons_of_mem _ member)
    rw [List.flatMap_cons, List.append_assoc, lex_line endianFormat chunk _ even some_,
      elements_separated_comma hexConstant _ _ (words_ne_nil endianFormat chunk even some_)
        (constant_hexConstant endianFormat chunk), after, Option.map_map, List.flatMap_cons]
    congr 1
    funext values
    exact (List.append_assoc _ _ _).symm

theorem chunks_flatMap (trimmed : Bytes) (even : trimmed.length % 2 = 0) (endianFormat : EndianFormat) :
    (chunks trimmed).flatMap (words endianFormat) = words endianFormat trimmed := by
  have size : 2 * maxWordsPerLine = 32 := rfl
  have first : ∀ count, ((List.range count).map fun i =>
      (trimmed.drop (2 * maxWordsPerLine * i)).take (2 * maxWordsPerLine)).flatMap (words endianFormat) =
        words endianFormat (trimmed.take (2 * maxWordsPerLine * count)) := by
    intro count
    induction count with
    | zero => rfl
    | succ count ih =>
      have whole : (trimmed.take (2 * maxWordsPerLine * count)).length % 2 = 0 := by
        rw [List.length_take, size]
        omega
      rw [List.range_succ, List.map_append, List.flatMap_append, ih, Nat.mul_succ, List.take_add,
        words_append endianFormat _ _ whole]
      simp
  have covered : trimmed.length ≤ 2 * maxWordsPerLine *
      ((trimmed.length + (2 * maxWordsPerLine - 1)) / (2 * maxWordsPerLine)) := by
    rw [size]
    omega
  rw [chunks, first, List.take_of_length_le covered]

theorem chunks_even (trimmed : Bytes) (even : trimmed.length % 2 = 0) :
    ∀ chunk ∈ chunks trimmed, chunk.length % 2 = 0 ∧ chunk ≠ [] := by
  intro chunk member
  obtain ⟨i, inside, rfl⟩ := List.mem_map.mp member
  rw [List.mem_range] at inside
  have size : 2 * maxWordsPerLine = 32 := rfl
  rw [size] at inside ⊢
  have length : ((trimmed.drop (32 * i)).take 32).length = min 32 (trimmed.length - 32 * i) := by
    rw [List.length_take, List.length_drop]
  refine ⟨by omega, List.ne_nil_of_length_pos ?_⟩
  omega

theorem rstrip_append (chars front tail : Bytes) (b : UInt8) (kept : b ∉ chars)
    (stripped : ∀ c ∈ tail, c ∈ chars) : rstrip chars (front ++ [b] ++ tail) = front ++ [b] := by
  rw [rstrip, List.reverse_append, List.dropWhile_append_of_pos (by simpa using stripped),
    List.reverse_append, List.reverse_singleton, List.singleton_append,
    List.dropWhile_cons_of_neg (by simpa using kept), List.reverse_cons, List.reverse_reverse]

theorem hexConstant_notClosing (word : Nat) : closing ∉ hexConstant word := by
  intro member
  rcases List.mem_append.mp member with zero | digit
  · exact absurd zero (by decide)
  · exact hexadecimal_notClosing 4 word digit

def lineText (endianFormat : EndianFormat) (chunk : Bytes) : Bytes :=
  ascii "    " ++ separator.intercalate ((words endianFormat chunk).map hexConstant)

theorem lineText_notClosing (endianFormat : EndianFormat) (chunk : Bytes) :
    closing ∉ lineText endianFormat chunk := by
  intro member
  rcases List.mem_append.mp member with indent | text
  · exact absurd indent (by decide)
  · rcases mem_intercalate _ _ text with between | ⟨constant, listed, within⟩
    · exact absurd between (by decide)
    · obtain ⟨word, -, rfl⟩ := List.mem_map.mp listed
      exact hexConstant_notClosing word within

theorem lineText_last (endianFormat : EndianFormat) (chunk : Bytes) (even : chunk.length % 2 = 0)
    (some_ : chunk ≠ []) :
    ∃ before b, lineText endianFormat chunk = before ++ [b] ∧ b ∉ ascii ",\n" := by
  obtain ⟨before, b, last, solid⟩ := intercalate_last _
    (by simpa using words_ne_nil endianFormat chunk even some_) (hexConstant_words endianFormat chunk)
  refine ⟨ascii "    " ++ before, b, by rw [lineText, last, List.append_assoc], ?_⟩
  intro stripped
  have neither : (ascii ",\n").all (!isWord ·) = true := by decide
  have blank := List.all_eq_true.mp neither b stripped
  rw [Bool.not_eq_true'] at blank
  rw [blank] at solid
  exact Bool.false_ne_true solid

theorem elements_lineText (endianFormat : EndianFormat) (chunk : Bytes) (even : chunk.length % 2 = 0)
    (some_ : chunk ≠ []) :
    elements (lex (lineText endianFormat chunk ++ ascii "\n")) = some (words endianFormat chunk) := by
  have filled : (words endianFormat chunk).map hexConstant ≠ [] := by
    simpa using words_ne_nil endianFormat chunk even some_
  rw [lineText, List.append_assoc, lex_indent,
    lex_intercalate _ _ filled (hexConstant_words endianFormat chunk) (by rfl)]
  have ended : lex (ascii "\n") = [] := by decide
  rw [ended, List.append_nil, elements_separated _ _ (constant_hexConstant endianFormat chunk)]

theorem lines_notClosing (endianFormat : EndianFormat) (lines : List Bytes) :
    closing ∉ lines.flatMap (line endianFormat) := by
  intro member
  obtain ⟨chunk, -, within⟩ := List.mem_flatMap.mp member
  rcases List.mem_append.mp within with text | ends
  · exact lineText_notClosing endianFormat chunk text
  · exact absurd ends (by decide)

theorem rstrip_lines (front : Bytes) (endianFormat : EndianFormat) (lines : List Bytes)
    (each : ∀ chunk ∈ lines, chunk.length % 2 = 0 ∧ chunk ≠ []) :
    ∃ body, rstrip (ascii ",\n") (front ++ opening :: ascii "\n" ++ lines.flatMap (line endianFormat)) =
        front ++ opening :: body ∧
      closing ∉ body ∧
      elements (lex (body ++ ascii "\n")) = some (lines.flatMap (words endianFormat)) := by
  rcases List.eq_nil_or_concat lines with rfl | ⟨earlier, last, rfl⟩
  · refine ⟨[], ?_, by simp, rfl⟩
    have newline : ∀ c ∈ ascii "\n", c ∈ ascii ",\n" := by
      intro c member
      exact List.mem_cons_of_mem 44 member
    have stripped := rstrip_append (ascii ",\n") front (ascii "\n") opening (by decide) newline
    simpa using stripped
  · rw [List.concat_eq_append] at each ⊢
    obtain ⟨even, some_⟩ := each last (by simp)
    obtain ⟨before, b, text, kept⟩ := lineText_last endianFormat last even some_
    refine ⟨ascii "\n" ++ earlier.flatMap (line endianFormat) ++ lineText endianFormat last, ?_, ?_, ?_⟩
    · have stripped := rstrip_append (ascii ",\n")
        (front ++ opening :: ascii "\n" ++ earlier.flatMap (line endianFormat) ++ before) (ascii ",\n") b
        kept (fun c member => member)
      have same : line endianFormat last = before ++ [b] ++ ascii ",\n" := by
        rw [← text]
        rfl
      rw [List.flatMap_append, List.flatMap_singleton, same, text]
      simpa using stripped
    · intro member
      rcases List.mem_append.mp member with earlierText | lastText
      · rcases List.mem_append.mp earlierText with newline | lines
        · exact absurd newline (by decide)
        · exact lines_notClosing endianFormat earlier lines
      · exact lineText_notClosing endianFormat last lastText
    · have newline : ∀ rest, lex (ascii "\n" ++ rest) = lex rest := fun rest =>
        lex_space 10 rest (by decide)
      rw [List.append_assoc, List.append_assoc, newline,
        elements_lines endianFormat earlier _ fun chunk member => each chunk (List.mem_append_left _ member),
        elements_lineText endianFormat last even some_, Option.map_some, List.flatMap_append,
        List.flatMap_singleton]

theorem declaration_notOpening (arrayName : Identifier) : opening ∉ declaration arrayName := by
  intro member
  rcases List.mem_append.mp member with front | ends
  · rcases List.mem_append.mp front with type | name
    · exact absurd type (by decide)
    · have letters := arrayName.property opening name
      exact absurd letters (by decide)
  · exact absurd ends (by decide)

theorem binaryToCArray_words (data : Bytes) (arrayName : Identifier) (endianFormat : EndianFormat) :
    if (trimmedData data).length % 2 = 0 then
      ∃ content, binaryToCArray data arrayName endianFormat = .ok content ∧
        initializer content = some (words endianFormat (trimmedData data))
    else binaryToCArray data arrayName endianFormat = .error valueError := by
  by_cases even : (trimmedData data).length % 2 = 0
  · rw [if_pos even]
    obtain ⟨body, stripped, inner, read⟩ := rstrip_lines (declaration arrayName) endianFormat
      (chunks (trimmedData data)) (chunks_even _ even)
    refine ⟨_, by rw [binaryToCArray, if_neg (not_not.mpr even)], ?_⟩
    rw [stripped]
    have closed : closing ∉ body ++ ascii "\n" := by
      intro member
      rcases List.mem_append.mp member with text | newline
      · exact inner text
      · exact absurd newline (by decide)
    have braces := initializer_braces (declaration arrayName) (body ++ ascii "\n")
      (ascii ";\n" ++ arrayLength arrayName) (declaration_notOpening arrayName) closed
    rw [read, chunks_flatMap _ even] at braces
    rw [← braces]
    simp
  · rw [if_neg even, binaryToCArray, if_pos even]

end MidiToIp.Firmware
