import MidiToIp.Orchestrator.Http

set_option autoImplicit false

namespace MidiToIp.Orchestrator

open Octets

section Running

variable {First Second : Type} {body : Handler First} {next : First → Handler Second} {wire after : Wire}

theorem bind_ok {result : First} (ran : body wire = .ok result after) :
    (body >>= next) wire = next result after := by
  simp only [bind, EStateM.bind, ran]

theorem bind_error {stop : Stop} (ran : body wire = .error stop after) :
    (body >>= next) wire = .error stop after := by
  simp only [bind, EStateM.bind, ran]

end Running

structure Head where
  line : Bytes
  block : Bytes
  lines : List Bytes
  remnant : Bytes

def Wire.behind (wire : Wire) (head : Head) : Wire :=
  { wire with lines := head.lines, remnant := head.remnant }

def InLimit (lines : List Bytes) : Prop := ∀ line ∈ lines, line.length ≤ limit

def Filled (lines : List Bytes) : Prop := ∀ line ∈ lines, isBlank (line ++ [10]) = false

inductive Arrives (wire : Wire) : Head → Prop where
  | blank (first stop : Bytes) (more later : List Bytes)
      (lines_eq : wire.lines = first :: (more ++ stop :: later))
      (fits : InLimit (first :: more)) (filled : Filled more) (stops : isBlank (stop ++ [10]) = true) :
      Arrives wire
        { line := first ++ [10]
          block := joinLines more []
          lines := later
          remnant := wire.remnant }
  | ended (first : Bytes) (more : List Bytes) (lines_eq : wire.lines = first :: more)
      (fits : InLimit (first :: more)) (filled : Filled more) (rest_fits : wire.remnant.length ≤ limit)
      (ends : wire.ending = .eof) :
      Arrives wire
        { line := first ++ [10]
          block := joinLines more wire.remnant
          lines := []
          remnant := [] }
  | lineOnly (lines_eq : wire.lines = []) (sent : wire.remnant ≠ [])
      (rest_fits : wire.remnant.length ≤ limit) (ends : wire.ending = .eof) :
      Arrives wire { line := wire.remnant, block := [], lines := [], remnant := [] }

inductive Overruns (wire : Wire) : Prop where
  | line (before : List Bytes) (long : Bytes) (later : List Bytes)
      (lines_eq : wire.lines = before ++ long :: later)
      (fits : InLimit before) (filled : Filled before.tail) (exceeds : limit < long.length)
  | remnant (fits : InLimit wire.lines) (filled : Filled wire.lines.tail)
      (exceeds : limit < wire.remnant.length)

def Nothing (wire : Wire) : Prop := wire.lines = [] ∧ wire.remnant = [] ∧ wire.ending = .eof

structure Broken (wire : Wire) : Prop where
  fits : InLimit wire.lines
  filled : Filled wire.lines.tail
  rest_fits : wire.remnant.length ≤ limit
  open_ : wire.ending ≠ .eof

def Ending.stop : Ending → Stop
  | .silent => .waiting
  | _ => .raised .osError

theorem isBlank_long (line : Bytes) (blank : isBlank (line ++ [10]) = true) : line.length ≤ limit := by
  have short : (line ++ [10]).length ≤ 2 := by
    rcases of_decide_eq_true blank with crLf | newline | nothing
    · simp [crLf]
    · simp [newline]
    · simp at nothing
  simp only [List.length_append, List.length_singleton] at short
  have room : 1 ≤ limit := by decide
  omega

theorem readline_line (wire : Wire) (line : Bytes) (rest : List Bytes)
    (lines_eq : wire.lines = line :: rest) (fits : line.length ≤ limit) :
    readline wire = .ok (line ++ [10]) { wire with lines := rest } := by
  simp only [readline, lines_eq, Nat.not_lt.mpr fits, if_false]

theorem readline_long (wire : Wire) (long : Bytes) (rest : List Bytes)
    (lines_eq : wire.lines = long :: rest) (exceeds : limit < long.length) :
    readline wire = .error (.raised .valueError) wire := by
  simp only [readline, lines_eq, exceeds, if_true]
  rfl

theorem readline_remnant (wire : Wire) (lines_eq : wire.lines = [])
    (fits : wire.remnant.length ≤ limit) : readline wire = atEnd wire.remnant wire := by
  simp only [readline, lines_eq, Nat.not_lt.mpr fits, if_false]

theorem readline_remnant_long (wire : Wire) (lines_eq : wire.lines = [])
    (exceeds : limit < wire.remnant.length) : readline wire = .error (.raised .valueError) wire := by
  simp only [readline, lines_eq, exceeds, if_true]
  rfl

theorem atEnd_eof (read : Bytes) (wire : Wire) (ends : wire.ending = .eof) :
    atEnd read wire = .ok read { wire with lines := [], remnant := [] } := by
  simp only [atEnd, ends]

theorem atEnd_open (read : Bytes) (wire : Wire) (open_ : wire.ending ≠ .eof) :
    atEnd read wire = .error wire.ending.stop wire := by
  unfold atEnd Ending.stop
  split
  next ends => exact absurd ends open_
  next ends => rw [ends]
  next ends => rw [ends]

theorem readline_ended (wire : Wire) (lines_eq : wire.lines = []) (fits : wire.remnant.length ≤ limit)
    (ends : wire.ending = .eof) :
    readline wire = .ok wire.remnant { wire with lines := [], remnant := [] } := by
  rw [readline_remnant wire lines_eq fits, atEnd_eof _ _ ends]

theorem readline_open (wire : Wire) (lines_eq : wire.lines = []) (fits : wire.remnant.length ≤ limit)
    (open_ : wire.ending ≠ .eof) : readline wire = .error wire.ending.stop wire := by
  rw [readline_remnant wire lines_eq fits, atEnd_open _ _ open_]

theorem readHeaderLines_line {fuel : Nat} {raw line : Bytes} {wire after : Wire}
    (ran : readline wire = .ok line after) (filled : isBlank line = false) :
    readHeaderLines (fuel + 1) raw wire = readHeaderLines fuel (raw ++ line) after := by
  rw [readHeaderLines, bind_ok ran, filled]
  rfl

theorem readHeaderLines_stop {fuel : Nat} {raw line : Bytes} {wire after : Wire}
    (ran : readline wire = .ok line after) (blank : isBlank line = true) :
    readHeaderLines (fuel + 1) raw wire = .ok raw after := by
  rw [readHeaderLines, bind_ok ran, blank]
  rfl

theorem readHeaderLines_error {fuel : Nat} {raw : Bytes} {stop : Stop} {wire after : Wire}
    (ran : readline wire = .error stop after) :
    readHeaderLines (fuel + 1) raw wire = .error stop after := by
  rw [readHeaderLines, bind_error ran]

theorem readHeaderLines_skip (fuel : Nat) (raw : Bytes) (wire : Wire) (more rest : List Bytes)
    (lines_eq : wire.lines = more ++ rest) (fits : InLimit more) (filled : Filled more) :
    readHeaderLines (more.length + fuel) raw wire =
      readHeaderLines fuel (raw ++ joinLines more []) { wire with lines := rest } := by
  induction more generalizing raw wire with
  | nil =>
    have same : ({ wire with lines := rest } : Wire) = wire := by
      rw [← List.nil_append rest, ← lines_eq]
    simp [joinLines, same]
  | cons line more ih =>
    have ⟨line_fits, more_fits⟩ := List.forall_mem_cons.mp fits
    have ⟨line_filled, more_filled⟩ := List.forall_mem_cons.mp filled
    have step : readHeaderLines (more.length + fuel + 1) raw wire =
        readHeaderLines (more.length + fuel) (raw ++ (line ++ [10])) { wire with lines := more ++ rest } :=
      readHeaderLines_line (readline_line wire line (more ++ rest) lines_eq line_fits) line_filled
    have count : (line :: more).length + fuel = more.length + fuel + 1 := by
      simp only [List.length_cons]
      omega
    rw [count, step, ih _ _ rfl more_fits more_filled]
    simp [joinLines]

theorem readHead_first {first : Bytes} {rest : List Bytes} {wire : Wire}
    (lines_eq : wire.lines = first :: rest) (fits : first.length ≤ limit) :
    readHead wire =
      (do
        let block ← readHeaderLines (rest.length + 2) []
        return some (first ++ [10], block) : Handler (Option (Bytes × Bytes)))
        { wire with lines := rest } := by
  rw [readHead, bind_ok (readline_line wire first rest lines_eq fits), if_neg (by simp)]
  rfl

theorem readHead_skip {first : Bytes} {more rest : List Bytes} {wire : Wire}
    (lines_eq : wire.lines = first :: (more ++ rest)) (fits : InLimit (first :: more)) (filled : Filled more) :
    readHead wire =
      (do
        let block ← readHeaderLines (rest.length + 2) (joinLines more [])
        return some (first ++ [10], block) : Handler (Option (Bytes × Bytes)))
        { wire with lines := rest } := by
  have ⟨first_fits, more_fits⟩ := List.forall_mem_cons.mp fits
  have skipped := readHeaderLines_skip (rest.length + 2) [] { wire with lines := more ++ rest } more rest
    rfl more_fits filled
  rw [readHead_first lines_eq first_fits]
  have count : (more ++ rest).length + 2 = more.length + (rest.length + 2) := by
    simp only [List.length_append]
    omega
  simp only [bind, EStateM.bind, count, skipped, List.nil_append]

theorem readHead_lines {first : Bytes} {more : List Bytes} {wire : Wire}
    (lines_eq : wire.lines = first :: more) (fits : InLimit (first :: more)) (filled : Filled more) :
    readHead wire =
      (do
        let block ← readHeaderLines 2 (joinLines more [])
        return some (first ++ [10], block) : Handler (Option (Bytes × Bytes)))
        { wire with lines := [] } :=
  readHead_skip (by rw [lines_eq, List.append_nil]) fits filled

theorem Arrives.readHead {wire : Wire} {head : Head} (arrives : Arrives wire head)
    (newline : 10 ∉ wire.remnant) :
    Orchestrator.readHead wire = .ok (some (head.line, head.block)) (wire.behind head) := by
  cases arrives with
  | blank first stop more later lines_eq fits filled stops =>
    have read := readline_line { wire with lines := stop :: later } stop later rfl (isBlank_long stop stops)
    rw [readHead_skip lines_eq fits filled, bind_ok (readHeaderLines_stop read stops)]
    rfl
  | ended first more lines_eq fits filled rest_fits ends =>
    have read := readline_ended { wire with lines := [] } rfl rest_fits ends
    have again := readline_ended { wire with lines := [], remnant := [] } rfl (Nat.zero_le _) ends
    rw [readHead_lines lines_eq fits filled]
    by_cases empty : wire.remnant = []
    · have blank : isBlank wire.remnant = true := by
        rw [empty]
        rfl
      rw [bind_ok (readHeaderLines_stop read blank), empty]
      rfl
    · have filled : isBlank wire.remnant = false := by
        rw [isBlank, decide_eq_false_iff_not]
        rintro (crLf | lf | none_)
        · exact newline (by simp [crLf])
        · exact newline (by simp [lf])
        · exact empty none_
      rw [bind_ok ((readHeaderLines_line read filled).trans (readHeaderLines_stop again rfl))]
      simp [joinLines, Wire.behind]
      rfl
  | lineOnly lines_eq sent rest_fits ends =>
    have read := readline_ended wire lines_eq rest_fits ends
    have again := readline_ended { wire with lines := [], remnant := [] } rfl (Nat.zero_le _) ends
    rw [Orchestrator.readHead, bind_ok read, if_neg sent]
    exact bind_ok (readHeaderLines_stop again rfl)

theorem Overruns.readHead {wire : Wire} (overruns : Overruns wire) :
    ∃ lines, Orchestrator.readHead wire = .error (.raised .valueError) { wire with lines := lines } := by
  cases overruns with
  | line before long later lines_eq fits filled exceeds =>
    cases before with
    | nil => exact ⟨wire.lines, by rw [Orchestrator.readHead, bind_error (readline_long _ _ _ lines_eq exceeds)]⟩
    | cons first more =>
      refine ⟨long :: later, ?_⟩
      rw [readHead_skip lines_eq fits filled]
      exact bind_error (readHeaderLines_error (readline_long _ _ _ rfl exceeds))
  | remnant fits filled exceeds =>
    cases lines_eq : wire.lines with
    | nil => exact ⟨wire.lines, by rw [Orchestrator.readHead, bind_error (readline_remnant_long _ lines_eq exceeds)]⟩
    | cons first more =>
      rw [lines_eq] at fits filled
      refine ⟨[], ?_⟩
      rw [readHead_lines lines_eq fits filled]
      exact bind_error (readHeaderLines_error (readline_remnant_long _ rfl exceeds))

theorem Nothing.readHead {wire : Wire} (nothing : Nothing wire) :
    Orchestrator.readHead wire = .ok none { wire with lines := [], remnant := [] } := by
  obtain ⟨lines_eq, remnant_eq, ends⟩ := nothing
  have read := readline_ended wire lines_eq (by simp [remnant_eq]) ends
  rw [Orchestrator.readHead, bind_ok read, if_pos remnant_eq]
  rfl

theorem Broken.readHead {wire : Wire} (broken : Broken wire) :
    ∃ lines, Orchestrator.readHead wire = .error wire.ending.stop { wire with lines := lines } := by
  obtain ⟨fits, filled, rest_fits, open_⟩ := broken
  cases lines_eq : wire.lines with
  | nil =>
    exact ⟨wire.lines, by
      rw [Orchestrator.readHead, bind_error (readline_open wire lines_eq rest_fits open_)]⟩
  | cons first more =>
    rw [lines_eq] at fits filled
    refine ⟨[], ?_⟩
    rw [readHead_lines lines_eq fits filled]
    exact bind_error (readHeaderLines_error (readline_open _ rfl rest_fits open_))

theorem filled_cases (lines : List Bytes) :
    ∃ more rest, lines = more ++ rest ∧ InLimit more ∧ Filled more ∧
      ∀ line later, rest = line :: later → limit < line.length ∨ isBlank (line ++ [10]) = true := by
  induction lines with
  | nil => exact ⟨[], [], rfl, by simp [InLimit], by simp [Filled], by simp⟩
  | cons line lines ih =>
    by_cases goesOn : line.length ≤ limit ∧ isBlank (line ++ [10]) = false
    · obtain ⟨more, rest, rfl, fits, filled, stops⟩ := ih
      exact ⟨line :: more, rest, rfl, List.forall_mem_cons.mpr ⟨goesOn.1, fits⟩,
        List.forall_mem_cons.mpr ⟨goesOn.2, filled⟩, stops⟩
    · refine ⟨[], line :: lines, rfl, by simp [InLimit], by simp [Filled], fun l later same => ?_⟩
      obtain ⟨rfl, -⟩ := List.cons.inj same
      rwa [not_and_or, Nat.not_le, Bool.not_eq_false] at goesOn

theorem head_cases (wire : Wire) :
    (∃ head, Arrives wire head) ∨ Overruns wire ∨ Nothing wire ∨ Broken wire := by
  cases lines_eq : wire.lines with
  | nil =>
    have fits : InLimit wire.lines := by simp [lines_eq, InLimit]
    have filled : Filled wire.lines.tail := by simp [lines_eq, Filled]
    rcases Nat.lt_or_ge limit wire.remnant.length with exceeds | rest_fits
    · exact .inr (.inl (.remnant fits filled exceeds))
    · by_cases ends : wire.ending = .eof
      · by_cases sent : wire.remnant = []
        · exact .inr (.inr (.inl ⟨lines_eq, sent, ends⟩))
        · exact .inl ⟨_, .lineOnly lines_eq sent rest_fits ends⟩
      · exact .inr (.inr (.inr ⟨fits, filled, rest_fits, ends⟩))
  | cons first behind =>
    rcases Nat.lt_or_ge limit first.length with exceeds | first_fits
    · exact .inr (.inl (.line [] first behind lines_eq (by simp [InLimit]) (by simp [Filled]) exceeds))
    · obtain ⟨more, rest, rfl, more_fits, filled, stops⟩ := filled_cases behind
      have fits : InLimit (first :: more) := List.forall_mem_cons.mpr ⟨first_fits, more_fits⟩
      cases rest with
      | cons line later =>
        rcases stops line later rfl with exceeds | blank
        · exact .inr (.inl (.line (first :: more) line later lines_eq fits filled exceeds))
        · exact .inl ⟨_, .blank first line more later lines_eq fits filled blank⟩
      | nil =>
        rw [List.append_nil] at lines_eq
        rcases Nat.lt_or_ge limit wire.remnant.length with exceeds | rest_fits
        · exact .inr (.inl (.remnant (lines_eq ▸ fits) (lines_eq ▸ filled) exceeds))
        · by_cases ends : wire.ending = .eof
          · exact .inl ⟨_, .ended first more lines_eq fits filled rest_fits ends⟩
          · exact .inr (.inr (.inr ⟨lines_eq ▸ fits, lines_eq ▸ filled, rest_fits, ends⟩))

theorem Arrives.unique {wire : Wire} {head other : Head} (arrives : Arrives wire head)
    (too : Arrives wire other) (newline : 10 ∉ wire.remnant) : head = other := by
  have read := arrives.readHead newline
  rw [too.readHead newline] at read
  obtain ⟨same, behind⟩ := EStateM.Result.ok.inj read
  obtain ⟨line, block⟩ := Prod.mk.inj (Option.some.inj same)
  have lines := congrArg Wire.lines behind
  have remnant := congrArg Wire.remnant behind
  cases head
  cases other
  simp_all [Wire.behind]

theorem Arrives.not_overruns {wire : Wire} {head : Head} (arrives : Arrives wire head)
    (newline : 10 ∉ wire.remnant) : ¬ Overruns wire := by
  intro overruns
  obtain ⟨lines, read⟩ := overruns.readHead
  rw [arrives.readHead newline] at read
  cases read

def BodyArrives (wire : Wire) (count : Nat) (body : Bytes) : Prop :=
  let input := joinLines wire.lines wire.remnant
  (count ≤ input.length ∧ body = input.take count) ∨
    (input.length < count ∧ wire.ending = .eof ∧ body = input)

theorem BodyArrives.readBody {wire : Wire} {count : Nat} {body : Bytes}
    (arrives : BodyArrives wire count body) :
    ∃ lines remnant, Orchestrator.readBody count wire =
      .ok body { wire with lines := lines, remnant := remnant } := by
  unfold Orchestrator.readBody
  rcases arrives with ⟨enough, rfl⟩ | ⟨tooFew, ends, rfl⟩
  · by_cases some_ : 0 < count
    · rw [if_pos some_, readexactly, if_pos enough]
      exact ⟨_, _, rfl⟩
    · rw [if_neg some_, Nat.eq_zero_of_not_pos some_, List.take_zero]
      exact ⟨wire.lines, wire.remnant, rfl⟩
  · rw [if_pos (Nat.zero_lt_of_lt tooFew), readexactly, if_neg (Nat.not_le.mpr tooFew), atEnd_eof _ _ ends]
    exact ⟨_, _, rfl⟩

theorem BodyArrives.unique {wire : Wire} {count : Nat} {body other : Bytes}
    (arrives : BodyArrives wire count body) (too : BodyArrives wire count other) : body = other := by
  obtain ⟨_, _, read⟩ := arrives.readBody
  obtain ⟨_, _, again⟩ := too.readBody
  rw [read] at again
  exact (EStateM.Result.ok.inj again).1

theorem readBody_cases (wire : Wire) (count : Nat) :
    (∃ body, BodyArrives wire count body) ∨ readBody count wire = .error wire.ending.stop wire := by
  rcases Nat.lt_or_ge (joinLines wire.lines wire.remnant).length count with tooFew | enough
  · by_cases ends : wire.ending = .eof
    · exact .inl ⟨_, .inr ⟨tooFew, ends, rfl⟩⟩
    · refine .inr ?_
      rw [readBody, if_pos (Nat.zero_lt_of_lt tooFew), readexactly, if_neg (Nat.not_le.mpr tooFew),
        atEnd_open _ _ ends]
  · exact .inl ⟨_, .inl ⟨enough, rfl⟩⟩

theorem splitLines_newline (input : Bytes) : 10 ∉ (splitLines input).2 := by
  induction input with
  | nil => simp [splitLines]
  | cons b rest ih =>
    rcases parts : splitLines rest with ⟨lines, remnant⟩
    rw [parts] at ih
    by_cases newline : b = 10
    · simpa [splitLines, parts, newline] using ih
    · cases lines with
      | nil => simpa [splitLines, parts, newline] using ⟨Ne.symm newline, ih⟩
      | cons line lines => simpa [splitLines, parts, newline] using ih

theorem connect_newline (site : Site) (input : Bytes) (ending : Ending) (drains : Bool) :
    10 ∉ (connect site input ending drains).remnant := splitLines_newline input

theorem joinLines_splitLines (input : Bytes) :
    joinLines (splitLines input).1 (splitLines input).2 = input := by
  induction input with
  | nil => rfl
  | cons b rest ih =>
    rcases parts : splitLines rest with ⟨lines, remnant⟩
    rw [parts] at ih
    by_cases newline : b = 10
    · simpa [splitLines, parts, newline, joinLines] using ih
    · cases lines with
      | nil => simpa [splitLines, parts, newline, joinLines] using ih
      | cons line lines => simpa [splitLines, parts, newline, joinLines] using ih

end MidiToIp.Orchestrator
