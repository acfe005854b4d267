import Mathlib.Data.List.Basic
import MidiToIp.WebSocket.MidiWs

set_option autoImplicit false

-- The decoder completes a frame in two places and hands payload on in runs. Between calls it never waits
-- in `S_PAYLOAD` with nothing left to read, so a call is a fold over single bytes.

namespace MidiToIp.MidiWs

open Octets

variable {Host : Type} (host : DecoderHost Host)

/-- What the callbacks of a host keep of each other's work; nothing is asked of `onCtl`. -/
structure Lawful : Prop where
  dec_setDec : ∀ d s, host.dec (host.setDec d s) = d
  setDec_dec : ∀ s, host.setDec (host.dec s) s = s
  setDec_setDec : ∀ d d' s, host.setDec d (host.setDec d' s) = host.setDec d s
  dec_onData : ∀ p s, host.dec (host.onData p s) = host.dec s
  setDec_onData : ∀ d p s, host.setDec d (host.onData p s) = host.onData p (host.setDec d s)
  onData_nil : ∀ s, host.onData [] s = s
  onData_append : ∀ p q s, host.onData (p ++ q) s = host.onData q (host.onData p s)

def atFrameEnd (d : MidiWsDecoder) : Prop := d.state = .payload ∧ d.remaining = 0

instance (d : MidiWsDecoder) : Decidable (atFrameEnd d) :=
  inferInstanceAs (Decidable (d.state = .payload ∧ d.remaining = 0))

def settle (s : Host) : Host := if atFrameEnd (host.dec s) then complete host s else s

def takeByte (s : Host) (b : UInt8) : Host := (takePayload host s [b]).1

def feedByte (s : Host) (b : UInt8) : Option Host :=
  match (host.dec s).state with
  | .op => some (host.setDec (readOpcode (host.dec s) b) s)
  | .len => (readLength (host.dec s) b).map fun d => settle host (host.setDec d s)
  | .ext => some (settle host (host.setDec (readExtended (host.dec s) b) s))
  | .payload => some (settle host (takeByte host s b))

def feedBytes (s : Host) : Bytes → Bool × Host
  | [] => (true, s)
  | b :: rest =>
    match feedByte host s b with
    | none => (false, s)
    | some s => feedBytes s rest

@[simp] theorem feedBytes_nil (s : Host) : feedBytes host s [] = (true, s) := rfl

theorem feedBytes_append (s : Host) (first second : Bytes) :
    feedBytes host s (first ++ second) =
      if (feedBytes host s first).1 then feedBytes host (feedBytes host s first).2 second
      else feedBytes host s first := by
  induction first generalizing s with
  | nil => simp
  | cons b rest ih =>
    cases fed : feedByte host s b with
    | none => simp [feedBytes, fed]
    | some after => simpa [feedBytes, fed] using ih after

theorem complete_state (lawful : Lawful host) (s : Host) :
    (host.dec (complete host s)).state = .op := by
  simp [complete, lawful.dec_setDec]

theorem settle_settled (lawful : Lawful host) (s : Host) :
    ¬ atFrameEnd (host.dec (settle host s)) := by
  unfold settle
  split
  next => simp [atFrameEnd, complete_state host lawful]
  next open_ => exact open_

theorem settle_of_settled (s : Host) (settled : ¬ atFrameEnd (host.dec s)) : settle host s = s :=
  if_neg settled

theorem feedByte_settled (lawful : Lawful host) (s after : Host) (b : UInt8)
    (fed : feedByte host s b = some after) : ¬ atFrameEnd (host.dec after) := by
  unfold feedByte at fed
  split at fed
  next =>
    obtain rfl := Option.some.inj fed
    simp [atFrameEnd, lawful.dec_setDec, readOpcode]
  next =>
    obtain ⟨d, -, rfl⟩ := Option.map_eq_some_iff.mp fed
    exact settle_settled host lawful _
  next =>
    obtain rfl := Option.some.inj fed
    exact settle_settled host lawful _
  next =>
    obtain rfl := Option.some.inj fed
    exact settle_settled host lawful _

theorem feedBytes_settled (lawful : Lawful host) (s : Host) (data : Bytes)
    (settled : ¬ atFrameEnd (host.dec s)) : ¬ atFrameEnd (host.dec (feedBytes host s data).2) := by
  induction data generalizing s with
  | nil => exact settled
  | cons b rest ih =>
    unfold feedBytes
    split
    next => exact settled
    next after fed => exact ih after (feedByte_settled host lawful _ _ _ fed)

theorem takePayload_rest (s : Host) (data : Bytes) :
    (takePayload host s data).2 = data.drop (min (host.dec s).remaining data.length) := by
  simp only [takePayload]

theorem takePayload_take (s : Host) (data : Bytes) :
    (takePayload host s data).1 =
      (takePayload host s (data.take (min (host.dec s).remaining data.length))).1 := by
  simp only [takePayload, List.length_take, List.take_take]
  simp

theorem takePayload_dec (lawful : Lawful host) (s : Host) (data : Bytes) :
    (host.dec (takePayload host s data).1).state = (host.dec s).state ∧
      (host.dec (takePayload host s data).1).isControl = (host.dec s).isControl ∧
      (host.dec (takePayload host s data).1).remaining = (host.dec s).remaining - data.length := by
  unfold takePayload
  cases control : (host.dec s).isControl <;>
    simp [control, lawful.dec_setDec, lawful.dec_onData] <;> omega

theorem takePayload_cons (lawful : Lawful host) (s : Host) (b : UInt8) (rest : Bytes)
    (within : rest.length < (host.dec s).remaining) :
    (takePayload host s (b :: rest)).1 = (takePayload host (takeByte host s b) rest).1 := by
  have whole : min (host.dec s).remaining (rest.length + 1) = rest.length + 1 := by omega
  have one : min (host.dec s).remaining 1 = 1 := by omega
  have left : min ((host.dec s).remaining - 1) rest.length = rest.length := by omega
  have count : (host.dec s).remaining - (rest.length + 1) =
      (host.dec s).remaining - 1 - rest.length := by omega
  cases control : (host.dec s).isControl with
  | true =>
    have ctl := take_take_append 125 ((host.dec s).ctl ++ [b]) rest
    simp only [List.append_assoc, List.singleton_append] at ctl
    simp only [takeByte, takePayload, control, if_true, lawful.dec_setDec, lawful.setDec_setDec,
      List.length_cons, List.length_nil, Nat.zero_add, whole, one, left, count]
    simp [ctl]
  | false =>
    have split := lawful.onData_append [b] rest s
    simp only [List.singleton_append] at split
    simp only [takeByte, takePayload, control, Bool.false_eq_true, if_false, lawful.dec_setDec,
      lawful.dec_onData, lawful.setDec_setDec, List.length_cons, List.length_nil, Nat.zero_add,
      whole, one, left, count]
    simp [split, lawful.setDec_onData, lawful.setDec_setDec]

theorem feedBytes_payload (lawful : Lawful host) (s : Host) (b : UInt8) (run : Bytes)
    (inPayload : (host.dec s).state = .payload)
    (within : run.length < (host.dec s).remaining) :
    feedBytes host s (b :: run) = (true, settle host (takePayload host s (b :: run)).1) := by
  induction run generalizing s b with
  | nil => simp [feedBytes, feedByte, inPayload, takeByte]
  | cons next run ih =>
    obtain ⟨state, -, remaining⟩ := takePayload_dec host lawful s [b]
    simp only [List.length_cons, List.length_nil] at remaining within
    have more : ¬ atFrameEnd (host.dec (takeByte host s b)) := by
      simp only [atFrameEnd, takeByte, remaining]
      omega
    simp only [feedBytes, feedByte, inPayload, settle_of_settled host _ more]
    rw [takePayload_cons host lawful s b (next :: run) (by simp; omega)]
    exact ih (takeByte host s b) next (state.trans inPayload) (by
      simp only [takeByte, remaining]; omega)

theorem decodeLoop_payload (fuel : Nat) (s : Host) (b : UInt8) (rest : Bytes)
    (inPayload : (host.dec s).state = .payload) (more : 0 < (host.dec s).remaining) :
    decodeLoop host (fuel + 1) s (b :: rest) =
      decodeLoop host fuel
        (if (host.dec (takePayload host s (b :: rest)).1).remaining = 0 then
          complete host (takePayload host s (b :: rest)).1
        else (takePayload host s (b :: rest)).1)
        ((b :: rest).drop (min (host.dec s).remaining (b :: rest).length)) := by
  simp only [decodeLoop, decodeTurn, inPayload, more, if_true, takePayload_rest]

theorem decodeLoop_settle (lawful : Lawful host) (fuel : Nat) (s : Host) (data : Bytes)
    (done : atFrameEnd (host.dec s)) :
    decodeLoop host (fuel + 2) s data = decodeLoop host (fuel + 1) (complete host s) data := by
  cases data with
  | nil =>
    have closed := complete_state host lawful s
    simp [decodeLoop, done.1, done.2, closed]
  | cons b rest =>
    conv_lhs => unfold decodeLoop
    simp [decodeTurn, done.1, done.2]

theorem decodeLoop_eq_feedBytes (lawful : Lawful host) (fuel : Nat) (s : Host) (data : Bytes)
    (settled : ¬ atFrameEnd (host.dec s)) (enough : 2 * data.length + 1 ≤ fuel) :
    decodeLoop host fuel s data = feedBytes host s data := by
  induction size : data.length using Nat.strongRecOn generalizing fuel s data with
  | ind n ih =>
    -- one byte of a header has been read; the frame may have ended with it
    have afterHeader (fuel : Nat) (s : Host) (rest : Bytes) (shorter : rest.length < n)
        (enough : 2 * rest.length + 2 ≤ fuel) :
        decodeLoop host fuel s rest = feedBytes host (settle host s) rest := by
      by_cases done : atFrameEnd (host.dec s)
      · obtain ⟨left, rfl⟩ : ∃ left, fuel = left + 2 := ⟨fuel - 2, by omega⟩
        rw [decodeLoop_settle host lawful left s rest done, settle, if_pos done]
        apply ih rest.length shorter _ _ rest _ (by omega) rfl
        simp [atFrameEnd, complete_state host lawful]
      · rw [settle_of_settled host s done]
        exact ih rest.length shorter _ _ rest done (by omega) rfl
    cases data with
    | nil =>
      obtain ⟨left, rfl⟩ : ∃ left, fuel = left + 1 := ⟨fuel - 1, by omega⟩
      simp only [decodeLoop, feedBytes]
      exact if_neg settled
    | cons b rest =>
      simp only [List.length_cons] at size enough
      obtain ⟨left, rfl⟩ : ∃ left, fuel = left + 1 := ⟨fuel - 1, by omega⟩
      cases state : (host.dec s).state with
      | op =>
        have opened : ¬ atFrameEnd (host.dec (host.setDec (readOpcode (host.dec s) b) s)) := by
          simp [atFrameEnd, lawful.dec_setDec, readOpcode]
        have later := afterHeader left (host.setDec (readOpcode (host.dec s) b) s) rest
          (by omega) (by omega)
        simpa [decodeLoop, decodeTurn, feedBytes, feedByte, state,
          settle_of_settled host _ opened] using later
      | len =>
        cases read : readLength (host.dec s) b with
        | none => simp [decodeLoop, decodeTurn, feedBytes, feedByte, state, read]
        | some d =>
          have later := afterHeader left (host.setDec d s) rest (by omega) (by omega)
          simpa [decodeLoop, decodeTurn, feedBytes, feedByte, state, read] using later
      | ext =>
        have later := afterHeader left (host.setDec (readExtended (host.dec s) b) s) rest
          (by omega) (by omega)
        simpa [decodeLoop, decodeTurn, feedBytes, feedByte, state] using later
      | payload =>
        have more : 0 < (host.dec s).remaining := by
          have open_ := settled
          simp only [atFrameEnd, state, true_and] at open_
          omega
        -- the run that this turn takes, and what it leaves
        let count := min (host.dec s).remaining (rest.length + 1)
        have countBounds : 0 < count ∧ count ≤ (host.dec s).remaining ∧ count ≤ rest.length + 1 := by
          omega
        obtain ⟨run, taken⟩ : ∃ run, (b :: rest).take count = b :: run :=
          ⟨rest.take (count - 1), by
            obtain ⟨previous, eq⟩ : ∃ previous, count = previous + 1 := ⟨count - 1, by omega⟩
            rw [eq, List.take_succ_cons]; rfl⟩
        have runLength : run.length + 1 = count := by
          have length := congrArg List.length taken
          simp only [List.length_take, List.length_cons] at length
          omega
        have run_fed := feedBytes_payload host lawful s b run state (by omega)
        have run_same := takePayload_take host s (b :: rest)
        rw [List.length_cons, taken] at run_same
        rw [decodeLoop_payload host left s b rest state more, List.length_cons, run_same,
          ← List.take_append_drop count (b :: rest), feedBytes_append, taken, run_fed]
        obtain ⟨stateAfter, -, -⟩ := takePayload_dec host lawful s (b :: run)
        have settledForm : (if (host.dec (takePayload host s (b :: run)).1).remaining = 0 then
              complete host (takePayload host s (b :: run)).1
            else (takePayload host s (b :: run)).1) =
            settle host (takePayload host s (b :: run)).1 := by
          simp only [settle, atFrameEnd, stateAfter, state, true_and]
        rw [settledForm, ← taken, List.take_append_drop]
        exact ih ((b :: rest).drop count).length (by simp; omega) left _ _
          (settle_settled host lawful _) (by simp; omega) rfl

theorem midiWsDecode_eq_feedBytes (lawful : Lawful host) (s : Host) (data : Bytes)
    (settled : ¬ atFrameEnd (host.dec s)) : midiWsDecode host s data = feedBytes host s data :=
  decodeLoop_eq_feedBytes host lawful _ s data settled (by omega)

theorem accumulate_wrapped (bytes : Bytes) (start : Nat) (fits : start < 2 ^ 64) :
    bytes.foldl (fun total b => accumulate total b % 2 ^ 64) start =
      bytes.foldl accumulate start % 2 ^ 64 := by
  have wrap (total : Nat) (b : UInt8) :
      accumulate (total % 2 ^ 64) b % 2 ^ 64 = accumulate total b % 2 ^ 64 := by
    simp only [accumulate]
    omega
  have general (bytes : Bytes) (total : Nat) :
      bytes.foldl (fun total b => accumulate total b % 2 ^ 64) (total % 2 ^ 64) =
        bytes.foldl accumulate total % 2 ^ 64 := by
    induction bytes generalizing total with
    | nil => rfl
    | cons b rest ih => simp only [List.foldl_cons, wrap, ih]
  have whole := general bytes start
  rwa [Nat.mod_eq_of_lt fits] at whole

theorem feedBytes_extended (lawful : Lawful host) (s : Host) (field tail : Bytes)
    (state : (host.dec s).state = .ext) (count : (host.dec s).extLeft = field.length)
    (some_ : 0 < field.length) :
    feedBytes host s (field ++ tail) =
      feedBytes host
        (settle host (host.setDec
          { host.dec s with
            remaining := field.foldl (fun total b => accumulate total b % 2 ^ 64) (host.dec s).remaining
            extLeft := 0
            state := .payload } s)) tail := by
  induction field generalizing s with
  | nil => simp at some_
  | cons b rest ih =>
    simp only [List.length_cons] at count
    have read : readExtended (host.dec s) b =
        { host.dec s with
          remaining := accumulate (host.dec s).remaining b % 2 ^ 64
          extLeft := rest.length
          state := if rest.length = 0 then .payload else .ext } := by
      simp [readExtended, count, state]
    simp only [List.cons_append, feedBytes, feedByte, state, read]
    by_cases last : rest.length = 0
    · obtain rfl := List.length_eq_zero_iff.mp last
      simp
    · have open_ : ¬ atFrameEnd (host.dec (host.setDec (readExtended (host.dec s) b) s)) := by
        simp [atFrameEnd, lawful.dec_setDec, read, last]
      rw [read] at open_
      rw [settle_of_settled host _ open_]
      simp only [last, if_false]
      rw [ih _ (by simp [lawful.dec_setDec]) (by simp [lawful.dec_setDec]) (by omega)]
      simp [lawful.dec_setDec, lawful.setDec_setDec]

section Simulation

variable {Other : Type} (other : DecoderHost Other)

structure Simulates (related : Host → Other → Prop) : Prop where
  dec : ∀ s t, related s t → host.dec s = other.dec t
  setDec : ∀ s t d, related s t → related (host.setDec d s) (other.setDec d t)
  onData : ∀ s t p, related s t → related (host.onData p s) (other.onData p t)
  onCtl : ∀ s t opcode p, related s t → related (host.onCtl opcode p s) (other.onCtl opcode p t)

variable {host other} {related : Host → Other → Prop}

theorem Simulates.complete_related (simulates : Simulates host other related) (s : Host) (t : Other)
    (before : related s t) : related (complete host s) (complete other t) := by
  have same := simulates.dec s t before
  have reported : related
      (if (host.dec s).isControl then host.onCtl (host.dec s).opcode (host.dec s).ctl s else s)
      (if (other.dec t).isControl then other.onCtl (other.dec t).opcode (other.dec t).ctl t else t) := by
    rw [same]
    cases (other.dec t).isControl with
    | true => exact simulates.onCtl _ _ _ _ before
    | false => exact before
  unfold complete
  simp only [simulates.dec _ _ reported]
  exact simulates.setDec _ _ _ reported

theorem Simulates.takePayload_related (simulates : Simulates host other related) (s : Host)
    (t : Other) (data : Bytes) (before : related s t) :
    related (takePayload host s data).1 (takePayload other t data).1 ∧
      (takePayload host s data).2 = (takePayload other t data).2 := by
  have same := simulates.dec s t before
  let run := data.take (min (other.dec t).remaining data.length)
  let kept := { other.dec t with ctl := ((other.dec t).ctl ++ run).take 125 }
  have taken : related
      (if (other.dec t).isControl then host.setDec kept s else host.onData run s)
      (if (other.dec t).isControl then other.setDec kept t else other.onData run t) := by
    split
    · exact simulates.setDec _ _ _ before
    · exact simulates.onData _ _ _ before
  have decs := simulates.dec _ _ taken
  simp only [kept, run] at taken decs
  unfold takePayload
  simp only [same, decs]
  exact ⟨simulates.setDec _ _ _ taken, trivial⟩

theorem Simulates.decodeLoop_related (simulates : Simulates host other related) (fuel : Nat)
    (s : Host) (t : Other) (data : Bytes) (before : related s t) :
    (decodeLoop host fuel s data).1 = (decodeLoop other fuel t data).1 ∧
      related (decodeLoop host fuel s data).2 (decodeLoop other fuel t data).2 := by
  induction fuel generalizing s t data with
  | zero => exact ⟨rfl, before⟩
  | succ fuel ih =>
    have same := simulates.dec s t before
    cases data with
    | nil =>
      simp only [decodeLoop, same]
      split
      · exact ⟨rfl, simulates.complete_related s t before⟩
      · exact ⟨rfl, before⟩
    | cons b rest =>
      cases state : (other.dec t).state with
      | op =>
        simp only [decodeLoop, decodeTurn, same, state]
        exact ih _ _ _ (simulates.setDec _ _ _ before)
      | len =>
        simp only [decodeLoop, decodeTurn, same, state]
        cases readLength (other.dec t) b with
        | none => exact ⟨rfl, before⟩
        | some d => exact ih _ _ _ (simulates.setDec _ _ _ before)
      | ext =>
        simp only [decodeLoop, decodeTurn, same, state]
        exact ih _ _ _ (simulates.setDec _ _ _ before)
      | payload =>
        simp only [decodeLoop, decodeTurn, same, state]
        by_cases more : 0 < (other.dec t).remaining
        · obtain ⟨taken, left⟩ := simulates.takePayload_related s t (b :: rest) before
          simp only [more, if_true, left, simulates.dec _ _ taken]
          split
          · exact ih _ _ _ (simulates.complete_related _ _ taken)
          · exact ih _ _ _ taken
        · simp only [more, if_false, same]
          split
          · exact ih _ _ _ (simulates.complete_related _ _ before)
          · exact ih _ _ _ before

theorem Simulates.midiWsDecode_related (simulates : Simulates host other related) (s : Host)
    (t : Other) (data : Bytes) (before : related s t) :
    (midiWsDecode host s data).1 = (midiWsDecode other t data).1 ∧
      related (midiWsDecode host s data).2 (midiWsDecode other t data).2 :=
  simulates.decodeLoop_related _ s t data before

theorem midiWsDecode_keeps (host : DecoderHost Host) (kept : Host → Prop)
    (setDec : ∀ s d, kept s → kept (host.setDec d s))
    (onData : ∀ s p, kept s → kept (host.onData p s))
    (onCtl : ∀ s opcode p, kept s → kept (host.onCtl opcode p s))
    (s : Host) (data : Bytes) (before : kept s) : kept (midiWsDecode host s data).2 := by
  have simulates : Simulates host host fun s t => s = t ∧ kept s :=
    { dec := by rintro s t ⟨rfl, _⟩; rfl
      setDec := by rintro s t d ⟨rfl, keeps⟩; exact ⟨rfl, setDec _ _ keeps⟩
      onData := by rintro s t p ⟨rfl, keeps⟩; exact ⟨rfl, onData _ _ keeps⟩
      onCtl := by rintro s t opcode p ⟨rfl, keeps⟩; exact ⟨rfl, onCtl _ _ _ keeps⟩ }
  exact (simulates.midiWsDecode_related s s data ⟨rfl, before⟩).2.2

end Simulation

end MidiToIp.MidiWs
