import MidiToIp.Command.SendSync

set_option autoImplicit false

-- The DMA writes while a poll reads; a poll looks at the transfer counter once, when it begins.

namespace MidiToIp.Command

open Machines

def commDmaTransferCount : UInt32 := 0xFFFFFFFF
def commRingMask : UInt32 := 0x4000 - 1

inductive PollPc where
  | idle
  | looping (writeIdx : UInt32)
  | called (writeIdx : UInt32)
  deriving DecidableEq, Repr

structure CommRing where
  commRing : Nat → UInt16 := fun _ => 0
  transferCount : UInt32 := commDmaTransferCount
  commReadIdx : UInt32 := 0
  pc : PollPc := .idle
  captured : List UInt16 := []
  delivered : List UInt16 := []
  polled : Nat := 0

inductive RingLabel where
  | capture (sample : UInt16)
  | poll
  | step
  deriving DecidableEq, Repr

namespace CommRing

-- A channel whose counter is at zero has stopped.
def dmaWrite (sample : UInt16) (s : CommRing) : CommRing :=
  if s.transferCount = 0 then { s with captured := s.captured ++ [sample] }
  else
    { s with
      commRing := fun i =>
        if i = s.captured.length % commRingWords then sample else s.commRing i
      transferCount := s.transferCount - 1
      captured := s.captured ++ [sample] }

def writeIdx (s : CommRing) : UInt32 := (commDmaTransferCount - s.transferCount) &&& commRingMask

def commemulPoll (s : CommRing) : CommRing :=
  { s with pc := .looping s.writeIdx, polled := s.captured.length }

def step (s : CommRing) : Option CommRing :=
  match s.pc with
  | .idle => none
  | .looping writeIdx =>
    if s.commReadIdx ≠ writeIdx then
      some { s with
        pc := .called writeIdx
        delivered := s.delivered ++ [s.commRing s.commReadIdx.toNat] }
    else some { s with pc := .idle }
  | .called writeIdx =>
    some { s with
      pc := .looping writeIdx
      commReadIdx := (s.commReadIdx + 1) &&& commRingMask }

def next (s : CommRing) : RingLabel → Option CommRing
  | .capture sample => some (s.dmaWrite sample)
  | .poll => if s.pc = .idle then some s.commemulPoll else none
  | .step => s.step

-- At most 16383 samples are unread, and fewer than 2^32 - 1 are captured.
def keepsUp (s : CommRing) : RingLabel → Prop
  | .capture _ => s.captured.length + 1 ≤ s.delivered.length + 16383 ∧
      s.captured.length + 1 < 2 ^ 32 - 1
  | _ => True

instance (s : CommRing) : (label : RingLabel) → Decidable (keepsUp s label)
  | .capture _ => inferInstanceAs (Decidable (_ ∧ _))
  | .poll | .step => .isTrue trivial

def stepsLeft (s : CommRing) : Nat :=
  match s.pc with
  | .idle => 0
  | .looping _ => 2 * (s.polled - s.delivered.length) + 1
  | .called _ => 2 * (s.polled - s.delivered.length) + 2

def Position (s : CommRing) : Prop :=
  match s.pc with
  | .idle => s.commReadIdx.toNat = s.delivered.length % commRingWords ∧ s.delivered.length = s.polled
  | .looping writeIdx =>
    s.commReadIdx.toNat = s.delivered.length % commRingWords ∧
      writeIdx.toNat = s.polled % commRingWords
  | .called writeIdx =>
    0 < s.delivered.length ∧ s.commReadIdx.toNat = (s.delivered.length - 1) % commRingWords ∧
      writeIdx.toNat = s.polled % commRingWords

structure Sound (s : CommRing) : Prop where
  counter : s.transferCount.toNat + s.captured.length = 2 ^ 32 - 1
  few : s.captured.length < 2 ^ 32 - 1
  received : s.delivered <+: s.captured
  slots : ∀ i, s.delivered.length ≤ i → (inside : i < s.captured.length) →
    s.commRing (i % commRingWords) = s.captured[i]
  room : s.captured.length < s.delivered.length + commRingWords
  due : s.delivered.length ≤ s.polled ∧ s.polled ≤ s.captured.length
  position : s.Position

theorem toNat_mask (x : UInt32) : (x &&& commRingMask).toNat = x.toNat % commRingWords := by
  rw [UInt32.toNat_and, show commRingMask.toNat = 2 ^ 14 - 1 from rfl, Nat.and_two_pow_sub_one_eq_mod]
  rfl

theorem toNat_writeIdx (s : CommRing)
    (counter : s.transferCount.toNat + s.captured.length = 2 ^ 32 - 1) :
    s.writeIdx.toNat = s.captured.length % commRingWords := by
  have most : s.transferCount ≤ commDmaTransferCount := by
    rw [UInt32.le_iff_toNat_le, show commDmaTransferCount.toNat = 2 ^ 32 - 1 from rfl]
    omega
  rw [writeIdx, toNat_mask, UInt32.toNat_sub_of_le _ _ most,
    show commDmaTransferCount.toNat = 2 ^ 32 - 1 from rfl]
  congr 1
  omega

theorem dmaWrite_running (s : CommRing) (sample : UInt16)
    (counter : s.transferCount.toNat + s.captured.length = 2 ^ 32 - 1)
    (total : s.captured.length + 1 < 2 ^ 32 - 1) :
    s.dmaWrite sample =
        { s with
          commRing := fun i =>
            if i = s.captured.length % commRingWords then sample else s.commRing i
          transferCount := s.transferCount - 1
          captured := s.captured ++ [sample] } ∧
      (s.transferCount - 1).toNat + (s.captured.length + 1) = 2 ^ 32 - 1 := by
  have running : 1 ≤ s.transferCount := by
    rw [UInt32.le_iff_toNat_le, show (1 : UInt32).toNat = 1 from rfl]
    omega
  have notZero : s.transferCount ≠ 0 := by
    rintro zero
    rw [zero] at running
    exact absurd running (by decide)
  refine ⟨if_neg notZero, ?_⟩
  rw [UInt32.toNat_sub_of_le _ _ running, show (1 : UInt32).toNat = 1 from rfl]
  rw [UInt32.le_iff_toNat_le, show (1 : UInt32).toNat = 1 from rfl] at running
  omega

theorem dmaWrite_sound (s : CommRing) (sample : UInt16) (sound : s.Sound)
    (meets : keepsUp s (.capture sample)) : (s.dmaWrite sample).Sound := by
  obtain ⟨unread, total⟩ := meets
  obtain ⟨written, counter⟩ := s.dmaWrite_running sample sound.counter total
  have within := sound.due
  rw [written]
  refine ⟨?_, ?_, ?_, fun i unreadAt inside => ?_, ?_, ?_, sound.position⟩
  · simpa using counter
  · simpa using total
  · exact sound.received.trans (List.prefix_append _ _)
  · replace unreadAt : s.delivered.length ≤ i := unreadAt
    simp only [List.length_append, List.length_singleton] at inside
    by_cases newest : i = s.captured.length
    · simp [newest]
    · -- the slot of an unread sample is not the one that is written
      have older : i < s.captured.length := by omega
      have apart : i % commRingWords ≠ s.captured.length % commRingWords := by
        unfold commRingWords
        omega
      simp only [apart, if_false]
      rw [sound.slots i unreadAt older, List.getElem_append_left older]
  · simp only [List.length_append, List.length_singleton, commRingWords]
    omega
  · simp only [List.length_append, List.length_singleton]
    omega

theorem commemulPoll_sound (s : CommRing) (sound : s.Sound) (idle : s.pc = .idle) :
    s.commemulPoll.Sound := by
  have position := sound.position
  simp only [Position, idle] at position
  exact
    { counter := sound.counter
      few := sound.few
      received := sound.received
      slots := sound.slots
      room := sound.room
      due := ⟨sound.received.length_le, le_rfl⟩
      position := ⟨position.1, s.toNat_writeIdx sound.counter⟩ }

theorem step_sound (s after : CommRing) (sound : s.Sound) (step : s.step = some after) :
    after.Sound ∧ after.stepsLeft + 1 = s.stepsLeft ∧ after.polled = s.polled := by
  have position := sound.position
  have due := sound.due
  have room := sound.room
  unfold CommRing.step at step
  split at step
  next => simp at step
  next writeIdx looping =>
    simp only [Position, looping] at position
    obtain ⟨readAt, writeAt⟩ := position
    split_ifs at step with goesOn
    · obtain rfl := Option.some.inj step
      have unread : s.delivered.length < s.polled := by
        rcases Nat.lt_or_eq_of_le due.1 with less | same
        · exact less
        · refine absurd (UInt32.toNat_inj.mp ?_) goesOn
          rw [readAt, writeAt, same]
      have inside : s.delivered.length < s.captured.length := by omega
      have value : s.commRing s.commReadIdx.toNat = s.captured[s.delivered.length] := by
        rw [readAt]
        exact sound.slots _ le_rfl inside
      have received : s.delivered ++ [s.captured[s.delivered.length]] <+: s.captured := by
        have so := List.prefix_iff_eq_take.mp sound.received
        have further := List.take_append_getElem inside
        rw [← so] at further
        rw [further]
        exact List.take_prefix _ _
      rw [value]
      refine ⟨⟨sound.counter, sound.few, received, fun i later inside => ?_, ?_, ?_, ?_⟩, ?_, rfl⟩
      · exact sound.slots i (by simp at later; omega) inside
      · simp only [List.length_append, List.length_singleton]
        omega
      · simp only [List.length_append, List.length_singleton]
        omega
      · simp [Position, readAt, writeAt]
      · simp only [stepsLeft, looping, List.length_append, List.length_singleton]
        omega
    · obtain rfl := Option.some.inj step
      rw [not_not] at goesOn
      have all : s.delivered.length = s.polled := by
        have same := congrArg UInt32.toNat goesOn
        rw [readAt, writeAt] at same
        unfold commRingWords at same room
        omega
      refine ⟨⟨sound.counter, sound.few, sound.received, sound.slots, room, due, readAt, all⟩, ?_, rfl⟩
      simp [stepsLeft, looping, all]
  next writeIdx called =>
    simp only [Position, called] at position
    obtain ⟨some_, readAt, writeAt⟩ := position
    obtain rfl := Option.some.inj step
    refine ⟨⟨sound.counter, sound.few, sound.received, sound.slots, room, due, ?_, writeAt⟩, ?_, rfl⟩
    · change _ = s.delivered.length % commRingWords
      rw [toNat_mask, UInt32.toNat_add, readAt, show (1 : UInt32).toNat = 1 from rfl]
      unfold commRingWords
      omega
    · simp [stepsLeft, called]

theorem next_sound (s after : CommRing) (label : RingLabel) (sound : s.Sound)
    (meets : keepsUp s label) (next : s.next label = some after) : after.Sound := by
  cases label with
  | capture sample =>
    obtain rfl := Option.some.inj next
    exact s.dmaWrite_sound sample sound meets
  | poll =>
    simp only [CommRing.next, Option.ite_none_right_eq_some, Option.some.injEq] at next
    obtain ⟨idle, rfl⟩ := next
    exact s.commemulPoll_sound sound idle
  | step => exact (s.step_sound after sound next).1

def commemulRingDepth (s : CommRing) : UInt32 := (s.writeIdx - s.commReadIdx) &&& commRingMask

def pending (s : CommRing) : List UInt16 :=
  (List.range s.commemulRingDepth.toNat).map fun i =>
    s.commRing ((s.commReadIdx.toNat + i) % commRingWords)

theorem toNat_ringDepth (s : CommRing)
    (counter : s.transferCount.toNat + s.captured.length = 2 ^ 32 - 1)
    (within : s.commReadIdx.toNat < commRingWords) :
    s.commemulRingDepth.toNat =
      (s.captured.length % commRingWords + commRingWords - s.commReadIdx.toNat) % commRingWords := by
  rw [commemulRingDepth, toNat_mask, UInt32.toNat_sub, s.toNat_writeIdx counter]
  unfold commRingWords at within ⊢
  omega

theorem pending_dmaWrite (s : CommRing) (sample : UInt16)
    (counter : s.transferCount.toNat + s.captured.length = 2 ^ 32 - 1)
    (total : s.captured.length + 1 < 2 ^ 32 - 1) (within : s.commReadIdx.toNat < commRingWords) :
    (s.dmaWrite sample).pending = capture sample s.pending := by
  obtain ⟨written, counterAfter⟩ := s.dmaWrite_running sample counter total
  have before := s.toNat_ringDepth counter within
  have later : (s.dmaWrite sample).commemulRingDepth.toNat =
      ((s.captured.length + 1) % commRingWords + commRingWords - s.commReadIdx.toNat) %
        commRingWords := by
    rw [written]
    have depth := toNat_ringDepth (s := { s with
      commRing := fun i => if i = s.captured.length % commRingWords then sample else s.commRing i
      transferCount := s.transferCount - 1
      captured := s.captured ++ [sample] }) (by simpa using counterAfter) within
    rw [depth, List.length_append, List.length_singleton]
  have readIdx : (s.dmaWrite sample).commReadIdx = s.commReadIdx := by rw [written]
  have slot : (s.dmaWrite sample).commRing =
      fun i => if i = s.captured.length % commRingWords then sample else s.commRing i := by rw [written]
  have length : s.pending.length = s.commemulRingDepth.toNat := by simp [pending]
  unfold capture
  split
  next full =>
    have empty : (s.dmaWrite sample).commemulRingDepth.toNat = 0 := by
      unfold commRingWords at *
      omega
    rw [pending, empty]
    rfl
  next room =>
    have deeper : (s.dmaWrite sample).commemulRingDepth.toNat = s.commemulRingDepth.toNat + 1 := by
      unfold commRingWords at *
      omega
    rw [pending, deeper, List.range_succ, List.map_append, pending, readIdx, slot]
    congr 1
    · apply List.map_congr_left
      intro i unread
      have older : (s.commReadIdx.toNat + i) % commRingWords ≠ s.captured.length % commRingWords := by
        have inside := List.mem_range.mp unread
        unfold commRingWords at *
        omega
      exact if_neg older
    · have newest : (s.commReadIdx.toNat + s.commemulRingDepth.toNat) % commRingWords =
          s.captured.length % commRingWords := by
        unfold commRingWords at *
        omega
      simp [newest]

theorem start_sound : Sound {} where
  counter := rfl
  few := by decide
  received := List.nil_prefix
  slots := fun i _ inside => absurd inside (Nat.not_lt_zero i)
  room := by decide
  due := ⟨le_rfl, le_rfl⟩
  position := ⟨rfl, rfl⟩

theorem stepsLeft_eq_zero (s : CommRing) : s.stepsLeft = 0 ↔ s.pc = .idle := by
  unfold stepsLeft
  cases s.pc <;> simp

theorem next_stepsLeft (s after : CommRing) (label : RingLabel) (sound : s.Sound)
    (meets : keepsUp s label) (samePoll : label ≠ .poll) (next : s.next label = some after) :
    [label].count .step + after.stepsLeft = s.stepsLeft ∧ after.polled = s.polled := by
  cases label with
  | capture sample =>
    obtain rfl := Option.some.inj next
    rw [(s.dmaWrite_running sample sound.counter meets.2).1]
    exact ⟨Nat.zero_add _, rfl⟩
  | poll => exact absurd rfl samePoll
  | step =>
    obtain ⟨-, fewer, polled⟩ := s.step_sound after sound next
    exact ⟨(Nat.add_comm _ _).trans fewer, polled⟩

end CommRing

def sampleRing : Machine CommRing RingLabel := ⟨CommRing.next⟩

theorem sampleRing_lossless (labels : List RingLabel) (s : CommRing)
    (run : sampleRing.Run CommRing.keepsUp {} labels s) :
    s.delivered <+: s.captured ∧ (s.pc = .idle → s.delivered = s.captured.take s.polled) ∧
      (s.pc ≠ .idle → (s.next .step).isSome) ∧ (s.stepsLeft = 0 ↔ s.pc = .idle) ∧
      s.stepsLeft ≤ 32768 ∧
      (∀ after, s.next .poll = some after → s.pc = .idle ∧ after.polled = s.captured.length ∧
        after.captured = s.captured ∧ after.delivered = s.delivered) ∧
      ∀ later t, sampleRing.Run (fun state label => CommRing.keepsUp state label ∧ label ≠ .poll) s
          later t →
        later.count .step + t.stepsLeft = s.stepsLeft ∧ t.polled = s.polled := by
  have sound : s.Sound := run.invariant CommRing.Sound CommRing.start_sound
    fun state label after sound meets next => state.next_sound after label sound meets next
  refine ⟨sound.received, fun idle => ?_, fun busy => ?_, s.stepsLeft_eq_zero, ?_,
    fun after begun => ?_, fun later t further => ?_⟩
  · have position := sound.position
    simp only [CommRing.Position, idle] at position
    rw [← position.2]
    exact List.prefix_iff_eq_take.mp sound.received
  · unfold CommRing.next CommRing.step
    cases here : s.pc with
    | idle => exact absurd here busy
    | looping writeIdx => simp only; split <;> rfl
    | called writeIdx => rfl
  · have room := sound.room
    have due := sound.due
    unfold CommRing.stepsLeft
    unfold commRingWords at room
    split <;> omega
  · simp only [CommRing.next, Option.ite_none_right_eq_some, Option.some.injEq] at begun
    obtain ⟨idle, rfl⟩ := begun
    exact ⟨idle, rfl, rfl, rfl⟩
  · induction further with
    | nil => exact ⟨Nat.zero_add _, rfl⟩
    | snoc label earlier meets next ih =>
      obtain ⟨count, polled⟩ := ih
      have soundThen := earlier.invariant CommRing.Sound sound
        fun state label after sound meets next => state.next_sound after label sound meets.1 next
      obtain ⟨fewer, same⟩ := CommRing.next_stepsLeft _ _ label soundThen meets.1 meets.2 next
      rw [List.count_append]
      exact ⟨by omega, same.trans polled⟩

theorem sampleRing_lossless_meanwhile :
    ∃ s, sampleRing.exec CommRing.keepsUp {}
        [.capture 0x8001, .poll, .step, .capture 0x8002, .step, .step] = some s ∧
      s.pc = .idle ∧ s.polled = 1 ∧ s.captured = [0x8001, 0x8002] ∧
      s.delivered = s.captured.take s.polled := by
  obtain ⟨s, executed, checks⟩ := (Option.any_eq_true _ _).mp
    (show ((sampleRing.exec CommRing.keepsUp {}
      [.capture 0x8001, .poll, .step, .capture 0x8002, .step, .step]).any fun s =>
        decide (s.pc = .idle ∧ s.polled = 1 ∧ s.captured = [0x8001, 0x8002])) = true by
      decide +kernel)
  obtain ⟨idle, polled, captured⟩ := of_decide_eq_true checks
  exact ⟨s, executed, idle, polled, captured,
    (sampleRing_lossless _ s (Machine.run_of_exec executed)).2.1 idle⟩

/-- What a step of a machine that keeps the unread words as a list does to them: the words captured,
and those that a poll hands over. -/
inductive ListStep : List UInt16 → List UInt16 → List UInt16 → List UInt16 → Prop
  | keep (words : List UInt16) : ListStep words [] [] words
  | capture (sample : UInt16) (words : List UInt16) : ListStep words [sample] [] (capture sample words)
  | poll (words : List UInt16) : ListStep words [] words []

theorem capture_map {Word : Type} (f : Word → UInt16) (x : Word) (ring : List Word) :
    (capture x ring).map f = capture (f x) (ring.map f) := by
  unfold capture
  rw [List.length_map]
  split <;> simp

namespace CommRing

structure Unread (s : CommRing) (words : List UInt16) : Prop where
  idle : s.pc = .idle
  pending : s.pending = words
  counter : s.transferCount.toNat + s.captured.length = 2 ^ 32 - 1
  within : s.commReadIdx.toNat < commRingWords

theorem start_unread : Unread {} [] := ⟨rfl, rfl, rfl, by decide⟩

theorem ring_and_step (s : CommRing) (writeIdx : UInt32) (n : Nat)
    (within : s.commReadIdx.toNat < commRingWords)
    (depth : ((writeIdx - s.commReadIdx) &&& commRingMask).toNat = n + 1) :
    ((writeIdx - ((s.commReadIdx + 1) &&& commRingMask)) &&& commRingMask).toNat = n ∧
      ((s.commReadIdx + 1) &&& commRingMask).toNat = (s.commReadIdx.toNat + 1) % commRingWords := by
  have size := s.commReadIdx.toNat_lt
  have other := writeIdx.toNat_lt
  have next : ((s.commReadIdx + 1) &&& commRingMask).toNat = (s.commReadIdx.toNat + 1) % commRingWords := by
    rw [toNat_mask, UInt32.toNat_add, show (1 : UInt32).toNat = 1 from rfl]
    unfold commRingWords at within ⊢
    omega
  refine ⟨?_, next⟩
  rw [toNat_mask, UInt32.toNat_sub] at depth ⊢
  rw [next]
  unfold commRingWords at within depth ⊢
  omega

-- A poll reads on to the write index that it took when it began; `n` samples lie ahead of it.
theorem exec_loop (n : Nat) (s : CommRing) (writeIdx : UInt32) (looping : s.pc = .looping writeIdx)
    (inside : writeIdx.toNat < commRingWords) (within : s.commReadIdx.toNat < commRingWords)
    (depth : ((writeIdx - s.commReadIdx) &&& commRingMask).toNat = n) :
    sampleRing.exec Machine.anyStep s (List.replicate (2 * n + 1) .step) = some { s with
      pc := .idle
      commReadIdx := writeIdx
      delivered := s.delivered ++
        (List.range n).map fun i => s.commRing ((s.commReadIdx.toNat + i) % commRingWords) } := by
  induction n generalizing s with
  | zero =>
    have same : s.commReadIdx = writeIdx := by
      have sizes := s.commReadIdx.toNat_lt
      apply UInt32.toNat_inj.mp
      rw [toNat_mask, UInt32.toNat_sub] at depth
      unfold commRingWords at inside within depth
      omega
    have ends : s.step = some { s with pc := .idle } := by
      simp [step, looping, same]
    rw [Nat.mul_zero, List.replicate_succ, Machine.exec_step (ends : sampleRing.next s .step = _)]
    simp [Machine.exec, same]
  | succ n ih =>
    have ahead : s.commReadIdx ≠ writeIdx := by
      rintro same
      rw [same, UInt32.sub_self] at depth
      simp at depth
    have read : s.step = some { s with
        pc := .called writeIdx
        delivered := s.delivered ++ [s.commRing s.commReadIdx.toNat] } := by
      simp [step, looping, ahead]
    obtain ⟨fewer, next_⟩ := s.ring_and_step writeIdx n within depth
    have turned := ih
      { s with
        pc := .looping writeIdx
        commReadIdx := (s.commReadIdx + 1) &&& commRingMask
        delivered := s.delivered ++ [s.commRing s.commReadIdx.toNat] } rfl
      (by rw [next_]; exact Nat.mod_lt _ (by decide)) fewer
    rw [show 2 * (n + 1) + 1 = 2 * n + 1 + 1 + 1 by omega, List.replicate_succ, List.replicate_succ]
    rw [Machine.exec_step (read : sampleRing.next s .step = _), Machine.exec_step rfl, turned]
    have onward : s.commRing s.commReadIdx.toNat :: (List.range n).map (fun i =>
        s.commRing ((((s.commReadIdx + 1) &&& commRingMask).toNat + i) % commRingWords)) =
        (List.range (n + 1)).map fun i => s.commRing ((s.commReadIdx.toNat + i) % commRingWords) := by
      rw [List.range_succ_eq_map, List.map_cons, List.map_map, Nat.add_zero, Nat.mod_eq_of_lt within, next_]
      congr 1
      apply List.map_congr_left
      intro i _
      rw [Nat.mod_add_mod, Nat.add_assoc, Nat.add_comm 1 i]
      rfl
    simp only [List.append_assoc, List.singleton_append, onward]

theorem exec_poll (s : CommRing) (idle : s.pc = .idle)
    (counter : s.transferCount.toNat + s.captured.length = 2 ^ 32 - 1)
    (within : s.commReadIdx.toNat < commRingWords) :
    sampleRing.exec Machine.anyStep s (.poll :: List.replicate (2 * s.commemulRingDepth.toNat + 1) .step) =
      some { s with
        commReadIdx := s.writeIdx
        delivered := s.delivered ++ s.pending
        polled := s.captured.length } := by
  have begun : sampleRing.next s .poll = some s.commemulPoll := if_pos idle
  have inside : s.writeIdx.toNat < commRingWords := by
    rw [s.toNat_writeIdx counter]
    exact Nat.mod_lt _ (by decide)
  rw [Machine.exec_step begun, exec_loop s.commemulRingDepth.toNat s.commemulPoll s.writeIdx rfl inside within rfl]
  simp only [commemulPoll, pending, idle]

theorem pending_eq_nil (s : CommRing) (met : s.commReadIdx = s.writeIdx) : s.pending = [] := by
  simp [pending, commemulRingDepth, met]

theorem Unread.polls {s : CommRing} {words : List UInt16} (unread : s.Unread words) :
    ∃ labels t, sampleRing.Run Machine.anyStep s labels t ∧ t.Unread [] ∧ t.captured = s.captured ∧
      t.delivered = s.delivered ++ words := by
  have drained := Machine.run_of_exec (s.exec_poll unread.idle unread.counter unread.within)
  have inside : s.writeIdx.toNat < commRingWords := by
    rw [s.toNat_writeIdx unread.counter]
    exact Nat.mod_lt _ (by decide)
  exact ⟨_, _, drained, ⟨unread.idle, pending_eq_nil _ (by simp only [writeIdx]), unread.counter, inside⟩, rfl,
    by rw [unread.pending]⟩

theorem Unread.follows {s : CommRing} {words captured given after : List UInt16} (unread : s.Unread words)
    (step : ListStep words captured given after) (total : (s.captured ++ captured).length < 2 ^ 32 - 1) :
    ∃ labels t, sampleRing.Run Machine.anyStep s labels t ∧ t.Unread after ∧
      t.captured = s.captured ++ captured ∧ t.delivered = s.delivered ++ given := by
  cases step with
  | keep => exact ⟨[], s, .nil, unread, by simp, by simp⟩
  | capture sample =>
    have room : s.captured.length + 1 < 2 ^ 32 - 1 := by simpa using total
    obtain ⟨written, counter⟩ := s.dmaWrite_running sample unread.counter room
    have pending := s.pending_dmaWrite sample unread.counter room unread.within
    rw [unread.pending] at pending
    refine ⟨[.capture sample], s.dmaWrite sample, .snoc _ .nil trivial rfl, ⟨?_, pending, ?_, ?_⟩, ?_, ?_⟩
    · rw [written]
      exact unread.idle
    · rw [written]
      simpa using counter
    · rw [written]
      exact unread.within
    · rw [written]
    · simp [written]
  | poll =>
    obtain ⟨labels, t, run, empty, captured, delivered⟩ := unread.polls
    exact ⟨labels, t, run, empty, by rw [captured, List.append_nil], delivered⟩

theorem follows_run {State Label : Type} {machine : Machine State Label} {allowed : State → Label → Prop}
    (ring : State → List UInt16) (word : Label → Bool)
    (steps : ∀ state label after, machine.next state label = some after → ∃ captured given,
      ListStep (ring state) captured given (ring after) ∧ captured.length ≤ [label].countP word)
    {start state : State} {labels : List Label} (run : machine.Run allowed start labels state)
    (empty : ring start = []) (total : labels.countP word < 2 ^ 32 - 1) :
    ∃ ringLabels s, sampleRing.Run Machine.anyStep {} ringLabels s ∧ s.Unread (ring state) ∧
      s.captured.length ≤ labels.countP word := by
  induction run with
  | nil => exact ⟨[], {}, .nil, empty ▸ start_unread, Nat.zero_le _⟩
  | snoc label earlier meets next ih =>
    rw [List.countP_append] at total ⊢
    obtain ⟨before, s, reached, unread, few⟩ := ih (by omega)
    obtain ⟨captured, given, listStep, one⟩ := steps _ label _ next
    have room : (s.captured ++ captured).length < 2 ^ 32 - 1 := by
      rw [List.length_append]
      omega
    obtain ⟨further, t, ringRun, unreadAfter, more, -⟩ := unread.follows listStep room
    refine ⟨before ++ further, t, reached.append ringRun, unreadAfter, ?_⟩
    rw [more, List.length_append]
    omega

end CommRing

end MidiToIp.Command
