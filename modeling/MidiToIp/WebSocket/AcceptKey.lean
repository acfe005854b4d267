import MidiToIp.Shared.Base64
import MidiToIp.Shared.Sha1
import MidiToIp.WebSocket.MidiWs

set_option autoImplicit false

namespace MidiToIp

open Octets

namespace Ws

def wsGuid : String := "258EAFA5-E914-47DA-95CA-C5AB0DC85B11"

def encodeAscii (text : String) : Option Bytes :=
  if text.toList.all fun c => c.toNat < 128 then some (ascii text) else none

def acceptKey (key : String) : Option Bytes :=
  (encodeAscii (key ++ wsGuid)).map fun bytes => Base64.standard.encode (Sha1.digest bytes)

theorem encodeAscii_append (first second : String) (bytes more : Bytes)
    (encoded : encodeAscii first = some bytes) (encodedMore : encodeAscii second = some more) :
    encodeAscii (first ++ second) = some (bytes ++ more) := by
  simp only [encodeAscii, Option.ite_none_right_eq_some, Option.some.injEq] at encoded encodedMore ⊢
  obtain ⟨plain, rfl⟩ := encoded
  obtain ⟨plainMore, rfl⟩ := encodedMore
  rw [String.toList_append, List.all_append, plain, plainMore]
  exact ⟨rfl, by simp [ascii]⟩

end Ws

namespace MidiWs

def Sha1State.words (state : Sha1State) : Sha1.Words := ⟨state.a, state.b, state.c, state.d, state.e⟩

theorem or_shifted (i high low : Nat) (small : low < 2 ^ i) : high * 2 ^ i ||| low = high * 2 ^ i + low := by
  rw [Nat.mul_comm, Nat.two_pow_add_eq_or_of_lt small]

theorem word_fromBigEndian (a b c d : UInt8) :
    (a.toUInt32 <<< 24) ||| (b.toUInt32 <<< 16) ||| (c.toUInt32 <<< 8) ||| d.toUInt32 =
      UInt32.ofNat (fromBigEndian [a, b, c, d]) := by
  have smallA := a.toNat_lt
  have smallB := b.toNat_lt
  have smallC := c.toNat_lt
  have smallD := d.toNat_lt
  apply UInt32.toNat_inj.mp
  simp only [UInt32.toNat_or, UInt32.toNat_shiftLeft, UInt8.toNat_toUInt32, UInt32.toNat_ofNat',
    UInt32.reduceToNat, Nat.reduceMod, Nat.shiftLeft_eq]
  have first : a.toNat * 2 ^ 24 % 2 ^ 32 ||| b.toNat * 2 ^ 16 % 2 ^ 32 =
      (a.toNat * 2 ^ 8 + b.toNat) * 2 ^ 16 := by
    rw [Nat.mod_eq_of_lt (by omega), Nat.mod_eq_of_lt (by omega), or_shifted 24 _ _ (by omega)]
    omega
  have second : (a.toNat * 2 ^ 8 + b.toNat) * 2 ^ 16 ||| c.toNat * 2 ^ 8 % 2 ^ 32 =
      ((a.toNat * 2 ^ 8 + b.toNat) * 2 ^ 8 + c.toNat) * 2 ^ 8 := by
    rw [Nat.mod_eq_of_lt (by omega), or_shifted 16 _ _ (by omega)]
    omega
  rw [first, second, or_shifted 8 _ _ (by omega)]
  simp only [fromBigEndian, accumulate, List.foldl_cons, List.foldl_nil]
  omega

theorem blockWord_eq (blk : Bytes) (i : Nat) (inside : 4 * i + 4 ≤ blk.length) :
    blockWord blk i = UInt32.ofNat (fromBigEndian ((blk.drop (4 * i)).take 4)) := by
  have at_ (j : Nat) : blk.getD (i * 4 + j) 0 = (blk.drop (4 * i)).getD j 0 := by
    simp [List.getD_eq_getElem?_getD, List.getElem?_drop, Nat.mul_comm]
  have long : 4 ≤ (blk.drop (4 * i)).length := by
    rw [List.length_drop]
    omega
  have first := at_ 0
  rw [Nat.add_zero] at first
  rw [blockWord, first, at_, at_, at_]
  match blk.drop (4 * i), long with
  | a :: b :: c :: d :: _, _ => exact word_fromBigEndian a b c d

theorem schedule_eq (blk : Bytes) (size : blk.length = 64) :
    schedule blk = (List.range 80).map (Sha1.w blk) := by
  have grows (n : Nat) : (List.range' 16 n).foldl extendSchedule ((List.range 16).map (blockWord blk)) =
      (List.range (16 + n)).map (Sha1.w blk) := by
    induction n with
    | zero =>
      apply List.map_congr_left
      intro t member
      have early := List.mem_range.mp member
      rw [Sha1.w, if_pos early]
      exact blockWord_eq blk t (by omega)
    | succ n ih =>
      have known (j : Nat) (back : 0 < j) :
          ((List.range (16 + n)).map (Sha1.w blk)).getD (16 + n - j) 0 = Sha1.w blk (16 + n - j) := by
        have inside : 16 + n - j < ((List.range (16 + n)).map (Sha1.w blk)).length := by
          rw [List.length_map, List.length_range]
          omega
        rw [List.getD_eq_getElem _ _ inside, List.getElem_map, List.getElem_range]
      have late : ¬ 16 + n < 16 := by omega
      have newest : Sha1.w blk (16 + n) = rol (Sha1.w blk (16 + n - 3) ^^^ Sha1.w blk (16 + n - 8) ^^^
          Sha1.w blk (16 + n - 14) ^^^ Sha1.w blk (16 + n - 16)) 1 := by
        rw [Sha1.w, if_neg late]
        rfl
      rw [List.range'_concat, List.foldl_concat, ih, extendSchedule, Nat.one_mul,
        known 3 (by omega), known 8 (by omega), known 14 (by omega), known 16 (by omega), ← newest,
        ← Nat.add_assoc, List.range_succ, List.map_append]
      rfl
  exact grows 64

theorem sha1Round_eq (blk : Bytes) (size : blk.length = 64) (state : Sha1State) (t : Nat)
    (inside : t < 80) :
    (sha1Round (schedule blk) state t).words = Sha1.turn blk state.words t := by
  have word : (schedule blk).getD t 0 = Sha1.w blk t := by
    have within : t < ((List.range 80).map (Sha1.w blk)).length := by
      rwa [List.length_map, List.length_range]
    rw [schedule_eq blk size, List.getD_eq_getElem _ _ within, List.getElem_map, List.getElem_range]
  have sum (v f e k : UInt32) :
      v + f + e + k + (schedule blk).getD t 0 = v + f + e + Sha1.w blk t + k := by
    rw [word]
    ac_rfl
  unfold sha1Round Sha1.turn Sha1.f Sha1.k
  by_cases first : t < 20
  · have early : t ≤ 19 := by omega
    simp only [first, early, if_true, Sha1State.words, sum]
    rfl
  by_cases second : t < 40
  · have early : t ≤ 39 := by omega
    have late : ¬ t ≤ 19 := by omega
    simp only [first, second, early, late, if_true, if_false, Sha1State.words, sum]
    rfl
  by_cases third : t < 60
  · have early : t ≤ 59 := by omega
    have late : ¬ t ≤ 19 ∧ ¬ t ≤ 39 := by omega
    simp only [first, second, third, early, late.1, late.2, if_true, if_false, Sha1State.words, sum]
    rfl
  · have late : ¬ t ≤ 19 ∧ ¬ t ≤ 39 ∧ ¬ t ≤ 59 := by omega
    simp only [first, second, third, late.1, late.2.1, late.2.2, if_false, Sha1State.words, sum]
    rfl

theorem sha1Block_eq (state : Sha1State) (blk : Bytes) (size : blk.length = 64) :
    (sha1Block state blk).words = Sha1.process state.words blk := by
  have rounds (ts : List Nat) (inside : ∀ t ∈ ts, t < 80) (start : Sha1State) :
      (ts.foldl (sha1Round (schedule blk)) start).words =
        ts.foldl (Sha1.turn blk) start.words := by
    induction ts generalizing start with
    | nil => rfl
    | cons t rest ih =>
      rw [List.foldl_cons, List.foldl_cons, ih fun t member => inside t (List.mem_cons_of_mem _ member),
        sha1Round_eq blk size start t (inside t List.mem_cons_self)]
  have all := rounds (List.range 80) (fun t member => List.mem_range.mp member) state
  rw [Sha1.process, ← all]
  rfl

theorem sha1Blocks_eq (fuel : Nat) (state : Sha1State) (data later : Bytes)
    (enough : data.length / 64 = fuel) :
    (sha1Blocks fuel state data).2.length = data.length % 64 ∧
      (Sha1.blocks (data ++ later)).foldl Sha1.process state.words =
        (Sha1.blocks ((sha1Blocks fuel state data).2 ++ later)).foldl Sha1.process
          (sha1Blocks fuel state data).1.words := by
  induction fuel generalizing state data with
  | zero =>
    have short : data.length < 64 := by omega
    exact ⟨(Nat.mod_eq_of_lt short).symm, rfl⟩
  | succ fuel ih =>
    have long : data.length ≥ 64 := by omega
    have size : (data.take 64).length = 64 := by
      rw [List.length_take]
      omega
    have rest : (data.drop 64).length = data.length - 64 := List.length_drop
    obtain ⟨length, folded⟩ := ih (sha1Block state (data.take 64)) (data.drop 64) (by omega)
    rw [sha1Blocks, if_pos long]
    refine ⟨by omega, ?_⟩
    rw [← folded, sha1Block_eq state _ size, ← List.foldl_cons, ← Sha1.blocks_append _ _ size,
      ← List.append_assoc, List.take_append_drop]

theorem finalBlock_eq (state : Sha1State) (left : Bytes) (short : left.length < 64) (ml : Nat) :
    (if left.length ≥ 56 then
        sha1Block (sha1Block state (left ++ 0x80 :: List.replicate (63 - left.length) 0))
          ((List.replicate 64 0).take 56 ++ bigEndian 8 ml)
      else
        sha1Block state ((left ++ 0x80 :: List.replicate (63 - left.length) 0).take 56 ++
          bigEndian 8 ml)).words =
      (Sha1.blocks (left ++ 0x80 :: (List.replicate (Sha1.padding left.length) 0 ++
        bigEndian 8 ml))).foldl Sha1.process state.words := by
  split
  next crowded =>
    have first : (left ++ 0x80 :: List.replicate (63 - left.length) (0 : UInt8)).length = 64 := by
      simp only [List.length_append, List.length_cons, List.length_replicate]
      omega
    have zeros : List.replicate (Sha1.padding left.length) (0 : UInt8) =
        List.replicate (63 - left.length) 0 ++ List.replicate 56 0 := by
      rw [List.replicate_append_replicate]
      congr 1
      unfold Sha1.padding
      omega
    have second : (List.replicate 56 (0 : UInt8) ++ bigEndian 8 ml).length = 64 := by simp
    have cut : left ++ 0x80 :: (List.replicate (Sha1.padding left.length) 0 ++ bigEndian 8 ml) =
        (left ++ 0x80 :: List.replicate (63 - left.length) 0) ++
          (List.replicate 56 0 ++ bigEndian 8 ml) := by
      rw [zeros]
      simp
    rw [cut, Sha1.blocks_append _ _ first, Sha1.blocks_single _ second, List.foldl_cons, List.foldl_cons,
      List.foldl_nil, ← sha1Block_eq _ _ first, ← sha1Block_eq _ _ second]
    rfl
  next room =>
    have zeros : (left ++ 0x80 :: List.replicate (63 - left.length) 0).take 56 =
        left ++ 0x80 :: List.replicate (Sha1.padding left.length) (0 : UInt8) := by
      have padding : Sha1.padding left.length = 55 - left.length := by
        unfold Sha1.padding
        omega
      have behind : 56 - left.length = (55 - left.length) + 1 := by omega
      rw [List.take_append, List.take_of_length_le (by omega), behind, List.take_succ_cons,
        List.take_replicate, padding]
      congr 3
      omega
    have cut : left ++ 0x80 :: (List.replicate (Sha1.padding left.length) 0 ++ bigEndian 8 ml) =
        (left ++ 0x80 :: List.replicate (63 - left.length) 0).take 56 ++ bigEndian 8 ml := by
      rw [zeros]
      simp
    have only : ((left ++ 0x80 :: List.replicate (63 - left.length) (0 : UInt8)).take 56 ++
        bigEndian 8 ml).length = 64 := by
      simp only [List.length_append, List.length_take, List.length_cons, List.length_replicate,
        bigEndian_length]
      omega
    rw [cut, Sha1.blocks_single _ only, List.foldl_cons, List.foldl_nil, ← sha1Block_eq _ _ only]

theorem words_bytes (state : Sha1State) :
    wordBytes state.a ++ wordBytes state.b ++ wordBytes state.c ++ wordBytes state.d ++
      wordBytes state.e = state.words.bytes := by
  simp [Sha1.Words.bytes, Sha1State.words, wordBytes]

theorem sha1_eq (data : Bytes) : sha1 data = Sha1.digest data := by
  obtain ⟨length, folded⟩ := sha1Blocks_eq (data.length / 64) sha1Init data
    (0x80 :: (List.replicate (Sha1.padding data.length) 0 ++ bigEndian 8 (8 * data.length))) rfl
  unfold sha1
  rw [Sha1.digest, Sha1.padded, ← show sha1Init.words = Sha1.initial from rfl, folded]
  generalize sha1Blocks (data.length / 64) sha1Init data = last at length
  obtain ⟨state, left⟩ := last
  simp only at length
  have final := finalBlock_eq state left (by omega) (data.length * 8)
  have padding : Sha1.padding left.length = Sha1.padding data.length := by
    rw [length, Sha1.padding, Nat.mod_mod]
    rfl
  rw [padding, Nat.mul_comm data.length 8] at final
  simp only [words_bytes, Nat.mul_comm data.length 8]
  rw [← final]
  by_cases crowded : left.length ≥ 56
  · simp only [crowded, if_true]
  · simp only [crowded, if_false]

theorem b64Char_eq (v : UInt32) (digit : Nat) (value : v.toNat % 64 = digit % 64) :
    b64Char v = Base64.standard.char digit := by
  have low : (v &&& 0x3F).toNat = digit % 64 := by
    rw [UInt32.toNat_and, show (0x3F : UInt32).toNat = 2 ^ 6 - 1 from rfl, Nat.and_two_pow_sub_one_eq_mod,
      ← value]
  rw [b64Char, low]
  rfl

theorem group_toNat (a b c : UInt8) :
    ((a.toUInt32 <<< 16) ||| (b.toUInt32 <<< 8) ||| c.toUInt32).toNat = fromBigEndian [a, b, c] := by
  have word := word_fromBigEndian 0 a b c
  have fits : fromBigEndian [0, a, b, c] < 256 ^ 4 := fromBigEndian_lt _
  have same : fromBigEndian [0, a, b, c] = fromBigEndian [a, b, c] := by
    simp [fromBigEndian, accumulate]
  have zero : (0 : UInt8).toUInt32 <<< 24 = 0 := rfl
  rw [zero, UInt32.zero_or] at word
  rw [word, UInt32.toNat_ofNat', same, Nat.mod_eq_of_lt (by omega)]

theorem shifted_eq (v : UInt32) (bits digit : Nat) (few : bits < 32)
    (value : v.toNat / 2 ^ bits % 64 = digit % 64) :
    b64Char (v >>> UInt32.ofNat bits) = Base64.standard.char digit := by
  apply b64Char_eq
  have amount : (UInt32.ofNat bits).toNat % 32 = bits := by
    rw [UInt32.toNat_ofNat']
    omega
  rw [UInt32.toNat_shiftRight, Nat.shiftRight_eq_div_pow, amount]
  exact value

theorem midiWsBase64_eq (data : Bytes) : midiWsBase64 data = Base64.standard.encode data := by
  induction data using midiWsBase64.induct with
  | case1 a b c rest ih =>
    have group := group_toNat a b c
    rw [midiWsBase64, Base64.Alphabet.encode, ih]
    generalize (a.toUInt32 <<< 16) ||| (b.toUInt32 <<< 8) ||| c.toUInt32 = v at group ⊢
    rw [← group]
    congr 1
    · exact shifted_eq v 18 _ (by decide) rfl
    congr 1
    · exact shifted_eq v 12 _ (by decide) rfl
    congr 1
    · exact shifted_eq v 6 _ (by decide) rfl
    congr 1
    exact b64Char_eq v _ rfl
  | case2 a b =>
    have group : ((a.toUInt32 <<< 16) ||| (b.toUInt32 <<< 8)).toNat = fromBigEndian [a, b] * 256 := by
      have filled := group_toNat a b 0
      rw [show (0 : UInt8).toUInt32 = 0 from rfl, UInt32.or_zero] at filled
      rw [filled, show [a, b, 0] = [a, b] ++ [0] from rfl, fromBigEndian_concat, UInt8.toNat_zero,
        Nat.add_zero]
    rw [midiWsBase64, Base64.Alphabet.encode]
    generalize (a.toUInt32 <<< 16) ||| (b.toUInt32 <<< 8) = v at group ⊢
    congr 1
    · exact shifted_eq v 18 _ (by decide) (by omega)
    congr 1
    · exact shifted_eq v 12 _ (by decide) (by omega)
    congr 1
    exact shifted_eq v 6 _ (by decide) (by omega)
  | case3 a =>
    have group : (a.toUInt32 <<< 16).toNat = fromBigEndian [a] * 256 * 256 := by
      have filled := group_toNat a 0 0
      rw [show (0 : UInt8).toUInt32 = 0 from rfl, UInt32.zero_shiftLeft, UInt32.or_zero,
        UInt32.or_zero] at filled
      rw [filled, show [a, 0, 0] = [a] ++ [0] ++ [0] from rfl, fromBigEndian_concat, fromBigEndian_concat,
        UInt8.toNat_zero, Nat.add_zero, Nat.add_zero]
    rw [midiWsBase64, Base64.Alphabet.encode]
    generalize a.toUInt32 <<< 16 = v at group ⊢
    congr 1
    · exact shifted_eq v 18 _ (by decide) (by omega)
    congr 1
    exact shifted_eq v 12 _ (by decide) (by omega)
  | case4 => rfl

theorem midiWsAcceptKey_correct :
    (∀ clientKey : Bytes, clientKey.length ≤ 60 →
        midiWsAcceptKey clientKey = Base64.standard.encode (Sha1.digest (clientKey ++ wsGuid)) ∧
          ∀ key : String, Ws.encodeAscii key = some clientKey →
            Ws.acceptKey key = some (midiWsAcceptKey clientKey)) ∧
      (∀ data : Bytes, data.length < 2 ^ 61 → sha1 data = Sha1.digest data) ∧
      (∀ data : Bytes, midiWsBase64 data = Base64.standard.encode data ∧
        (midiWsBase64 data).length = 4 * ((data.length + 2) / 3)) ∧
      Function.Injective midiWsBase64 := by
  have encodes : midiWsBase64 = Base64.standard.encode := funext midiWsBase64_eq
  refine ⟨fun clientKey short => ?_, fun data _ => sha1_eq data, fun data => ?_, ?_⟩
  · have fits : ¬ clientKey.length + wsGuid.length > 96 := by
      have guid : wsGuid.length = 36 := rfl
      omega
    have accepted : midiWsAcceptKey clientKey =
        Base64.standard.encode (Sha1.digest (clientKey ++ wsGuid)) := by
      rw [midiWsAcceptKey, if_neg fits, midiWsBase64_eq, sha1_eq]
    refine ⟨accepted, fun key encoded => ?_⟩
    have joined := Ws.encodeAscii_append key Ws.wsGuid clientKey wsGuid encoded (by decide)
    rw [Ws.acceptKey, joined, accepted]
    rfl
  · exact ⟨midiWsBase64_eq data, by rw [midiWsBase64_eq, Base64.Alphabet.encode_length]⟩
  · rw [encodes]
    exact Base64.standard.encode_injective

theorem midiWsAcceptKey_correct_nonce :
    Ws.acceptKey "dGhlIHNhbXBsZSBub25jZQ==" =
      some (midiWsAcceptKey (ascii "dGhlIHNhbXBsZSBub25jZQ==")) :=
  (midiWsAcceptKey_correct.1 (ascii "dGhlIHNhbXBsZSBub25jZQ==") (by decide)).2 _ (by decide)

end MidiWs

end MidiToIp
