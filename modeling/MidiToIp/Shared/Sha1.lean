import MidiToIp.Shared.Bytes

set_option autoImplicit false

-- The functions carry the names of RFC 3174; a message is a string of fewer than `2 ^ 61` bytes.

namespace Sha1

open Octets

def circularShift (n : Nat) (x : UInt32) : UInt32 :=
  (x <<< UInt32.ofNat n) ||| (x >>> UInt32.ofNat (32 - n))

def padding (length : Nat) : Nat := (119 - length % 64) % 64

def padded (message : Bytes) : Bytes :=
  message ++ 0x80 :: (List.replicate (padding message.length) 0 ++ bigEndian 8 (8 * message.length))

def block (bytes : Bytes) (i : Nat) : Bytes := (bytes.drop (64 * i)).take 64

def blocks (bytes : Bytes) : List Bytes := (List.range (bytes.length / 64)).map (block bytes)

def f (t : Nat) (b c d : UInt32) : UInt32 :=
  if t ≤ 19 then (b &&& c) ||| (~~~ b &&& d)
  else if t ≤ 39 then b ^^^ c ^^^ d
  else if t ≤ 59 then (b &&& c) ||| (b &&& d) ||| (c &&& d)
  else b ^^^ c ^^^ d

def k (t : Nat) : UInt32 :=
  if t ≤ 19 then 0x5A827999
  else if t ≤ 39 then 0x6ED9EBA1
  else if t ≤ 59 then 0x8F1BBCDC
  else 0xCA62C1D6

def w (m : Bytes) (t : Nat) : UInt32 :=
  if t < 16 then UInt32.ofNat (fromBigEndian ((m.drop (4 * t)).take 4))
  else circularShift 1 (w m (t - 3) ^^^ w m (t - 8) ^^^ w m (t - 14) ^^^ w m (t - 16))

structure Words where
  a : UInt32
  b : UInt32
  c : UInt32
  d : UInt32
  e : UInt32

def initial : Words := ⟨0x67452301, 0xEFCDAB89, 0x98BADCFE, 0x10325476, 0xC3D2E1F0⟩

def turn (m : Bytes) (words : Words) (t : Nat) : Words :=
  { a := circularShift 5 words.a + f t words.b words.c words.d + words.e + w m t + k t
    b := words.a
    c := circularShift 30 words.b
    d := words.c
    e := words.d }

def process (h : Words) (m : Bytes) : Words :=
  let words := (List.range 80).foldl (turn m) h
  ⟨h.a + words.a, h.b + words.b, h.c + words.c, h.d + words.d, h.e + words.e⟩

def Words.bytes (words : Words) : Bytes :=
  [words.a, words.b, words.c, words.d, words.e].flatMap fun word => bigEndian 4 word.toNat

def digest (message : Bytes) : Bytes := ((blocks (padded message)).foldl process initial).bytes

theorem blocks_append (first rest : Bytes) (size : first.length = 64) :
    blocks (first ++ rest) = first :: blocks rest := by
  have count : (first ++ rest).length / 64 = rest.length / 64 + 1 := by
    rw [List.length_append]
    omega
  have later (i : Nat) : block (first ++ rest) (i + 1) = block rest i := by
    rw [block, block, List.drop_append, List.drop_eq_nil_of_le (by omega), List.nil_append]
    congr 2
    omega
  rw [blocks, count, List.range_succ_eq_map, List.map_cons, List.map_map]
  congr 1
  · simp [block, size]
  · exact List.map_congr_left fun i _ => later i

@[simp] theorem blocks_nil : blocks [] = [] := rfl

theorem blocks_single (only : Bytes) (size : only.length = 64) : blocks only = [only] := by
  simpa using blocks_append only [] size

end Sha1
