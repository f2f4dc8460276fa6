import Mathlib.Data.List.Basic
import Mathlib.Data.BitVec

/-!
# SHA-256

The digest itself, on bytes. The sections and buffers of this development are
described for any digest; this is the one that the cores compute. The message
schedule is kept as a window of sixteen words, as a program that saves its
stack does.
-/

namespace Sha256

/-- A word moved around to the right. -/
def rightRot (value : BitVec 32) (count : ℕ) : BitVec 32 :=
  value >>> count ||| value <<< (32 - count)

/-- The round constants. -/
def k : List (BitVec 32) :=
  [0x428a2f98, 0x71374491, 0xb5c0fbcf, 0xe9b5dba5, 0x3956c25b, 0x59f111f1, 0x923f82a4, 0xab1c5ed5,
    0xd807aa98, 0x12835b01, 0x243185be, 0x550c7dc3, 0x72be5d74, 0x80deb1fe, 0x9bdc06a7, 0xc19bf174,
    0xe49b69c1, 0xefbe4786, 0x0fc19dc6, 0x240ca1cc, 0x2de92c6f, 0x4a7484aa, 0x5cb0a9dc, 0x76f988da,
    0x983e5152, 0xa831c66d, 0xb00327c8, 0xbf597fc7, 0xc6e00bf3, 0xd5a79147, 0x06ca6351, 0x14292967,
    0x27b70a85, 0x2e1b2138, 0x4d2c6dfc, 0x53380d13, 0x650a7354, 0x766a0abb, 0x81c2c92e, 0x92722c85,
    0xa2bfe8a1, 0xa81a664b, 0xc24b8b70, 0xc76c51a3, 0xd192e819, 0xd6990624, 0xf40e3585, 0x106aa070,
    0x19a4c116, 0x1e376c08, 0x2748774c, 0x34b0bcb5, 0x391c0cb3, 0x4ed8aa4a, 0x5b9cca4f, 0x682e6ff3,
    0x748f82ee, 0x78a5636f, 0x84c87814, 0x8cc70208, 0x90befffa, 0xa4506ceb, 0xbef9a3f7, 0xc67178f2]

/-- **The eight words of a hash.** -/
structure State where
  a : BitVec 32
  b : BitVec 32
  c : BitVec 32
  d : BitVec 32
  e : BitVec 32
  f : BitVec 32
  g : BitVec 32
  h : BitVec 32

/-- The hash of nothing yet. -/
def init : State :=
  ⟨0x6a09e667, 0xbb67ae85, 0x3c6ef372, 0xa54ff53a, 0x510e527f, 0x9b05688c, 0x1f83d9ab, 0x5be0cd19⟩

/-- A round, with its constant and its word of the schedule. -/
def round (x : State) (k w : BitVec 32) : State :=
  let s1 := rightRot x.e 6 ^^^ rightRot x.e 11 ^^^ rightRot x.e 25
  let ch := (x.e &&& x.f) ^^^ (~~~x.e &&& x.g)
  let temp1 := x.h + s1 + ch + k + w
  let s0 := rightRot x.a 2 ^^^ rightRot x.a 13 ^^^ rightRot x.a 22
  let maj := (x.a &&& x.b) ^^^ (x.a &&& x.c) ^^^ (x.b &&& x.c)
  ⟨temp1 + (s0 + maj), x.a, x.b, x.c, x.d + temp1, x.e, x.f, x.g⟩

/-- The word of the schedule after sixteen of them. -/
def extend (w : List (BitVec 32)) : BitVec 32 :=
  let w1 := w.getD 1 0
  let w14 := w.getD 14 0
  w.getD 0 0 + (rightRot w1 7 ^^^ rightRot w1 18 ^^^ w1 >>> 3) + w.getD 9 0
    + (rightRot w14 17 ^^^ rightRot w14 19 ^^^ w14 >>> 10)

/-- The rounds, with the next sixteen words of the schedule. -/
def rounds : List (BitVec 32) → State → List (BitVec 32) → State
  | [], x, _ => x
  | k :: ks, x, w => rounds ks (round x k (w.getD 0 0)) (w.tail ++ [extend w])

/-- **A chunk of sixteen words is consumed.** -/
def consumeChunk (h : State) (w : List (BitVec 32)) : State :=
  let x := rounds k h w
  ⟨h.a + x.a, h.b + x.b, h.c + x.c, h.d + x.d, h.e + x.e, h.f + x.f, h.g + x.g, h.h + x.h⟩

/-- Words of four bytes each, highest first. -/
def words : List (BitVec 8) → List (BitVec 32)
  | a :: b :: c :: d :: bytes => (a ++ b ++ c ++ d) :: words bytes
  | _ => []

/-- The bytes with a one behind them, zeros up to the last eight of a chunk, and
the number of their bits there. -/
def pad (bytes : List (BitVec 8)) : List (BitVec 8) :=
  let len := bytes.length
  let bits := BitVec.ofNat 64 (8 * len)
  bytes ++ 0x80 :: List.replicate ((119 - len % 64) % 64) 0
    ++ (List.range 8).map (fun i => bits.extractLsb' (56 - 8 * i) 8)

/-- Chunk after chunk. -/
def consume : ℕ → State → List (BitVec 32) → State
  | 0, h, _ => h
  | n + 1, h, w => consume n (consumeChunk h (w.take 16)) (w.drop 16)

/-- **SHA-256.** -/
def sha256 (bytes : List (BitVec 8)) : BitVec 256 :=
  let w := words (pad bytes)
  let h := consume (w.length / 16) init w
  h.a ++ h.b ++ h.c ++ h.d ++ h.e ++ h.f ++ h.g ++ h.h

example : sha256 [0x61, 0x62, 0x63]
    = 0xba7816bf8f01cfea414140de5dae2223b00361a396177a9cb410ff61f20015ad := by
  decide +kernel

end Sha256
