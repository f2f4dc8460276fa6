import Mathlib.Data.List.Basic
import Mathlib.Tactic.Linarith

/-!
# Byte order

A word is four bytes, and there are two orders to put them in. A little-endian
memory has the lowest byte first, a hash function reads the highest byte
first; a word that goes from one to the other has its bytes swapped on the
way. A digest is a long word whose first byte is the highest.

The lemmas say that swapping is what takes the one order to the other, for the
words that are read to be hashed and for those of a digest that is written.
-/

namespace ByteOrder

/-- The bytes of a word in the other order. -/
def swapBytes (x : BitVec 32) : BitVec 32 :=
  x.extractLsb' 0 8 ++ x.extractLsb' 8 8 ++ x.extractLsb' 16 8 ++ x.extractLsb' 24 8

/-- The bytes of a word, lowest first. -/
def leBytes (x : BitVec 32) : List (BitVec 8) :=
  (List.range 4).map (fun j => x.extractLsb' (8 * j) 8)

/-- The bytes of a word, highest first. -/
def beBytes (x : BitVec 32) : List (BitVec 8) :=
  (List.range 4).map (fun j => x.extractLsb' (24 - 8 * j) 8)

/-- Byte `n` of a digest, highest first. -/
def digestByte (d : BitVec 256) (n : ℕ) : BitVec 8 := d.extractLsb' (248 - 8 * n) 8

/-- A byte of a swapped word is the one across from it. -/
theorem extractLsb'_swapBytes (x : BitVec 32) {j : ℕ} (hj : j < 4) :
    (swapBytes x).extractLsb' (8 * j) 8 = x.extractLsb' (24 - 8 * j) 8 := by
  apply BitVec.eq_of_getLsbD_eq
  intro k hk
  unfold swapBytes
  simp only [BitVec.getLsbD_extractLsb', BitVec.getLsbD_append]
  obtain rfl | rfl | rfl | rfl : j = 0 ∨ j = 1 ∨ j = 2 ∨ j = 3 := by omega
  · grind
  · grind
  · grind
  · grind

/-- **A word read in the one order is hashed in the other.** -/
theorem beBytes_swapBytes (x : BitVec 32) : beBytes (swapBytes x) = leBytes x := by
  refine List.map_congr_left fun j hj => ?_
  have hlt := List.mem_range.1 hj
  have hacross : 24 - 8 * j = 8 * (3 - j) := by omega
  rw [hacross, extractLsb'_swapBytes x (by omega)]
  congr 1
  omega

/-- **A word of a digest, written in the other order, has the bytes of the
digest one after the other.** -/
theorem extractLsb'_swapBytes_digest (d : BitVec 256) {i j : ℕ} (hi : i < 8) (hj : j < 4) :
    (swapBytes (d.extractLsb' (224 - 32 * i) 32)).extractLsb' (8 * j) 8
      = digestByte d (4 * i + j) := by
  rw [extractLsb'_swapBytes _ hj, digestByte]
  apply BitVec.eq_of_getLsbD_eq
  intro k hk
  simp only [BitVec.getLsbD_extractLsb']
  rw [decide_eq_true (show 24 - 8 * j + k < 32 by omega), Bool.true_and,
    show 224 - 32 * i + (24 - 8 * j + k) = 248 - 8 * (4 * i + j) + k by omega]

/-- **A digest is its bytes.** -/
theorem eq_of_digestByte {d e : BitVec 256} (h : ∀ n < 32, digestByte d n = digestByte e n) :
    d = e := by
  apply BitVec.eq_of_getLsbD_eq
  intro k hk
  have hbit := congrArg (fun b : BitVec 8 => b.getLsbD (k % 8)) (h (31 - k / 8) (by omega))
  simp only [digestByte, BitVec.getLsbD_extractLsb'] at hbit
  rw [show 248 - 8 * (31 - k / 8) + k % 8 = k by omega,
    decide_eq_true (show k % 8 < 8 by omega), Bool.true_and, Bool.true_and] at hbit
  exact hbit

/-- **A digest is its words**, in either order of the bytes. -/
theorem eq_of_swapBytes {d e : BitVec 256}
    (h : ∀ i < 8, swapBytes (d.extractLsb' (224 - 32 * i) 32)
      = swapBytes (e.extractLsb' (224 - 32 * i) 32)) : d = e := by
  refine eq_of_digestByte (fun n hn => ?_)
  have hi : n / 4 < 8 := by omega
  have hj : n % 4 < 4 := Nat.mod_lt n (by decide)
  rw [← Nat.div_add_mod n 4, ← extractLsb'_swapBytes_digest d hi hj,
    ← extractLsb'_swapBytes_digest e hi hj, h _ hi]

/-- Two words one after the other are known from what they make. -/
theorem append_inj {v w : ℕ} {a a' : BitVec v} {b b' : BitVec w} (h : a ++ b = a' ++ b') :
    a = a' ∧ b = b' := by
  constructor
  · rw [← BitVec.extractLsb'_append_eq_left (a := a) (b := b), h,
      BitVec.extractLsb'_append_eq_left]
  · rw [← BitVec.extractLsb'_append_eq_right (a := a) (b := b), h,
      BitVec.extractLsb'_append_eq_right]

/-- A digest depends on byte `k` of the sections of `n` bytes: two that differ
only there have different digests. -/
def Counts (sha256 : List (BitVec 8) → BitVec 256) (n k : ℕ) : Prop :=
  ∃ c d : ℕ → BitVec 8, (∀ i, i ≠ k → c i = d i)
    ∧ sha256 ((List.range n).map c) ≠ sha256 ((List.range n).map d)

end ByteOrder
