import Mathlib.Tactic.Ring

/-!
# Words cut at a bit

Code that aligns an address or tests its alignment does so with a mask: all
ones above some bit, or all ones below it. Read as numbers, the first rounds
down to a multiple of a power of two and the second takes the remainder.
-/

namespace Masks

variable {w : ℕ}

/-- All ones above the lowest `n` bits: the rest is shifted out and back. -/
theorem and_high_eq_shift (x : BitVec w) (n : ℕ) :
    x &&& (BitVec.allOnes w <<< n) = x >>> n <<< n := by
  ext i hi
  rw [BitVec.getElem_and, BitVec.getElem_shiftLeft, BitVec.getElem_shiftLeft]
  by_cases hn : i < n
  · simp [hn]
  · simp [hn, show n + (i - n) = i by omega, hi]

/-- **The high bits** of a word: rounded down to a multiple of `2 ^ n`. -/
theorem toNat_and_high (x : BitVec w) (n : ℕ) :
    (x &&& (BitVec.allOnes w <<< n)).toNat = x.toNat / 2 ^ n * 2 ^ n := by
  rw [and_high_eq_shift, BitVec.toNat_shiftLeft, BitVec.toNat_ushiftRight,
    Nat.shiftRight_eq_div_pow, Nat.shiftLeft_eq, Nat.mod_eq_of_lt]
  exact (Nat.div_mul_le_self _ _).trans_lt x.isLt

/-- **Rounding up** to a multiple of `2 ^ n`, in the width of a word. -/
theorem toNat_add_sub_one_and_high (x : BitVec w) {a : BitVec w} {n : ℕ} (ha : a.toNat = 2 ^ n) :
    ((x + a - 1) &&& (BitVec.allOnes w <<< n)).toNat
      = (x.toNat + (2 ^ n - 1)) % 2 ^ w / 2 ^ n * 2 ^ n := by
  have hpos := Nat.two_pow_pos n
  have hlt := a.isLt
  have hone : (1 : BitVec w).toNat = 1 :=
    Nat.mod_eq_of_lt (Nat.lt_of_le_of_lt hpos (ha ▸ hlt))
  have hsub : (a - 1).toNat = 2 ^ n - 1 := by
    rw [BitVec.toNat_sub_of_le (BitVec.le_def.2 (by omega)), ha, hone]
  have hassoc : x + a - 1 = x + (a - 1) := by
    rw [BitVec.sub_eq_add_neg, BitVec.sub_eq_add_neg, BitVec.add_assoc]
  rw [toNat_and_high, hassoc, BitVec.toNat_add, hsub]

/-- **The low bits** of a word: its remainder by `2 ^ n`. -/
theorem toNat_and_low (x : BitVec w) {m : BitVec w} {n : ℕ} (hm : m.toNat = 2 ^ n - 1) :
    (x &&& m).toNat = x.toNat % 2 ^ n := by
  rw [BitVec.toNat_and, hm, Nat.and_two_pow_sub_one_eq_mod]

end Masks
