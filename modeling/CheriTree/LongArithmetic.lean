import Mathlib.Algebra.Order.Ring.Int
import Mathlib.Tactic.Ring
import Mathlib.Tactic.Linarith
import Mathlib.Tactic.LinearCombination

/-!
# Multiplication and division, a bit at a time

A shift-and-add multiplier holds the partial product and what is left of the
multiplier in one register of twice the width: in each step the multiplicand is
added to the upper half if the lowest bit is set, and all of it is moved down by
one place. A restoring divider holds what is left of the dividend and the
quotient so far in one register, and the remainder in another: in each step the
top bit of the dividend goes to the remainder, and the divisor is subtracted
from that if it fits.

Both are on numbers here, with the width as a parameter: after as many steps as
there are bits the one holds the product (`mulRun_eq`), and the other quotient
and remainder (`divRun_eq`).
-/

namespace LongArithmetic

/-! ## Multiplication -/

/-- **One step of the multiplier**, with a multiplicand of either sign. -/
def mulStep (w : ℕ) (m v : ℤ) : ℤ := (v + v % 2 * (m * 2 ^ w)) / 2

/-- The register after some steps. -/
def mulRun (w : ℕ) (m q : ℤ) : ℕ → ℤ
  | 0 => q
  | j + 1 => mulStep w m (mulRun w m q j)

/-- The lowest bit is given up when all is moved down. -/
theorem two_mul_mulStep {w : ℕ} (hw : 0 < w) (m v : ℤ) :
    2 * mulStep w m v = v + v % 2 * (m * 2 ^ w) - v % 2 := by
  obtain ⟨w, rfl⟩ := Nat.exists_eq_succ_of_ne_zero (Nat.pos_iff_ne_zero.1 hw)
  have heven : v % 2 * (m * 2 ^ (w + 1)) = 2 * (v % 2 * (m * 2 ^ w)) := by
    rw [pow_succ]
    ring
  unfold mulStep
  rw [heven]
  omega

/-- The lowest bit of the register is the next one of the multiplier. -/
theorem mod_two_of_register {j d : ℕ} {m q v : ℤ}
    (h : 2 ^ j * v = m * (q % 2 ^ j) * 2 ^ (j + 1 + d) + (q - q % 2 ^ j)) :
    v % 2 = q / 2 ^ j % 2 := by
  have hq := Int.emod_add_mul_ediv q (2 ^ j)
  have hpow : (2 : ℤ) ^ (j + 1 + d) = 2 ^ j * 2 * 2 ^ d := by rw [pow_add, pow_succ]
  have hmul : 2 ^ j * v = 2 ^ j * (2 * (m * (q % 2 ^ j) * 2 ^ d) + q / 2 ^ j) := by
    rw [h, hpow]
    linear_combination (-1 : ℤ) * hq
  have hv := Int.eq_of_mul_eq_mul_left (ne_of_gt (pow_pos (by decide) j)) hmul
  rw [hv]
  omega

/-- **What the register holds**: the multiplicand times the bits of the
multiplier that were looked at, above those that were not. -/
theorem two_pow_mul_mulRun {w : ℕ} (m q : ℤ) {j : ℕ} (hj : j ≤ w) :
    2 ^ j * mulRun w m q j = m * (q % 2 ^ j) * 2 ^ w + (q - q % 2 ^ j) := by
  induction j with
  | zero =>
    rw [pow_zero, Int.emod_one]
    show 1 * q = _
    ring
  | succ j ih =>
    have ih := ih (Nat.le_of_succ_le hj)
    have hbit : mulRun w m q j % 2 = q / 2 ^ j % 2 := by
      obtain ⟨d, rfl⟩ := Nat.exists_eq_add_of_le hj
      exact mod_two_of_register ih
    have htwo := two_mul_mulStep (Nat.lt_of_lt_of_le (Nat.succ_pos j) hj) m (mulRun w m q j)
    rw [hbit] at htwo
    have hsplit : q % 2 ^ (j + 1) = q % 2 ^ j + 2 ^ j * (q / 2 ^ j % 2) := by
      have hdiv : q / (2 ^ j * 2) = q / 2 ^ j / 2 := (Int.ediv_ediv_of_nonneg (by positivity)).symm
      rw [pow_succ, Int.emod_def, Int.emod_def, Int.emod_def, hdiv]
      ring
    calc 2 ^ (j + 1) * mulRun w m q (j + 1)
        = 2 ^ j * (2 * mulStep w m (mulRun w m q j)) := by
          rw [pow_succ, mul_assoc]
          rfl
      _ = 2 ^ j * mulRun w m q j + 2 ^ j * (q / 2 ^ j % 2) * (m * 2 ^ w - 1) := by
          rw [htwo]
          ring
      _ = m * (q % 2 ^ (j + 1)) * 2 ^ w + (q - q % 2 ^ (j + 1)) := by
          rw [ih, hsplit]
          ring

/-- **The product**: after as many steps as the multiplier has bits. -/
theorem mulRun_eq {w : ℕ} (m : ℤ) {q : ℤ} (hq : 0 ≤ q) (hlt : q < 2 ^ w) :
    mulRun w m q w = m * q := by
  have hrun := two_pow_mul_mulRun (w := w) m q (Nat.le_refl w)
  have hpos : (0 : ℤ) < 2 ^ w := pow_pos (by decide) w
  rw [Int.emod_eq_of_lt hq hlt] at hrun
  refine Int.eq_of_mul_eq_mul_left (ne_of_gt hpos) ?_
  rw [hrun]
  ring

/-! ## Division -/

/-- The remainder and the quotient register. -/
structure DivState where
  remainder : ℕ
  quotient : ℕ
deriving DecidableEq, Repr

/-- **One step of the divider.** -/
def divStep (w d : ℕ) (s : DivState) : DivState :=
  let newRemainder := 2 * s.remainder + s.quotient / 2 ^ (w - 1)
  let shifted := 2 * (s.quotient % 2 ^ (w - 1))
  if d ≤ newRemainder then ⟨newRemainder - d, shifted + 1⟩ else ⟨newRemainder, shifted⟩

/-- The registers after some steps. -/
def divRun (w d n : ℕ) : ℕ → DivState
  | 0 => ⟨0, n⟩
  | j + 1 => divStep w d (divRun w d n j)

/-- **What the registers hold** after `j` steps: the dividend is `a * 2 ^ k + b`,
of which `b` is still to come, and `a` has been divided. -/
structure Divides (d n j k : ℕ) (s : DivState) (a b q : ℕ) : Prop where
  dividend : n = a * 2 ^ k + b
  rest : b < 2 ^ k
  seen : a < 2 ^ j
  quotient : s.quotient = b * 2 ^ j + q
  divided : s.remainder + q * d = a
  remainder : s.remainder < d

section

variable {d n j k : ℕ} {s : DivState} {a b q : ℕ}

/-- The quotient so far has as many bits as were looked at. -/
theorem Divides.quotient_lt (h : Divides d n j k s a b q) : q < 2 ^ j := by
  have hd : 1 ≤ d := Nat.lt_of_le_of_lt (Nat.zero_le _) h.remainder
  have hle : q * 1 ≤ q * d := Nat.mul_le_mul_left q hd
  have := h.divided
  have := h.seen
  omega

/-- The remainder has no more bits than were looked at. -/
theorem Divides.remainder_lt (h : Divides d n j k s a b q) : s.remainder < 2 ^ j := by
  have := h.divided
  have := h.seen
  omega

/-- **The top bit of the quotient register** is the next one of the dividend. -/
theorem Divides.top_bit (h : Divides d n j (k + 1) s a b q) :
    s.quotient / 2 ^ (j + k) = b / 2 ^ k
      ∧ s.quotient % 2 ^ (j + k) = b % 2 ^ k * 2 ^ j + q := by
  have hb := Nat.mod_add_div b (2 ^ k)
  have hlow : b % 2 ^ k * 2 ^ j + q < 2 ^ (j + k) := by
    have hmod : b % 2 ^ k + 1 ≤ 2 ^ k := Nat.mod_lt b (Nat.two_pow_pos k)
    have hmul := Nat.mul_le_mul_right (2 ^ j) hmod
    have hq := h.quotient_lt
    rw [Nat.pow_add, Nat.mul_comm (2 ^ j)]
    rw [Nat.add_mul, Nat.one_mul] at hmul
    omega
  have hsplit : s.quotient = b % 2 ^ k * 2 ^ j + q + 2 ^ (j + k) * (b / 2 ^ k) := by
    rw [h.quotient]
    calc b * 2 ^ j + q = (b % 2 ^ k + 2 ^ k * (b / 2 ^ k)) * 2 ^ j + q := by rw [hb]
      _ = _ := by
        rw [Nat.pow_add]
        ring
  rw [hsplit, Nat.add_mul_div_left _ _ (Nat.two_pow_pos _), Nat.div_eq_of_lt hlow, Nat.zero_add,
    Nat.add_mul_mod_self_left, Nat.mod_eq_of_lt hlow]
  exact ⟨rfl, rfl⟩

/-- **A step divides one bit more.** -/
theorem Divides.step (h : Divides d n j (k + 1) s a b q) :
    ∃ q', Divides d n (j + 1) k (divStep (j + k + 1) d s) (2 * a + b / 2 ^ k) (b % 2 ^ k) q' := by
  obtain ⟨htop, hrest⟩ := h.top_bit
  have hb := Nat.mod_add_div b (2 ^ k)
  have hdividend : n = (2 * a + b / 2 ^ k) * 2 ^ k + b % 2 ^ k := by
    rw [h.dividend, Nat.pow_succ]
    calc a * (2 ^ k * 2) + b = a * (2 ^ k * 2) + (b % 2 ^ k + 2 ^ k * (b / 2 ^ k)) := by rw [hb]
      _ = _ := by ring
  have hbit : b / 2 ^ k < 2 := by
    have hlt := h.rest
    rw [Nat.pow_succ] at hlt
    exact Nat.div_lt_of_lt_mul hlt
  have hseen : 2 * a + b / 2 ^ k < 2 ^ (j + 1) := by
    have := h.seen
    rw [Nat.pow_succ]
    omega
  have hr := h.remainder
  have hdiv := h.divided
  have hmod := Nat.mod_lt b (Nat.two_pow_pos k)
  unfold divStep
  rw [show j + k + 1 - 1 = j + k from rfl, htop, hrest]
  dsimp only
  by_cases hfits : d ≤ 2 * s.remainder + b / 2 ^ k
  · -- the divisor fits
    rw [if_pos hfits]
    refine ⟨2 * q + 1, hdividend, hmod, hseen, ?_, ?_, ?_⟩
    · rw [Nat.pow_succ]
      ring
    · show 2 * s.remainder + b / 2 ^ k - d + (2 * q + 1) * d = 2 * a + b / 2 ^ k
      have hsplit : (2 * q + 1) * d = 2 * (q * d) + d := by ring
      omega
    · show 2 * s.remainder + b / 2 ^ k - d < d
      omega
  · rw [if_neg hfits]
    refine ⟨2 * q, hdividend, hmod, hseen, ?_, ?_, Nat.lt_of_not_le hfits⟩
    · rw [Nat.pow_succ]
      ring
    · show 2 * s.remainder + b / 2 ^ k + 2 * q * d = 2 * a + b / 2 ^ k
      have hsplit : 2 * q * d = 2 * (q * d) := by ring
      omega

end

/-- **What the registers hold along the run.** -/
theorem divides_divRun {d n : ℕ} (hd : 0 < d) (j k : ℕ) (hn : n < 2 ^ (j + k)) :
    ∃ a b q, Divides d n j k (divRun (j + k) d n j) a b q := by
  induction j generalizing k with
  | zero =>
    rw [Nat.zero_add] at hn
    exact ⟨0, n, 0, by rw [Nat.zero_mul, Nat.zero_add], hn, Nat.one_pos,
      by rw [Nat.pow_zero, Nat.mul_one]; rfl, by rw [Nat.zero_mul]; rfl, hd⟩
  | succ j ih =>
    have heq : j + 1 + k = j + (k + 1) := by omega
    rw [heq] at hn ⊢
    obtain ⟨a, b, q, h⟩ := ih (k + 1) hn
    obtain ⟨q', h'⟩ := h.step
    exact ⟨_, _, q', h'⟩

/-- **The remainder never needs a bit more** than the register has. -/
theorem remainder_lt_half {w d n j : ℕ} (hd : 0 < d) (hn : n < 2 ^ w) (hj : j < w) :
    (divRun w d n j).remainder < 2 ^ (w - 1) := by
  obtain ⟨k, rfl⟩ := Nat.exists_eq_add_of_lt hj
  obtain ⟨a, b, q, h⟩ := divides_divRun hd j (k + 1) hn
  refine lt_of_lt_of_le h.remainder_lt (Nat.pow_le_pow_right (by decide) ?_)
  omega

/-- **Quotient and remainder**: after as many steps as the dividend has bits. -/
theorem divRun_eq {w d n : ℕ} (hd : 0 < d) (hn : n < 2 ^ w) :
    divRun w d n w = ⟨n % d, n / d⟩ := by
  obtain ⟨a, b, q, h⟩ := divides_divRun hd w 0 hn
  have hb : b = 0 := Nat.lt_one_iff.1 h.rest
  have ha : a = n := by
    rw [h.dividend, hb, Nat.pow_zero, Nat.mul_one, Nat.add_zero]
  have hdiv := h.divided
  have hquot := h.quotient
  rw [hb, Nat.zero_mul, Nat.zero_add] at hquot
  rw [ha] at hdiv
  rw [Nat.mul_comm] at hdiv
  have hunique := (Nat.div_mod_unique hd).2 ⟨hdiv, h.remainder⟩
  rw [hunique.1, hunique.2, ← hquot]
  rfl

end LongArithmetic
