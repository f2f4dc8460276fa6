import Mathlib.Algebra.Order.Floor.Div
import Mathlib.Data.Nat.Log
import Mathlib.Tactic.Ring
import Mathlib.Tactic.Linarith

/-!
# Intervals that fit a block exponent

An interval of naturals is kept in few bits: its two ends share an exponent,
and what is left of each is a number of *granules*. The format has `k` bits
that it gives up once there is an exponent, and room for `p` bits of the number
of granules between the ends (`Representable`).

Not every interval is representable, so one that is not has to be widened. This
module says by how much: `enclose` takes the exponent off the length, rounds
both ends outward, and takes one exponent more if the rounding has made the
interval too long. The result is representable, and it is the **least**
representable interval around the given one (`enclose_least`). Everything a
user of such a format wants follows: nothing is widened that did not have to be
(`enclose_eq_iff`), and an interval cut from a representable one stays within
it.
-/

namespace BlockRounding

/-- The last multiple of `g` up to `a`. -/
def down (g a : ℕ) : ℕ := g * (a / g)

/-- The first multiple of `g` from `a` on. -/
def up (g a : ℕ) : ℕ := g * (a ⌈/⌉ g)

section Granule

variable {g a b t : ℕ}

theorem dvd_down (g a : ℕ) : g ∣ down g a := Nat.dvd_mul_right _ _

theorem dvd_up (g a : ℕ) : g ∣ up g a := Nat.dvd_mul_right _ _

theorem down_le (g a : ℕ) : down g a ≤ a := Nat.mul_div_le a g

theorem lt_down_add (hg : 0 < g) (a : ℕ) : a < down g a + g := Nat.lt_mul_div_succ a hg

theorem le_down (hb : g ∣ b) (h : b ≤ a) : b ≤ down g a := by
  obtain ⟨q, rfl⟩ := hb
  obtain rfl | hg := Nat.eq_zero_or_pos g
  · rw [zero_mul]
    exact Nat.zero_le _
  · exact Nat.mul_le_mul_left g ((Nat.le_div_iff_mul_le hg).2 (by rwa [mul_comm]))

theorem le_up (hg : 0 < g) (a : ℕ) : a ≤ up g a := (ceilDiv_le_iff_le_mul hg).1 le_rfl

theorem up_le (hg : 0 < g) (ht : g ∣ t) (h : a ≤ t) : up g a ≤ t := by
  obtain ⟨q, rfl⟩ := ht
  exact Nat.mul_le_mul_left g ((ceilDiv_le_iff_le_mul hg).2 h)

theorem up_lt_add (hg : 0 < g) (a : ℕ) : up g a < a + g := by
  rw [up, Nat.ceilDiv_eq_add_pred_div]
  have := Nat.mul_div_le (a + g - 1) g
  omega

theorem down_eq_iff : down g a = a ↔ g ∣ a := Nat.mul_div_eq_iff_dvd

theorem up_eq_iff (hg : 0 < g) : up g a = a ↔ g ∣ a := by
  constructor
  · intro h
    exact h ▸ dvd_up g a
  · intro h
    exact le_antisymm (up_le hg h le_rfl) (le_up hg a)

/-- The ceiling as it is computed: the quotient, and one more if something is
lost. -/
theorem ceilDiv_eq (hg : 0 < g) (a : ℕ) :
    a ⌈/⌉ g = a / g + if a % g = 0 then 0 else 1 := by
  have hsplit := Nat.div_add_mod a g
  have hmod := Nat.mod_lt a hg
  have hcases : a + g - 1 = a % g + g - 1 + g * (a / g) := by omega
  rw [Nat.ceilDiv_eq_add_pred_div, hcases, Nat.add_mul_div_left _ _ hg, add_comm]
  congr 1
  split
  · rename_i h
    rw [h]
    exact Nat.div_eq_of_lt (by omega)
  · exact Nat.div_eq_of_lt_le (by omega) (by omega)

/-- **The granules an interval touches.** -/
def granules (g b t : ℕ) : ℕ := t ⌈/⌉ g - b / g

theorem div_le_ceilDiv (hg : 0 < g) (h : b ≤ t) : b / g ≤ t ⌈/⌉ g := by
  rw [ceilDiv_eq hg]
  exact (Nat.div_le_div_right h).trans (Nat.le_add_right _ _)

/-- The granules fill the rounded interval. -/
theorem mul_granules (g b t : ℕ) : g * granules g b t = up g t - down g b := by
  rw [granules, Nat.mul_sub, up, down]

theorem le_mul_granules (hg : 0 < g) : t - b ≤ g * granules g b t := by
  have := le_up hg t
  have := down_le g b
  rw [mul_granules]
  omega

theorem mul_granules_lt (hg : 0 < g) (h : b ≤ t) : g * granules g b t < t - b + 2 * g := by
  have := up_lt_add hg t
  have := lt_down_add hg b
  rw [mul_granules]
  omega

/-- Coarser granules cover more. -/
theorem mul_granules_le {g' : ℕ} (hg' : 0 < g') (hdvd : g ∣ g') :
    g * granules g b t ≤ g' * granules g' b t := by
  have hg : 0 < g := Nat.pos_of_dvd_of_pos hdvd hg'
  have hup := up_le hg (hdvd.trans (dvd_up g' t)) (le_up hg' t)
  have hdown := le_down (hdvd.trans (dvd_down g' b)) (down_le g' b)
  rw [mul_granules, mul_granules]
  omega

end Granule

/-- **An interval the format can hold**: a short one with any ends, and a longer
one whose ends are whole granules of an exponent, with few enough granules
between them. -/
def Representable (p k b t : ℕ) : Prop :=
  t - b < 2 ^ (p + k - 1) ∨ ∃ e, 2 ^ (e + k) ∣ b ∧ 2 ^ (e + k) ∣ t ∧ t - b < 2 ^ (e + k + p)

/-- The exponent the length alone asks for. -/
def lengthExponent (p k b t : ℕ) : ℕ := Nat.log2 (t - b) - (p + k - 1)

/-- **The exponent**: that of the length, or the next one where rounding the
ends makes the interval too long. -/
def exponent (p k b t : ℕ) : ℕ :=
  let e := lengthExponent p k b t
  if 2 ^ p ≤ granules (2 ^ (e + k)) b t then e + 1 else e

/-- The granule of an interval, a single unit for a short one. -/
def granule (p k b t : ℕ) : ℕ :=
  if t - b < 2 ^ (p + k - 1) then 1 else 2 ^ (exponent p k b t + k)

/-- **The interval around a given one** that the format holds. -/
def enclose (p k b t : ℕ) : ℕ × ℕ := (down (granule p k b t) b, up (granule p k b t) t)

section Enclose

variable {p k b t : ℕ}

theorem granule_pos (p k b t : ℕ) : 0 < granule p k b t := by
  unfold granule
  split
  · exact Nat.one_pos
  · exact Nat.two_pow_pos _

theorem enclose_fst_le (p k b t : ℕ) : (enclose p k b t).1 ≤ b := down_le _ _

theorem le_enclose_snd (p k b t : ℕ) : t ≤ (enclose p k b t).2 := le_up (granule_pos p k b t) t

theorem enclose_of_short (h : t - b < 2 ^ (p + k - 1)) : enclose p k b t = (b, t) := by
  rw [enclose, granule, if_pos h, down_eq_iff.2 (one_dvd b), (up_eq_iff Nat.one_pos).2 (one_dvd t)]

/-- What the length says about its exponent. -/
theorem lengthExponent_spec (hp : 0 < p) (h : 2 ^ (p + k - 1) ≤ t - b) :
    2 ^ (lengthExponent p k b t + k + (p - 1)) ≤ t - b
      ∧ t - b < 2 ^ (lengthExponent p k b t + k + p) := by
  have hne : t - b ≠ 0 := (lt_of_lt_of_le (Nat.two_pow_pos _) h).ne'
  have hlog : p + k - 1 ≤ Nat.log2 (t - b) := (Nat.le_log2 hne).2 h
  have heq : lengthExponent p k b t + k + (p - 1) = Nat.log2 (t - b) := by
    rw [lengthExponent]
    omega
  have heq' : lengthExponent p k b t + k + p = Nat.log2 (t - b) + 1 := by
    omega
  rw [heq, heq']
  exact ⟨Nat.log2_self_le hne, Nat.lt_log2_self⟩

/-- An exponent between the two powers of the length is its exponent. -/
theorem lengthExponent_eq {e : ℕ} (hp : 0 < p) (h : 2 ^ (e + k + (p - 1)) ≤ t - b)
    (h' : t - b < 2 ^ (e + k + p)) : lengthExponent p k b t = e := by
  have hne : t - b ≠ 0 := (lt_of_lt_of_le (Nat.two_pow_pos _) h).ne'
  have hlo := (Nat.le_log2 hne).2 h
  have hhi := (Nat.log2_lt hne).2 h'
  rw [lengthExponent]
  omega

/-- Rounding with the exponent of the length needs one bit more at most. -/
theorem granules_lengthExponent_lt (hp : 0 < p) (hbt : b ≤ t) (h : 2 ^ (p + k - 1) ≤ t - b) :
    granules (2 ^ (lengthExponent p k b t + k)) b t < 2 ^ (p + 1) := by
  obtain ⟨-, hhi⟩ := lengthExponent_spec hp h
  have hg := Nat.two_pow_pos (lengthExponent p k b t + k)
  have hlt := mul_granules_lt hg hbt
  have htwo : 2 ≤ 2 ^ p := by
    calc 2 = 2 ^ 1 := rfl
      _ ≤ 2 ^ p := Nat.pow_le_pow_right (by decide) hp
  have hroom := Nat.mul_le_mul_left (2 ^ (lengthExponent p k b t + k)) htwo
  rw [pow_add _ _ p] at hhi
  refine lt_of_mul_lt_mul_left (a := 2 ^ (lengthExponent p k b t + k)) ?_ (Nat.zero_le _)
  rw [Nat.pow_succ]
  linarith

/-- **The granules of a longer interval**, after rounding: they need all of
their `p` bits, and no more. -/
theorem granules_exponent (hp : 2 ≤ p) (hbt : b ≤ t) (h : 2 ^ (p + k - 1) ≤ t - b) :
    2 ^ (p - 1) ≤ granules (2 ^ (exponent p k b t + k)) b t
      ∧ granules (2 ^ (exponent p k b t + k)) b t < 2 ^ p := by
  obtain ⟨hlo, hhi⟩ := lengthExponent_spec (by omega) h
  have hsplit : 2 ^ p = 2 * 2 ^ (p - 1) := by
    rw [← Nat.pow_succ']
    congr 1
    omega
  have htwo : 2 ≤ 2 ^ (p - 1) := by
    calc 2 = 2 ^ 1 := rfl
      _ ≤ 2 ^ (p - 1) := Nat.pow_le_pow_right (by decide) (by omega)
  unfold exponent
  simp only
  generalize lengthExponent p k b t = e at *
  have hg := Nat.two_pow_pos (e + k)
  rw [pow_add _ (e + k)] at hlo hhi
  split
  · rename_i hover
    -- twice the granule, and half as many of them
    have hg' := Nat.two_pow_pos (e + 1 + k)
    have hdouble : 2 ^ (e + 1 + k) = 2 ^ (e + k) * 2 := by
      rw [← Nat.pow_succ]
      congr 1
      omega
    have hmore := mul_granules_le (b := b) (t := t) hg'
      (Nat.pow_dvd_pow 2 (show e + k ≤ e + 1 + k by omega))
    have hless := mul_granules_lt (b := b) (t := t) hg' hbt
    rw [hdouble] at hmore hless ⊢
    have hover' := Nat.mul_le_mul_left (2 ^ (e + k)) hover
    constructor
    · refine le_of_mul_le_mul_left ?_ hg
      refine le_of_mul_le_mul_left ?_ (show 0 < 2 by decide)
      rw [hsplit] at hover'
      linarith
    · refine lt_of_mul_lt_mul_left (a := 2 ^ (e + k) * 2) ?_ (Nat.zero_le _)
      have hroom := Nat.mul_le_mul_left (2 ^ (e + k)) htwo
      rw [hsplit] at hhi ⊢
      linarith
  · rename_i hfits
    refine ⟨?_, not_le.1 hfits⟩
    exact le_of_mul_le_mul_left (hlo.trans (le_mul_granules hg)) hg

/-- **What encloses is representable.** -/
theorem representable_enclose (hp : 2 ≤ p) (hbt : b ≤ t) :
    Representable p k (enclose p k b t).1 (enclose p k b t).2 := by
  by_cases h : t - b < 2 ^ (p + k - 1)
  · rw [enclose_of_short h]
    exact Or.inl h
  · have hgranule : granule p k b t = 2 ^ (exponent p k b t + k) := if_neg h
    obtain ⟨-, hfew⟩ := granules_exponent hp hbt (not_lt.1 h)
    refine Or.inr ⟨exponent p k b t, ?_, ?_, ?_⟩
    · exact hgranule ▸ dvd_down _ _
    · exact hgranule ▸ dvd_up _ _
    · show up _ _ - down _ _ < _
      rw [hgranule, ← mul_granules, pow_add _ (exponent p k b t + k)]
      exact Nat.mul_lt_mul_of_pos_left hfew (Nat.two_pow_pos _)

/-- The exponent of an interval is at most that of one around it. -/
theorem exponent_le {b' t' e : ℕ} (hp : 2 ≤ p) (hbt : b ≤ t) (h : 2 ^ (p + k - 1) ≤ t - b)
    (hb : 2 ^ (e + k) ∣ b') (ht : 2 ^ (e + k) ∣ t') (hlen : t' - b' < 2 ^ (e + k + p))
    (hbb : b' ≤ b) (htt : t ≤ t') : exponent p k b t ≤ e := by
  obtain ⟨hlo, -⟩ := lengthExponent_spec (by omega) h
  have hle : lengthExponent p k b t ≤ e := by
    have hlt : 2 ^ (lengthExponent p k b t + k + (p - 1)) < 2 ^ (e + k + p) := by omega
    have := (Nat.pow_lt_pow_iff_right (by decide)).1 hlt
    omega
  unfold exponent
  simp only
  split
  · rename_i hover
    -- with the same exponent the interval would fit
    refine Nat.lt_of_le_of_ne hle fun heq => ?_
    have hg := Nat.two_pow_pos (e + k)
    rw [heq] at hover
    have hmany := Nat.mul_le_mul_left (2 ^ (e + k)) hover
    have hup := up_le hg ht htt
    have hdown := le_down hb hbb
    rw [mul_granules, ← pow_add] at hmany
    omega
  · exact hle

/-- **What encloses is least**: a representable interval around the given one is
around what encloses it. -/
theorem enclose_least {b' t' : ℕ} (hp : 2 ≤ p) (hbt : b ≤ t) (h : Representable p k b' t')
    (hb : b' ≤ b) (ht : t ≤ t') : b' ≤ (enclose p k b t).1 ∧ (enclose p k b t).2 ≤ t' := by
  by_cases hshort : t - b < 2 ^ (p + k - 1)
  · rw [enclose_of_short hshort]
    exact ⟨hb, ht⟩
  · obtain hlen | ⟨e, hdb, hdt, hlen⟩ := h
    · exact absurd (lt_of_le_of_lt (by omega) hlen) hshort
    · have hle := exponent_le hp hbt (not_lt.1 hshort) hdb hdt hlen hb ht
      have hgranule : granule p k b t = 2 ^ (exponent p k b t + k) := if_neg hshort
      have hdvd : granule p k b t ∣ 2 ^ (e + k) := by
        rw [hgranule]
        exact Nat.pow_dvd_pow 2 (by omega)
      exact ⟨le_down (hdvd.trans hdb) hb, up_le (granule_pos p k b t) (hdvd.trans hdt) ht⟩

/-- **Nothing is widened that fits.** -/
theorem enclose_eq_iff (hp : 2 ≤ p) (hbt : b ≤ t) :
    enclose p k b t = (b, t) ↔ Representable p k b t := by
  constructor
  · intro h
    have hrep := representable_enclose (k := k) hp hbt
    rwa [h] at hrep
  · intro h
    obtain ⟨hb, ht⟩ := enclose_least hp hbt h le_rfl le_rfl
    exact Prod.ext (le_antisymm (enclose_fst_le p k b t) hb)
      (le_antisymm ht (le_enclose_snd p k b t))

/-- A representable interval can be moved to zero. -/
theorem representable_sub (h : Representable p k b t) : Representable p k 0 (t - b) := by
  obtain hshort | ⟨e, hb, ht, hlen⟩ := h
  · exact Or.inl (by rwa [Nat.sub_zero])
  · exact Or.inr ⟨e, Nat.dvd_zero _, Nat.dvd_sub ht hb, by rwa [Nat.sub_zero]⟩

/-- What encloses a length is representable at every multiple of its granule. -/
theorem representable_add {len : ℕ} (hp : 2 ≤ p) (hb : granule p k 0 len ∣ b) :
    Representable p k b (b + (enclose p k 0 len).2) := by
  by_cases h : len - 0 < 2 ^ (p + k - 1)
  · rw [enclose_of_short h]
    exact Or.inl (by omega)
  · have hgranule : granule p k 0 len = 2 ^ (exponent p k 0 len + k) := if_neg h
    obtain ⟨-, hfew⟩ := granules_exponent hp (Nat.zero_le len) (not_lt.1 h)
    have hdvd := dvd_up (granule p k 0 len) len
    refine Or.inr ⟨exponent p k 0 len, hgranule ▸ hb, ?_, ?_⟩
    · rw [← hgranule]
      exact Nat.dvd_add hb hdvd
    · rw [Nat.add_sub_cancel_left, pow_add _ (exponent p k 0 len + k)]
      have hfill := mul_granules (2 ^ (exponent p k 0 len + k)) 0 len
      rw [down, Nat.zero_div, mul_zero, Nat.sub_zero, ← hgranule] at hfill
      show up _ _ < _
      rw [← hfill, hgranule]
      exact Nat.mul_lt_mul_of_pos_left hfew (Nat.two_pow_pos _)

/-- A space of a power of two is representable as a whole. -/
theorem representable_two_pow (hp : 0 < p) (n : ℕ) : Representable p k 0 (2 ^ n) := by
  by_cases h : n < p + k - 1
  · exact Or.inl (Nat.pow_lt_pow_right (by decide) h)
  · refine Or.inr ⟨n + 1 - (p + k), Nat.dvd_zero _, Nat.pow_dvd_pow 2 (by omega), ?_⟩
    exact Nat.pow_lt_pow_right (by decide) (by omega)

/-- **What encloses stays in the space.** -/
theorem enclose_snd_le {n : ℕ} (hp : 2 ≤ p) (hbt : b ≤ t) (h : t ≤ 2 ^ n) :
    (enclose p k b t).2 ≤ 2 ^ n :=
  (enclose_least hp hbt (representable_two_pow (by omega) n) (Nat.zero_le b) h).2

end Enclose

end BlockRounding
