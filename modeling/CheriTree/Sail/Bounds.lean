import CheriTree.BlockRounding
import CheriTree.Sail.Representability

/-!
# What the bounds fields say

The middle bits of a bound are kept, and what lies above them is made up from
the address. The fields *place* two bounds when the bounds are steps of the
exponent, the middle bits are theirs, and the address is in the region of the
base (`Places`); the decoder then gives these two bounds, with no correction
left over (`Places.getCapBounds`).
-/

namespace Sail

namespace Capability

variable {f : CapFormat} {c : Capability f}

/-- The limit, in steps of the exponent. -/
def limitMid (c : Capability f) : ℕ := c.R3.toNat * 2 ^ (f.mw - 3)

theorem limit_eq (c : Capability f) : c.limit = c.limitMid * 2 ^ c.exponent := rfl

theorem limitMid_lt (c : Capability f) : c.limitMid < 2 ^ f.mw := c.R3_mul_lt

theorem eight_mul_two_pow (f : CapFormat) : 2 ^ f.mw = 8 * 2 ^ (f.mw - 3) := by
  have hmw := f.mw_ge
  rw [show (8 : ℕ) = 2 ^ 3 from rfl, ← pow_add]
  congr 1
  omega

theorem two_pow_mw_pred (f : CapFormat) : 2 ^ (f.mw - 1) = 4 * 2 ^ (f.mw - 3) := by
  have hmw := f.mw_ge
  rw [show (4 : ℕ) = 2 ^ 2 from rfl, ← pow_add]
  congr 1
  omega

/-- The correction of middle bits, as a comparison with the limit. -/
theorem hi_mid (c : Capability f) (mid : BitVec f.mw) :
    c.hi (mid.extractLsb' (f.mw - 3) 3) = if mid.toNat < c.limitMid then 1 else 0 := by
  unfold hi limitMid
  simp only [BitVec.lt_def, toNat_bits_ahead, Nat.div_lt_iff_lt_mul (Nat.two_pow_pos (f.mw - 3))]

theorem ediv_of_position {z k q M : ℤ} (hz : z = k * M + q) (h0 : 0 ≤ q) (h1 : q < M) :
    z / M = k := by
  rw [Int.ediv_eq_iff_of_pos (lt_of_le_of_lt h0 h1)]
  constructor
  · linarith
  · linarith

/-- Steps of the exponent have the region of the steps. -/
theorem step_region (c : Capability f) (m : ℕ) :
    ((m * 2 ^ c.exponent : ℕ) - c.limit : ℤ) / 2 ^ (c.exponent + f.mw)
      = (m - c.limitMid : ℤ) / 2 ^ f.mw := by
  have hpos : (0 : ℤ) < 2 ^ c.exponent := by positivity
  rw [limit_eq, add_comm, pow_add]
  push_cast
  rw [← sub_mul, Int.mul_ediv_mul_of_pos_left _ _ hpos]

/-- **A bound in the region of the address** is its steps of the exponent. -/
theorem rawBound_of_region {mid : BitVec f.mw} {m : ℕ} (hmid : mid.toNat = m % 2 ^ f.mw)
    (hregion : c.region c.address = (m - c.limitMid : ℤ) / 2 ^ f.mw) :
    c.rawBound mid = BitVec.ofNat (f.xlen + 1) (m * 2 ^ c.exponent) := by
  have hmw := f.mw_ge
  have hlt := c.limitMid_lt
  have hsplit := Nat.div_add_mod m (2 ^ f.mw)
  have hmod := Nat.mod_lt m (Nat.two_pow_pos f.mw)
  have hquot : (m - c.limitMid : ℤ) / 2 ^ f.mw
      = (m / 2 ^ f.mw : ℕ) - if mid.toNat < c.limitMid then 1 else 0 := by
    rw [hmid]
    have hpow : (2 : ℤ) ^ f.mw = ((2 ^ f.mw : ℕ) : ℤ) := by
      push_cast
      rfl
    rw [hpow, Int.ediv_eq_iff_of_pos (by positivity)]
    generalize 2 ^ f.mw = M at *
    generalize m / M = q at *
    generalize m % M = r at *
    have hm : (m : ℤ) = M * q + r := by exact_mod_cast hsplit.symm
    split
    · constructor
      · rw [hm]
        linarith
      · rw [hm]
        linarith
    · constructor
      · rw [hm]
        linarith
      · rw [hm]
        linarith
  rw [rawBound_eq, setWidth_ofInt_append (by omega), hi_mid, hregion, hquot, sub_add_cancel,
    ← BitVec.ofInt_natCast, hmid]
  congr 1
  exact_mod_cast congrArg (· * 2 ^ c.exponent) (Nat.div_add_mod' m (2 ^ f.mw))

/-- **The base lies an eighth of the region past the limit**, and less than a
quarter. -/
theorem exists_base_position {m : ℕ} (hB : c.B.toNat = m % 2 ^ f.mw) :
    ∃ (k : ℤ) (q : ℕ), 2 ^ (f.mw - 3) ≤ q ∧ q < 2 * 2 ^ (f.mw - 3)
      ∧ (m - c.limitMid : ℤ) = k * 2 ^ f.mw + q := by
  have hpos := Nat.two_pow_pos (f.mw - 3)
  have height := eight_mul_two_pow f
  have hsplit := Nat.div_add_mod m (2 ^ f.mw)
  have hB' := Nat.div_add_mod c.B.toNat (2 ^ (f.mw - 3))
  have hlow := Nat.mod_lt c.B.toNat hpos
  have hahead := toNat_bits_ahead c.B
  have hprefix : c.R3.toNat + 1 = (c.B.extractLsb' (f.mw - 3) 3).toNat
      ∨ c.R3.toNat = 7 ∧ (c.B.extractLsb' (f.mw - 3) 3).toNat = 0 := by
    rw [R3]
    generalize c.B.extractLsb' (f.mw - 3) 3 = b3
    revert b3
    decide
  rw [← hB] at hsplit
  rw [hahead] at hprefix
  rw [limitMid]
  generalize 2 ^ (f.mw - 3) = u at *
  generalize m / 2 ^ f.mw = w at *
  generalize c.B.toNat / u = b3 at *
  generalize c.B.toNat % u = l at *
  refine ⟨if c.R3.toNat = 7 ∧ b3 = 0 then w - 1 else w, u + l, by omega, by omega, ?_⟩
  have hm : (m : ℤ) = 8 * u * w + (u * b3 + l) := by
    have := hsplit
    rw [height, ← hB'] at this
    exact_mod_cast this.symm
  have hpow : (2 : ℤ) ^ f.mw = 8 * u := by exact_mod_cast height
  rw [hm, hpow]
  obtain hnext | ⟨hR, hb⟩ := hprefix
  · rw [if_neg (by omega), ← hnext]
    push_cast
    ring
  · rw [if_pos ⟨hR, hb⟩, hR, hb]
    push_cast
    ring

/-- **The fields place two bounds.** -/
structure Places (c : Capability f) (b t : ℕ) : Prop where
  le : b ≤ t
  base_lt : b < 2 ^ f.xlen
  top_le : t ≤ 2 ^ f.xlen
  dvd_base : 2 ^ c.exponent ∣ b
  dvd_top : 2 ^ c.exponent ∣ t
  B : c.B.toNat = b / 2 ^ c.exponent % 2 ^ f.mw
  T : c.T.toNat = t / 2 ^ c.exponent % 2 ^ f.mw
  length : t - b < 2 ^ (c.exponent + f.mw - 1)
  near : c.region c.address = (b - c.limit : ℤ) / 2 ^ (c.exponent + f.mw)

/-- The correction of the top does nothing to a top that is right. -/
theorem fixTop_of_le {base top : BitVec (f.xlen + 1)} (hbase : base.toNat < 2 ^ f.xlen)
    (hle : base.toNat ≤ top.toNat) (hlen : top.toNat ≤ base.toNat + 2 ^ (f.xlen - 1)) :
    fixTop base top = top := by
  have hpos := xlen_pos f
  have hhalf : 2 ^ f.xlen = 2 * 2 ^ (f.xlen - 1) := (mul_pow_sub_one (by omega) 2).symm
  have hh := Nat.two_pow_pos (f.xlen - 1)
  have hbase2 : (0#1 ++ base.extractLsb' (f.xlen - 1) 1 : BitVec 2).toNat
      = base.toNat / 2 ^ (f.xlen - 1) := by
    rw [BitVec.toNat_append, BitVec.toNat_zero, Nat.zero_shiftLeft, Nat.zero_or,
      BitVec.extractLsb'_toNat, Nat.shiftRight_eq_div_pow, Nat.mod_eq_of_lt]
    exact Nat.div_lt_of_lt_mul (by omega)
  have htop2 : (top.extractLsb' (f.xlen - 1) 2).toNat = top.toNat / 2 ^ (f.xlen - 1) := by
    rw [BitVec.extractLsb'_toNat, Nat.shiftRight_eq_div_pow, Nat.mod_eq_of_lt]
    exact Nat.div_lt_of_lt_mul (by omega)
  have hsub : ∀ t b : ℕ, b < 2 → b ≤ t → t ≤ b + 1 → ¬ (2 ^ 2 - b + t) % 2 ^ 2 > 1 := by
    intro t b hb hbt htb
    show ¬ (4 - b + t) % 4 > 1
    omega
  unfold fixTop
  refine if_neg ?_
  rw [BitVec.toNat_sub, htop2, hbase2]
  refine hsub _ _ (Nat.div_lt_of_lt_mul (by omega)) (Nat.div_le_div_right hle) ?_
  calc top.toNat / 2 ^ (f.xlen - 1)
      ≤ (base.toNat + 2 ^ (f.xlen - 1)) / 2 ^ (f.xlen - 1) := Nat.div_le_div_right hlen
    _ = base.toNat / 2 ^ (f.xlen - 1) + 1 := Nat.add_div_right _ hh

section Places

variable {b t : ℕ}

theorem Places.rawBase (h : c.Places b t) : c.rawBound c.B = BitVec.ofNat (f.xlen + 1) b := by
  have hb := Nat.div_mul_cancel h.dvd_base
  rw [rawBound_of_region h.B, hb]
  have hnear := h.near
  rwa [← hb, step_region] at hnear

/-- The top is in the region of the base. -/
theorem Places.rawTop (h : c.Places b t) : c.rawBound c.T = BitVec.ofNat (f.xlen + 1) t := by
  have hmw := f.mw_ge
  have hb := Nat.div_mul_cancel h.dvd_base
  have ht := Nat.div_mul_cancel h.dvd_top
  have hpos := Nat.two_pow_pos c.exponent
  have hle := Nat.div_le_div_right (c := 2 ^ c.exponent) h.le
  obtain ⟨k, q, hq, hq', hpos'⟩ := exists_base_position h.B
  have hsteps : t / 2 ^ c.exponent < b / 2 ^ c.exponent + 2 ^ (f.mw - 1) := by
    have hlen := h.length
    rw [Nat.add_sub_assoc (by omega), pow_add] at hlen
    rw [Nat.div_lt_iff_lt_mul hpos, add_mul, hb, mul_comm (2 ^ (f.mw - 1))]
    omega
  have hhalf : 2 ^ f.mw = 2 * 2 ^ (f.mw - 1) := (mul_pow_sub_one (by omega) 2).symm
  have height := eight_mul_two_pow f
  rw [rawBound_of_region h.T, ht]
  have hnear := h.near
  rw [← hb, step_region] at hnear
  rw [hnear, hpos', eq_comm]
  obtain ⟨d, hd⟩ := Nat.exists_eq_add_of_le hle
  have hz : ((t / 2 ^ c.exponent : ℕ) - c.limitMid : ℤ) = k * 2 ^ f.mw + (q + d : ℕ) := by
    rw [hd]
    push_cast at hpos' ⊢
    linarith
  rw [ediv_of_position hz (by positivity) (by exact_mod_cast (show q + d < 2 ^ f.mw by omega))]
  exact (ediv_of_position rfl (by positivity)
    (by exact_mod_cast (show q < 2 ^ f.mw by omega))).symm

/-- **The fields that place two bounds decode to them.** -/
theorem Places.getCapBounds (h : c.Places b t) : c.getCapBounds = (b, t) := by
  have hmw := f.mw_ge
  have hle := f.mw_le
  have hpow : 2 ^ (f.xlen + 1) = 2 * 2 ^ f.xlen := Nat.pow_succ'
  have hbt := h.le
  have hb := h.base_lt
  have ht := h.top_le
  have hlen := h.length
  have hbase : (c.rawBound c.B).toNat = b := by
    rw [h.rawBase, BitVec.toNat_ofNat, Nat.mod_eq_of_lt (by omega)]
  have htop : (c.rawBound c.T).toNat = t := by
    rw [h.rawTop, BitVec.toNat_ofNat, Nat.mod_eq_of_lt (by omega)]
  have hfix : (if c.exponent < f.capMaxE - 1 then fixTop (c.rawBound c.B) (c.rawBound c.T)
      else c.rawBound c.T) = c.rawBound c.T := by
    split
    · rename_i hE
      have hfits : 2 ^ (c.exponent + f.mw - 1) ≤ 2 ^ (f.xlen - 1) := by
        refine Nat.pow_le_pow_right (by decide) ?_
        rw [CapFormat.capMaxE] at hE
        omega
      exact fixTop_of_le (by omega) (by omega) (by omega)
    · rfl
  unfold Capability.getCapBounds getCapBoundsBits
  simp only
  rw [hfix, htop, BitVec.toNat_setWidth, hbase, Nat.mod_eq_of_lt hb]

/-- An address less than a half of the region past the base is in the region
of the base. -/
theorem near_of_le {a : ℕ} (hdvd : 2 ^ c.exponent ∣ b)
    (hB : c.B.toNat = b / 2 ^ c.exponent % 2 ^ f.mw) (hle : b ≤ a)
    (hlt : a < b + 2 ^ (c.exponent + f.mw - 1)) :
    (a - c.limit : ℤ) / 2 ^ (c.exponent + f.mw) = (b - c.limit : ℤ) / 2 ^ (c.exponent + f.mw) := by
  have hmw := f.mw_ge
  have hb := Nat.div_mul_cancel hdvd
  obtain ⟨k, q, hq, hq', hpos'⟩ := exists_base_position hB
  have hpow : (2 : ℤ) ^ (c.exponent + f.mw) = 2 ^ f.mw * 2 ^ c.exponent := by
    rw [← pow_add, add_comm]
  have hhalf : ((2 ^ (c.exponent + f.mw - 1) : ℕ) : ℤ) * 2 = 2 ^ f.mw * 2 ^ c.exponent := by
    rw [← hpow]
    push_cast
    rw [← pow_succ]
    congr 1
    omega
  have he : (0 : ℤ) < 2 ^ c.exponent := by positivity
  have hM : (0 : ℤ) < 2 ^ f.mw * 2 ^ c.exponent := by positivity
  have height : (2 : ℤ) ^ f.mw = 8 * 2 ^ (f.mw - 3) := by exact_mod_cast eight_mul_two_pow f
  have hposition : (b - c.limit : ℤ) = k * (2 ^ f.mw * 2 ^ c.exponent) + q * 2 ^ c.exponent := by
    rw [limit_eq, ← hb]
    push_cast at hpos' ⊢
    linear_combination 2 ^ c.exponent * hpos'
  have hq0 : (0 : ℤ) ≤ q * 2 ^ c.exponent := by positivity
  have hq1 : (q : ℤ) * 2 ^ c.exponent * 4 ≤ 2 ^ f.mw * 2 ^ c.exponent := by
    have : (q : ℤ) * 4 ≤ 2 ^ f.mw := by
      rw [height]
      have : (q : ℤ) < 2 * 2 ^ (f.mw - 3) := by exact_mod_cast hq'
      linarith
    nlinarith
  zify at hle hlt
  push_cast at hlt hhalf
  rw [hpow, ediv_of_position hposition hq0 (by linarith)]
  exact ediv_of_position (q := q * 2 ^ c.exponent + (a - b)) (by linarith) (by linarith)
    (by linarith)

end Places

end Capability

end Sail
