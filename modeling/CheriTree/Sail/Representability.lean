import CheriTree.Sail.Capability
import Mathlib.Tactic.LinearCombination

/-!
# What the fast check lets through

The test of an increment is exact on the region of the address, but for its
last step: an increment that stays in the region and does not reach that step
passes (`fastRepCheck_of_increment`). The base of a capability is in the region
of its address, a step of an eighth of the region past the limit, whatever the
fields of the capability are. Moving a capability to its base is therefore
always representable (`setCapOffset_zero`).
-/

namespace Sail

variable {f : CapFormat} {c : Capability f}

/-- **An increment that stays in the block passes the test**, short of the last
step of the block. -/
theorem Capability.fastRepCheck_of_increment {i : BitVec f.xlen} (hE : c.E.toNat < f.capMaxE - 2)
    {d : ℕ} (hd : d < 2 ^ f.mw)
    (hdiff : (c.address.toNat / 2 ^ c.E.toNat % 2 ^ f.mw + 2 ^ f.mw
      - c.R3.toNat * 2 ^ (f.mw - 3)) % 2 ^ f.mw = d)
    (hlo : -(d * 2 ^ c.E.toNat : ℤ) ≤ i.toInt)
    (hhi : i.toInt < ((2 ^ f.mw - 1 - d : ℕ) : ℤ) * 2 ^ c.E.toNat) :
    c.fastRepCheck i = true := by
  have hmw := f.mw_ge
  have hle := f.mw_le
  have hmax : f.capMaxE = f.xlen + 1 - f.mw + 1 := rfl
  have hmid := fun x : BitVec f.xlen => toNat_mid x c.E.toNat
  rw [← hmid, ← c.toNat_limitMid] at hdiff
  obtain ⟨hdiff1, hdiff0⟩ := toNat_sub_of_steps (by omega) hdiff
  have he : (0 : ℤ) < 2 ^ c.E.toNat := by positivity
  have hM : (0 : ℤ) < 2 ^ (c.E.toNat + f.mw) := by positivity
  have hblock : (2 : ℤ) ^ (c.E.toNat + f.mw) = 2 ^ f.mw * 2 ^ c.E.toNat := by
    rw [← pow_add, add_comm]
  have hcast : ((2 ^ f.mw - 1 - d : ℕ) : ℤ) = 2 ^ f.mw - 1 - d := by
    rw [Nat.sub_sub, Nat.cast_sub (by omega)]
    push_cast
    ring
  have hd' : (d : ℤ) + 1 ≤ 2 ^ f.mw := by exact_mod_cast hd
  have hroom : (0 : ℤ) ≤ d * 2 ^ c.E.toNat := by positivity
  have hfits : ((d : ℤ) + 1) * 2 ^ c.E.toNat ≤ 2 ^ f.mw * 2 ^ c.E.toNat :=
    mul_le_mul_of_nonneg_right hd' he.le
  obtain ⟨hup, hdown⟩ := toInt_of_sshiftRight (c.E.toNat + f.mw) i
  have hshift : (i.sshiftRight (c.E.toNat + f.mw)).toInt = i.toInt / 2 ^ (c.E.toNat + f.mw) := by
    rw [BitVec.toInt_sshiftRight, Int.shiftRight_eq_div_pow]
    push_cast
    rfl
  unfold fastRepCheck
  rw [if_neg (by omega)]
  simp only
  by_cases hneg : i.toInt < 0
  · have hone : (i.sshiftRight (c.E.toNat + f.mw)).toInt = -1 := by
      rw [hshift, Int.ediv_eq_iff_of_pos hM, hblock]
      exact ⟨by linarith, by linarith⟩
    have hdpos : 0 < d := by
      by_contra h0
      obtain rfl : d = 0 := by omega
      push_cast at hlo
      linarith
    have hne : (c.R3 ++ 0#(f.mw - 3)).setWidth f.mw ≠ (c.address >>> c.E.toNat).setWidth f.mw := by
      intro heq
      rw [heq, show ∀ x : ℕ, x + 2 ^ f.mw - x = 2 ^ f.mw from fun x => by omega, Nat.mod_self]
        at hdiff
      omega
    obtain ⟨hnat, hge, -⟩ := hdown hone
    rw [if_neg (by rw [hone]; decide), if_pos hone, Bool.and_eq_true, decide_eq_true_eq,
      decide_eq_true_eq]
    refine ⟨?_, hne⟩
    rw [BitVec.le_def, hdiff0 hne, hmid, ← Nat.mod_mul_right_div_self,
      Nat.le_div_iff_mul_le (Nat.two_pow_pos _)]
    have hlow := mod_block_of_neg (by omega) hnat hge hneg
    rw [pow_add] at hlow
    have hgoal : (((2 ^ f.mw - d) * 2 ^ c.E.toNat : ℕ) : ℤ)
        ≤ (i.toNat % (2 ^ c.E.toNat * 2 ^ f.mw) : ℕ) := by
      rw [hlow, hblock]
      push_cast [Nat.cast_sub hd.le]
      linarith
    exact_mod_cast hgoal
  · have hnonneg : 0 ≤ i.toInt := not_lt.1 hneg
    rw [hcast] at hhi
    have hsmall : i.toInt < 2 ^ (c.E.toNat + f.mw) := by
      rw [hblock]
      linarith
    have hzero : (i.sshiftRight (c.E.toNat + f.mw)).toInt = 0 := by
      rw [hshift]
      exact Int.ediv_eq_zero_of_lt hnonneg hsmall
    obtain ⟨hnat, -, -⟩ := hup hzero
    rw [if_pos hzero, decide_eq_true_eq, BitVec.lt_def, hdiff1, hmid,
      ← Nat.mod_mul_right_div_self]
    have hsmall' : i.toNat < 2 ^ c.E.toNat * 2 ^ f.mw := by
      rw [← pow_add]
      exact_mod_cast hnat ▸ hsmall
    rw [Nat.mod_eq_of_lt hsmall', Nat.div_lt_iff_lt_mul (Nat.two_pow_pos _)]
    have hgoal : (i.toNat : ℤ) < ((2 ^ f.mw - 1 - d : ℕ) : ℤ) * 2 ^ c.E.toNat := by
      rw [hnat, hcast]
      exact hhi
    exact_mod_cast hgoal

/-! ## The base -/

/-- A middle part under an upper part, as a number. -/
theorem setWidth_ofInt_append {w m e n : ℕ} (hn : n ≤ w + m + e) (z : ℤ) (mid : BitVec m) :
    (BitVec.ofInt w z ++ mid ++ 0#e).setWidth n
      = BitVec.ofInt n ((z * 2 ^ m + mid.toNat) * 2 ^ e) := by
  have hcat : (BitVec.ofInt w z ++ mid ++ 0#e).toNat
      = ((BitVec.ofInt w z).toNat * 2 ^ m + mid.toNat) * 2 ^ e := by
    rw [BitVec.toNat_append, BitVec.toNat_append, BitVec.toNat_zero, Nat.or_zero, Nat.shiftLeft_eq,
      ← Nat.shiftLeft_add_eq_or_of_lt mid.isLt, Nat.shiftLeft_eq]
  have hofInt : ((BitVec.ofInt w z).toNat : ℤ) = z % (2 ^ w : ℕ) := by
    rw [BitVec.toNat_ofInt, Int.toNat_of_nonneg (Int.emod_nonneg _ (by positivity))]
  have hwhole : (BitVec.ofInt w z ++ mid ++ 0#e).setWidth n
      = BitVec.ofInt n (((BitVec.ofInt w z).toNat * 2 ^ m + mid.toNat) * 2 ^ e : ℤ) := by
    apply BitVec.eq_of_toNat_eq
    rw [BitVec.toNat_setWidth, hcat, ← BitVec.toNat_ofNat, ← BitVec.ofInt_natCast]
    push_cast
    rfl
  rw [hwhole]
  -- the upper part is cut above what is kept
  refine Capability.ofInt_congr ?_
  rw [hofInt]
  refine Int.ModEq.of_dvd ?_ ((((Int.mod_modEq z (2 ^ w : ℕ)).mul_right' (c := 2 ^ m)).add_right
    (mid.toNat : ℤ)).mul_right' (c := 2 ^ e))
  refine ⟨2 ^ (w + m + e - n), ?_⟩
  push_cast
  rw [← pow_add, ← pow_add, ← pow_add]
  congr 1
  omega

/-- A three-bit prefix, as a number. -/
theorem toNat_bits_ahead (x : BitVec f.mw) :
    (x.extractLsb' (f.mw - 3) 3).toNat = x.toNat / 2 ^ (f.mw - 3) := by
  have hmw := f.mw_ge
  rw [BitVec.extractLsb'_toNat, Nat.shiftRight_eq_div_pow, Nat.mod_eq_of_lt]
  refine Nat.div_lt_of_lt_mul ?_
  rw [← pow_add]
  exact lt_of_lt_of_eq x.isLt (by congr 1; omega)

/-- The base lies past the limit by at least a step and by less than the
region. -/
theorem Capability.base_past_limit (c : Capability f) :
    ∃ q : ℕ, 0 < q ∧ q < 2 ^ f.mw - 1
      ∧ c.hi (c.B.extractLsb' (f.mw - 3) 3) * 2 ^ f.mw + c.B.toNat
        = c.R3.toNat * 2 ^ (f.mw - 3) + q := by
  have hmw := f.mw_ge
  have hsplit : 2 ^ f.mw = 8 * 2 ^ (f.mw - 3) := by
    rw [show (8 : ℕ) = 2 ^ 3 from rfl, ← pow_add]
    congr 1
    omega
  have hpos := Nat.two_pow_pos (f.mw - 3)
  have hB := Nat.div_add_mod c.B.toNat (2 ^ (f.mw - 3))
  have hlow := Nat.mod_lt c.B.toNat hpos
  have hq : c.hi (c.B.extractLsb' (f.mw - 3) 3) * 8 + (c.B.extractLsb' (f.mw - 3) 3).toNat
      = c.R3.toNat + 1 := by
    rw [hi, R3]
    generalize c.B.extractLsb' (f.mw - 3) 3 = b3
    revert b3
    decide
  refine ⟨2 ^ (f.mw - 3) + c.B.toNat % 2 ^ (f.mw - 3), by omega, by omega, ?_⟩
  rw [toNat_bits_ahead] at hq
  zify at hB hsplit ⊢
  rw [hsplit]
  push_cast at hq ⊢
  linear_combination (2 : ℤ) ^ (f.mw - 3) * hq - hB

/-- **The base is in the region of the address**: the step to it from the
address. -/
theorem Capability.toInt_base_sub {E : ℕ} (hE : c.exponent = E) (hS : E + f.mw < f.xlen) {d : ℕ}
    {k : ℤ} (hd : d < 2 ^ f.mw)
    (hpos : (c.address.toNat - c.limit : ℤ) = k * (2 ^ f.mw * 2 ^ E)
      + (d * 2 ^ E + c.address.toNat % 2 ^ E)) :
    ∃ q : ℕ, 0 < q ∧ q < 2 ^ f.mw - 1 ∧ (c.getCapBaseBits - c.address).toInt
      = (q - d : ℤ) * 2 ^ E - c.address.toNat % 2 ^ E := by
  obtain ⟨q, hq0, hq, hbase⟩ := c.base_past_limit
  refine ⟨q, hq0, hq, ?_⟩
  have he : (0 : ℤ) < 2 ^ E := by positivity
  have hlow : ((c.address.toNat % 2 ^ E : ℕ) : ℤ) < 2 ^ E := by
    exact_mod_cast Nat.mod_lt _ (Nat.two_pow_pos _)
  have hlow' : (0 : ℤ) ≤ (c.address.toNat % 2 ^ E : ℕ) := by positivity
  push_cast at hlow hlow'
  have hd' : (d : ℤ) + 1 ≤ 2 ^ f.mw := by exact_mod_cast hd
  have hroom : (0 : ℤ) ≤ d * 2 ^ E := by positivity
  have hfits : ((d : ℤ) + 1) * 2 ^ E ≤ 2 ^ f.mw * 2 ^ E :=
    mul_le_mul_of_nonneg_right hd' he.le
  have hregion : c.region c.address = k := by
    rw [region, hE, hpos, Int.ediv_eq_iff_of_pos (by positivity), pow_add]
    constructor
    · linarith
    · linarith
  have hbits : c.getCapBaseBits
      = BitVec.ofInt f.xlen
        (c.address.toNat + ((q - d : ℤ) * 2 ^ E - c.address.toNat % 2 ^ E)) := by
    show (c.rawBound c.B).setWidth f.xlen = _
    rw [rawBound_eq, hregion, BitVec.setWidth_setWidth_of_le _ (Nat.le_succ _), hE,
      setWidth_ofInt_append (by omega)]
    congr 1
    have hlimit : (c.limit : ℤ) = c.R3.toNat * 2 ^ (f.mw - 3) * 2 ^ E := by
      rw [limit, hE]
      push_cast
      rfl
    linear_combination 2 ^ E * hbase - hpos - hlimit
  have haddr : BitVec.ofInt f.xlen (c.address.toNat : ℤ) = c.address := by
    rw [BitVec.ofInt_natCast, BitVec.ofNat_toNat, BitVec.setWidth_eq]
  have hspan : (2 : ℤ) ^ f.mw * 2 ^ E ≤ 2 ^ (f.xlen - 1) := by
    rw [← pow_add]
    exact pow_le_pow_right₀ (by decide) (by omega)
  have hq' : (q : ℤ) + 2 ≤ 2 ^ f.mw := by
    have : q + 2 ≤ 2 ^ f.mw := by omega
    exact_mod_cast this
  have hone : 1 * (2 : ℤ) ^ E ≤ q * 2 ^ E :=
    mul_le_mul_of_nonneg_right (by exact_mod_cast hq0) he.le
  have htop : ((q : ℤ) + 2) * 2 ^ E ≤ 2 ^ f.mw * 2 ^ E := mul_le_mul_of_nonneg_right hq' he.le
  rw [hbits, BitVec.ofInt_add, haddr, BitVec.add_comm, BitVec.add_sub_cancel]
  refine BitVec.toInt_ofInt_eq_self (by omega) ?_ ?_
  · linarith
  · linarith

/-- **Moving a capability to its base is representable**, whatever the
capability is. -/
theorem Capability.setCapOffset_zero (c : Capability f) : (c.setCapOffset 0).1 = true := by
  have hmax : f.capMaxE = f.xlen + 1 - f.mw + 1 := rfl
  have hle := f.mw_le
  show c.fastRepCheck (c.getCapBaseBits + 0 - c.address) = true
  rw [show c.getCapBaseBits + 0 = c.getCapBaseBits from BitVec.add_zero _]
  by_cases hE : c.E.toNat < f.capMaxE - 2
  · have hexp : c.exponent = c.E.toNat := by
      rw [exponent]
      omega
    obtain ⟨k, d, hd, hpos, hdiff⟩ := c.exists_region_position
    rw [hexp] at hpos hdiff
    obtain ⟨q, hq0, hq, hstep⟩ := c.toInt_base_sub hexp (by omega) hd hpos
    have he : (0 : ℤ) < 2 ^ c.E.toNat := by positivity
    have hlow : ((c.address.toNat % 2 ^ c.E.toNat : ℕ) : ℤ) < 2 ^ c.E.toNat := by
      exact_mod_cast Nat.mod_lt _ (Nat.two_pow_pos _)
    have hlow' : (0 : ℤ) ≤ (c.address.toNat % 2 ^ c.E.toNat : ℕ) := by positivity
    push_cast at hlow hlow'
    refine fastRepCheck_of_increment hE hd hdiff ?_ ?_
    · rw [hstep]
      have hone : 1 * (2 : ℤ) ^ c.E.toNat ≤ q * 2 ^ c.E.toNat :=
        mul_le_mul_of_nonneg_right (by exact_mod_cast hq0) he.le
      linarith
    · rw [hstep]
      have hcast : (q : ℤ) + 1 ≤ ((2 ^ f.mw - 1 - d : ℕ) : ℤ) + d := by omega
      have htop := mul_le_mul_of_nonneg_right hcast he.le
      linarith
  · unfold fastRepCheck
    rw [if_pos (by omega)]

end Sail
