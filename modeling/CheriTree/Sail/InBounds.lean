import CheriTree.Sail.SetBounds

/-!
# Addresses within the bounds

A pointer may go anywhere in its object, and to the first byte past it. For a
capability this takes two things: the bounds are the same at the new address,
and the fast test of the increment says so, from wherever the capability points
now. Both hold for a well formed capability (`address_in_bounds`), however
coarse its exponent is and wherever it points, out of its bounds or wrapped
around the address space.

Instructions that move a capability to an address they have found in its bounds
assert that this works. They are right.
-/

namespace Sail

namespace Capability

variable {f : CapFormat} {c : Capability f}

/-- A signed number of an address. -/
theorem toInt_of_modEq {w : ℕ} (hw : 0 < w) {x : BitVec w} {z : ℤ}
    (h : (x.toNat : ℤ) ≡ z [ZMOD 2 ^ w]) (hlo : -2 ^ (w - 1) ≤ z) (hhi : z < 2 ^ (w - 1)) :
    x.toInt = z := by
  have hx : x = BitVec.ofInt w z := by
    apply BitVec.eq_of_toNat_eq
    have := emod_toNat_ofInt (le_refl w) z
    have hmod := h.trans this.symm
    have hlt : ((BitVec.ofInt w z).toNat : ℤ) < 2 ^ w := by exact_mod_cast (BitVec.ofInt w z).isLt
    have hlt' : (x.toNat : ℤ) < 2 ^ w := by exact_mod_cast x.isLt
    rw [Int.ModEq, Int.emod_eq_of_lt (by positivity) hlt',
      Int.emod_eq_of_lt (by positivity) hlt] at hmod
    exact_mod_cast hmod
  rw [hx]
  exact BitVec.toInt_ofInt_eq_self hw hlo hhi

/-- A difference of addresses, up to the size of the address space. -/
theorem toNat_sub_modEq {w : ℕ} (a b : BitVec w) :
    ((a - b).toNat : ℤ) ≡ a.toNat - b.toNat [ZMOD 2 ^ w] := by
  have hsum := congrArg BitVec.toNat (BitVec.sub_add_cancel a b)
  rw [BitVec.toNat_add] at hsum
  have hmod : (a - b).toNat + b.toNat ≡ a.toNat [MOD 2 ^ w] := by
    rw [Nat.ModEq, hsum, Nat.mod_eq_of_lt a.isLt]
  have hint := (Int.natCast_modEq_iff.2 hmod).sub_right (b.toNat : ℤ)
  push_cast at hint
  rwa [add_sub_cancel_right] at hint

/-- From the base to the end of the region there is room for the length, and
for two steps more. -/
theorem Canonical.room (h : c.Canonical) {q : ℕ} (hq : q < 2 * 2 ^ (f.mw - 3)) :
    q + (c.T - c.B).toNat + 2 ≤ 2 ^ f.mw := by
  have hlt := h.length_lt
  have height := eight_mul_two_pow f
  have hhalf := two_pow_mw_pred f
  omega

/-- **The increment to an address**, counted in the region: back to the limit,
from there to the base, and on. -/
theorem Canonical.increment_modEq (h : c.Canonical) (a : BitVec f.xlen) {k : ℤ} {d : ℕ}
    (hd : d < 2 ^ f.mw)
    (hpos : (c.address.toNat - c.limit : ℤ) = k * (2 ^ f.mw * 2 ^ c.exponent)
        + (d * 2 ^ c.exponent + c.address.toNat % 2 ^ c.exponent)) :
    ∃ q : ℕ, 0 < q ∧ q < 2 * 2 ^ (f.mw - 3)
      ∧ ((a - c.address).toNat : ℤ)
        ≡ (q - d) * 2 ^ c.exponent - c.address.toNat % 2 ^ c.exponent
          + (a.toNat - c.getCapBase) [ZMOD 2 ^ f.xlen] := by
  obtain ⟨q, y, hq, hq', hy, hbase, -, -⟩ := h.exists_bounds
  refine ⟨q, hq, hq', ?_⟩
  have he : (0 : ℤ) < 2 ^ c.exponent := by positivity
  have hlow : ((c.address.toNat % 2 ^ c.exponent : ℕ) : ℤ) < 2 ^ c.exponent := by
    exact_mod_cast Nat.mod_lt _ (Nat.two_pow_pos _)
  have hlow' : (0 : ℤ) ≤ (c.address.toNat % 2 ^ c.exponent : ℕ) := by positivity
  push_cast at hlow hlow'
  have hd' : (d : ℤ) + 1 ≤ 2 ^ f.mw := by exact_mod_cast hd
  have hsteps := mul_le_mul_of_nonneg_right hd' he.le
  have hroom : (0 : ℤ) ≤ d * 2 ^ c.exponent := by positivity
  have hregion : c.region c.address = k := by
    rw [region, show (2 : ℤ) ^ (c.exponent + f.mw) = 2 ^ f.mw * 2 ^ c.exponent by
      rw [← pow_add, add_comm]]
    exact ediv_of_position hpos (by linarith) (by linarith)
  have hlimit : (c.limit : ℤ) = c.limitMid * 2 ^ c.exponent := by
    rw [limit_eq]
    push_cast
    rfl
  have hplace : (q - d : ℤ) * 2 ^ c.exponent - c.address.toNat % 2 ^ c.exponent
        + (a.toNat - c.getCapBase)
      = y * 2 ^ c.exponent + (a.toNat - c.getCapBase) - c.address.toNat := by
    rw [hy, hregion]
    linear_combination hlimit + hpos
  have hstep := (hbase.add_right (a.toNat - c.getCapBase : ℤ)).sub_right (c.address.toNat : ℤ)
  rw [add_sub_cancel] at hstep
  rw [hplace]
  exact (toNat_sub_modEq a c.address).trans hstep

/-- **The step to an address in the bounds passes the test.** -/
theorem WellFormed.fastRepCheck (h : c.WellFormed) {a : BitVec f.xlen}
    (hlo : c.getCapBase ≤ a.toNat) (hhi : a.toNat ≤ c.getCapTop) :
    c.fastRepCheck (a - c.address) = true := by
  have hmw := f.mw_ge
  have hle := f.mw_le
  have hmax : f.capMaxE = f.xlen + 1 - f.mw + 1 := rfl
  by_cases hE : c.E.toNat < f.capMaxE - 2
  · have hexp : c.exponent = c.E.toNat := by
      rw [exponent]
      omega
    obtain ⟨k, d, hd, hpos, hdiff⟩ := c.exists_region_position
    obtain ⟨q, hq, hq', hz⟩ := h.increment_modEq a hd hpos
    have hlen := h.getCapTop_eq (by omega)
    rw [hexp] at hdiff hz hlen
    -- the address is `d` steps past the limit, the base `q`, and `a` is `n` past the base
    obtain ⟨n, hn⟩ := Nat.exists_eq_add_of_le hlo
    have hpast : (a.toNat - c.getCapBase : ℤ) = n := by omega
    have hnlen : n ≤ (c.T - c.B).toNat * 2 ^ c.E.toNat := by omega
    rw [hpast] at hz
    have he : (0 : ℤ) < 2 ^ c.E.toNat := by positivity
    have hlow : ((c.address.toNat % 2 ^ c.E.toNat : ℕ) : ℤ) < 2 ^ c.E.toNat := by
      exact_mod_cast Nat.mod_lt _ (Nat.two_pow_pos _)
    have hlow' : (0 : ℤ) ≤ (c.address.toNat % 2 ^ c.E.toNat : ℕ) := by positivity
    push_cast at hlow hlow'
    have hd' : (d : ℤ) + 1 ≤ 2 ^ f.mw := by exact_mod_cast hd
    have hsteps := mul_le_mul_of_nonneg_right hd' he.le
    have hroom : (0 : ℤ) ≤ d * 2 ^ c.E.toNat := by positivity
    have hspan : (2 : ℤ) ^ f.mw * 2 ^ c.E.toNat ≤ 2 ^ (f.xlen - 1) := by
      rw [← pow_add]
      exact pow_le_pow_right₀ (by decide) (by omega)
    have hq1 : 1 * (2 : ℤ) ^ c.E.toNat ≤ q * 2 ^ c.E.toNat :=
      mul_le_mul_of_nonneg_right (by exact_mod_cast hq) he.le
    have hfits : ((q : ℤ) + (c.T - c.B).toNat + 2) * 2 ^ c.E.toNat ≤ 2 ^ f.mw * 2 ^ c.E.toNat :=
      mul_le_mul_of_nonneg_right (by exact_mod_cast h.room hq') he.le
    have hnlen' : (n : ℤ) ≤ (c.T - c.B).toNat * 2 ^ c.E.toNat := by exact_mod_cast hnlen
    have hn0 : (0 : ℤ) ≤ n := by positivity
    have hstep := toInt_of_modEq (xlen_pos f) hz (by linarith) (by linarith)
    have hcast : ((2 ^ f.mw - 1 - d : ℕ) : ℤ) = 2 ^ f.mw - 1 - d := by
      rw [Nat.sub_sub, Nat.cast_sub (by omega)]
      push_cast
      ring
    refine fastRepCheck_of_increment hE hd hdiff ?_ ?_
    · rw [hstep]
      linarith
    · rw [hstep, hcast]
      linarith
  · unfold Capability.fastRepCheck
    rw [if_pos (by omega)]

/-- The bounds at an address the increment to which passes the test. -/
theorem getCapBounds_of_fastRepCheck {a : BitVec f.xlen}
    (h : c.fastRepCheck (a - c.address) = true) :
    (c.withAddress a).getCapBounds = c.getCapBounds := by
  have hregion := region_add_of_fastRepCheck h
  rw [BitVec.add_comm, BitVec.sub_add_cancel] at hregion
  rw [getCapBounds, getCapBounds, getCapBoundsBits_congr hregion]

/-- **An address in the bounds is representable, by either test**: the bounds
stay what they are, and the fast test of the increment lets it through. -/
theorem address_in_bounds (h : c.WellFormed) {a : BitVec f.xlen}
    (hlo : c.getCapBase ≤ a.toNat) (hhi : a.toNat ≤ c.getCapTop) :
    c.fastRepCheck (a - c.address) = true
      ∧ (c.setCapAddr a).1 = true
      ∧ (c.setCapAddr a).2.getCapBounds = c.getCapBounds := by
  have hfast := h.fastRepCheck hlo hhi
  have hbounds := getCapBounds_of_fastRepCheck hfast
  refine ⟨hfast, ?_, hbounds⟩
  show decide (c.getCapBounds = (c.withAddress a).getCapBounds) = true
  rw [hbounds]
  exact decide_eq_true rfl

/-- The pages of a request that was rounded, and the address past the last byte. -/
theorem address_in_bounds_pages :
    ∃ (c : Capability .cheri64) (a : BitVec CapFormat.cheri64.xlen),
      c.getCapBounds = (0x1000, 0x3400) ∧ a.toNat = 0x3400
        ∧ c.fastRepCheck (a - c.address) = true
        ∧ (c.setCapAddr a).1 = true
        ∧ (c.setCapAddr a).2.getCapBounds = c.getCapBounds :=
  ⟨((defaultCap .cheri64).setCapBounds 0x1001#32 0x3003#33).2, 0x3400#32, by decide, by decide,
    @address_in_bounds .cheri64 _
      (wellFormed_setCapBounds (defaultCap .cheri64) (by decide) (by decide) (by decide)) 0x3400#32
      (by decide) (by decide)⟩

end Capability

end Sail
