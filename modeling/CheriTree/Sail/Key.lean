import CheriTree.Sail.Representability
import CheriTree.Sail.Enclave

/-!
# The key of an enclave

Four object types need four bytes of bounds, which every format represents
exactly: the exponent is zero and the bounds are what they say. `make_key`
therefore never gives the null capability, and the key of an enclave has the
bounds, the cursor and the permissions that its comment says.
-/

namespace Sail

variable {f : CapFormat}

/-- **The key that `make_key` makes** for the object types of an enclave. -/
def enclaveKey (eid : BitVec (f.ow - 2)) : Capability f :=
  { Capability.nullCap f with
    tag := true
    permitSeal := true
    permitUnseal := true
    global := true
    address := BitVec.ofNat f.xlen (4 * eid.toNat)
    internalE := false
    E := 0
    B := (BitVec.ofNat f.xlen (4 * eid.toNat)).setWidth f.mw
    T := (BitVec.ofNat (f.xlen + 1) (4 * eid.toNat + 4)).setWidth f.mw }

/-- **Four bytes are exact**, from any base. -/
theorem Capability.setCapBounds_four (c : Capability f) {n : ℕ} (hn : n + 4 ≤ 2 ^ f.xlen) :
    c.setCapBounds (BitVec.ofNat f.xlen n) (BitVec.ofNat (f.xlen + 1) (n + 4))
      = (true, { c with
        address := BitVec.ofNat f.xlen n
        E := 0
        B := (BitVec.ofNat f.xlen n).setWidth f.mw
        T := (BitVec.ofNat (f.xlen + 1) (n + 4)).setWidth f.mw
        internalE := false }) := by
  have hmw := f.mw_ge
  have hle := f.mw_le
  have hlength : BitVec.ofNat (f.xlen + 1) (n + 4)
      - (BitVec.ofNat f.xlen n).setWidth (f.xlen + 1) = 4#(f.xlen + 1) := by
    have hpow : 2 ^ (f.xlen + 1) = 2 * 2 ^ f.xlen := Nat.pow_succ'
    have hbase : (BitVec.ofNat f.xlen n).setWidth (f.xlen + 1) = BitVec.ofNat (f.xlen + 1) n := by
      apply BitVec.eq_of_toNat_eq
      rw [BitVec.toNat_setWidth, BitVec.toNat_ofNat, BitVec.toNat_ofNat,
        Nat.mod_eq_of_lt (a := n) (b := 2 ^ f.xlen) (by omega)]
    rw [hbase, BitVec.ofNat_add, BitVec.add_comm, BitVec.add_sub_cancel]
  have hfour : (4#(f.xlen + 1)).toNat = 4 := by
    rw [BitVec.toNat_ofNat, Nat.mod_eq_of_lt]
    calc 4 < 2 ^ 6 := by decide
      _ ≤ 2 ^ (f.xlen + 1) := Nat.pow_le_pow_right (by decide) (by omega)
  have hbig : 4 < 2 ^ (f.mw - 2) := by
    calc 4 < 2 ^ 4 := by decide
      _ ≤ 2 ^ (f.mw - 2) := Nat.pow_le_pow_right (by decide) (by omega)
  have hupper : (4#(f.xlen + 1)).extractLsb' (f.mw - 1) (f.xlen + 1 - (f.mw - 1))
      = 0#(f.xlen + 1 - (f.mw - 1)) := by
    apply BitVec.eq_of_toNat_eq
    rw [BitVec.extractLsb'_toNat, hfour, Nat.shiftRight_eq_div_pow, Nat.div_eq_of_lt,
      Nat.zero_mod, BitVec.toNat_zero]
    exact lt_trans hbig (Nat.pow_lt_pow_right (by decide) (by omega))
  have hclz : (0#(f.xlen + 1 - (f.mw - 1))).clz.toNat = f.capMaxE := by
    rw [BitVec.clz_eq_iff_eq_zero.2 rfl]
    show (BitVec.ofNat _ _).toNat = f.capMaxE
    rw [BitVec.toNat_ofNat, Nat.mod_eq_of_lt Nat.lt_two_pow_self, CapFormat.capMaxE]
    omega
  have hbit : (4#(f.xlen + 1)).getLsbD (f.mw - 2) = false := by
    rw [BitVec.getLsbD, hfour]
    exact Nat.testBit_lt_two_pow hbig
  unfold setCapBounds
  simp only [hlength, hupper, hclz, Nat.sub_self, hbit, Bool.or_false, decide_not, decide_true,
    Bool.not_true, if_neg Bool.false_ne_true]
  rfl

/-- A bound with the exponent zero. -/
theorem Capability.rawBound_of_zero {c : Capability f} (hE : c.exponent = 0) (mid : BitVec f.mw) :
    c.rawBound mid = BitVec.ofInt (f.xlen + 1) (((c.address.toNat / 2 ^ f.mw : ℕ)
      + c.hi (mid.extractLsb' (f.mw - 3) 3)
      - c.hi ((c.address.setWidth f.mw).extractLsb' (f.mw - 3) 3)) * 2 ^ f.mw + mid.toNat) := by
  have hmw := f.mw_ge
  have hle := f.mw_le
  have hahead : ((c.address.setWidth f.mw).extractLsb' (f.mw - 3) 3 : BitVec 3)
      = (c.address >>> (c.exponent + f.mw - 3)).setWidth 3 := by
    apply BitVec.eq_of_getLsbD_eq
    intro i hi
    rw [hE, Nat.zero_add]
    simp only [BitVec.getLsbD_extractLsb', BitVec.getLsbD_setWidth, BitVec.getLsbD_ushiftRight]
    have : f.mw - 3 + i < f.mw := by omega
    simp [this]
  have hdiv := c.div_sub_hi c.address
  rw [rawBound_eq, hE, setWidth_ofInt_append (by omega), ← hdiv, hE, Nat.zero_add, pow_zero,
    mul_one]
  congr 1
  rw [hahead, hE, Nat.zero_add]
  ring

/-- A carry out of the middle bits, and no other, moves the prefix past the
limit. -/
theorem Capability.hi_of_add_four {c : Capability f} {a : ℕ} (hB : c.B.toNat = a % 2 ^ f.mw)
    (hT : c.T.toNat = (a + 4) % 2 ^ f.mw) :
    ((a / 2 ^ f.mw : ℕ) + c.hi (c.T.extractLsb' (f.mw - 3) 3)
      - c.hi (c.B.extractLsb' (f.mw - 3) 3)) * 2 ^ f.mw + c.T.toNat = a + 4 := by
  have hmw := f.mw_ge
  have hsplit : 2 ^ f.mw = 8 * 2 ^ (f.mw - 3) := by
    rw [show (8 : ℕ) = 2 ^ 3 from rfl, ← pow_add]
    congr 1
    omega
  have hu : 8 ≤ 2 ^ (f.mw - 3) := by
    calc 8 = 2 ^ 3 := rfl
      _ ≤ 2 ^ (f.mw - 3) := Nat.pow_le_pow_right (by decide) (by omega)
  have hprefB := toNat_bits_ahead c.B
  have hprefT := toNat_bits_ahead c.T
  have ha := Nat.div_add_mod a (2 ^ f.mw)
  have hr := Nat.mod_lt a (Nat.two_pow_pos f.mw)
  have hpos := Nat.two_pow_pos (f.mw - 3)
  rw [hB] at hprefB
  unfold hi R3
  generalize c.B.extractLsb' (f.mw - 3) 3 = b3 at *
  generalize c.T.extractLsb' (f.mw - 3) 3 = t3 at *
  by_cases hcarry : a % 2 ^ f.mw + 4 < 2 ^ f.mw
  · have hT' : c.T.toNat = a % 2 ^ f.mw + 4 := by
      rw [hT, Nat.add_mod, Nat.mod_eq_of_lt (a := 4) (by omega), Nat.mod_eq_of_lt hcarry]
    have hnext : t3.toNat = b3.toNat ∨ t3.toNat = b3.toNat + 1 := by
      rw [hprefB, hprefT, hT']
      generalize 2 ^ (f.mw - 3) = u at *
      generalize a % 2 ^ f.mw = r at *
      have h1 := Nat.div_le_div_right (c := u) (show r ≤ r + 4 by omega)
      have h2 := Nat.div_le_div_right (c := u) (show r + 4 ≤ r + u by omega)
      rw [Nat.add_div_right _ hpos] at h2
      omega
    have hhi : (if t3 < b3 - 1 then (1 : ℤ) else 0) = if b3 < b3 - 1 then 1 else 0 := by
      clear hprefB hprefT
      revert b3 t3
      decide
    rw [hhi, hT']
    zify at ha
    push_cast
    linarith
  · have hT' : c.T.toNat = a % 2 ^ f.mw + 4 - 2 ^ f.mw := by
      rw [hT, Nat.add_mod, Nat.mod_eq_of_lt (a := 4) (by omega),
        Nat.mod_eq_sub_mod (by omega), Nat.mod_eq_of_lt (by omega)]
    have hlast : b3.toNat = 7 := by
      rw [hprefB]
      refine Nat.div_eq_of_lt_le ?_ ?_
      · omega
      · omega
    have hfirst : t3.toNat = 0 := by
      rw [hprefT, hT']
      exact Nat.div_eq_of_lt (by omega)
    have hhi : (if t3 < b3 - 1 then (1 : ℤ) else 0) = 1
        ∧ (if b3 < b3 - 1 then (1 : ℤ) else 0) = 0 := by
      clear hprefB hprefT
      revert b3 t3
      decide
    rw [hhi.1, hhi.2, hT', Nat.cast_sub (by omega)]
    zify at ha
    push_cast
    linarith

/-- A top four bytes past its base is right as it is. -/
theorem Capability.fixTop_of_add_four {base top : BitVec (f.xlen + 1)}
    (htop : top.toNat = base.toNat + 4)
    (hle : top.toNat ≤ 2 ^ f.xlen) : fixTop base top = top := by
  have hmw := f.mw_ge
  have hmw' := f.mw_le
  have hhalf : 2 ^ f.xlen = 2 * 2 ^ (f.xlen - 1) := by
    rw [← Nat.pow_succ']
    congr 1
    omega
  have hfour : 2 ^ 2 ≤ 2 ^ (f.xlen - 1) := Nat.pow_le_pow_right (by decide) (by omega)
  have hbase2 : (0#1 ++ base.extractLsb' (f.xlen - 1) 1 : BitVec 2).toNat
      = base.toNat / 2 ^ (f.xlen - 1) := by
    rw [BitVec.toNat_append, BitVec.toNat_zero, Nat.zero_shiftLeft, Nat.zero_or,
      BitVec.extractLsb'_toNat, Nat.shiftRight_eq_div_pow, Nat.mod_eq_of_lt]
    exact Nat.div_lt_of_lt_mul (by omega)
  have htop2 : (top.extractLsb' (f.xlen - 1) 2).toNat = top.toNat / 2 ^ (f.xlen - 1) := by
    rw [BitVec.extractLsb'_toNat, Nat.shiftRight_eq_div_pow, Nat.mod_eq_of_lt]
    exact Nat.div_lt_of_lt_mul (by omega)
  unfold fixTop
  refine if_neg ?_
  have hsub : ∀ t b : ℕ, b < 2 → b ≤ t → t ≤ b + 1 → ¬ (2 ^ 2 - b + t) % 2 ^ 2 > 1 := by
    intro t b hb hbt htb
    show ¬ (4 - b + t) % 4 > 1
    omega
  rw [BitVec.toNat_sub, htop2, hbase2, htop]
  refine hsub _ _ (Nat.div_lt_of_lt_mul (by omega)) (Nat.div_le_div_right (by omega)) ?_
  calc (base.toNat + 4) / 2 ^ (f.xlen - 1)
      ≤ (base.toNat + 2 ^ (f.xlen - 1)) / 2 ^ (f.xlen - 1) := Nat.div_le_div_right (by omega)
    _ = base.toNat / 2 ^ (f.xlen - 1) + 1 := Nat.add_div_right _ (Nat.two_pow_pos _)

/-- **The bounds of four bytes** with the exponent zero. -/
theorem Capability.getCapBounds_four {c : Capability f} (hE : c.E = 0)
    (hB : c.B = c.address.setWidth f.mw)
    (hT : c.T = (BitVec.ofNat (f.xlen + 1) (c.address.toNat + 4)).setWidth f.mw)
    (hle : c.address.toNat + 4 ≤ 2 ^ f.xlen) :
    c.getCapBounds = (c.address.toNat, c.address.toNat + 4) := by
  have hmw := f.mw_ge
  have hmw' := f.mw_le
  have hexp : c.exponent = 0 := by
    rw [exponent, hE]
    exact Nat.min_zero _
  have hpow : 2 ^ (f.xlen + 1) = 2 * 2 ^ f.xlen := Nat.pow_succ'
  have hBnat : c.B.toNat = c.address.toNat % 2 ^ f.mw := by
    rw [hB, BitVec.toNat_setWidth]
  have hTnat : c.T.toNat = (c.address.toNat + 4) % 2 ^ f.mw := by
    rw [hT, BitVec.toNat_setWidth, BitVec.toNat_ofNat, Nat.mod_eq_of_lt (b := 2 ^ (f.xlen + 1))]
    omega
  have hbase : c.rawBound c.B = BitVec.ofNat (f.xlen + 1) c.address.toNat := by
    rw [rawBound_of_zero hexp, ← hB, add_sub_cancel_right, ← BitVec.ofInt_natCast]
    congr 1
    rw [hBnat]
    exact_mod_cast Nat.div_add_mod' c.address.toNat (2 ^ f.mw)
  have htop : c.rawBound c.T = BitVec.ofNat (f.xlen + 1) (c.address.toNat + 4) := by
    rw [rawBound_of_zero hexp, ← hB, hi_of_add_four hBnat hTnat, ← BitVec.ofInt_natCast]
    push_cast
    rfl
  have hbaseNat : (c.rawBound c.B).toNat = c.address.toNat := by
    rw [hbase, BitVec.toNat_ofNat, Nat.mod_eq_of_lt (by omega)]
  have htopNat : (c.rawBound c.T).toNat = c.address.toNat + 4 := by
    rw [htop, BitVec.toNat_ofNat, Nat.mod_eq_of_lt (by omega)]
  have hfix : fixTop (c.rawBound c.B) (c.rawBound c.T) = c.rawBound c.T :=
    fixTop_of_add_four (by omega) (by omega)
  unfold getCapBounds getCapBoundsBits
  simp only
  rw [if_pos (by rw [hexp, CapFormat.capMaxE]; omega), hfix, htopNat, BitVec.toNat_setWidth,
    hbaseNat, Nat.mod_eq_of_lt (by omega)]

section Key

variable (hf : f.ow ≤ f.xlen)

include hf

/-- The object types of an enclave are addresses. -/
theorem four_mul_eid_add_four_le (eid : BitVec (f.ow - 2)) : 4 * eid.toNat + 4 ≤ 2 ^ f.xlen := by
  have how := f.ow_ge
  have heid := eid.isLt
  have hsplit : 2 ^ f.ow = 4 * 2 ^ (f.ow - 2) := by
    rw [show (4 : ℕ) = 2 ^ 2 from rfl, ← pow_add]
    congr 1
    omega
  have := Nat.pow_le_pow_right (n := 2) (by decide) hf
  omega

theorem toNat_address_enclaveKey (eid : BitVec (f.ow - 2)) :
    (enclaveKey eid : Capability f).address.toNat = 4 * eid.toNat := by
  have := four_mul_eid_add_four_le hf eid
  show (BitVec.ofNat f.xlen (4 * eid.toNat)).toNat = _
  rw [BitVec.toNat_ofNat, Nat.mod_eq_of_lt (by omega)]

/-- **The bounds of the key** are the four object types. -/
theorem getCapBounds_enclaveKey (eid : BitVec (f.ow - 2)) :
    (enclaveKey eid : Capability f).getCapBounds = (4 * eid.toNat, 4 * eid.toNat + 4) := by
  have haddr := toNat_address_enclaveKey hf eid
  have hle := four_mul_eid_add_four_le hf eid
  have hbounds := Capability.getCapBounds_four (c := enclaveKey eid) rfl rfl
    (by rw [haddr]; rfl) (by rw [haddr]; exact hle)
  rw [hbounds, haddr]

/-- **`make_key` makes the key**, for every enclave. -/
theorem makeKey_eq (eid : BitVec (f.ow - 2)) :
    (makeKey (4 * eid.toNat) 4 : M f (Capability f)) = pure (enclaveKey eid) := by
  have hbounds := getCapBounds_enclaveKey hf eid
  have hlength : (enclaveKey eid : Capability f).getCapBase ≤ (enclaveKey eid).getCapTop := by
    rw [Capability.getCapBase, Capability.getCapTop, hbounds]
    exact Nat.le_add_right _ _
  unfold makeKey
  simp only [Capability.setCapBounds_four _ (four_mul_eid_add_four_le hf eid),
    Capability.setCapAddr, Capability.capBoundsEqual, Capability.withAddress, decide_true,
    Bool.and_self, if_true]
  show (do
    assert (decide ((enclaveKey eid : Capability f).getCapBase ≤ (enclaveKey eid).getCapTop))
    pure (enclaveKey eid) : M f (Capability f)) = _
  rw [decide_eq_true hlength]
  rfl

end Key

end Sail
