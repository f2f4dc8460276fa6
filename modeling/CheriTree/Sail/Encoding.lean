import CheriTree.ByteOrder
import CheriTree.Sail.SetBounds
import Mathlib.Tactic.IntervalCases

/-!
# The compressed form in memory

A capability in memory gives up its two upper bits of `T`, and the low bits of
`B` and `T` where it has an internal exponent. What is lost can be made up from
what is left, for the capabilities the compressed form stands for: those are
the *canonical* ones.

The compressed form is a code for them in both directions
(`memory_round_trip`). Any bits are read as a canonical capability, and written
back as the same bits, so that a capability register can carry data through; and
the canonical capabilities are all that survive a store and a load, each with
one form (`Canonical.eq_of_capToBits`).
-/

namespace Sail

namespace Capability

variable {f : CapFormat} {c : Capability f}

/-- Three low bits in the place of those of a word. -/
theorem getLsbD_splice {w k m : ℕ} (hm : m = k + 3) (x : BitVec w) (lo : BitVec 3) {i : ℕ}
    (hi : i < m) : ((x.extractLsb' 3 k ++ lo).setWidth m).getLsbD i
      = if i < 3 then lo.getLsbD i else x.getLsbD i := by
  rw [BitVec.getLsbD_setWidth, BitVec.getLsbD_append, decide_eq_true hi, Bool.true_and]
  split
  · rfl
  · rw [BitVec.getLsbD_extractLsb', decide_eq_true (by omega), Bool.true_and]
    congr 1
    omega

/-! ## The two upper bits of the top -/

/-- The top from its low bits: the upper two are those of the base, plus those
of the length, plus the carry. -/
def rebuildT (B : BitVec f.mw) (Tl : BitVec (f.mw - 2)) (lenMSBs : BitVec 2) : BitVec f.mw :=
  ((B.extractLsb' (f.mw - 2) 2 + lenMSBs
    + if Tl < B.setWidth (f.mw - 2) then 0b01 else 0b00) ++ Tl).setWidth f.mw

theorem four_mul_two_pow (f : CapFormat) : 2 ^ f.mw = 4 * 2 ^ (f.mw - 2) := by
  have hmw := f.mw_ge
  rw [show (4 : ℕ) = 2 ^ 2 from rfl, ← pow_add]
  congr 1
  omega

theorem rebuildT_eq (B : BitVec f.mw) (Tl : BitVec (f.mw - 2)) (m : BitVec 2) :
    rebuildT B Tl m = BitVec.ofNat f.mw ((B.toNat / 2 ^ (f.mw - 2) + m.toNat
      + if Tl.toNat < B.toNat % 2 ^ (f.mw - 2) then 1 else 0) * 2 ^ (f.mw - 2) + Tl.toNat) := by
  have hfour := four_mul_two_pow f
  have hT := Tl.isLt
  have hcarry : (if Tl < B.setWidth (f.mw - 2) then (0b01 : BitVec 2) else 0b00).toNat
      = if Tl.toNat < B.toNat % 2 ^ (f.mw - 2) then 1 else 0 := by
    rw [apply_ite BitVec.toNat]
    simp only [BitVec.lt_def, BitVec.toNat_setWidth]
    rfl
  have hupper : (B.extractLsb' (f.mw - 2) 2).toNat = B.toNat / 2 ^ (f.mw - 2) := by
    rw [BitVec.extractLsb'_toNat, Nat.shiftRight_eq_div_pow, Nat.mod_eq_of_lt]
    refine Nat.div_lt_of_lt_mul ?_
    rw [← pow_add]
    exact lt_of_lt_of_eq B.isLt (by congr 1; have := f.mw_ge; omega)
  apply BitVec.eq_of_toNat_eq
  rw [rebuildT, BitVec.toNat_setWidth, BitVec.toNat_append, ← Nat.shiftLeft_add_eq_or_of_lt hT,
    Nat.shiftLeft_eq, BitVec.toNat_ofNat, BitVec.toNat_add, BitVec.toNat_add, hcarry, hupper,
    hfour]
  generalize (if Tl.toNat < B.toNat % 2 ^ (f.mw - 2) then 1 else 0) = k
  generalize B.toNat / 2 ^ (f.mw - 2) = b
  refine Nat.ModEq.add_right _ ?_
  rw [Nat.ModEq, Nat.mul_mod_mul_right, Nat.mul_mod_mul_right]
  congr 1
  omega

/-- **The top is as far from the base as its two upper bits make it.** -/
theorem rebuildT_sub (B : BitVec f.mw) (Tl : BitVec (f.mw - 2)) (m : BitVec 2) :
    (rebuildT B Tl m).setWidth (f.mw - 2) = Tl
      ∧ (rebuildT B Tl m - B).toNat / 2 ^ (f.mw - 2) = m.toNat := by
  have hfour := four_mul_two_pow f
  have hT := Tl.isLt
  have hpos := Nat.two_pow_pos (f.mw - 2)
  have hB := Nat.div_add_mod' B.toNat (2 ^ (f.mw - 2))
  have hlow := Nat.mod_lt B.toNat hpos
  have hm : m.toNat ≤ 3 := Nat.le_of_lt_succ m.isLt
  constructor
  · apply BitVec.eq_of_getLsbD_eq
    intro i hi
    rw [rebuildT, BitVec.getLsbD_setWidth, decide_eq_true hi, Bool.true_and,
      BitVec.getLsbD_setWidth, decide_eq_true (by omega), Bool.true_and, BitVec.getLsbD_append,
      if_pos hi]
  · have hofNat : B = BitVec.ofNat f.mw B.toNat := by
      rw [BitVec.ofNat_toNat, BitVec.setWidth_eq]
    have hdist : ∀ k : ℕ, B.toNat % 2 ^ (f.mw - 2) ≤ k * 2 ^ (f.mw - 2) + Tl.toNat →
        k * 2 ^ (f.mw - 2) + Tl.toNat < B.toNat % 2 ^ (f.mw - 2) + 2 ^ (f.mw - 2) →
        (BitVec.ofNat f.mw ((B.toNat / 2 ^ (f.mw - 2) + m.toNat + k) * 2 ^ (f.mw - 2) + Tl.toNat)
          - B).toNat / 2 ^ (f.mw - 2) = m.toNat := by
      intro k hk hk'
      obtain ⟨r, hr⟩ := Nat.exists_eq_add_of_le hk
      have hsum : (B.toNat / 2 ^ (f.mw - 2) + m.toNat + k) * 2 ^ (f.mw - 2) + Tl.toNat
          = B.toNat + (m.toNat * 2 ^ (f.mw - 2) + r) := by
        rw [add_mul, add_mul]
        omega
      have hfits : m.toNat * 2 ^ (f.mw - 2) ≤ 3 * 2 ^ (f.mw - 2) := Nat.mul_le_mul_right _ hm
      rw [hsum, BitVec.ofNat_add, ← hofNat, BitVec.add_comm, BitVec.add_sub_cancel,
        BitVec.toNat_ofNat, Nat.mod_eq_of_lt (by omega), add_comm,
        Nat.add_mul_div_right _ _ hpos, Nat.div_eq_of_lt (by omega), zero_add]
    rw [rebuildT_eq]
    split
    · rename_i hcarry
      exact hdist 1 (by omega) (by omega)
    · exact hdist 0 (by omega) (by omega)

/-- The low bits of the top and its distance in quarters make the top. -/
theorem eq_of_sub_div {B T T' : BitVec f.mw}
    (hlow : T.setWidth (f.mw - 2) = T'.setWidth (f.mw - 2))
    (hdiv : (T - B).toNat / 2 ^ (f.mw - 2) = (T' - B).toNat / 2 ^ (f.mw - 2)) : T = T' := by
  have hdvd : 2 ^ (f.mw - 2) ∣ 2 ^ f.mw := ⟨4, by rw [four_mul_two_pow, mul_comm]⟩
  have hlow' : T.toNat ≡ T'.toNat [MOD 2 ^ (f.mw - 2)] := by
    have := congrArg BitVec.toNat hlow
    rwa [BitVec.toNat_setWidth, BitVec.toNat_setWidth] at this
  have hmod : (T - B).toNat % 2 ^ (f.mw - 2) = (T' - B).toNat % 2 ^ (f.mw - 2) := by
    rw [BitVec.toNat_sub, BitVec.toNat_sub, Nat.mod_mod_of_dvd _ hdvd, Nat.mod_mod_of_dvd _ hdvd]
    exact hlow'.add_left _
  have hsub : T - B = T' - B := by
    apply BitVec.eq_of_toNat_eq
    rw [← Nat.div_add_mod (T - B).toNat (2 ^ (f.mw - 2)), hdiv, hmod, Nat.div_add_mod]
  rw [← BitVec.sub_add_cancel T B, hsub, BitVec.sub_add_cancel]

section Decode

variable (tag : Bool) (bits : BitVec (8 * f.capSize))

/-- The field of `T` in the compressed form. -/
def fieldT (bits : BitVec (8 * f.capSize)) : BitVec (f.mw - 2) :=
  bits.extractLsb' (f.xlen + f.mw) (f.mw - 2)

/-- The field of `B` in the compressed form. -/
def fieldB (bits : BitVec (8 * f.capSize)) : BitVec f.mw := bits.extractLsb' f.xlen f.mw

/-- The low bits of `T`, where the exponent has made way. -/
def lowT (bits : BitVec (8 * f.capSize)) : BitVec (f.mw - 2) :=
  if bits.getLsbD (f.xlen + f.mw + (f.mw - 2)) then
    ((fieldT bits).extractLsb' 3 (f.mw - 5) ++ 0#3).setWidth (f.mw - 2)
  else fieldT bits

theorem getLsbD_T_decode {i : ℕ} (hi : i < f.mw - 2) :
    (capBitsToCapability tag bits).T.getLsbD i = (lowT bits).getLsbD i := by
  show (BitVec.setWidth f.mw (_ ++ lowT bits)).getLsbD i = _
  rw [BitVec.getLsbD_setWidth, BitVec.getLsbD_append, decide_eq_true (by omega), Bool.true_and,
    if_pos hi]

theorem E_decode (h : bits.getLsbD (f.xlen + f.mw + (f.mw - 2)) = true) :
    (capBitsToCapability tag bits).E
      = (fieldT bits).extractLsb' 0 3 ++ (fieldB bits).extractLsb' 0 3 := if_pos h

theorem internalE_decode : (capBitsToCapability tag bits).internalE
    = bits.getLsbD (f.xlen + f.mw + (f.mw - 2)) := rfl

/-- The low bits of `B`, where the exponent has made way. -/
theorem B_decode : (capBitsToCapability tag bits).B
    = if bits.getLsbD (f.xlen + f.mw + (f.mw - 2)) then
        ((fieldB bits).extractLsb' 3 (f.mw - 3) ++ 0#3).setWidth f.mw
      else fieldB bits := rfl

theorem encT_decode : (capBitsToCapability tag bits).encT = fieldT bits := by
  have hmw := f.mw_ge
  apply BitVec.eq_of_getLsbD_eq
  intro i hi
  unfold encT
  simp only
  rw [getLsbD_splice (by omega) _ _ hi, getLsbD_T_decode tag bits hi, lowT, internalE_decode]
  cases hie : bits.getLsbD (f.xlen + f.mw + (f.mw - 2)) with
  | true =>
    rw [if_pos rfl, if_pos rfl, getLsbD_splice (by omega) _ _ hi, E_decode tag bits hie]
    split
    · rename_i h3
      rw [BitVec.getLsbD_extractLsb', BitVec.getLsbD_append, if_neg (by omega),
        BitVec.getLsbD_extractLsb', decide_eq_true h3, decide_eq_true (by omega), Bool.true_and,
        Bool.true_and]
      congr 1
      omega
    · rfl
  | false =>
    rw [if_neg Bool.false_ne_true, if_neg Bool.false_ne_true]
    split
    · rename_i h3
      rw [BitVec.getLsbD_extractLsb', decide_eq_true h3, Bool.true_and, Nat.zero_add,
        getLsbD_T_decode tag bits hi, lowT, hie, if_neg Bool.false_ne_true]
    · rfl

theorem encB_decode : (capBitsToCapability tag bits).encB = fieldB bits := by
  have hmw := f.mw_ge
  apply BitVec.eq_of_getLsbD_eq
  intro i hi
  unfold encB
  simp only
  rw [getLsbD_splice (by omega) _ _ hi, B_decode, internalE_decode]
  cases hie : bits.getLsbD (f.xlen + f.mw + (f.mw - 2)) with
  | true =>
    rw [if_pos rfl, if_pos rfl, getLsbD_splice (by omega) _ _ hi, E_decode tag bits hie]
    split
    · rename_i h3
      rw [BitVec.getLsbD_extractLsb', BitVec.getLsbD_append, if_pos (by omega),
        BitVec.getLsbD_extractLsb', decide_eq_true h3, decide_eq_true (by omega), Bool.true_and,
        Bool.true_and]
      congr 1
      omega
    · rfl
  | false =>
    rw [if_neg Bool.false_ne_true, if_neg Bool.false_ne_true]
    split
    · rename_i h3
      rw [BitVec.getLsbD_extractLsb', decide_eq_true h3, Bool.true_and, Nat.zero_add]
    · rfl

theorem hardPerms_decode : (capBitsToCapability tag bits).getCapHardPerms
    = bits.extractLsb' (f.xlen + f.mw + (f.mw - 2) + 1 + f.ow + 1 + f.rw) 12 := by
  apply BitVec.eq_of_getLsbD_eq
  intro i hi
  have hperm : ∀ k < 12, (bits.extractLsb' (f.xlen + f.mw + (f.mw - 2) + 1 + f.ow + 1 + f.rw)
      (f.uw + 12)).getLsbD k
      = bits.getLsbD (f.xlen + f.mw + (f.mw - 2) + 1 + f.ow + 1 + f.rw + k) := fun k hk => by
    rw [BitVec.getLsbD_extractLsb', decide_eq_true (by omega), Bool.true_and]
  rw [BitVec.getLsbD_extractLsb', decide_eq_true hi, Bool.true_and, ← hperm i hi,
    getCapHardPerms, BitVec.getLsbD_ofBoolListBE]
  show (decide (i < 12) && _) = _
  rw [decide_eq_true hi, Bool.true_and]
  have hlist : ∀ (p : ℕ → Bool) (k : ℕ), k < 12 →
      [p 11, p 10, p 9, p 8, p 7, p 6, p 5, p 4, p 3, p 2, p 1, p 0].getD (11 - k) false = p k := by
    intro p k hk
    interval_cases k <;> rfl
  exact hlist (fun k => (bits.extractLsb' _ (f.uw + 12)).getLsbD k) i hi

/-- **Decoding keeps every bit**, whatever the bits are: a capability register
holds data as well as capabilities. -/
theorem capToBits_decode : (capBitsToCapability tag bits).capToBits = bits := by
  have hwidth := f.width
  have hcap : f.capSize = 2 ^ f.logCapSize := rfl
  have hperms : (capBitsToCapability tag bits).uperms
      = bits.extractLsb' (f.xlen + f.mw + (f.mw - 2) + 1 + f.ow + 1 + f.rw + 12) f.uw := by
    apply BitVec.eq_of_getLsbD_eq
    intro i hi
    show ((bits.extractLsb' (f.xlen + f.mw + (f.mw - 2) + 1 + f.ow + 1 + f.rw)
      (f.uw + 12)).extractLsb' 12 f.uw).getLsbD i = _
    rw [BitVec.getLsbD_extractLsb', BitVec.getLsbD_extractLsb', BitVec.getLsbD_extractLsb',
      decide_eq_true hi, Bool.true_and, Bool.true_and, decide_eq_true (by omega), Bool.true_and]
    exact congrArg _ (by omega)
  have hreserved : (capBitsToCapability tag bits).reserved
      = bits.extractLsb' (f.xlen + f.mw + (f.mw - 2) + 1 + f.ow + 1) f.rw := rfl
  have hflag : BitVec.ofBool (capBitsToCapability tag bits).flagCapMode
      = bits.extractLsb' (f.xlen + f.mw + (f.mw - 2) + 1 + f.ow) 1 := (extractLsb'_one _ _).symm
  have hotype : (capBitsToCapability tag bits).otype
      = bits.extractLsb' (f.xlen + f.mw + (f.mw - 2) + 1) f.ow := rfl
  have hie : BitVec.ofBool (capBitsToCapability tag bits).internalE
      = bits.extractLsb' (f.xlen + f.mw + (f.mw - 2)) 1 := (extractLsb'_one _ _).symm
  have haddress : (capBitsToCapability tag bits).address = bits.extractLsb' 0 f.xlen := rfl
  rw [capToBits, hperms, hardPerms_decode, hreserved, hflag, hotype, hie, encT_decode, encB_decode,
    haddress, fieldT, fieldB]
  iterate 8 rw [BitVec.extractLsb'_append_extractLsb'_eq_extractLsb' (by omega)]
  apply BitVec.eq_of_getLsbD_eq
  intro i hi
  rw [BitVec.getLsbD_setWidth, BitVec.getLsbD_extractLsb', decide_eq_true hi,
    decide_eq_true (by omega), Bool.true_and, Bool.true_and, Nat.zero_add]

/-- **A load and a store of a capability leave the memory as it was**, data or
not. -/
theorem capToMemBits_decode : (memBitsToCapability tag bits).capToMemBits = bits := by
  rw [capToMemBits, memBitsToCapability, capToBits_decode, BitVec.xor_assoc, BitVec.xor_self,
    BitVec.xor_zero]

/-- Zeros spliced in make a multiple of eight. -/
theorem eight_dvd_splice {w k m : ℕ} (hm : m = k + 3) (x : BitVec w) :
    8 ∣ ((x.extractLsb' 3 k ++ 0#3).setWidth m).toNat := by
  have hM8 : 8 ∣ 2 ^ m := by
    rw [hm, pow_add]
    exact Nat.dvd_mul_left _ _
  rw [BitVec.toNat_setWidth, Nat.dvd_mod_iff hM8, BitVec.toNat_append, BitVec.toNat_zero,
    Nat.or_zero, Nat.shiftLeft_eq]
  exact Nat.dvd_mul_left _ _

/-- **What is decoded is canonical**, whatever the bits are. -/
theorem canonical_decode : (capBitsToCapability tag bits).Canonical := by
  have hmw := f.mw_ge
  have hpos := Nat.two_pow_pos (f.mw - 2)
  have hdouble : 2 ^ (f.mw - 1) = 2 * 2 ^ (f.mw - 2) := (mul_pow_sub_one (by omega) 2).symm
  have h8 : 8 ∣ 2 ^ (f.mw - 2) := Nat.pow_dvd_pow 2 (show 3 ≤ f.mw - 2 by omega)
  obtain ⟨hlow, hdiv⟩ := rebuildT_sub (capBitsToCapability tag bits).B (lowT bits)
    (if bits.getLsbD (f.xlen + f.mw + (f.mw - 2)) then 0b01 else 0b00)
  have hT : (capBitsToCapability tag bits).T = rebuildT (capBitsToCapability tag bits).B (lowT bits)
    (if bits.getLsbD (f.xlen + f.mw + (f.mw - 2)) then 0b01 else 0b00) := rfl
  rw [← hT] at hlow hdiv
  refine ⟨fun hie => ?_, fun hie => ?_, fun hie => ?_⟩
  · rw [internalE_decode] at hie
    rw [hie, if_neg Bool.false_ne_true] at hdiv
    refine ⟨if_neg (by rw [hie]; exact Bool.false_ne_true), ?_⟩
    exact (Nat.div_eq_zero_iff_lt hpos).1 hdiv
  · rw [internalE_decode] at hie
    constructor
    · rw [B_decode, if_pos hie]
      exact eight_dvd_splice (by omega) _
    · have hnat := congrArg BitVec.toNat hlow
      rw [BitVec.toNat_setWidth, lowT, if_pos hie] at hnat
      rw [← Nat.dvd_mod_iff h8, hnat]
      exact eight_dvd_splice (by omega) _
  · rw [internalE_decode] at hie
    rw [hie, if_pos rfl] at hdiv
    have hone := Nat.div_add_mod ((capBitsToCapability tag bits).T
      - (capBitsToCapability tag bits).B).toNat (2 ^ (f.mw - 2))
    have hrest := Nat.mod_lt ((capBitsToCapability tag bits).T
      - (capBitsToCapability tag bits).B).toNat hpos
    rw [hdiv, show (0b01 : BitVec 2).toNat = 1 from rfl, mul_one] at hone
    omega

end Decode

/-! ## One form for one capability -/

theorem setWidth_inj {m n : ℕ} (h : m ≤ n) {x y : BitVec m} (hxy : x.setWidth n = y.setWidth n) :
    x = y := by
  have := congrArg (BitVec.setWidth m) hxy
  rwa [BitVec.setWidth_setWidth_of_le _ h, BitVec.setWidth_setWidth_of_le _ h, BitVec.setWidth_eq,
    BitVec.setWidth_eq] at this

/-- Twelve permissions are twelve bits. -/
theorem hardPerms_inj {d : Capability f} (h : c.getCapHardPerms = d.getCapHardPerms) (i : ℕ) :
    [c.permitSetCID, c.accessSystemRegs, c.permitUnseal, c.permitCInvoke, c.permitSeal,
      c.permitStoreLocalCap, c.permitStoreCap, c.permitLoadCap, c.permitStore, c.permitLoad,
      c.permitExecute, c.global].getD i false
    = [d.permitSetCID, d.accessSystemRegs, d.permitUnseal, d.permitCInvoke, d.permitSeal,
      d.permitStoreLocalCap, d.permitStoreCap, d.permitLoadCap, d.permitStore, d.permitLoad,
      d.permitExecute, d.global].getD i false := by
  have hbit := congrArg (fun x => x.getMsbD i) h
  simp only [getCapHardPerms, BitVec.getMsbD_ofBoolListBE] at hbit
  exact hbit

/-- The low bits of a canonical bound are those of its field, or zero. -/
theorem getLsbD_of_dvd {w : ℕ} {x : BitVec w} (h : 8 ∣ x.toNat) {i : ℕ} (hi : i < 3) :
    x.getLsbD i = false := by
  obtain ⟨q, hq⟩ := h
  rw [BitVec.getLsbD, hq, show 8 = 2 ^ 3 from rfl, Nat.testBit_two_pow_mul,
    decide_eq_false (by omega), Bool.false_and]

/-- A field with the exponent in its low bits gives a bound, where that has
zeros. -/
theorem getLsbD_of_splice {w k m : ℕ} (hm : m = k + 3) (x : BitVec w) (ie : Bool) (e : BitVec 3)
    (h8 : ie = true → 8 ∣ x.toNat) {i : ℕ} (hi : i < m) :
    x.getLsbD i = if ie = true ∧ i < 3 then false else
      ((x.extractLsb' 3 k ++ if ie then e else x.extractLsb' 0 3).setWidth m).getLsbD i := by
  rw [getLsbD_splice hm _ _ hi]
  by_cases h3 : i < 3
  · rw [if_pos h3]
    cases ie with
    | true =>
      rw [if_pos ⟨rfl, h3⟩]
      exact getLsbD_of_dvd (h8 rfl) h3
    | false =>
      rw [if_neg (fun hc => Bool.false_ne_true hc.1), if_neg Bool.false_ne_true,
        BitVec.getLsbD_extractLsb', decide_eq_true h3, Bool.true_and, Nat.zero_add]
  · rw [if_neg (fun hc => h3 hc.2), if_neg h3]

theorem extractLsb'_splice {w k m : ℕ} (hm : m = k + 3) (x : BitVec w) (lo : BitVec 3) :
    ((x.extractLsb' 3 k ++ lo).setWidth m).extractLsb' 0 3 = lo := by
  apply BitVec.eq_of_getLsbD_eq
  intro i hi
  rw [BitVec.getLsbD_extractLsb', Nat.zero_add, getLsbD_splice hm _ _ (by omega), if_pos hi,
    decide_eq_true hi, Bool.true_and]

theorem Canonical.getLsbD_B (h : c.Canonical) {i : ℕ} (hi : i < f.mw) :
    c.B.getLsbD i = if c.internalE = true ∧ i < 3 then false else c.encB.getLsbD i :=
  getLsbD_of_splice (by have := f.mw_ge; omega) _ _ _ (fun hie => (h.low hie).1) hi

theorem Canonical.getLsbD_T (h : c.Canonical) {i : ℕ} (hi : i < f.mw - 2) :
    c.T.getLsbD i = if c.internalE = true ∧ i < 3 then false else c.encT.getLsbD i :=
  getLsbD_of_splice (by have := f.mw_ge; omega) _ _ _ (fun hie => (h.low hie).2) hi

/-- The distance of a canonical top, in whole quarters. -/
theorem Canonical.sub_div (h : c.Canonical) :
    (c.T - c.B).toNat / 2 ^ (f.mw - 2) = if c.internalE then 1 else 0 := by
  have hmw := f.mw_ge
  have hdouble : 2 ^ (f.mw - 1) = 2 * 2 ^ (f.mw - 2) := (mul_pow_sub_one (by omega) 2).symm
  cases hie : c.internalE with
  | true =>
    obtain ⟨hlo, hhi⟩ := h.long hie
    rw [if_pos rfl]
    exact Nat.div_eq_of_lt_le (by omega) (by omega)
  | false =>
    rw [if_neg Bool.false_ne_true]
    exact Nat.div_eq_of_lt (h.short hie).2

/-- The exponent of a canonical capability is in the low bits of its fields. -/
theorem Canonical.E_eq (h : c.Canonical) :
    c.E = if c.internalE then c.encT.extractLsb' 0 3 ++ c.encB.extractLsb' 0 3 else 0 := by
  have hmw := f.mw_ge
  cases hie : c.internalE with
  | true =>
    rw [if_pos rfl]
    have hT : c.encT.extractLsb' 0 3 = c.E.extractLsb' 3 3 := by
      rw [encT, extractLsb'_splice (by omega), hie, if_pos rfl]
    have hB : c.encB.extractLsb' 0 3 = c.E.extractLsb' 0 3 := by
      rw [encB, extractLsb'_splice (by omega), hie, if_pos rfl]
    rw [hT, hB]
    exact (@BitVec.extractLsb'_append_extractLsb' 3 3 c.E).symm
  | false =>
    rw [if_neg Bool.false_ne_true]
    exact (h.short hie).1

/-- **Two canonical capabilities with the same bits and the same tag are the
same.** -/
theorem Canonical.eq_of_capToBits {d : Capability f} (hc : c.Canonical) (hd : d.Canonical)
    (htag : c.tag = d.tag) (h : c.capToBits = d.capToBits) : c = d := by
  have hmw := f.mw_ge
  have hwidth := f.width
  have hcap : f.capSize = 2 ^ f.logCapSize := rfl
  have h := setWidth_inj (by omega) h
  obtain ⟨h, haddress⟩ := ByteOrder.append_inj h
  obtain ⟨h, hencB⟩ := ByteOrder.append_inj h
  obtain ⟨h, hencT⟩ := ByteOrder.append_inj h
  obtain ⟨h, hie⟩ := ByteOrder.append_inj h
  obtain ⟨h, hotype⟩ := ByteOrder.append_inj h
  obtain ⟨h, hflag⟩ := ByteOrder.append_inj h
  obtain ⟨h, hreserved⟩ := ByteOrder.append_inj h
  obtain ⟨huperms, hperms⟩ := ByteOrder.append_inj h
  have hie : c.internalE = d.internalE := BitVec.ofBool_eq_iff_eq.1 hie
  have hflag : c.flagCapMode = d.flagCapMode := BitVec.ofBool_eq_iff_eq.1 hflag
  have hB : c.B = d.B := by
    apply BitVec.eq_of_getLsbD_eq
    intro i hi
    rw [hc.getLsbD_B hi, hd.getLsbD_B hi, hie, hencB]
  have hT : c.T = d.T := by
    refine eq_of_sub_div (B := c.B) ?_ ?_
    · apply BitVec.eq_of_getLsbD_eq
      intro i hi
      rw [BitVec.getLsbD_setWidth, BitVec.getLsbD_setWidth, hc.getLsbD_T hi, hd.getLsbD_T hi, hie,
        hencT]
    · rw [hc.sub_div, hie, hB, hd.sub_div]
  have hE : c.E = d.E := by
    rw [hc.E_eq, hd.E_eq, hie, hencT, hencB]
  have hperm := hardPerms_inj hperms
  exact Capability.ext htag huperms (hperm 0) (hperm 1) (hperm 2) (hperm 3) (hperm 4) (hperm 5)
    (hperm 6) (hperm 7) (hperm 8) (hperm 9) (hperm 10) (hperm 11) hreserved hflag hie hE hB hT
    hotype haddress

/-- **A canonical capability survives its encoding.** -/
theorem Canonical.decode_capToMemBits (h : c.Canonical) :
    memBitsToCapability c.tag c.capToMemBits = c := by
  rw [memBitsToCapability, capToMemBits, BitVec.xor_assoc, BitVec.xor_self, BitVec.xor_zero]
  exact Canonical.eq_of_capToBits (canonical_decode _ _) h rfl (capToBits_decode _ _)

/-- **The compressed form is a code for the canonical capabilities.** Whatever
is in memory is read as a canonical capability and written back as it was; a
capability survives its encoding exactly when it is canonical. -/
theorem memory_round_trip (f : CapFormat) :
    (∀ (tag : Bool) (bits : BitVec (8 * f.capSize)),
        (memBitsToCapability tag bits).Canonical
          ∧ (memBitsToCapability tag bits).tag = tag
          ∧ (memBitsToCapability tag bits).capToMemBits = bits)
      ∧ ∀ c : Capability f, memBitsToCapability c.tag c.capToMemBits = c ↔ c.Canonical := by
  refine ⟨fun tag bits => ⟨canonical_decode tag _, rfl, capToMemBits_decode tag bits⟩, fun c => ?_⟩
  constructor
  · intro h
    exact h ▸ canonical_decode _ _
  · intro h
    exact h.decode_capToMemBits

end Capability

end Sail
