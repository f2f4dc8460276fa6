import CheriTree.Sail.SetBounds

/-!
# Lengths an allocator can ask for

An allocator that wants bounds without slack has to know two things before it
picks a place: how far to round the length up, and how to align the base.
`getRepresentableLength` and `getRepresentableAlignmentMask` answer, both by
setting bounds on a capability at address zero and looking at its exponent.

The answers are about base zero, and the allocator is elsewhere. That they hold
there as well is `setCapBounds_representable`: at any base the mask leaves
alone, the rounded length is exact. It is also the least there is, at any base
(`getRepresentableLength_le`).
-/

namespace Sail

namespace Capability

open BlockRounding

variable {f : CapFormat}

/-- The low bits a length of `len` makes way with. -/
def alignmentBits (len : BitVec f.xlen) : ℕ :=
  let c := ((defaultCap f).setCapBounds 0#f.xlen (len.setWidth (f.xlen + 1))).2
  let e := min c.E.toNat f.capMaxE
  if c.internalE then e + 3 else 0

/-- **The mask of the bases** at which a length is exact. -/
def getRepresentableAlignmentMask (len : BitVec f.xlen) : BitVec f.xlen :=
  (BitVec.allOnes (f.xlen - alignmentBits len) ++ 0#(alignmentBits len)).setWidth f.xlen

/-- **The length**, rounded up to one that can be exact. -/
def getRepresentableLength (len : BitVec f.xlen) : BitVec f.xlen :=
  let m := getRepresentableAlignmentMask len
  (len + ~~~m) &&& m

section Mask

variable (len : BitVec f.xlen)

theorem toNat_setWidth_succ : (len.setWidth (f.xlen + 1)).toNat = len.toNat := by
  rw [BitVec.toNat_setWidth, Nat.mod_eq_of_lt]
  exact lt_trans len.isLt (Nat.pow_lt_pow_right (by decide) (Nat.lt_succ_self _))

/-- The granule of a length is what the mask is about. -/
theorem two_pow_alignmentBits (hE : f.capMaxE < 64) :
    2 ^ alignmentBits len = granule (f.mw - 4) 3 0 len.toNat := by
  have hmw := f.mw_ge
  have hnat := toNat_setWidth_succ len
  have hle : (0#f.xlen).toNat ≤ (len.setWidth (f.xlen + 1)).toNat := by
    rw [BitVec.toNat_zero]
    exact Nat.zero_le _
  have htop : (len.setWidth (f.xlen + 1)).toNat ≤ 2 ^ f.xlen := hnat ▸ len.isLt.le
  have hexp := exponent_setCapBounds (defaultCap f) hE hle htop
  have hie : ((defaultCap f).setCapBounds 0#f.xlen (len.setWidth (f.xlen + 1))).2.internalE
      = decide (2 ^ (f.mw - 2) ≤ len.toNat - 0) := by
    rw [setCapBounds_eq _ hle, hnat, BitVec.toNat_zero]
  rw [Capability.exponent, hnat, BitVec.toNat_zero, Nat.min_comm] at hexp
  rw [alignmentBits, hie]
  simp only [hexp, decide_eq_true_eq]
  split
  · rename_i hlong
    exact (granule_of_long hlong).symm
  · rename_i hshort
    rw [granule, if_pos (by rw [show f.mw - 4 + 3 - 1 = f.mw - 2 by omega]; omega), pow_zero]

theorem alignmentBits_le (hE : f.capMaxE < 64) : alignmentBits len ≤ f.xlen := by
  have hmw := f.mw_ge
  have hle := f.mw_le
  have hmax : f.capMaxE = f.xlen + 1 - f.mw + 1 := rfl
  have hgranule := granule_le (f := f) 0 len.toNat
  have hexp := requestE_le (f := f) (Nat.zero_le len.toNat) len.isLt.le
  rw [← two_pow_alignmentBits len hE] at hgranule
  have := (Nat.pow_le_pow_iff_right (by decide)).1 hgranule
  omega

/-- The mask rounds down. -/
theorem toNat_and_mask (hE : f.capMaxE < 64) (x : BitVec f.xlen) :
    (x &&& getRepresentableAlignmentMask len).toNat
      = down (granule (f.mw - 4) 3 0 len.toNat) x.toNat := by
  have hbits := alignmentBits_le len hE
  have hcut : x &&& getRepresentableAlignmentMask len
      = (x >>> alignmentBits len) <<< alignmentBits len := by
    apply BitVec.eq_of_getLsbD_eq
    intro i hi
    rw [BitVec.getLsbD_and, getRepresentableAlignmentMask, BitVec.getLsbD_setWidth,
      BitVec.getLsbD_append, BitVec.getLsbD_shiftLeft, BitVec.getLsbD_ushiftRight,
      decide_eq_true hi, Bool.true_and, Bool.true_and]
    by_cases hlow : i < alignmentBits len
    · rw [if_pos hlow, decide_eq_true hlow, BitVec.getLsbD_zero, Bool.and_false, Bool.not_true,
        Bool.false_and]
    · rw [if_neg hlow, decide_eq_false hlow, BitVec.getLsbD_allOnes, decide_eq_true (by omega),
        Bool.and_true, Bool.not_false, Bool.true_and, Nat.add_sub_cancel' (not_lt.1 hlow)]
  rw [hcut, BitVec.toNat_shiftLeft, BitVec.toNat_ushiftRight, Nat.shiftRight_eq_div_pow,
    Nat.shiftLeft_eq, two_pow_alignmentBits len hE, down, mul_comm, Nat.mod_eq_of_lt]
  exact lt_of_le_of_lt (down_le _ _) x.isLt

/-- What the mask leaves out is one less than the granule. -/
theorem toNat_not_mask (hE : f.capMaxE < 64) :
    (~~~getRepresentableAlignmentMask len).toNat
      = granule (f.mw - 4) 3 0 len.toNat - 1 := by
  have hbits := alignmentBits_le len hE
  have hnot : ~~~getRepresentableAlignmentMask len
      = BitVec.ofNat f.xlen (2 ^ alignmentBits len - 1) := by
    apply BitVec.eq_of_getLsbD_eq
    intro i hi
    rw [BitVec.getLsbD_not, getRepresentableAlignmentMask, BitVec.getLsbD_setWidth,
      BitVec.getLsbD_append, BitVec.getLsbD_zero, BitVec.getLsbD_ofNat,
      Nat.testBit_two_pow_sub_one, decide_eq_true hi, Bool.true_and, Bool.true_and, Bool.true_and]
    by_cases hlow : i < alignmentBits len
    · rw [if_pos hlow, decide_eq_true hlow, Bool.not_false]
    · rw [if_neg hlow, decide_eq_false hlow, BitVec.getLsbD_allOnes, decide_eq_true (by omega),
        Bool.not_true]
  have hpow : 2 ^ alignmentBits len ≤ 2 ^ f.xlen := Nat.pow_le_pow_right (by decide) hbits
  have hpos := Nat.two_pow_pos (alignmentBits len)
  rw [hnot, BitVec.toNat_ofNat, Nat.mod_eq_of_lt (by omega), two_pow_alignmentBits len hE]

end Mask

/-- **The rounded length** is the one the format rounds to, up to the size of
the address space. -/
theorem toNat_getRepresentableLength (hE : f.capMaxE < 64) (len : BitVec f.xlen) :
    (getRepresentableLength len).toNat = (requestBounds f 0 len.toNat).2 % 2 ^ f.xlen := by
  have hpos := granule_pos (f.mw - 4) 3 0 len.toNat
  have hdvd : granule (f.mw - 4) 3 0 len.toNat ∣ 2 ^ f.xlen := by
    rw [← two_pow_alignmentBits len hE]
    exact Nat.pow_dvd_pow 2 (alignmentBits_le len hE)
  show ((len + ~~~getRepresentableAlignmentMask len)
    &&& getRepresentableAlignmentMask len).toNat = _
  rw [toNat_and_mask len hE, BitVec.toNat_add, toNat_not_mask len hE]
  show down _ _ = up _ len.toNat % 2 ^ f.xlen
  generalize granule (f.mw - 4) 3 0 len.toNat = g at *
  obtain ⟨m, hm⟩ := hdvd
  rw [up, Nat.ceilDiv_eq_add_pred_div, Nat.add_sub_assoc hpos, down, hm, Nat.mul_mod_mul_left,
    Nat.mod_mul_right_div_self]

/-- **A rounded length is exact at every base the mask leaves alone.** Where
rounding the length up does not leave the address space, and the bytes from the
base on are in it, setting these bounds changes nothing in them. -/
theorem setCapBounds_representable (hE : f.capMaxE < 64) (c : Capability f)
    {len base : BitVec f.xlen} (haligned : base &&& getRepresentableAlignmentMask len = base)
    (hlen : len ≤ getRepresentableLength len)
    (hfits : base.toNat + (getRepresentableLength len).toNat ≤ 2 ^ f.xlen) :
    (c.setCapBounds base (BitVec.ofNat (f.xlen + 1)
          (base.toNat + (getRepresentableLength len).toNat))).1 = true
      ∧ (c.setCapBounds base (BitVec.ofNat (f.xlen + 1)
          (base.toNat + (getRepresentableLength len).toNat))).2.getCapBounds
        = (base.toNat, base.toNat + (getRepresentableLength len).toNat) := by
  have hmw := f.mw_ge
  have hspace : 2 ^ (f.xlen + 1) = 2 * 2 ^ f.xlen := Nat.pow_succ'
  have hpos := Nat.two_pow_pos f.xlen
  have hdvd : granule (f.mw - 4) 3 0 len.toNat ∣ base.toNat := by
    have := congrArg BitVec.toNat haligned
    rw [toNat_and_mask len hE] at this
    exact down_eq_iff.1 this
  have hround : (getRepresentableLength len).toNat = (requestBounds f 0 len.toNat).2 := by
    rw [BitVec.le_def] at hlen
    rw [toNat_getRepresentableLength hE] at hlen ⊢
    have hup : len.toNat ≤ (requestBounds f 0 len.toNat).2 := le_enclose_snd _ _ _ _
    have htop : (requestBounds f 0 len.toNat).2 ≤ 2 ^ f.xlen :=
      enclose_snd_le (by omega) (Nat.zero_le _) len.isLt.le
    obtain hlt | heq := htop.lt_or_eq
    · exact Nat.mod_eq_of_lt hlt
    · -- only an empty length comes back from the end of the address space
      rw [heq, Nat.mod_self] at hlen
      have hzero : len.toNat = 0 := Nat.le_zero.1 hlen
      rw [hzero, requestBounds_of_short (by rw [Nat.sub_self]; exact Nat.two_pow_pos _)] at heq
      omega
  have htop : (BitVec.ofNat (f.xlen + 1)
      (base.toNat + (getRepresentableLength len).toNat)).toNat
      = base.toNat + (getRepresentableLength len).toNat := by
    rw [BitVec.toNat_ofNat, Nat.mod_eq_of_lt (by omega)]
  have hrep : Representable (f.mw - 4) 3 base.toNat
      (base.toNat + (getRepresentableLength len).toNat) := by
    rw [hround]
    exact representable_add (by omega) hdvd
  have hle : base.toNat ≤ base.toNat + (getRepresentableLength len).toNat := Nat.le_add_right _ _
  have hencl : requestBounds f base.toNat (base.toNat + (getRepresentableLength len).toNat)
      = (base.toNat, base.toNat + (getRepresentableLength len).toNat) :=
    (enclose_eq_iff (by omega) hle).2 hrep
  refine ⟨?_, ?_⟩
  · rw [setCapBounds_eq c (by rw [htop]; exact hle), htop, hencl]
    exact decide_eq_true rfl
  · rw [getCapBounds_setCapBounds c hE (by rw [htop]; exact hle) (by rw [htop]; exact hfits), htop,
      hencl]

/-- **No well formed capability has a length between** one that is asked for and
the rounded one. -/
theorem getRepresentableLength_le (hE : f.capMaxE < 64) {len : BitVec f.xlen} {d : Capability f}
    (hd : d.WellFormed) (hlen : len.toNat ≤ d.getCapTop - d.getCapBase) :
    (getRepresentableLength len).toNat ≤ d.getCapTop - d.getCapBase := by
  have hmw := f.mw_ge
  have hrep := representable_sub hd.representable
  have hle := (enclose_least (by omega) (Nat.zero_le _) hrep le_rfl hlen).2
  rw [toNat_getRepresentableLength hE]
  exact (Nat.mod_le _ _).trans hle

/-- **The length an allocator is told is the one to ask for.** It is exact at
every aligned base where it fits, on any capability, and no well formed
capability at any base has a length between the one it wanted and this one. -/
theorem getRepresentableLength_spec (hE : f.capMaxE < 64) {len : BitVec f.xlen}
    (hlen : len ≤ getRepresentableLength len) :
    (∀ (c : Capability f) (base : BitVec f.xlen),
        base &&& getRepresentableAlignmentMask len = base →
        base.toNat + (getRepresentableLength len).toNat ≤ 2 ^ f.xlen →
        (c.setCapBounds base (BitVec.ofNat (f.xlen + 1)
            (base.toNat + (getRepresentableLength len).toNat))).1 = true
          ∧ (c.setCapBounds base (BitVec.ofNat (f.xlen + 1)
            (base.toNat + (getRepresentableLength len).toNat))).2.getCapBounds
          = (base.toNat, base.toNat + (getRepresentableLength len).toNat))
      ∧ ∀ d : Capability f, d.WellFormed → len.toNat ≤ d.getCapTop - d.getCapBase →
        (getRepresentableLength len).toNat ≤ d.getCapTop - d.getCapBase := by
  constructor
  · intro c base haligned hfits
    exact setCapBounds_representable hE c haligned hlen hfits
  · intro d hd hd'
    exact getRepresentableLength_le hE hd hd'

/-- A page and a byte, on the 32-bit machine: nothing is between the byte and
the next eighth of a page. -/
theorem getRepresentableLength_spec_page :
    (getRepresentableLength (f := .cheri64) 0x1001#32).toNat = 0x1200
      ∧ ∀ d : Capability .cheri64, d.WellFormed → 0x1001 ≤ d.getCapTop - d.getCapBase →
        0x1200 ≤ d.getCapTop - d.getCapBase := by
  have hround : (getRepresentableLength (f := .cheri64) 0x1001#32).toNat = 0x1200 := by
    decide
  have hspec := (@getRepresentableLength_spec .cheri64 (by decide) 0x1001#32
    (BitVec.le_def.2 (le_of_le_of_eq (by decide) hround.symm))).2
  rw [hround] at hspec
  exact ⟨hround, hspec⟩

end Capability

end Sail
