import CheriTree.Morello.Sweep

/-!
# The overlap test at the top of the address space

`bounds_nonoverlap_check_twocap` compares the end of each section with the
start of a capability, and the end of the capability with the start of each
section. The ends are sums of 64 bits, and a range that ends with the address
space has the end zero: as a section it seems to lie below everything, as a
capability it seems to lie below every section. The whole address space is an
exception, since its length is read as one byte less than it is.

So the test never reports an overlap that is not there, but for ranges that are
empty, and it misses one where what overlaps ends at the top. It has to miss
both sections for that: where it sees one of the two, it fails for both.
-/

namespace Morello

namespace Capability

/-- The end of a range over the integers, with its length as it is read. -/
def readTop (c : Capability) : ℕ := c.base.toNat + (cheriLengthGet c).toNat

/-- **A range that ends with the address space**: its end is read as zero. -/
def EndsAtTop (c : Capability) : Prop := c.readTop = 2 ^ 64

instance (c : Capability) : Decidable c.EndsAtTop := inferInstanceAs (Decidable (_ = _))

/-- **The test sees a section**: neither it nor the capability ends with the
address space, and each of them starts below the end of the other. -/
structure SeenAgainst (sec capm : Capability) : Prop where
  sec_below : ¬ sec.EndsAtTop
  capm_below : ¬ capm.EndsAtTop
  capm_starts : capm.base.toNat < sec.readTop
  sec_starts : sec.base.toNat < capm.readTop

end Capability

/-- **The test says whether there is an overlap**: a capability that passes
shares no byte with either section, and one that does not pass shares a byte
with one of them, or something is empty. -/
structure OverlapTestRight (code data capm : Capability) : Prop where
  passes : boundsNonoverlapCheckTwocap code.base (limit code) data.base (limit data) capm = 0 →
    ¬ capm.range.Meets code.range ∧ ¬ capm.range.Meets data.range
  fails : boundsNonoverlapCheckTwocap code.base (limit code) data.base (limit data) capm = -1 →
    capm.range.Meets code.range ∨ capm.range.Meets data.range
      ∨ code.length = 0 ∨ data.length = 0 ∨ capm.length = 0

section

variable {sec code data capm : Capability}

theorem readTop_le (h : sec.base.toNat + sec.length ≤ 2 ^ 64) :
    sec.readTop ≤ sec.base.toNat + sec.length ∧ sec.readTop ≤ 2 ^ 64 := by
  unfold Capability.readTop cheriLengthGet
  rw [BitVec.toNat_ofNat]
  omega

/-- **The end as it is read** is that over the integers, but at the top. -/
theorem toNat_limit_eq (h : sec.base.toNat + sec.length ≤ 2 ^ 64) :
    (limit sec).toNat = if sec.EndsAtTop then 0 else sec.readTop := by
  have hle := (readTop_le h).2
  rw [limit, BitVec.toNat_add]
  show sec.readTop % 2 ^ 64 = _
  by_cases htop : sec.EndsAtTop
  · rw [if_pos htop]
    exact (congrArg (· % 2 ^ 64) htop).trans (Nat.mod_self _)
  · rw [if_neg htop]
    exact Nat.mod_eq_of_lt (Nat.lt_of_le_of_ne hle htop)

/-- One half of the test, over the integers. -/
theorem limits_iff (hsec : sec.base.toNat + sec.length ≤ 2 ^ 64)
    (hcapm : capm.base.toNat + capm.length ≤ 2 ^ 64) :
    (limit sec ≤ capm.base ∨ sec.base ≥ limit capm) ↔ ¬ sec.SeenAgainst capm := by
  rw [BitVec.le_def, ge_iff_le, BitVec.le_def, toNat_limit_eq hsec, toNat_limit_eq hcapm]
  constructor
  · rintro h ⟨hs, hc, h1, h2⟩
    rw [if_neg hs, if_neg hc] at h
    omega
  · intro h
    by_cases hs : sec.EndsAtTop
    · rw [if_pos hs]
      exact Or.inl (Nat.zero_le _)
    · by_cases hc : capm.EndsAtTop
      · rw [if_pos hc]
        exact Or.inr (Nat.zero_le _)
      · rw [if_neg hs, if_neg hc]
        by_contra hno
        obtain ⟨h1, h2⟩ := not_or.1 hno
        exact h ⟨hs, hc, Nat.lt_of_not_le h1, Nat.lt_of_not_le h2⟩

/-- **The test passes** what it sees against neither section. -/
theorem check_eq_zero_iff_not_seen (hcode : code.base.toNat + code.length ≤ 2 ^ 64)
    (hdata : data.base.toNat + data.length ≤ 2 ^ 64)
    (hcapm : capm.base.toNat + capm.length ≤ 2 ^ 64) :
    boundsNonoverlapCheckTwocap code.base (limit code) data.base (limit data) capm = 0
      ↔ ¬ code.SeenAgainst capm ∧ ¬ data.SeenAgainst capm := by
  rw [check_eq_zero_iff, limits_iff hcode hcapm, limits_iff hdata hcapm]

/-- What is seen overlaps, unless something is empty. -/
theorem Capability.SeenAgainst.meets (h : sec.SeenAgainst capm)
    (hsec : sec.base.toNat + sec.length ≤ 2 ^ 64)
    (hcapm : capm.base.toNat + capm.length ≤ 2 ^ 64) :
    capm.range.Meets sec.range ∨ sec.length = 0 ∨ capm.length = 0 := by
  have hsec := (readTop_le hsec).1
  have hcapm := (readTop_le hcapm).1
  have h1 := h.capm_starts
  have h2 := h.sec_starts
  rw [ByteRange.meets_iff]
  show (capm.base.toNat < sec.base.toNat + sec.length
    ∧ sec.base.toNat < capm.base.toNat + capm.length ∧ 0 < capm.length ∧ 0 < sec.length) ∨ _
  omega

end

/-- **The overlap test is right exactly where an overlap is seen**: it need not
be the one there is. -/
theorem overlapTest_right_iff (code data capm : Capability)
    (hcode : code.base.toNat + code.length ≤ 2 ^ 64)
    (hdata : data.base.toNat + data.length ≤ 2 ^ 64)
    (hcapm : capm.base.toNat + capm.length ≤ 2 ^ 64) :
    OverlapTestRight code data capm ↔
      (capm.range.Meets code.range ∨ capm.range.Meets data.range →
        code.SeenAgainst capm ∨ data.SeenAgainst capm) := by
  have hpass := check_eq_zero_iff_not_seen hcode hdata hcapm
  constructor
  · intro h hmeets
    by_contra hno
    obtain ⟨hc, hd⟩ := h.passes (hpass.2 (not_or.1 hno))
    exact hmeets.elim hc hd
  · intro h
    refine ⟨fun hzero => ?_, fun hfail => ?_⟩
    · have hunseen := hpass.1 hzero
      exact not_or.1 fun hmeets => (h hmeets).elim hunseen.1 hunseen.2
    · have hseen : code.SeenAgainst capm ∨ data.SeenAgainst capm := by
        by_contra hno
        rw [hpass.2 (not_or.1 hno)] at hfail
        exact absurd hfail (by decide)
      rcases hseen with hs | hs
      · rcases hs.meets hcode hcapm with hm | he | he
        · exact Or.inl hm
        · exact Or.inr (Or.inr (Or.inl he))
        · exact Or.inr (Or.inr (Or.inr (Or.inr he)))
      · rcases hs.meets hdata hcapm with hm | he | he
        · exact Or.inr (Or.inl hm)
        · exact Or.inr (Or.inr (Or.inr (Or.inl he)))
        · exact Or.inr (Or.inr (Or.inr (Or.inr he)))

/-- A capability for a part of memory. -/
def plainCap (base : Word) (length : ℕ) (fits : base.toNat + length ≤ 2 ^ 64) : Capability where
  tag := true
  base := base
  length := length
  address := base
  perms := ⟨true, true, true, true, true, false, false, true⟩
  otype := 0
  fits := fun _ => fits

/-- A code section and a data section. -/
def plainCode : Capability := plainCap 0x1000 0x1000 (by decide)

def plainData : Capability := plainCap 0x4000 0x1000 (by decide)

/-- Two in the upper half of the addresses, and all of that half. -/
def highCode : Capability := plainCap 0x8000000000001000 0x1000 (by decide)

def highData : Capability := plainCap 0x8000000000004000 0x1000 (by decide)

def capToTop : Capability := plainCap 0x8000000000000000 (2 ^ 63) (by decide)

/-- A capability for a part of the code section. -/
theorem overlapTest_right_inside :
    OverlapTestRight plainCode plainData (plainCap 0x1800 0x10 (by decide)) :=
  (overlapTest_right_iff _ _ _ (by decide) (by decide) (by decide)).2 fun _ =>
    Or.inl ⟨by decide, by decide, by decide, by decide⟩

/-- **A capability for all of the upper half passes**, with both sections in
it. -/
theorem capToTop_not_overlapTest_right :
    capToTop.base.toNat + capToTop.length = 2 ^ 64
      ∧ boundsNonoverlapCheckTwocap highCode.base (limit highCode) highData.base
        (limit highData) capToTop = 0
      ∧ capToTop.range.Meets highCode.range ∧ capToTop.range.Meets highData.range
      ∧ ¬ OverlapTestRight highCode highData capToTop := by
  have hzero : boundsNonoverlapCheckTwocap highCode.base (limit highCode) highData.base
      (limit highData) capToTop = 0 := by decide
  have hmeets : capToTop.range.Meets highCode.range := by decide
  exact ⟨by decide, hzero, hmeets, by decide, fun h => (h.passes hzero).1 hmeets⟩

end Morello
