import Mathlib.Data.Int.ModEq
import Mathlib.Tactic.Ring
import Mathlib.Tactic.Linarith
import CheriTree.ByteRange

/-!
# Compressed capabilities

The formal model keeps a capability partially decompressed: an exponent `E`,
the middle bits `B` and `T` of the bounds, and the full address. The bounds are
computed from all of them, with corrections that depend on where the address
lies; an address that moves too far changes them. `fastRepCheck` is the test
that it does not.

Two formats exist, of 64 bits for a 32-bit machine and of 128 bits for a 64-bit
one. They differ in the widths of the fields only, which `CapFormat` collects.

The result here is `getCapBoundsBits_setCapOffset`: an offset that passes the
test leaves the bounds what they were. The bounds depend on the address only
through the *region* it is in (`getCapBoundsBits_congr`), one of the intervals
of `2 ^ (E + cap_mantissa_width)` bytes that start at a multiple of that size
plus the representable limit; and the test keeps the address in its region
(`region_add_of_fastRepCheck`).
-/

namespace Sail

/-- **The widths of a capability format.** -/
structure CapFormat where
  /-- The width of an address, `cap_addr_width`. -/
  xlen : ℕ
  /-- `cap_mantissa_width`. -/
  mw : ℕ
  /-- `cap_otype_width`. -/
  ow : ℕ
  /-- `cap_uperms_width`. -/
  uw : ℕ
  /-- `cap_reserved_width`. -/
  rw : ℕ
  /-- `log2_cap_size`. -/
  logCapSize : ℕ
  mw_ge : 6 ≤ mw
  mw_le : mw ≤ xlen
  ow_ge : 3 ≤ ow
  logCapSize_le : logCapSize ≤ xlen
  width : (uw + 12) + rw + 1 + ow + 1 + (mw - 2) + mw + xlen = 8 * 2 ^ logCapSize

namespace CapFormat

/-- The format of 128 bits (`cheri_prelude_128`). -/
def cheri128 : CapFormat :=
  ⟨64, 14, 18, 4, 2, 4, by decide, by decide, by decide, by decide, by decide⟩

/-- The format of 64 bits (`cheri_prelude_64`). -/
def cheri64 : CapFormat :=
  ⟨32, 8, 4, 0, 0, 3, by decide, by decide, by decide, by decide, by decide⟩

variable (f : CapFormat)

/-- The width of a capability in bytes, `cap_size`. -/
def capSize : ℕ := 2 ^ f.logCapSize

/-- The exponent of the whole address space, `cap_max_E`. -/
def capMaxE : ℕ := f.xlen + 1 - f.mw + 1

/-- The largest object type that is not reserved, `cap_max_otype`. -/
def capMaxOtype : ℕ := 2 ^ f.ow - 1 - 4

/-- `cap_reset_T`. -/
def capResetT : BitVec f.mw := (0b01#2 ++ 0#(f.mw - 2)).setWidth f.mw

/-- `otype_unsealed`, which is `-1`. -/
def otypeUnsealed : BitVec f.ow := BitVec.allOnes f.ow

/-- `otype_sentry`, which is `-2`. -/
def otypeSentry : BitVec f.ow := BitVec.ofInt f.ow (-2)

theorem capSize_pos : 0 < f.capSize := Nat.two_pow_pos _

theorem capSize_dvd : f.capSize ∣ 2 ^ f.xlen := Nat.pow_dvd_pow 2 f.logCapSize_le

/-- The last byte of an aligned granule is in the address space. -/
theorem add_capSize_le {a : ℕ} (ha : a < 2 ^ f.xlen) (hal : a % f.capSize = 0) :
    a + f.capSize ≤ 2 ^ f.xlen := by
  refine Nat.le_of_lt_add_of_dvd (by omega) ?_ f.capSize_dvd
  exact Nat.dvd_add_self_right.2 (Nat.dvd_of_mod_eq_zero hal)

end CapFormat

variable {f : CapFormat}

/-- **A partially decompressed capability.** -/
@[ext] structure Capability (f : CapFormat) where
  tag : Bool
  uperms : BitVec f.uw
  permitSetCID : Bool
  accessSystemRegs : Bool
  permitUnseal : Bool
  permitCInvoke : Bool
  permitSeal : Bool
  permitStoreLocalCap : Bool
  permitStoreCap : Bool
  permitLoadCap : Bool
  permitStore : Bool
  permitLoad : Bool
  permitExecute : Bool
  global : Bool
  reserved : BitVec f.rw
  flagCapMode : Bool
  internalE : Bool
  E : BitVec 6
  B : BitVec f.mw
  T : BitVec f.mw
  otype : BitVec f.ow
  address : BitVec f.xlen
deriving DecidableEq

namespace Capability

/-- A capability to the whole address space, with every permission or none. -/
def reset (f : CapFormat) (allowed : Bool) : Capability f where
  tag := allowed
  uperms := if allowed then BitVec.allOnes f.uw else 0
  permitSetCID := allowed
  accessSystemRegs := allowed
  permitUnseal := allowed
  permitCInvoke := allowed
  permitSeal := allowed
  permitStoreLocalCap := allowed
  permitStoreCap := allowed
  permitLoadCap := allowed
  permitStore := allowed
  permitLoad := allowed
  permitExecute := allowed
  global := allowed
  reserved := 0
  flagCapMode := false
  internalE := true
  E := BitVec.ofNat 6 f.capMaxE
  B := 0
  T := f.capResetT
  otype := f.otypeUnsealed
  address := 0

/-- `null_cap`. -/
def nullCap (f : CapFormat) : Capability f := reset f false

/-- `default_cap`. -/
def defaultCap (f : CapFormat) : Capability f := reset f true

instance : Inhabited (Capability f) := ⟨nullCap f⟩

/-! ## Bounds -/

/-- The exponent a capability is decoded with. -/
def exponent (c : Capability f) : ℕ := min f.capMaxE c.E.toNat

/-- The three bits of the representable limit. -/
def R3 (c : Capability f) : BitVec 3 := c.B.extractLsb' (f.mw - 3) 3 - 1

/-- The correction of a three-bit prefix that lies below the limit. -/
def hi (c : Capability f) (x3 : BitVec 3) : ℤ := if x3 < c.R3 then 1 else 0

/-- A bound before its most significant bit is corrected: the middle bits `mid`
between the bits of the address above them, corrected, and zeros. -/
def rawBound (c : Capability f) (mid : BitVec f.mw) : BitVec (f.xlen + 1) :=
  let E := c.exponent
  let a3 : BitVec 3 := (c.address >>> (E + f.mw - 3)).setWidth 3
  let aTop := c.address >>> (E + f.mw)
  let correction := c.hi (mid.extractLsb' (f.mw - 3) 3) - c.hi a3
  ((aTop + BitVec.ofInt f.xlen correction) ++ mid ++ 0#E).setWidth (f.xlen + 1)

/-- The correction of the most significant bit of the top: base and top are
not more than an address space apart. -/
def fixTop (base top : BitVec (f.xlen + 1)) : BitVec (f.xlen + 1) :=
  let base2 : BitVec 2 := 0#1 ++ base.extractLsb' (f.xlen - 1) 1
  let top2 : BitVec 2 := top.extractLsb' (f.xlen - 1) 2
  if (top2 - base2).toNat > 1 then top ^^^ BitVec.twoPow (f.xlen + 1) f.xlen else top

/-- **The bounds of a capability.** -/
def getCapBoundsBits (c : Capability f) : BitVec f.xlen × BitVec (f.xlen + 1) :=
  let base := c.rawBound c.B
  let top := c.rawBound c.T
  (base.setWidth f.xlen, if c.exponent < f.capMaxE - 1 then fixTop base top else top)

def getCapBounds (c : Capability f) : ℕ × ℕ :=
  (c.getCapBoundsBits.1.toNat, c.getCapBoundsBits.2.toNat)

def getCapBaseBits (c : Capability f) : BitVec f.xlen := c.getCapBoundsBits.1

def getCapBase (c : Capability f) : ℕ := c.getCapBounds.1

def getCapTop (c : Capability f) : ℕ := c.getCapBounds.2

def getCapOffsetBits (c : Capability f) : BitVec f.xlen := c.address - c.getCapBaseBits

/-- An access of `size` bytes is in bounds. -/
def inCapBounds (c : Capability f) (addr : BitVec f.xlen) (size : ℕ) : Bool :=
  c.getCapBase ≤ addr.toNat && addr.toNat + size ≤ c.getCapTop

def isCapSealed (c : Capability f) : Bool := c.otype ≠ f.otypeUnsealed

def hasReservedOType (c : Capability f) : Bool := f.capMaxOtype < c.otype.toNat

/-- What `CGetType` gives: a reserved object type has its sign extended. -/
def getType (c : Capability f) : BitVec f.xlen :=
  if c.hasReservedOType then c.otype.signExtend f.xlen else c.otype.setWidth f.xlen

def sealCap (c : Capability f) (otype : BitVec f.ow) : Capability f := { c with otype := otype }

def unsealCap (c : Capability f) : Capability f := { c with otype := f.otypeUnsealed }

def invalidateCap (c : Capability f) : Capability f := { c with tag := false }

def capBoundsEqual (c d : Capability f) : Bool := c.getCapBounds = d.getCapBounds

def withAddress (c : Capability f) (addr : BitVec f.xlen) : Capability f :=
  { c with address := addr }

def setCapAddr (c : Capability f) (addr : BitVec f.xlen) : Bool × Capability f :=
  (c.capBoundsEqual (c.withAddress addr), c.withAddress addr)

/-- **The test that an increment of the address keeps the bounds.** -/
def fastRepCheck (c : Capability f) (i : BitVec f.xlen) : Bool :=
  let E := c.E.toNat
  -- the representable region is the whole address space
  if f.capMaxE - 2 ≤ E then true
  else
    let iTop := (i.sshiftRight (E + f.mw)).toInt
    let iMid : BitVec f.mw := (i >>> E).setWidth f.mw
    let aMid : BitVec f.mw := (c.address >>> E).setWidth f.mw
    let R : BitVec f.mw := (c.R3 ++ 0#(f.mw - 3)).setWidth f.mw
    let diff := R - aMid
    let diff1 := diff - 1
    if iTop = 0 then iMid < diff1
    else if iTop = -1 then diff ≤ iMid && R ≠ aMid
    else false

def setCapOffset (c : Capability f) (offset : BitVec f.xlen) : Bool × Capability f :=
  let newAddress := c.getCapBaseBits + offset
  (c.fastRepCheck (newAddress - c.address), c.withAddress newAddress)

/-- **The bytes of a capability**, over the integers. -/
def range (c : Capability f) : ByteRange := ⟨c.getCapBase, c.getCapTop - c.getCapBase⟩

/-! ## The region of an address -/

section Region

variable (c : Capability f)

/-- The representable limit: the first byte of a region, in the lowest one. -/
def limit : ℕ := c.R3.toNat * 2 ^ (f.mw - 3) * 2 ^ c.exponent

/-- **The region of an address**, counted from the one the limit starts. -/
def region (a : BitVec f.xlen) : ℤ := (a.toNat - c.limit : ℤ) / 2 ^ (c.exponent + f.mw)

end Region

variable {c : Capability f}

/-- A middle part between an upper part and zeros, cut to `n` bits, depends on
the low bits of the upper part only. -/
theorem setWidth_append_congr {w m e n : ℕ} {x y : BitVec w} (mid : BitVec m)
    (h : x.setWidth (n - (e + m)) = y.setWidth (n - (e + m))) :
    (x ++ mid ++ 0#e).setWidth n = (y ++ mid ++ 0#e).setWidth n := by
  apply BitVec.eq_of_getLsbD_eq
  intro i hi
  simp only [BitVec.getLsbD_setWidth, BitVec.getLsbD_append]
  split
  · rfl
  · split
    · rfl
    · have hbit := congrArg (fun z => z.getLsbD (i - e - m)) h
      simp only [BitVec.getLsbD_setWidth] at hbit
      rw [show decide (i - e - m < n - (e + m)) = true from decide_eq_true (by omega),
        Bool.true_and, Bool.true_and] at hbit
      rw [hbit]

theorem xlen_pos (f : CapFormat) : 0 < f.xlen := by
  have h := f.mw_ge
  have h' := f.mw_le
  omega

/-- Two adjacent bits of a word. -/
theorem extractLsb'_two {w : ℕ} (x : BitVec w) (i : ℕ) :
    x.extractLsb' i 2 = BitVec.ofBool (x.getLsbD (i + 1)) ++ BitVec.ofBool (x.getLsbD i) := by
  apply BitVec.eq_of_getLsbD_eq
  intro j hj
  rw [BitVec.getLsbD_extractLsb', BitVec.getLsbD_append]
  obtain rfl | rfl : j = 0 ∨ j = 1 := by omega
  · simp
  · simp

theorem extractLsb'_one {w : ℕ} (x : BitVec w) (i : ℕ) :
    x.extractLsb' i 1 = BitVec.ofBool (x.getLsbD i) := by
  apply BitVec.eq_of_getLsbD_eq
  intro j hj
  obtain rfl : j = 0 := by omega
  simp

/-- **The most significant bit of the corrected top** is the borrow of the bits
below it: it does not depend on what it was. -/
theorem getLsbD_fixTop (base top : BitVec (f.xlen + 1)) {i : ℕ} (hi : i < f.xlen + 1) :
    (fixTop base top).getLsbD i =
      if i = f.xlen then !top.getLsbD (f.xlen - 1) && base.getLsbD (f.xlen - 1)
      else top.getLsbD i := by
  have hpos := xlen_pos f
  have hsucc : f.xlen - 1 + 1 = f.xlen := by omega
  have hflip : (top ^^^ BitVec.twoPow (f.xlen + 1) f.xlen).getLsbD i
      = (top.getLsbD i ^^ decide (i = f.xlen)) := by
    rw [BitVec.getLsbD_xor, BitVec.getLsbD_twoPow]
    by_cases h : i = f.xlen
    · subst h
      simp
    · simp [h, Ne.symm h]
  unfold fixTop
  simp only [extractLsb'_two, extractLsb'_one, hsucc]
  rw [apply_ite (fun z => BitVec.getLsbD z i), hflip]
  by_cases h : i = f.xlen
  · subst h
    rw [if_pos rfl, decide_eq_true rfl]
    -- what is left is about three bits
    generalize top.getLsbD f.xlen = m, top.getLsbD (f.xlen - 1) = t,
      base.getLsbD (f.xlen - 1) = b
    revert m t b
    decide
  · rw [if_neg h, decide_eq_false h, Bool.xor_false, ite_self]

/-- Two tops that agree but for the most significant bit are corrected to the
same one. -/
theorem fixTop_congr {base base' top top' : BitVec (f.xlen + 1)}
    (hbase : base.setWidth f.xlen = base'.setWidth f.xlen)
    (htop : top.setWidth f.xlen = top'.setWidth f.xlen) :
    fixTop base top = fixTop base' top' := by
  have hpos := xlen_pos f
  have hbit : ∀ {x y : BitVec (f.xlen + 1)}, x.setWidth f.xlen = y.setWidth f.xlen →
      ∀ i < f.xlen, x.getLsbD i = y.getLsbD i := by
    intro x y h i hi
    have hi' := congrArg (fun z => z.getLsbD i) h
    simpa [BitVec.getLsbD_setWidth, hi] using hi'
  apply BitVec.eq_of_getLsbD_eq
  intro i hi
  rw [getLsbD_fixTop base top hi, getLsbD_fixTop base' top' hi]
  by_cases h : i = f.xlen
  · rw [if_pos h, if_pos h, hbit hbase _ (by omega), hbit htop _ (by omega)]
  · rw [if_neg h, if_neg h, hbit htop i (by omega)]

/-- The prefix of an address lies below that of the limit exactly when the
address does, within its block. -/
theorem prefix_lt_R3_iff (a : BitVec f.xlen) :
    ((a >>> (c.exponent + f.mw - 3)).setWidth 3 : BitVec 3) < c.R3
      ↔ a.toNat % 2 ^ (c.exponent + f.mw) < c.limit := by
  have hmw := f.mw_ge
  have hsplit : 2 ^ (c.exponent + f.mw) = 2 ^ (c.exponent + f.mw - 3) * 2 ^ 3 := by
    rw [← pow_add]
    congr 1
    omega
  have hlimit : c.limit = c.R3.toNat * 2 ^ (c.exponent + f.mw - 3) := by
    rw [limit, mul_assoc, ← pow_add]
    congr 2
    omega
  rw [BitVec.lt_def, BitVec.toNat_setWidth, BitVec.toNat_ushiftRight, Nat.shiftRight_eq_div_pow,
    hlimit, hsplit, ← Nat.mod_mul_right_div_self, Nat.div_lt_iff_lt_mul (Nat.two_pow_pos _)]

theorem R3_mul_lt (c : Capability f) : c.R3.toNat * 2 ^ (f.mw - 3) < 2 ^ f.mw := by
  have hmw := f.mw_ge
  have hsplit : 2 ^ f.mw = 2 ^ 3 * 2 ^ (f.mw - 3) := by
    rw [← pow_add]
    congr 1
    omega
  rw [hsplit]
  exact Nat.mul_lt_mul_of_pos_right c.R3.isLt (Nat.two_pow_pos _)

theorem limit_lt (c : Capability f) : c.limit < 2 ^ (c.exponent + f.mw) := by
  rw [add_comm, pow_add, limit]
  exact Nat.mul_lt_mul_of_pos_right c.R3_mul_lt (Nat.two_pow_pos _)

/-- The address above its block, corrected, is the region. -/
theorem div_sub_hi (a : BitVec f.xlen) :
    ((a.toNat / 2 ^ (c.exponent + f.mw) : ℕ) : ℤ)
      - c.hi ((a >>> (c.exponent + f.mw - 3)).setWidth 3) = c.region a := by
  have hlimit := c.limit_lt
  have hsplit := Nat.div_add_mod a.toNat (2 ^ (c.exponent + f.mw))
  have hmod := Nat.mod_lt a.toNat (Nat.two_pow_pos (c.exponent + f.mw))
  rw [region, hi]
  simp only [prefix_lt_R3_iff]
  have hpow : (2 : ℤ) ^ (c.exponent + f.mw) = ((2 ^ (c.exponent + f.mw) : ℕ) : ℤ) := by
    push_cast
    rfl
  rw [hpow]
  generalize 2 ^ (c.exponent + f.mw) = M at *
  generalize a.toNat / M = q at *
  generalize a.toNat % M = r at *
  have ha : (a.toNat : ℤ) = q * M + r := by
    rw [← hsplit]
    push_cast
    ring
  rw [ha, eq_comm, Int.ediv_eq_iff_of_pos (by omega)]
  split
  · constructor
    · linarith
    · linarith
  · constructor
    · linarith
    · linarith

/-- A bound is its middle bits in the region of the address. -/
theorem rawBound_eq (c : Capability f) (mid : BitVec f.mw) :
    c.rawBound mid =
      (BitVec.ofInt f.xlen (c.region c.address + c.hi (mid.extractLsb' (f.mw - 3) 3)) ++ mid
        ++ 0#c.exponent).setWidth (f.xlen + 1) := by
  have haddr : c.address >>> (c.exponent + f.mw)
      = BitVec.ofInt f.xlen ((c.address.toNat / 2 ^ (c.exponent + f.mw) : ℕ) : ℤ) := by
    rw [BitVec.ofInt_natCast]
    apply BitVec.eq_of_toNat_eq
    rw [BitVec.toNat_ushiftRight, Nat.shiftRight_eq_div_pow, BitVec.toNat_ofNat,
      Nat.mod_eq_of_lt (lt_of_le_of_lt (Nat.div_le_self _ _) c.address.isLt)]
  unfold rawBound
  simp only
  rw [haddr, ← BitVec.ofInt_add, ← div_sub_hi]
  congr 4
  ring

theorem setWidth_ofInt {n w : ℕ} (h : n ≤ w) (z : ℤ) :
    (BitVec.ofInt w z).setWidth n = BitVec.ofInt n z := by
  apply BitVec.eq_of_toNat_eq
  rw [BitVec.toNat_setWidth, BitVec.toNat_ofInt, BitVec.toNat_ofInt]
  have hdvd : ((2 ^ n : ℕ) : ℤ) ∣ ((2 ^ w : ℕ) : ℤ) :=
    Int.natCast_dvd_natCast.2 (Nat.pow_dvd_pow 2 h)
  have hpos : (0 : ℤ) ≤ z % ((2 ^ w : ℕ) : ℤ) := Int.emod_nonneg _ (by positivity)
  rw [← Int.toNat_natCast (_ % 2 ^ n), Int.natCast_emod, Int.toNat_of_nonneg hpos,
    Int.emod_emod_of_dvd _ hdvd]

theorem ofInt_congr {n : ℕ} {z z' : ℤ} (h : z ≡ z' [ZMOD (2 ^ n : ℕ)]) :
    BitVec.ofInt n z = BitVec.ofInt n z' := by
  apply BitVec.eq_of_toNat_eq
  rw [BitVec.toNat_ofInt, BitVec.toNat_ofInt, h.eq]

/-- Moving the address changes a bound, up to `n` bits, by the change of the
region only. -/
theorem setWidth_rawBound_congr {a : BitVec f.xlen} (mid : BitVec f.mw) {n : ℕ}
    (hn : n ≤ f.xlen + 1) (hlen : n - (c.exponent + f.mw) ≤ f.xlen)
    (h : c.region a ≡ c.region c.address [ZMOD (2 ^ (n - (c.exponent + f.mw)) : ℕ)]) :
    ((c.withAddress a).rawBound mid).setWidth n = (c.rawBound mid).setWidth n := by
  have hmoved : (c.withAddress a).rawBound mid =
      (BitVec.ofInt f.xlen (c.region a + c.hi (mid.extractLsb' (f.mw - 3) 3)) ++ mid
        ++ 0#c.exponent).setWidth (f.xlen + 1) := rawBound_eq (c.withAddress a) mid
  rw [hmoved, rawBound_eq, BitVec.setWidth_setWidth_of_le _ hn,
    BitVec.setWidth_setWidth_of_le _ hn]
  apply setWidth_append_congr
  rw [setWidth_ofInt hlen, setWidth_ofInt hlen]
  exact ofInt_congr (h.add_right _)

/-- **The bounds depend on the address through its region only**, and on the
region only as far as the address space reaches. -/
theorem getCapBoundsBits_congr {a : BitVec f.xlen}
    (h : c.region a ≡ c.region c.address [ZMOD (2 ^ (f.xlen - (c.exponent + f.mw)) : ℕ)]) :
    (c.withAddress a).getCapBoundsBits = c.getCapBoundsBits := by
  have hmw := f.mw_ge
  have hle := f.mw_le
  have hlow := fun mid => setWidth_rawBound_congr mid (Nat.le_succ f.xlen) (Nat.sub_le _ _) h
  unfold getCapBoundsBits
  refine Prod.ext (hlow c.B) ?_
  show (if c.exponent < f.capMaxE - 1 then
      fixTop ((c.withAddress a).rawBound c.B) ((c.withAddress a).rawBound c.T)
    else (c.withAddress a).rawBound c.T)
    = if c.exponent < f.capMaxE - 1 then fixTop (c.rawBound c.B) (c.rawBound c.T)
    else c.rawBound c.T
  by_cases hE : c.exponent < f.capMaxE - 1
  · rw [if_pos hE, if_pos hE]
    exact fixTop_congr (hlow c.B) (hlow c.T)
  · -- the middle bits reach past the address space, and nothing is corrected
    rw [if_neg hE, if_neg hE]
    have hS : f.xlen + 1 - (c.exponent + f.mw) = 0 := by
      rw [CapFormat.capMaxE] at hE
      omega
    have hwide := setWidth_rawBound_congr (a := a) c.T (le_refl (f.xlen + 1)) (by omega)
      (by rw [hS]; exact Int.modEq_one)
    simpa only [BitVec.setWidth_eq] using hwide

/-- Where an address is in its region: `d` steps of the exponent past the
limit, and the bits below. -/
theorem exists_region_position (c : Capability f) :
    ∃ (k : ℤ) (d : ℕ), d < 2 ^ f.mw
      ∧ (c.address.toNat - c.limit : ℤ) = k * (2 ^ f.mw * 2 ^ c.exponent)
          + (d * 2 ^ c.exponent + c.address.toNat % 2 ^ c.exponent)
      ∧ (c.address.toNat / 2 ^ c.exponent % 2 ^ f.mw + 2 ^ f.mw
          - c.R3.toNat * 2 ^ (f.mw - 3)) % 2 ^ f.mw = d := by
  have hR := c.R3_mul_lt
  have hlow := Nat.div_add_mod c.address.toNat (2 ^ c.exponent)
  have hmid := Nat.div_add_mod (c.address.toNat / 2 ^ c.exponent) (2 ^ f.mw)
  have hlt := Nat.mod_lt (c.address.toNat / 2 ^ c.exponent) (Nat.two_pow_pos f.mw)
  rw [limit]
  generalize c.R3.toNat * 2 ^ (f.mw - 3) = R at *
  generalize hq : c.address.toNat / 2 ^ c.exponent / 2 ^ f.mw = q at *
  generalize hr : c.address.toNat / 2 ^ c.exponent % 2 ^ f.mw = r at *
  have ha : (c.address.toNat : ℤ) = (q * 2 ^ f.mw + r) * 2 ^ c.exponent
      + (c.address.toNat % 2 ^ c.exponent : ℕ) := by
    generalize c.address.toNat % 2 ^ c.exponent = l at *
    rw [← hlow, ← hmid]
    push_cast
    ring
  by_cases h : R ≤ r
  · refine ⟨q, r - R, by omega, ?_, ?_⟩
    · push_cast [Nat.cast_sub h] at *
      linarith
    · rw [show r + 2 ^ f.mw - R = r - R + 2 ^ f.mw by omega, Nat.add_mod_right,
        Nat.mod_eq_of_lt (by omega)]
  · refine ⟨q - 1, r + 2 ^ f.mw - R, by omega, ?_, Nat.mod_eq_of_lt (by omega)⟩
    push_cast [Nat.cast_sub (show R ≤ r + 2 ^ f.mw by omega)] at *
    linarith

theorem toNat_eq_toInt_or {w : ℕ} (i : BitVec w) :
    (i.toNat : ℤ) = i.toInt ∨ (i.toNat : ℤ) = i.toInt + 2 ^ w := by
  rw [BitVec.toInt_eq_toNat_cond]
  split
  · exact Or.inl rfl
  · right
    push_cast
    ring

/-- A step of at most a block up or down, by its sign and its high bits. -/
theorem toInt_of_sshiftRight {w : ℕ} (S : ℕ) (i : BitVec w) :
    ((i.sshiftRight S).toInt = 0 →
        (i.toNat : ℤ) = i.toInt ∧ 0 ≤ i.toInt ∧ i.toInt < 2 ^ S)
      ∧ ((i.sshiftRight S).toInt = -1 →
        (i.toNat : ℤ) = i.toInt + 2 ^ w ∧ -2 ^ S ≤ i.toInt ∧ i.toInt < 0) := by
  have hpos : (0 : ℤ) < 2 ^ S := by positivity
  rw [BitVec.toInt_sshiftRight, Int.shiftRight_eq_div_pow]
  have hsplit := Int.mul_ediv_add_emod i.toInt (2 ^ S)
  have hmod := Int.emod_nonneg i.toInt hpos.ne'
  have hmod' := Int.emod_lt_of_pos i.toInt hpos
  have hnat := toNat_eq_toInt_or i
  have hlt : (i.toNat : ℤ) < 2 ^ w := by exact_mod_cast i.isLt
  push_cast
  constructor
  · intro h
    rw [h] at hsplit
    refine ⟨?_, by linarith, by linarith⟩
    obtain h' | h' := hnat
    · exact h'
    · linarith
  · intro h
    rw [h] at hsplit
    refine ⟨?_, by linarith, by linarith⟩
    obtain h' | h' := hnat
    · have := i.toNat.cast_nonneg (α := ℤ)
      linarith
    · exact h'

/-- The two differences of the test, for an address `d` steps past the limit. -/
theorem toNat_sub_of_steps {n : ℕ} {R a : BitVec n} {d : ℕ} (hn : 0 < n)
    (hd : (a.toNat + 2 ^ n - R.toNat) % 2 ^ n = d) :
    (R - a - 1).toNat = 2 ^ n - 1 - d ∧ (R ≠ a → (R - a).toNat = 2 ^ n - d) := by
  have hR := R.isLt
  have ha := a.isLt
  have hone : (1#n).toNat = 1 := by
    rw [BitVec.toNat_ofNat, Nat.mod_eq_of_lt (Nat.one_lt_two_pow hn.ne')]
  rw [show (1 : BitVec n) = 1#n from rfl, BitVec.toNat_sub (R - a), hone]
  obtain h | h | h := lt_trichotomy a.toNat R.toNat
  · have hsub : (R - a).toNat = R.toNat - a.toNat :=
      BitVec.toNat_sub_of_le (BitVec.le_def.2 h.le)
    rw [Nat.mod_eq_of_lt (by omega)] at hd
    rw [hsub, show 2 ^ n - 1 + (R.toNat - a.toNat) = R.toNat - a.toNat - 1 + 2 ^ n by omega,
      Nat.add_mod_right, Nat.mod_eq_of_lt (by omega)]
    omega
  · obtain rfl := BitVec.eq_of_toNat_eq h
    rw [show a.toNat + 2 ^ n - a.toNat = 2 ^ n by omega, Nat.mod_self] at hd
    rw [BitVec.sub_self, BitVec.toNat_zero, add_zero, Nat.mod_eq_of_lt (by omega)]
    exact ⟨by omega, fun hne => absurd rfl hne⟩
  · have hsub : (R - a).toNat = 2 ^ n - (a.toNat - R.toNat) := by
      rw [BitVec.toNat_sub, show 2 ^ n - a.toNat + R.toNat = 2 ^ n - (a.toNat - R.toNat) by omega,
        Nat.mod_eq_of_lt (by omega)]
    rw [show a.toNat + 2 ^ n - R.toNat = a.toNat - R.toNat + 2 ^ n by omega, Nat.add_mod_right,
      Nat.mod_eq_of_lt (by omega)] at hd
    rw [hsub, show 2 ^ n - 1 + (2 ^ n - (a.toNat - R.toNat))
      = 2 ^ n - (a.toNat - R.toNat) - 1 + 2 ^ n by omega, Nat.add_mod_right,
      Nat.mod_eq_of_lt (by omega)]
    omega

/-- The limit in the middle bits. -/
theorem toNat_limitMid (c : Capability f) :
    ((c.R3 ++ 0#(f.mw - 3)).setWidth f.mw).toNat = c.R3.toNat * 2 ^ (f.mw - 3) := by
  rw [BitVec.toNat_setWidth, BitVec.toNat_append, BitVec.toNat_zero, Nat.or_zero,
    Nat.shiftLeft_eq, Nat.mod_eq_of_lt c.R3_mul_lt]

/-- The middle bits of an address. -/
theorem toNat_mid (x : BitVec f.xlen) (E : ℕ) :
    ((x >>> E).setWidth f.mw).toNat = x.toNat / 2 ^ E % 2 ^ f.mw := by
  rw [BitVec.toNat_setWidth, BitVec.toNat_ushiftRight, Nat.shiftRight_eq_div_pow]

/-- Below zero by less than a block, the low bits count from the block below. -/
theorem mod_block_of_neg {w S : ℕ} (hS : S ≤ w) {i : BitVec w}
    (hnat : (i.toNat : ℤ) = i.toInt + 2 ^ w) (hge : -2 ^ S ≤ i.toInt) (hneg : i.toInt < 0) :
    ((i.toNat % 2 ^ S : ℕ) : ℤ) = i.toInt + 2 ^ S := by
  have hsplit : (2 : ℤ) ^ w = 2 ^ (w - S) * 2 ^ S := by
    rw [← pow_add]
    congr 1
    omega
  push_cast
  rw [hnat, hsplit, Int.add_mul_emod_self_right, ← Int.add_emod_right,
    Int.emod_eq_of_lt (by linarith) (by linarith)]

/-- **An increment that passes the test keeps the address in its block**: at
`d` steps past the limit, it goes up or down by less than what is left there. -/
theorem increment_of_fastRepCheck {i : BitVec f.xlen} (h : c.fastRepCheck i = true)
    (hE : c.E.toNat < f.capMaxE - 2) {d : ℕ} (hd : d < 2 ^ f.mw)
    (hdiff : (c.address.toNat / 2 ^ c.E.toNat % 2 ^ f.mw + 2 ^ f.mw
      - c.R3.toNat * 2 ^ (f.mw - 3)) % 2 ^ f.mw = d) :
    -(d * 2 ^ c.E.toNat : ℤ) ≤ i.toInt
      ∧ i.toInt < ((2 ^ f.mw - 1 - d : ℕ) : ℤ) * 2 ^ c.E.toNat := by
  have hmw := f.mw_ge
  have hle := f.mw_le
  have hmax : f.capMaxE = f.xlen + 1 - f.mw + 1 := rfl
  have hmid := fun x : BitVec f.xlen => toNat_mid x c.E.toNat
  obtain ⟨hup, hdown⟩ := toInt_of_sshiftRight (c.E.toNat + f.mw) i
  rw [← hmid, ← c.toNat_limitMid] at hdiff
  obtain ⟨hdiff1, hdiff0⟩ := toNat_sub_of_steps (by omega) hdiff
  have he : (0 : ℤ) < 2 ^ c.E.toNat := by positivity
  have hblock : (2 : ℤ) ^ (c.E.toNat + f.mw) = 2 ^ f.mw * 2 ^ c.E.toNat := by
    rw [← pow_add, add_comm]
  unfold fastRepCheck at h
  rw [if_neg (by omega)] at h
  simp only at h
  split at h
  · rename_i hzero
    obtain ⟨hnat, hnonneg, hlt⟩ := hup hzero
    have h := of_decide_eq_true h
    rw [BitVec.lt_def, hdiff1, hmid, ← Nat.mod_mul_right_div_self] at h
    have hsmall : i.toNat < 2 ^ c.E.toNat * 2 ^ f.mw := by
      rw [← pow_add]
      exact_mod_cast hnat ▸ hlt
    rw [Nat.mod_eq_of_lt hsmall, Nat.div_lt_iff_lt_mul (Nat.two_pow_pos _)] at h
    have hroom : (0 : ℤ) ≤ d * 2 ^ c.E.toNat := by positivity
    refine ⟨(neg_nonpos.2 hroom).trans hnonneg, ?_⟩
    rw [← hnat]
    exact_mod_cast h
  · split at h
    · rename_i hone
      obtain ⟨hnat, hge, hneg⟩ := hdown hone
      rw [Bool.and_eq_true, decide_eq_true_eq, decide_eq_true_eq] at h
      have hle' := h.1
      rw [BitVec.le_def, hdiff0 h.2, hmid, ← Nat.mod_mul_right_div_self,
        Nat.le_div_iff_mul_le (Nat.two_pow_pos _)] at hle'
      have hlow := mod_block_of_neg (by omega) hnat hge hneg
      rw [pow_add] at hlow
      have hcast : (((2 ^ f.mw - d) * 2 ^ c.E.toNat : ℕ) : ℤ)
          = (2 ^ f.mw - d) * 2 ^ c.E.toNat := by
        push_cast [Nat.cast_sub hd.le]
        ring
      have hle'' : (((2 ^ f.mw - d) * 2 ^ c.E.toNat : ℕ) : ℤ)
          ≤ (i.toNat % (2 ^ c.E.toNat * 2 ^ f.mw) : ℕ) := by exact_mod_cast hle'
      rw [hcast, hlow, hblock] at hle''
      refine ⟨by linarith, lt_of_lt_of_le hneg ?_⟩
      positivity
    · cases h

/-- **An increment that passes the test keeps the address in its region**, up
to the size of the address space. -/
theorem region_add_of_fastRepCheck {i : BitVec f.xlen} (h : c.fastRepCheck i = true) :
    c.region (c.address + i) ≡ c.region c.address
      [ZMOD (2 ^ (f.xlen - (c.exponent + f.mw)) : ℕ)] := by
  have hle := f.mw_le
  have hmax : f.capMaxE = f.xlen + 1 - f.mw + 1 := rfl
  by_cases hE : c.E.toNat < f.capMaxE - 2
  · have hexp : c.exponent = c.E.toNat := by
      rw [exponent]
      omega
    obtain ⟨k, d, hd, hpos, hdiff⟩ := c.exists_region_position
    rw [hexp] at hpos hdiff ⊢
    obtain ⟨hlo, hhi⟩ := increment_of_fastRepCheck h hE hd hdiff
    -- the sum wraps at the address space, a whole number of regions
    obtain ⟨w, hw⟩ : ∃ w : ℤ, ((c.address + i).toNat : ℤ)
        = c.address.toNat + i.toInt + w * 2 ^ f.xlen := by
      have hsum := Nat.div_add_mod (c.address.toNat + i.toNat) (2 ^ f.xlen)
      rw [BitVec.toNat_add]
      generalize (c.address.toNat + i.toNat) / 2 ^ f.xlen = q at *
      have hsum' : ((2 ^ f.xlen * q + (c.address.toNat + i.toNat) % 2 ^ f.xlen : ℕ) : ℤ)
          = c.address.toNat + i.toNat := by
        rw [hsum]
        push_cast
        rfl
      push_cast at hsum' ⊢
      obtain hi | hi := toNat_eq_toInt_or i
      · exact ⟨-q, by linarith⟩
      · exact ⟨1 - q, by linarith⟩
    have hsplit : (2 : ℤ) ^ f.xlen
        = 2 ^ (f.xlen - (c.E.toNat + f.mw)) * 2 ^ (c.E.toNat + f.mw) := by
      rw [← pow_add]
      congr 1
      omega
    have hblock : (2 : ℤ) ^ (c.E.toNat + f.mw) = 2 ^ f.mw * 2 ^ c.E.toNat := by
      rw [← pow_add, add_comm]
    have hM : (0 : ℤ) < 2 ^ (c.E.toNat + f.mw) := by positivity
    have he : (0 : ℤ) < 2 ^ c.E.toNat := by positivity
    have hlow : ((c.address.toNat % 2 ^ c.E.toNat : ℕ) : ℤ) < 2 ^ c.E.toNat := by
      exact_mod_cast Nat.mod_lt _ (Nat.two_pow_pos _)
    have hlow' : (0 : ℤ) ≤ (c.address.toNat % 2 ^ c.E.toNat : ℕ) := by positivity
    have hd' : (d : ℤ) + 1 ≤ 2 ^ f.mw := by exact_mod_cast hd
    have hcast : ((2 ^ f.mw - 1 - d : ℕ) : ℤ) = 2 ^ f.mw - 1 - d := by
      rw [Nat.sub_sub, Nat.cast_sub (by omega)]
      push_cast
      ring
    rw [hcast] at hhi
    -- both lie in the block `k`
    have hregion : ∀ z : ℤ, -(d * 2 ^ c.E.toNat : ℤ) ≤ z →
        z + (d + 1) * 2 ^ c.E.toNat ≤ 2 ^ f.mw * 2 ^ c.E.toNat →
        (c.address.toNat + z - c.limit : ℤ) / 2 ^ (c.E.toNat + f.mw) = k := by
      intro z hz hz'
      rw [Int.ediv_eq_iff_of_pos hM, hblock]
      push_cast at hpos hlow hlow'
      constructor
      · linarith
      · linarith
    have hroom : (0 : ℤ) ≤ d * 2 ^ c.E.toNat := by positivity
    have hfits : 0 + ((d : ℤ) + 1) * 2 ^ c.E.toNat ≤ 2 ^ f.mw * 2 ^ c.E.toNat := by
      rw [zero_add]
      exact mul_le_mul_of_nonneg_right hd' he.le
    have hhere : c.region c.address = k := by
      rw [region, hexp, ← hregion 0 (neg_nonpos.2 hroom) hfits, add_zero]
    have hthere : c.region (c.address + i) = k + w * 2 ^ (f.xlen - (c.E.toNat + f.mw)) := by
      rw [region, hexp, hw, hsplit, ← hregion i.toInt hlo (by linarith),
        ← Int.add_mul_ediv_right _ _ hM.ne']
      congr 1
      ring
    rw [hhere, hthere, Int.modEq_iff_dvd]
    exact ⟨-w, by push_cast; ring⟩
  · have hzero : f.xlen - (c.exponent + f.mw) = 0 := by
      rw [exponent]
      omega
    rw [hzero]
    exact Int.modEq_one

/-- **An offset that passes the test leaves the bounds what they were.** -/
theorem getCapBoundsBits_setCapOffset {offset : BitVec f.xlen}
    (h : (c.setCapOffset offset).1 = true) :
    (c.setCapOffset offset).2.getCapBoundsBits = c.getCapBoundsBits := by
  apply getCapBoundsBits_congr
  have hregion := region_add_of_fastRepCheck h
  rwa [BitVec.add_comm, BitVec.sub_add_cancel] at hregion

/-! ## In memory -/

section Encoding

/-- The twelve hardware permissions, in the order of their bits. -/
def getCapHardPerms (c : Capability f) : BitVec 12 :=
  BitVec.ofBoolListBE [c.permitSetCID, c.accessSystemRegs, c.permitUnseal, c.permitCInvoke,
    c.permitSeal, c.permitStoreLocalCap, c.permitStoreCap, c.permitLoadCap, c.permitStore,
    c.permitLoad, c.permitExecute, c.global]

/-- The low bits of `T` in the compressed form: with an internal exponent, the
upper half of the exponent takes the place of the lowest three. -/
def encT (c : Capability f) : BitVec (f.mw - 2) :=
  let hi := c.T.extractLsb' 3 (f.mw - 5)
  let lo := if c.internalE then c.E.extractLsb' 3 3 else c.T.extractLsb' 0 3
  (hi ++ lo).setWidth (f.mw - 2)

def encB (c : Capability f) : BitVec f.mw :=
  let hi := c.B.extractLsb' 3 (f.mw - 3)
  let lo := if c.internalE then c.E.extractLsb' 0 3 else c.B.extractLsb' 0 3
  (hi ++ lo).setWidth f.mw

/-- **A capability as bits**, without its tag. -/
def capToBits (c : Capability f) : BitVec (8 * f.capSize) :=
  ((c.uperms ++ c.getCapHardPerms) ++ c.reserved ++ BitVec.ofBool c.flagCapMode ++ c.otype
    ++ BitVec.ofBool c.internalE ++ c.encT ++ c.encB ++ c.address).setWidth (8 * f.capSize)

/-- **A capability from bits and a tag.** The two upper bits of `T` are those
of `B` plus the length, with the carry of what lies below. -/
def capBitsToCapability (tag : Bool) (bits : BitVec (8 * f.capSize)) : Capability f :=
  let perms := bits.extractLsb' (f.xlen + f.mw + (f.mw - 2) + 1 + f.ow + 1 + f.rw) (f.uw + 12)
  let internalE := bits.getLsbD (f.xlen + f.mw + (f.mw - 2))
  let encT := bits.extractLsb' (f.xlen + f.mw) (f.mw - 2)
  let encB := bits.extractLsb' f.xlen f.mw
  let E := if internalE then encT.extractLsb' 0 3 ++ encB.extractLsb' 0 3 else 0
  let lenMSBs : BitVec 2 := if internalE then 0b01 else 0b00
  let T := if internalE then (encT.extractLsb' 3 (f.mw - 5) ++ 0#3).setWidth (f.mw - 2) else encT
  let B := if internalE then (encB.extractLsb' 3 (f.mw - 3) ++ 0#3).setWidth f.mw else encB
  let carryOut : BitVec 2 := if T < B.setWidth (f.mw - 2) then 0b01 else 0b00
  let Ttop2 := B.extractLsb' (f.mw - 2) 2 + lenMSBs + carryOut
  { tag := tag
    uperms := perms.extractLsb' 12 f.uw
    permitSetCID := perms.getLsbD 11
    accessSystemRegs := perms.getLsbD 10
    permitUnseal := perms.getLsbD 9
    permitCInvoke := perms.getLsbD 8
    permitSeal := perms.getLsbD 7
    permitStoreLocalCap := perms.getLsbD 6
    permitStoreCap := perms.getLsbD 5
    permitLoadCap := perms.getLsbD 4
    permitStore := perms.getLsbD 3
    permitLoad := perms.getLsbD 2
    permitExecute := perms.getLsbD 1
    global := perms.getLsbD 0
    reserved := bits.extractLsb' (f.xlen + f.mw + (f.mw - 2) + 1 + f.ow + 1) f.rw
    flagCapMode := bits.getLsbD (f.xlen + f.mw + (f.mw - 2) + 1 + f.ow)
    internalE := internalE
    E := E
    B := B
    T := (Ttop2 ++ T).setWidth f.mw
    otype := bits.extractLsb' (f.xlen + f.mw + (f.mw - 2) + 1) f.ow
    address := bits.extractLsb' 0 f.xlen }

/-- The bits in memory: those of the null capability are all zero. -/
def capToMemBits (c : Capability f) : BitVec (8 * f.capSize) :=
  c.capToBits ^^^ (nullCap f).capToBits

def memBitsToCapability (tag : Bool) (bits : BitVec (8 * f.capSize)) : Capability f :=
  capBitsToCapability tag (bits ^^^ (nullCap f).capToBits)

@[simp] theorem tag_memBitsToCapability (tag : Bool) (bits : BitVec (8 * f.capSize)) :
    (memBitsToCapability tag bits).tag = tag := rfl

/-- The bounds and the address of a capability: an ideal `setCapBounds`. -/
def setCapBounds (c : Capability f) (base : BitVec f.xlen) (top : BitVec (f.xlen + 1)) :
    Bool × Capability f :=
  let extBase : BitVec (f.xlen + 1) := base.setWidth (f.xlen + 1)
  let length := top - extBase
  -- the leading zeros of the bits of the length from `cap_mantissa_width - 1` up
  let upper := length.extractLsb' (f.mw - 1) (f.xlen + 1 - (f.mw - 1))
  let e := f.capMaxE - upper.clz.toNat
  let ie := e ≠ 0 || length.getLsbD (f.mw - 2)
  if ie then
    let Bie : BitVec (f.mw - 3) := (base >>> (e + 3)).setWidth (f.mw - 3)
    let Tie : BitVec (f.mw - 3) := (top >>> (e + 3)).setWidth (f.mw - 3)
    let lostBase := extBase.toNat % 2 ^ (e + 3) ≠ 0
    let lostTop := top.toNat % 2 ^ (e + 3) ≠ 0
    let Tie := if lostTop then Tie + 1 else Tie
    let lenIe := Tie - Bie
    if lenIe.getLsbD (f.mw - 4) then
      -- the length has grown past the two bits it was chosen for
      let lostBase := lostBase || Bie.getLsbD 0
      let lostTop := lostTop || Tie.getLsbD 0
      let Bie : BitVec (f.mw - 3) := (base >>> (e + 4)).setWidth (f.mw - 3)
      let Tie : BitVec (f.mw - 3) := (top >>> (e + 4)).setWidth (f.mw - 3)
        + if lostTop then 1 else 0
      (!(lostBase || lostTop),
        { c with
          address := base
          E := BitVec.ofNat 6 (e + 1)
          B := (Bie ++ 0#3).setWidth f.mw
          T := (Tie ++ 0#3).setWidth f.mw
          internalE := ie })
    else
      (!(lostBase || lostTop),
        { c with
          address := base
          E := BitVec.ofNat 6 e
          B := (Bie ++ 0#3).setWidth f.mw
          T := (Tie ++ 0#3).setWidth f.mw
          internalE := ie })
  else
    (true,
      { c with
        address := base
        E := BitVec.ofNat 6 e
        B := base.setWidth f.mw
        T := top.setWidth f.mw
        internalE := ie })

end Encoding

end Capability

end Sail
