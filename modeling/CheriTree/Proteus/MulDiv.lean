import CheriTree.LongArithmetic
import CheriTree.SyncMachine
import CheriTree.Proteus.Capability

/-!
# The multiplier and the divider

`MulDiv` adds a shift-and-add multiplier and a restoring divider to a stage.
Both take one cycle to load their registers, one for each of 32 bits, and one to
write the result. The stage waits for them; where it idles, because it is
stalled or flushed, they start over.

The multiplier works on a multiplicand of 33 bits and a multiplier of 32. A
negative multiplier is made positive by negating both operands, and the
multiplicand is widened only after that, so that of minus `2 ^ 31` it is left
negative. The lower half of the product does not show that; the upper half does,
and `MULH` of minus `2 ^ 31` and a negative number is wrong. Everything else is
as specified, from every history of the stage.
-/

namespace Proteus

/-! ## Instructions -/

inductive MulDivOp where
  | mul
  | mulh
  | mulhsu
  | mulhu
  | div
  | divu
  | rem
  | remu
deriving DecidableEq, Repr

/-- What the decoder says of an instruction. -/
structure MulDivData where
  mul : Bool
  mulHigh : Bool
  div : Bool
  rem : Bool
  rs1Signed : Bool
  rs2Signed : Bool
deriving DecidableEq, Repr

/-- An instruction that is none of these. -/
def MulDivData.default : MulDivData := ⟨false, false, false, false, false, false⟩

/-- `mulDecodings`. -/
def mulDecoding (high rs1Signed rs2Signed : Bool) : MulDivData :=
  { MulDivData.default with
    mul := true, mulHigh := high, rs1Signed := rs1Signed, rs2Signed := rs2Signed }

/-- `divDecodings`. -/
def divDecoding (rem signed : Bool) : MulDivData :=
  { MulDivData.default with div := true, rem := rem, rs1Signed := signed, rs2Signed := signed }

def MulDivOp.decoding : MulDivOp → MulDivData
  | .mul => mulDecoding false true true
  | .mulh => mulDecoding true true true
  | .mulhsu => mulDecoding true true false
  | .mulhu => mulDecoding true false false
  | .div => divDecoding false true
  | .divu => divDecoding false false
  | .rem => divDecoding true true
  | .remu => divDecoding true false

/-- **An instruction in the stage**, with its operands. -/
structure MulDivInstr where
  op : Option MulDivOp
  rs1 : Word
  rs2 : Word
deriving DecidableEq, Repr

def MulDivInstr.data (i : MulDivInstr) : MulDivData :=
  match i.op with
  | none => MulDivData.default
  | some op => op.decoding

/-! ## The multiplier -/

def twosComplement (data : Word) : Word := ~~~data + 1

namespace MulDivInstr

variable (i : MulDivInstr)

/-- The multiplier is negative, and is negated. -/
def negates : Bool := i.data.rs2Signed && i.rs2.msb

def multiplicand : BitVec 33 :=
  if i.negates then (twosComplement i.rs1).signExtend 33
  else if i.data.rs1Signed then i.rs1.signExtend 33
  else i.rs1.setWidth 33

def multiplier : Word := if i.negates then twosComplement i.rs2 else i.rs2

/-- The product register after a step. -/
def nextProduct (product : BitVec 64) : BitVec 64 :=
  let productH := product.extractLsb' 32 32
  let extendedProductH : BitVec 33 :=
    if i.data.rs1Signed || i.data.rs2Signed then productH.signExtend 33
    else productH.setWidth 33
  let partialSum :=
    if product.getLsbD 0 then extendedProductH + i.multiplicand else extendedProductH
  partialSum ++ product.extractLsb' 1 31

/-- The product register when it is loaded. -/
def firstProduct : BitVec 64 := (0 : Word) ++ i.multiplier

/-- The half of the product that is written. -/
def productResult (product : BitVec 64) : Word :=
  if i.data.mulHigh then product.extractLsb' 32 32 else product.extractLsb' 0 32

/-! ## The divider -/

def dividendIsNeg : Bool := i.data.rs1Signed && i.rs1.msb

def divisorIsNeg : Bool := i.data.rs1Signed && i.rs2.msb

def dividend : Word := if i.dividendIsNeg then twosComplement i.rs1 else i.rs1

def divisor : Word := if i.divisorIsNeg then twosComplement i.rs2 else i.rs2

/-- The remainder and the quotient after a step. -/
def nextQuotient (s : Word × Word) : Word × Word :=
  let newRemainder : Word := s.1.extractLsb' 0 31 ++ BitVec.ofBool s.2.msb
  if newRemainder ≥ i.divisor then
    (newRemainder - i.divisor, s.2.extractLsb' 0 31 ++ BitVec.ofBool true)
  else (newRemainder, s.2.extractLsb' 0 31 ++ BitVec.ofBool false)

/-- What is written of a division by zero. -/
def zeroResult : Word := if i.data.rem then i.rs1 else -1

/-- What is written of the remainder and the quotient. -/
def quotientResult (s : Word × Word) : Word :=
  let correctedQuotient := if i.dividendIsNeg != i.divisorIsNeg then twosComplement s.2 else s.2
  let correctedRemainder := if i.dividendIsNeg then twosComplement s.1 else s.1
  if i.data.rem then correctedRemainder else correctedQuotient

end MulDivInstr

/-- The registers of the multiplier. -/
structure Multiplier where
  product : BitVec 64
  initMul : Bool
  step : ℕ

/-- The registers of the divider. -/
structure Divider where
  registers : Word × Word
  initDiv : Bool
  step : ℕ

/-- The multiplier after a cycle, in which an instruction is running, or the
stage idles. -/
def Multiplier.next (s : Multiplier) : Option MulDivInstr → Multiplier
  | none => { s with initMul := true }
  | some i =>
    if i.data.mul then
      if s.initMul then ⟨i.firstProduct, false, 0⟩
      else if s.step = 32 then { s with initMul := true, step := 0 }
      else { s with product := i.nextProduct s.product, step := s.step + 1 }
    else s

/-- The divider after a cycle. -/
def Divider.next (s : Divider) : Option MulDivInstr → Divider
  | none => { s with initDiv := true }
  | some i =>
    if i.data.div then
      if i.divisor = 0 then s
      else if s.initDiv then ⟨(0, i.dividend), false, 0⟩
      else if s.step = 32 then { s with initDiv := true, step := 0 }
      else { s with registers := i.nextQuotient s.registers, step := s.step + 1 }
    else s

/-- What the multiplier writes. -/
def Multiplier.result (s : Multiplier) (i : MulDivInstr) : Option Word :=
  if i.data.mul ∧ s.initMul = false ∧ s.step = 32 then some (i.productResult s.product) else none

/-- What the divider writes. -/
def Divider.result (s : Divider) (i : MulDivInstr) : Option Word :=
  if i.data.div then
    if i.divisor = 0 then some i.zeroResult
    else if s.initDiv = false ∧ s.step = 32 then some (i.quotientResult s.registers)
    else none
  else none

/-! ## The steps as steps of numbers -/

theorem getLsbD_zero_eq (product : BitVec 64) :
    product.getLsbD 0 = decide (product.toNat % 2 = 1) := by
  rw [BitVec.getLsbD, Nat.testBit_zero]

theorem toNat_productH (product : BitVec 64) :
    (product.extractLsb' 32 32).toNat = product.toNat / 2 ^ 32 := by
  have hlt := product.isLt
  rw [BitVec.extractLsb'_toNat, Nat.shiftRight_eq_div_pow]
  omega

/-- The register after a step, without signs. -/
theorem toNat_shifted (partialSum : BitVec 33) (product : BitVec 64) :
    (partialSum ++ product.extractLsb' 1 31 : BitVec 64).toNat
      = partialSum.toNat * 2 ^ 31 + product.toNat / 2 % 2 ^ 31 := by
  rw [BitVec.toNat_append, BitVec.extractLsb'_toNat, Nat.shiftRight_eq_div_pow,
    ← Nat.shiftLeft_add_eq_or_of_lt (Nat.mod_lt _ (by decide)), Nat.shiftLeft_eq]

/-- And with signs. -/
theorem toInt_shifted (partialSum : BitVec 33) (product : BitVec 64) :
    (partialSum ++ product.extractLsb' 1 31 : BitVec 64).toInt
      = partialSum.toInt * 2 ^ 31 + (product.toNat / 2 % 2 ^ 31 : ℕ) := by
  have happend := BitVec.toInt_append (x := partialSum) (y := product.extractLsb' 1 31)
  rw [BitVec.extractLsb'_toNat, Nat.shiftRight_eq_div_pow, if_neg (by decide)] at happend
  rw [mul_comm]
  exact happend

section

variable {i : MulDivInstr}

/-- **A step of the multiplier with signs** is one on numbers. -/
theorem toInt_nextProduct (hsigned : (i.data.rs1Signed || i.data.rs2Signed) = true)
    (hlow : -2 ^ 31 ≤ i.multiplicand.toInt) (hhigh : i.multiplicand.toInt < 2 ^ 31)
    (product : BitVec 64) :
    (i.nextProduct product).toInt
      = LongArithmetic.mulStep 32 i.multiplicand.toInt product.toInt := by
  have hH := BitVec.toInt_signExtend_of_le (x := product.extractLsb' 32 32) (v := 33) (by decide)
  have hP := BitVec.toInt_eq_toNat_cond product
  have hlt := product.isLt
  rw [BitVec.toInt_eq_toNat_cond (product.extractLsb' 32 32), toNat_productH] at hH
  unfold MulDivInstr.nextProduct LongArithmetic.mulStep
  rw [hsigned]
  dsimp only
  rw [if_pos rfl, toInt_shifted, getLsbD_zero_eq]
  by_cases hbit : product.toNat % 2 = 1
  · have hone : product.toInt % 2 = 1 := by split at hP <;> omega
    -- the sum of two numbers of 32 bits has 33
    rw [if_pos (decide_eq_true hbit), hone, BitVec.toInt_add,
      Int.bmod_eq_of_le (by split at hH <;> omega) (by split at hH <;> omega)]
    split at hH <;> split at hP <;> omega
  · have hzero : product.toInt % 2 = 0 := by split at hP <;> omega
    rw [if_neg (by rw [decide_eq_true_eq]; exact hbit), hzero]
    split at hH <;> split at hP <;> omega

/-- **A step of the multiplier without signs** is one on numbers. -/
theorem toNat_nextProduct (hunsigned : (i.data.rs1Signed || i.data.rs2Signed) = false)
    (hhigh : i.multiplicand.toNat < 2 ^ 32) (product : BitVec 64) :
    ((i.nextProduct product).toNat : ℤ)
      = LongArithmetic.mulStep 32 i.multiplicand.toNat product.toNat := by
  have hlt := product.isLt
  have hH : ((product.extractLsb' 32 32).setWidth 33).toNat = product.toNat / 2 ^ 32 := by
    rw [BitVec.toNat_setWidth, toNat_productH]
    omega
  unfold MulDivInstr.nextProduct LongArithmetic.mulStep
  rw [hunsigned]
  dsimp only
  rw [if_neg Bool.false_ne_true, toNat_shifted, getLsbD_zero_eq]
  by_cases hbit : product.toNat % 2 = 1
  · rw [if_pos (decide_eq_true hbit), BitVec.toNat_add, hH,
      show (product.toNat : ℤ) % 2 = 1 by omega]
    omega
  · rw [if_neg (by rw [decide_eq_true_eq]; exact hbit), hH,
      show (product.toNat : ℤ) % 2 = 0 by omega]
    omega

/-- A register moved up by a bit. -/
theorem toNat_moved (x : Word) (b : Bool) :
    (x.extractLsb' 0 31 ++ BitVec.ofBool b : Word).toNat
      = 2 * (x.toNat % 2 ^ 31) + b.toNat := by
  rw [BitVec.toNat_append, BitVec.extractLsb'_toNat, Nat.shiftRight_zero, BitVec.toNat_ofBool,
    ← Nat.shiftLeft_add_eq_or_of_lt (by cases b <;> decide), Nat.shiftLeft_eq]
  omega

theorem toNat_msb (x : Word) : x.msb.toNat = x.toNat / 2 ^ 31 := by
  have hlt := x.isLt
  rw [BitVec.msb_eq_decide]
  by_cases h : 2 ^ (32 - 1) ≤ x.toNat
  · rw [decide_eq_true h, Bool.toNat_true]
    omega
  · rw [decide_eq_false h, Bool.toNat_false]
    omega

/-- **A step of the divider** is one on numbers, where the remainder has a bit to
spare. -/
theorem nextQuotient_eq {s : Word × Word} (hroom : s.1.toNat < 2 ^ 31) :
    LongArithmetic.DivState.mk (i.nextQuotient s).1.toNat (i.nextQuotient s).2.toNat
      = LongArithmetic.divStep 32 i.divisor.toNat ⟨s.1.toNat, s.2.toNat⟩ := by
  have hnew : (s.1.extractLsb' 0 31 ++ BitVec.ofBool s.2.msb : Word).toNat
      = 2 * s.1.toNat + s.2.toNat / 2 ^ 31 := by
    rw [toNat_moved, toNat_msb, Nat.mod_eq_of_lt hroom]
  have hiff : s.1.extractLsb' 0 31 ++ BitVec.ofBool s.2.msb ≥ i.divisor
      ↔ i.divisor.toNat ≤ 2 * s.1.toNat + s.2.toNat / 2 ^ 31 := by
    rw [ge_iff_le, BitVec.le_def, hnew]
  unfold MulDivInstr.nextQuotient LongArithmetic.divStep
  dsimp only
  by_cases hfits : i.divisor.toNat ≤ 2 * s.1.toNat + s.2.toNat / 2 ^ 31
  · rw [if_pos (hiff.2 hfits), if_pos hfits, toNat_moved, BitVec.toNat_sub_of_le (by
      rw [BitVec.le_def, hnew]
      exact hfits), hnew]
    rfl
  · rw [if_neg fun h => hfits (hiff.1 h), if_neg hfits, hnew, toNat_moved]
    rfl

/-! ## The registers -/

/-- The product register after some steps. -/
def MulDivInstr.productAt (i : MulDivInstr) : ℕ → BitVec 64
  | 0 => i.firstProduct
  | j + 1 => i.nextProduct (i.productAt j)

/-- The remainder and the quotient after some steps. -/
def MulDivInstr.quotientAt (i : MulDivInstr) : ℕ → Word × Word
  | 0 => (0, i.dividend)
  | j + 1 => i.nextQuotient (i.quotientAt j)

/-- **What the stage writes** of an instruction. -/
def MulDivInstr.result (i : MulDivInstr) : Word :=
  if i.data.mul then i.productResult (i.productAt 32)
  else if i.divisor = 0 then i.zeroResult
  else i.quotientResult (i.quotientAt 32)

/-- **The product with signs.** -/
theorem toInt_productAt (hsigned : (i.data.rs1Signed || i.data.rs2Signed) = true)
    (hlow : -2 ^ 31 ≤ i.multiplicand.toInt) (hhigh : i.multiplicand.toInt < 2 ^ 31) :
    (i.productAt 32).toInt = i.multiplicand.toInt * i.multiplier.toNat := by
  have hrun : ∀ j, (i.productAt j).toInt
      = LongArithmetic.mulRun 32 i.multiplicand.toInt i.multiplier.toNat j := by
    intro j
    induction j with
    | zero =>
      have happend := BitVec.toInt_append (x := (0 : Word)) (y := i.multiplier)
      rw [if_neg (by decide), show (0 : Word).toInt = 0 from rfl, mul_zero, zero_add] at happend
      exact happend
    | succ j ih =>
      show (i.nextProduct (i.productAt j)).toInt = _
      rw [toInt_nextProduct hsigned hlow hhigh, ih]
      rfl
  rw [hrun, LongArithmetic.mulRun_eq _ (Int.natCast_nonneg _) (by
    have := i.multiplier.isLt
    omega)]

/-- **The product without signs.** -/
theorem toNat_productAt (hunsigned : (i.data.rs1Signed || i.data.rs2Signed) = false)
    (hhigh : i.multiplicand.toNat < 2 ^ 32) :
    (i.productAt 32).toNat = i.multiplicand.toNat * i.multiplier.toNat := by
  have hrun : ∀ j, ((i.productAt j).toNat : ℤ)
      = LongArithmetic.mulRun 32 i.multiplicand.toNat i.multiplier.toNat j := by
    intro j
    induction j with
    | zero =>
      show (((0 : Word) ++ i.multiplier : BitVec 64).toNat : ℤ) = _
      rw [BitVec.toNat_append, show (0 : Word).toNat = 0 from rfl, Nat.zero_shiftLeft, Nat.zero_or]
      rfl
    | succ j ih =>
      show ((i.nextProduct (i.productAt j)).toNat : ℤ) = _
      rw [toNat_nextProduct hunsigned hhigh, ih]
      rfl
  have hprod := hrun 32
  rw [LongArithmetic.mulRun_eq _ (Int.natCast_nonneg _) (by
    have := i.multiplier.isLt
    omega)] at hprod
  exact_mod_cast hprod

/-- **Remainder and quotient** of the operands without their signs. -/
theorem quotientAt_eq (hdivisor : i.divisor ≠ 0) :
    i.quotientAt 32 = (i.dividend.umod i.divisor, i.dividend.udiv i.divisor) := by
  have hd : 0 < i.divisor.toNat := Nat.pos_of_ne_zero fun h => hdivisor (BitVec.eq_of_toNat_eq h)
  have hrun : ∀ j ≤ 32, LongArithmetic.DivState.mk (i.quotientAt j).1.toNat (i.quotientAt j).2.toNat
      = LongArithmetic.divRun 32 i.divisor.toNat i.dividend.toNat j := by
    intro j hj
    induction j with
    | zero => rfl
    | succ j ih =>
      have ih := ih (Nat.le_of_succ_le hj)
      have hroom := LongArithmetic.remainder_lt_half hd i.dividend.isLt (Nat.lt_of_succ_le hj)
      rw [← ih] at hroom
      show LongArithmetic.DivState.mk (i.nextQuotient (i.quotientAt j)).1.toNat
        (i.nextQuotient (i.quotientAt j)).2.toNat = _
      rw [nextQuotient_eq hroom, ih]
      rfl
  have hlast := hrun 32 (le_refl 32)
  rw [LongArithmetic.divRun_eq hd i.dividend.isLt] at hlast
  obtain ⟨hrem, hquot⟩ := LongArithmetic.DivState.mk.inj hlast
  refine Prod.ext (BitVec.eq_of_toNat_eq ?_) (BitVec.eq_of_toNat_eq ?_)
  · rw [hrem]
    exact BitVec.toNat_umod.symm
  · rw [hquot]
    exact BitVec.toNat_udiv.symm

end

/-! ## The operands -/

theorem twosComplement_eq (x : Word) : twosComplement x = -x := (BitVec.neg_eq_not_add x).symm

/-- **Negation in 32 bits** is off for minus `2 ^ 31`. -/
theorem toInt_twosComplement (x : Word) : (twosComplement x).toInt
    = -x.toInt - if x = BitVec.intMin 32 then 2 ^ 32 else 0 := by
  rw [twosComplement_eq]
  split
  · rename_i hmin
    rw [hmin]
    decide
  · rename_i hne
    rw [BitVec.toInt_neg_of_ne_intMin hne, sub_zero]

/-- A negative number without its sign. -/
theorem toNat_twosComplement {x : Word} (hneg : x.msb = true) :
    ((twosComplement x).toNat : ℤ) = -x.toInt := by
  rw [twosComplement_eq, BitVec.toNat_neg, BitVec.toInt_eq_msb_cond, if_pos hneg]
  have hlt := x.isLt
  have hge : 2 ^ 31 ≤ x.toNat := by
    have := toNat_msb x
    rw [hneg, Bool.toNat_true] at this
    omega
  omega

theorem toInt_of_not_msb {x : Word} (hpos : x.msb = false) : x.toInt = x.toNat := by
  rw [BitVec.toInt_eq_msb_cond, if_neg (by rw [hpos]; decide)]

/-! ## What is specified -/

/-- The largest dividend there is no quotient of in 32 bits. -/
def Overflows (rs1 rs2 : Word) : Prop := rs1 = BitVec.intMin 32 ∧ rs2 = -1

instance (rs1 rs2 : Word) : Decidable (Overflows rs1 rs2) := inferInstanceAs (Decidable (_ ∧ _))

/-- **What an instruction is to write**: the half of the exact product, or the
quotient or the remainder, with the results that are specified for a division by
zero and for one that overflows. -/
def MulDivOp.spec (rs1 rs2 : Word) : MulDivOp → Word
  | .mul => BitVec.ofInt 32 (rs1.toInt * rs2.toInt)
  | .mulh => BitVec.ofInt 32 (rs1.toInt * rs2.toInt / 2 ^ 32)
  | .mulhsu => BitVec.ofInt 32 (rs1.toInt * rs2.toNat / 2 ^ 32)
  | .mulhu => BitVec.ofNat 32 (rs1.toNat * rs2.toNat / 2 ^ 32)
  | .div =>
    if rs2 = 0 then -1
    else if Overflows rs1 rs2 then rs1
    else BitVec.ofInt 32 (rs1.toInt.tdiv rs2.toInt)
  | .divu => if rs2 = 0 then -1 else BitVec.ofNat 32 (rs1.toNat / rs2.toNat)
  | .rem =>
    if rs2 = 0 then rs1
    else if Overflows rs1 rs2 then 0
    else BitVec.ofInt 32 (rs1.toInt.tmod rs2.toInt)
  | .remu => if rs2 = 0 then rs1 else BitVec.ofNat 32 (rs1.toNat % rs2.toNat)

/-! ## Products -/

section

variable {product : BitVec 64} {z : ℤ}

theorem low_eq_ofInt (h : product.toInt % 2 ^ 32 = z % 2 ^ 32) :
    product.extractLsb' 0 32 = BitVec.ofInt 32 z := by
  apply BitVec.eq_of_toNat_eq
  have hlt := product.isLt
  have hP := BitVec.toInt_eq_toNat_cond product
  rw [BitVec.extractLsb'_toNat, Nat.shiftRight_zero, BitVec.toNat_ofInt]
  split at hP <;> omega

theorem high_eq_ofInt_iff :
    product.extractLsb' 32 32 = BitVec.ofInt 32 z
      ↔ product.toInt / 2 ^ 32 % 2 ^ 32 = z % 2 ^ 32 := by
  have hlt := product.isLt
  have hP := BitVec.toInt_eq_toNat_cond product
  rw [← BitVec.toNat_inj, toNat_productH, BitVec.toNat_ofInt]
  split at hP <;> omega

end

variable {rs1 rs2 : Word}

/-- **The product of two numbers with signs**, and what is wrong with it. -/
theorem toInt_productAt_mul {op : MulDivOp} (hop : op = .mul ∨ op = .mulh) :
    ((MulDivInstr.mk (some op) rs1 rs2).productAt 32).toInt
      = rs1.toInt * rs2.toInt
        + if rs2.msb = true ∧ rs1 = BitVec.intMin 32 then 2 ^ 32 * rs2.toInt else 0 := by
  have hdata : (MulDivInstr.mk (some op) rs1 rs2).data.rs1Signed = true
      ∧ (MulDivInstr.mk (some op) rs1 rs2).data.rs2Signed = true := by
    rcases hop with rfl | rfl <;> exact ⟨rfl, rfl⟩
  have hnegates : (MulDivInstr.mk (some op) rs1 rs2).negates = rs2.msb := by
    unfold MulDivInstr.negates
    rw [hdata.2, Bool.true_and]
  -- the multiplicand is a number of 32 bits
  obtain ⟨x, hx, hmultiplicand⟩ : ∃ x : Word,
      x = (if rs2.msb then twosComplement rs1 else rs1)
        ∧ (MulDivInstr.mk (some op) rs1 rs2).multiplicand.toInt = x.toInt := by
    refine ⟨_, rfl, ?_⟩
    unfold MulDivInstr.multiplicand
    rw [hnegates, hdata.1]
    cases rs2.msb with
    | true => exact BitVec.toInt_signExtend_of_le (by decide)
    | false => exact BitVec.toInt_signExtend_of_le (by decide)
  have hlow := BitVec.le_toInt x
  have hhigh := BitVec.toInt_lt (x := x)
  rw [toInt_productAt (by rw [hdata.1]; rfl) (by rw [hmultiplicand]; exact hlow)
    (by rw [hmultiplicand]; exact hhigh), hmultiplicand, hx]
  have hmultiplier : (MulDivInstr.mk (some op) rs1 rs2).multiplier
      = if rs2.msb then twosComplement rs2 else rs2 := by
    unfold MulDivInstr.multiplier
    rw [hnegates]
  rw [hmultiplier]
  cases hneg : rs2.msb with
  | true =>
    rw [if_pos rfl, if_pos rfl, toInt_twosComplement, toNat_twosComplement hneg]
    by_cases hmin : rs1 = BitVec.intMin 32
    · rw [if_pos hmin, if_pos ⟨rfl, hmin⟩]
      ring
    · rw [if_neg hmin, if_neg fun h => hmin h.2]
      ring
  | false =>
    rw [if_neg Bool.false_ne_true, if_neg Bool.false_ne_true,
      if_neg fun h => Bool.false_ne_true h.1, toInt_of_not_msb hneg, add_zero]

theorem result_mul : (MulDivInstr.mk (some .mul) rs1 rs2).result = MulDivOp.mul.spec rs1 rs2 := by
  refine low_eq_ofInt ?_
  rw [toInt_productAt_mul (Or.inl rfl)]
  split
  · exact Int.add_mul_emod_self_left _ _ _
  · rw [add_zero]

/-- **`MULH` is right** but for minus `2 ^ 31` and a negative number. -/
theorem result_mulh_iff : (MulDivInstr.mk (some .mulh) rs1 rs2).result = MulDivOp.mulh.spec rs1 rs2
    ↔ ¬ (rs1 = BitVec.intMin 32 ∧ rs2.msb = true) := by
  refine high_eq_ofInt_iff.trans ?_
  rw [toInt_productAt_mul (Or.inr rfl)]
  by_cases hbad : rs2.msb = true ∧ rs1 = BitVec.intMin 32
  · rw [if_pos hbad, Int.add_mul_ediv_left _ _ (by decide)]
    refine iff_of_false (fun heq => ?_) (not_not.2 ⟨hbad.2, hbad.1⟩)
    -- the two differ by the multiplier, which is negative
    have hlow := BitVec.le_toInt rs2
    have hneg := toNat_twosComplement hbad.1
    have hne : rs2.toInt ≠ 0 := by
      rw [BitVec.toInt_eq_msb_cond, if_pos hbad.1]
      have := rs2.isLt
      omega
    omega
  · rw [if_neg hbad, add_zero]
    exact iff_of_true rfl fun h => hbad ⟨h.2, h.1⟩

theorem result_mulhsu :
    (MulDivInstr.mk (some .mulhsu) rs1 rs2).result = MulDivOp.mulhsu.spec rs1 rs2 := by
  refine high_eq_ofInt_iff.2 ?_
  have hmultiplicand : (MulDivInstr.mk (some .mulhsu) rs1 rs2).multiplicand.toInt = rs1.toInt :=
    BitVec.toInt_signExtend_of_le (by decide)
  rw [toInt_productAt rfl (by rw [hmultiplicand]; exact BitVec.le_toInt rs1)
    (by rw [hmultiplicand]; exact BitVec.toInt_lt), hmultiplicand]
  rfl

theorem result_mulhu :
    (MulDivInstr.mk (some .mulhu) rs1 rs2).result = MulDivOp.mulhu.spec rs1 rs2 := by
  have hmultiplicand : (MulDivInstr.mk (some .mulhu) rs1 rs2).multiplicand.toNat = rs1.toNat := by
    show (rs1.setWidth 33).toNat = rs1.toNat
    rw [BitVec.toNat_setWidth]
    have := rs1.isLt
    omega
  have hprod := toNat_productAt (i := ⟨some .mulhu, rs1, rs2⟩) rfl (by
    rw [hmultiplicand]
    exact rs1.isLt)
  show ((MulDivInstr.mk (some .mulhu) rs1 rs2).productAt 32).extractLsb' 32 32
    = BitVec.ofNat 32 (rs1.toNat * rs2.toNat / 2 ^ 32)
  apply BitVec.eq_of_toNat_eq
  have hlt := ((MulDivInstr.mk (some .mulhu) rs1 rs2).productAt 32).isLt
  rw [toNat_productH, BitVec.toNat_ofNat, hprod, hmultiplicand]
  rw [hprod, hmultiplicand] at hlt
  have hhalf : rs1.toNat * rs2.toNat / 2 ^ 32 < 2 ^ 32 := Nat.div_lt_of_lt_mul hlt
  exact (Nat.mod_eq_of_lt hhalf).symm

/-! ## Quotients -/

theorem divisor_eq_zero_iff {op : MulDivOp} :
    (MulDivInstr.mk (some op) rs1 rs2).divisor = 0 ↔ rs2 = 0 := by
  unfold MulDivInstr.divisor
  split
  · rw [twosComplement_eq]
    exact BitVec.neg_eq_zero_iff
  · exact Iff.rfl

/-- The result of a division that is made. -/
theorem result_of_div {op : MulDivOp} (hop : op.decoding.mul = false) (hrs2 : rs2 ≠ 0) :
    (MulDivInstr.mk (some op) rs1 rs2).result
      = (MulDivInstr.mk (some op) rs1 rs2).quotientResult
        ((MulDivInstr.mk (some op) rs1 rs2).dividend.umod
          (MulDivInstr.mk (some op) rs1 rs2).divisor,
          (MulDivInstr.mk (some op) rs1 rs2).dividend.udiv
            (MulDivInstr.mk (some op) rs1 rs2).divisor) := by
  have hdivisor : (MulDivInstr.mk (some op) rs1 rs2).divisor ≠ 0 :=
    fun h => hrs2 (divisor_eq_zero_iff.1 h)
  unfold MulDivInstr.result
  rw [show (MulDivInstr.mk (some op) rs1 rs2).data.mul = false from hop,
    if_neg Bool.false_ne_true, if_neg hdivisor, quotientAt_eq hdivisor]

/-- And of one by zero. -/
theorem result_of_zero {op : MulDivOp} (hop : op.decoding.mul = false) :
    (MulDivInstr.mk (some op) rs1 0).result = (MulDivInstr.mk (some op) rs1 0).zeroResult := by
  unfold MulDivInstr.result
  rw [show (MulDivInstr.mk (some op) rs1 0).data.mul = false from hop,
    if_neg Bool.false_ne_true, if_pos (divisor_eq_zero_iff.2 rfl)]

theorem result_div : (MulDivInstr.mk (some .div) rs1 rs2).result = MulDivOp.div.spec rs1 rs2 := by
  by_cases hrs2 : rs2 = 0
  · rw [hrs2, result_of_zero rfl]
    rfl
  · have hsdiv : (MulDivInstr.mk (some .div) rs1 rs2).result = rs1.sdiv rs2 := by
      rw [result_of_div rfl hrs2, BitVec.sdiv_eq]
      unfold MulDivInstr.quotientResult MulDivInstr.dividend MulDivInstr.divisor
        MulDivInstr.dividendIsNeg MulDivInstr.divisorIsNeg
      simp only [twosComplement_eq]
      cases rs1.msb <;> cases rs2.msb <;> rfl
    rw [hsdiv]
    show _ = if rs2 = 0 then -1 else if Overflows rs1 rs2 then rs1
      else BitVec.ofInt 32 (rs1.toInt.tdiv rs2.toInt)
    rw [if_neg hrs2]
    split
    · rename_i hover
      rw [hover.1, hover.2]
      decide
    · apply BitVec.eq_of_toInt_eq
      rw [BitVec.toInt_sdiv, BitVec.toInt_ofInt]

theorem result_rem : (MulDivInstr.mk (some .rem) rs1 rs2).result = MulDivOp.rem.spec rs1 rs2 := by
  by_cases hrs2 : rs2 = 0
  · rw [hrs2, result_of_zero rfl]
    rfl
  · have hsrem : (MulDivInstr.mk (some .rem) rs1 rs2).result = rs1.srem rs2 := by
      rw [result_of_div rfl hrs2, BitVec.srem_eq]
      unfold MulDivInstr.quotientResult MulDivInstr.dividend MulDivInstr.divisor
        MulDivInstr.dividendIsNeg MulDivInstr.divisorIsNeg
      simp only [twosComplement_eq]
      cases rs1.msb <;> cases rs2.msb <;> rfl
    rw [hsrem]
    show _ = if rs2 = 0 then rs1 else if Overflows rs1 rs2 then 0
      else BitVec.ofInt 32 (rs1.toInt.tmod rs2.toInt)
    rw [if_neg hrs2]
    split
    · rename_i hover
      rw [hover.1, hover.2]
      decide
    · apply BitVec.eq_of_toInt_eq
      rw [BitVec.toInt_srem, BitVec.toInt_ofInt, ← BitVec.toInt_srem, BitVec.toInt_bmod_cancel]

theorem result_divu :
    (MulDivInstr.mk (some .divu) rs1 rs2).result = MulDivOp.divu.spec rs1 rs2 := by
  by_cases hrs2 : rs2 = 0
  · rw [hrs2, result_of_zero rfl]
    rfl
  · rw [result_of_div rfl hrs2]
    show rs1.udiv rs2 = if rs2 = 0 then -1 else BitVec.ofNat 32 (rs1.toNat / rs2.toNat)
    rw [if_neg hrs2]
    exact BitVec.udiv_def

theorem result_remu :
    (MulDivInstr.mk (some .remu) rs1 rs2).result = MulDivOp.remu.spec rs1 rs2 := by
  by_cases hrs2 : rs2 = 0
  · rw [hrs2, result_of_zero rfl]
    rfl
  · rw [result_of_div rfl hrs2]
    show rs1.umod rs2 = if rs2 = 0 then rs1 else BitVec.ofNat 32 (rs1.toNat % rs2.toNat)
    rw [if_neg hrs2]
    exact BitVec.umod_def

/-- **What the stage writes is what is specified**, but for `MULH` of minus
`2 ^ 31` and a negative number. -/
theorem result_eq_spec_iff (op : MulDivOp) :
    (MulDivInstr.mk (some op) rs1 rs2).result = op.spec rs1 rs2
      ↔ ¬ (op = .mulh ∧ rs1 = BitVec.intMin 32 ∧ rs2.msb = true) := by
  cases op with
  | mulh => exact result_mulh_iff.trans (not_congr ⟨fun h => ⟨rfl, h⟩, fun h => h.2⟩)
  | mul => exact iff_of_true result_mul fun h => by cases h.1
  | mulhsu => exact iff_of_true result_mulhsu fun h => by cases h.1
  | mulhu => exact iff_of_true result_mulhu fun h => by cases h.1
  | div => exact iff_of_true result_div fun h => by cases h.1
  | divu => exact iff_of_true result_divu fun h => by cases h.1
  | rem => exact iff_of_true result_rem fun h => by cases h.1
  | remu => exact iff_of_true result_remu fun h => by cases h.1

/-! ## The stage -/

/-- **The stage**: the instruction in it, and the registers of the two units. -/
structure MulDivStage where
  held : Option MulDivInstr
  mul : Multiplier
  div : Divider

/-- What the rest of the pipeline does in a cycle: it stalls or flushes the
stage, an instruction that is none of these is ready, and one comes in if there
is room for it. -/
structure StageCycle where
  isStalled : Bool
  flushed : Bool
  otherReady : Bool
  incoming : Option MulDivInstr

namespace MulDivStage

/-- The stage of reset. The product, and the registers of the divider, have any
value. -/
def reset (product : BitVec 64) (registers : Word × Word) : MulDivStage :=
  ⟨none, ⟨product, true, 0⟩, ⟨registers, true, 0⟩⟩

variable (s : MulDivStage) (c : StageCycle)

/-- The instruction that is running. -/
def running : Option MulDivInstr := if c.isStalled || c.flushed then none else s.held

/-- `RD_DATA`, where it is written. -/
def written : Option Word :=
  match s.running c with
  | none => none
  | some i => (s.mul.result i).or (s.div.result i)

/-- `isDone`. -/
def isDone : Bool :=
  match s.running c with
  | none => false
  | some i =>
    if i.data.mul then (s.mul.result i).isSome
    else if i.data.div then (s.div.result i).isSome
    else c.otherReady

/-- **The stage after a cycle**: an instruction stays until it is done, or
flushed. -/
def next : MulDivStage where
  held := if s.isDone c || s.held.isNone || c.flushed then c.incoming else s.held
  mul := s.mul.next (s.running c)
  div := s.div.next (s.running c)

end MulDivStage

/-- **The stage from cycle to cycle**, and what it writes. -/
def mulDivMachine : SyncMachine MulDivStage StageCycle (Option Word) where
  step s c := (s.next c, s.written c)

/-- **The units are where they should be** with the instruction in the stage. -/
structure MulDivStage.OnTrack (s : MulDivStage) : Prop where
  mul : s.mul.initMul = true ∨ ∃ i, s.held = some i ∧ i.data.mul = true ∧ s.mul.step ≤ 32
    ∧ s.mul.product = i.productAt s.mul.step
  div : s.div.initDiv = true ∨ ∃ i, s.held = some i ∧ i.data.div = true ∧ i.divisor ≠ 0
    ∧ s.div.step ≤ 32 ∧ s.div.registers = i.quotientAt s.div.step

/-! ### The units in a cycle -/

section

variable {i : MulDivInstr}

theorem Multiplier.next_load {s : Multiplier} (hmul : i.data.mul = true)
    (hinit : s.initMul = true) : s.next (some i) = ⟨i.firstProduct, false, 0⟩ :=
  (if_pos hmul).trans (if_pos hinit)

theorem Multiplier.next_step {s : Multiplier} (hmul : i.data.mul = true)
    (hinit : s.initMul = false) (hlast : s.step ≠ 32) :
    s.next (some i) = ⟨i.nextProduct s.product, false, s.step + 1⟩ := by
  have hstep : s.next (some i)
      = { s with product := i.nextProduct s.product, step := s.step + 1 } :=
    (if_pos hmul).trans ((if_neg (by rw [hinit]; decide)).trans (if_neg hlast))
  rw [hstep, hinit]

theorem Divider.next_load {s : Divider} (hdiv : i.data.div = true) (hdivisor : i.divisor ≠ 0)
    (hinit : s.initDiv = true) : s.next (some i) = ⟨(0, i.dividend), false, 0⟩ :=
  (if_pos hdiv).trans ((if_neg hdivisor).trans (if_pos hinit))

theorem Divider.next_step {s : Divider} (hdiv : i.data.div = true) (hdivisor : i.divisor ≠ 0)
    (hinit : s.initDiv = false) (hlast : s.step ≠ 32) :
    s.next (some i) = ⟨i.nextQuotient s.registers, false, s.step + 1⟩ := by
  have hstep : s.next (some i)
      = { s with registers := i.nextQuotient s.registers, step := s.step + 1 } :=
    (if_pos hdiv).trans ((if_neg hdivisor).trans
      ((if_neg (by rw [hinit]; decide)).trans (if_neg hlast)))
  rw [hstep, hinit]

/-- After the last step the multiplier is to be loaded again. -/
theorem Multiplier.next_last {s : Multiplier} (hmul : i.data.mul = true)
    (hinit : s.initMul = false) (hlast : s.step = 32) : (s.next (some i)).initMul = true := by
  have hnext : s.next (some i) = { s with initMul := true, step := 0 } :=
    (if_pos hmul).trans ((if_neg (by rw [hinit]; decide)).trans (if_pos hlast))
  rw [hnext]

/-- And so is the divider. -/
theorem Divider.next_last {s : Divider} (hdiv : i.data.div = true) (hdivisor : i.divisor ≠ 0)
    (hinit : s.initDiv = false) (hlast : s.step = 32) : (s.next (some i)).initDiv = true := by
  have hnext : s.next (some i) = { s with initDiv := true, step := 0 } :=
    (if_pos hdiv).trans ((if_neg hdivisor).trans
      ((if_neg (by rw [hinit]; decide)).trans (if_pos hlast)))
  rw [hnext]

end

namespace MulDivStage.OnTrack

variable {s : MulDivStage} {c : StageCycle} (h : s.OnTrack)

/-- A unit that is loaded keeps its instruction, unless the stage idles. -/
theorem held_next {i : MulDivInstr} (hrun : s.running c = some i) (hdone : s.isDone c = false) :
    (s.next c).held = some i := by
  unfold MulDivStage.running at hrun
  split at hrun
  · cases hrun
  · rename_i hidle
    rw [Bool.or_eq_true, not_or, Bool.not_eq_true, Bool.not_eq_true] at hidle
    show (if s.isDone c || s.held.isNone || c.flushed then c.incoming else s.held) = some i
    rw [hdone, hidle.2, hrun]
    rfl

theorem held_of_running {i : MulDivInstr} (hrun : s.running c = some i) : s.held = some i := by
  unfold MulDivStage.running at hrun
  split at hrun
  · cases hrun
  · exact hrun

/-- The result of the multiplier is there after its last step. -/
theorem mul_result {i : MulDivInstr} (hmul : i.data.mul = true) :
    s.mul.result i = if s.mul.initMul = false ∧ s.mul.step = 32 then
      some (i.productResult s.mul.product) else none := by
  unfold Multiplier.result
  simp only [hmul, true_and]

/-- And that of the divider, or at once for a division by zero. -/
theorem div_result {i : MulDivInstr} (hdiv : i.data.div = true) (hdivisor : i.divisor ≠ 0) :
    s.div.result i = if s.div.initDiv = false ∧ s.div.step = 32 then
      some (i.quotientResult s.div.registers) else none := by
  unfold Divider.result
  rw [if_pos hdiv, if_neg hdivisor]

/-- No instruction goes to both units. -/
theorem div_of_mul {i : MulDivInstr} (hmul : i.data.mul = true) : i.data.div = false := by
  unfold MulDivInstr.data at *
  cases hop : i.op with
  | none => rfl
  | some op =>
    rw [hop] at hmul
    cases op <;> first | rfl | cases hmul

/-- A multiplication is done with its result. -/
theorem isDone_of_mul {i : MulDivInstr} (hmul : i.data.mul = true) (hrun : s.running c = some i) :
    s.isDone c = (s.mul.result i).isSome := by
  unfold MulDivStage.isDone
  rw [hrun]
  exact if_pos hmul

/-- And so is a division. -/
theorem isDone_of_div {i : MulDivInstr} (hdiv : i.data.div = true) (hrun : s.running c = some i) :
    s.isDone c = (s.div.result i).isSome := by
  have hmul : ¬ i.data.mul = true := fun hmul => by
    rw [div_of_mul hmul] at hdiv
    exact Bool.false_ne_true hdiv
  unfold MulDivStage.isDone
  rw [hrun]
  exact (if_neg hmul).trans (if_pos hdiv)

include h in
/-- A multiplier that is loaded is at a step of the instruction in the stage. -/
theorem mul_loaded {i : MulDivInstr} (hheld : s.held = some i) (hinit : s.mul.initMul = false) :
    i.data.mul = true ∧ s.mul.step ≤ 32 ∧ s.mul.product = i.productAt s.mul.step := by
  obtain ⟨j, hj, hrest⟩ := h.mul.resolve_left (by rw [hinit]; decide)
  obtain rfl := Option.some.inj (hheld.symm.trans hj)
  exact hrest

include h in
/-- And so is a divider. -/
theorem div_loaded {i : MulDivInstr} (hheld : s.held = some i) (hinit : s.div.initDiv = false) :
    i.data.div = true ∧ i.divisor ≠ 0 ∧ s.div.step ≤ 32
      ∧ s.div.registers = i.quotientAt s.div.step := by
  obtain ⟨j, hj, hrest⟩ := h.div.resolve_left (by rw [hinit]; decide)
  obtain rfl := Option.some.inj (hheld.symm.trans hj)
  exact hrest

include h in
/-- **A cycle keeps the multiplier where it should be.** -/
theorem mul_next : (s.next c).mul.initMul = true ∨ ∃ i, (s.next c).held = some i
    ∧ i.data.mul = true ∧ (s.next c).mul.step ≤ 32
    ∧ (s.next c).mul.product = i.productAt (s.next c).mul.step := by
  have hnext : (s.next c).mul = s.mul.next (s.running c) := rfl
  rw [hnext]
  cases hrun : s.running c with
  | none => exact Or.inl rfl
  | some i =>
    have hheld := held_of_running hrun
    by_cases hmul : i.data.mul = true
    · have hdone := isDone_of_mul hmul hrun
      rw [mul_result hmul] at hdone
      cases hinit : s.mul.initMul with
      | true =>
        rw [if_neg fun hno => absurd hno.1 (by rw [hinit]; decide)] at hdone
        rw [Multiplier.next_load hmul hinit]
        exact Or.inr ⟨i, held_next hrun hdone, hmul, Nat.zero_le _, rfl⟩
      | false =>
        by_cases hlast : s.mul.step = 32
        · exact Or.inl (Multiplier.next_last hmul hinit hlast)
        · rw [if_neg fun hno => hlast hno.2] at hdone
          obtain ⟨-, hstep, hproduct⟩ := h.mul_loaded hheld hinit
          rw [Multiplier.next_step hmul hinit hlast]
          refine Or.inr ⟨i, held_next hrun hdone, hmul, by show s.mul.step + 1 ≤ 32; omega, ?_⟩
          show i.nextProduct s.mul.product = i.nextProduct (i.productAt s.mul.step)
          rw [hproduct]
    · have hstays : s.mul.next (some i) = s.mul := if_neg hmul
      rw [hstays]
      cases hinit : s.mul.initMul with
      | true => exact Or.inl rfl
      | false => exact absurd (h.mul_loaded hheld hinit).1 hmul

include h in
/-- **And the divider.** -/
theorem div_next : (s.next c).div.initDiv = true ∨ ∃ i, (s.next c).held = some i
    ∧ i.data.div = true ∧ i.divisor ≠ 0 ∧ (s.next c).div.step ≤ 32
    ∧ (s.next c).div.registers = i.quotientAt (s.next c).div.step := by
  have hnext : (s.next c).div = s.div.next (s.running c) := rfl
  rw [hnext]
  cases hrun : s.running c with
  | none => exact Or.inl rfl
  | some i =>
    have hheld := held_of_running hrun
    -- a unit that the instruction does not go through is not loaded
    have hstays : ∀ hno : ¬ (i.data.div = true ∧ i.divisor ≠ 0), s.div.initDiv = true := by
      intro hno
      cases hinit : s.div.initDiv with
      | true => rfl
      | false =>
        obtain ⟨hdiv, hdivisor, -⟩ := h.div_loaded hheld hinit
        exact absurd ⟨hdiv, hdivisor⟩ hno
    by_cases hdiv : i.data.div = true
    · by_cases hdivisor : i.divisor = 0
      · have hkeep : s.div.next (some i) = s.div := (if_pos hdiv).trans (if_pos hdivisor)
        rw [hkeep]
        exact Or.inl (hstays fun hyes => hyes.2 hdivisor)
      · have hdone := isDone_of_div hdiv hrun
        rw [div_result hdiv hdivisor] at hdone
        cases hinit : s.div.initDiv with
        | true =>
          rw [if_neg fun hno => absurd hno.1 (by rw [hinit]; decide)] at hdone
          rw [Divider.next_load hdiv hdivisor hinit]
          exact Or.inr ⟨i, held_next hrun hdone, hdiv, hdivisor, Nat.zero_le _, rfl⟩
        | false =>
          by_cases hlast : s.div.step = 32
          · exact Or.inl (Divider.next_last hdiv hdivisor hinit hlast)
          · rw [if_neg fun hno => hlast hno.2] at hdone
            obtain ⟨-, -, hstep, hregisters⟩ := h.div_loaded hheld hinit
            rw [Divider.next_step hdiv hdivisor hinit hlast]
            refine Or.inr ⟨i, held_next hrun hdone, hdiv, hdivisor,
              by show s.div.step + 1 ≤ 32; omega, ?_⟩
            show i.nextQuotient s.div.registers = i.nextQuotient (i.quotientAt s.div.step)
            rw [hregisters]
    · have hkeep : s.div.next (some i) = s.div := if_neg hdiv
      rw [hkeep]
      exact Or.inl (hstays fun hyes => hdiv hyes.1)

include h in
/-- **A cycle keeps the units where they should be.** -/
theorem next : (s.next c).OnTrack := ⟨h.mul_next, h.div_next⟩

include h in
/-- **What is written** is the result of the instruction. -/
theorem written_eq {i : MulDivInstr} (hheld : s.held = some i) {v : Word}
    (hv : s.written c = some v) : v = i.result := by
  unfold MulDivStage.written at hv
  cases hrun : s.running c with
  | none =>
    rw [hrun] at hv
    cases hv
  | some j =>
    obtain rfl := Option.some.inj (hheld.symm.trans (held_of_running hrun))
    rw [hrun] at hv
    dsimp only at hv
    unfold MulDivInstr.result
    by_cases hmul : i.data.mul = true
    · have hnodiv : s.div.result i = none := if_neg (by rw [div_of_mul hmul]; decide)
      rw [hnodiv, Option.or_none, mul_result hmul] at hv
      split at hv
      · rename_i hlast
        rw [if_pos hmul, ← Option.some.inj hv, (h.mul_loaded hheld hlast.1).2.2, hlast.2]
      · cases hv
    · have hnomul : s.mul.result i = none := if_neg fun hno => hmul hno.1
      rw [hnomul, Option.none_or] at hv
      rw [if_neg hmul]
      by_cases hdiv : i.data.div = true
      · by_cases hdivisor : i.divisor = 0
        · unfold Divider.result at hv
          rw [if_pos hdiv, if_pos hdivisor] at hv
          rw [if_pos hdivisor, Option.some.inj hv]
        · rw [div_result hdiv hdivisor] at hv
          split at hv
          · rename_i hlast
            rw [if_neg hdivisor, ← Option.some.inj hv, (h.div_loaded hheld hlast.1).2.2.2, hlast.2]
          · cases hv
      · unfold Divider.result at hv
        rw [if_neg hdiv] at hv
        cases hv

end MulDivStage.OnTrack

/-! ## How long it takes -/

/-- The cycles that are left before the result is written. -/
def MulDivStage.remaining (s : MulDivStage) (i : MulDivInstr) : ℕ :=
  if i.data.mul then if s.mul.initMul then 33 else 32 - s.mul.step
  else if i.divisor = 0 then 0
  else if s.div.initDiv then 33 else 32 - s.div.step

/-- An instruction goes to one of the units. -/
theorem MulDivInstr.div_of_not_mul {i : MulDivInstr} (hop : i.op.isSome = true)
    (hmul : ¬ i.data.mul = true) : i.data.div = true := by
  obtain ⟨op, hop⟩ := Option.isSome_iff_exists.1 hop
  unfold MulDivInstr.data at *
  rw [hop] at hmul ⊢
  cases op <;> first | rfl | exact absurd rfl hmul

namespace MulDivStage.OnTrack

variable {s : MulDivStage} {c : StageCycle} {i : MulDivInstr} (h : s.OnTrack)
include h

/-- A cycle of the multiplier that is not lost. -/
theorem remaining_mul (hmul : i.data.mul = true) (hrun : s.running c = some i)
    (hno : s.isDone c = false) : (s.next c).remaining i < s.remaining i := by
  have hdone := isDone_of_mul hmul hrun
  have hnext : (s.next c).mul = s.mul.next (some i) := congrArg s.mul.next hrun
  unfold MulDivStage.remaining
  rw [if_pos hmul, if_pos hmul]
  cases hinit : s.mul.initMul with
  | true =>
    rw [hnext, Multiplier.next_load hmul hinit]
    show 32 - 0 < 33
    decide
  | false =>
    have hlast : s.mul.step ≠ 32 := fun hlast => by
      rw [hdone, mul_result hmul, if_pos ⟨hinit, hlast⟩] at hno
      cases hno
    obtain ⟨-, hstep, -⟩ := h.mul_loaded (held_of_running hrun) hinit
    rw [hnext, Multiplier.next_step hmul hinit hlast]
    show 32 - (s.mul.step + 1) < 32 - s.mul.step
    omega

/-- And one of the divider. -/
theorem remaining_div (hmul : ¬ i.data.mul = true) (hdiv : i.data.div = true)
    (hrun : s.running c = some i) (hno : s.isDone c = false) :
    (s.next c).remaining i < s.remaining i := by
  have hdone := isDone_of_div hdiv hrun
  have hnext : (s.next c).div = s.div.next (some i) := congrArg s.div.next hrun
  have hdivisor : i.divisor ≠ 0 := fun hzero => by
    rw [hdone, show s.div.result i = some i.zeroResult from (if_pos hdiv).trans (if_pos hzero)]
      at hno
    cases hno
  unfold MulDivStage.remaining
  rw [if_neg hmul, if_neg hmul, if_neg hdivisor, if_neg hdivisor]
  cases hinit : s.div.initDiv with
  | true =>
    rw [hnext, Divider.next_load hdiv hdivisor hinit]
    show 32 - 0 < 33
    decide
  | false =>
    have hlast : s.div.step ≠ 32 := fun hlast => by
      rw [hdone, div_result hdiv hdivisor, if_pos ⟨hinit, hlast⟩] at hno
      cases hno
    obtain ⟨-, -, hstep, -⟩ := h.div_loaded (held_of_running hrun) hinit
    rw [hnext, Divider.next_step hdiv hdivisor hinit hlast]
    show 32 - (s.div.step + 1) < 32 - s.div.step
    omega

/-- **A cycle that is not lost** writes the result, or leaves one cycle less. -/
theorem written_or_remaining (hop : i.op.isSome = true) (hrun : s.running c = some i) :
    (s.written c).isSome = true
      ∨ (s.next c).held = some i ∧ (s.next c).remaining i < s.remaining i := by
  have hwritten : s.written c = (s.mul.result i).or (s.div.result i) := by
    unfold MulDivStage.written
    rw [hrun]
  cases hdone : s.isDone c with
  | true =>
    refine Or.inl ?_
    unfold MulDivStage.isDone at hdone
    rw [hrun] at hdone
    dsimp only at hdone
    rw [hwritten, Option.isSome_or, Bool.or_eq_true]
    by_cases hmul : i.data.mul = true
    · rw [if_pos hmul] at hdone
      exact Or.inl hdone
    · rw [if_neg hmul, if_pos (MulDivInstr.div_of_not_mul hop hmul)] at hdone
      exact Or.inr hdone
  | false =>
    refine Or.inr ⟨held_next hrun hdone, ?_⟩
    by_cases hmul : i.data.mul = true
    · exact h.remaining_mul hmul hrun hdone
    · exact h.remaining_div hmul (MulDivInstr.div_of_not_mul hop hmul) hrun hdone

end MulDivStage.OnTrack

theorem MulDivStage.remaining_le (s : MulDivStage) (i : MulDivInstr) : s.remaining i ≤ 33 := by
  unfold MulDivStage.remaining
  split
  · split <;> omega
  · split
    · exact Nat.zero_le _
    · split <;> omega

/-! ## Runs -/

section

variable {s : MulDivStage} {env : ℕ → StageCycle}

theorem onTrack_stateAt (h : s.OnTrack) (n : ℕ) : (mulDivMachine.stateAt s env n).OnTrack :=
  mulDivMachine.stateAt_invariant (C := fun _ _ => True) (fun _ _ hs _ => hs.next) h
    (fun _ => trivial) n

theorem onTrack_reset (product : BitVec 64) (registers : Word × Word) :
    (MulDivStage.reset product registers).OnTrack := ⟨Or.inl rfl, Or.inl rfl⟩

/-- **A result is written** within thirty-four cycles that are not lost. -/
theorem exists_written (h : s.OnTrack) {i : MulDivInstr} (hop : i.op.isSome = true) {n : ℕ}
    (hheld : (mulDivMachine.stateAt s env n).held = some i)
    (hruns : ∀ m, n ≤ m → (env m).isStalled = false ∧ (env m).flushed = false) :
    ∃ m, n ≤ m ∧ m ≤ n + 33 ∧ (mulDivMachine.stateAt s env m).held = some i
      ∧ (mulDivMachine.obsAt s env m).isSome = true := by
  suffices hwithin : ∀ d n, (mulDivMachine.stateAt s env n).held = some i →
      (∀ m, n ≤ m → (env m).isStalled = false ∧ (env m).flushed = false) →
      (mulDivMachine.stateAt s env n).remaining i ≤ d →
      ∃ m, n ≤ m ∧ m ≤ n + d ∧ (mulDivMachine.stateAt s env m).held = some i
        ∧ (mulDivMachine.obsAt s env m).isSome = true from
    hwithin 33 n hheld hruns (MulDivStage.remaining_le _ i)
  intro d
  induction d with
  | zero =>
    intro n hheld hruns hzero
    have hrun : (mulDivMachine.stateAt s env n).running (env n) = some i := by
      unfold MulDivStage.running
      rw [(hruns n (le_refl n)).1, (hruns n (le_refl n)).2]
      exact hheld
    rcases (onTrack_stateAt h n).written_or_remaining hop hrun with hw | ⟨-, hless⟩
    · exact ⟨n, le_refl n, le_refl n, hheld, hw⟩
    · exact absurd (Nat.lt_of_lt_of_le hless hzero) (Nat.not_lt_zero _)
  | succ d ih =>
    intro n hheld hruns hle
    have hrun : (mulDivMachine.stateAt s env n).running (env n) = some i := by
      unfold MulDivStage.running
      rw [(hruns n (le_refl n)).1, (hruns n (le_refl n)).2]
      exact hheld
    rcases (onTrack_stateAt h n).written_or_remaining hop hrun with hw | ⟨hnext, hless⟩
    · exact ⟨n, le_refl n, Nat.le_add_right n _, hheld, hw⟩
    · obtain ⟨m, hm, hmle, hrest⟩ := ih (n + 1) hnext (fun m hm => hruns m (Nat.le_of_succ_le hm))
        (Nat.le_of_lt_succ (Nat.lt_of_lt_of_le hless hle))
      exact ⟨m, Nat.le_of_succ_le hm, by omega, hrest⟩

end

/-- **The stage does an instruction as specified**, whatever came before and
comes in between: what it writes while the instruction is there is what is
specified, and it does write it once thirty-four cycles in a row are not lost. -/
structure MeetsSpec (op : MulDivOp) (rs1 rs2 : Word) : Prop where
  written : ∀ product registers env n v,
    (mulDivMachine.stateAt (MulDivStage.reset product registers) env n).held
        = some ⟨some op, rs1, rs2⟩ →
      mulDivMachine.obsAt (MulDivStage.reset product registers) env n = some v →
        v = op.spec rs1 rs2
  writes : ∀ product registers env n,
    (mulDivMachine.stateAt (MulDivStage.reset product registers) env n).held
        = some ⟨some op, rs1, rs2⟩ →
      (∀ m, n ≤ m → (env m).isStalled = false ∧ (env m).flushed = false) →
        ∃ m, n ≤ m ∧ m ≤ n + 33
          ∧ (mulDivMachine.stateAt (MulDivStage.reset product registers) env m).held
            = some ⟨some op, rs1, rs2⟩
          ∧ (mulDivMachine.obsAt (MulDivStage.reset product registers) env m).isSome = true

/-- **The multiplier and the divider are right for all operands but minus
`2 ^ 31` and a negative number for `MULH`.** -/
theorem mulDiv_meetsSpec_iff (op : MulDivOp) (rs1 rs2 : Word) :
    MeetsSpec op rs1 rs2 ↔ ¬ (op = .mulh ∧ rs1 = BitVec.intMin 32 ∧ rs2.msb = true) := by
  rw [← result_eq_spec_iff]
  constructor
  · intro h
    -- the instruction comes in after reset, and no cycle is lost
    have hheld : (mulDivMachine.stateAt (MulDivStage.reset 0 (0, 0))
        (fun _ => ⟨false, false, true, some ⟨some op, rs1, rs2⟩⟩) 1).held
          = some ⟨some op, rs1, rs2⟩ := rfl
    obtain ⟨m, -, -, hheld, hsome⟩ := h.writes 0 (0, 0) _ 1 hheld fun _ _ => ⟨rfl, rfl⟩
    obtain ⟨v, hv⟩ := Option.isSome_iff_exists.1 hsome
    rw [← h.written _ _ _ _ _ hheld hv]
    exact ((onTrack_stateAt (onTrack_reset 0 (0, 0)) m).written_eq hheld hv).symm
  · intro h
    refine ⟨fun product registers env n v hheld hv => ?_, fun product registers env n hheld hruns =>
      exists_written (onTrack_reset product registers) rfl hheld hruns⟩
    rw [(onTrack_stateAt (onTrack_reset product registers) n).written_eq hheld hv]
    exact h

/-- **`MULH` of minus `2 ^ 31` and minus one** is written as minus one, and not
as zero. -/
theorem mulh_intMin_not_meetsSpec :
    (MulDivInstr.mk (some .mulh) (BitVec.intMin 32) (-1)).result = -1
      ∧ MulDivOp.mulh.spec (BitVec.intMin 32) (-1) = 0
      ∧ ¬ MeetsSpec .mulh (BitVec.intMin 32) (-1) := by
  have hresult : (MulDivInstr.mk (some .mulh) (BitVec.intMin 32) (-1)).result = -1 := by
    decide +kernel
  have hspec : MulDivOp.mulh.spec (BitVec.intMin 32) (-1) = 0 := by decide
  refine ⟨hresult, hspec, fun h => ?_⟩
  have hheld : (mulDivMachine.stateAt (MulDivStage.reset 0 (0, 0))
      (fun _ => ⟨false, false, true, some ⟨some .mulh, BitVec.intMin 32, -1⟩⟩) 1).held
        = some ⟨some .mulh, BitVec.intMin 32, -1⟩ := rfl
  obtain ⟨m, -, -, hheld, hsome⟩ := h.writes 0 (0, 0) _ 1 hheld fun _ _ => ⟨rfl, rfl⟩
  obtain ⟨v, hv⟩ := Option.isSome_iff_exists.1 hsome
  have hwrong := (onTrack_stateAt (onTrack_reset 0 (0, 0)) m).written_eq hheld hv
  rw [h.written _ _ _ _ _ hheld hv, hspec, hresult] at hwrong
  exact absurd hwrong (by decide)

end Proteus
