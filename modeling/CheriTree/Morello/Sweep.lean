import CheriTree.Morello.IdentityStore
import Mathlib.Tactic.FinCases

/-!
# The sweep of the hypervisor

`regsweep.c`, as the build without `DEBUG` has it, and the save and restore of
`syncVectorHandler` around it. A call of EL1 saves the capability registers on
the stack of EL2; the sweep reads them from there, then a list of system
registers, then the memory of EL1 granule by granule, and at last the code
section itself, which is to hold no capability.

A capability overlaps where the test on the 64-bit sums says so. The test is
right as long as no sum wraps (`disjoint_of_check`).
-/

namespace Morello

/-! ## The registers of EL1 -/

/-- A capability register, `c0` to `c30`. -/
abbrev RegId := Fin 31

instance instNeZeroRegs : NeZero 31 := ⟨by decide⟩

/-- **The capability system registers that EL1 can read.** Its own `PCC` is in
`CELR_EL2` while the hypervisor runs. -/
inductive SysReg where
  | celrEL2
  | ddcEL1
  | cspEL1
  | celrEL1
  | ctpidrEL1
  | cvbarEL1
  | cspEL0
  | ddcEL0
  | ctpidrEL0
  | ctpidrroEL0
  | rddcEL0
  | rcspEL0
  | rctpidrEL0
  | cidEL0
deriving DecidableEq, Repr

/-- **What there is when EL1 calls**: its registers and its memory, and the
program counter capability the hypervisor runs with. -/
structure El1State where
  c : RegId → Capability
  sysReg : SysReg → Capability
  pccEL2 : Capability
  mem : Memory

/-! ## Saving and restoring -/

/-- The pairs of registers pushed, in order. -/
def savePairs : List (RegId × RegId) :=
  [(30, 29), (28, 29), (26, 27), (24, 25), (22, 23), (20, 21), (18, 19), (16, 17), (14, 15),
    (12, 13), (10, 11), (8, 9), (6, 7), (4, 5), (2, 3), (0, 1)]

/-- `STP`: the second register goes above the first. -/
def stp (c : RegId → Capability) (stack : List Capability) (p : RegId × RegId) : List Capability :=
  c p.1 :: c p.2 :: stack

/-- The stack when the handler is called. -/
def savedStack (c : RegId → Capability) : List Capability := savePairs.foldl (stp c) []

/-- The pairs of registers popped, in order. The first goes one register up,
since `c0` holds the result. -/
def restorePairs : List (RegId × RegId) :=
  [(1, 2), (2, 3), (4, 5), (6, 7), (8, 9), (10, 11), (12, 13), (14, 15), (16, 17), (18, 19),
    (20, 21), (22, 23), (24, 25), (26, 27), (28, 29), (30, 29)]

/-- `LDP`. -/
def ldp (s : (RegId → Capability) × List Capability) (p : RegId × RegId) :
    (RegId → Capability) × List Capability :=
  match s.2 with
  | a :: b :: stack => (Function.update (Function.update s.1 p.1 a) p.2 b, stack)
  | _ => s

/-- **The registers EL1 gets back**, from those the hypervisor left. -/
def restored (clobbered : RegId → Capability) (stack : List Capability) (result : Capability) :
    RegId → Capability :=
  (restorePairs.foldl ldp (Function.update clobbered 0 result, stack)).1

/-- The stack holds the registers in order, and `c29` once more. -/
theorem savedStack_eq (c : RegId → Capability) :
    savedStack c = (List.finRange 31).map c ++ [c 29] := rfl

/-- **What EL1 gets back**: the result in `c0`, the old `c0` in `c1`, and the
other registers as they were. -/
theorem restored_eq (clobbered c : RegId → Capability) (result : Capability) (r : RegId) :
    restored clobbered (savedStack c) result r
      = if r = 0 then result else if r = 1 then c 0 else c r := by
  fin_cases r <;> rfl

/-! ## Overlaps -/

/-- The end of a capability's bounds, as the source computes it: a 64-bit
sum. -/
def limit (c : Capability) : Word := c.base + cheriLengthGet c

/-- **`bounds_nonoverlap_check_twocap`**: zero where there is no overlap. -/
def boundsNonoverlapCheckTwocap (base1 limit1 base2 limit2 : Word) (capm : Capability) : ℤ :=
  let basem := capm.base
  let limitm := basem + cheriLengthGet capm
  if (limit1 ≤ basem ∨ base1 ≥ limitm) ∧ (limit2 ≤ basem ∨ base2 ≥ limitm) then 0 else -1

/-- `check_reg`, with the bounds of the two sections. -/
def checkReg (code data capReg : Capability) : ℤ :=
  if capReg.tag then
    if boundsNonoverlapCheckTwocap code.base (limit code) data.base (limit data) capReg ≠ 0 then -1
    else 0
  else 0

/-- The loop of `gpreg_sweep`: the first two registers are the sections
themselves. -/
def gpregLoop (code data : Capability) : ℕ → List Capability → ℤ
  | _, [] => 0
  | index, capReg :: rest =>
    if index < 31 then
      if index > 1 ∧ capReg.tag = true ∧ boundsNonoverlapCheckTwocap code.base (limit code)
          data.base (limit data) capReg ≠ 0 then
        -1
      else gpregLoop code data (index + 1) rest
    else 0

/-- `gpreg_sweep`. -/
def gpregSweep (code data : Capability) (cspReg : List Capability) : ℤ :=
  gpregLoop code data 0 cspReg

/-- **The system registers that are swept.** -/
def SysReg.swept : SysReg → Bool
  | .ddcEL1 | .celrEL2 | .cspEL1 | .celrEL1 | .ctpidrEL1 | .cvbarEL1 => true
  | _ => false

/-- `scrs_sweep`. -/
def scrsSweep (code data : Capability) (s : El1State) : ℤ :=
  let resultDdcEL1 := checkReg code data (s.sysReg .ddcEL1)
  let resultPcc := checkReg code data s.pccEL2
  let resultElrEL2 := checkReg code data (s.sysReg .celrEL2)
  let resultCspEL1 := checkReg code data (s.sysReg .cspEL1)
  let resultCelrEL1 := checkReg code data (s.sysReg .celrEL1)
  let resultCtpidrEL1 := checkReg code data (s.sysReg .ctpidrEL1)
  let resultCvbarEL1 := checkReg code data (s.sysReg .cvbarEL1)
  if resultDdcEL1 ≠ 0 ∨ resultPcc ≠ 0 ∨ resultElrEL2 ≠ 0 ∨ resultCspEL1 ≠ 0
      ∨ resultCelrEL1 ≠ 0 ∨ resultCtpidrEL1 ≠ 0 ∨ resultCvbarEL1 ≠ 0 then -1
  else 0

/-- `reg_sweep`. -/
def regSweep (code data : Capability) (cspReg : List Capability) (s : El1State) : ℤ :=
  if gpregSweep code data cspReg ≠ 0 ∨ scrsSweep code data s ≠ 0 then -1 else 0

/-- The loop of a memory sweep: `hit` says of an index whether the access there
traps, and whether what it finds ends the sweep. -/
def sweepLoop (memLen : ℕ) (hit : ℕ → Option Bool) (memIndex : ℕ) : Option ℤ :=
  if memIndex ≤ memLen - CAP_LEN then
    match hit memIndex with
    | none => none
    | some true => some (-1)
    | some false => sweepLoop memLen hit (memIndex + CAP_LEN)
  else some 0
termination_by memLen + CAP_LEN - memIndex
decreasing_by
  rw [CAP_LEN] at *
  omega

/-- `DDC` of the hypervisor: everything. -/
def rootCap : Capability where
  tag := true
  base := 0
  length := 2 ^ 64
  address := 0
  perms := ⟨true, true, true, true, true, true, true, true⟩
  otype := 0
  fits := fun _ => by decide

/-- **`MEM_EL1N_AT_EL2N`**: the gigabyte of EL1, from `0xC0000000` on. -/
def memEL1NAtEL2N : Capability :=
  cheriBoundsSetExact (cheriAddressSet rootCap 0xC0000000) 0x40000000

/-- `mem_sweep`. -/
def memSweep (m : Memory) (code data el1mem : Capability) : Option ℤ :=
  sweepLoop (cheriLengthGet el1mem).toNat (fun memIndex =>
    (m.loadCap el1mem (el1mem.address + BitVec.ofNat 64 memIndex)).map (fun cap =>
      cap.tag && decide (boundsNonoverlapCheckTwocap code.base (limit code) data.base (limit data)
        cap ≠ 0))) 0

/-- `codeCap_sweep`. A section that has no room for a capability is not looked
at. -/
def codeCapSweep (m : Memory) (code : Capability) : Option ℤ :=
  if CAP_LEN ≤ (cheriLengthGet code).toNat then
    sweepLoop (cheriLengthGet code).toNat (fun memIndex =>
      (m.loadCap code (code.address + BitVec.ofNat 64 memIndex)).map Capability.tag) 0
  else some 0

/-- **`sweep`.** All three are made, whatever they find. -/
def sweep (code data : Capability) (cspReg : List Capability)
    (el1mem : Capability) (s : El1State) : Option ℤ :=
  let resultReg := regSweep code data cspReg s
  match memSweep s.mem code data el1mem with
  | none => none
  | some resultMem =>
    match codeCapSweep s.mem code with
    | none => none
    | some resultCodeSweep =>
      some (if resultReg ≠ 0 ∨ resultMem ≠ 0 ∨ resultCodeSweep ≠ 0 then -1 else 0)

/-! ## What a sweep that passes says -/

/-- **The bounds reach the end of the address space**, where the sum is not
what it says. -/
def Wraps (c : Capability) : Prop := 2 ^ 64 ≤ c.base.toNat + c.length

theorem toNat_limit {c : Capability} (h : ¬ Wraps c) :
    (limit c).toNat = c.base.toNat + c.length := by
  unfold Wraps at h
  rw [limit, cheriLengthGet, BitVec.toNat_add, BitVec.toNat_ofNat]
  omega

/-- The test, on the numbers. -/
theorem check_eq_zero_iff {base1 limit1 base2 limit2 : Word} {capm : Capability} :
    boundsNonoverlapCheckTwocap base1 limit1 base2 limit2 capm = 0
      ↔ (limit1 ≤ capm.base ∨ base1 ≥ limit capm)
        ∧ (limit2 ≤ capm.base ∨ base2 ≥ limit capm) := by
  unfold boundsNonoverlapCheckTwocap
  simp only [limit]
  split
  · simp_all
  · simp_all

/-- One half of the test. -/
theorem not_meets_of_limits {c capm : Capability} (hc : ¬ Wraps c) (hm : ¬ Wraps capm)
    (h : limit c ≤ capm.base ∨ c.base ≥ limit capm) : ¬ capm.range.Meets c.range := by
  rw [BitVec.le_def, ge_iff_le, BitVec.le_def, toNat_limit hc, toNat_limit hm] at h
  rw [ByteRange.meets_iff]
  show ¬ (capm.base.toNat < c.base.toNat + c.length
    ∧ c.base.toNat < capm.base.toNat + capm.length ∧ _ ∧ _)
  omega

/-- **What passes the test is disjoint from both sections**, unless something
wraps. -/
theorem disjoint_of_check {code data capm : Capability} (hm : ¬ Wraps capm)
    (h : boundsNonoverlapCheckTwocap code.base (limit code) data.base (limit data) capm = 0) :
    (¬ Wraps code → ¬ capm.range.Meets code.range)
      ∧ (¬ Wraps data → ¬ capm.range.Meets data.range) := by
  obtain ⟨h1, h2⟩ := check_eq_zero_iff.1 h
  exact ⟨fun hc => not_meets_of_limits hc hm h1, fun hd => not_meets_of_limits hd hm h2⟩

/-- A register that passes. -/
theorem check_of_checkReg {code data capReg : Capability} (h : checkReg code data capReg = 0)
    (htag : capReg.tag = true) :
    boundsNonoverlapCheckTwocap code.base (limit code) data.base (limit data) capReg = 0 := by
  unfold checkReg at h
  rw [if_pos htag] at h
  by_contra hne
  rw [if_pos hne] at h
  exact absurd h (by decide)

/-- **The registers that pass**: all but the first two. -/
theorem check_of_gpregLoop {code data : Capability} {index : ℕ} {stack : List Capability}
    (h : gpregLoop code data index stack = 0) {k : ℕ} {cap : Capability}
    (hk : stack[k]? = some cap) (hlt : index + k < 31) (hgt : 1 < index + k)
    (htag : cap.tag = true) :
    boundsNonoverlapCheckTwocap code.base (limit code) data.base (limit data) cap = 0 := by
  induction stack generalizing index k with
  | nil => cases hk
  | cons capReg rest ih =>
    rw [gpregLoop, if_pos (by omega)] at h
    split at h
    · exact absurd h (by decide)
    · rename_i hpass
      cases k with
      | zero =>
        rw [List.getElem?_cons_zero, Option.some.injEq] at hk
        subst hk
        by_contra hne
        exact hpass ⟨by omega, htag, hne⟩
      | succ k =>
        rw [List.getElem?_cons_succ] at hk
        exact ih h hk (by omega) (by omega)

theorem check_of_gpregSweep {code data : Capability} {c : RegId → Capability}
    (h : gpregSweep code data (savedStack c) = 0) {r : RegId} (hr : 1 < r.val)
    (htag : (c r).tag = true) :
    boundsNonoverlapCheckTwocap code.base (limit code) data.base (limit data) (c r) = 0 := by
  refine check_of_gpregLoop (k := r.val) h ?_ (by omega) (by omega) htag
  rw [savedStack_eq, List.getElem?_append_left (by
    rw [List.length_map, List.length_finRange]
    exact r.isLt), List.getElem?_map, List.getElem?_eq_getElem (by
    rw [List.length_finRange]
    exact r.isLt), List.getElem_finRange]
  rfl

/-- **The system registers that pass**: those that are swept. -/
theorem check_of_scrsSweep {code data : Capability} {s : El1State}
    (h : scrsSweep code data s = 0) {r : SysReg} (hr : r.swept = true)
    (htag : (s.sysReg r).tag = true) :
    boundsNonoverlapCheckTwocap code.base (limit code) data.base (limit data) (s.sysReg r) = 0 := by
  unfold scrsSweep at h
  simp only [ite_eq_right_iff, reduceCtorEq, imp_false, not_or, not_not] at h
  refine check_of_checkReg ?_ htag
  cases r with
  | ddcEL1 => exact h.1
  | celrEL2 => exact h.2.2.1
  | cspEL1 => exact h.2.2.2.1
  | celrEL1 => exact h.2.2.2.2.1
  | ctpidrEL1 => exact h.2.2.2.2.2.1
  | cvbarEL1 => exact h.2.2.2.2.2.2
  | _ => exact absurd hr (by decide)

/-- **A memory sweep that passes** found nothing at any index. -/
theorem sweepLoop_eq_zero {memLen : ℕ} {hit : ℕ → Option Bool} (hlen : CAP_LEN ≤ memLen) {j : ℕ}
    (h : sweepLoop memLen hit (CAP_LEN * j) = some 0) {k : ℕ} (hjk : j ≤ k)
    (hk : CAP_LEN * k + CAP_LEN ≤ memLen) : hit (CAP_LEN * k) = some false := by
  obtain ⟨d, rfl⟩ := Nat.exists_eq_add_of_le hjk
  clear hjk
  induction d generalizing j with
  | zero =>
    rw [sweepLoop, if_pos (by rw [Nat.add_zero] at hk; omega)] at h
    split at h
    · cases h
    · exact absurd (Option.some.inj h) (by decide)
    · rename_i hhit
      exact hhit
  | succ d ih =>
    rw [CAP_LEN] at hk hlen
    rw [sweepLoop, if_pos (by rw [CAP_LEN]; omega)] at h
    split at h
    · cases h
    · exact absurd (Option.some.inj h) (by decide)
    · rw [← Nat.mul_succ] at h
      have := ih (j := j + 1) h (by rw [CAP_LEN]; omega)
      rw [Nat.add_right_comm] at this
      exact this

/-- A memory sweep that finds nothing passes. -/
theorem sweepLoop_of_forall {memLen : ℕ} {hit : ℕ → Option Bool} (hlen : CAP_LEN ≤ memLen)
    (h : ∀ k, CAP_LEN * k + CAP_LEN ≤ memLen → hit (CAP_LEN * k) = some false) (j : ℕ) :
    sweepLoop memLen hit (CAP_LEN * j) = some 0 := by
  obtain ⟨d, hd⟩ : ∃ d, memLen ≤ CAP_LEN * j + CAP_LEN * d :=
    ⟨memLen, by rw [CAP_LEN]; omega⟩
  induction d generalizing j with
  | zero =>
    rw [sweepLoop, if_neg]
    rw [CAP_LEN] at *
    omega
  | succ d ih =>
    rw [sweepLoop]
    split
    · rename_i hle
      rw [h j (by rw [CAP_LEN] at *; omega)]
      show sweepLoop memLen hit (CAP_LEN * (j + 1)) = some 0
      exact ih (j + 1) (by rw [CAP_LEN] at *; omega)
    · rfl

/-- The granules of EL1. -/
def El1Granule (g : ℕ) : Prop := 0xC0000000 / CAP_LEN ≤ g ∧ g < 0x100000000 / CAP_LEN

instance (g : ℕ) : Decidable (El1Granule g) := inferInstanceAs (Decidable (_ ∧ _))

section

variable {m : Memory} {code data : Capability}

/-- The load of a granule of EL1. -/
theorem loadCap_memEL1NAtEL2N (m : Memory) {k : ℕ} (hk : CAP_LEN * k + CAP_LEN ≤ 0x40000000) :
    m.loadCap memEL1NAtEL2N (memEL1NAtEL2N.address + BitVec.ofNat 64 (CAP_LEN * k))
      = some (m.cap (0xC000000 + k)) := by
  have haddr : (memEL1NAtEL2N.address + BitVec.ofNat 64 (CAP_LEN * k)).toNat
      = CAP_LEN * (0xC000000 + k) := by
    show ((0xC0000000 : Word) + _).toNat = _
    rw [BitVec.toNat_add, BitVec.toNat_ofNat]
    show (0xC0000000 + _) % _ = _
    rw [CAP_LEN] at *
    omega
  unfold Memory.loadCap
  rw [if_pos, haddr, Nat.mul_div_cancel_left _ (by decide)]
  · rfl
  · refine ⟨by decide, by decide, by decide, ?_, ?_⟩
    · unfold Capability.InBounds
      rw [haddr]
      show 0xC0000000 ≤ _ ∧ _ ≤ 0xC0000000 + 0x40000000
      rw [CAP_LEN] at *
      omega
    · rw [haddr]
      exact Nat.mul_mod_right _ _

/-- **The memory that passes**: every granule of EL1. -/
theorem check_of_memSweep (h : memSweep m code data memEL1NAtEL2N = some 0) {g : ℕ}
    (hg : El1Granule g) (htag : (m.cap g).tag = true) :
    boundsNonoverlapCheckTwocap code.base (limit code) data.base (limit data) (m.cap g) = 0 := by
  obtain ⟨hlo, hhi⟩ := hg
  rw [CAP_LEN] at hlo hhi
  have hlen : (cheriLengthGet memEL1NAtEL2N).toNat = 0x40000000 := by decide
  have hk : CAP_LEN * (g - 0xC000000) + CAP_LEN ≤ 0x40000000 := by
    rw [CAP_LEN]
    omega
  have hhit := sweepLoop_eq_zero (j := 0) (k := g - 0xC000000) (by rw [hlen, CAP_LEN]; omega) h
    (Nat.zero_le _) (by rw [hlen]; exact hk)
  rw [loadCap_memEL1NAtEL2N m hk, Nat.add_sub_cancel' (by omega), Option.map_some,
    Option.some.injEq, Bool.and_eq_false_iff, htag, decide_eq_false_iff_not, not_not] at hhit
  exact hhit.resolve_left (by decide)

/-- The loads of a code sweep that passes. -/
theorem loads_of_codeCapSweep (h : codeCapSweep m code = some 0) (hlt : code.length < 2 ^ 64)
    {k : ℕ} (hk : CAP_LEN * k + CAP_LEN ≤ code.length) :
    code.tag = true ∧ code.InBounds (code.address + BitVec.ofNat 64 (CAP_LEN * k)) CAP_LEN
      ∧ (code.address + BitVec.ofNat 64 (CAP_LEN * k)).toNat % CAP_LEN = 0
      ∧ (code.perms.loadCap = true →
        (m.cap ((code.address + BitVec.ofNat 64 (CAP_LEN * k)).toNat / CAP_LEN)).tag = false) := by
  have hlen : (cheriLengthGet code).toNat = code.length := by
    rw [cheriLengthGet, BitVec.toNat_ofNat]
    omega
  unfold codeCapSweep at h
  rw [hlen, if_pos (by omega)] at h
  have hhit := sweepLoop_eq_zero (j := 0) (by omega) h (Nat.zero_le k) hk
  rw [Option.map_eq_some_iff] at hhit
  obtain ⟨cap, hload, htag⟩ := hhit
  unfold Memory.loadCap at hload
  split at hload
  · rename_i hcond
    refine ⟨hcond.1, hcond.2.2.2.1, hcond.2.2.2.2, fun hperm => ?_⟩
    rw [← Option.some.inj hload, Capability.tagIf_tag, hperm, Bool.true_and] at htag
    exact htag
  · cases hload

/-- The loads go up from the address, granule by granule. -/
theorem address_of_codeCapSweep (h : codeCapSweep m code = some 0)
    (hlt : code.length < 2 ^ 64) {k : ℕ} (hk : CAP_LEN * k + CAP_LEN ≤ code.length) :
    (code.address + BitVec.ofNat 64 (CAP_LEN * k)).toNat = code.address.toNat + CAP_LEN * k := by
  have hfits := code.fits (loads_of_codeCapSweep h hlt hk).1
  have ha := code.address.isLt
  induction k with
  | zero =>
    show (code.address + 0#64).toNat = _
    rw [BitVec.add_zero, Nat.mul_zero, Nat.add_zero]
  | succ k ih =>
    rw [CAP_LEN] at hk
    have hprev := ih (by rw [CAP_LEN]; omega)
    obtain ⟨-, ⟨-, hb⟩, -, -⟩ := loads_of_codeCapSweep h hlt (k := k) (by rw [CAP_LEN]; omega)
    obtain ⟨-, ⟨hb', hb''⟩, -, -⟩ :=
      loads_of_codeCapSweep h hlt (k := k + 1) (by rw [CAP_LEN]; omega)
    rw [hprev] at hb
    rw [BitVec.toNat_add, BitVec.toNat_ofNat] at hb' hb'' ⊢
    rw [CAP_LEN] at *
    omega

/-- **The code section that passes**: no granule inside it holds a tag, as far
as its capability may load one. -/
theorem tag_of_codeCapSweep (h : codeCapSweep m code = some 0) (hlt : code.length < 2 ^ 64)
    (hperm : code.perms.loadCap = true) {g : ℕ}
    (hg : (ByteRange.mk (CAP_LEN * g) CAP_LEN).Within code.range) : (m.cap g).tag = false := by
  have hin : code.base.toNat ≤ CAP_LEN * g
      ∧ CAP_LEN * g + CAP_LEN ≤ code.base.toNat + code.length := by
    rcases ByteRange.within_iff.1 hg with h0 | h0
    · exact absurd h0 (show CAP_LEN ≠ 0 by decide)
    · exact h0
  -- the first load and the last one hold the address between the bounds
  have hlen : CAP_LEN ≤ code.length := by omega
  have hlast : CAP_LEN * (code.length / CAP_LEN - 1) + CAP_LEN ≤ code.length := by
    rw [CAP_LEN] at *
    omega
  obtain ⟨-, ⟨hfirst, -⟩, hal, -⟩ :=
    loads_of_codeCapSweep h hlt (k := 0) (by rw [CAP_LEN] at *; omega)
  obtain ⟨-, ⟨-, htop⟩, -, -⟩ := loads_of_codeCapSweep h hlt hlast
  rw [address_of_codeCapSweep h hlt (k := 0) (by rw [CAP_LEN] at *; omega)] at hfirst hal
  rw [address_of_codeCapSweep h hlt hlast] at htop
  have hk : CAP_LEN * (g - code.address.toNat / CAP_LEN) + CAP_LEN ≤ code.length := by
    rw [CAP_LEN] at *
    omega
  have hload := (loads_of_codeCapSweep h hlt hk).2.2.2 hperm
  rw [address_of_codeCapSweep h hlt hk] at hload
  have hgran : (code.address.toNat + CAP_LEN * (g - code.address.toNat / CAP_LEN)) / CAP_LEN
      = g := by
    rw [CAP_LEN] at *
    omega
  rw [hgran] at hload
  exact hload

/-- **A sweep that passes** passes in all its parts. -/
theorem sweep_eq_zero {cspReg : List Capability} {el1mem : Capability} {s : El1State}
    (h : sweep code data cspReg el1mem s = some 0) :
    gpregSweep code data cspReg = 0 ∧ scrsSweep code data s = 0
      ∧ memSweep s.mem code data el1mem = some 0 ∧ codeCapSweep s.mem code = some 0 := by
  unfold sweep at h
  rcases hm : memSweep s.mem code data el1mem with _ | rm
  · rw [hm] at h
    cases h
  · rcases hc : codeCapSweep s.mem code with _ | rc
    · rw [hm, hc] at h
      cases h
    · rw [hm, hc] at h
      have hall := Option.some.inj h
      rw [ite_eq_right_iff] at hall
      have hno : ¬ (regSweep code data cspReg s ≠ 0 ∨ rm ≠ 0 ∨ rc ≠ 0) :=
        fun hor => absurd (hall hor) (by decide)
      rw [not_or, not_or, not_not, not_not, not_not] at hno
      obtain ⟨hreg, rfl, rfl⟩ := hno
      unfold regSweep at hreg
      rw [ite_eq_right_iff] at hreg
      have hno' : ¬ (gpregSweep code data cspReg ≠ 0 ∨ scrsSweep code data s ≠ 0) :=
        fun hor => absurd (hreg hor) (by decide)
      rw [not_or, not_not, not_not] at hno'
      exact ⟨hno'.1, hno'.2, rfl, rfl⟩

/-- And one whose parts pass passes. -/
theorem sweep_of_parts {cspReg : List Capability} {el1mem : Capability} {s : El1State}
    (hreg : regSweep code data cspReg s = 0) (hmem : memSweep s.mem code data el1mem = some 0)
    (hcode : codeCapSweep s.mem code = some 0) : sweep code data cspReg el1mem s = some 0 := by
  unfold sweep
  simp only [hreg, hmem, hcode]
  rfl

end

end Morello
