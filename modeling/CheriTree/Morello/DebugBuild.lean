import CheriTree.Morello.CallsReturn
import CheriTree.Morello.OverlapTest

/-!
# The sweep with `DEBUG`

`regsweep.c` with `DEBUG` defined. Where the release build leaves a loop at the
first thing it finds, this one goes on: it counts what it finds, or, for the
general registers, writes down what each of them gave, prints that, and returns
zero. So the sweep of the general registers finds nothing in this build, and
`sweep` is only as good as its other parts.

The other loops come to the same answer where they come to one. The walk over a
code section does not always: it goes up from the address of the capability and
may leave its bounds, and then a capability found on the way ends the release
build's walk, and this build's not.
-/

namespace Morello

/-! ## The build -/

/-- What `gpreg_sweep` writes down for each register. -/
def gpregResultDG (code data : Capability) : ℕ → List Capability → List ℤ
  | _, [] => []
  | index, capReg :: rest =>
    if index < 31 then
      (if index > 1 ∧ capReg.tag = true ∧ boundsNonoverlapCheckTwocap code.base (limit code)
          data.base (limit data) capReg ≠ 0 then
        -1
      else 0) :: gpregResultDG code data (index + 1) rest
    else []

/-- `gpreg_sweep`: what it prints, and what it returns. -/
def gpregSweepDG (code data : Capability) (cspReg : List Capability) : List ℤ × ℤ :=
  (gpregResultDG code data 0 cspReg, 0)

/-- `reg_sweep`. -/
def regSweepDG (code data : Capability) (cspReg : List Capability) (s : El1State) : ℤ :=
  if (gpregSweepDG code data cspReg).2 ≠ 0 ∨ scrsSweep code data s ≠ 0 then -1 else 0

/-- The loop of a memory sweep, with the counter of what it finds. -/
def sweepLoopDG (memLen : ℕ) (hit : ℕ → Option Bool) (memIndex : ℕ) (counter : Word) :
    Option Word :=
  if memIndex ≤ memLen - CAP_LEN then
    match hit memIndex with
    | none => none
    | some true => sweepLoopDG memLen hit (memIndex + CAP_LEN) (counter + 1)
    | some false => sweepLoopDG memLen hit (memIndex + CAP_LEN) counter
  else some counter
termination_by memLen + CAP_LEN - memIndex
decreasing_by
  all_goals
    rw [CAP_LEN] at *
    omega

/-- What the sweep returns of a counter. -/
def counterVerdict (counter : Word) : ℤ := if counter = 0 then 0 else -1

/-- `mem_sweep`. -/
def memSweepDG (m : Memory) (code data el1mem : Capability) : Option ℤ :=
  (sweepLoopDG (cheriLengthGet el1mem).toNat (fun memIndex =>
    (m.loadCap el1mem (el1mem.address + BitVec.ofNat 64 memIndex)).map (fun cap =>
      cap.tag && decide (boundsNonoverlapCheckTwocap code.base (limit code) data.base (limit data)
        cap ≠ 0))) 0 0).map counterVerdict

/-- `codeCap_sweep`. -/
def codeCapSweepDG (m : Memory) (code : Capability) : Option ℤ :=
  if CAP_LEN ≤ (cheriLengthGet code).toNat then
    (sweepLoopDG (cheriLengthGet code).toNat (fun memIndex =>
      (m.loadCap code (code.address + BitVec.ofNat 64 memIndex)).map Capability.tag) 0 0).map
        counterVerdict
  else some 0

/-- `sweep`. -/
def sweepDG (code data : Capability) (cspReg : List Capability)
    (el1mem : Capability) (s : El1State) : Option ℤ :=
  let resultReg := regSweepDG code data cspReg s
  match memSweepDG s.mem code data el1mem with
  | none => none
  | some resultMem =>
    match codeCapSweepDG s.mem code with
    | none => none
    | some resultCodeSweep =>
      some (if resultReg ≠ 0 ∨ resultMem ≠ 0 ∨ resultCodeSweep ≠ 0 then -1 else 0)

/-! ## One verdict -/

/-- **The two builds reach the same verdict**, of the registers and the memory
of EL1, for two sections. `none` is a sweep that does not return. -/
structure SameVerdict (el1 : El1State) (code data : Capability) : Prop where
  gpreg : (gpregSweepDG code data (savedStack el1.c)).2 = gpregSweep code data (savedStack el1.c)
  mem : memSweepDG el1.mem code data memEL1NAtEL2N = memSweep el1.mem code data memEL1NAtEL2N
  codeCap : codeCapSweepDG el1.mem code = codeCapSweep el1.mem code
  sweep : sweepDG code data (savedStack el1.c) memEL1NAtEL2N el1
    = Morello.sweep code data (savedStack el1.c) memEL1NAtEL2N el1

/-- A general register that the sweep is to find. -/
def RegisterOverlaps (el1 : El1State) (code data : Capability) : Prop :=
  ∃ r : RegId, 1 < r.val ∧ (el1.c r).tag = true
    ∧ boundsNonoverlapCheckTwocap code.base (limit code) data.base (limit data) (el1.c r) ≠ 0

/-- **A capability on the way out**: the walk over the code section leaves its
bounds, and there is a capability on the way. -/
structure FoundOnTheWayOut (m : Memory) (c : Capability) : Prop where
  tag : c.tag = true
  unsealed : c.isSealed = false
  load : c.perms.load = true
  loadCap : c.perms.loadCap = true
  aligned : c.address.toNat % CAP_LEN = 0
  starts : c.base.toNat ≤ c.address.toNat
  leaves : c.base.toNat + c.length
    < c.address.toNat + CAP_LEN * ((cheriLengthGet c).toNat / CAP_LEN)
  /-- The whole address space cannot be left. -/
  bounded : c.length ≠ 2 ^ 64
  found : ∃ k, c.address.toNat + CAP_LEN * k + CAP_LEN ≤ c.base.toNat + c.length
    ∧ (m.cap (c.address.toNat / CAP_LEN + k)).tag = true

/-! ## The loops -/

section

variable {memLen : ℕ} {hit : ℕ → Option Bool}

/-- **A walk all of whose loads succeed** gives the count of what it finds, and
the release build says whether that is zero. -/
theorem sweepLoopDG_of_forall (hlen : CAP_LEN ≤ memLen) (j : ℕ) (counter : Word)
    (h : ∀ k, j ≤ k → CAP_LEN * k + CAP_LEN ≤ memLen → (hit (CAP_LEN * k)).isSome = true) :
    ∃ n, CAP_LEN * n ≤ memLen - CAP_LEN * j
      ∧ sweepLoopDG memLen hit (CAP_LEN * j) counter = some (counter + BitVec.ofNat 64 n)
      ∧ sweepLoop memLen hit (CAP_LEN * j) = some (if n = 0 then 0 else -1) := by
  obtain ⟨d, hd⟩ : ∃ d, memLen ≤ CAP_LEN * j + CAP_LEN * d :=
    ⟨memLen, by rw [CAP_LEN]; omega⟩
  induction d generalizing j counter with
  | zero =>
    have hpast : ¬ CAP_LEN * j ≤ memLen - CAP_LEN := by
      rw [CAP_LEN] at *
      omega
    refine ⟨0, Nat.zero_le _, ?_, ?_⟩
    · rw [sweepLoopDG, if_neg hpast]
      exact congrArg some (BitVec.add_zero counter).symm
    · rw [sweepLoop, if_neg hpast]
      rfl
  | succ d ih =>
    by_cases hin : CAP_LEN * j ≤ memLen - CAP_LEN
    · have hnext : CAP_LEN * j + CAP_LEN = CAP_LEN * (j + 1) := (Nat.mul_succ _ _).symm
      have hroom : CAP_LEN * j + CAP_LEN ≤ memLen := by
        rw [CAP_LEN] at *
        omega
      have hrest := fun counter => ih (j + 1) counter (fun k hjk => h k (by omega))
        (by rw [CAP_LEN] at *; omega)
      obtain ⟨found, hfound⟩ := Option.isSome_iff_exists.1 (h j (le_refl j) hroom)
      cases found with
      | true =>
        obtain ⟨n, hn, hdg, -⟩ := hrest (counter + 1)
        refine ⟨n + 1, ?_, ?_, ?_⟩
        · rw [CAP_LEN] at *
          omega
        · rw [sweepLoopDG, if_pos hin, hfound, hnext]
          simp only
          rw [hdg, Nat.add_comm n 1, BitVec.ofNat_add, BitVec.add_assoc]
          rfl
        · rw [sweepLoop, if_pos hin, hfound]
          rfl
      | false =>
        obtain ⟨n, hn, hdg, hrel⟩ := hrest counter
        refine ⟨n, ?_, ?_, ?_⟩
        · rw [CAP_LEN] at *
          omega
        · rw [sweepLoopDG, if_pos hin, hfound, hnext]
          exact hdg
        · rw [sweepLoop, if_pos hin, hfound, hnext]
          exact hrel
    · refine ⟨0, Nat.zero_le _, ?_, ?_⟩
      · rw [sweepLoopDG, if_neg hin]
        exact congrArg some (BitVec.add_zero counter).symm
      · rw [sweepLoop, if_neg hin]
        rfl

/-- A load that fails is come to, whatever was found before. -/
theorem sweepLoopDG_of_none (hlen : CAP_LEN ≤ memLen) {j k : ℕ} (hjk : j ≤ k)
    (hk : CAP_LEN * k + CAP_LEN ≤ memLen) (hnone : hit (CAP_LEN * k) = none) (counter : Word) :
    sweepLoopDG memLen hit (CAP_LEN * j) counter = none := by
  obtain ⟨d, rfl⟩ := Nat.exists_eq_add_of_le hjk
  clear hjk
  induction d generalizing j counter with
  | zero =>
    rw [sweepLoopDG, if_pos (by rw [CAP_LEN] at *; omega)]
    rw [Nat.add_zero] at hnone
    rw [hnone]
  | succ d ih =>
    rw [sweepLoopDG, if_pos (by rw [CAP_LEN] at *; omega)]
    have hstep : CAP_LEN * j + CAP_LEN = CAP_LEN * (j + 1) := (Nat.mul_succ _ _).symm
    have hindex : j + 1 + d = j + (d + 1) := by omega
    have hrest := fun counter : Word => ih counter (hindex ▸ hk) (hindex ▸ hnone)
    split
    · rfl
    · rw [hstep]
      exact hrest _
    · rw [hstep]
      exact hrest _

/-- **The two builds say the same of a walk** where each of its loads
succeeds. -/
theorem sweepLoopDG_verdict (hlen : CAP_LEN ≤ memLen) (hlt : memLen < 2 ^ 64)
    (h : ∀ k, CAP_LEN * k + CAP_LEN ≤ memLen → (hit (CAP_LEN * k)).isSome = true) :
    (sweepLoopDG memLen hit 0 0).map counterVerdict = sweepLoop memLen hit 0 := by
  obtain ⟨n, hn, hdg, hrel⟩ := sweepLoopDG_of_forall hlen 0 0 (fun k _ => h k)
  rw [Nat.mul_zero] at hdg hrel hn
  rw [hdg, hrel, Option.map_some, show (0 : Word) + BitVec.ofNat 64 n = BitVec.ofNat 64 n from
    BitVec.zero_add _, counterVerdict]
  -- as many granules as there are do not bring the counter round to zero
  have hzero : BitVec.ofNat 64 n = 0 ↔ n = 0 := by
    rw [← BitVec.toNat_inj, BitVec.toNat_ofNat]
    show n % 2 ^ 64 = 0 ↔ _
    rw [CAP_LEN] at hn
    omega
  simp only [hzero]

end

/-! ## The sweeps -/

section

variable {m : Memory} {code data : Capability}

theorem memSweepDG_eq (m : Memory) (code data : Capability) :
    memSweepDG m code data memEL1NAtEL2N = memSweep m code data memEL1NAtEL2N := by
  have hlen : (cheriLengthGet memEL1NAtEL2N).toNat = 0x40000000 := by decide
  unfold memSweepDG memSweep
  refine sweepLoopDG_verdict (by rw [hlen, CAP_LEN]; omega) (by rw [hlen]; omega) fun k hk => ?_
  rw [hlen] at hk
  simp only [loadCap_memEL1NAtEL2N m hk, Option.map_some, Option.isSome_some]

/-- **Each granule can be loaded** of a walk that has somewhere to start and
does not leave the bounds. -/
theorem loads_of_stays {c : Capability} (htag : c.tag = true) (hseal : c.isSealed = false)
    (hload : c.perms.load = true) (hal : c.address.toNat % CAP_LEN = 0)
    (hbase : c.base.toNat ≤ c.address.toNat)
    (hstays : c.length = 2 ^ 64 ∨ c.address.toNat + CAP_LEN * ((cheriLengthGet c).toNat / CAP_LEN)
      ≤ c.base.toNat + c.length) {k : ℕ} (hk : CAP_LEN * k + CAP_LEN ≤ (cheriLengthGet c).toNat) :
    (m.loadCap c (c.address + BitVec.ofNat 64 (CAP_LEN * k))).isSome = true := by
  refine loadCap_isSome_iff.2 ⟨htag, hseal, hload, ?_, walk_mod hal k⟩
  rcases hstays with hwhole | hin
  · have hfits := c.fits htag
    have hmod := walk_mod hal k
    have hlt := (c.address + BitVec.ofNat 64 (CAP_LEN * k)).isLt
    unfold Capability.InBounds
    rw [CAP_LEN] at *
    omega
  · refine inBounds_walk htag hbase ?_
    rw [CAP_LEN] at *
    omega

/-- **A walk on its way out** comes to a granule that cannot be loaded. -/
theorem FoundOnTheWayOut.stops (h : FoundOnTheWayOut m code) :
    ∃ k, CAP_LEN * k + CAP_LEN ≤ (cheriLengthGet code).toNat
      ∧ m.loadCap code (code.address + BitVec.ofNat 64 (CAP_LEN * k)) = none := by
  have hfits := code.fits h.tag
  have hstarts := h.starts
  have hleaves := h.leaves
  obtain ⟨j, hj, -⟩ := h.found
  have hbounded := h.bounded
  -- the first granule past the bounds
  refine ⟨(code.base.toNat + code.length - code.address.toNat) / CAP_LEN, ?_, ?_⟩
  · rw [CAP_LEN] at *
    omega
  · refine Option.not_isSome_iff_eq_none.1 fun hsome => ?_
    have hin := (loadCap_isSome_iff.1 hsome).2.2.2.1
    unfold Capability.InBounds at hin
    rw [BitVec.toNat_add, BitVec.toNat_ofNat] at hin
    rw [CAP_LEN] at *
    omega

/-- **The release build comes back from a walk that stops** only with what it
found on the way. -/
theorem codeWalkStays_iff_found {k : ℕ}
    (hk : CAP_LEN * k + CAP_LEN ≤ (cheriLengthGet code).toNat)
    (hnone : m.loadCap code (code.address + BitVec.ofNat 64 (CAP_LEN * k)) = none) :
    CodeWalkStays m code ↔ FoundOnTheWayOut m code := by
  have hlen : ¬ (cheriLengthGet code).toNat < CAP_LEN := by
    rw [CAP_LEN] at *
    omega
  have hstops : ¬ (m.loadCap code (code.address + BitVec.ofNat 64 (CAP_LEN * k))).isSome = true :=
    Option.not_isSome_iff_eq_none.2 hnone
  unfold CodeWalkStays
  rw [or_iff_right hlen]
  constructor
  · rintro ⟨htag, hseal, hload, hal, hbase, hcases⟩
    have hout : ¬ (code.length = 2 ^ 64 ∨ code.address.toNat
        + CAP_LEN * ((cheriLengthGet code).toNat / CAP_LEN) ≤ code.base.toNat + code.length) :=
      fun hstays => hstops (loads_of_stays htag hseal hload hal hbase hstays hk)
    rw [← or_assoc, or_iff_right hout] at hcases
    rw [not_or, Nat.not_le] at hout
    obtain ⟨j, hj, hperm, hfound⟩ := hcases
    exact ⟨htag, hseal, hload, hperm, hal, hbase, hout.2, hout.1, j, hj, hfound⟩
  · intro h
    obtain ⟨j, hj, hfound⟩ := h.found
    exact ⟨h.tag, h.unsealed, h.load, h.aligned, h.starts,
      Or.inr (Or.inr ⟨j, hj, h.loadCap, hfound⟩)⟩

/-- **The walks over a code section differ** where there is a capability on the
way out of it, and nowhere else. -/
theorem codeCapSweepDG_eq_iff :
    codeCapSweepDG m code = codeCapSweep m code ↔ ¬ FoundOnTheWayOut m code := by
  by_cases hlen : CAP_LEN ≤ (cheriLengthGet code).toNat
  · have hdg : codeCapSweepDG m code = (sweepLoopDG (cheriLengthGet code).toNat (fun memIndex =>
        (m.loadCap code (code.address + BitVec.ofNat 64 memIndex)).map Capability.tag) 0 0).map
          counterVerdict := if_pos hlen
    by_cases hall : ∀ k, CAP_LEN * k + CAP_LEN ≤ (cheriLengthGet code).toNat →
        (m.loadCap code (code.address + BitVec.ofNat 64 (CAP_LEN * k))).isSome = true
    · -- all of the walk is made, in either build
      have hrel : codeCapSweep m code = sweepLoop (cheriLengthGet code).toNat (fun memIndex =>
          (m.loadCap code (code.address + BitVec.ofNat 64 memIndex)).map Capability.tag) 0 :=
        if_pos hlen
      rw [hdg, hrel, sweepLoopDG_verdict hlen (cheriLengthGet code).isLt (fun k hk => by
        rw [Option.isSome_map]
        exact hall k hk)]
      refine iff_of_true rfl fun hout => ?_
      obtain ⟨k, hk, hnone⟩ := hout.stops
      have hsome := hall k hk
      rw [hnone] at hsome
      exact absurd hsome (by decide)
    · obtain ⟨k, hk⟩ := not_forall.1 hall
      obtain ⟨hk, hstops⟩ := Classical.not_imp.1 hk
      have hnone := Option.not_isSome_iff_eq_none.1 hstops
      rw [hdg, ← Nat.mul_zero CAP_LEN, sweepLoopDG_of_none hlen (Nat.zero_le k) hk
        (by rw [hnone]; rfl), Option.map_none, ← codeWalkStays_iff_found hk hnone,
        ← codeCapSweep_isSome_iff, Option.not_isSome_iff_eq_none]
      exact eq_comm
  · have hdg : codeCapSweepDG m code = some 0 := if_neg hlen
    have hrel : codeCapSweep m code = some 0 := if_neg hlen
    rw [hdg, hrel]
    refine iff_of_true rfl fun hout => ?_
    obtain ⟨k, hk, -⟩ := hout.stops
    rw [CAP_LEN] at *
    omega

-- a code section read from its second granule on
example : FoundOnTheWayOut ⟨fun _ => 0, fun _ => rootCap⟩ { plainCode with address := 0x1010 } :=
  ⟨rfl, rfl, rfl, rfl, by decide, by decide, by decide, by decide, 0, by decide, rfl⟩

/-! ## The registers -/

/-- A list of registers none of which is to be found. -/
theorem gpregLoop_of_check {index : ℕ} {stack : List Capability}
    (h : ∀ k cap, stack[k]? = some cap → 1 < index + k → index + k < 31 → cap.tag = true →
      boundsNonoverlapCheckTwocap code.base (limit code) data.base (limit data) cap = 0) :
    gpregLoop code data index stack = 0 := by
  induction stack generalizing index with
  | nil => rfl
  | cons capReg rest ih =>
    rw [gpregLoop]
    split
    · rename_i hindex
      rw [if_neg fun hbad => hbad.2.2 (h 0 capReg rfl hbad.1 hindex hbad.2.1)]
      refine ih fun k cap hk hgt hlt => h (k + 1) cap hk ?_ ?_
      · omega
      · omega
    · rfl

/-- **The release build passes** registers none of which overlaps. -/
theorem gpregSweep_eq_zero_iff {el1 : El1State} :
    gpregSweep code data (savedStack el1.c) = 0 ↔ ¬ RegisterOverlaps el1 code data := by
  constructor
  · rintro h ⟨r, hr, htag, hbad⟩
    exact hbad (check_of_gpregSweep h hr htag)
  · intro h
    refine gpregLoop_of_check fun k cap hk hgt hlt htag => ?_
    rw [Nat.zero_add] at hgt hlt
    rw [savedStack_eq, List.getElem?_append_left (by
      rw [List.length_map, List.length_finRange]
      exact hlt), List.getElem?_map, List.getElem?_eq_getElem (by
      rw [List.length_finRange]
      exact hlt), List.getElem_finRange] at hk
    obtain rfl := Option.some.inj hk
    by_contra hbad
    exact h ⟨_, hgt, htag, hbad⟩

/-- **The whole sweep** gives the same where its parts do. -/
theorem sweepDG_eq {el1 : El1State} {cspReg : List Capability}
    (hgpreg : (gpregSweepDG code data cspReg).2 = gpregSweep code data cspReg)
    (hcode : codeCapSweepDG el1.mem code = codeCapSweep el1.mem code) :
    sweepDG code data cspReg memEL1NAtEL2N el1 = sweep code data cspReg memEL1NAtEL2N el1 := by
  unfold sweepDG regSweepDG
  rw [hgpreg, hcode, memSweepDG_eq]
  rfl

end

/-- **The two builds reach the same verdict exactly where the release build
passes the registers and the walk over the code section finds nothing on a way
out of it.** -/
theorem sameVerdict_iff (el1 : El1State) (code data : Capability) :
    SameVerdict el1 code data ↔
      ¬ RegisterOverlaps el1 code data ∧ ¬ FoundOnTheWayOut el1.mem code := by
  rw [← gpregSweep_eq_zero_iff, ← codeCapSweepDG_eq_iff]
  constructor
  · exact fun h => ⟨h.gpreg.symm, h.codeCap⟩
  · rintro ⟨hgpreg, hcode⟩
    exact ⟨hgpreg.symm, memSweepDG_eq _ _ _, hcode, sweepDG_eq hgpreg.symm hcode⟩

/-- EL1 with the whole address space in every register. -/
def rootRegisters : El1State where
  c := fun _ => rootCap
  sysReg := fun _ => invalidCap
  pccEL2 := invalidCap
  mem := ⟨fun _ => 0, fun _ => invalidCap⟩

/-- **The `DEBUG` build passes registers with the whole address space**, and the
release build does not. -/
theorem rootRegisters_not_sameVerdict :
    (gpregSweepDG plainCode plainData (savedStack rootRegisters.c)).2 = 0
      ∧ gpregSweep plainCode plainData (savedStack rootRegisters.c) = -1
      ∧ ¬ SameVerdict rootRegisters plainCode plainData := by
  have hrelease : gpregSweep plainCode plainData (savedStack rootRegisters.c) = -1 := by decide
  refine ⟨rfl, hrelease, fun h => ?_⟩
  have hsame : 0 = gpregSweep plainCode plainData (savedStack rootRegisters.c) := h.gpreg
  rw [hrelease] at hsame
  exact absurd hsame (by decide)

end Morello
