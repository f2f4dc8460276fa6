import CheriTree.Proteus.TrapData

/-!
# Traps of an enclave that is already interrupted

What the first half of the trap handler leaves at its jump to the untrusted
handler, for every state it starts in. An enclave that is interrupted again
before it was resumed has its place to resume in the trap data, and the comment
of the text says what is to happen: the state is cleared, nothing is saved, and
the untrusted handler is entered.

It is not quite that. The branch joins the common path in front of the store
of the place to resume, so the old one is overwritten; and what was swapped
into the scratch register for the time being is not swapped back, so the first
scratch capability of the interrupted context stays there.
-/

namespace Proteus

/-! ## States and what is kept of them -/

namespace TrapState

variable (s : TrapState) (r : RegId) (v : Capability) (w : Word) (m : TaggedMemory)

@[simp] theorem setX_c : (s.setX r w).c = s.c := rfl

@[simp] theorem setX_mem : (s.setX r w).mem = s.mem := rfl

@[simp] theorem setC_x : (s.setC r v).x = s.x := rfl

@[simp] theorem setC_mem : (s.setC r v).mem = s.mem := rfl

@[simp] theorem setMem_c : (s.setMem m).c = s.c := rfl

@[simp] theorem setPcc_c : (s.setPcc v).c = s.c := rfl

@[simp] theorem setMem_mem : (s.setMem m).mem = m := rfl

theorem setMem_setC_self : ((s.setC r v).setMem m).c r = v := setC_self s r v

theorem setX_self : (s.setX r w).x r = w := by
  show Function.update s.x r w r = w
  rw [Function.update_self]

theorem setC_of_ne {q : RegId} (h : q ≠ r) : (s.setC r v).c q = s.c q := by
  show Function.update s.c r v q = s.c q
  rw [Function.update_of_ne h]

theorem setX_of_ne {q : RegId} (h : q ≠ r) : (s.setX r w).x q = s.x q := by
  show Function.update s.x r w q = s.x q
  rw [Function.update_of_ne h]

theorem readC_setC_self (h : r ≠ 0) : (s.setC r v).readC r = v := by
  rw [readC_of_ne h, setC_self]

/-- **The special registers are as they were.** -/
structure SameSpecial (s s' : TrapState) : Prop where
  pcc : s'.pcc = s.pcc
  ddc : s'.ddc = s.ddc
  mtdc : s'.mtdc = s.mtdc
  mscratchc : s'.mscratchc = s.mscratchc
  mepcc : s'.mepcc = s.mepcc
  mcause : s'.mcause = s.mcause

theorem SameSpecial.trans {s s' s'' : TrapState} (h : SameSpecial s s') (h' : SameSpecial s' s'') :
    SameSpecial s s'' :=
  ⟨h'.pcc.trans h.pcc, h'.ddc.trans h.ddc, h'.mtdc.trans h.mtdc, h'.mscratchc.trans h.mscratchc,
    h'.mepcc.trans h.mepcc, h'.mcause.trans h.mcause⟩

/-- Where the enclave is to resume: behind a system call, at the instruction
after it. -/
def resume (s : TrapState) : Capability :=
  if s.mcause = 11 then UserEnclave.cIncOffset s.mepcc (BitVec.ofNat 32 4) else s.mepcc

end TrapState

namespace TrapText

open Trapping (wp)

variable {t : TrapText} {s : TrapState} {Q : Unit → TrapState → Prop} {E : TrapState → Prop}
  {d : Capability} {f : ℕ}

/-! ## The first half, piece by piece -/

theorem wp_cSpecialR {cd : RegId} {scr : TrapState → Capability}
    (hasr : s.pcc.perms.accessSystemRegisters = true) :
    wp (cSpecialR cd scr) Q E s ↔ Q () (s.setC cd (scr s)) := by
  unfold cSpecialR
  rw [Trapping.wp_bind, wp_trapIf, if_neg (by rw [hasr]; decide), Trapping.wp_update]

theorem wp_cClearTag {cd cs1 : RegId} :
    wp (cClearTag cd cs1) Q E s ↔ Q () (s.setC cd { s.readC cs1 with tag := false }) := Iff.rfl

theorem wp_cGetLen {rd cs1 : RegId} :
    wp (cGetLen rd cs1) Q E s ↔ Q () (s.setX rd (s.readC cs1).length) := Iff.rfl

theorem wp_cGetTag {rd cs1 : RegId} :
    wp (cGetTag rd cs1) Q E s ↔ Q () (s.setX rd (if (s.readC cs1).tag then 1 else 0)) := Iff.rfl

theorem wp_addi {rd rs1 : RegId} {imm : Word} :
    wp (addi rd rs1 imm) Q E s ↔ Q () (s.setX rd (s.readX rs1 + imm)) := Iff.rfl

/-- A capability store to a slot. -/
theorem wp_scCap_slot (h : DataSection t.cfg d) {cs2 : RegId} (hc : s.c 31 = pointAt d f)
    (hf : f + 16 ≤ TRAP_DATA_LEN) :
    wp (t.scCap cs2 31) Q E s
      ↔ Q () (s.setMem (s.mem.storeCap t.cfg (d.base + BitVec.ofNat 32 f) (s.readC cs2))) := by
  rw [wp_scCap, if_neg (h.not_accessTraps (by decide) hf hc),
    TrapState.readC_of_ne (by decide : (31 : RegId) ≠ 0), hc, address_pointAt]

/-- A capability load from a slot. -/
theorem wp_lcCap_slot (h : DataSection t.cfg d) {cd : RegId} (hc : s.c 31 = pointAt d f)
    (hf : f + 16 ≤ TRAP_DATA_LEN) :
    wp (t.lcCap cd 31) Q E s ↔ Q () (s.setC cd (s.mem.capSlot t.cfg d.base f)) := by
  rw [wp_lcCap, if_neg (h.not_accessTraps (by decide) hf hc), TrapState.readC_of_ne (by decide), hc,
    address_pointAt, h.holds.loadCap_offset hf]

/-- `c31` to the offset in `t0`. -/
theorem wp_point {g : ℕ} {o : Word} (hc : s.c 31 = UserEnclave.cSetOffset d o) :
    wp (li 5 (BitVec.ofNat 32 g)) (fun _ s' => wp (cSetOffset 31 31 5) Q E s') E s
      ↔ Q () ((s.setX 5 (BitVec.ofNat 32 g)).setC 31 (pointAt d g)) := by
  rw [wp_li, wp_cSetOffset, TrapState.readC_of_ne (by decide), TrapState.readX_of_ne (by decide),
    TrapState.setX_self, TrapState.setX_c, hc]
  rfl

/-- The end of `storeEpcc`, with the place to resume in `ct0`: behind a system
call it is moved on, and it is stored again. -/
theorem wp_storeResume (h : DataSection t.cfg d)
    (hc : s.c 31 = pointAt d TRAP_DATA_OFFSET_EPCC) (h5 : s.c 5 = s.mepcc) :
    wp (do
      csrrMcause 5
      li 6 11
      branch (fun s => s.x 5 ≠ s.x 6) (pure ()) (cIncOffsetImm 5 5 4)
      t.scCap 5 31) (fun _ s' => s.SameSpecial s' ∧ s'.c 31 = s.c 31
        ∧ (∀ r, r ≠ 5 → r ≠ 31 → s'.c r = s.c r)
        ∧ s'.mem = s.mem.storeCap t.cfg (d.base + BitVec.ofNat 32 TRAP_DATA_OFFSET_EPCC)
            s.resume) E s := by
  rw [Trapping.wp_bind]
  show wp (li 6 11 >>= _) _ E (s.setX 5 s.mcause)
  rw [Trapping.wp_bind, wp_li, Trapping.wp_bind, wp_branch, TrapState.setX_self,
    TrapState.setX_of_ne _ _ _ (by decide), TrapState.setX_self]
  by_cases hcause : s.mcause = 11
  · rw [if_neg (not_not.2 hcause), wp_cIncOffsetImm, wp_scCap_slot h (by
      rw [TrapState.setC_of_ne _ _ _ (by decide)]; exact hc) (by decide)]
    refine ⟨⟨rfl, rfl, rfl, rfl, rfl, rfl⟩, ?_, ?_, ?_⟩
    · rw [TrapState.setMem_c, TrapState.setC_of_ne _ _ _ (by decide)]
      rfl
    · intro r hr _
      rw [TrapState.setMem_c, TrapState.setC_of_ne _ _ _ hr]
      rfl
    · rw [TrapState.setMem_mem, TrapState.readC_setC_self _ _ _ (by decide),
        TrapState.readC_of_ne (by decide), TrapState.resume, if_pos hcause, ← h5]
      rfl
  · rw [if_pos hcause, Trapping.wp_pure, wp_scCap_slot h (by exact hc) (by decide)]
    refine ⟨⟨rfl, rfl, rfl, rfl, rfl, rfl⟩, rfl, fun _ _ _ => rfl, ?_⟩
    rw [TrapState.readC_of_ne (by decide), TrapState.resume, if_neg hcause, ← h5]
    rfl

/-- **The place to resume is stored.** -/
theorem wp_storeEpcc (h : DataSection t.cfg d) {o : Word}
    (hc : s.c 31 = UserEnclave.cSetOffset d o)
    (hasr : s.pcc.perms.accessSystemRegisters = true) :
    wp t.storeEpcc (fun _ s' => s.SameSpecial s' ∧ s'.c 31 = pointAt d TRAP_DATA_OFFSET_EPCC
      ∧ (∀ r, r ≠ 5 → r ≠ 31 → s'.c r = s.c r)
      ∧ s'.mem = (s.mem.storeCap t.cfg (d.base + BitVec.ofNat 32 TRAP_DATA_OFFSET_EPCC)
          s.mepcc).storeCap t.cfg (d.base + BitVec.ofNat 32 TRAP_DATA_OFFSET_EPCC) s.resume)
        E s := by
  unfold storeEpcc
  rw [Trapping.wp_bind]
  simp only [Trapping.wp_bind (x := cSetOffset 31 31 5)]
  have h31 : ∀ v, (((s.setX 5 (BitVec.ofNat 32 TRAP_DATA_OFFSET_EPCC)).setC 31
      (pointAt d TRAP_DATA_OFFSET_EPCC)).setC 5 v).c 31 = pointAt d TRAP_DATA_OFFSET_EPCC := by
    intro v
    rw [TrapState.setC_of_ne _ _ _ (by decide), TrapState.setC_self]
  rw [wp_point hc, Trapping.wp_bind, wp_cSpecialR (by exact hasr), Trapping.wp_bind,
    wp_scCap_slot h (h31 _) (by decide), TrapState.readC_setC_self _ _ _ (by decide)]
  refine Trapping.wp_mono (wp_storeResume h ?_ ?_) ?_ (fun _ h => h)
  · exact h31 s.mepcc
  · rw [TrapState.setMem_c, TrapState.setC_self]
    rfl
  rintro _ s' ⟨hsame, hc', hr, hmem⟩
  refine ⟨⟨hsame.pcc, hsame.ddc, hsame.mtdc, hsame.mscratchc, hsame.mepcc, hsame.mcause⟩,
    hc'.trans (h31 s.mepcc), fun r h5 h31 => ?_, hmem⟩
  rw [hr r h5 h31, TrapState.setMem_c, TrapState.setC_of_ne _ _ _ h5,
    TrapState.setC_of_ne _ _ _ h31]
  rfl

/-- The capability the jump to the untrusted handler goes to. -/
def jumpsTo (t : TrapText) (ddc cap : Capability) : Prop :=
  Modification.setAddr.apply ddc t.untrustedTrapHandler = .ok cap
    ∧ ∃ target, jumpToCap cap (CapIdx.gpcr 5) = .ok target

/-- **The handler is in place**: its code may access the special registers, the
seal in `MTDC` seals the data section, and the untrusted handler can be jumped
to from `DDC`. -/
structure Installed (t : TrapText) (s : TrapState) : Prop where
  asr : s.pcc.perms.accessSystemRegisters = true
  seals : ∃ cap, cSeal (pointAt (s.c 31) TRAP_DATA_OFFSET_EPCC) s.mtdc 31 5 = .ok cap
  jumps : ∃ cap, t.jumpsTo s.ddc cap

/-- The data capability, as the handler seals it. -/
def sealedData (d mtdc : Capability) : Capability :=
  (pointAt d TRAP_DATA_OFFSET_EPCC).sealWith (mtdc.address.setWidth otypeLen)

/-- **What there is at the jump**, of a state that `_clear_state` started in. -/
structure AtJump (t : TrapText) (d : Capability) (s s' : TrapState) : Prop where
  mem : s'.mem = (s.mem.storeCap t.cfg (d.base + BitVec.ofNat 32 TRAP_DATA_OFFSET_EPCC)
    s.mepcc).storeCap t.cfg (d.base + BitVec.ofNat 32 TRAP_DATA_OFFSET_EPCC) s.resume
  c31 : s'.c 31 = sealedData d s.mtdc
  link : s'.c 1 = UserEnclave.cSetOffset s.pcc t.returnOffset
  target : t.jumpsTo s.ddc (s'.c 5)
  cleared : ∀ r ∈ capRegs, r ≠ 1 → r ≠ 5 → (s'.c r).tag = false
  mscratchc : s'.mscratchc = s.mscratchc

/-- `_jump_to_untrusted`. -/
theorem wp_jumpToUntrusted (hj : ∃ cap, t.jumpsTo s.ddc cap) :
    wp t.jumpToUntrusted (fun _ s' => s'.mem = s.mem ∧ s'.mscratchc = s.mscratchc
      ∧ s'.c 1 = UserEnclave.cSetOffset s.pcc t.returnOffset ∧ t.jumpsTo s.ddc (s'.c 5)
      ∧ ∀ r, r ≠ 1 → r ≠ 5 → s'.c r = s.c r) E s := by
  obtain ⟨cap, hcap, target, htarget⟩ := hj
  unfold jumpToUntrusted
  rw [Trapping.wp_bind, wp_li, Trapping.wp_bind]
  show wp (cSetAddr 5 5 7 >>= _) _ E ((s.setX 7 t.untrustedTrapHandler).setC 5 s.ddc)
  rw [Trapping.wp_bind]
  refine wp_setOrTrap (show _ = Except.ok cap from ?_) ?_
  · rw [TrapState.readC_setC_self _ _ _ (by decide), TrapState.readX_of_ne (by decide),
      TrapState.setC_x, TrapState.setX_self]
    exact hcap
  · unfold wp Trapping.exec cjalr
    rw [TrapState.readC_setC_self _ _ _ (by decide), htarget]
    refine ⟨rfl, rfl, ?_, ?_, ?_⟩
    · rw [TrapState.setPcc_c, TrapState.setC_self]
      rfl
    · rw [TrapState.setPcc_c, TrapState.setC_of_ne _ _ _ (by decide), TrapState.setC_self]
      exact ⟨hcap, target, htarget⟩
    · intro r h1 h5
      rw [TrapState.setPcc_c, TrapState.setC_of_ne _ _ _ h1, TrapState.setC_of_ne _ _ _ h5,
        TrapState.setC_of_ne _ _ _ h5]
      rfl

/-- **`_clear_state`, up to the jump.** -/
theorem wp_clearState (h : DataSection t.cfg d) {o : Word}
    (hc : s.c 31 = UserEnclave.cSetOffset d o) (hi : t.Installed (s.setC 31 d)) :
    wp t.clearState (fun _ s' => AtJump t d s s') E s := by
  have h31 : (31 : RegId) ∉ capRegs := by decide
  unfold clearState
  rw [Trapping.wp_bind, wp_each_cClearTag _ (by decide), Trapping.wp_bind, wp_each_li_zero,
    Trapping.wp_bind]
  refine Trapping.wp_mono (wp_storeEpcc h (o := o) ?_ ?_) ?_ (fun _ h => h)
  · show (if (31 : RegId) ∈ capRegs then ({ s.c 31 with tag := false } : Capability) else s.c 31)
      = _
    rw [if_neg h31]
    exact hc
  · exact hi.asr
  rintro _ u ⟨hsame, hu31, hur, humem⟩
  have hasr : u.pcc.perms.accessSystemRegisters = true := by
    rw [hsame.pcc]
    exact hi.asr
  rw [Trapping.wp_bind, wp_cSpecialR hasr, Trapping.wp_bind]
  obtain ⟨cap, hcap⟩ := hi.seals
  have hseal : cap = sealedData d s.mtdc := by
    rw [(cSeal_ok hcap).2.2.2, TrapState.setC_self]
    rfl
  rw [hseal, TrapState.setC_self] at hcap
  refine wp_setOrTrap (show _ = Except.ok (sealedData d s.mtdc) from ?_) ?_
  · rw [TrapState.readC_of_ne (by decide), TrapState.setC_of_ne _ _ _ (by decide), hu31,
      TrapState.readC_setC_self _ _ _ (by decide), hsame.mtdc]
    exact hcap
  · rw [Trapping.wp_bind, wp_cClearTag]
    refine Trapping.wp_mono (wp_jumpToUntrusted ?_) ?_ (fun _ h => h)
    · show ∃ cap, t.jumpsTo u.ddc cap
      rw [hsame.ddc]
      exact hi.jumps
    rintro _ s' ⟨hmem, hscr, h1, h5, hr⟩
    have hpcc : u.pcc = s.pcc := hsame.pcc
    have hddc : u.ddc = s.ddc := hsame.ddc
    refine ⟨hmem.trans humem, ?_, h1.trans ?_, ?_, ?_, hscr.trans hsame.mscratchc⟩
    · rw [hr 31 (by decide) (by decide), TrapState.setC_of_ne _ _ _ (by decide),
        TrapState.setC_self]
    · rw [← hpcc]
      rfl
    · rw [← hddc]
      exact h5
    · intro r hmem' hr1 hr5
      have hr31 : r ≠ 31 := fun he => h31 (he ▸ hmem')
      rw [hr r hr1 hr5, TrapState.setC_of_ne _ _ _ hr5, TrapState.setC_of_ne _ _ _ hr31,
        TrapState.setC_of_ne _ _ _ hr5, hur r hr5 hr31]
      show (if r ∈ capRegs then ({ s.c r with tag := false } : Capability) else s.c r).tag = false
      rw [if_pos hmem']

/-! ## Which way the first half goes -/

/-- The test of the length lets the section pass. The difference is compared
as a signed number, so a section can also be too long. -/
def LengthPasses (d : Capability) : Prop := d.length.toNat < 2 ^ 31 + TRAP_DATA_LEN

/-- **The enclave is already interrupted**: its place to resume is tagged. -/
def Interrupted (t : TrapText) (s : TrapState) : Prop :=
  (s.mem.capSlot t.cfg (s.c 31).base TRAP_DATA_OFFSET_EPCC).tag = true

/-- The test of the length, on the words. -/
theorem slt_iff_not_lengthPasses (hlen : TRAP_DATA_LEN ≤ d.length.toNat) :
    (d.length + -BitVec.ofNat 32 TRAP_DATA_LEN).slt 0 = true ↔ ¬ LengthPasses d := by
  have hd := d.length.isLt
  have hsize : TRAP_DATA_LEN = 652 := rfl
  have hdiff : (d.length + -BitVec.ofNat 32 TRAP_DATA_LEN).toNat
      = d.length.toNat - TRAP_DATA_LEN := by
    rw [← BitVec.sub_eq_add_neg, BitVec.toNat_sub, BitVec.toNat_ofNat]
    omega
  show (d.length + -BitVec.ofNat 32 TRAP_DATA_LEN).slt 0#32 = true ↔ _
  rw [BitVec.slt_zero_iff_msb_cond, BitVec.msb_eq_decide, decide_eq_true_iff, hdiff, LengthPasses]
  omega

/-- The registers after the first swap: `ct0` is in `mscratchc`. -/
def swapped (s : TrapState) : TrapState :=
  { (s.setC 5 s.mscratchc).setX 5 s.mscratch with
    mscratchc := s.c 5
    mscratch := s.x 5 }

theorem wp_swap {x : TrapProg} (hasr : s.pcc.perms.accessSystemRegisters = true) :
    wp (do
      swapMscratchc
      swapMscratch
      x) Q E s ↔ wp x Q E (swapped s) := by
  rw [Trapping.wp_bind]
  unfold swapMscratchc
  rw [Trapping.wp_bind, wp_trapIf, if_neg (by rw [hasr]; decide), Trapping.wp_update,
    Trapping.wp_bind]
  rfl

/-- The state at the test of the length. -/
def lengthTest (s : TrapState) : TrapState :=
  (swapped s).setX 5 ((s.c 31).length + -BitVec.ofNat 32 TRAP_DATA_LEN)

/-- The state at the test of the tag. -/
def tagTest (t : TrapText) (s : TrapState) : TrapState :=
  let epcc := s.mem.capSlot t.cfg (s.c 31).base TRAP_DATA_OFFSET_EPCC
  ((((lengthTest s).setX 5 (BitVec.ofNat 32 TRAP_DATA_OFFSET_EPCC)).setC 31
    (pointAt (s.c 31) TRAP_DATA_OFFSET_EPCC)).setC 5 epcc).setX 5 (if epcc.tag then 1 else 0)

theorem swapped_c31 (s : TrapState) : (swapped s).c 31 = s.c 31 := by
  show (s.setC 5 s.mscratchc).c 31 = s.c 31
  rw [TrapState.setC_of_ne _ _ _ (by decide)]

theorem tagTest_c31 (t : TrapText) (s : TrapState) :
    (t.tagTest s).c 31 = pointAt (s.c 31) TRAP_DATA_OFFSET_EPCC := by
  unfold tagTest
  rw [TrapState.setX_c, TrapState.setC_of_ne _ _ _ (by decide), TrapState.setC_self]

/-- The first half, up to the test of the length. -/
theorem wp_handler_lengthTest (hasr : s.pcc.perms.accessSystemRegisters = true) :
    wp t.trustedTrapHandler Q E s ↔
      wp (branch (fun s => (s.x 5).slt 0) t.clearState (do
        t.loadEpcc
        branch (fun s => s.x 5 ≠ 0) t.clearState (do
          t.saveContext
          t.clearState))) Q E (lengthTest s) := by
  have haddi : ((swapped s).setX 5 ((swapped s).readC 31).length).setX 5
      (((swapped s).setX 5 ((swapped s).readC 31).length).readX 5
        + -BitVec.ofNat 32 TRAP_DATA_LEN) = lengthTest s := by
    rw [TrapState.readX_of_ne (by decide), TrapState.setX_self, TrapState.readC_of_ne (by decide),
      swapped_c31]
    unfold lengthTest TrapState.setX
    rw [Function.update_idem]
  unfold trustedTrapHandler
  rw [wp_swap hasr, Trapping.wp_bind, wp_cGetLen, Trapping.wp_bind, wp_addi, haddi]

theorem lengthTest_slt_iff (h : DataSection t.cfg (s.c 31)) :
    ((lengthTest s).x 5).slt 0 = true ↔ ¬ LengthPasses (s.c 31) := by
  rw [lengthTest, TrapState.setX_self]
  exact slt_iff_not_lengthPasses h.len

/-- The test of the tag. -/
theorem wp_loadEpcc (h : DataSection t.cfg (s.c 31)) {x : TrapProg} :
    wp (t.loadEpcc >>= fun _ => x) Q E (lengthTest s) ↔ wp x Q E (t.tagTest s) := by
  rw [Trapping.wp_bind]
  unfold loadEpcc
  rw [Trapping.wp_bind]
  simp only [Trapping.wp_bind (x := cSetOffset 31 31 5)]
  have hc : (lengthTest s).c 31 = UserEnclave.cSetOffset (s.c 31) (s.c 31).offset := swapped_c31 s
  rw [wp_point hc, Trapping.wp_bind, wp_lcCap_slot h (TrapState.setC_self _ 31 _) (by decide),
    wp_cGetTag, TrapState.readC_setC_self _ _ _ (by decide)]
  rfl

/-- `_clear_state` from a state that differs from `v` in the registers only,
with the handler as it is in place at `s`. -/
theorem wp_clearState_from {u v : TrapState} {o : Word} (h : DataSection t.cfg (s.c 31))
    (hi : t.Installed s) (hc : u.c 31 = UserEnclave.cSetOffset (s.c 31) o)
    (hsame : v.SameSpecial u) (hmem : u.mem = v.mem) (hpcc : v.pcc = s.pcc)
    (hddc : v.ddc = s.ddc) (hmtdc : v.mtdc = s.mtdc) :
    wp t.clearState (fun _ s' => AtJump t (s.c 31) v s') E u := by
  refine Trapping.wp_mono (wp_clearState h hc ?_) (fun _ s' hj => ?_) (fun _ h => h)
  · refine ⟨?_, ?_, ?_⟩
    · rw [show (u.setC 31 (s.c 31)).pcc = s.pcc from hsame.pcc.trans hpcc]
      exact hi.asr
    · rw [TrapState.setC_self, show (u.setC 31 (s.c 31)).mtdc = s.mtdc from hsame.mtdc.trans hmtdc]
      exact hi.seals
    · rw [show (u.setC 31 (s.c 31)).ddc = s.ddc from hsame.ddc.trans hddc]
      exact hi.jumps
  · refine ⟨?_, ?_, ?_, ?_, hj.cleared, hj.mscratchc.trans hsame.mscratchc⟩
    · rw [hj.mem, hmem, hsame.mepcc, TrapState.resume, TrapState.resume, hsame.mcause,
        hsame.mepcc]
    · rw [hj.c31, hsame.mtdc]
    · rw [hj.link, hsame.pcc]
    · rw [← hsame.ddc]
      exact hj.target

/-- The state with the first scratch capability swapped out. -/
def scratched (s : TrapState) : TrapState := { s with mscratchc := s.c 5 }

/-- **An enclave that is not saved** goes on to the jump with its scratch
capability swapped out. Both ways lead to `_clear_state`, and only the
registers it clears differ. -/
theorem wp_handler_skip (h : DataSection t.cfg (s.c 31)) (hi : t.Installed s)
    (hskip : ¬ LengthPasses (s.c 31) ∨ t.Interrupted s) :
    wp t.trustedTrapHandler (fun _ s' => AtJump t (s.c 31) (scratched s) s') E s := by
  by_cases hl : LengthPasses (s.c 31)
  · have hint : (s.mem.capSlot t.cfg (s.c 31).base TRAP_DATA_OFFSET_EPCC).tag = true :=
      hskip.resolve_left (not_not.2 hl)
    have htag : (t.tagTest s).x 5 ≠ 0 := by
      unfold tagTest
      rw [TrapState.setX_self, if_pos hint]
      decide
    rw [wp_handler_lengthTest hi.asr, wp_branch,
      if_neg (fun hlt => (lengthTest_slt_iff h).1 hlt hl), wp_loadEpcc h, wp_branch, if_pos htag]
    exact wp_clearState_from h hi (t.tagTest_c31 s) ⟨rfl, rfl, rfl, rfl, rfl, rfl⟩ rfl rfl rfl rfl
  · rw [wp_handler_lengthTest hi.asr, wp_branch, if_pos ((lengthTest_slt_iff h).2 hl)]
    exact wp_clearState_from h hi (o := (s.c 31).offset) (swapped_c31 s)
      ⟨rfl, rfl, rfl, rfl, rfl, rfl⟩ rfl rfl rfl rfl

/-! ## What a nested trap leaves -/

/-- **The saved context is as it was.** -/
structure ContextKept (t : TrapText) (s s' : TrapState) : Prop where
  epcc : s'.mem.capSlot t.cfg (s.c 31).base TRAP_DATA_OFFSET_EPCC
    = s.mem.capSlot t.cfg (s.c 31).base TRAP_DATA_OFFSET_EPCC
  caps : ∀ k < 31, s'.mem.capSlot t.cfg (s.c 31).base (TRAP_DATA_OFFSET_CAPS + CAP_LEN * k)
    = s.mem.capSlot t.cfg (s.c 31).base (TRAP_DATA_OFFSET_CAPS + CAP_LEN * k)
  regs : ∀ k < 31, s'.mem.wordSlot t.cfg (s.c 31).base (TRAP_DATA_OFFSET_REGS + WORD_SIZE * k)
    = s.mem.wordSlot t.cfg (s.c 31).base (TRAP_DATA_OFFSET_REGS + WORD_SIZE * k)

/-- **The untrusted handler is given nothing of the interrupted context.** A
tagged capability register holds the link to the handler's own code or the
jump target made from `DDC`; `mscratchc` holds no unsealed capability; and the
data section is sealed. -/
structure NothingGiven (t : TrapText) (s s' : TrapState) : Prop where
  regs : ∀ r ∈ capRegs, (s'.c r).tag = true →
    r = 1 ∧ s'.c r = UserEnclave.cSetOffset s.pcc t.returnOffset
      ∨ r = 5 ∧ t.jumpsTo s.ddc (s'.c r)
  mscratchc : ¬ (s'.mscratchc.tag = true ∧ s'.mscratchc.isSealed = false)
  c31 : (s'.c 31).isSealed = true

/-- **What it takes**: the place to resume is the one stored already, and the
scratch capability of the interrupted context is untagged or sealed. -/
structure NestedHarmless (t : TrapText) (s : TrapState) : Prop where
  sameResume : s.resume = s.mem.capSlot t.cfg (s.c 31).base TRAP_DATA_OFFSET_EPCC
  scratch : ¬ ((s.c 5).tag = true ∧ (s.c 5).isSealed = false)

/-- What a seal in `MTDC` seals is sealed. -/
theorem isSealed_sealedData (hi : t.Installed s) :
    (sealedData (s.c 31) s.mtdc).isSealed = true := by
  obtain ⟨cap, hcap⟩ := hi.seals
  have hle := (cSeal_ok hcap).2.2.1
  show decide ((s.mtdc.address.setWidth otypeLen).toNat ≤ maxOtype) = true
  rw [decide_eq_true_iff, BitVec.toNat_setWidth]
  exact le_trans (Nat.mod_le _ _) hle

section

variable {m : TaggedMemory} (h : DataSection t.cfg d) (epcc epcc' : Capability)

include h

/-- The place to resume is in its slot. -/
theorem DataSection.capSlot_epcc :
    ((m.storeCap t.cfg (d.base + BitVec.ofNat 32 TRAP_DATA_OFFSET_EPCC) epcc).storeCap t.cfg
      (d.base + BitVec.ofNat 32 TRAP_DATA_OFFSET_EPCC) epcc').capSlot t.cfg d.base
        TRAP_DATA_OFFSET_EPCC = epcc' :=
  h.holds.capSlot_storeCap_self (by decide) _ _

/-- The stores of the place to resume leave the slots behind it alone. -/
theorem DataSection.capSlot_of_storeEpcc (hf : TRAP_DATA_OFFSET_CAPS ≤ f)
    (hf' : f + 16 ≤ TRAP_DATA_LEN) :
    ((m.storeCap t.cfg (d.base + BitVec.ofNat 32 TRAP_DATA_OFFSET_EPCC) epcc).storeCap t.cfg
      (d.base + BitVec.ofNat 32 TRAP_DATA_OFFSET_EPCC) epcc').capSlot t.cfg d.base f
      = m.capSlot t.cfg d.base f := by
  have hapart : TRAP_DATA_OFFSET_EPCC + 16 ≤ f := hf
  rw [h.holds.capSlot_storeCap_of_apart (by decide) hf' (Or.inl hapart),
    h.holds.capSlot_storeCap_of_apart (by decide) hf' (Or.inl hapart)]

theorem DataSection.wordSlot_of_storeEpcc (hf : TRAP_DATA_OFFSET_CAPS ≤ f)
    (hf' : f + 4 ≤ TRAP_DATA_LEN) :
    ((m.storeCap t.cfg (d.base + BitVec.ofNat 32 TRAP_DATA_OFFSET_EPCC) epcc).storeCap t.cfg
      (d.base + BitVec.ofNat 32 TRAP_DATA_OFFSET_EPCC) epcc').wordSlot t.cfg d.base f
      = m.wordSlot t.cfg d.base f := by
  have hapart : TRAP_DATA_OFFSET_EPCC + 16 ≤ f := hf
  rw [h.holds.wordSlot_storeCap (by decide) hf' hapart,
    h.holds.wordSlot_storeCap (by decide) hf' hapart]

end

/-- **A nested trap keeps the context exactly where it is harmless.** -/
theorem AtJump.kept_iff (h : DataSection t.cfg (s.c 31)) (hi : t.Installed s) {s' : TrapState}
    (hj : AtJump t (s.c 31) (scratched s) s') :
    ContextKept t s s' ∧ NothingGiven t s s' ↔ t.NestedHarmless s := by
  have hepcc : s'.mem.capSlot t.cfg (s.c 31).base TRAP_DATA_OFFSET_EPCC = s.resume := by
    rw [hj.mem]
    exact h.capSlot_epcc _ _
  constructor
  · rintro ⟨hkept, hnone⟩
    refine ⟨hepcc.symm.trans hkept.epcc, ?_⟩
    have hscr := hnone.mscratchc
    rw [hj.mscratchc] at hscr
    exact hscr
  · intro hharm
    refine ⟨⟨hepcc.trans hharm.sameResume, ?_, ?_⟩, ?_, ?_, ?_⟩
    · intro k hk
      rw [hj.mem]
      exact h.capSlot_of_storeEpcc _ _ (Nat.le_add_right _ _) (by
        rw [TRAP_DATA_OFFSET_CAPS, CAP_LEN, TRAP_DATA_LEN, CAP_LEN]
        omega)
    · intro k hk
      rw [hj.mem]
      refine h.wordSlot_of_storeEpcc _ _ ?_ ?_
      · rw [TRAP_DATA_OFFSET_REGS, TRAP_DATA_OFFSET_CAPS]
        omega
      · rw [TRAP_DATA_OFFSET_REGS, WORD_SIZE, TRAP_DATA_LEN, CAP_LEN]
        omega
    · intro r hr htag
      by_cases h1 : r = 1
      · subst h1
        exact Or.inl ⟨rfl, hj.link⟩
      · by_cases h5 : r = 5
        · subst h5
          exact Or.inr ⟨rfl, hj.target⟩
        · rw [hj.cleared r hr h1 h5] at htag
          cases htag
    · rw [hj.mscratchc]
      exact hharm.scratch
    · rw [hj.c31]
      exact isSealed_sealedData hi

end TrapText

open TrapText in
/-- **Nested traps, and when they are harmless.** A trap of an enclave that is
already interrupted reaches the untrusted handler; it keeps the saved context
and gives nothing of the interrupted one away if and only if it is harmless. -/
theorem nestedTrap_kept_iff (t : TrapText) (s : TrapState) (h : DataSection t.cfg (s.c 31))
    (hi : t.Installed s) (hint : t.Interrupted s) :
    ∃ s', t.trustedTrapHandler.exec s = (.ok (), s')
      ∧ (ContextKept t s s' ∧ NothingGiven t s s' ↔ t.NestedHarmless s) := by
  obtain ⟨_, s', hexec, hj⟩ := Trapping.wp_exists (wp_handler_skip h hi (Or.inr hint))
  exact ⟨s', hexec, hj.kept_iff h hi⟩

/-! ### An enclave interrupted twice -/

namespace TrapText

/-- A memory of sixty-four granules. -/
def trapMemory : MemConfig := ⟨0x80000000, 64, by decide, MemConfig.aligned_ram, by decide⟩

/-- The handler, with the untrusted one at address 64. -/
def smallText : TrapText := ⟨trapMemory, fun _ => 0, 64, 0x100⟩

/-- A data section of just the trap data. -/
def trapSection : Capability :=
  ⟨true, 0x80000000, 652, 0, { Permissions.allowAll with execute := false }, .unsealed⟩

/-- The code of the enclave, at an offset. -/
def enclaveCode (offset : Word) : Capability :=
  ⟨true, 0x80000300, 0x100, offset, .allowAll, .unsealed⟩

/-- The seal of the handler. -/
def handlerSeal : Capability := ⟨true, 4079, 1, 0, .allowAll, .unsealed⟩

/-- A timer interrupt in the enclave, at an offset of its code. -/
def interruptedAt (offset : Word) (mem : TaggedMemory) : TrapState where
  x := fun _ => 0
  c := fun r => if r = 31 then trapSection else .null
  pcc := .root
  ddc := .root
  mtdc := handlerSeal
  mscratchc := .null
  mepcc := enclaveCode offset
  mscratch := 0
  mcause := 0x80000007
  mem := mem

/-- A memory whose trap data has a place to resume in it. -/
def resumeAt (offset : Word) : TaggedMemory :=
  TaggedMemory.storeCap trapMemory ⟨fun _ => false, fun _ => 0⟩
    (trapSection.base + BitVec.ofNat 32 TRAP_DATA_OFFSET_EPCC) (enclaveCode offset)

theorem trapSection_dataSection : DataSection smallText.cfg trapSection :=
  ⟨rfl, by decide, rfl, rfl, by decide, by decide, by decide, by decide⟩

theorem interruptedAt_installed (offset : Word) (mem : TaggedMemory) :
    smallText.Installed (interruptedAt offset mem) where
  asr := rfl
  seals := ⟨(pointAt trapSection TRAP_DATA_OFFSET_EPCC).sealWith 4079, by
    show cSeal (pointAt trapSection TRAP_DATA_OFFSET_EPCC) handlerSeal 31 5 = _
    decide⟩
  jumps := ⟨{ Capability.root with offset := 64 }, by
    show Modification.setAddr.apply .root 64 = _
    decide, { Capability.root with offset := 64 }, by decide⟩

theorem capSlot_resumeAt (offset : Word) :
    (resumeAt offset).capSlot smallText.cfg trapSection.base TRAP_DATA_OFFSET_EPCC
      = enclaveCode offset :=
  trapSection_dataSection.holds.capSlot_storeCap_self (by decide) _ _

theorem interruptedAt_interrupted (offset offset' : Word) :
    smallText.Interrupted (interruptedAt offset (resumeAt offset')) := by
  show ((resumeAt offset').capSlot smallText.cfg trapSection.base TRAP_DATA_OFFSET_EPCC).tag = true
  rw [capSlot_resumeAt]
  rfl

end TrapText

open TrapText in
/-- An interrupt at the place to resume is harmless. -/
theorem nestedTrap_at_resume :
    ∃ s', smallText.trustedTrapHandler.exec (interruptedAt 8 (resumeAt 8)) = (.ok (), s')
      ∧ ContextKept smallText (interruptedAt 8 (resumeAt 8)) s'
      ∧ NothingGiven smallText (interruptedAt 8 (resumeAt 8)) s' := by
  obtain ⟨s', hexec, hiff⟩ := nestedTrap_kept_iff smallText (interruptedAt 8 (resumeAt 8))
    trapSection_dataSection (interruptedAt_installed 8 _) (interruptedAt_interrupted 8 8)
  refine ⟨s', hexec, hiff.2 ⟨?_, by decide⟩⟩
  exact (capSlot_resumeAt 8).symm

open TrapText in
/-- **The place to resume is overwritten.** An enclave that is to resume at
offset 8 and is interrupted again at offset 32 resumes there. -/
theorem nestedTrap_overwrites_epcc :
    let s := interruptedAt 32 (resumeAt 8)
    DataSection smallText.cfg (s.c 31) ∧ smallText.Installed s ∧ smallText.Interrupted s
      ∧ ∃ s', smallText.trustedTrapHandler.exec s = (.ok (), s')
        ∧ s'.mem.capSlot smallText.cfg (s.c 31).base TRAP_DATA_OFFSET_EPCC = enclaveCode 32
        ∧ ¬ ContextKept smallText s s' := by
  have hint := interruptedAt_interrupted 32 8
  refine ⟨trapSection_dataSection, interruptedAt_installed 32 _, hint, ?_⟩
  obtain ⟨_, s', hexec, hj⟩ := Trapping.wp_exists (wp_handler_skip (t := smallText)
    (s := interruptedAt 32 (resumeAt 8)) trapSection_dataSection (interruptedAt_installed 32 _)
    (Or.inr hint))
  have hepcc : s'.mem.capSlot smallText.cfg trapSection.base TRAP_DATA_OFFSET_EPCC
      = enclaveCode 32 := by
    rw [hj.mem]
    exact trapSection_dataSection.capSlot_epcc _ _
  refine ⟨s', hexec, hepcc, fun hkept => ?_⟩
  have h := hepcc.symm.trans (hkept.epcc.trans (capSlot_resumeAt 8))
  exact absurd h (by decide)

end Proteus
