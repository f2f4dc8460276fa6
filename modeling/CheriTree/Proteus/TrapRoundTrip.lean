import CheriTree.Proteus.NestedTraps

/-!
# Saving and restoring an interrupted enclave

The two halves of the trap handler with an untrusted handler in between, that
leaves the trap data alone and returns with the sealed data capability. The
registers are to come back as they were, but for the result of a system call,
the enclave is to resume where it was interrupted, and the trap data is to hold
no capability any more.

The second half takes the offset of the data capability for zero, reads the
cause of the trap again, and clears the thirty slots it saved to and not the
thirty-first; the first half compares the length of the section as a signed
number, and both take a word of the section to be aligned. `Restorable` is
what is left to ask.
-/

namespace Proteus

namespace TrapText

open Trapping (wp)

variable {t : TrapText} {s : TrapState} {Q : Unit → TrapState → Prop} {E : TrapState → Prop}
  {d : Capability} {f : ℕ}

instance (d : Capability) : Decidable (LengthPasses d) := inferInstanceAs (Decidable (_ < _))

/-! ## The first half, where it saves -/

/-- The memory with the context saved. -/
def savedMem (t : TrapText) (s : TrapState) : TaggedMemory :=
  TaggedMemory.storeWords t.cfg (s.c 31).base
    (TaggedMemory.storeCaps t.cfg (s.c 31).base s.mem TRAP_DATA_OFFSET_CAPS
      (capRegs.map (fun r => s.readC r)))
    TRAP_DATA_OFFSET_REGS (savedRegs.map s.readX)

/-- The state with the context saved. -/
def saved (t : TrapText) (s : TrapState) : TrapState :=
  { s with
    mscratchc := s.mem.capSlot t.cfg (s.c 31).base TRAP_DATA_OFFSET_EPCC
    mem := t.savedMem s }

/-- A walk over words that are not aligned traps at its first access. -/
theorem wp_walk_of_misaligned (hal : d.base.toNat % 4 ≠ 0) (h : DataSection t.cfg d)
    (hf : f + 4 ≤ TRAP_DATA_LEN) (hf4 : f % 4 = 0) {o : Word} {op : RegId → TrapProg}
    {rs : List RegId} (hrs : rs ≠ [])
    (hop : ∀ r R u, u.c 31 = pointAt d f → (pointAt d f).address.toNat % 4 ≠ 0 → wp (op r) R E u)
    (hc : s.c 31 = UserEnclave.cSetOffset d o) : wp (walk f WORD_SIZE op rs) Q E s := by
  rw [wp_walk hc]
  refine wp_strides_of_trap hrs (fun r R => hop r R _ (s.setC_self 31 _) ?_)
  rw [address_pointAt, h.holds.toNat_offset (by omega)]
  omega

/-- The registers once they are swapped back. -/
theorem swapped_tagTest_x (t : TrapText) (s : TrapState) : (swapped (t.tagTest s)).x = s.x := by
  funext r
  show Function.update (t.tagTest s).x 5 (s.x 5) r = s.x r
  by_cases hr : r = 5
  · subst hr
    rw [Function.update_self]
  · rw [Function.update_of_ne hr, tagTest, TrapState.setX_of_ne _ _ _ hr, TrapState.setC_x,
      TrapState.setC_x, TrapState.setX_of_ne _ _ _ hr, lengthTest, TrapState.setX_of_ne _ _ _ hr]
    show Function.update s.x 5 s.mscratch r = s.x r
    rw [Function.update_of_ne hr]

theorem swapped_tagTest_c (t : TrapText) (s : TrapState) {r : RegId} (h31 : r ≠ 31) :
    (swapped (t.tagTest s)).c r = s.c r := by
  show Function.update (t.tagTest s).c 5 (s.c 5) r = s.c r
  by_cases hr : r = 5
  · subst hr
    rw [Function.update_self]
  · rw [Function.update_of_ne hr, tagTest, TrapState.setX_c, TrapState.setC_of_ne _ _ _ hr,
      TrapState.setC_of_ne _ _ _ h31, TrapState.setX_c, lengthTest, TrapState.setX_c]
    show Function.update s.c 5 s.mscratchc r = s.c r
    rw [Function.update_of_ne hr]

theorem swapped_tagTest_c31 (t : TrapText) (s : TrapState) :
    (swapped (t.tagTest s)).c 31 = pointAt (s.c 31) TRAP_DATA_OFFSET_EPCC := by
  rw [swapped_c31, tagTest_c31]

theorem swapped_tagTest_mscratchc (t : TrapText) (s : TrapState) :
    (swapped (t.tagTest s)).mscratchc
      = s.mem.capSlot t.cfg (s.c 31).base TRAP_DATA_OFFSET_EPCC := by
  show (t.tagTest s).c 5 = _
  rw [tagTest, TrapState.setX_c, TrapState.setC_self]

/-- **An enclave that is saved** goes on to the jump with its context in the
trap data, where that is aligned. -/
theorem wp_handler_save (h : DataSection t.cfg (s.c 31)) (hi : t.Installed s)
    (hl : LengthPasses (s.c 31)) (hint : ¬ t.Interrupted s)
    (hE : (s.c 31).base.toNat % 4 ≠ 0 → ∀ s, E s) :
    wp t.trustedTrapHandler
      (fun _ s' => (s.c 31).base.toNat % 4 = 0 ∧ AtJump t (s.c 31) (t.saved s) s') E s := by
  have hno : ¬ (s.mem.capSlot t.cfg (s.c 31).base TRAP_DATA_OFFSET_EPCC).tag = true := hint
  have htag : ¬ (t.tagTest s).x 5 ≠ 0 := by
    unfold tagTest
    rw [TrapState.setX_self, if_neg hno, not_not]
  rw [wp_handler_lengthTest hi.asr, wp_branch,
    if_neg (fun hlt => (lengthTest_slt_iff h).1 hlt hl), wp_loadEpcc h, wp_branch, if_neg htag,
    Trapping.wp_bind]
  unfold saveContext
  rw [wp_swap (by exact hi.asr), Trapping.wp_bind]
  refine wp_walk_scCap h (fun r => r) (by decide) (by decide) (swapped_tagTest_c31 t s) ?_
  intro o
  by_cases hal : (s.c 31).base.toNat % 4 = 0
  · refine wp_walk_swCap h hal (by decide) (by decide) (TrapState.setMem_setC_self _ _ _ _) ?_
    intro o'
    refine Trapping.wp_mono (wp_clearState_from (v := t.saved s) h hi (o := o')
      (TrapState.setMem_setC_self _ _ _ _) ⟨rfl, rfl, rfl, ?_, rfl, rfl⟩ ?_ rfl rfl rfl)
      (fun _ s' hj => ⟨hal, hj⟩) (fun _ h => h)
    · exact swapped_tagTest_mscratchc t s
    · -- what is stored are the registers as the trap found them
      have hcaps : capRegs.map (fun r => (swapped (t.tagTest s)).readC r)
          = capRegs.map (fun r => s.readC r) := by
        refine List.map_congr_left (fun r hr => ?_)
        have h0 : r ≠ 0 := fun he => absurd (he ▸ hr) (by decide)
        have h31 : r ≠ 31 := fun he => absurd (he ▸ hr) (by decide)
        rw [TrapState.readC_of_ne h0, TrapState.readC_of_ne h0, swapped_tagTest_c t s h31]
      have hregs : (swapped (t.tagTest s)).readX = s.readX := by
        funext r
        rw [TrapState.readX, TrapState.readX, swapped_tagTest_x]
      rw [TrapState.setMem_mem, TrapState.setMem_mem, hcaps]
      show TaggedMemory.storeWords _ _ _ _ (savedRegs.map (swapped (t.tagTest s)).readX) = _
      rw [hregs]
      rfl
  · refine wp_walk_of_misaligned hal h (by decide) (by decide) (by decide) ?_
      (TrapState.setMem_setC_self _ _ _ _)
    intro r R u hu haddr
    rw [wp_swCap, TrapState.readC_of_ne (by decide), hu, if_pos haddr]
    split
    · exact hE hal u
    · exact hE hal u

/-! ## The second half -/

/-- The memory with the thirty capabilities cleared. -/
def clearedCaps (t : TrapText) (d : Capability) (m : TaggedMemory) : TaggedMemory :=
  TaggedMemory.storeCaps t.cfg d.base m TRAP_DATA_OFFSET_CAPS (capRegs.map (fun _ => .null))

/-- The memory the second half restores from: the place to resume is cleared,
and the result of a system call is where `a0` was saved. -/
def resultMem (t : TrapText) (d : Capability) (s : TrapState) : TaggedMemory :=
  let cleared := s.mem.storeCap t.cfg (d.base + BitVec.ofNat 32 TRAP_DATA_OFFSET_EPCC) .null
  if s.mcause = 11 then
    cleared.storeWord t.cfg
      (d.base + BitVec.ofNat 32 (TRAP_DATA_OFFSET_REGS + 6 * WORD_SIZE)) (s.x 10)
  else cleared

/-- **What the second half needs**: the data capability is unsealed, there is a
place to resume, and the section is aligned. -/
structure Resumable (t : TrapText) (d : Capability) (s : TrapState) : Prop where
  unseals : ∃ cap, cUnseal (s.c 31) s.mtdc 31 5 = .ok cap
  epcc : (s.mem.capSlot t.cfg d.base TRAP_DATA_OFFSET_EPCC).tag = true
  aligned : d.base.toNat % 4 = 0

/-- **What there is after `mret`**, of a state the second half started in. -/
structure Returned (t : TrapText) (d : Capability) (s s' : TrapState) : Prop where
  pcc : s'.pcc = s.mem.capSlot t.cfg d.base TRAP_DATA_OFFSET_EPCC
  c31 : s'.c 31 = UserEnclave.cSetOffset d.unsealed 0
  caps : ∀ i r, capRegs[i]? = some r →
    s'.c r = s.mem.capSlot t.cfg d.base (TRAP_DATA_OFFSET_CAPS + CAP_LEN * i)
  regs : ∀ i r, savedRegs[i]? = some r →
    s'.x r = if s.mcause = 11 ∧ i = 6 then s.x 10
      else s.mem.wordSlot t.cfg d.base (TRAP_DATA_OFFSET_REGS + WORD_SIZE * i)
  mem : s'.mem = t.clearedCaps d (t.resultMem d s)

/-- The data section, unsealed. -/
theorem DataSection.unsealed (h : DataSection t.cfg d) : DataSection t.cfg d.unsealed :=
  ⟨h.tag, rfl, h.load, h.store, h.len, h.top, h.holds⟩

section

variable (h : DataSection t.cfg d)

include h

/-- A word store to a slot: it traps where the section is not aligned. -/
theorem wp_swCap_slot {rs2 : RegId} (hc : s.c 31 = pointAt d f) (hf : f + 4 ≤ TRAP_DATA_LEN)
    (hf4 : f % 4 = 0) :
    wp (t.swCap rs2 31) Q E s
      ↔ if d.base.toNat % 4 ≠ 0 then E s
        else
          Q () (s.setMem (s.mem.storeWord t.cfg (d.base + BitVec.ofNat 32 f) (s.readX rs2))) := by
  have haddr : (d.base + BitVec.ofNat 32 f).toNat % 4 = d.base.toNat % 4 := by
    rw [h.holds.toNat_offset (by omega)]
    omega
  rw [wp_swCap, if_neg (h.not_accessTraps (by decide) hf hc),
    TrapState.readC_of_ne (by decide : (31 : RegId) ≠ 0), hc, address_pointAt, haddr]

/-- The result of a system call is stored, where the section is aligned. -/
theorem wp_storeSyscallResult {o : Word} (hc : s.c 31 = UserEnclave.cSetOffset d o)
    (hE : d.base.toNat % 4 ≠ 0 → ∀ s, E s) :
    wp t.storeSyscallResult (fun _ s' => (∃ o', s'.c 31 = UserEnclave.cSetOffset d o')
      ∧ s'.mepcc = s.mepcc
      ∧ s'.mem = if s.mcause = 11 then s.mem.storeWord t.cfg
          (d.base + BitVec.ofNat 32 (TRAP_DATA_OFFSET_REGS + 6 * WORD_SIZE)) (s.x 10)
        else s.mem) E s := by
  unfold storeSyscallResult
  rw [Trapping.wp_bind]
  show wp (li 6 11 >>= _) _ E (s.setX 5 s.mcause)
  rw [Trapping.wp_bind, wp_li, wp_branch, TrapState.setX_self,
    TrapState.setX_of_ne _ _ _ (by decide), TrapState.setX_self]
  by_cases hcause : s.mcause = 11
  · rw [if_neg (not_not.2 hcause), Trapping.wp_bind]
    simp only [Trapping.wp_bind (x := cSetOffset 31 31 5)]
    rw [wp_point (d := d) (o := o) (by exact hc),
      wp_swCap_slot h (TrapState.setC_self _ 31 _) (by decide) (by decide), if_pos hcause]
    by_cases hal : d.base.toNat % 4 = 0
    · rw [if_neg (not_not.2 hal)]
      exact ⟨⟨_, TrapState.setMem_setC_self _ _ _ _⟩, rfl, rfl⟩
    · rw [if_pos hal]
      exact hE hal _
  · rw [if_pos hcause, Trapping.wp_pure, if_neg hcause]
    exact ⟨⟨o, hc⟩, rfl, rfl⟩

/-- **The registers are restored**, where the section is aligned. -/
theorem wp_restoreContext {o : Word} (hc : s.c 31 = UserEnclave.cSetOffset d o)
    (hE : d.base.toNat % 4 ≠ 0 → ∀ s, E s) :
    wp t.restoreContext (fun _ s' => d.base.toNat % 4 = 0 ∧ s'.mepcc = s.mepcc
      ∧ s'.c 31 = UserEnclave.cSetOffset d 0
      ∧ (∀ i r, capRegs[i]? = some r →
          s'.c r = s.mem.capSlot t.cfg d.base (TRAP_DATA_OFFSET_CAPS + CAP_LEN * i))
      ∧ (∀ i r, savedRegs[i]? = some r →
          s'.x r = s.mem.wordSlot t.cfg d.base (TRAP_DATA_OFFSET_REGS + WORD_SIZE * i))
      ∧ s'.mem = t.clearedCaps d s.mem) E s := by
  unfold restoreContext
  rw [Trapping.wp_bind]
  refine wp_walk_lcCap h (by decide) (by decide) (by decide) hc (fun o₁ c₁ hcaps => ?_)
  rw [Trapping.wp_bind]
  refine wp_walk_scCap h (fun _ => 0) (by decide) (by decide) (TrapState.setC_self _ 31 _)
    (fun o₂ => ?_)
  rw [Trapping.wp_bind]
  by_cases hal : d.base.toNat % 4 = 0
  · refine wp_walk_lwCap h hal (by decide) (by decide) (by decide)
      (TrapState.setMem_setC_self _ _ _ _) (fun o₃ x₃ hregs => ?_)
    rw [Trapping.wp_bind, wp_cIncOffsetImm, wp_cSetOffset]
    refine ⟨hal, rfl, ?_, ?_, ?_, rfl⟩
    · rw [TrapState.setC_self, TrapState.readX_zero, TrapState.readC_setC_self _ _ _ (by decide),
        TrapState.readC_setC_self _ _ _ (by decide)]
      rfl
    · intro i r hr
      have hr31 : r ≠ 31 := fun he => absurd (he ▸ List.mem_of_getElem? hr) (by decide)
      rw [TrapState.setC_of_ne _ _ _ hr31, TrapState.setC_of_ne _ _ _ hr31,
        TrapState.setC_of_ne _ _ _ hr31]
      show Function.update (Function.update c₁ 31 _) 31 _ r = _
      rw [Function.update_of_ne hr31, Function.update_of_ne hr31]
      exact hcaps.loaded i r hr
    · intro i r hr
      have hi : i < 28 := (List.getElem?_eq_some_iff.1 hr).1
      refine (hregs.loaded i r hr).trans ?_
      refine h.holds.wordSlot_storeCaps _ _ ?_ ?_
      · show TRAP_DATA_OFFSET_CAPS + CAP_LEN * 30 ≤ _
        rw [TRAP_DATA_OFFSET_CAPS, TRAP_DATA_OFFSET_REGS, CAP_LEN]
        omega
      · rw [TRAP_DATA_OFFSET_REGS, WORD_SIZE, TRAP_DATA_LEN, CAP_LEN]
        omega
  · refine wp_walk_of_misaligned hal h (by decide) (by decide) (by decide) ?_
      (TrapState.setMem_setC_self _ _ _ _)
    intro r R u hu haddr
    rw [wp_lwCap, TrapState.readC_of_ne (by decide), hu, if_pos haddr]
    split
    · exact hE hal u
    · exact hE hal u

/-- The capabilities are restored from where they were saved. -/
theorem capSlot_resultMem (s : TrapState) (hf : TRAP_DATA_OFFSET_CAPS ≤ f)
    (hf' : f + 16 ≤ TRAP_DATA_OFFSET_REGS) :
    (t.resultMem d s).capSlot t.cfg d.base f = s.mem.capSlot t.cfg d.base f := by
  have hlen : TRAP_DATA_OFFSET_REGS ≤ TRAP_DATA_LEN := by decide
  have hcap := h.holds.capSlot_storeCap_of_apart (f := TRAP_DATA_OFFSET_EPCC) (g := f) (by decide)
    (by omega) (Or.inl hf) s.mem .null
  unfold resultMem
  by_cases hcause : s.mcause = 11
  · rw [if_pos hcause, h.holds.capSlot_storeWord (by omega) (by decide) (by omega), hcap]
  · rw [if_neg hcause, hcap]

/-- And the registers, but for the result of a system call. -/
theorem wordSlot_resultMem (s : TrapState) {i : ℕ} (hi : i < 28) :
    (t.resultMem d s).wordSlot t.cfg d.base (TRAP_DATA_OFFSET_REGS + WORD_SIZE * i)
      = if s.mcause = 11 ∧ i = 6 then s.x 10
        else s.mem.wordSlot t.cfg d.base (TRAP_DATA_OFFSET_REGS + WORD_SIZE * i) := by
  have hroom : TRAP_DATA_OFFSET_REGS + WORD_SIZE * i + 4 ≤ TRAP_DATA_LEN := by
    rw [TRAP_DATA_OFFSET_REGS, WORD_SIZE, TRAP_DATA_LEN, CAP_LEN]
    omega
  have hcap := h.holds.wordSlot_storeCap (f := TRAP_DATA_OFFSET_EPCC) (by decide) hroom (by
    rw [TRAP_DATA_OFFSET_REGS, TRAP_DATA_OFFSET_EPCC, CAP_LEN]
    omega) s.mem .null
  unfold resultMem
  by_cases hcause : s.mcause = 11
  · by_cases h6 : i = 6
    · subst h6
      rw [if_pos hcause, if_pos ⟨hcause, rfl⟩]
      exact h.holds.wordSlot_storeWord_self (by decide) _ _
    · rw [if_pos hcause, if_neg (fun hh => h6 hh.2),
        h.holds.wordSlot_storeWord_of_apart (by decide) (by omega) (by
          rw [WORD_SIZE]
          omega), hcap]
  · rw [if_neg hcause, if_neg (fun hh => hcause hh.1), hcap]

/-- The second half, once the place to resume is in `ct0`. -/
theorem wp_resume (hc : s.c 31 = pointAt d TRAP_DATA_OFFSET_EPCC)
    (hasr : s.pcc.perms.accessSystemRegisters = true) (hE : d.base.toNat % 4 ≠ 0 → ∀ s, E s) :
    wp (do
      cSpecialWMepcc 5
      t.scCap 0 31
      t.storeSyscallResult
      t.restoreContext
      mret) (fun _ s' => d.base.toNat % 4 = 0 ∧ s'.pcc = s.c 5
        ∧ s'.c 31 = UserEnclave.cSetOffset d 0
        ∧ (∀ i r, capRegs[i]? = some r →
            s'.c r = s.mem.capSlot t.cfg d.base (TRAP_DATA_OFFSET_CAPS + CAP_LEN * i))
        ∧ (∀ i r, savedRegs[i]? = some r →
            s'.x r = if s.mcause = 11 ∧ i = 6 then s.x 10
              else s.mem.wordSlot t.cfg d.base (TRAP_DATA_OFFSET_REGS + WORD_SIZE * i))
        ∧ s'.mem = t.clearedCaps d (t.resultMem d s)) E s := by
  rw [Trapping.wp_bind]
  unfold cSpecialWMepcc
  rw [Trapping.wp_bind, wp_trapIf, if_neg (by rw [hasr]; decide), Trapping.wp_update,
    Trapping.wp_bind, wp_scCap_slot h (by exact hc) (by decide), TrapState.readC_zero,
    Trapping.wp_bind]
  refine Trapping.wp_mono (wp_storeSyscallResult h (by exact hc) hE) ?_ (fun _ h => h)
  rintro _ s₁ ⟨⟨o₁, hc₁⟩, hmepcc₁, hmem₁⟩
  have hmem : s₁.mem = t.resultMem d s := hmem₁
  rw [Trapping.wp_bind]
  refine Trapping.wp_mono (wp_restoreContext h hc₁ hE) ?_ (fun _ h => h)
  rintro _ s₂ ⟨hal, hmepcc₂, hc₂, hcaps, hregs, hmem₂⟩
  refine ⟨hal, hmepcc₂.trans hmepcc₁, hc₂, ?_, ?_, ?_⟩
  · intro i r hr
    have hi : i < 30 := (List.getElem?_eq_some_iff.1 hr).1
    refine (hcaps i r hr).trans ?_
    rw [hmem]
    refine capSlot_resultMem h s (Nat.le_add_right _ _) ?_
    rw [TRAP_DATA_OFFSET_CAPS, TRAP_DATA_OFFSET_REGS, CAP_LEN]
    omega
  · intro i r hr
    refine (hregs i r hr).trans ?_
    rw [hmem]
    exact wordSlot_resultMem h s (List.getElem?_eq_some_iff.1 hr).1
  · exact hmem₂.trans (by rw [hmem])

end

/-- The rule of an instruction that gives a capability, or traps. -/
theorem wp_setOrTrap_error {ε : Type} {cd : RegId} {v : TrapState → Except ε Capability} {e : ε}
    (hv : v s = .error e) (hE : E s) : wp (setOrTrap cd v) Q E s := by
  unfold wp Trapping.exec setOrTrap
  rw [hv]
  exact hE

/-- **The second half**: it restores what is in the trap data, or traps where
it is not resumable. -/
theorem wp_return {m : Capability} (h : DataSection t.cfg d) (hc : s.c 31 = sealedData d m)
    (hasr : s.pcc.perms.accessSystemRegisters = true)
    (hE : ¬ t.Resumable d s → ∀ s, E s) :
    wp t.trustedTrapReturn (fun _ s' => t.Resumable d s ∧ t.Returned d s s') E s := by
  unfold trustedTrapReturn
  rw [Trapping.wp_bind, wp_cSpecialR hasr, Trapping.wp_bind]
  unfold cUnsealI
  rcases hun : cUnseal (s.c 31) s.mtdc 31 5 with e | cap
  · refine wp_setOrTrap_error (e := e) ?_ (hE (fun hr => ?_) _)
    · exact hun
    · obtain ⟨cap, hcap⟩ := hr.unseals
      rw [hun] at hcap
      cases hcap
  · have hcap :
        cap = UserEnclave.cSetOffset d.unsealed (BitVec.ofNat 32 TRAP_DATA_OFFSET_EPCC) := by
      rw [(cUnseal_ok hun).2.2, hc]
      rfl
    subst hcap
    refine wp_setOrTrap hun ?_
    rw [Trapping.wp_bind, wp_cClearTag]
    generalize hs₁ : (((s.setC 5 s.mtdc).setC 31 _).setC 5 _) = s₁
    have hc₁ : s₁.c 31
        = UserEnclave.cSetOffset d.unsealed (BitVec.ofNat 32 TRAP_DATA_OFFSET_EPCC) := by
      rw [← hs₁, TrapState.setC_of_ne _ _ _ (by decide), TrapState.setC_self]
    have hx₁ : s₁.x = s.x := by rw [← hs₁]; rfl
    have hpcc₁ : s₁.pcc = s.pcc := by rw [← hs₁]; rfl
    have hcause₁ : s₁.mcause = s.mcause := by rw [← hs₁]; rfl
    have hmem₁ : s₁.mem = s.mem := by rw [← hs₁]; rfl
    rw [wp_rewind hc₁, Trapping.wp_bind,
      wp_lcCap_slot h.unsealed (TrapState.setC_self _ 31 _) (by decide), Trapping.wp_bind,
      wp_cGetTag, TrapState.readC_setC_self _ _ _ (by decide), wp_branch, TrapState.setX_self,
      TrapState.setC_mem, hmem₁]
    by_cases htag : (s.mem.capSlot t.cfg d.base TRAP_DATA_OFFSET_EPCC).tag = true
    · rw [if_neg (by
        show ¬ (if (s.mem.capSlot t.cfg d.base TRAP_DATA_OFFSET_EPCC).tag then (1 : Word) else 0)
          = 0
        rw [if_pos htag]
        decide)]
      refine Trapping.wp_mono
        (wp_resume h.unsealed ?_ ?_ (fun hal => hE (fun hr => hal hr.aligned)))
        ?_ (fun _ h => h)
      · rw [TrapState.setX_c, TrapState.setC_of_ne _ _ _ (by decide), TrapState.setC_self]
      · show s₁.pcc.perms.accessSystemRegisters = true
        rw [hpcc₁]
        exact hasr
      rintro _ s' ⟨hal, hpcc, hc', hcaps, hregs, hmem⟩
      have hx10 : ∀ cap cap' w, (((s₁.setC 31 cap).setC 5 cap').setX 5 w).x 10 = s.x 10 := by
        intro cap cap' w
        rw [TrapState.setX_of_ne _ _ _ (by decide), TrapState.setC_x, TrapState.setC_x, hx₁]
      refine ⟨⟨⟨_, hun⟩, htag, hal⟩, ?_, hc', ?_, ?_, ?_⟩
      · rw [hpcc, TrapState.setX_c, TrapState.setC_self]
        rfl
      · intro i r hr
        rw [hcaps i r hr, ← hmem₁]
        rfl
      · intro i r hr
        rw [hregs i r hr, hx10, ← hcause₁, ← hmem₁]
        rfl
      · rw [hmem]
        unfold resultMem
        rw [hx10, TrapState.setX_mem, TrapState.setC_mem, TrapState.setC_mem, hmem₁, ← hcause₁]
        rfl
    · rw [if_pos (by
        show (if (s.mem.capSlot t.cfg d.base TRAP_DATA_OFFSET_EPCC).tag then (1 : Word) else 0) = 0
        rw [if_neg htag])]
      exact hE (fun hr => htag hr.epcc) _

/-! ## The untrusted handler in between -/

/-- **An untrusted handler**, by what it leaves when it returns. -/
structure Untrusted where
  x : RegId → Word
  c : RegId → Capability
  ddc : Capability
  mtdc : Capability
  mscratchc : Capability
  mepcc : Capability
  mscratch : Word
  mcause : Word
  interfere : TaggedMemory → TaggedMemory

/-- It returns by the link, with `sp`, `gp`, `tp` and the sealed data
capability it was entered with. -/
def Untrusted.returnFrom (u : Untrusted) (s : TrapState) : TrapState where
  x := fun r => if r = 2 ∨ r = 3 ∨ r = 4 then s.x r else u.x r
  c := fun r => if r = 31 then s.c 31 else u.c r
  pcc := s.c 1
  ddc := u.ddc
  mtdc := u.mtdc
  mscratchc := u.mscratchc
  mepcc := u.mepcc
  mscratch := u.mscratch
  mcause := u.mcause
  mem := u.interfere s.mem

/-- **It does not write the trap data**: neither the words nor the tags. -/
def Untrusted.Spares (u : Untrusted) (cfg : MemConfig) (d : Capability) : Prop :=
  ∀ m : TaggedMemory, ∀ f < TRAP_DATA_LEN,
    (u.interfere m).ram ((d.base.toNat + f) / 4) = m.ram ((d.base.toNat + f) / 4)
      ∧ (u.interfere m).tags (cfg.granule (d.base + BitVec.ofNat 32 f))
        = m.tags (cfg.granule (d.base + BitVec.ofNat 32 f))

/-- **A trap of an enclave, from its entry to `mret`.** -/
def roundTrip (t : TrapText) (u : Untrusted) : TrapProg := do
  t.trustedTrapHandler
  Trapping.update u.returnFrom
  t.trustedTrapReturn

section

variable {u : Untrusted} (h : DataSection t.cfg d) (hu : u.Spares t.cfg d)

include h hu

theorem Untrusted.Spares.capSlot (m : TaggedMemory) (hf : f + 16 ≤ TRAP_DATA_LEN) :
    (u.interfere m).capSlot t.cfg d.base f = m.capSlot t.cfg d.base f := by
  have hs := h.holds.offset (k := 16) (by decide) hf
  rw [TaggedMemory.capSlot, TaggedMemory.capSlot, hs.loadCap_eq, hs.loadCap_eq,
    (hu m f (by omega)).2]
  refine Capability.ofMemWords_congr (fun k hk => ?_)
  have hword : (d.base + BitVec.ofNat 32 f).toNat / 4 + k = (d.base.toNat + (f + 4 * k)) / 4 := by
    rw [h.holds.toNat_offset (by omega)]
    omega
  rw [hword]
  exact (hu m (f + 4 * k) (by omega)).1

theorem Untrusted.Spares.wordSlot (m : TaggedMemory) (hf : f < TRAP_DATA_LEN) :
    (u.interfere m).wordSlot t.cfg d.base f = m.wordSlot t.cfg d.base f := by
  have hin := h.holds.inMemory_offset hf
  rw [TaggedMemory.wordSlot, TaggedMemory.wordSlot, TaggedMemory.readWord, TaggedMemory.readWord,
    if_pos hin, if_pos hin, h.holds.toNat_offset hf]
  exact (hu m f hf).1

end

/-- **What came back**, of the state at the trap: the registers, from where the
first half saved them or, where it did not, from what was there. -/
structure CameBack (t : TrapText) (u : Untrusted) (s s' : TrapState) : Prop where
  pcc : s'.pcc = s.resume
  c31 : s'.c 31 = UserEnclave.cSetOffset (s.c 31).unsealed 0
  caps : ∀ i r, capRegs[i]? = some r → s'.c r = if LengthPasses (s.c 31) then s.c r
    else s.mem.capSlot t.cfg (s.c 31).base (TRAP_DATA_OFFSET_CAPS + CAP_LEN * i)
  regs : ∀ i r, savedRegs[i]? = some r → s'.x r = if u.mcause = 11 ∧ i = 6 then u.x 10
    else if LengthPasses (s.c 31) then s.x r
    else s.mem.wordSlot t.cfg (s.c 31).base (TRAP_DATA_OFFSET_REGS + WORD_SIZE * i)
  cleared : ∀ k < 30,
    s'.mem.capSlot t.cfg (s.c 31).base (TRAP_DATA_OFFSET_CAPS + CAP_LEN * k) = .null
  epcc : s'.mem.capSlot t.cfg (s.c 31).base TRAP_DATA_OFFSET_EPCC = .null
  last : s'.mem.capSlot t.cfg (s.c 31).base (TRAP_DATA_OFFSET_CAPS + CAP_LEN * 30)
    = s.mem.capSlot t.cfg (s.c 31).base (TRAP_DATA_OFFSET_CAPS + CAP_LEN * 30)

/-- The memory at `_clear_state`: with the context saved, where the test of the
length lets it. -/
def heldMem (t : TrapText) (s : TrapState) : TaggedMemory :=
  if LengthPasses (s.c 31) then t.savedMem s else s.mem

/-- **The first half**, whichever way it goes. -/
theorem wp_handler (h : DataSection t.cfg (s.c 31)) (hi : t.Installed s)
    (hint : ¬ t.Interrupted s) (hE : (s.c 31).base.toNat % 4 ≠ 0 → ∀ s, E s) :
    wp t.trustedTrapHandler (fun _ s' => s'.c 31 = sealedData (s.c 31) s.mtdc
      ∧ s'.c 1 = UserEnclave.cSetOffset s.pcc t.returnOffset
      ∧ s'.mem = ((t.heldMem s).storeCap t.cfg
          ((s.c 31).base + BitVec.ofNat 32 TRAP_DATA_OFFSET_EPCC) s.mepcc).storeCap t.cfg
          ((s.c 31).base + BitVec.ofNat 32 TRAP_DATA_OFFSET_EPCC) s.resume) E s := by
  unfold heldMem
  by_cases hl : LengthPasses (s.c 31)
  · rw [if_pos hl]
    refine Trapping.wp_mono (wp_handler_save h hi hl hint hE) ?_ (fun _ h => h)
    rintro _ s' ⟨-, hj⟩
    exact ⟨hj.c31, hj.link, hj.mem⟩
  · rw [if_neg hl]
    refine Trapping.wp_mono (wp_handler_skip h hi (Or.inl hl)) ?_ (fun _ h => h)
    intro _ s' hj
    exact ⟨hj.c31, hj.link, hj.mem⟩

/-- The capability registers fit in the trap data. -/
theorem caps_fit {val : RegId → Capability} :
    TRAP_DATA_OFFSET_CAPS + CAP_LEN * (capRegs.map val).length ≤ TRAP_DATA_LEN := by
  rw [List.length_map]
  decide

/-- And so do the registers. -/
theorem regs_fit {val : RegId → Word} :
    TRAP_DATA_OFFSET_REGS + WORD_SIZE * (savedRegs.map val).length ≤ TRAP_DATA_LEN := by
  rw [List.length_map]
  decide

section

variable (h : DataSection t.cfg (s.c 31))

include h

/-- The trap data holds the capability registers, where they are saved. -/
theorem capSlot_heldMem {i : ℕ} {r : RegId} (hr : capRegs[i]? = some r) :
    (t.heldMem s).capSlot t.cfg (s.c 31).base (TRAP_DATA_OFFSET_CAPS + CAP_LEN * i)
      = if LengthPasses (s.c 31) then s.c r
        else s.mem.capSlot t.cfg (s.c 31).base (TRAP_DATA_OFFSET_CAPS + CAP_LEN * i) := by
  have hi : i < 30 := (List.getElem?_eq_some_iff.1 hr).1
  have h0 : r ≠ 0 := fun he => absurd (he ▸ List.mem_of_getElem? hr) (by decide)
  have hroom : TRAP_DATA_OFFSET_CAPS + CAP_LEN * i + 16 ≤ TRAP_DATA_OFFSET_REGS := by
    rw [TRAP_DATA_OFFSET_CAPS, TRAP_DATA_OFFSET_REGS, CAP_LEN]
    omega
  unfold heldMem
  by_cases hl : LengthPasses (s.c 31)
  · rw [if_pos hl, if_pos hl, savedMem, h.holds.capSlot_storeWords _ _ regs_fit hroom]
    refine h.holds.capSlot_storeCaps _ _ caps_fit ?_
    rw [List.getElem?_map, hr, Option.map_some, TrapState.readC_of_ne h0]
  · rw [if_neg hl, if_neg hl]

/-- Nothing is saved to the thirty-first slot. -/
theorem capSlot_heldMem_last :
    (t.heldMem s).capSlot t.cfg (s.c 31).base (TRAP_DATA_OFFSET_CAPS + CAP_LEN * 30)
      = s.mem.capSlot t.cfg (s.c 31).base (TRAP_DATA_OFFSET_CAPS + CAP_LEN * 30) := by
  unfold heldMem
  by_cases hl : LengthPasses (s.c 31)
  · rw [if_pos hl, savedMem, h.holds.capSlot_storeWords _ _ regs_fit (by decide),
      h.holds.capSlot_storeCaps_of_apart _ _ caps_fit (by decide) (Or.inr (by
        rw [List.length_map]
        decide))]
  · rw [if_neg hl]

/-- And it holds the registers. -/
theorem wordSlot_heldMem {i : ℕ} {r : RegId} (hr : savedRegs[i]? = some r) :
    (t.heldMem s).wordSlot t.cfg (s.c 31).base (TRAP_DATA_OFFSET_REGS + WORD_SIZE * i)
      = if LengthPasses (s.c 31) then s.x r
        else s.mem.wordSlot t.cfg (s.c 31).base (TRAP_DATA_OFFSET_REGS + WORD_SIZE * i) := by
  have h0 : r ≠ 0 := fun he => absurd (he ▸ List.mem_of_getElem? hr) (by decide)
  unfold heldMem
  by_cases hl : LengthPasses (s.c 31)
  · rw [if_pos hl, if_pos hl, savedMem]
    refine h.holds.wordSlot_storeWords _ _ regs_fit ?_
    rw [List.getElem?_map, hr, Option.map_some, TrapState.readX_of_ne h0]
  · rw [if_neg hl, if_neg hl]

/-- **What came back, of a whole round trip.** -/
theorem Returned.cameBack {u : Untrusted} {s' s'' : TrapState} (hu : u.Spares t.cfg (s.c 31))
    (hmem : s'.mem = ((t.heldMem s).storeCap t.cfg
      ((s.c 31).base + BitVec.ofNat 32 TRAP_DATA_OFFSET_EPCC) s.mepcc).storeCap t.cfg
      ((s.c 31).base + BitVec.ofNat 32 TRAP_DATA_OFFSET_EPCC) s.resume)
    (hr : t.Returned (s.c 31) (u.returnFrom s') s'') : t.CameBack u s s'' := by
  have hback : (u.returnFrom s').mem = u.interfere s'.mem := rfl
  have hcapSlot : ∀ f, TRAP_DATA_OFFSET_CAPS ≤ f → f + 16 ≤ TRAP_DATA_LEN →
      (u.returnFrom s').mem.capSlot t.cfg (s.c 31).base f
        = (t.heldMem s).capSlot t.cfg (s.c 31).base f := by
    intro f hf hf'
    rw [hback, hu.capSlot h _ hf', hmem, h.capSlot_of_storeEpcc _ _ hf hf']
  have hlast : (t.clearedCaps (s.c 31) (t.resultMem (s.c 31) (u.returnFrom s'))).capSlot t.cfg
      (s.c 31).base (TRAP_DATA_OFFSET_CAPS + CAP_LEN * 30)
        = s.mem.capSlot t.cfg (s.c 31).base (TRAP_DATA_OFFSET_CAPS + CAP_LEN * 30) := by
    rw [clearedCaps, h.holds.capSlot_storeCaps_of_apart _ _ (by decide) (by decide)
      (Or.inr (by decide)), capSlot_resultMem h _ (by decide) (by decide),
      hcapSlot _ (by decide) (by decide), capSlot_heldMem_last h]
  refine ⟨?_, hr.c31, ?_, ?_, ?_, ?_, ?_⟩
  · rw [hr.pcc, hback, hu.capSlot h _ (by decide), hmem, h.capSlot_epcc]
  · intro i r hir
    have hi : i < 30 := (List.getElem?_eq_some_iff.1 hir).1
    rw [hr.caps i r hir, hcapSlot _ (Nat.le_add_right _ _) (by
      rw [TRAP_DATA_OFFSET_CAPS, TRAP_DATA_LEN, CAP_LEN]
      omega), capSlot_heldMem h hir]
  · intro i r hir
    have hi : i < 28 := (List.getElem?_eq_some_iff.1 hir).1
    have hroom : TRAP_DATA_OFFSET_REGS + WORD_SIZE * i + 4 ≤ TRAP_DATA_LEN := by
      rw [TRAP_DATA_OFFSET_REGS, WORD_SIZE, TRAP_DATA_LEN, CAP_LEN]
      omega
    rw [hr.regs i r hir, hback, hu.wordSlot h _ (by omega), hmem,
      h.wordSlot_of_storeEpcc _ _ (by
        rw [TRAP_DATA_OFFSET_REGS, TRAP_DATA_OFFSET_CAPS]
        omega) hroom, wordSlot_heldMem h hir]
    rfl
  · intro k hk
    rw [hr.mem, clearedCaps]
    refine h.holds.capSlot_storeCaps _ _ caps_fit ?_
    rw [List.getElem?_map, List.getElem?_eq_getElem (by exact hk)]
    rfl
  · rw [hr.mem, clearedCaps, h.holds.capSlot_storeCaps_of_apart _ _ (by decide) (by decide)
      (Or.inl (by decide))]
    unfold resultMem
    by_cases hcause : (u.returnFrom s').mcause = 11
    · rw [if_pos hcause, h.holds.capSlot_storeWord (by decide) (by decide) (by decide)]
      exact h.holds.capSlot_storeCap_self (by decide) _ _
    · rw [if_neg hcause]
      exact h.holds.capSlot_storeCap_self (by decide) _ _
  · rw [hr.mem, hlast]

end

/-! ## When the enclave comes back -/

/-- **What it takes to resume at all**: an aligned section, a tagged place to
resume, and a seal in `MTDC` that unseals the data section again. -/
structure Resumes (t : TrapText) (u : Untrusted) (s : TrapState) : Prop where
  aligned : (s.c 31).base.toNat % 4 = 0
  mepcc : s.mepcc.tag = true
  unseals : ∃ cap, cUnseal (sealedData (s.c 31) s.mtdc) u.mtdc 31 5 = .ok cap

theorem tag_resume (s : TrapState) : s.resume.tag = s.mepcc.tag := by
  unfold TrapState.resume
  split
  · rfl
  · rfl

/-- **A round trip**: the enclave comes back, or it cannot be resumed. -/
theorem wp_roundTrip {u : Untrusted} (h : DataSection t.cfg (s.c 31)) (hi : t.Installed s)
    (hint : ¬ t.Interrupted s) (hu : u.Spares t.cfg (s.c 31)) :
    wp (t.roundTrip u) (fun _ s' => t.Resumes u s ∧ t.CameBack u s s')
      (fun _ => ¬ t.Resumes u s) s := by
  unfold roundTrip
  rw [Trapping.wp_bind]
  refine Trapping.wp_mono (wp_handler h hi hint (fun hal _ hr => hal hr.aligned)) ?_ (fun _ h => h)
  rintro _ s' ⟨hc31, hlink, hmem⟩
  have hepcc : (u.returnFrom s').mem.capSlot t.cfg (s.c 31).base TRAP_DATA_OFFSET_EPCC
      = s.resume := by
    show (u.interfere s'.mem).capSlot _ _ _ = _
    rw [hu.capSlot h _ (by decide), hmem, h.capSlot_epcc]
  have hback : (u.returnFrom s').c 31 = sealedData (s.c 31) s.mtdc := hc31
  have hiff : t.Resumable (s.c 31) (u.returnFrom s') ↔ t.Resumes u s := by
    constructor
    · intro hr
      refine ⟨hr.aligned, ?_, ?_⟩
      · rw [← tag_resume, ← hepcc]
        exact hr.epcc
      · rw [← hback]
        exact hr.unseals
    · intro hr
      refine ⟨?_, ?_, hr.aligned⟩
      · rw [hback]
        exact hr.unseals
      · rw [hepcc, tag_resume]
        exact hr.mepcc
  rw [Trapping.wp_bind, Trapping.wp_update]
  refine Trapping.wp_mono (wp_return h hback ?_ (fun hno _ => mt hiff.2 hno)) ?_ (fun _ h => h)
  · show (s'.c 1).perms.accessSystemRegisters = true
    rw [hlink]
    exact hi.asr
  · rintro _ s'' ⟨hres, hret⟩
    exact ⟨hiff.1 hres, hret.cameBack h hu hmem⟩

/-- An enclave that can be resumed comes back. -/
theorem exists_cameBack {u : Untrusted} (h : DataSection t.cfg (s.c 31)) (hi : t.Installed s)
    (hint : ¬ t.Interrupted s) (hu : u.Spares t.cfg (s.c 31)) (hr : t.Resumes u s) :
    ∃ s', (t.roundTrip u).exec s = (.ok (), s') ∧ t.CameBack u s s' := by
  obtain ⟨_, s', hexec, -, hb⟩ := Trapping.wp_exists
    (Trapping.wp_mono (wp_roundTrip h hi hint hu) (fun _ _ h => h) (fun _ hno => hno hr))
  exact ⟨s', hexec, hb⟩

/-- **The enclave is as it was**: all its registers are back, but for `a0`
behind a system call; it resumes where it was interrupted; and its trap data
holds no capability. -/
structure Restored (t : TrapText) (u : Untrusted) (s s' : TrapState) : Prop where
  caps : ∀ r ∈ capRegs, s'.c r = s.c r
  c31 : s'.c 31 = s.c 31
  regs : ∀ r ∈ savedRegs, r ≠ 10 → s'.x r = s.x r
  a0 : s'.x 10 = if s.mcause = 11 then u.x 10 else s.x 10
  pcc : s'.pcc = s.resume
  untagged : ∀ k < 31,
    (s'.mem.capSlot t.cfg (s.c 31).base (TRAP_DATA_OFFSET_CAPS + CAP_LEN * k)).tag = false
  epcc : (s'.mem.capSlot t.cfg (s.c 31).base TRAP_DATA_OFFSET_EPCC).tag = false

/-- The trap data already holds what is to be saved, but for `a0`. -/
structure HeldAlready (t : TrapText) (s : TrapState) : Prop where
  caps : ∀ i r, capRegs[i]? = some r →
    s.mem.capSlot t.cfg (s.c 31).base (TRAP_DATA_OFFSET_CAPS + CAP_LEN * i) = s.c r
  regs : ∀ i r, savedRegs[i]? = some r → r ≠ 10 →
    s.mem.wordSlot t.cfg (s.c 31).base (TRAP_DATA_OFFSET_REGS + WORD_SIZE * i) = s.x r

/-- What `a0` is restored from, where there was no system call. -/
def heldA0 (t : TrapText) (s : TrapState) : Word :=
  if LengthPasses (s.c 31) then s.x 10
  else s.mem.wordSlot t.cfg (s.c 31).base (TRAP_DATA_OFFSET_REGS + WORD_SIZE * 6)

/-- **What it takes to come back**: the data capability is at its start, what
is to be saved is saved, nothing is in the slot that is never cleared, and the
cause read again asks for the `a0` that the first one asked for. -/
structure Restorable (t : TrapText) (u : Untrusted) (s : TrapState) : Prop where
  resumes : t.Resumes u s
  offset : (s.c 31).offset = 0
  otype : (s.c 31).otype = .unsealed
  saved : LengthPasses (s.c 31) ∨ t.HeldAlready s
  a0 : (if u.mcause = 11 then u.x 10 else t.heldA0 s) = if s.mcause = 11 then u.x 10 else s.x 10
  last : (s.mem.capSlot t.cfg (s.c 31).base (TRAP_DATA_OFFSET_CAPS + CAP_LEN * 30)).tag = false

/-- `a0` is saved in the seventh slot, and no other register is. -/
theorem savedRegs_eq_ten_iff {i : ℕ} {r : RegId} (hr : savedRegs[i]? = some r) :
    r = 10 ↔ i = 6 := by
  have hall : ∀ k : Fin savedRegs.length, savedRegs.get k = 10 ↔ k.val = 6 := by decide
  obtain ⟨hi, rfl⟩ := List.getElem?_eq_some_iff.1 hr
  exact hall ⟨i, hi⟩

/-- **What came back is what was there exactly where it takes no luck.** -/
theorem CameBack.restored_iff {u : Untrusted} {s' : TrapState} (hb : t.CameBack u s s')
    (hr : t.Resumes u s) : t.Restored u s s' ↔ t.Restorable u s := by
  have ha0 : s'.x 10 = if u.mcause = 11 then u.x 10 else t.heldA0 s := by
    rw [hb.regs 6 10 rfl, heldA0]
    simp only [and_true]
  constructor
  · intro h
    have hd : UserEnclave.cSetOffset (s.c 31).unsealed 0 = s.c 31 := hb.c31.symm.trans h.c31
    refine ⟨hr, ?_, ?_, ?_, ha0.symm.trans h.a0, ?_⟩
    · rw [← hd]
      rfl
    · rw [← hd]
      rfl
    · by_cases hl : LengthPasses (s.c 31)
      · exact Or.inl hl
      · refine Or.inr ⟨fun i r hir => ?_, fun i r hir hne => ?_⟩
        · rw [← h.caps r (List.mem_of_getElem? hir), hb.caps i r hir, if_neg hl]
        · rw [← h.regs r (List.mem_of_getElem? hir) hne, hb.regs i r hir,
            if_neg (fun hh => hne ((savedRegs_eq_ten_iff hir).2 hh.2)), if_neg hl]
    · rw [← hb.last]
      exact h.untagged 30 (by decide)
  · intro h
    refine ⟨?_, ?_, ?_, ha0.trans h.a0, hb.pcc, ?_, ?_⟩
    · intro r hmem
      obtain ⟨i, hir⟩ := List.getElem?_of_mem hmem
      rw [hb.caps i r hir]
      by_cases hl : LengthPasses (s.c 31)
      · rw [if_pos hl]
      · rw [if_neg hl]
        exact (h.saved.resolve_left hl).caps i r hir
    · rw [hb.c31]
      have ho := h.offset
      have ht := h.otype
      generalize s.c 31 = d at ho ht
      cases d
      subst ho ht
      rfl
    · intro r hmem hne
      obtain ⟨i, hir⟩ := List.getElem?_of_mem hmem
      rw [hb.regs i r hir, if_neg (fun hh => hne ((savedRegs_eq_ten_iff hir).2 hh.2))]
      by_cases hl : LengthPasses (s.c 31)
      · rw [if_pos hl]
      · rw [if_neg hl]
        exact (h.saved.resolve_left hl).regs i r hir hne
    · intro k hk
      by_cases hk' : k = 30
      · subst hk'
        rw [hb.last]
        exact h.last
      · rw [hb.cleared k (by omega)]
        rfl
    · rw [hb.epcc]
      rfl

end TrapText

open TrapText in
/-- **Saving and restoring, and when it works.** A trap of an enclave that is
not interrupted yet, with an untrusted handler that spares the trap data, brings
the enclave back as it was if and only if it is restorable. -/
theorem roundTrip_restored_iff (t : TrapText) (u : Untrusted) (s : TrapState)
    (h : DataSection t.cfg (s.c 31)) (hi : t.Installed s) (hint : ¬ t.Interrupted s)
    (hu : u.Spares t.cfg (s.c 31)) :
    (∃ s', (t.roundTrip u).exec s = (.ok (), s') ∧ t.Restored u s s') ↔ t.Restorable u s := by
  have hwp := wp_roundTrip h hi hint hu
  unfold Trapping.wp at hwp
  rcases hexec : (t.roundTrip u).exec s with ⟨e | _, s'⟩
  · rw [hexec] at hwp
    refine ⟨?_, fun hr => absurd hr.resumes hwp⟩
    rintro ⟨_, hne, _⟩
    cases hne
  · rw [hexec] at hwp
    refine Iff.trans ?_ (hwp.2.restored_iff hwp.1)
    refine ⟨?_, fun hr => ⟨s', rfl, hr⟩⟩
    rintro ⟨s'', heq, hr⟩
    cases heq
    exact hr

/-! ### A timer interrupt -/

namespace TrapText

/-- A memory with nothing in it. -/
def blankMemory : TaggedMemory := ⟨fun _ => false, fun _ => 0⟩

/-- An untrusted handler that clears its registers, and returns with `a0` at
one and a cause of the last trap. -/
def handlerWith (mcause : Word) : Untrusted where
  x := fun r => if r = 10 then 1 else 0
  c := fun _ => .null
  ddc := .root
  mtdc := handlerSeal
  mscratchc := .null
  mepcc := .null
  mscratch := 0
  mcause := mcause
  interfere := id

theorem handlerWith_spares (mcause : Word) :
    (handlerWith mcause).Spares smallText.cfg trapSection := fun _ _ _ => ⟨rfl, rfl⟩

theorem interruptedAt_blank_not_interrupted (offset : Word) :
    ¬ smallText.Interrupted (interruptedAt offset blankMemory) := Bool.false_ne_true

theorem handlerWith_resumes (offset mcause : Word) :
    smallText.Resumes (handlerWith mcause) (interruptedAt offset blankMemory) :=
  ⟨(by decide : trapSection.base.toNat % 4 = 0), rfl, _, by
    show cUnseal (sealedData trapSection handlerSeal) handlerSeal 31 5
      = .ok (sealedData trapSection handlerSeal).unsealed
    decide⟩

end TrapText

open TrapText in
/-- A timer interrupt, with a handler that is not interrupted itself. -/
theorem roundTrip_of_timer :
    ∃ s', (smallText.roundTrip (handlerWith 0x80000007)).exec (interruptedAt 8 blankMemory)
        = (.ok (), s')
      ∧ smallText.Restored (handlerWith 0x80000007) (interruptedAt 8 blankMemory) s' :=
  (roundTrip_restored_iff smallText (handlerWith 0x80000007) (interruptedAt 8 blankMemory)
    trapSection_dataSection (interruptedAt_installed 8 _) (interruptedAt_blank_not_interrupted 8)
    (handlerWith_spares _)).2
    ⟨handlerWith_resumes 8 _, rfl, rfl, Or.inl (by decide), by decide, rfl⟩

open TrapText in
/-- **The cause is read again.** Where the handler made a system call of its
own in between, an enclave that was interrupted by the timer finds the result
in `a0`. -/
theorem roundTrip_of_timer_overwrites_a0 :
    let s := interruptedAt 8 blankMemory
    let u := handlerWith 11
    DataSection smallText.cfg (s.c 31) ∧ smallText.Installed s ∧ ¬ smallText.Interrupted s
      ∧ u.Spares smallText.cfg (s.c 31) ∧ s.mcause ≠ 11
      ∧ ∃ s', (smallText.roundTrip u).exec s = (.ok (), s')
        ∧ s.x 10 = 0 ∧ s'.x 10 = 1 ∧ ¬ smallText.Restored u s s' := by
  refine ⟨trapSection_dataSection, interruptedAt_installed 8 _,
    interruptedAt_blank_not_interrupted 8, handlerWith_spares 11, by decide, ?_⟩
  obtain ⟨s', hexec, hb⟩ := exists_cameBack (t := smallText) (s := interruptedAt 8 blankMemory)
    trapSection_dataSection (interruptedAt_installed 8 _) (interruptedAt_blank_not_interrupted 8)
    (handlerWith_spares 11) (handlerWith_resumes 8 11)
  have ha0 : s'.x 10 = 1 := hb.regs 6 10 rfl
  refine ⟨s', hexec, rfl, ha0, fun hr => ?_⟩
  have hback : s'.x 10 = 0 := hr.a0
  rw [ha0] at hback
  exact absurd hback (by decide)

end Proteus
