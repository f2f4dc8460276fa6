import CheriTree.Proteus.Lsu

/-!
# Stores of instructions that fault

An instruction that write-back finds to have trapped should have written nothing.
To say so, the stores that an instruction has put on a bus are kept next to it
while it is in the memory stage and in write-back (`Traced`).

It does hold of an instruction that never stores once it has trapped, and never
before it is known that it will not. The second takes that what its address is
made of does not change any more (`AddressKnown`): a store of data drives the bus
also while it waits for it, and the address it has by then may not be the one
that is checked. `Held` is what carries this over the cycles in which a store
waits for the bus: whatever comes, its operands stay and its checks pass.
-/

namespace Proteus

/-- **The pipeline with the stores** that the instructions in its last two stages
have issued. -/
structure Traced where
  pipe : StaticPipeline
  memStores : List StoreCmd
  wbStores : List StoreCmd

namespace Traced

/-- What the instruction in the memory stage has issued, this cycle included. -/
def issued (t : Traced) (e : CoreInputs) : List StoreCmd :=
  t.memStores ++ (t.pipe.memStore e).toList

/-- **One cycle.** The stores go on with their instruction, stay with it, or are
dropped when it is flushed. -/
def next (t : Traced) (e : CoreInputs) (writeFirst : Bool) : Traced :=
  let memArb := t.pipe.memArb (t.pipe.signals e)
  let wbArb := t.pipe.wbArb (t.pipe.signals e)
  { pipe := t.pipe.next (t.pipe.signals e) writeFirst
    memStores := if memArb.isValid && !memArb.isDone then t.issued e else []
    wbStores := if memArb.isDone then t.issued e
      else if wbArb.isValid && !wbArb.isDone then t.wbStores
      else [] }

/-- **The core**, seen by nothing but its state. -/
def machine (writeFirst : Bool) : SyncMachine Traced CoreInputs Unit where
  step := fun t e => (t.next e writeFirst, ())

/-- The core with nothing issued. -/
def ofPipe (p : StaticPipeline) : Traced := ⟨p, [], []⟩

end Traced

namespace StaticPipeline

variable (p : StaticPipeline) (e : CoreInputs)

/-- **The instruction in write-back commits with a synchronous exception**: of an
earlier stage or of write-back, and no interrupt takes its place. -/
def faults : Bool := p.wbValid && (p.wb.hasTrapped || p.wbException e) && !e.interrupt

/-- The instruction in write-back has its result, if it writes a source of the
memory stage. -/
def Available (rs : Source) (t : RegisterType) : Prop :=
  p.wbValid = true → p.mem.instr.rs rs ≠ 0 → p.wb.instr.Writes t (p.mem.instr.rs rs) →
    p.wb.rdValid = true

/-- **Nothing in write-back changes the address** of the access in the memory
stage, or the capability that authorises it. -/
def AddressKnown : Prop :=
  if p.mem.instr.opcode.useCapAddr then p.Available .RS1 .CAP
  else ¬ (p.wbValid = true ∧ p.wb.instr.WritesDdc)
    ∧ (p.mem.instr.opcode.isStoreCap = true → p.Available .RS1 .GPR)

instance (rs : Source) (t : RegisterType) : Decidable (p.Available rs t) :=
  inferInstanceAs (Decidable (_ → _))

instance : Decidable p.AddressKnown :=
  inferInstanceAs (Decidable (if p.mem.instr.opcode.useCapAddr then p.Available .RS1 .CAP
    else ¬ (p.wbValid = true ∧ p.wb.instr.WritesDdc)
      ∧ (p.mem.instr.opcode.isStoreCap = true → p.Available .RS1 .GPR)))

/-! ## What stays while the memory stage waits -/

section Stays

open Arbitration

variable {p : StaticPipeline} {i i' : Signals} {writeFirst : Bool} {rs : Source} {t : RegisterType}

/-- An instruction that stays in the memory stage keeps what it has read. -/
theorem mem_stays (writeFirst : Bool) (hv : (p.memArb i).isValid = true)
    (hd : (p.memArb i).isDone = false) :
    (p.next i writeFirst).mem = { p.mem with rsData := p.input (p.memView i) } := by
  have hex : (p.exArb i).isDone = false := by
    rw [Bool.eq_false_iff]
    intro hdone
    exact absurd (isDone_of_blocks (of_isDone hdone).1 hv) (by rw [hd]; decide)
  exact shift_of_stays (v := p.memView i) hv hd hex

/-- **What is in write-back then was there before**, and has made no result in
the meantime. -/
theorem wb_of_mem_stays (hd : (p.memArb i).isDone = false)
    (hv : (p.next i writeFirst).wbValid = true) :
    p.wbValid = true ∧ (p.wbArb i).isDone = false
      ∧ (p.next i writeFirst).wb = { p.wb with rsData := p.input (p.wbView i) } := by
  obtain ⟨hprev, -⟩ | ⟨hvalid, hdone, hshift⟩ := shift_cases p (p.wbView i) (p.memArb i)
    (p.output (p.memView i)) (fun hp => (of_isDone hp).1) hv
  · rw [hd] at hprev
    cases hprev
  · exact ⟨(p.wbArb_isValid i).symm.trans hvalid, hdone, hshift⟩

/-- A source of the memory stage that write-back has a value for. -/
theorem input_of_result (hv : (p.memArb i).isValid = true)
    (htype : p.mem.instr.rsType rs = some t) (hr : p.mem.instr.rs rs ≠ 0)
    (hwb : p.wbValid = true) (hw : p.wb.instr.Writes t (p.mem.instr.rs rs))
    (hrd : p.wb.rdValid = true) : p.input (p.memView i) rs t = p.wb.rdData t := by
  have hlater : (p.memView i).later = [p.wb] := by
    show p.laterMem i = [p.wb]
    rw [laterMem_eq (of_isValid hv).2, afterMem, if_pos hwb]
  have hkey : (p.wb.entry t).key = some ((p.memView i).regs.instr.rs rs) := key_entry_iff.2 hw
  have hvalue : (p.wb.entry t).value = some (p.wb.rdData t) := if_pos hrd
  unfold input forwarded
  rw [resolveRs_eq (v := p.memView i) (by cases rs <;> rfl) hv htype hr, hlater]
  show ((Bypass.resolve _ _ ([(p.lastWrittenRd t).entry] ++ [p.wb.entry t])).value).getD _ = _
  rw [Bypass.value_resolve_concat hkey hvalue]
  rfl

/-- A source of the memory stage that write-back does not write. -/
theorem input_of_no_result (hv : (p.memArb i).isValid = true)
    (htype : p.mem.instr.rsType rs = some t) (hr : p.mem.instr.rs rs ≠ 0)
    (hno : ¬ (p.wbValid = true ∧ p.wb.instr.Writes t (p.mem.instr.rs rs))) :
    p.input (p.memView i) rs t = if (p.lastWrittenRd t).valid = true
        ∧ (p.lastWrittenRd t).id = p.mem.instr.rs rs then (p.lastWrittenRd t).data
      else p.mem.rsData rs t := by
  refine input_of_no_writer (v := p.memView i) (by cases rs <;> rfl) hv htype hr (fun q hq hw => ?_)
  have hq' : q ∈ p.afterMem := laterMem_eq (of_isValid hv).2 ▸ hq
  unfold afterMem at hq'
  split at hq'
  · rename_i hwb
    obtain rfl := List.mem_singleton.1 hq'
    exact hno ⟨hwb, hw⟩
  · exact absurd hq' List.not_mem_nil

/-- What is not a source, or is register 0, is what the registers hold. -/
theorem input_of_not_source {v : View}
    (h : ¬ (v.regs.instr.rs rs ≠ 0 ∧ v.regs.instr.rsType rs = some t)) :
    p.input v rs t = v.regs.rsData rs t := by
  unfold input forwarded resolveRs
  rw [if_neg (fun hc => h hc.2.2)]
  rfl

/-- **A source that is available does not change** while its instruction stays in
the memory stage. Its value is with the instruction in write-back until that
retires, and with the last write from then on; or it was read before. -/
theorem input_stays (hres : p.ResultsMade) (hav : p.Available rs t)
    (hv : (p.memArb i).isValid = true) (hd : (p.memArb i).isDone = false)
    (hv' : ((p.next i writeFirst).memArb i').isValid = true) :
    (p.next i writeFirst).input ((p.next i writeFirst).memView i') rs t
      = p.input (p.memView i) rs t := by
  have hmem := mem_stays writeFirst hv hd
  have hinstr : (p.next i writeFirst).mem.instr = p.mem.instr := by rw [hmem]
  have hdata : (p.next i writeFirst).mem.rsData rs t = p.input (p.memView i) rs t := by rw [hmem]
  by_cases hsource : p.mem.instr.rs rs ≠ 0 ∧ p.mem.instr.rsType rs = some t
  · obtain ⟨hr, htype⟩ := hsource
    have htype' : (p.next i writeFirst).mem.instr.rsType rs = some t := by rw [hinstr]; exact htype
    have hr' : (p.next i writeFirst).mem.instr.rs rs ≠ 0 := by rw [hinstr]; exact hr
    have hlast : (p.next i writeFirst).lastWrittenRd t = p.lastWritten i t := rfl
    by_cases hw : p.wbValid = true ∧ p.wb.instr.Writes t (p.mem.instr.rs rs)
    · have hrd := hav hw.1 hr hw.2
      rw [input_of_result hv htype hr hw.1 hw.2 hrd]
      cases hdone : (p.wbArb i).isDone with
      | false =>
        -- the writer stays
        obtain ⟨hwb', -, -⟩ := wb_stays writeFirst hw.1 hdone
        obtain ⟨-, -, hwb⟩ := wb_of_mem_stays hd hwb'
        rw [input_of_result hv' htype' hr' hwb' (by rw [hwb, hinstr]; exact hw.2)
          (by rw [hwb]; exact hrd), hwb]
      | true =>
        -- the writer retires, and is the last write
        have hret := retires_of_isDone (of_isValid hv).2 hdone
        have hno : ¬ p.wb.instr.Produces .WB := by
          intro hprod
          obtain hex | hm := (hres.wb hw.1).1 hrd
          · exact absurd (produces_unique hprod hex) (by decide)
          · exact absurd (produces_unique hprod hm) (by decide)
        have hlast' : p.lastWritten i t = ⟨p.wb.instr.rd, true, p.wb.rdData t⟩ := by
          unfold lastWritten
          rw [if_pos hret]
          show (⟨p.wb.instr.rd, (p.wb.rdValid || _) && decide (p.wb.instr.rdType = some t),
            if p.wb.instr.Produces .WB then _ else p.wb.rdData t⟩ : LastWrittenRd t) = _
          rw [hrd, Bool.true_or, hw.2.1, decide_eq_true rfl, if_neg hno]
          rfl
        rw [input_of_no_result hv' htype' hr', hlast, hlast',
          if_pos ⟨rfl, by rw [hinstr]; exact hw.2.2⟩]
        rintro ⟨hwb', -⟩
        rw [(wb_of_mem_stays hd hwb').2.1] at hdone
        cases hdone
    · have hno' : ¬ ((p.next i writeFirst).wbValid = true
          ∧ (p.next i writeFirst).wb.instr.Writes t ((p.next i writeFirst).mem.instr.rs rs)) := by
        rintro ⟨hwb', hw'⟩
        obtain ⟨hwb, -, heq⟩ := wb_of_mem_stays hd hwb'
        rw [heq, hinstr] at hw'
        exact hw ⟨hwb, hw'⟩
      rw [input_of_no_result hv' htype' hr' hno', hdata, hinstr, hlast]
      split
      · rename_i hmatch
        -- the last write is still the one that was read
        have hret : p.retires i = false := by
          rw [Bool.eq_false_iff]
          intro hret
          unfold lastWritten at hmatch
          rw [if_pos hret] at hmatch
          have hvalid := (Bool.and_eq_true _ _ ▸ hmatch.1).2
          exact hw ⟨(p.wbArb_isValid i).symm.trans (isValid_of_isDone (isDone_of_retires hret)),
            of_decide_eq_true hvalid, hmatch.2⟩
        have hkeep : p.lastWritten i t = p.lastWrittenRd t := by
          unfold lastWritten
          rw [hret]
          rfl
        rw [hkeep] at hmatch ⊢
        rw [input_of_no_result hv htype hr hw, if_pos hmatch]
      · rfl
  · rw [input_of_not_source (v := (p.next i writeFirst).memView i')
      (fun hc => hsource ⟨hinstr ▸ hc.1, hinstr ▸ hc.2⟩)]
    exact hdata

/-- **A source stays available.** -/
theorem Available.stays (h : p.Available rs t) (hv : (p.memArb i).isValid = true)
    (hd : (p.memArb i).isDone = false) : (p.next i writeFirst).Available rs t := by
  intro hwb' hr hw
  obtain ⟨hwb, -, heq⟩ := wb_of_mem_stays hd hwb'
  rw [mem_stays writeFirst hv hd] at hr hw
  rw [heq] at hw ⊢
  exact h hwb hr hw

/-- **An address stays known.** -/
theorem AddressKnown.stays (h : p.AddressKnown) (hv : (p.memArb i).isValid = true)
    (hd : (p.memArb i).isDone = false) : (p.next i writeFirst).AddressKnown := by
  have hinstr : (p.next i writeFirst).mem.instr = p.mem.instr := by
    rw [mem_stays writeFirst hv hd]
  unfold AddressKnown at h ⊢
  rw [hinstr]
  split at h
  · rename_i hcap
    rw [if_pos hcap]
    exact h.stays hv hd
  · rename_i hcap
    rw [if_neg hcap]
    refine ⟨?_, fun hstore => (h.2 hstore).stays hv hd⟩
    rintro ⟨hwb', hw⟩
    obtain ⟨hwb, -, heq⟩ := wb_of_mem_stays hd hwb'
    rw [heq] at hw
    exact h.1 ⟨hwb, hw⟩

/-- A source that the memory stage needs and does not wait for is available. -/
theorem available_of_not_stalled (hv : (p.memArb i).isValid = true)
    (htype : p.mem.instr.rsType rs = some t) (hneeded : (i.stage .MEM).rsNeeded rs = true)
    (hwait : (p.resolveRs (p.laterMem i) .MEM (p.memArb i).isValid p.mem (i.stage .MEM) rs
      t).stalled = false) : p.Available rs t := by
  intro hwb hr hw
  have hlater : p.laterMem i = [p.wb] := by
    rw [laterMem_eq (of_isValid hv).2, afterMem, if_pos hwb]
  have hkey : (p.wb.entry t).key = some (p.mem.instr.rs rs) := key_entry_iff.2 hw
  have hres := resolveRs_eq (p := p) (v := p.memView i) (by cases rs <;> rfl) hv htype hr
  have hwait : (Bypass.resolve ((i.stage .MEM).rsNeeded rs) (p.mem.instr.rs rs)
      ((p.lastWrittenRd t).entry :: (p.laterMem i).map (fun q => q.entry t))).stalled = false :=
    (congrArg Bypass.Info.stalled hres).symm.trans hwait
  rw [hneeded, hlater] at hwait
  have hyoungest : Bypass.youngest (p.mem.instr.rs rs)
      ([(p.lastWrittenRd t).entry] ++ [p.wb.entry t]) = some (p.wb.entry t) := by
    rw [Bypass.youngest_concat, if_pos hkey]
  obtain ⟨hnone, -⟩ | ⟨en, x, hsome, hval, -⟩ := Bypass.resolve_eq_of_not_stalled hwait
  · exact absurd (hyoungest.symm.trans hnone) (by simp)
  · obtain rfl := Option.some.inj (hyoungest.symm.trans hsome)
    have hval' : (if p.wb.rdValid then some (p.wb.rdData t) else none) = some x := hval
    cases hrd : p.wb.rdValid with
    | true => rfl
    | false =>
      rw [hrd] at hval'
      cases hval'

end Stays

/-! ## The checks of a store -/

/-- **An instruction that stores will not trap** in the memory stage, nor has it
before. -/
structure Passes (p : StaticPipeline) (e : CoreInputs) : Prop where
  untrapped : p.mem.hasTrapped = false
  isStore : p.mem.instr.opcode.IsStore
  known : p.mem.instr.opcode.isEnclaveStore = false → p.AddressKnown
  aligned : Lsu.alignmentTrap p.mem (p.addressOperands e) = false
  checked : Lsu.checkTrap p.mem (p.addressOperands e) = false

section Passes

variable {p : StaticPipeline} {e e' : CoreInputs} {writeFirst : Bool}

theorem memIsRunning_iff :
    p.memIsRunning e = true
      ↔ p.memIsValid e = true ∧ (p.memArb (p.signals e)).isStalled = false := by
  unfold memIsRunning
  rw [Bool.and_eq_true, Bool.not_eq_true']
  exact Iff.rfl

theorem memIsRunning_of_isDone (h : (p.memArb (p.signals e)).isDone = true) :
    p.memIsRunning e = true :=
  have hv : (p.memArb (p.signals e)).isValid = true := Arbitration.isValid_of_isDone h
  memIsRunning_iff.2 ⟨hv, (Arbitration.isDone_iff.1 h).2.2⟩

/-- **A stage that does not wait knows its address.** -/
theorem addressKnown_of_running (hrun : p.memIsRunning e = true) : p.AddressKnown := by
  obtain ⟨hvalid, hstall⟩ := memIsRunning_iff.1 hrun
  have hv : (p.memArb (p.signals e)).isValid = true := hvalid
  have hwait : ((p.wbArb (p.signals e)).blocks || (p.hazard (p.laterMem (p.signals e)) .MEM p.mem
      ((p.signals e).stage .MEM) (p.memArb (p.signals e)).isValid
        || ((p.wbArb (p.signals e)).isValid && decide p.wb.instr.WritesDdc))) = false := hstall
  obtain ⟨hhazard, hddc⟩ := Bool.or_eq_false_iff.1 (Bool.or_eq_false_iff.1 hwait).2
  have hsource : ∀ t, p.mem.instr.rsType .RS1 = some t → ((p.signals e).stage .MEM).rsNeeded .RS1
      = true → p.Available .RS1 t :=
    fun t htype hneeded => available_of_not_stalled hv htype hneeded
      (stalled_of_hazard hhazard .RS1 t)
  have hneeded : (p.mem.instr.opcode.useCapAddr || p.mem.instr.opcode.isStoreCap
        || p.mem.instr.opcode.isLoadCap) = true →
      ((p.signals e).stage .MEM).rsNeeded .RS1 = true := by
    intro h
    show ((p.memIsValid e && _) || _) = true
    rw [hvalid, h]
    rfl
  unfold AddressKnown
  split
  · rename_i hcap
    refine hsource .CAP ?_ (hneeded (by rw [hcap]; rfl))
    show p.mem.instr.opcode.rsType .RS1 = some .CAP
    cases hop : p.mem.instr.opcode <;> rw [hop] at hcap <;> first | rfl | cases hcap
  · rename_i hcap
    refine ⟨?_, fun hsc => hsource .GPR ?_ (hneeded (by rw [hsc, Bool.or_true]; rfl))⟩
    · rintro ⟨hwb, hw⟩
      rw [wbArb_isValid, hwb, decide_eq_true hw] at hddc
      cases hddc
    · show p.mem.instr.opcode.rsType .RS1 = some .GPR
      cases hop : p.mem.instr.opcode <;> rw [hop] at hcap hsc <;> first | rfl | cases hsc
      exact absurd rfl hcap

/-- **What traps in the memory stage** fails a check, or is not aligned. -/
theorem Passes.memTrap (h : p.Passes e) : p.memTrap e = false := by
  unfold StaticPipeline.memTrap
  rw [h.aligned, h.checked, Bool.and_false]
  rfl

/-- **A store passes as long as it stays**: what its address is made of does not
change. -/
theorem Passes.stays (hres : p.ResultsMade) (h : p.Passes e)
    (hv : (p.memArb (p.signals e)).isValid = true) (hd : (p.memArb (p.signals e)).isDone = false)
    (hv' : (p.next (p.signals e) writeFirst).memIsValid e' = true) :
    (p.next (p.signals e) writeFirst).Passes e' := by
  have hmem := mem_stays writeFirst hv hd
  have hinstr : (p.next (p.signals e) writeFirst).mem.instr = p.mem.instr := by rw [hmem]
  have halu : (p.next (p.signals e) writeFirst).mem.aluResult = p.mem.aluResult := by rw [hmem]
  have hsource : ∀ t, p.Available .RS1 t →
      (p.next (p.signals e) writeFirst).input ((p.next (p.signals e) writeFirst).memView
        ((p.next (p.signals e) writeFirst).probe e'
          ((p.next (p.signals e) writeFirst).addressNeeded e'))) .RS1 t
        = p.input (p.memView (p.signals e)) .RS1 t :=
    fun t hav => input_stays hres hav hv hd hv'
  have hsame : p.mem.instr.opcode.isEnclaveStore = false → Lsu.SameAddress p.mem.instr.opcode
      (p.addressOperands e) ((p.next (p.signals e) writeFirst).addressOperands e') := by
    intro hunit
    have hknown := h.known hunit
    unfold AddressKnown at hknown
    unfold Lsu.SameAddress
    split at hknown
    · rename_i hcap
      rw [if_pos hcap]
      exact hsource .CAP hknown
    · rename_i hcap
      rw [if_neg hcap]
      refine ⟨if_neg (fun hc => hknown.1 ⟨(p.wbArb_isValid _).symm.trans hc.1, hc.2⟩),
        fun hsc => ?_⟩
      exact hsource .GPR (hknown.2 hsc)
  obtain ⟨haligned, hchecked⟩ := Lsu.traps_eq h.isStore hinstr halu hsame
  exact
    { untrapped := by rw [hmem]; exact h.untrapped
      isStore := by rw [hinstr]; exact h.isStore
      known := fun hunit => (h.known (hinstr ▸ hunit)).stays hv hd
      aligned := haligned.trans h.aligned
      checked := hchecked.trans h.checked }

end Passes

end StaticPipeline

namespace Traced

open StaticPipeline

/-- **No stores with a fault**: an instruction that commits with a synchronous
exception has issued none. -/
def Silent (t : Traced) (e : CoreInputs) : Prop :=
  t.pipe.faults e = true → t.wbStores = []

/-- **A store is in order**: what is issued has not trapped in an earlier stage;
and if it is a store of data, its address is known and its check passes. -/
def StoresInOrder (t : Traced) (e : CoreInputs) : Prop :=
  t.pipe.memStore e ≠ none →
    t.pipe.mem.hasTrapped = false
      ∧ (t.pipe.mem.instr.opcode.lsuOperation = .store →
        t.pipe.AddressKnown
          ∧ Lsu.dataCause t.pipe.mem (t.pipe.addressOperands e) = none)

instance (t : Traced) (e : CoreInputs) : Decidable (t.Silent e) :=
  inferInstanceAs (Decidable (_ → _))

instance (t : Traced) (e : CoreInputs) : Decidable (t.StoresInOrder e) :=
  inferInstanceAs (Decidable (_ → _))

variable {t : Traced} {e : CoreInputs} {writeFirst : Bool}

/-- The three ways to issue a store. -/
theorem memStore_cases {p : StaticPipeline} (h : p.memStore e ≠ none) :
    p.memIsValid e = true
      ∧ ((p.mem.instr.opcode.lsuOperation = .store
          ∧ Lsu.misaligned p.mem (p.addressOperands e) = false)
        ∨ (p.memIsRunning e = true ∧ p.mem.instr.opcode.isStoreCap = true
          ∧ Lsu.capCause p.mem (p.addressOperands e) = none)
        ∨ p.mem.instr.opcode.isEnclaveStore = true) := by
  unfold StaticPipeline.memStore at h
  dsimp only at h
  split at h
  · rename_i hv
    refine ⟨hv, ?_⟩
    split at h
    · rename_i hdata
      unfold Lsu.drivesData at hdata
      rw [Bool.and_eq_true, decide_eq_true_iff, Bool.not_eq_true'] at hdata
      exact Or.inl hdata
    · split at h
      · rename_i hcap
        unfold StaticPipeline.movesCap at hcap
        rw [Bool.and_eq_true, Bool.and_eq_true, Option.isNone_iff_eq_none] at hcap
        exact Or.inr (Or.inl ⟨hcap.1.1, hcap.1.2, hcap.2⟩)
      · split at h
        · rename_i hunit
          exact Or.inr (Or.inr hunit)
        · exact absurd rfl h
  · exact absurd rfl h

/-- **A store that is in order passes** what is checked of it. -/
theorem StoresInOrder.passes (h : t.StoresInOrder e) (hstore : t.pipe.memStore e ≠ none) :
    t.pipe.Passes e := by
  obtain ⟨huntrapped, hdata⟩ := h hstore
  obtain ⟨-, ⟨hop, haligned⟩ | ⟨hrun, hsc, hcause⟩ | hunit⟩ := memStore_cases hstore
  · obtain ⟨hknown, hcheck⟩ := hdata hop
    refine ⟨huntrapped, Or.inl hop, fun _ => hknown, ?_, ?_⟩
    · unfold Lsu.alignmentTrap
      rw [haligned, Bool.and_false]
    · unfold Lsu.checkTrap
      rw [hcheck]
      cases hc : t.pipe.mem.instr.opcode <;> rw [hc] at hop <;> first | rfl | cases hop
  · have hop : t.pipe.mem.instr.opcode.lsuOperation = .none := by
      cases hc : t.pipe.mem.instr.opcode <;> rw [hc] at hsc <;> first | rfl | cases hsc
    refine ⟨huntrapped, Or.inr (Or.inl hsc), fun _ => addressKnown_of_running hrun, ?_, ?_⟩
    · unfold Lsu.alignmentTrap
      rw [hop]
      rfl
    · unfold Lsu.checkTrap Lsu.dataCause CapCheck.check
      rw [hop, hcause, Option.isSome_none, Bool.and_false]
      rfl
  · obtain ⟨haligned, hchecked⟩ :=
      Lsu.traps_of_isEnclaveStore hunit (t.pipe.addressOperands e)
    refine ⟨huntrapped, Or.inr (Or.inr hunit), fun hno => ?_, haligned, hchecked⟩
    rw [hunit] at hno
    cases hno

/-- **The invariant**: an instruction that has issued stores passes, whatever
comes; and in write-back it has not trapped. -/
structure Held (t : Traced) : Prop where
  results : t.pipe.ResultsMade
  mem : t.memStores ≠ [] → ∀ e, t.pipe.memIsValid e = true → t.pipe.Passes e
  wb : t.wbStores ≠ [] → t.pipe.wb.hasTrapped = false ∧ t.pipe.wb.instr.opcode.IsStore

/-- What has issued stores by the end of a cycle passes in it. -/
theorem Held.passes (h : t.Held) (hord : t.StoresInOrder e) (hv : t.pipe.memIsValid e = true)
    (hissued : t.issued e ≠ []) : t.pipe.Passes e := by
  cases hstore : t.pipe.memStore e with
  | some c => exact hord.passes (by rw [hstore]; exact Option.some_ne_none c)
  | none =>
    refine h.mem (fun hnil => hissued ?_) e hv
    unfold issued
    rw [hnil, hstore]
    rfl

/-- **Every cycle keeps the invariant** whose store is in order. -/
theorem Held.next (h : t.Held) (hord : t.StoresInOrder e) : (t.next e writeFirst).Held where
  results := h.results.next _ _
  mem := by
    intro hne e' hv'
    have hstores : (t.next e writeFirst).memStores
        = if (t.pipe.memArb (t.pipe.signals e)).isValid
            && !(t.pipe.memArb (t.pipe.signals e)).isDone
          then t.issued e else [] := rfl
    rw [hstores] at hne
    split at hne
    · rename_i hstay
      rw [Bool.and_eq_true, Bool.not_eq_true'] at hstay
      exact (h.passes hord hstay.1 hne).stays h.results hstay.1 hstay.2 hv'
    · exact absurd rfl hne
  wb := by
    intro hne
    have hstores : (t.next e writeFirst).wbStores
        = if (t.pipe.memArb (t.pipe.signals e)).isDone then t.issued e
          else if (t.pipe.wbArb (t.pipe.signals e)).isValid
            && !(t.pipe.wbArb (t.pipe.signals e)).isDone then t.wbStores else [] := rfl
    rw [hstores] at hne
    split at hne
    · rename_i hdone
      -- it comes from the memory stage
      have hvalid : (t.pipe.memArb (t.pipe.signals e)).isValid = true :=
        Arbitration.isValid_of_isDone hdone
      have hpass := h.passes hord hvalid hne
      have hwb : (t.next e writeFirst).pipe.wb
          = t.pipe.output (t.pipe.memView (t.pipe.signals e)) := (mem_goes_on writeFirst hdone).2
      rw [hwb]
      refine ⟨?_, hpass.isStore⟩
      show (t.pipe.memTrap e || t.pipe.mem.hasTrapped) = false
      rw [hpass.memTrap, hpass.untrapped]
      rfl
    · split at hne
      · rename_i hmem hstay
        rw [Bool.and_eq_true, Bool.not_eq_true'] at hstay
        have hwb : (t.next e writeFirst).pipe.wb = { t.pipe.wb with
            rsData := t.pipe.input (t.pipe.wbView (t.pipe.signals e)) } :=
          shift_of_stays (v := t.pipe.wbView (t.pipe.signals e)) hstay.1 hstay.2
            (Bool.not_eq_true _ ▸ hmem)
        rw [hwb]
        exact h.wb hne
      · exact absurd rfl hne

/-- What has issued stores does not commit with an exception. -/
theorem Held.silent (h : t.Held) : t.Silent e := by
  intro hfault
  by_contra hne
  obtain ⟨huntrapped, hstore⟩ := h.wb hne
  unfold StaticPipeline.faults StaticPipeline.wbException at hfault
  rw [huntrapped, hstore.trapsInWb, Bool.and_false, Bool.false_and, Bool.or_false,
    Bool.and_false, Bool.false_and] at hfault
  cases hfault

theorem held_ofPipe {p₀ : StaticPipeline} (h₀ : p₀.Reset) : (ofPipe p₀).Held where
  results := ⟨fun hv => absurd hv (by rw [show (ofPipe p₀).pipe = p₀ from rfl, h₀.exValid]; decide),
    fun hv => absurd hv (by rw [show (ofPipe p₀).pipe = p₀ from rfl, h₀.memValid]; decide),
    fun hv => absurd hv (by rw [show (ofPipe p₀).pipe = p₀ from rfl, h₀.wbValid]; decide)⟩
  mem := fun hne => absurd rfl hne
  wb := fun hne => absurd rfl hne

/-- **A store out of order that is done faults**: it is in write-back then, has
trapped and has been issued. -/
theorem not_silent_next (hdone : (t.pipe.memArb (t.pipe.signals e)).isDone = true)
    (hord : ¬ t.StoresInOrder e) {e' : CoreInputs} (hint : e'.interrupt = false) :
    ¬ (t.next e writeFirst).Silent e' := by
  have hrun := memIsRunning_of_isDone hdone
  have hstore : t.pipe.memStore e ≠ none := fun hnone => hord (fun hne => absurd hnone hne)
  -- it has trapped before, or its check fails now
  have htrapped : (t.pipe.memTrap e || t.pipe.mem.hasTrapped) = true := by
    rw [Bool.or_eq_true]
    by_contra hno
    rw [not_or, Bool.not_eq_true, Bool.not_eq_true] at hno
    refine hord (fun _ => ⟨hno.2, fun hop => ⟨addressKnown_of_running hrun, ?_⟩⟩)
    have hchecks := (Bool.or_eq_false_iff.1 hno.1).2
    rw [hrun, Bool.true_and] at hchecks
    have hnone := Option.isSome_eq_false_iff.1 (Bool.or_eq_false_iff.1 hchecks).1
    exact Option.isNone_iff_eq_none.1 hnone
  obtain ⟨hwbValid, hwb⟩ := mem_goes_on writeFirst hdone
  have hissued : (t.next e writeFirst).wbStores = t.issued e := if_pos hdone
  intro hsilent
  have hfault : (t.next e writeFirst).pipe.faults e' = true := by
    have hvalid : (t.next e writeFirst).pipe.wbValid = true := hwbValid
    have hhas : (t.next e writeFirst).pipe.wb.hasTrapped = true := by
      rw [show (t.next e writeFirst).pipe.wb = _ from hwb]
      exact htrapped
    unfold StaticPipeline.faults
    rw [hvalid, hhas, hint]
    rfl
  have hnil := hissued.symm.trans (hsilent hfault)
  unfold issued at hnil
  rw [List.append_eq_nil_iff] at hnil
  cases hc : t.pipe.memStore e with
  | none => exact hstore hc
  | some c =>
    rw [hc] at hnil
    cases hnil.2

/-- **An instruction that faults has stored nothing, in every run whose stores
are in order**; and a store that is done out of order does fault, unless an
interrupt takes its place. -/
theorem faults_silent_of_order (writeFirst : Bool) (p₀ : StaticPipeline) (h₀ : p₀.Reset) :
    (∀ es, (machine writeFirst).Along StoresInOrder (ofPipe p₀) es →
        (machine writeFirst).Along Silent (ofPipe p₀) es)
      ∧ ∀ es e e', let t := (machine writeFirst).run (ofPipe p₀) es
        (t.pipe.memArb (t.pipe.signals e)).isDone = true → ¬ t.StoresInOrder e →
          e'.interrupt = false →
            ¬ (machine writeFirst).Along Silent (ofPipe p₀) (es ++ [e, e']) := by
  constructor
  · intro es hord
    exact (machine writeFirst).along_of_invariant (fun t e h hC => h.next hC)
      (fun t e h _ => h.silent) (held_ofPipe h₀) hord
  · intro es e e' t hdone hord hint hsilent
    obtain ⟨-, -, hlast, -⟩ := (machine writeFirst).along_append.1 hsilent
    exact not_silent_next hdone hord hint hlast

/-! ### Two stores that fault -/

/-- `sw x6, 1(x5)`. -/
def misalignedSw : Instr := ⟨.store .W, 5, 6, 0, 1, fun _ => rfl⟩

/-- `SW.cap x6, (c5)`. -/
def swCap : Instr := ⟨.storeCap .W, 5, 6, 0, 0, fun _ => rfl⟩

/-- A cycle in which everything is ready and each stage needs its first source. -/
def promptCycle (fetched : Instr) : CoreInputs where
  signals := { readerSignals .GPR 0 with fetched := fetched }
  interrupt := false
  illegal := false
  accepted := true
  answered := true
  cmdReady := true
  rspValid := true
  unitNeeded := fun _ => false
  unitReady := none
  unitStore := none

/-- An instruction on its way to write-back, after reset. -/
def toWb (i : Instr) : List CoreInputs :=
  [promptCycle i, promptCycle (reader .GPR 0), promptCycle (reader .GPR 0),
    promptCycle (reader .GPR 0)]

/-- A misaligned store faults, and has stored nothing. -/
theorem misalignedSw_silent :
    let es := toWb misalignedSw
    ((machine false).run (ofPipe (resetState false)) es).pipe.faults (promptCycle misalignedSw)
        = true
      ∧ (machine false).Along Silent (ofPipe (resetState false))
        (es ++ [promptCycle misalignedSw]) :=
  ⟨by decide, (faults_silent_of_order false (resetState false) (reset_resetState false)).1 _
    (by decide)⟩

/-- **A store through a capability without a tag faults, and has stored.** -/
theorem swCap_not_silent :
    ¬ (machine false).Along Silent (ofPipe (resetState false))
      (toWb swCap ++ [promptCycle swCap]) := by
  decide

end Traced

end Proteus
