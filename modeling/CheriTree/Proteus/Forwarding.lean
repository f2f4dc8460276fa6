import CheriTree.Proteus.StaticPipeline

/-!
# Forwarding

A source that a stage needs has the value of the youngest older instruction
that writes its register, or what the register held at first. The value may be
with an instruction in a later stage, with the last one that was written back,
or in the register file; a source that was not needed yet may have an older
value for some cycles.

What carries the proof is `Settled`: once no instruction in a later stage and
not the last one written back writes the register, the value before the stage is
the one of the register file. Nothing has to be known about a source for which
there still is a writer: its value comes, at the latest, in the cycle after the
writer has retired.

The register `lastWrittenRd.valid` has no reset value. Where it starts out set,
the first instructions may be given a value that nothing has written.
-/

namespace Proteus

/-! ## Arbitration -/

namespace Arbitration

variable {validReg : Bool} {sig : StageSignals} {trapped : Bool} {hazard : Bool → Bool}
  {next a : Arbitration}

theorem isDone_iff :
    a.isDone = true ↔ a.isValid = true ∧ a.isReady = true ∧ a.isStalled = false := by
  unfold isDone
  rw [Bool.and_eq_true, Bool.and_eq_true, Bool.not_eq_true', and_assoc]

theorem blocks_eq_false_iff :
    a.blocks = false ↔ a.isStalled = false ∧ (a.isValid = true → a.isReady = true) := by
  unfold blocks
  cases a.isStalled <;> cases a.isValid <;> cases a.isReady <;> decide

theorem isValid_of_isDone (h : a.isDone = true) : a.isValid = true := (isDone_iff.1 h).1

/-- A valid stage that does not block is done. -/
theorem isDone_of_blocks (h : a.blocks = false) (hv : a.isValid = true) : a.isDone = true :=
  isDone_iff.2 ⟨hv, (blocks_eq_false_iff.1 h).2 hv, (blocks_eq_false_iff.1 h).1⟩

/-- A valid stage that is not done makes the one before it wait. -/
theorem stalled_or_not_ready (hv : a.isValid = true) (hd : a.isDone = false) :
    (a.isStalled || !a.isReady) = true := by
  unfold isDone at hd
  rw [hv, Bool.true_and] at hd
  cases hr : a.isReady <;> cases hs : a.isStalled <;> simp_all

/-- **A valid stage is one that has an instruction and that no later stage
flushes.** -/
theorem of_isValid (h : (Arbitration.of validReg sig trapped hazard next).isValid = true) :
    validReg = true ∧ next.flush = false := by
  have h' : (validReg && !next.flush) = true := h
  rw [Bool.and_eq_true, Bool.not_eq_true'] at h'
  exact h'

/-- **A stage is done only after all later ones.** -/
theorem of_isDone (h : (Arbitration.of validReg sig trapped hazard next).isDone = true) :
    next.blocks = false ∧ hazard (validReg && !next.flush) = false := by
  have hs : (next.blocks || hazard (validReg && !next.flush)) = false := (isDone_iff.1 h).2.2
  exact Bool.or_eq_false_iff.1 hs

/-- **What does not flush** has nothing after it that does, and has not
trapped. -/
theorem of_flush (h : (Arbitration.of validReg sig trapped hazard next).flush = false) :
    next.flush = false
      ∧ ((Arbitration.of validReg sig trapped hazard next).isValid = true → trapped = false) := by
  unfold of at h ⊢
  simp only [Bool.or_eq_false_iff] at h
  refine ⟨h.1.1.1, fun hv => ?_⟩
  have htrap := h.2
  rw [show (validReg && !next.flush) = true from hv, Bool.true_and] at htrap
  exact htrap

theorem isValid_of_flush (h : next.flush = false) :
    (Arbitration.of validReg sig trapped hazard next).isValid = validReg := by
  show (validReg && !next.flush) = validReg
  rw [h, Bool.not_false, Bool.and_true]

end Arbitration

namespace StaticPipeline

open Arbitration

variable {p : StaticPipeline} {i : Signals} {writeFirst : Bool}

/-! ## Stages in a cycle -/

/-- The instructions after memory access. -/
def afterMem (p : StaticPipeline) : List PipelineRegs := if p.wbValid then [p.wb] else []

/-- The instructions after execution, from the last one on. -/
def afterEx (p : StaticPipeline) : List PipelineRegs :=
  p.afterMem ++ if p.memValid then [p.mem] else []

theorem wbArb_isValid (p : StaticPipeline) (i : Signals) : (p.wbArb i).isValid = p.wbValid :=
  isValid_of_flush rfl

theorem memArb_isValid (h : (p.wbArb i).flush = false) : (p.memArb i).isValid = p.memValid :=
  isValid_of_flush h

/-- **A stage that is not flushed sees the instructions after it.** -/
theorem laterMem_eq (h : (p.wbArb i).flush = false) : p.laterMem i = p.afterMem := by
  unfold laterMem inFlight afterMem
  rw [wbArb_isValid]
  cases hv : p.wbValid with
  | false => rfl
  | true =>
    have htrap := (of_flush h).2 ((p.wbArb_isValid i).trans hv)
    rw [htrap]
    rfl

theorem laterEx_eq (h : (p.memArb i).flush = false) : p.laterEx i = p.afterEx := by
  have hwb := (of_flush h).1
  unfold laterEx inFlight afterEx
  rw [laterMem_eq hwb, memArb_isValid hwb]
  cases hv : p.memValid with
  | false => rfl
  | true =>
    have htrap := (of_flush h).2 ((memArb_isValid hwb).trans hv)
    rw [htrap]
    rfl

/-- An instruction in write-back that is done retires, if nothing is flushed. -/
theorem retires_of_isDone (h : (p.wbArb i).flush = false) (hd : (p.wbArb i).isDone = true) :
    p.retires i = true := by
  unfold retires
  rw [hd, (of_flush h).2 (isValid_of_isDone hd)]
  rfl

theorem isDone_of_retires (h : p.retires i = true) : (p.wbArb i).isDone = true :=
  (Bool.and_eq_true _ _ ▸ h).1

/-! ## What the registers become -/

variable {v : View} {prev : Arbitration} {out : PipelineRegs}

theorem forwarded_of_invalid (h : v.arb.isValid = false) (rs : Source) (t : RegisterType) :
    p.forwarded v rs t = none := by
  unfold forwarded resolveRs
  rw [h, if_neg (fun hc => absurd hc.2.1 Bool.false_ne_true)]

/-- **An instruction that comes in** is what the stage before hands on. -/
theorem shift_of_done (h : v.arb.blocks = false) (hprev : prev.isDone = true) :
    p.shift v prev out = out := by
  obtain ⟨hs, hr⟩ := blocks_eq_false_iff.1 h
  unfold shift
  rw [hprev, if_pos rfl, hs, Bool.false_or]
  cases hv : v.arb.isValid with
  | false =>
    split
    · simp only [forwarded_of_invalid hv, Option.getD_none]
    · rfl
  | true =>
    rw [hr hv]
    rfl

/-- **An instruction that stays** keeps what was forwarded to it. -/
theorem shift_of_stays (hv : v.arb.isValid = true) (hd : v.arb.isDone = false)
    (hprev : prev.isDone = false) :
    p.shift v prev out = { v.regs with rsData := p.input v } := by
  unfold shift
  rw [hprev, stalled_or_not_ready hv hd]
  rfl

/-- **A stage has an instruction** that has come in or that stays. -/
theorem validReg_cases {a : Arbitration} {old : Bool} (h : validReg a prev old = true) :
    (prev.isDone = true ∧ (a.isDone = true ∨ a.isValid = false))
      ∨ (a.isValid = true ∧ a.isDone = false) := by
  unfold validReg at h
  split at h
  · rename_i hc
    rw [Bool.or_eq_true, Bool.not_eq_true'] at hc
    exact Or.inl ⟨h, hc⟩
  · rename_i hc
    rw [Bool.or_eq_true, Bool.not_eq_true', not_or] at hc
    exact Or.inr ⟨Bool.not_eq_false _ ▸ hc.2, Bool.eq_false_iff.2 hc.1⟩

/-! ## Results -/

/-- An instruction that writes a register makes a result, in one of the last
three stages. -/
theorem produces_of_writes {q : Instr} {t : RegisterType} {r : RegId} (h : q.Writes t r)
    (hr : r ≠ 0) : q.Produces .EX ∨ q.Produces .MEM ∨ q.Produces .WB := by
  obtain ⟨htype, rfl⟩ := h
  have hzero := q.rd_zero
  unfold Instr.rdType at htype
  unfold Instr.Produces
  simp only [hr, and_false, not_false_eq_true, and_true]
  cases hop : q.opcode <;> rw [hop] at htype hzero <;> simp_all [Opcode.rdType, Opcode.resultStage]

/-- A result is made in one stage. -/
theorem produces_unique {q : Instr} {s s' : Stage} (h : q.Produces s) (h' : q.Produces s') :
    s = s' :=
  Option.some.inj (h.1.symm.trans h'.1)

/-! ## The invariant -/

/-- **A source is settled**: register 0 reads as nothing; and once no later
instruction and not the last one written back writes the register, the value is
that of the register file. -/
def Settled (p : StaticPipeline) (later : List PipelineRegs) (c : PipelineRegs) (rs : Source)
    (t : RegisterType) : Prop :=
  c.instr.rsType rs = some t →
    (c.instr.rs rs = 0 → c.rsData rs t = t.null)
      ∧ (c.instr.rs rs ≠ 0 → (∀ q ∈ later, ¬ q.instr.Writes t (c.instr.rs rs)) →
        ¬ ((p.lastWrittenRd t).valid = true ∧ (p.lastWrittenRd t).id = c.instr.rs rs) →
          c.rsData rs t = p.regs t (c.instr.rs rs))

/-- **The invariant of forwarding.** -/
structure Inv (p : StaticPipeline) : Prop where
  ex : p.exValid = true → ∀ rs t, p.Settled p.afterEx p.ex rs t
  mem : p.memValid = true → ∀ rs t, p.Settled p.afterMem p.mem rs t
  wb : p.wbValid = true → ∀ t, p.Settled [] p.wb .RS1 t
  exRd : p.exValid = true → p.ex.rdValid = false
  memRd : p.memValid = true → (p.mem.rdValid = true ↔ p.mem.instr.Produces .EX)
  wbRd : p.wbValid = true →
    (p.wb.rdValid = true ↔ p.wb.instr.Produces .EX ∨ p.wb.instr.Produces .MEM)
  /-- The last write is in the register file. -/
  last : ∀ t, (p.lastWrittenRd t).valid = true → (p.lastWrittenRd t).id ≠ 0 →
    (p.lastWrittenRd t).data = p.regs t (p.lastWrittenRd t).id
  null : p.regs .CAP 0 = RegisterType.null .CAP

/-- **The results made so far** are those of the stages an instruction has been
through. -/
structure ResultsMade (p : StaticPipeline) : Prop where
  ex : p.exValid = true → p.ex.rdValid = false
  mem : p.memValid = true → (p.mem.rdValid = true ↔ p.mem.instr.Produces .EX)
  wb : p.wbValid = true →
    (p.wb.rdValid = true ↔ p.wb.instr.Produces .EX ∨ p.wb.instr.Produces .MEM)

theorem Inv.resultsMade (h : p.Inv) : p.ResultsMade := ⟨h.exRd, h.memRd, h.wbRd⟩

/-! ### What a stage reads -/

section Reads

variable {rs : Source} {t : RegisterType}

theorem resolveRs_eq (hin : hasInput v.stage rs = true) (hv : v.arb.isValid = true)
    (htype : v.regs.instr.rsType rs = some t) (hr : v.regs.instr.rs rs ≠ 0) :
    p.resolveRs v.later v.stage v.arb.isValid v.regs v.sig rs t
      = Bypass.resolve (v.sig.rsNeeded rs) (v.regs.instr.rs rs)
        ((p.lastWrittenRd t).entry :: v.later.map (fun q => q.entry t)) :=
  if_pos ⟨hin, hv, hr, htype⟩

theorem key_entry_iff {q : PipelineRegs} {r : RegId} :
    (q.entry t).key = some r ↔ q.instr.Writes t r := by
  show (if q.instr.rdType = some t then some q.instr.rd else none) = some r ↔ _
  unfold Instr.Writes
  split
  · rename_i h
    rw [Option.some_inj]
    exact ⟨fun he => ⟨h, he⟩, fun he => he.2⟩
  · rename_i h
    exact ⟨fun he => absurd he (by simp), fun he => absurd he.1 h⟩

theorem key_last_iff {w : LastWrittenRd t} {r : RegId} :
    w.entry.key = some r ↔ w.valid = true ∧ w.id = r := by
  show (if w.valid then some w.id else none) = some r ↔ _
  split
  · rename_i h
    rw [Option.some_inj]
    exact ⟨fun he => ⟨h, he⟩, fun he => he.2⟩
  · rename_i h
    exact ⟨fun he => absurd he (by simp), fun he => absurd he.1 h⟩

/-- A source that no later instruction writes has the value of the last write,
if that writes it. -/
theorem input_of_no_writer (hin : hasInput v.stage rs = true) (hv : v.arb.isValid = true)
    (htype : v.regs.instr.rsType rs = some t) (hr : v.regs.instr.rs rs ≠ 0)
    (hno : ∀ q ∈ v.later, ¬ q.instr.Writes t (v.regs.instr.rs rs)) :
    p.input v rs t = if (p.lastWrittenRd t).valid = true
        ∧ (p.lastWrittenRd t).id = v.regs.instr.rs rs then (p.lastWrittenRd t).data
      else v.regs.rsData rs t := by
  have hkeys : ∀ e ∈ v.later.map (fun q => q.entry t), e.key ≠ some (v.regs.instr.rs rs) := by
    intro e he
    obtain ⟨q, hq, rfl⟩ := List.mem_map.1 he
    exact fun hk => hno q hq (key_entry_iff.1 hk)
  unfold input forwarded
  rw [resolveRs_eq hin hv htype hr, Bypass.resolve_cons_of_forall_ne hkeys]
  unfold Bypass.consult
  by_cases hlast : (p.lastWrittenRd t).valid = true ∧ (p.lastWrittenRd t).id = v.regs.instr.rs rs
  · rw [if_pos (key_last_iff.2 hlast), if_pos hlast]
    rfl
  · rw [if_neg (fun hk => hlast (key_last_iff.1 hk)), if_neg hlast]
    rfl

/-- **A source that no later instruction writes is read from the register
file.** -/
theorem input_eq_regs (h : p.Inv) (hs : p.Settled v.later v.regs rs t)
    (hin : hasInput v.stage rs = true) (hv : v.arb.isValid = true)
    (htype : v.regs.instr.rsType rs = some t) (hr : v.regs.instr.rs rs ≠ 0)
    (hno : ∀ q ∈ v.later, ¬ q.instr.Writes t (v.regs.instr.rs rs)) :
    p.input v rs t = p.regs t (v.regs.instr.rs rs) := by
  rw [input_of_no_writer hin hv htype hr hno]
  split
  · rename_i hlast
    rw [h.last t hlast.1 (hlast.2 ▸ hr), hlast.2]
  · rename_i hlast
    exact (hs htype).2 hr hno hlast

/-- Register 0 reads as nothing. -/
theorem input_zero (hs : p.Settled v.later v.regs rs t)
    (htype : v.regs.instr.rsType rs = some t) (hr : v.regs.instr.rs rs = 0) :
    p.input v rs t = t.null := by
  unfold input forwarded resolveRs
  rw [if_neg (fun hc => hc.2.2.1 hr)]
  exact (hs htype).1 hr

end Reads

/-! ### One cycle -/

/-- **What is retired is the last write.** -/
theorem lastWritten_of_retires (h : p.Inv) (hret : p.retires i = true) {t : RegisterType}
    {r : RegId} (hw : p.wb.instr.Writes t r) (hr : r ≠ 0) :
    (p.lastWritten i t).valid = true ∧ (p.lastWritten i t).id = r := by
  have hv : p.wbValid = true :=
    (p.wbArb_isValid i).symm.trans (isValid_of_isDone (isDone_of_retires hret))
  have hrd : (p.output (p.wbView i)).rdValid = true := by
    show (p.wb.rdValid || decide (p.wb.instr.Produces .WB)) = true
    rw [Bool.or_eq_true, decide_eq_true_iff]
    obtain hex | hmem | hwb := produces_of_writes hw hr
    · exact Or.inl ((h.wbRd hv).2 (Or.inl hex))
    · exact Or.inl ((h.wbRd hv).2 (Or.inr hmem))
    · exact Or.inr hwb
  unfold lastWritten
  rw [if_pos hret]
  refine ⟨?_, hw.2⟩
  show ((p.output (p.wbView i)).rdValid && decide (p.wb.instr.rdType = some t)) = true
  rw [hrd, hw.1, decide_eq_true rfl]
  rfl

/-- A register keeps its value unless it becomes the last write. -/
theorem writtenRegs_of_not_last (h : p.Inv) {t : RegisterType} {r : RegId}
    (hlast : ¬ ((p.lastWritten i t).valid = true ∧ (p.lastWritten i t).id = r)) :
    p.writtenRegs i t r = p.regs t r :=
  if_neg fun hc => hlast (lastWritten_of_retires h hc.1 hc.2.1 hc.2.2)

/-- **A source stays settled** when its instruction goes on or stays: each
instruction that was after it still is, or has retired. -/
theorem settled_next (h : p.Inv) {rs : Source} {t : RegisterType} {c : PipelineRegs}
    {later : List PipelineRegs} (hs : p.Settled v.later v.regs rs t)
    (hin : hasInput v.stage rs = true) (hv : v.arb.isValid = true)
    (hinstr : c.instr = v.regs.instr) (hdata : c.rsData rs t = p.input v rs t)
    (hlater : ∀ q ∈ v.later, (∃ q' ∈ later, q'.instr = q.instr)
      ∨ (p.retires i = true ∧ q.instr = p.wb.instr)) :
    (p.next i writeFirst).Settled later c rs t := by
  intro htype
  rw [hinstr] at htype ⊢
  rw [hdata]
  refine ⟨fun hr => input_zero hs htype hr, fun hr hno hlast => ?_⟩
  have hregs : (p.next i writeFirst).regs t (v.regs.instr.rs rs) = p.regs t (v.regs.instr.rs rs) :=
    writtenRegs_of_not_last h hlast
  rw [hregs]
  refine input_eq_regs h hs hin hv htype hr (fun q hq hw => ?_)
  obtain ⟨q', hq', heq⟩ | ⟨hret, heq⟩ := hlater q hq
  · exact hno q' hq' (heq ▸ hw)
  · exact hlast (lastWritten_of_retires h hret (heq ▸ hw) hr)

/-- **A source is settled when its instruction leaves the decode stage.** -/
theorem settled_idOutput (h : p.Inv) (later : List PipelineRegs) (rs : Source) (t : RegisterType) :
    (p.next i writeFirst).Settled later (p.idOutput i writeFirst) rs t := by
  intro _
  have hread : ∀ r, (p.idOutput i writeFirst).instr.rs rs = r →
      (p.idOutput i writeFirst).rsData rs t = p.readReg i writeFirst t r := by
    rintro r rfl
    rfl
  refine ⟨fun hr => ?_, fun hr _ hlast => ?_⟩
  · rw [hread 0 hr]
    unfold readReg
    cases t with
    | GPR => rw [if_pos ⟨rfl, rfl⟩]
    | CAP =>
      have hkeep : p.writtenRegs i .CAP 0 = p.regs .CAP 0 := if_neg (fun hc => hc.2.2 rfl)
      rw [if_neg (fun hc => absurd hc.1 (by decide)), hkeep, ite_self, h.null]
  · rw [hread _ rfl]
    unfold readReg
    rw [if_neg (fun hc => hr hc.2), writtenRegs_of_not_last h hlast, ite_self]
    exact (writtenRegs_of_not_last h hlast).symm

/-- An instruction in write-back that is not done stays, and all others wait. -/
theorem wb_stays (writeFirst : Bool) (hv : p.wbValid = true) (hd : (p.wbArb i).isDone = false) :
    (p.next i writeFirst).wbValid = true ∧ (p.next i writeFirst).wb.instr = p.wb.instr
      ∧ (p.memArb i).isDone = false := by
  have hvalid : (p.wbArb i).isValid = true := (p.wbArb_isValid i).trans hv
  have hmem : (p.memArb i).isDone = false := by
    rw [Bool.eq_false_iff]
    intro hdone
    exact absurd (isDone_of_blocks (of_isDone hdone).1 hvalid) (by rw [hd]; decide)
  refine ⟨?_, ?_, hmem⟩
  · show validReg (p.wbArb i) (p.memArb i) p.wbValid = true
    unfold validReg
    rw [hd, hvalid]
    exact hv
  · show (p.shift (p.wbView i) (p.memArb i) (p.output (p.memView i))).instr = _
    rw [shift_of_stays hvalid hd hmem]
    rfl

/-- **An instruction that a stage is done with goes to the next one.** -/
theorem mem_goes_on (writeFirst : Bool) (h : (p.memArb i).isDone = true) :
    (p.next i writeFirst).wbValid = true
      ∧ (p.next i writeFirst).wb = p.output (p.memView i) := by
  have hblocks := (of_isDone h).1
  refine ⟨?_, shift_of_done hblocks h⟩
  show validReg (p.wbArb i) (p.memArb i) p.wbValid = true
  unfold validReg
  rw [h]
  cases hv : (p.wbArb i).isValid with
  | false => rw [Bool.not_false, Bool.or_true, if_pos rfl]
  | true => rw [isDone_of_blocks hblocks hv, Bool.true_or, if_pos rfl]

/-- An instruction in memory access goes on or stays. -/
theorem mem_goes (writeFirst : Bool) (hflush : (p.memArb i).flush = false)
    (hv : p.memValid = true) :
    (p.memArb i).isDone = true
      ∨ ((p.next i writeFirst).memValid = true ∧ (p.next i writeFirst).mem.instr = p.mem.instr
        ∧ (p.exArb i).isDone = false) := by
  cases hd : (p.memArb i).isDone with
  | true => exact Or.inl rfl
  | false =>
    have hvalid : (p.memArb i).isValid = true := (memArb_isValid (of_flush hflush).1).trans hv
    have hex : (p.exArb i).isDone = false := by
      rw [Bool.eq_false_iff]
      intro hdone
      exact absurd (isDone_of_blocks (of_isDone hdone).1 hvalid) (by rw [hd]; decide)
    refine Or.inr ⟨?_, ?_, hex⟩
    · show validReg (p.memArb i) (p.exArb i) p.memValid = true
      unfold validReg
      rw [hd, hvalid]
      exact hv
    · show (p.shift (p.memView i) (p.exArb i) (p.output (p.exView i))).instr = _
      rw [shift_of_stays hvalid hd hex]
      rfl

/-- **Where the instructions after memory access are, a cycle later.** -/
theorem afterMem_goes (writeFirst : Bool) (hflush : (p.wbArb i).flush = false) {q : PipelineRegs}
    (hq : q ∈ p.afterMem) :
    (∃ q' ∈ (p.next i writeFirst).afterMem, q'.instr = q.instr ∧ (p.memArb i).isDone = false)
      ∨ (p.retires i = true ∧ q.instr = p.wb.instr) := by
  unfold afterMem at hq
  split at hq
  · rename_i hv
    obtain rfl := List.mem_singleton.1 hq
    cases hd : (p.wbArb i).isDone with
    | true => exact Or.inr ⟨retires_of_isDone hflush hd, rfl⟩
    | false =>
      obtain ⟨hv', heq, hmem⟩ := wb_stays writeFirst hv hd
      refine Or.inl ⟨(p.next i writeFirst).wb, ?_, heq, hmem⟩
      unfold afterMem
      rw [if_pos hv']
      exact List.mem_singleton_self _
  · exact absurd hq List.not_mem_nil

/-- **Where the instructions after execution are, a cycle later**: if an
instruction goes on with them, no more than in write-back. -/
theorem afterEx_goes (writeFirst : Bool) (hflush : (p.memArb i).flush = false) {q : PipelineRegs}
    (hq : q ∈ p.afterEx) :
    (∃ q' ∈ (p.next i writeFirst).afterMem, q'.instr = q.instr)
      ∨ (∃ q' ∈ (p.next i writeFirst).afterEx, q'.instr = q.instr ∧ (p.exArb i).isDone = false)
      ∨ (p.retires i = true ∧ q.instr = p.wb.instr) := by
  unfold afterEx at hq
  obtain hq | hq := List.mem_append.1 hq
  · obtain ⟨q', hq', heq, -⟩ | hret := afterMem_goes writeFirst (of_flush hflush).1 hq
    · exact Or.inl ⟨q', hq', heq⟩
    · exact Or.inr (Or.inr hret)
  · split at hq
    · rename_i hv
      obtain rfl := List.mem_singleton.1 hq
      obtain hd | ⟨hv', heq, hex⟩ := mem_goes writeFirst hflush hv
      · obtain ⟨hv', hwb⟩ := mem_goes_on writeFirst hd
        refine Or.inl ⟨(p.next i writeFirst).wb, ?_, by rw [hwb]; rfl⟩
        unfold afterMem
        rw [if_pos hv']
        exact List.mem_singleton_self _
      · refine Or.inr (Or.inl ⟨(p.next i writeFirst).mem, ?_, heq, hex⟩)
        unfold afterEx
        rw [if_pos hv']
        exact List.mem_append_right _ (List.mem_singleton_self _)
    · exact absurd hq List.not_mem_nil

/-- What the registers of a stage hold is what came in or what was there. -/
theorem shift_cases (p : StaticPipeline) (v : View) (prev : Arbitration) (out : PipelineRegs)
    {old : Bool} (hblocks : prev.isDone = true → v.arb.blocks = false)
    (h : validReg v.arb prev old = true) :
    (prev.isDone = true ∧ p.shift v prev out = out)
      ∨ (v.arb.isValid = true ∧ v.arb.isDone = false
        ∧ p.shift v prev out = { v.regs with rsData := p.input v }) := by
  obtain ⟨hprev, -⟩ | ⟨hv, hd⟩ := validReg_cases h
  · exact Or.inl ⟨hprev, shift_of_done (hblocks hprev) hprev⟩
  · have hprev : prev.isDone = false := by
      rw [Bool.eq_false_iff]
      intro hp
      exact absurd (isDone_of_blocks (hblocks hp) hv) (by rw [hd]; decide)
    exact Or.inr ⟨hv, hd, shift_of_stays hv hd hprev⟩

/-- **Every cycle keeps the results that are made.** -/
theorem ResultsMade.next (h : p.ResultsMade) (i : Signals) (writeFirst : Bool) :
    (p.next i writeFirst).ResultsMade := by
  refine ⟨fun hv => ?_, fun hv => ?_, fun hv => ?_⟩
  · obtain ⟨-, hshift⟩ | ⟨hvalid, -, hshift⟩ := shift_cases p (p.exView i)
      (p.idArb i) (p.idOutput i writeFirst) (fun hp => (of_isDone hp).1) hv
    · exact (congrArg PipelineRegs.rdValid hshift).trans rfl
    · exact (congrArg PipelineRegs.rdValid hshift).trans (h.ex (of_isValid hvalid).1)
  · have hnext : (p.next i writeFirst).mem
        = p.shift (p.memView i) (p.exArb i) (p.output (p.exView i)) := rfl
    obtain ⟨hdone, hshift⟩ | ⟨hvalid, -, hshift⟩ := shift_cases p (p.memView i)
      (p.exArb i) (p.output (p.exView i)) (fun hp => (of_isDone hp).1) hv
    · rw [hnext, hshift]
      show (p.ex.rdValid || decide (p.ex.instr.Produces .EX)) = true ↔ p.ex.instr.Produces .EX
      rw [h.ex (of_isValid (isValid_of_isDone hdone)).1, Bool.false_or, decide_eq_true_iff]
    · rw [hnext, hshift]
      exact h.mem (of_isValid hvalid).1
  · have hnext : (p.next i writeFirst).wb
        = p.shift (p.wbView i) (p.memArb i) (p.output (p.memView i)) := rfl
    obtain ⟨hdone, hshift⟩ | ⟨hvalid, -, hshift⟩ := shift_cases p (p.wbView i)
      (p.memArb i) (p.output (p.memView i)) (fun hp => (of_isDone hp).1) hv
    · rw [hnext, hshift]
      show (p.mem.rdValid || decide (p.mem.instr.Produces .MEM)) = true ↔ _
      rw [Bool.or_eq_true, decide_eq_true_iff, h.mem (of_isValid (isValid_of_isDone hdone)).1]
      exact Iff.rfl
    · rw [hnext, hshift]
      exact h.wb ((p.wbArb_isValid i).symm.trans hvalid)

section Step

variable (h : p.Inv) (i : Signals) (writeFirst : Bool)

include h

theorem Inv.next_ex (hv : (p.next i writeFirst).exValid = true) (rs : Source) (t : RegisterType) :
    (p.next i writeFirst).Settled (p.next i writeFirst).afterEx (p.next i writeFirst).ex rs t := by
  obtain ⟨-, hshift⟩ | ⟨hvalid, hd, hshift⟩ := shift_cases p (p.exView i)
    (p.idArb i) (p.idOutput i writeFirst) (fun hp => (of_isDone hp).1) hv
  · show (p.next i writeFirst).Settled _ (p.shift (p.exView i) _ _) rs t
    rw [hshift]
    exact settled_idOutput h _ rs t
  · obtain ⟨hold, hflush⟩ := of_isValid hvalid
    have hlater := laterEx_eq hflush
    show (p.next i writeFirst).Settled _ (p.shift (p.exView i) _ _) rs t
    rw [hshift]
    refine settled_next h (v := p.exView i) ?_ (by cases rs <;> rfl) hvalid rfl rfl ?_
    · show p.Settled (p.laterEx i) p.ex rs t
      rw [hlater]
      exact h.ex hold rs t
    · intro q hq
      have hq' : q ∈ p.afterEx := hlater ▸ hq
      obtain ⟨q', hq', heq⟩ | ⟨q', hq', heq, -⟩ | hret := afterEx_goes writeFirst hflush hq'
      · exact Or.inl ⟨q', List.mem_append_left _ hq', heq⟩
      · exact Or.inl ⟨q', hq', heq⟩
      · exact Or.inr hret

theorem Inv.next_mem (hv : (p.next i writeFirst).memValid = true) (rs : Source)
    (t : RegisterType) :
    (p.next i writeFirst).Settled (p.next i writeFirst).afterMem (p.next i writeFirst).mem
      rs t := by
  obtain ⟨hdone, hshift⟩ | ⟨hvalid, hd, hshift⟩ := shift_cases p (p.memView i)
    (p.exArb i) (p.output (p.exView i)) (fun hp => (of_isDone hp).1) hv
  · -- it comes from execution, and those after it are a stage further
    obtain ⟨hold, hflush⟩ := of_isValid (isValid_of_isDone hdone)
    have hlater := laterEx_eq hflush
    show (p.next i writeFirst).Settled _ (p.shift (p.memView i) _ _) rs t
    rw [hshift]
    refine settled_next h (v := p.exView i) ?_ (by cases rs <;> rfl) (isValid_of_isDone hdone) rfl
      rfl ?_
    · show p.Settled (p.laterEx i) p.ex rs t
      rw [hlater]
      exact h.ex hold rs t
    · intro q hq
      have hq' : q ∈ p.afterEx := hlater ▸ hq
      obtain hstay | ⟨-, -, -, hno⟩ | hret := afterEx_goes writeFirst hflush hq'
      · exact Or.inl hstay
      · rw [hno] at hdone
        cases hdone
      · exact Or.inr hret
  · obtain ⟨hold, hflush⟩ := of_isValid hvalid
    have hlater := laterMem_eq hflush
    show (p.next i writeFirst).Settled _ (p.shift (p.memView i) _ _) rs t
    rw [hshift]
    refine settled_next h (v := p.memView i) ?_ (by cases rs <;> rfl) hvalid rfl rfl ?_
    · show p.Settled (p.laterMem i) p.mem rs t
      rw [hlater]
      exact h.mem hold rs t
    · intro q hq
      have hq' : q ∈ p.afterMem := hlater ▸ hq
      obtain ⟨q', hq', heq, -⟩ | hret := afterMem_goes writeFirst hflush hq'
      · exact Or.inl ⟨q', hq', heq⟩
      · exact Or.inr hret

theorem Inv.next_wb (hv : (p.next i writeFirst).wbValid = true) (t : RegisterType) :
    (p.next i writeFirst).Settled [] (p.next i writeFirst).wb .RS1 t := by
  obtain ⟨hdone, hshift⟩ | ⟨hvalid, hd, hshift⟩ := shift_cases p (p.wbView i)
    (p.memArb i) (p.output (p.memView i)) (fun hp => (of_isDone hp).1) hv
  · obtain ⟨hold, hflush⟩ := of_isValid (isValid_of_isDone hdone)
    have hlater := laterMem_eq hflush
    show (p.next i writeFirst).Settled _ (p.shift (p.wbView i) _ _) .RS1 t
    rw [hshift]
    refine settled_next h (v := p.memView i) ?_ rfl (isValid_of_isDone hdone) rfl rfl ?_
    · show p.Settled (p.laterMem i) p.mem .RS1 t
      rw [hlater]
      exact h.mem hold .RS1 t
    · intro q hq
      have hq' : q ∈ p.afterMem := hlater ▸ hq
      obtain ⟨-, -, -, hno⟩ | hret := afterMem_goes writeFirst hflush hq'
      · rw [hno] at hdone
        cases hdone
      · exact Or.inr hret
  · show (p.next i writeFirst).Settled _ (p.shift (p.wbView i) _ _) .RS1 t
    rw [hshift]
    exact settled_next h (v := p.wbView i) (h.wb ((p.wbArb_isValid i).symm.trans hvalid) t) rfl
      hvalid rfl rfl (fun q hq => absurd hq List.not_mem_nil)

theorem Inv.next_rd : (p.next i writeFirst).ResultsMade :=
  h.resultsMade.next i writeFirst

theorem Inv.next_last (t : RegisterType) (hv : ((p.next i writeFirst).lastWrittenRd t).valid = true)
    (hid : ((p.next i writeFirst).lastWrittenRd t).id ≠ 0) :
    ((p.next i writeFirst).lastWrittenRd t).data
      = (p.next i writeFirst).regs t ((p.next i writeFirst).lastWrittenRd t).id := by
  have hlast : (p.next i writeFirst).lastWrittenRd t = p.lastWritten i t := rfl
  have hregs : (p.next i writeFirst).regs = p.writtenRegs i := rfl
  rw [hlast] at hv hid ⊢
  rw [hregs]
  unfold lastWritten writtenRegs at *
  by_cases hret : p.retires i = true
  · simp only [hret, if_true] at hv hid ⊢
    rw [Bool.and_eq_true, decide_eq_true_iff] at hv
    rw [if_pos ⟨trivial, ⟨hv.2, rfl⟩, hid⟩]
  · simp only [hret] at hv hid ⊢
    exact h.last t hv hid

/-- **Every cycle keeps the invariant.** -/
theorem Inv.next : (p.next i writeFirst).Inv where
  ex := h.next_ex i writeFirst
  mem := h.next_mem i writeFirst
  wb := h.next_wb i writeFirst
  exRd := (h.next_rd i writeFirst).ex
  memRd := (h.next_rd i writeFirst).mem
  wbRd := (h.next_rd i writeFirst).wb
  last := h.next_last i writeFirst
  null := (if_neg (fun hc => hc.2.2 rfl)).trans h.null

end Step

/-! ## Every run -/

/-- The instructions that a run retires, the last one first. -/
def retired (writeFirst : Bool) (p₀ : StaticPipeline) (is : List Signals) : List PipelineRegs :=
  ((machine writeFirst).observe p₀ is).reverse.reduceOption

/-- The youngest of some instructions that writes a register. -/
def youngestWriter (l : List PipelineRegs) (t : RegisterType) (r : RegId) : Option PipelineRegs :=
  l.find? (fun q => decide (q.instr.Writes t r))

/-- **A value is that of a register**, after some instructions, the youngest
first: what the youngest that writes it has produced, or what was there at
first. -/
def ValueOf (p₀ : StaticPipeline) (l : List PipelineRegs) (t : RegisterType) (r : RegId)
    (x : t.Value) : Prop :=
  (∃ q, youngestWriter l t r = some q ∧ q.rdValid = true ∧ x = q.rdData t)
    ∨ (youngestWriter l t r = none ∧ x = p₀.regs t r)

/-- **DDC is what the youngest of some instructions wrote**, the youngest first,
or what it was at first. -/
def DdcOf (p₀ : StaticPipeline) (l : List PipelineRegs) (x : Capability) : Prop :=
  (∃ q, l.find? (fun q => decide q.instr.WritesDdc) = some q ∧ x = q.rsData .RS1 .CAP)
    ∨ (l.find? (fun q => decide q.instr.WritesDdc) = none ∧ x = p₀.ddc)

theorem retired_concat (p₀ : StaticPipeline) (is : List Signals) (i : Signals) :
    retired writeFirst p₀ (is ++ [i])
      = if ((machine writeFirst).run p₀ is).retires i = true then
          ((machine writeFirst).run p₀ is).output (((machine writeFirst).run p₀ is).wbView i)
            :: retired writeFirst p₀ is
        else retired writeFirst p₀ is := by
  unfold retired
  rw [SyncMachine.observe_append, List.reverse_append]
  show List.reduceOption ((if ((machine writeFirst).run p₀ is).retires i = true then _ else none)
    :: _) = _
  split
  · rfl
  · rfl

theorem run_concat (p₀ : StaticPipeline) (is : List Signals) (i : Signals) :
    (machine writeFirst).run p₀ (is ++ [i])
      = ((machine writeFirst).run p₀ is).next i writeFirst := by
  rw [SyncMachine.run_append]
  rfl

section Runs

variable {p₀ : StaticPipeline} {l : List PipelineRegs}

theorem youngestWriter_cons_pos {q : PipelineRegs} {t : RegisterType} {r : RegId}
    (h : q.instr.Writes t r) : youngestWriter (q :: l) t r = some q := by
  unfold youngestWriter
  rw [List.find?_cons, decide_eq_true h]

theorem youngestWriter_cons_neg {q : PipelineRegs} {t : RegisterType} {r : RegId}
    (h : ¬ q.instr.Writes t r) : youngestWriter (q :: l) t r = youngestWriter l t r := by
  unfold youngestWriter
  rw [List.find?_cons, decide_eq_false h]

/-- **The register files hold what the retired instructions have produced.** -/
theorem valueOf_regs_next (h : p.Inv) {t : RegisterType} {r : RegId} (hr : r ≠ 0)
    (hval : ValueOf p₀ l t r (p.regs t r)) :
    ValueOf p₀ (if p.retires i = true then p.output (p.wbView i) :: l else l) t r
      ((p.next i writeFirst).regs t r) := by
  have hregs : (p.next i writeFirst).regs t r = p.writtenRegs i t r := rfl
  rw [hregs]
  by_cases hret : p.retires i = true
  · rw [if_pos hret]
    by_cases hw : p.wb.instr.Writes t r
    · refine Or.inl ⟨_, youngestWriter_cons_pos hw, ?_, if_pos ⟨hret, hw, hr⟩⟩
      have hlast := (lastWritten_of_retires h hret hw hr).1
      unfold lastWritten at hlast
      rw [if_pos hret] at hlast
      exact (Bool.and_eq_true _ _ ▸ hlast).1
    · have hkeep : p.writtenRegs i t r = p.regs t r := if_neg (fun hc => hw hc.2.1)
      unfold ValueOf
      rw [hkeep, youngestWriter_cons_neg (show ¬ (p.output (p.wbView i)).instr.Writes t r from hw)]
      exact hval
  · have hkeep : p.writtenRegs i t r = p.regs t r := if_neg (fun hc => hret hc.1)
    rw [if_neg hret, hkeep]
    exact hval

/-- **Along every run.** -/
theorem inv_run (writeFirst : Bool) (h₀ : p₀.Inv) (is : List Signals) :
    ((machine writeFirst).run p₀ is).Inv
      ∧ ∀ t r, r ≠ 0 →
        ValueOf p₀ (retired writeFirst p₀ is) t r (((machine writeFirst).run p₀ is).regs t r) := by
  induction is using List.reverseRecOn with
  | nil => exact ⟨h₀, fun t r _ => Or.inr ⟨rfl, rfl⟩⟩
  | append_singleton is i ih =>
    obtain ⟨hinv, hregs⟩ := ih
    rw [run_concat, retired_concat]
    exact ⟨hinv.next i writeFirst, fun t r hr => valueOf_regs_next hinv hr (hregs t r hr)⟩

/-- A stage that does not wait has none of its sources waiting. -/
theorem stalled_of_hazard {later : List PipelineRegs} {s : Stage} {c : PipelineRegs}
    {sig : StageSignals} {isValid : Bool} (h : p.hazard later s c sig isValid = false)
    (rs : Source) (t : RegisterType) :
    (p.resolveRs later s isValid c sig rs t).stalled = false := by
  unfold hazard at h
  simp only [List.any_cons, List.any_nil, Bool.or_eq_false_iff, Bool.or_false] at h
  cases rs <;> cases t
  · exact h.1.1
  · exact h.1.2
  · exact h.2.1
  · exact h.2.2

/-- The youngest of the later instructions, as a source sees them. -/
theorem youngest_entries {later : List PipelineRegs} {t : RegisterType} {r : RegId}
    {q : PipelineRegs} (e : Bypass.Entry RegId t.Value)
    (h : youngestWriter later.reverse t r = some q) :
    Bypass.youngest r (e :: later.map (fun q => q.entry t)) = some (q.entry t) := by
  have hkey : (fun e : Bypass.Entry RegId t.Value => decide (e.key = some r))
      ∘ (fun q : PipelineRegs => q.entry t) = fun q => decide (q.instr.Writes t r) := by
    funext q
    exact decide_eq_decide.2 key_entry_iff
  unfold Bypass.youngest
  unfold youngestWriter at h
  rw [List.reverse_cons, ← List.map_reverse, List.find?_append, List.find?_map, hkey, h]
  rfl

/-- **A source that is needed, in a stage that does not wait, has the value of
its register.** -/
theorem valueOf_input (h : p.Inv) {rs : Source} {t : RegisterType}
    (hs : p.Settled v.later v.regs rs t) (hin : hasInput v.stage rs = true)
    (hv : v.arb.isValid = true) (hneeded : v.sig.rsNeeded rs = true)
    (hwait : (p.resolveRs v.later v.stage v.arb.isValid v.regs v.sig rs t).stalled = false)
    (htype : v.regs.instr.rsType rs = some t) (hr : v.regs.instr.rs rs ≠ 0)
    (hregs : ValueOf p₀ l t (v.regs.instr.rs rs) (p.regs t (v.regs.instr.rs rs))) :
    ValueOf p₀ (v.later.reverse ++ l) t (v.regs.instr.rs rs) (p.input v rs t) := by
  cases hf : youngestWriter v.later.reverse t (v.regs.instr.rs rs) with
  | none =>
    have hno : ∀ q ∈ v.later, ¬ q.instr.Writes t (v.regs.instr.rs rs) := by
      intro q hq
      have := List.find?_eq_none.1 hf q (List.mem_reverse.2 hq)
      rwa [decide_eq_true_iff] at this
    have hfind : youngestWriter (v.later.reverse ++ l) t (v.regs.instr.rs rs)
        = youngestWriter l t (v.regs.instr.rs rs) := by
      unfold youngestWriter at hf ⊢
      rw [List.find?_append, hf, Option.none_or]
    unfold ValueOf
    rw [hfind, input_eq_regs h hs hin hv htype hr hno]
    exact hregs
  | some q =>
    have hfind : youngestWriter (v.later.reverse ++ l) t (v.regs.instr.rs rs) = some q := by
      unfold youngestWriter at hf ⊢
      rw [List.find?_append, hf, Option.some_or]
    rw [resolveRs_eq hin hv htype hr, hneeded] at hwait
    have hyoungest := youngest_entries (p.lastWrittenRd t).entry hf
    obtain ⟨hnone, -⟩ | ⟨e, x, hsome, hval, hres⟩ := Bypass.resolve_eq_of_not_stalled hwait
    · rw [hyoungest] at hnone
      cases hnone
    · obtain rfl := Option.some.inj (hyoungest.symm.trans hsome)
      have hval' : (if q.rdValid then some (q.rdData t) else none) = some x := hval
      refine Or.inl ⟨q, hfind, ?_, ?_⟩
      · cases hrd : q.rdValid with
        | true => rfl
        | false =>
          rw [hrd] at hval'
          cases hval'
      · unfold input forwarded
        rw [resolveRs_eq hin hv htype hr, hneeded, hres, Option.getD_some]
        split at hval'
        · exact (Option.some.inj hval').symm
        · cases hval'

/-! ### What is claimed of a cycle -/

/-- The older instructions that are still in the pipeline, the youngest
first. -/
def olderThan (p : StaticPipeline) : Stage → List PipelineRegs
  | .EX => p.afterEx.reverse
  | .MEM => p.afterMem.reverse
  | _ => []

/-- **The operands of a cycle are right**, after a run from the state of reset.
A source that a stage needs and is done with has the value of its register;
what an instruction has produced, it keeps; and the memory stage, when it is
done, sees the DDC that the youngest older instruction wrote. -/
structure OperandsRight (writeFirst : Bool) (p₀ : StaticPipeline) (is : List Signals)
    (p : StaticPipeline) (i : Signals) : Prop where
  source : ∀ v ∈ [p.exView i, p.memView i, p.wbView i], ∀ rs, hasInput v.stage rs = true →
    v.arb.isDone = true → v.sig.rsNeeded rs = true → ∀ t, v.regs.instr.rsType rs = some t →
      (v.regs.instr.rs rs = 0 → p.input v rs t = t.null)
        ∧ (v.regs.instr.rs rs ≠ 0 → ValueOf p₀ (p.olderThan v.stage ++ retired writeFirst p₀ is) t
          (v.regs.instr.rs rs) (p.input v rs t))
  result : ∀ v ∈ [p.exView i, p.memView i, p.wbView i], v.arb.isValid = true →
    v.regs.rdValid = true → (p.output v).rdValid = true ∧ (p.output v).rdData = v.regs.rdData
  ddc : (p.memArb i).isDone = true →
    DdcOf p₀ (p.olderThan .MEM ++ retired writeFirst p₀ is) p.ddc

/-- A source, in each of the stages that read one. -/
theorem source_right (h : p.Inv) {is : List Signals}
    (hregs : ∀ t r, r ≠ 0 → ValueOf p₀ (retired writeFirst p₀ is) t r (p.regs t r)) {v : View}
    (hmem : v ∈ [p.exView i, p.memView i, p.wbView i]) {rs : Source}
    (hin : hasInput v.stage rs = true) (hd : v.arb.isDone = true)
    (hneeded : v.sig.rsNeeded rs = true) {t : RegisterType}
    (htype : v.regs.instr.rsType rs = some t) :
    (v.regs.instr.rs rs = 0 → p.input v rs t = t.null)
      ∧ (v.regs.instr.rs rs ≠ 0 → ValueOf p₀ (p.olderThan v.stage ++ retired writeFirst p₀ is) t
        (v.regs.instr.rs rs) (p.input v rs t)) := by
  -- in each stage: the instructions after it, that its source is settled, that it does not wait
  have hstage : v.later.reverse = p.olderThan v.stage ∧ p.Settled v.later v.regs rs t
      ∧ (p.resolveRs v.later v.stage v.arb.isValid v.regs v.sig rs t).stalled = false := by
    rcases List.mem_cons.1 hmem with rfl | hmem
    · obtain ⟨hold, hflush⟩ := of_isValid (isValid_of_isDone hd)
      have hlater : (p.exView i).later = p.afterEx := laterEx_eq hflush
      rw [hlater]
      refine ⟨rfl, h.ex hold rs t, ?_⟩
      have hwait := stalled_of_hazard (of_isDone hd).2 rs t
      rw [← hlater]
      exact hwait
    · rcases List.mem_cons.1 hmem with rfl | hmem
      · obtain ⟨hold, hflush⟩ := of_isValid (isValid_of_isDone hd)
        have hlater : (p.memView i).later = p.afterMem := laterMem_eq hflush
        rw [hlater]
        refine ⟨rfl, h.mem hold rs t, ?_⟩
        have hwait := stalled_of_hazard (Bool.or_eq_false_iff.1 (of_isDone hd).2).1 rs t
        rw [← hlater]
        exact hwait
      · obtain rfl := List.mem_singleton.1 hmem
        refine ⟨rfl, ?_, stalled_of_hazard (of_isDone hd).2 rs t⟩
        cases rs with
        | RS1 => exact h.wb (of_isValid (isValid_of_isDone hd)).1 t
        | RS2 => exact absurd hin Bool.false_ne_true
  obtain ⟨holder, hs, hwait⟩ := hstage
  refine ⟨fun hr => input_zero hs htype hr, fun hr => ?_⟩
  rw [← holder]
  exact valueOf_input h hs hin (isValid_of_isDone hd) hneeded hwait htype hr (hregs t _ hr)

/-- A result that was made is not made again. -/
theorem result_right (h : p.Inv) {v : View} (hmem : v ∈ [p.exView i, p.memView i, p.wbView i])
    (hv : v.arb.isValid = true) (hrd : v.regs.rdValid = true) :
    (p.output v).rdValid = true ∧ (p.output v).rdData = v.regs.rdData := by
  have hno : ¬ v.regs.instr.Produces v.stage := by
    rcases List.mem_cons.1 hmem with rfl | hmem
    · intro _
      have hfalse := h.exRd (of_isValid hv).1
      rw [show p.ex.rdValid = true from hrd] at hfalse
      cases hfalse
    · rcases List.mem_cons.1 hmem with rfl | hmem
      · intro hprod
        exact absurd (produces_unique hprod ((h.memRd (of_isValid hv).1).1 hrd))
          (show Stage.MEM ≠ .EX by decide)
      · obtain rfl := List.mem_singleton.1 hmem
        intro hprod
        obtain hex | hmem := (h.wbRd (of_isValid hv).1).1 hrd
        · exact absurd (produces_unique hprod hex) (show Stage.WB ≠ .EX by decide)
        · exact absurd (produces_unique hprod hmem) (show Stage.WB ≠ .MEM by decide)
  refine ⟨?_, ?_⟩
  · show (v.regs.rdValid || _) = true
    rw [hrd, Bool.true_or]
  · funext t
    exact if_neg hno

/-! ### DDC -/

/-- No instruction in the pipeline has trapped. -/
structure Untrapped (p : StaticPipeline) : Prop where
  id : p.idTrapped = false
  ex : p.ex.hasTrapped = false
  mem : p.mem.hasTrapped = false
  wb : p.wb.hasTrapped = false

/-- What a stage hands on has not trapped, where nothing traps. -/
theorem hasTrapped_shift (hregs : v.regs.hasTrapped = false) (hout : out.hasTrapped = false) :
    (p.shift v prev out).hasTrapped = false := by
  have hbase : (if prev.isDone then out else v.regs).hasTrapped = false := by
    split
    · exact hout
    · exact hregs
  unfold shift
  dsimp only
  split
  · exact hbase
  · exact hbase

theorem Untrapped.next (h : p.Untrapped) (htrap : ∀ s, (i.stage s).trap = false) :
    (p.next i writeFirst).Untrapped where
  id := by
    show (if (p.ifArb i).isDone then (i.stage .IF).trap else p.idTrapped) = false
    rw [htrap, h.id, ite_self]
  ex := by
    refine hasTrapped_shift h.ex ?_
    show ((i.stage .ID).trap || p.idTrapped) = false
    rw [htrap, h.id]
    rfl
  mem := by
    refine hasTrapped_shift h.mem ?_
    show ((i.stage .EX).trap || p.ex.hasTrapped) = false
    rw [htrap, h.ex]
    rfl
  wb := by
    refine hasTrapped_shift h.wb ?_
    show ((i.stage .MEM).trap || p.mem.hasTrapped) = false
    rw [htrap, h.mem]
    rfl

/-- A cycle keeps DDC what the retired instructions made it, unless one that
writes it stays in write-back. -/
theorem ddcOf_next (h : p.Untrapped) (htrap : ∀ s, (i.stage s).trap = false)
    (hddc : (p.wbValid = true ∧ p.wb.instr.WritesDdc) ∨ DdcOf p₀ l p.ddc) :
    ((p.next i writeFirst).wbValid = true ∧ (p.next i writeFirst).wb.instr.WritesDdc)
      ∨ DdcOf p₀ (if p.retires i = true then p.output (p.wbView i) :: l else l)
        (p.next i writeFirst).ddc := by
  have hret : p.retires i = (p.wbArb i).isDone := by
    unfold retires trapped
    rw [htrap, h.wb, Bool.or_false, Bool.not_false, Bool.and_true]
  by_cases hw : p.wbValid = true ∧ p.wb.instr.WritesDdc
  · have hnext : (p.next i writeFirst).ddc = p.input (p.wbView i) .RS1 .CAP :=
      if_pos ⟨(p.wbArb_isValid i).trans hw.1, hw.2⟩
    rw [hnext]
    cases hd : (p.wbArb i).isDone with
    | true =>
      rw [hret, hd, if_pos rfl]
      refine Or.inr (Or.inl ⟨p.output (p.wbView i), ?_, rfl⟩)
      rw [List.find?_cons, decide_eq_true (show (p.output (p.wbView i)).instr.WritesDdc from hw.2)]
    | false =>
      -- it stays, and writes again
      obtain ⟨hv', heq, -⟩ := wb_stays writeFirst hw.1 hd
      exact Or.inl ⟨hv', heq ▸ hw.2⟩
  · have hnext : (p.next i writeFirst).ddc = p.ddc :=
      if_neg (fun hc => hw ⟨(p.wbArb_isValid i).symm.trans hc.1, hc.2⟩)
    rw [hnext]
    have hold := hddc.resolve_left hw
    refine Or.inr ?_
    by_cases hr : p.retires i = true
    · have hvalid : p.wbValid = true :=
        (p.wbArb_isValid i).symm.trans (isValid_of_isDone (isDone_of_retires hr))
      have hno : ¬ (p.output (p.wbView i)).instr.WritesDdc := fun hc => hw ⟨hvalid, hc⟩
      rw [if_pos hr]
      unfold DdcOf
      rw [List.find?_cons, decide_eq_false hno]
      exact hold
    · rw [if_neg hr]
      exact hold

/-- **Along every run without traps**, DDC is what was written last, unless that
is not over. -/
theorem ddcOf_run (writeFirst : Bool) (h₀ : p₀.Untrapped) (is : List Signals)
    (htrap : ∀ j ∈ is, ∀ s, (j.stage s).trap = false) :
    ((machine writeFirst).run p₀ is).Untrapped
      ∧ ((((machine writeFirst).run p₀ is).wbValid = true
          ∧ ((machine writeFirst).run p₀ is).wb.instr.WritesDdc)
        ∨ DdcOf p₀ (retired writeFirst p₀ is) ((machine writeFirst).run p₀ is).ddc) := by
  induction is using List.reverseRecOn with
  | nil => exact ⟨h₀, Or.inr (Or.inr ⟨rfl, rfl⟩)⟩
  | append_singleton is i ih =>
    obtain ⟨huntrapped, hddc⟩ := ih (fun j hj => htrap j (List.mem_append_left _ hj))
    have hi := htrap i (List.mem_append_right _ (List.mem_singleton_self i))
    rw [run_concat, retired_concat]
    exact ⟨huntrapped.next hi, ddcOf_next huntrapped hi hddc⟩

/-- A memory stage that is done does not have a write of DDC after it. -/
theorem ddc_right {p : StaticPipeline} (hd : (p.memArb i).isDone = true)
    (hddc : (p.wbValid = true ∧ p.wb.instr.WritesDdc) ∨ DdcOf p₀ l p.ddc) :
    DdcOf p₀ (p.olderThan .MEM ++ l) p.ddc := by
  have hconflict := (Bool.or_eq_false_iff.1 (of_isDone hd).2).2
  rw [wbArb_isValid] at hconflict
  have hno : ¬ (p.wbValid = true ∧ p.wb.instr.WritesDdc) := by
    rintro ⟨hv, hw⟩
    rw [hv, decide_eq_true hw] at hconflict
    cases hconflict
  have hfind : (p.olderThan .MEM).find? (fun q => decide q.instr.WritesDdc) = none := by
    refine List.find?_eq_none.2 (fun q hq => ?_)
    have hq' : q ∈ p.afterMem := List.mem_reverse.1 hq
    unfold afterMem at hq'
    split at hq'
    · rename_i hv
      obtain rfl := List.mem_singleton.1 hq'
      rw [decide_eq_true_iff]
      exact fun hw => hno ⟨hv, hw⟩
    · exact absurd hq' List.not_mem_nil
  unfold DdcOf
  rw [List.find?_append, hfind, Option.none_or]
  exact hddc.resolve_left hno

end Runs

/-! ## Reset -/

/-- **The state of reset**: no instruction in the pipeline, and the capability
registers hold nothing. The registers of the other file have no reset value, and
neither has `lastWrittenRd`. -/
structure Reset (p : StaticPipeline) : Prop where
  idValid : p.idValid = false
  exValid : p.exValid = false
  memValid : p.memValid = false
  wbValid : p.wbValid = false
  untrapped : p.Untrapped
  caps : ∀ r, p.regs .CAP r = RegisterType.null .CAP

/-- **`lastWrittenRd` agrees with the register file**, as after any write. -/
def LastAgrees (p : StaticPipeline) : Prop :=
  ∀ t, (p.lastWrittenRd t).valid = true → (p.lastWrittenRd t).id ≠ 0 →
    (p.lastWrittenRd t).data = p.regs t (p.lastWrittenRd t).id

/-- An instruction that reads a register of a file. -/
def reader (t : RegisterType) (r : RegId) : Instr where
  opcode := match t with
    | .GPR => .aluImm
    | .CAP => .cMove
  rs1 := r
  rs2 := 0
  rd := 0
  imm := 0
  rd_zero := fun _ => rfl

/-- A cycle in which every stage is ready and needs its first source. -/
def readerSignals (t : RegisterType) (r : RegId) : Signals where
  fetched := reader t r
  stage := fun _ => ⟨true, fun rs => decide (rs = .RS1), fun t => t.null, false, false, false⟩

/-- **Two cycles after reset** the first instruction is alone in execution, and
the last write is what it was. -/
theorem reader_in_ex (writeFirst : Bool) {p₀ : StaticPipeline} (h₀ : p₀.Reset) (t : RegisterType)
    (r : RegId) :
    let p := (machine writeFirst).run p₀ [readerSignals t r, readerSignals t r]
    p.exValid = true ∧ p.ex.instr = reader t r ∧ p.memValid = false ∧ p.wbValid = false
      ∧ p.lastWrittenRd = p₀.lastWrittenRd
      ∧ retired writeFirst p₀ [readerSignals t r, readerSignals t r] = [] := by
  obtain ⟨hid, hex, hmem, hwb, -, -⟩ := h₀
  obtain ⟨idValid, id, idTrapped, exValid, ex, memValid, mem, wbValid, wb, regs, last, ddc⟩ := p₀
  subst hid hex hmem hwb
  exact ⟨rfl, rfl, rfl, rfl, rfl, rfl⟩

/-- **An instruction alone in execution** is done with its source, whose value is
that of the last write, if that writes its register. -/
theorem reader_input {t : RegisterType} {r : RegId} (hex : p.exValid = true)
    (hinstr : p.ex.instr = reader t r) (hmem : p.memValid = false) (hwb : p.wbValid = false)
    (hv : (p.lastWrittenRd t).valid = true) (hid : (p.lastWrittenRd t).id = r) (hr : r ≠ 0) :
    (p.exArb (readerSignals t r)).isDone = true
      ∧ p.input (p.exView (readerSignals t r)) .RS1 t = (p.lastWrittenRd t).data := by
  have hwbArb : p.wbArb (readerSignals t r) = ⟨false, false, true, false⟩ := by
    unfold wbArb
    rw [hwb]
    rfl
  have hmemArb : p.memArb (readerSignals t r) = ⟨false, false, true, false⟩ := by
    unfold memArb
    rw [hmem, hwbArb]
    rfl
  have hlater : p.laterEx (readerSignals t r) = [] := by
    rw [laterEx_eq (by rw [hmemArb]), afterEx, afterMem, hmem, hwb]
    rfl
  have hvalid : (p.exArb (readerSignals t r)).isValid = true := by
    unfold exArb
    rw [isValid_of_flush (by rw [hmemArb]), hex]
  have hwait : ∀ isValid rs t', (p.resolveRs [] .EX isValid p.ex
      ((readerSignals t r).stage .EX) rs t').stalled = false := by
    intro isValid rs t'
    unfold resolveRs
    split
    · exact Bypass.stalled_resolve_singleton (v := (p.lastWrittenRd t').data) rfl
    · rfl
  have htype : p.ex.instr.rsType .RS1 = some t := by
    rw [hinstr]
    cases t
    · rfl
    · rfl
  have hrs : p.ex.instr.rs .RS1 = r := by
    rw [hinstr]
    rfl
  constructor
  · refine isDone_iff.2 ⟨hvalid, rfl, ?_⟩
    show ((p.memArb (readerSignals t r)).blocks || p.hazard _ .EX p.ex _ _) = false
    rw [hmemArb, hlater]
    unfold hazard
    simp only [List.any_cons, List.any_nil, hwait]
    rfl
  · have hno : ∀ q ∈ (p.exView (readerSignals t r)).later,
        ¬ q.instr.Writes t (p.ex.instr.rs .RS1) := by
      intro q hq
      rw [show (p.exView (readerSignals t r)).later = [] from hlater] at hq
      exact absurd hq List.not_mem_nil
    rw [input_of_no_writer (v := p.exView (readerSignals t r)) rfl hvalid htype
      (show p.ex.instr.rs .RS1 ≠ 0 from hrs ▸ hr) hno]
    exact if_pos ⟨hv, hid.trans hrs.symm⟩

/-- **The operands are right in every run, from exactly the states of reset in
which `lastWrittenRd` agrees with the register file.** -/
theorem operandsRight_iff (writeFirst : Bool) (p₀ : StaticPipeline) (h₀ : p₀.Reset) :
    (∀ is i, (∀ j ∈ i :: is, ∀ s, (j.stage s).trap = false) →
      OperandsRight writeFirst p₀ is ((machine writeFirst).run p₀ is) i) ↔ p₀.LastAgrees := by
  constructor
  · intro h t hv hid
    let j := readerSignals t (p₀.lastWrittenRd t).id
    let p := (machine writeFirst).run p₀ [j, j]
    have hright : OperandsRight writeFirst p₀ [j, j] p j := h [j, j] j fun k hk s => by
      rcases List.mem_cons.1 hk with rfl | hk
      · rfl
      · rcases List.mem_cons.1 hk with rfl | hk
        · rfl
        · rw [List.mem_singleton.1 hk]
          rfl
    obtain ⟨hex, hinstr, hmem, hwb, hlast, hretired⟩ :=
      reader_in_ex writeFirst h₀ t (p₀.lastWrittenRd t).id
    have hpv : (p.lastWrittenRd t).valid = true := by
      rw [show p.lastWrittenRd = p₀.lastWrittenRd from hlast]
      exact hv
    have hpid : (p.lastWrittenRd t).id = (p₀.lastWrittenRd t).id := by
      rw [show p.lastWrittenRd = p₀.lastWrittenRd from hlast]
    obtain ⟨hdone, hinput⟩ := reader_input hex hinstr hmem hwb hpv hpid hid
    have htype : p.ex.instr.rsType .RS1 = some t := by
      rw [show p.ex.instr = reader t (p₀.lastWrittenRd t).id from hinstr]
      cases t
      · rfl
      · rfl
    have hrs : p.ex.instr.rs .RS1 = (p₀.lastWrittenRd t).id := by
      rw [show p.ex.instr = reader t (p₀.lastWrittenRd t).id from hinstr]
      rfl
    have holder : p.olderThan .EX = [] := by
      show p.afterEx.reverse = []
      rw [afterEx, afterMem, show p.memValid = false from hmem, show p.wbValid = false from hwb]
      rfl
    have hvalue := (hright.source (p.exView j) List.mem_cons_self .RS1 rfl hdone rfl t htype).2
      (show p.ex.instr.rs .RS1 ≠ 0 from hrs ▸ hid)
    rw [show p.olderThan (p.exView j).stage = [] from holder, hretired] at hvalue
    obtain ⟨q, hq, -⟩ | ⟨-, hinit⟩ := hvalue
    · cases hq
    · have hdata : (p.lastWrittenRd t).data = (p₀.lastWrittenRd t).data := by
        rw [show p.lastWrittenRd = p₀.lastWrittenRd from hlast]
      rw [← hdata, ← hinput, hinit]
      exact congrArg (p₀.regs t) hrs
  · intro hlast is i htrap
    have hinv : p₀.Inv :=
      { ex := fun hv => absurd hv (by rw [h₀.exValid]; decide)
        mem := fun hv => absurd hv (by rw [h₀.memValid]; decide)
        wb := fun hv => absurd hv (by rw [h₀.wbValid]; decide)
        exRd := fun hv => absurd hv (by rw [h₀.exValid]; decide)
        memRd := fun hv => absurd hv (by rw [h₀.memValid]; decide)
        wbRd := fun hv => absurd hv (by rw [h₀.wbValid]; decide)
        last := hlast
        null := h₀.caps 0 }
    obtain ⟨hrun, hregs⟩ := inv_run writeFirst hinv is
    obtain ⟨-, hddc⟩ := ddcOf_run writeFirst h₀.untrapped is
      (fun j hj => htrap j (List.mem_cons_of_mem _ hj))
    exact
      { source := fun v hv rs hin hd hneeded t htype =>
          source_right hrun hregs hv hin hd hneeded htype
        result := fun v hv hvalid hrd => result_right hrun hv hvalid hrd
        ddc := fun hd => ddc_right hd hddc }

/-! ### Two states of reset -/

/-- The registers before a stage, at reset. -/
def emptyRegs : PipelineRegs where
  instr := reader .GPR 0
  rsData := fun _ t => t.null
  rdValid := false
  rdData := fun t => t.null
  aluResult := 0
  hasTrapped := false

/-- A state of reset, with all registers zero and with `lastWrittenRd` of `x5`
either not set or with some value. -/
def resetState (valid : Bool) : StaticPipeline where
  idValid := false
  id := reader .GPR 0
  idTrapped := false
  exValid := false
  ex := emptyRegs
  memValid := false
  mem := emptyRegs
  wbValid := false
  wb := emptyRegs
  regs := fun t _ => t.null
  lastWrittenRd := fun t =>
    match t with
    | .GPR => ⟨5, valid, (1 : BitVec 32)⟩
    | .CAP => ⟨5, false, Capability.null⟩
  ddc := .root

theorem reset_resetState (valid : Bool) : (resetState valid).Reset where
  idValid := rfl
  exValid := rfl
  memValid := rfl
  wbValid := rfl
  untrapped := ⟨rfl, rfl, rfl, rfl⟩
  caps := fun _ => rfl

/-- With `lastWrittenRd` not set, the operands are right in every run. -/
theorem operandsRight_resetState :
    (resetState false).Reset ∧ ∀ is i, (∀ j ∈ i :: is, ∀ s, (j.stage s).trap = false) →
      OperandsRight false (resetState false) is ((machine false).run (resetState false) is) i := by
  refine ⟨reset_resetState false, ?_⟩
  refine (operandsRight_iff false (resetState false) (reset_resetState false)).2 ?_
  intro t hv
  cases t
  · exact absurd hv Bool.false_ne_true
  · exact absurd hv Bool.false_ne_true

/-- **With `lastWrittenRd` set, the first instruction reads a one that nothing
has written.** -/
theorem not_operandsRight_resetState :
    ¬ OperandsRight false (resetState true) [readerSignals .GPR 5, readerSignals .GPR 5]
      ((machine false).run (resetState true) [readerSignals .GPR 5, readerSignals .GPR 5])
      (readerSignals .GPR 5) := by
  intro h
  have hvalue := (h.source _ List.mem_cons_self .RS1 rfl (by decide) rfl .GPR rfl).2 (by decide)
  obtain ⟨q, hq, -⟩ | ⟨-, hinit⟩ := hvalue
  · cases hq
  · exact absurd hinit (show ¬ (1 : BitVec 32) = 0 by decide)

end StaticPipeline

end Proteus
