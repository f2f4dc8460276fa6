import CheriTree.Bypass
import CheriTree.Proteus.CapCheck
import CheriTree.SyncMachine

/-!
# The static pipeline

The five stages of `ClassicRiscPipeline` and what moves instructions through
them: `Scheduler`, `DataHazardResolver`, the flushes of `PcManager` and
`TrapHandler`, the two register files, and the hazard on DDC of `ScrFile`. What
the other plugins do in a stage is an input of every cycle: whether the stage is
ready, which sources it needs, what it computes, whether it jumps, claims the
pipeline or traps. So a statement about every run is one about every timing and
every program.

In a cycle the signals of a stage depend on those of the stages after it, so
they are given from write-back on, back to fetch.
-/

namespace Proteus

/-! ## Instructions -/

/-- The register files, as `DataHazardInfo` has them: one for `RS1_DATA`,
`RS2_DATA` and `RD_DATA`, one for `CS1_DATA`, `CS2_DATA` and `CD_DATA`. -/
inductive RegisterType where
  | GPR
  | CAP
deriving DecidableEq, Repr

/-- What the registers of a file hold. -/
def RegisterType.Value : RegisterType → Type
  | .GPR => Word
  | .CAP => Capability

/-- What register 0 of a file reads as. -/
def RegisterType.null : (t : RegisterType) → t.Value
  | .GPR => (0 : BitVec 32)
  | .CAP => Capability.null

inductive Stage where
  | IF
  | ID
  | EX
  | MEM
  | WB
deriving DecidableEq, Repr

/-- The sources of an instruction. -/
inductive Source where
  | RS1
  | RS2
deriving DecidableEq, Repr

/-- **What the decoder makes of an instruction**, its registers and its
immediate apart. Opcodes that no stage of this model tells apart are one. -/
inductive Opcode where
  | alu
  | aluImm
  | lui
  | auipc
  | shift
  | shiftImm
  | mulDiv
  | jal
  | jalr
  | branch
  | load (width : LsuAccessWidth) (unsigned : Bool)
  | store (width : LsuAccessWidth)
  | csrrw
  | csrrs
  | csrrc
  | mret
  | ecall
  | ebreak
  | cGet
  | cModify
  | cModifyImm
  | cClearTag
  | cMove
  | cSeal
  | cUnseal
  | cInvoke
  | cJalr
  | cSpecialRW
  | loadCap (width : LsuAccessWidth) (unsigned : Bool)
  | storeCap (width : LsuAccessWidth)
  | lcCap
  | scCap
  | lc
  | sc
  | eInitCode
  | eInitData
  | eStoreId
  | illegal
deriving DecidableEq, Repr

namespace Opcode

/-- `RS1_TYPE` and `RS2_TYPE`. -/
def rsType : Opcode → Source → Option RegisterType
  | alu, _ | shift, _ | mulDiv, _ | branch, _ | store _, _ => some .GPR
  | aluImm, .RS1 | shiftImm, .RS1 | jalr, .RS1 | load _ _, .RS1 | csrrw, .RS1 | csrrs, .RS1
  | csrrc, .RS1 | mret, .RS1 | ecall, .RS1 | ebreak, .RS1 | lc, .RS1 | sc, .RS1
  | eStoreId, .RS1 => some .GPR
  | cModify, .RS2 | storeCap _, .RS2 => some .GPR
  | cGet, .RS1 | cModify, .RS1 | cModifyImm, .RS1 | cClearTag, .RS1 | cMove, .RS1
  | cJalr, .RS1 | cSpecialRW, .RS1 | loadCap _ _, .RS1 | storeCap _, .RS1 | lcCap, .RS1
  | eInitCode, .RS1 => some .CAP
  | cSeal, _ | cUnseal, _ | cInvoke, _ | scCap, _ | eInitData, _ => some .CAP
  | sc, .RS2 | eStoreId, .RS2 => some .CAP
  | _, _ => none

/-- `RD_TYPE`. -/
def rdType : Opcode → Option RegisterType
  | alu | aluImm | lui | auipc | shift | shiftImm | mulDiv | jal | jalr | load _ _ | csrrw | csrrs
  | csrrc | mret | ecall | ebreak | cGet | loadCap _ _ | eStoreId => some .GPR
  | cModify | cModifyImm | cClearTag | cMove | cSeal | cUnseal | cInvoke | cJalr | cSpecialRW
  | lcCap | lc | eInitCode | eInitData => some .CAP
  | branch | store _ | storeCap _ | scCap | sc | illegal => none

/-- The stage that makes the result: where `RD_VALID` is set. -/
def resultStage : Opcode → Option Stage
  | alu | aluImm | lui | auipc | shift | shiftImm | mulDiv | jal | jalr | cGet | cModify
  | cModifyImm | cClearTag | cMove | cSeal | cUnseal | cInvoke | cJalr => some .EX
  | load _ _ | loadCap _ _ | lcCap | lc | eInitCode | eInitData | eStoreId => some .MEM
  | csrrw | csrrs | csrrc | cSpecialRW => some .WB
  | branch | store _ | storeCap _ | scCap | sc | mret | ecall | ebreak | illegal => none

end Opcode

/-- **A decoded instruction.** The three that have a result type and no result
are encoded with register 0. -/
structure Instr where
  opcode : Opcode
  rs1 : RegId
  rs2 : RegId
  rd : RegId
  imm : Word
  rd_zero : opcode = .mret ∨ opcode = .ecall ∨ opcode = .ebreak → rd = 0

namespace Instr

/-- The register of a source. -/
def rs (i : Instr) : Source → RegId
  | .RS1 => i.rs1
  | .RS2 => i.rs2

def rsType (i : Instr) (s : Source) : Option RegisterType := i.opcode.rsType s

def rdType (i : Instr) : Option RegisterType := i.opcode.rdType

/-- A register is written, as far as the decoder can tell. -/
def Writes (i : Instr) (t : RegisterType) (r : RegId) : Prop := i.rdType = some t ∧ i.rd = r

instance (i : Instr) (t : RegisterType) (r : RegId) : Decidable (i.Writes t r) :=
  inferInstanceAs (Decidable (_ ∧ _))

/-- The result is made in a stage. The two that write-back can do without
reading leave it out for register 0. -/
def Produces (i : Instr) (s : Stage) : Prop :=
  i.opcode.resultStage = some s
    ∧ ¬ ((i.opcode = .csrrw ∨ i.opcode = .cSpecialRW) ∧ i.rd = 0)

instance (i : Instr) (s : Stage) : Decidable (i.Produces s) := inferInstanceAs (Decidable (_ ∧ _))

/-- `CSpecialRW` that writes DDC, the special register 1. -/
def WritesDdc (i : Instr) : Prop := i.opcode = .cSpecialRW ∧ i.rs2 = 1 ∧ i.rs1 ≠ 0

instance (i : Instr) : Decidable i.WritesDdc := inferInstanceAs (Decidable (_ ∧ _))

end Instr

/-! ## Registers and signals -/

/-- **The registers before a stage.** -/
structure PipelineRegs where
  instr : Instr
  rsData : Source → (t : RegisterType) → t.Value
  rdValid : Bool
  rdData : (t : RegisterType) → t.Value
  aluResult : Word
  hasTrapped : Bool

/-- `lastWrittenRd`, of one register file. -/
structure LastWrittenRd (t : RegisterType) where
  id : RegId
  valid : Bool
  data : t.Value

/-- **What the other plugins do in a stage**, in a cycle. -/
structure StageSignals where
  isReady : Bool
  rsNeeded : Source → Bool
  /-- What is put on `RD_DATA` and `CD_DATA`. -/
  result : (t : RegisterType) → t.Value
  jumpRequested : Bool
  claimPipeline : Bool
  trap : Bool

/-- **The inputs of a cycle**: the instruction the fetch stage gets, and what
happens in each stage. -/
structure Signals where
  fetched : Instr
  stage : Stage → StageSignals

/-- **The state of the pipeline**: for each stage but the first, whether it has
an instruction and the registers before it; the register files; the special
register DDC. -/
structure StaticPipeline where
  idValid : Bool
  id : Instr
  idTrapped : Bool
  exValid : Bool
  ex : PipelineRegs
  memValid : Bool
  mem : PipelineRegs
  wbValid : Bool
  wb : PipelineRegs
  regs : (t : RegisterType) → RegId → t.Value
  lastWrittenRd : (t : RegisterType) → LastWrittenRd t
  ddc : Capability

/-- **The arbitration of a stage**, and whether the stages before it are made
invalid, by it or by one after it. -/
structure Arbitration where
  isValid : Bool
  isStalled : Bool
  isReady : Bool
  flush : Bool

namespace Arbitration

def isDone (a : Arbitration) : Bool := a.isValid && a.isReady && !a.isStalled

/-- The stage before has to wait. -/
def blocks (a : Arbitration) : Bool := a.isStalled || (a.isValid && !a.isReady)

/-- What write-back has behind it. -/
def nothing : Arbitration := ⟨false, false, true, false⟩

/-- **The arbitration of a stage** from that of the next one. `hazard` says
whether the stage has to wait for a source, if it is valid. -/
def of (validReg : Bool) (sig : StageSignals) (trapped : Bool) (hazard : Bool → Bool)
    (next : Arbitration) : Arbitration :=
  let isValid := validReg && !next.flush
  let isStalled := next.blocks || hazard isValid
  { isValid := isValid
    isStalled := isStalled
    isReady := sig.isReady
    flush := next.flush || (isValid && sig.isReady && !isStalled && sig.jumpRequested)
      || sig.claimPipeline || (isValid && trapped) }

end Arbitration

/-! ## Sources -/

/-- A stage has a source among its inputs: write-back has the first only. -/
def hasInput : Stage → Source → Bool
  | .WB, .RS2 => false
  | _, _ => true

/-- An instruction in a later stage, as a source sees it. -/
def PipelineRegs.entry (q : PipelineRegs) (t : RegisterType) : Bypass.Entry RegId t.Value where
  key := if q.instr.rdType = some t then some q.instr.rd else none
  value := if q.rdValid then some (q.rdData t) else none

/-- The last write, as a source sees it. -/
def LastWrittenRd.entry {t : RegisterType} (w : LastWrittenRd t) : Bypass.Entry RegId t.Value where
  key := if w.valid then some w.id else none
  value := some w.data

namespace StaticPipeline

variable (p : StaticPipeline)

/-- **`resolveRs`**: what the later stages and the last write have for a source.
The later stages are given from the last one on. -/
def resolveRs (later : List PipelineRegs) (s : Stage) (isValid : Bool) (c : PipelineRegs)
    (sig : StageSignals) (rs : Source) (t : RegisterType) : Bypass.Info t.Value :=
  if hasInput s rs ∧ isValid ∧ c.instr.rs rs ≠ 0 ∧ c.instr.rsType rs = some t then
    Bypass.resolve (sig.rsNeeded rs) (c.instr.rs rs)
      ((p.lastWrittenRd t).entry :: later.map (fun q => q.entry t))
  else ⟨none, false⟩

/-- A stage waits for one of its sources. -/
def hazard (later : List PipelineRegs) (s : Stage) (c : PipelineRegs) (sig : StageSignals)
    (isValid : Bool) : Bool :=
  [Source.RS1, .RS2].any fun rs => [RegisterType.GPR, .CAP].any fun t =>
    (p.resolveRs later s isValid c sig rs t).stalled

/-- An instruction traps in this stage, or has trapped before. -/
def trapped (c : PipelineRegs) (sig : StageSignals) : Bool := sig.trap || c.hasTrapped

/-- A later stage is looked at if it is valid and its instruction has not
trapped. -/
def inFlight (a : Arbitration) (c : PipelineRegs) (sig : StageSignals) : List PipelineRegs :=
  if a.isValid && !trapped c sig then [c] else []

/-! ## The stages -/

variable (i : Signals)

def wbArb : Arbitration :=
  .of p.wbValid (i.stage .WB) (trapped p.wb (i.stage .WB)) (p.hazard [] .WB p.wb (i.stage .WB))
    .nothing

/-- The stages after memory access. -/
def laterMem : List PipelineRegs := inFlight (p.wbArb i) p.wb (i.stage .WB)

/-- Memory access also waits for a write of DDC. -/
def memArb : Arbitration :=
  .of p.memValid (i.stage .MEM) (trapped p.mem (i.stage .MEM))
    (fun isValid => p.hazard (p.laterMem i) .MEM p.mem (i.stage .MEM) isValid
      || ((p.wbArb i).isValid && decide p.wb.instr.WritesDdc))
    (p.wbArb i)

/-- The stages after execution, from the last one on. -/
def laterEx : List PipelineRegs :=
  p.laterMem i ++ inFlight (p.memArb i) p.mem (i.stage .MEM)

def exArb : Arbitration :=
  .of p.exValid (i.stage .EX) (trapped p.ex (i.stage .EX))
    (p.hazard (p.laterEx i) .EX p.ex (i.stage .EX)) (p.memArb i)

def idArb : Arbitration :=
  .of p.idValid (i.stage .ID) ((i.stage .ID).trap || p.idTrapped) (fun _ => false) (p.exArb i)

def ifArb : Arbitration :=
  .of true (i.stage .IF) (i.stage .IF).trap (fun _ => false) (p.idArb i)

/-- **A stage that reads sources**, in a cycle. -/
structure View where
  stage : Stage
  regs : PipelineRegs
  sig : StageSignals
  arb : Arbitration
  later : List PipelineRegs

def exView : View := ⟨.EX, p.ex, i.stage .EX, p.exArb i, p.laterEx i⟩

def memView : View := ⟨.MEM, p.mem, i.stage .MEM, p.memArb i, p.laterMem i⟩

def wbView : View := ⟨.WB, p.wb, i.stage .WB, p.wbArb i, []⟩

/-- What is forwarded to a source. -/
def forwarded (v : View) (rs : Source) (t : RegisterType) : Option t.Value :=
  (p.resolveRs v.later v.stage v.arb.isValid v.regs v.sig rs t).value

/-- **The input of a stage for a source**: what is forwarded, else what is in
the registers before it. -/
def input (v : View) (rs : Source) (t : RegisterType) : t.Value :=
  (p.forwarded v rs t).getD (v.regs.rsData rs t)

/-- **What a stage hands on.** The opcodes whose `ALU_RESULT` is read add the
first source and the immediate. -/
def output (v : View) : PipelineRegs where
  instr := v.regs.instr
  rsData := p.input v
  rdValid := v.regs.rdValid || decide (v.regs.instr.Produces v.stage)
  rdData := fun t => if v.regs.instr.Produces v.stage then v.sig.result t else v.regs.rdData t
  aluResult := if v.stage = .EX then
      BitVec.add (p.input v .RS1 .GPR) v.regs.instr.imm else v.regs.aluResult
  hasTrapped := trapped v.regs v.sig

/-- **The registers before a stage, after the cycle**: what the stage before
hands on, or what they were. What was forwarded to a stage that does not go on
is kept. -/
def shift (v : View) (prev : Arbitration) (prevOut : PipelineRegs) : PipelineRegs :=
  let regs := if prev.isDone then prevOut else v.regs
  if v.arb.isStalled || !v.arb.isReady then
    { regs with rsData := fun rs t => (p.forwarded v rs t).getD (regs.rsData rs t) }
  else regs

/-- `isValidReg` of a stage after the cycle. -/
def validReg (a prev : Arbitration) (old : Bool) : Bool :=
  if a.isDone || !a.isValid then prev.isDone else old

/-! ## The register files -/

/-- The instruction in write-back is done, and has not trapped. -/
def retires : Bool := (p.wbArb i).isDone && !trapped p.wb (i.stage .WB)

/-- The register files after the cycle. `RD_VALID` is not looked at. -/
def writtenRegs (t : RegisterType) (r : RegId) : t.Value :=
  if p.retires i ∧ p.wb.instr.Writes t r ∧ r ≠ 0 then (p.output (p.wbView i)).rdData t
  else p.regs t r

/-- A register as the decode stage reads it, from a file that reads what is
being written or from one that does not. -/
def readReg (writeFirst : Bool) (t : RegisterType) (r : RegId) : t.Value :=
  if t = .GPR ∧ r = 0 then t.null
  else if writeFirst then p.writtenRegs i t r
  else p.regs t r

/-- What the decode stage hands on. -/
def idOutput (writeFirst : Bool) : PipelineRegs where
  instr := p.id
  rsData := fun rs t => p.readReg i writeFirst t (p.id.rs rs)
  rdValid := false
  rdData := (i.stage .ID).result
  aluResult := 0
  hasTrapped := (i.stage .ID).trap || p.idTrapped

/-- `lastWrittenRd` after the cycle. -/
def lastWritten (t : RegisterType) : LastWrittenRd t :=
  let out := p.output (p.wbView i)
  if p.retires i then
    ⟨out.instr.rd, out.rdValid && decide (out.instr.rdType = some t), out.rdData t⟩
  else p.lastWrittenRd t

/-- **One cycle of the pipeline.** -/
def next (writeFirst : Bool) : StaticPipeline where
  idValid := validReg (p.idArb i) (p.ifArb i) p.idValid
  id := if (p.ifArb i).isDone then i.fetched else p.id
  idTrapped := if (p.ifArb i).isDone then (i.stage .IF).trap else p.idTrapped
  exValid := validReg (p.exArb i) (p.idArb i) p.exValid
  ex := p.shift (p.exView i) (p.idArb i) (p.idOutput i writeFirst)
  memValid := validReg (p.memArb i) (p.exArb i) p.memValid
  mem := p.shift (p.memView i) (p.exArb i) (p.output (p.exView i))
  wbValid := validReg (p.wbArb i) (p.memArb i) p.wbValid
  wb := p.shift (p.wbView i) (p.memArb i) (p.output (p.memView i))
  regs := p.writtenRegs i
  lastWrittenRd := p.lastWritten i
  -- `CSpecialRW` writes while it is in write-back
  ddc :=
    if (p.wbArb i).isValid ∧ p.wb.instr.WritesDdc then p.input (p.wbView i) .RS1 .CAP else p.ddc

/-- **The pipeline**, seen by what it retires. -/
def machine (writeFirst : Bool) : SyncMachine StaticPipeline Signals (Option PipelineRegs) where
  step := fun p i =>
    (p.next i writeFirst, if p.retires i then some (p.output (p.wbView i)) else none)

end StaticPipeline

end Proteus
