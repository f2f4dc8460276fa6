import CheriTree.Proteus.Forwarding
import CheriTree.Proteus.MemBus

/-!
# The load and store unit

Two plugins share the memory stage: `Lsu`, which does the accesses of data, and
the `Lsu` for capabilities, which gives it an address, checks the accesses of
both and does those of capabilities. What they make of an instruction and of its
operands comes first: the address, the checks, the data and the mask. Then what
they tell the pipeline in a cycle, `StaticPipeline.signals`: what they need,
whether they are ready and whether the instruction traps; and what they put on
the buses, `StaticPipeline.memStore`.

The data bus is driven for a store of data whenever the stage is valid and the
address is aligned. Neither a check that fails, nor a trap of an earlier stage,
nor a source that is waited for keeps it from being driven; a store of a
capability does wait, and needs its check to pass.
-/

namespace Proteus

/-! ## Instructions -/

namespace Opcode

/-- `USE_CAP_ADDR`: the access goes through `cs1`. -/
def useCapAddr : Opcode → Bool
  | loadCap _ _ | storeCap _ | lcCap | scCap => true
  | _ => false

/-- `LSU_IS_EXTERNAL_OP`. -/
def isExternalOp : Opcode → Bool
  | loadCap _ _ | storeCap _ => true
  | _ => false

/-- `LSU_OPERATION_TYPE`. -/
def lsuOperation : Opcode → LsuOperationType
  | load _ _ | loadCap _ _ => .load
  | store _ | storeCap _ => .store
  | _ => .none

/-- `LSU_ACCESS_WIDTH`. It has no default, and is used for accesses of data
only. -/
def lsuAccessWidth : Opcode → LsuAccessWidth
  | load w _ | loadCap w _ | store w | storeCap w => w
  | _ => .B

/-- `STORE_CAP`. -/
def isStoreCap : Opcode → Bool
  | sc | scCap => true
  | _ => false

/-- `LOAD_CAP`. -/
def isLoadCap : Opcode → Bool
  | lc | lcCap => true
  | _ => false

/-- The instructions of `EnclaveInit` that write memory. -/
def isEnclaveStore : Opcode → Bool
  | eInitData | eStoreId => true
  | _ => false

/-- The instructions that write memory. -/
def IsStore (op : Opcode) : Prop :=
  op.lsuOperation = .store ∨ op.isStoreCap = true ∨ op.isEnclaveStore = true

/-- The instructions that write-back can find to be illegal: `CsrFile` and
`ScrFile`. -/
def trapsInWb : Opcode → Bool
  | csrrw | csrrs | csrrc | cSpecialRW => true
  | _ => false

theorem IsStore.trapsInWb {op : Opcode} (h : op.IsStore) : op.trapsInWb = false := by
  unfold IsStore at h
  cases op <;> simp_all [Opcode.trapsInWb, lsuOperation, isStoreCap, isEnclaveStore]

end Opcode

/-! ## Addresses and checks -/

/-- **What an address is made of**, as the memory stage reads it. -/
structure AddressOperands where
  rs1 : Word
  cs1 : Capability
  ddc : Capability
deriving DecidableEq

/-- A command for a bus that writes memory. -/
inductive StoreCmd where
  /-- On the data bus. -/
  | data (cmd : MemBusCmd)
  /-- On the bus for capabilities. -/
  | cap (address : Word) (cap : Capability)
deriving DecidableEq

namespace Lsu

variable (q : PipelineRegs) (o : AddressOperands)

/-- The capability an access is checked against. -/
def authority : Capability := if q.instr.opcode.useCapAddr then o.cs1 else o.ddc

/-- The address of an access of data. -/
def dataAddress : Word :=
  let inputAddress := if q.instr.opcode.isExternalOp then o.cs1.address else q.aluResult
  if q.instr.opcode.useCapAddr then inputAddress else translate o.ddc inputAddress

/-- The address of an access of a capability. -/
def capAddress : Word :=
  if q.instr.opcode.useCapAddr then o.cs1.address else o.ddc.address + o.rs1 + q.instr.imm

def misaligned : Bool :=
  match q.instr.opcode.lsuAccessWidth with
  | .B => false
  | .H => decide (dataAddress q o &&& 1#32 ≠ 0#32)
  | .W => decide (dataAddress q o &&& 3#32 ≠ 0#32)

/-- The check of an access of data. -/
def dataCause : Option ExceptionCause :=
  CapCheck.check (authority q o) (dataAddress q o) q.instr.opcode.lsuOperation
    q.instr.opcode.lsuAccessWidth.byteWidth

/-- The check of an access of a capability. -/
def capCause : Option ExceptionCause :=
  CapCheck.check (authority q o) (capAddress q o)
    (if q.instr.opcode.isStoreCap then .store else .load) capByteWidth

/-- An access of data is not aligned. -/
def alignmentTrap : Bool := decide (q.instr.opcode.lsuOperation ≠ .none) && misaligned q o

/-- A check fails. -/
def checkTrap : Bool :=
  (dataCause q o).isSome
    || ((q.instr.opcode.isStoreCap || q.instr.opcode.isLoadCap) && (capCause q o).isSome)

/-- The first bytes of a word, for a width. -/
def baseMask : LsuAccessWidth → BitVec 4
  | .B => 0b0001#4
  | .H => 0b0011#4
  | .W => 0b1111#4

/-- The data of a store, where its bytes belong in the word. -/
def alignedData (width : LsuAccessWidth) (address value : Word) : Word :=
  match width with
  | .W => value
  | .H =>
    let h : Word := (value.extractLsb' 0 16).setWidth 32
    if address.getLsbD 1 then h <<< 16 else h
  | .B =>
    let b : Word := (value.extractLsb' 0 8).setWidth 32
    b <<< (8 * (address.extractLsb' 0 2).toNat)

/-- **The command of a store of data.** -/
def dataCmd (value : Word) : MemBusCmd where
  address := dataAddress q o &&& 0xfffffffc#32
  write := true
  wdata := alignedData q.instr.opcode.lsuAccessWidth (dataAddress q o) value
  wmask := baseMask q.instr.opcode.lsuAccessWidth <<< ((dataAddress q o).extractLsb' 0 2).toNat

/-- **The data bus is driven** for an operation, in a stage that is valid: for
each access that is aligned. -/
def drivesData (operation : LsuOperationType) : Bool :=
  decide (q.instr.opcode.lsuOperation = operation) && !misaligned q o

/-- Two addresses are made of the same, as far as an opcode looks. -/
def SameAddress (op : Opcode) (o o' : AddressOperands) : Prop :=
  if op.useCapAddr then o'.cs1 = o.cs1
  else o'.ddc = o.ddc ∧ (op.isStoreCap = true → o'.rs1 = o.rs1)

variable {q o} {q' : PipelineRegs} {o' : AddressOperands}

theorem isExternalOp_useCapAddr {op : Opcode} (h : op.isExternalOp = true) :
    op.useCapAddr = true := by
  cases op <;> first | rfl | cases h

/-- What the enclave unit does is no access of these units. -/
theorem traps_of_isEnclaveStore (h : q.instr.opcode.isEnclaveStore = true) (o : AddressOperands) :
    alignmentTrap q o = false ∧ checkTrap q o = false := by
  unfold alignmentTrap checkTrap dataCause CapCheck.check
  cases hop : q.instr.opcode <;> rw [hop] at h <;> first | exact ⟨rfl, rfl⟩ | cases h

/-- **A store traps by what its address is made of**, and by nothing else. -/
theorem traps_eq (hstore : q.instr.opcode.IsStore) (hinstr : q'.instr = q.instr)
    (halu : q'.aluResult = q.aluResult)
    (hsame : q.instr.opcode.isEnclaveStore = false → SameAddress q.instr.opcode o o') :
    alignmentTrap q' o' = alignmentTrap q o ∧ checkTrap q' o' = checkTrap q o := by
  cases hunit : q.instr.opcode.isEnclaveStore with
  | true =>
    obtain ⟨ha, hc⟩ := traps_of_isEnclaveStore hunit o
    obtain ⟨ha', hc'⟩ := traps_of_isEnclaveStore (q := q') (hinstr ▸ hunit) o'
    exact ⟨ha'.trans ha.symm, hc'.trans hc.symm⟩
  | false =>
    have hsame := hsame hunit
    unfold SameAddress at hsame
    have hdata : authority q' o' = authority q o ∧ dataAddress q' o' = dataAddress q o := by
      unfold authority dataAddress
      rw [hinstr, halu]
      split at hsame
      · rename_i hcap
        rw [if_pos hcap, if_pos hcap, if_pos hcap, if_pos hcap, hsame]
        exact ⟨rfl, rfl⟩
      · rename_i hcap
        have hext : ¬ q.instr.opcode.isExternalOp = true :=
          fun h => hcap (isExternalOp_useCapAddr h)
        rw [if_neg hcap, if_neg hcap, if_neg hcap, if_neg hcap, if_neg hext, if_neg hext, hsame.1]
        exact ⟨rfl, rfl⟩
    have hcapAddr : q.instr.opcode.isStoreCap = true → capAddress q' o' = capAddress q o := by
      intro hsc
      unfold capAddress
      rw [hinstr]
      split at hsame
      · rename_i hcap
        rw [if_pos hcap, if_pos hcap, hsame]
      · rename_i hcap
        rw [if_neg hcap, if_neg hcap, hsame.1, hsame.2 hsc]
    have hload : q.instr.opcode.isLoadCap = false := by
      unfold Opcode.IsStore at hstore
      cases hop : q.instr.opcode <;> rw [hop] at hstore <;>
        simp_all [Opcode.isLoadCap, Opcode.lsuOperation, Opcode.isStoreCap, Opcode.isEnclaveStore]
    unfold alignmentTrap checkTrap misaligned dataCause capCause
    rw [hinstr, hdata.1, hdata.2, hload, Bool.or_false]
    refine ⟨rfl, ?_⟩
    cases hsc : q.instr.opcode.isStoreCap with
    | false => rfl
    | true => rw [hcapAddr hsc]

end Lsu

/-! ## The memory stage -/

/-- **The inputs of a cycle of the core**: what happens in the stages, of which
the memory stage's and the trap of write-back are made here; whether an interrupt
is pending and whether write-back finds its instruction to be illegal; what the
buses answer; and what `EnclaveInit` does in the memory stage. -/
structure CoreInputs where
  signals : Signals
  interrupt : Bool
  illegal : Bool
  /-- The data bus takes a write. -/
  accepted : Bool
  /-- The data bus answers a read. -/
  answered : Bool
  /-- The bus for capabilities takes a command. -/
  cmdReady : Bool
  /-- The bus for capabilities answers. -/
  rspValid : Bool
  unitNeeded : Source → Bool
  /-- What `EnclaveInit` makes of the readiness of the stage. -/
  unitReady : Option Bool
  unitStore : Option StoreCmd

namespace StaticPipeline

variable (p : StaticPipeline) (e : CoreInputs)

/-- Write-back finds its instruction to be illegal. -/
def wbException : Bool := p.wbValid && p.wb.instr.opcode.trapsInWb && e.illegal

/-- The signals of a cycle in which the memory stage has given ones. -/
def withMem (mem : StageSignals) : Signals where
  fetched := e.signals.fetched
  stage := fun s =>
    match s with
    | .MEM => mem
    | .WB => { e.signals.stage .WB with trap := e.interrupt || p.wbException e }
    | s => e.signals.stage s

/-- The signals of a cycle in which the memory stage needs given sources, and
nothing more is known of it. -/
def probe (needed : Source → Bool) : Signals :=
  p.withMem e { e.signals.stage .MEM with
    isReady := true, rsNeeded := needed, jumpRequested := false, trap := false }

/-- The memory stage has an instruction that is not flushed. -/
def memIsValid : Bool := (p.memArb (p.probe e e.unitNeeded)).isValid

/-- The sources that an address needs. -/
def addressNeeded : Source → Bool
  | .RS1 => (p.memIsValid e && (p.mem.instr.opcode.useCapAddr || p.mem.instr.opcode.isStoreCap
      || p.mem.instr.opcode.isLoadCap)) || e.unitNeeded .RS1
  | .RS2 => e.unitNeeded .RS2

/-- What the memory stage reads for an address. -/
def addressOperands : AddressOperands where
  rs1 := p.input (p.memView (p.probe e (p.addressNeeded e))) .RS1 .GPR
  cs1 := p.input (p.memView (p.probe e (p.addressNeeded e))) .RS1 .CAP
  ddc := p.ddc

/-- **The sources that the memory stage needs.** -/
def needed : Source → Bool
  | .RS1 => p.addressNeeded e .RS1
  | .RS2 => (p.memIsValid e && (p.mem.instr.opcode.isStoreCap
      || Lsu.drivesData p.mem (p.addressOperands e) .store)) || e.unitNeeded .RS2

/-- The memory stage has an instruction and does not wait. -/
def memIsRunning : Bool :=
  p.memIsValid e && !(p.memArb (p.probe e (p.needed e))).isStalled

/-- **The instruction in the memory stage traps.** That it is not aligned is told
in any case, what the checks say only once nothing is waited for. -/
def memTrap : Bool :=
  Lsu.alignmentTrap p.mem (p.addressOperands e)
    || (p.memIsRunning e && Lsu.checkTrap p.mem (p.addressOperands e))

/-- A capability is moved in this cycle: its check passes. -/
def movesCap (move : Bool) : Bool :=
  p.memIsRunning e && move && (Lsu.capCause p.mem (p.addressOperands e)).isNone

/-- Whether the memory stage is ready. -/
def memReady : Bool :=
  let o := p.addressOperands e
  e.unitReady.getD
    (if p.memIsValid e && Lsu.drivesData p.mem o .load then e.answered
      else if p.memIsValid e && Lsu.drivesData p.mem o .store then e.accepted
      else if p.movesCap e p.mem.instr.opcode.isStoreCap then e.cmdReady
      else if p.movesCap e p.mem.instr.opcode.isLoadCap then e.rspValid
      else true)

/-- **The signals of a cycle.** -/
def signals : Signals :=
  p.withMem e { e.signals.stage .MEM with
    isReady := p.memReady e, rsNeeded := p.needed e, jumpRequested := false
    trap := p.memTrap e }

/-- **What the instruction in the memory stage puts on a bus to write memory.** -/
def memStore : Option StoreCmd :=
  let o := p.addressOperands e
  let v := p.memView (p.probe e (p.needed e))
  if p.memIsValid e then
    if Lsu.drivesData p.mem o .store then some (.data (Lsu.dataCmd p.mem o (p.input v .RS2 .GPR)))
    else if p.movesCap e p.mem.instr.opcode.isStoreCap then
      some (.cap (Lsu.capAddress p.mem o) (p.input v .RS2 .CAP))
    else if p.mem.instr.opcode.isEnclaveStore then e.unitStore
    else none
  else none

end StaticPipeline

end Proteus
