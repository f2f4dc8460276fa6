import CheriTree.Sail.MemoryInstructions

/-!
# The instructions of the base architecture, and programs

The integer instructions, the branches and jumps inside the program counter
capability, the calls of an environment, and the returns from a trap. An
integer instruction leaves the null capability at its result; a branch is
checked against the bounds of the program counter capability where it is
taken; a return unseals a sentry.

With them a program is a list of instructions (`run`). The instructions on
control registers are left out, and so are the multiplication, the atomics and
the floating point.
-/

namespace Sail

variable {f : CapFormat}

/-! ## Integers -/

/-- `uop`. -/
inductive Uop where
  | RISCV_LUI
  | RISCV_AUIPC
deriving DecidableEq, Repr

/-- `iop`. -/
inductive Iop where
  | RISCV_ADDI
  | RISCV_SLTI
  | RISCV_SLTIU
  | RISCV_ANDI
  | RISCV_ORI
  | RISCV_XORI
deriving DecidableEq, Repr

/-- `sop`. -/
inductive Sop where
  | RISCV_SLLI
  | RISCV_SRLI
  | RISCV_SRAI
deriving DecidableEq, Repr

/-- `rop`. -/
inductive Rop where
  | RISCV_ADD
  | RISCV_SLT
  | RISCV_SLTU
  | RISCV_AND
  | RISCV_OR
  | RISCV_XOR
  | RISCV_SLL
  | RISCV_SRL
  | RISCV_SUB
  | RISCV_SRA
deriving DecidableEq, Repr

/-- `sopw`. -/
inductive Sopw where
  | RISCV_SLLIW
  | RISCV_SRLIW
  | RISCV_SRAIW
deriving DecidableEq, Repr

/-- `ropw`. -/
inductive Ropw where
  | RISCV_ADDW
  | RISCV_SUBW
  | RISCV_SLLW
  | RISCV_SRLW
  | RISCV_SRAW
deriving DecidableEq, Repr

/-- The address of the program counter inside its capability
(`get_arch_pc`). -/
def State.archPc (s : State f) : BitVec f.xlen := s.PC - (s.scr .PCC).getCapBaseBits

/-- `get_next_pc`. -/
def State.getNextPc (s : State f) : BitVec f.xlen := s.nextPC - (s.scr .PCC).getCapBaseBits

def executeUTYPE (imm : BitVec 20) (rd : RegIdx) (op : Uop) : M f Retired := do
  let s ← get
  let off : BitVec f.xlen := (imm ++ 0x000#12).signExtend f.xlen
  writeInt rd (match op with
    | .RISCV_LUI => off
    | .RISCV_AUIPC => s.archPc + off)

/-- A truth value as a number. -/
def bit {w : ℕ} (b : Bool) : BitVec w := (BitVec.ofBool b).setWidth w

def executeITYPE (imm : BitVec 12) (rs1 rd : RegIdx) (op : Iop) : M f Retired := do
  let s ← get
  let rs1Val := s.rX rs1
  let immext := imm.signExtend f.xlen
  writeInt rd (match op with
    | .RISCV_ADDI => rs1Val + immext
    | .RISCV_SLTI => bit (rs1Val.slt immext)
    | .RISCV_SLTIU => bit (rs1Val.ult immext)
    | .RISCV_ANDI => rs1Val &&& immext
    | .RISCV_ORI => rs1Val ||| immext
    | .RISCV_XORI => rs1Val ^^^ immext)

/-- How far a shift goes: by five bits of the amount on a 32-bit machine, and by
six on a 64-bit one. -/
def shiftAmount (f : CapFormat) {w : ℕ} (amount : BitVec w) : ℕ :=
  if f.xlen = 32 then (amount.extractLsb' 0 5).toNat else (amount.extractLsb' 0 6).toNat

def executeSHIFTIOP (shamt : BitVec 6) (rs1 rd : RegIdx) (op : Sop) : M f Retired := do
  let s ← get
  let rs1Val := s.rX rs1
  writeInt rd (match op with
    | .RISCV_SLLI => rs1Val <<< shiftAmount f shamt
    | .RISCV_SRLI => rs1Val >>> shiftAmount f shamt
    | .RISCV_SRAI => rs1Val.sshiftRight (shiftAmount f shamt))

def executeRTYPE (rs2 rs1 rd : RegIdx) (op : Rop) : M f Retired := do
  let s ← get
  let rs1Val := s.rX rs1
  let rs2Val := s.rX rs2
  writeInt rd (match op with
    | .RISCV_ADD => rs1Val + rs2Val
    | .RISCV_SLT => bit (rs1Val.slt rs2Val)
    | .RISCV_SLTU => bit (rs1Val.ult rs2Val)
    | .RISCV_AND => rs1Val &&& rs2Val
    | .RISCV_OR => rs1Val ||| rs2Val
    | .RISCV_XOR => rs1Val ^^^ rs2Val
    | .RISCV_SLL => rs1Val <<< shiftAmount f rs2Val
    | .RISCV_SRL => rs1Val >>> shiftAmount f rs2Val
    | .RISCV_SUB => rs1Val - rs2Val
    | .RISCV_SRA => rs1Val.sshiftRight (shiftAmount f rs2Val))

def executeADDIW (imm : BitVec 12) (rs1 rd : RegIdx) : M f Retired := do
  let s ← get
  let result := imm.signExtend f.xlen + s.rX rs1
  writeInt rd ((result.extractLsb' 0 32).signExtend f.xlen)

def executeRTYPEW (rs2 rs1 rd : RegIdx) (op : Ropw) : M f Retired := do
  let s ← get
  let rs1Val := (s.rX rs1).extractLsb' 0 32
  let rs2Val := (s.rX rs2).extractLsb' 0 32
  let amount := (rs2Val.extractLsb' 0 5).toNat
  let result : BitVec 32 := match op with
    | .RISCV_ADDW => rs1Val + rs2Val
    | .RISCV_SUBW => rs1Val - rs2Val
    | .RISCV_SLLW => rs1Val <<< amount
    | .RISCV_SRLW => rs1Val >>> amount
    | .RISCV_SRAW => rs1Val.sshiftRight amount
  writeInt rd (result.signExtend f.xlen)

def executeSHIFTIWOP (shamt : BitVec 5) (rs1 rd : RegIdx) (op : Sopw) : M f Retired := do
  let s ← get
  let rs1Val := (s.rX rs1).extractLsb' 0 32
  let result : BitVec 32 := match op with
    | .RISCV_SLLIW => rs1Val <<< shamt.toNat
    | .RISCV_SRLIW => rs1Val >>> shamt.toNat
    | .RISCV_SRAIW => rs1Val.sshiftRight shamt.toNat
  writeInt rd (result.signExtend f.xlen)

/-! ## Control flow -/

/-- `PCC_IDX`. -/
def pccIdx : BitVec 6 := 0b100000

/-- `bop`. -/
inductive Bop where
  | RISCV_BEQ
  | RISCV_BNE
  | RISCV_BLT
  | RISCV_BGE
  | RISCV_BLTU
  | RISCV_BGEU
deriving DecidableEq, Repr

/-- Whether a branch is taken. -/
def Bop.taken {w : ℕ} (op : Bop) (a b : BitVec w) : Bool :=
  match op with
  | RISCV_BEQ => a = b
  | RISCV_BNE => a ≠ b
  | RISCV_BLT => a.slt b
  | RISCV_BGE => !a.slt b
  | RISCV_BLTU => a.ult b
  | RISCV_BGEU => !a.ult b

/-- The checks of a target inside the program counter capability
(`ext_control_check_pc` and the alignment), and what is done where they
pass. -/
def checkedTarget (core : Core f) (target : BitVec f.xlen) (jump : M f Retired) :
    M f Retired := do
  let s ← get
  if !(s.scr .PCC).inCapBounds target core.minInstructionBytes then
    failOn (.common .LengthViolation) pccIdx
  else if target.getLsbD 1 && !core.rvc then failAt .E_Fetch_Addr_Align target
  else jump

/-- A jump that leaves the address of the next instruction in a register. -/
def linkAndJump (rd : RegIdx) (target : BitVec f.xlen) : M f Retired := do
  modify fun s => { s.wX rd s.getNextPc with nextPC := target }
  pure .RETIRE_SUCCESS

def executeJAL (core : Core f) (imm : BitVec 21) (rd : RegIdx) : M f Retired := do
  let s ← get
  let target := s.PC + imm.signExtend f.xlen
  checkedTarget core target (linkAndJump rd target)

/-- `RISCV_JALR`: the target is an address inside the program counter
capability (`ext_control_check_addr`). -/
def executeJALR (core : Core f) (imm : BitVec 12) (rs1 rd : RegIdx) : M f Retired := do
  let s ← get
  let target := clearBit0 ((s.scr .PCC).getCapBaseBits + (s.rX rs1 + imm.signExtend f.xlen))
  checkedTarget core target (linkAndJump rd target)

def executeBTYPE (core : Core f) (imm : BitVec 13) (rs2 rs1 : RegIdx) (op : Bop) :
    M f Retired := do
  let s ← get
  let target := s.PC + imm.signExtend f.xlen
  if op.taken (s.rX rs1) (s.rX rs2) then
    checkedTarget core target do
      modify fun s => { s with nextPC := target }
      pure .RETIRE_SUCCESS
  else pure .RETIRE_SUCCESS

/-! ## Environment -/

def executeECALL : M f Retired := do
  let s ← get
  match s.curPrivilege with
  | .User => failAt .E_U_EnvCall 0
  | .Supervisor => failAt .E_S_EnvCall 0
  | .Machine => failAt .E_M_EnvCall 0

def executeEBREAK : M f Retired := failAt .E_Breakpoint 0

/-- The fences, which the memory of one hart does not notice. -/
def executeFENCE : M f Retired := pure .RETIRE_SUCCESS

/-- **The target of a return** (`prepare_xret_target`): a sentry is unsealed. -/
def prepareXretTarget (core : Core f) (p : Privilege) : M f (BitVec f.xlen) := do
  let s ← get
  let epcc := legalizeEpcc core (s.scr p.epcc)
  let epcc := if epcc.otype = f.otypeSentry then epcc.unsealCap else epcc
  modify fun s => s.setScr .nextPCC epcc
  pure epcc.address

/-- `pc_alignment_mask`. -/
def Core.pcAlignmentMask (core : Core f) : BitVec f.xlen :=
  ~~~(if core.rvc then 0b00 else 0b10)

/-- The end of a return: the address it goes to. -/
def returnTo (core : Core f) (p : Privilege) : M f Retired := do
  let target ← prepareXretTarget core p
  modify fun s => { s with nextPC := target &&& core.pcAlignmentMask }
  pure .RETIRE_FAIL

/-- A return without access to the system registers
(`ext_fail_xret_priv`). -/
def failXret : M f Retired := failOn .AccessSystemRegsViolation pccIdx

/-- The privilege of `mstatus` with `MPRV` cleared where it is not machine
mode. -/
def clearMprv (m : Mstatus) (p : Privilege) : Mstatus :=
  if p ≠ .Machine then { m with MPRV := false } else m

/-- **`MRET`.** -/
def executeMRET (core : Core f) : M f Retired := do
  let s ← get
  if s.curPrivilege ≠ .Machine then failAt .E_Illegal_Instr (core.illegalReturn .Machine)
  else if !(s.scr .PCC).accessSystemRegs then failXret
  else do
    let priv ← Prog.lift (privLevelOfBits s.mstatus.MPP)
    let m := { s.mstatus with
      MIE := s.mstatus.MPIE
      MPIE := true
      MPP := (if s.misa.U then Privilege.User else .Machine).toBits }
    set { s with
      curPrivilege := priv
      mstatus := clearMprv m priv }
    returnTo core .Machine

/-- **`SRET`.** -/
def executeSRET (core : Core f) : M f Retired := do
  let s ← get
  let sretIllegal := match s.curPrivilege with
    | .User => true
    | .Supervisor => !s.misa.S || core.tsr
    | .Machine => !s.misa.S
  if sretIllegal then failAt .E_Illegal_Instr (core.illegalReturn .Supervisor)
  else if !(s.scr .PCC).accessSystemRegs then failXret
  else do
    let priv : Privilege := if s.mstatus.SPP then .Supervisor else .User
    let m := { s.mstatus with
      SIE := s.mstatus.SPIE
      SPIE := true
      SPP := false }
    set { s with
      curPrivilege := priv
      mstatus := clearMprv m priv }
    returnTo core .Supervisor

/-- **`URET`.** It takes user mode, but not user traps. -/
def executeURET (core : Core f) : M f Retired := do
  let s ← get
  if !s.misa.U then failAt .E_Illegal_Instr (core.illegalReturn .User)
  else if !(s.scr .PCC).accessSystemRegs then failXret
  else do
    set { s with
      curPrivilege := .User
      mstatus := { s.mstatus with
        UIE := s.mstatus.UPIE
        UPIE := true } }
    returnTo core .User

/-! ## Programs -/

/-- **The instructions.** -/
inductive Instr where
  | CGetPerm (rd cs1 : RegIdx)
  | CGetFlags (rd cs1 : RegIdx)
  | CGetType (rd cs1 : RegIdx)
  | CGetBase (rd cs1 : RegIdx)
  | CGetOffset (rd cs1 : RegIdx)
  | CGetLen (rd cs1 : RegIdx)
  | CGetTag (rd cs1 : RegIdx)
  | CGetSealed (rd cs1 : RegIdx)
  | CGetAddr (rd cs1 : RegIdx)
  | CToPtr (rd cs1 cs2 : RegIdx)
  | CSub (rd cs1 cs2 : RegIdx)
  | CRRL (rd rs1 : RegIdx)
  | CRAM (rd rs1 : RegIdx)
  | CTestSubset (rd cs1 cs2 : RegIdx)
  | CSEQX (rd cs1 cs2 : RegIdx)
  | CAndPerm (cd cs1 rs2 : RegIdx)
  | CSetFlags (cd cs1 rs2 : RegIdx)
  | CIncOffset (cd cs1 rs2 : RegIdx)
  | CIncOffsetImmediate (cd cs1 : RegIdx) (imm : BitVec 12)
  | CSetOffset (cd cs1 rs2 : RegIdx)
  | CSetAddr (cd cs1 rs2 : RegIdx)
  | CSetBounds (cd cs1 rs2 : RegIdx)
  | CSetBoundsImmediate (cd cs1 : RegIdx) (uimm : BitVec 12)
  | CSetBoundsExact (cd cs1 rs2 : RegIdx)
  | CClearTag (cd cs1 : RegIdx)
  | CMove (cd cs1 : RegIdx)
  | CClear (q : BitVec 2) (m : BitVec 8)
  | CFromPtr (cd cs1 rs2 : RegIdx)
  | CBuildCap (cd cs1 cs2 : RegIdx)
  | CCopyType (cd cs1 cs2 : RegIdx)
  | AUIPCC (imm : BitVec 20) (cd : RegIdx)
  | CSeal (cd cs1 cs2 : RegIdx)
  | CCSeal (cd cs1 cs2 : RegIdx)
  | CUnseal (cd cs1 cs2 : RegIdx)
  | CSealEntry (cd cs1 : RegIdx)
  | CSpecialRW (cd : RegIdx) (scr : BitVec 5) (cs1 : RegIdx)
  | CInvoke (cs1 cs2 : RegIdx)
  | CJALR (cd cs1 : RegIdx)
  | LoadDataDDC (rd rs1 : RegIdx) (isUnsigned : Bool) (width : WordWidth)
  | LoadDataCap (rd cs1 : RegIdx) (isUnsigned : Bool) (width : WordWidth)
  | LoadCapDDC (cd rs1 : RegIdx)
  | LoadCapCap (cd cs1 : RegIdx)
  | LoadCapImm (cd rs1 : RegIdx) (imm : BitVec 12)
  | CLoadTags (rd cs1 : RegIdx)
  | StoreDataDDC (rs2 rs1 : RegIdx) (width : WordWidth)
  | StoreDataCap (rs2 cs1 : RegIdx) (width : WordWidth)
  | StoreCapDDC (cs2 rs1 : RegIdx)
  | StoreCapCap (cs2 cs1 : RegIdx)
  | StoreCapImm (cs2 rs1 : RegIdx) (imm : BitVec 12)
  | LOAD (imm : BitVec 12) (rs1 rd : RegIdx) (isUnsigned : Bool) (width : WordWidth)
  | STORE (imm : BitVec 12) (rs2 rs1 : RegIdx) (width : WordWidth)
  | UTYPE (imm : BitVec 20) (rd : RegIdx) (op : Uop)
  | ITYPE (imm : BitVec 12) (rs1 rd : RegIdx) (op : Iop)
  | SHIFTIOP (shamt : BitVec 6) (rs1 rd : RegIdx) (op : Sop)
  | RTYPE (rs2 rs1 rd : RegIdx) (op : Rop)
  | ADDIW (imm : BitVec 12) (rs1 rd : RegIdx)
  | RTYPEW (rs2 rs1 rd : RegIdx) (op : Ropw)
  | SHIFTIWOP (shamt : BitVec 5) (rs1 rd : RegIdx) (op : Sopw)
  | JAL (imm : BitVec 21) (rd : RegIdx)
  | JALR (imm : BitVec 12) (rs1 rd : RegIdx)
  | BTYPE (imm : BitVec 13) (rs2 rs1 : RegIdx) (op : Bop)
  | ECALL
  | EBREAK
  | FENCE
  | MRET
  | SRET
  | URET
deriving DecidableEq, Repr

/-- `execute`. -/
def Instr.execute (core : Core f) : Instr → M f Retired
  | CGetPerm rd cs1 => executeCGetPerm rd cs1
  | CGetFlags rd cs1 => executeCGetFlags rd cs1
  | CGetType rd cs1 => executeCGetType rd cs1
  | CGetBase rd cs1 => executeCGetBase rd cs1
  | CGetOffset rd cs1 => executeCGetOffset rd cs1
  | CGetLen rd cs1 => executeCGetLen rd cs1
  | CGetTag rd cs1 => executeCGetTag rd cs1
  | CGetSealed rd cs1 => executeCGetSealed rd cs1
  | CGetAddr rd cs1 => executeCGetAddr rd cs1
  | CToPtr rd cs1 cs2 => executeCToPtr rd cs1 cs2
  | CSub rd cs1 cs2 => executeCSub rd cs1 cs2
  | CRRL rd rs1 => executeCRRL rd rs1
  | CRAM rd rs1 => executeCRAM rd rs1
  | CTestSubset rd cs1 cs2 => executeCTestSubset rd cs1 cs2
  | CSEQX rd cs1 cs2 => executeCSEQX rd cs1 cs2
  | CAndPerm cd cs1 rs2 => executeCAndPerm cd cs1 rs2
  | CSetFlags cd cs1 rs2 => executeCSetFlags cd cs1 rs2
  | CIncOffset cd cs1 rs2 => executeCIncOffset cd cs1 rs2
  | CIncOffsetImmediate cd cs1 imm => executeCIncOffsetImmediate cd cs1 imm
  | CSetOffset cd cs1 rs2 => executeCSetOffset cd cs1 rs2
  | CSetAddr cd cs1 rs2 => executeCSetAddr cd cs1 rs2
  | CSetBounds cd cs1 rs2 => executeCSetBounds cd cs1 rs2
  | CSetBoundsImmediate cd cs1 uimm => executeCSetBoundsImmediate cd cs1 uimm
  | CSetBoundsExact cd cs1 rs2 => executeCSetBoundsExact cd cs1 rs2
  | CClearTag cd cs1 => executeCClearTag cd cs1
  | CMove cd cs1 => executeCMove cd cs1
  | CClear q m => executeCClear q m
  | CFromPtr cd cs1 rs2 => executeCFromPtr cd cs1 rs2
  | CBuildCap cd cs1 cs2 => executeCBuildCap cd cs1 cs2
  | CCopyType cd cs1 cs2 => executeCCopyType cd cs1 cs2
  | AUIPCC imm cd => executeAUIPCC imm cd
  | CSeal cd cs1 cs2 => executeCSeal cd cs1 cs2
  | CCSeal cd cs1 cs2 => executeCCSeal cd cs1 cs2
  | CUnseal cd cs1 cs2 => executeCUnseal cd cs1 cs2
  | CSealEntry cd cs1 => executeCSealEntry cd cs1
  | CSpecialRW cd scr cs1 => executeCSpecialRW core cd scr cs1
  | CInvoke cs1 cs2 => executeCInvoke core cs1 cs2
  | CJALR cd cs1 => executeCJALR core cd cs1
  | LoadDataDDC rd rs1 isUnsigned width => executeLoadDataDDC core rd rs1 isUnsigned width
  | LoadDataCap rd cs1 isUnsigned width => executeLoadDataCap core rd cs1 isUnsigned width
  | LoadCapDDC cd rs1 => executeLoadCapDDC core cd rs1
  | LoadCapCap cd cs1 => executeLoadCapCap core cd cs1
  | LoadCapImm cd rs1 imm => executeLoadCapImm core cd rs1 imm
  | CLoadTags rd cs1 => executeCLoadTags core rd cs1
  | StoreDataDDC rs2 rs1 width => executeStoreDataDDC core rs2 rs1 width
  | StoreDataCap rs2 cs1 width => executeStoreDataCap core rs2 cs1 width
  | StoreCapDDC cs2 rs1 => executeStoreCapDDC core cs2 rs1
  | StoreCapCap cs2 cs1 => executeStoreCapCap core cs2 cs1
  | StoreCapImm cs2 rs1 imm => executeStoreCapImm core cs2 rs1 imm
  | LOAD imm rs1 rd isUnsigned width => executeLOAD core imm rs1 rd isUnsigned width
  | STORE imm rs2 rs1 width => executeSTORE core imm rs2 rs1 width
  | UTYPE imm rd op => executeUTYPE imm rd op
  | ITYPE imm rs1 rd op => executeITYPE imm rs1 rd op
  | SHIFTIOP shamt rs1 rd op => executeSHIFTIOP shamt rs1 rd op
  | RTYPE rs2 rs1 rd op => executeRTYPE rs2 rs1 rd op
  | ADDIW imm rs1 rd => executeADDIW imm rs1 rd
  | RTYPEW rs2 rs1 rd op => executeRTYPEW rs2 rs1 rd op
  | SHIFTIWOP shamt rs1 rd op => executeSHIFTIWOP shamt rs1 rd op
  | JAL imm rd => executeJAL core imm rd
  | JALR imm rs1 rd => executeJALR core imm rs1 rd
  | BTYPE imm rs2 rs1 op => executeBTYPE core imm rs2 rs1 op
  | ECALL => executeECALL
  | EBREAK => executeEBREAK
  | FENCE => executeFENCE
  | MRET => executeMRET core
  | SRET => executeSRET core
  | URET => executeURET core

/-- `tick_pc`: the next instruction is the one the last has chosen. -/
def State.tickPc (s : State f) : State f :=
  { s.setScr .PCC (s.scr .nextPCC) with PC := s.nextPC }

/-- **One step**, of an instruction of four bytes that has been fetched. -/
def step (core : Core f) (i : Instr) : M f Retired := do
  modify fun s => { s with nextPC := s.PC + 4 }
  let retired ← i.execute core
  modify State.tickPc
  pure retired

/-- **A program runs.** A step that traps goes on at the handler. -/
def run (core : Core f) : List Instr → M f Unit
  | [] => pure ()
  | i :: program => do
    let _ ← step core i
    run core program

end Sail
