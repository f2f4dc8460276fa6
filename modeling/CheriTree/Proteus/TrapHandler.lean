import CheriTree.Trapping
import CheriTree.Proteus.EnclaveRuntime

/-!
# The trusted trap handler

The program text of `trusted_traps.S`. A trap in an enclave comes here first:
the handler saves the capability registers and the registers in the trap data
of the data section `c31` points at, clears them, stores where to resume, seals
`c31` and jumps to the untrusted handler. When that one returns, the other
half unseals `c31`, restores everything and resumes.

An enclave whose place to resume is already stored has been interrupted
before. The handler then skips the save, and joins the common path in front
of the store.

Here the registers are part of the state, since it is their contents that the
handler is about. The long runs of accesses at consecutive offsets are
`strides`, the others `each`; a register is named by its number.
-/

namespace Proteus

/-- The offset of the place to resume in the trap data. -/
def TRAP_DATA_OFFSET_EPCC : ℕ := 1 * CAP_LEN

/-- The offset of the capability registers. -/
def TRAP_DATA_OFFSET_CAPS : ℕ := 2 * CAP_LEN

/-- The offset of the registers. -/
def TRAP_DATA_OFFSET_REGS : ℕ := 2 * CAP_LEN + 31 * CAP_LEN

/-- Bytes of a register. -/
def WORD_SIZE : ℕ := 4

/-! ## The state -/

/-- **The core the handler runs on**: both register files, the special
registers it uses, the two CSRs it uses, and the memory. -/
structure TrapState where
  x : RegId → Word
  c : RegId → Capability
  pcc : Capability
  ddc : Capability
  mtdc : Capability
  mscratchc : Capability
  mepcc : Capability
  mscratch : Word
  mcause : Word
  mem : TaggedMemory

namespace TrapState

/-- A register read; register zero reads as zero. -/
def readX (s : TrapState) (r : RegId) : Word := if r = 0 then 0 else s.x r

/-- A capability register read; `cnull` grants nothing. -/
def readC (s : TrapState) (r : RegId) : Capability := if r = 0 then .null else s.c r

def setX (s : TrapState) (rd : RegId) (v : Word) : TrapState :=
  { s with x := Function.update s.x rd v }

def setC (s : TrapState) (cd : RegId) (v : Capability) : TrapState :=
  { s with c := Function.update s.c cd v }

def setMem (s : TrapState) (m : TaggedMemory) : TrapState := { s with mem := m }

def setPcc (s : TrapState) (pcc : Capability) : TrapState := { s with pcc := pcc }

end TrapState

/-- How the handler stops on its way: in a trap, or in the loop of
`_trusted_trap_error`. -/
inductive TrapStop where
  | trap
  | hang
deriving DecidableEq, Repr

/-- A piece of the handler. -/
abbrev TrapProg := Trapping TrapState TrapStop Unit

/-- **The handler in its place**: the memory and the devices, the address of
the untrusted handler, and the offset the first half returns to. -/
structure TrapText where
  cfg : MemConfig
  device : Word → Word
  untrustedTrapHandler : Word
  returnOffset : Word

namespace TrapText

/-! ## Instructions -/

/-- A conditional branch: `x` where it is taken, `y` where it is not. -/
def branch (p : TrapState → Prop) [DecidablePred p] (x y : TrapProg) : TrapProg := fun s =>
  if p s then x s else y s

/-- Traps unless the check raises nothing. -/
def trapIf (p : TrapState → Prop) [DecidablePred p] : TrapProg := fun s =>
  (if p s then .error .trap else .ok (), s)

/-- An instruction that gives a capability, or traps. -/
def setOrTrap {ε : Type} (cd : RegId) (v : TrapState → Except ε Capability) : TrapProg := fun s =>
  match v s with
  | .ok cap => (.ok (), s.setC cd cap)
  | .error _ => (.error .trap, s)

def li (rd : RegId) (imm : Word) : TrapProg := Trapping.update (fun s => s.setX rd imm)

def addi (rd rs1 : RegId) (imm : Word) : TrapProg :=
  Trapping.update (fun s => s.setX rd (s.readX rs1 + imm))

def cGetLen (rd cs1 : RegId) : TrapProg :=
  Trapping.update (fun s => s.setX rd (s.readC cs1).length)

def cGetTag (rd cs1 : RegId) : TrapProg :=
  Trapping.update (fun s => s.setX rd (if (s.readC cs1).tag then 1 else 0))

def cSetOffset (cd cs1 rs2 : RegId) : TrapProg :=
  Trapping.update (fun s => s.setC cd (UserEnclave.cSetOffset (s.readC cs1) (s.readX rs2)))

def cIncOffsetImm (cd cs1 : RegId) (imm : ℕ) : TrapProg :=
  Trapping.update (fun s => s.setC cd (UserEnclave.cIncOffset (s.readC cs1) (BitVec.ofNat 32 imm)))

def cClearTag (cd cs1 : RegId) : TrapProg :=
  Trapping.update (fun s => s.setC cd { s.readC cs1 with tag := false })

/-- `CSpecialRW ct0, mscratchc, ct0`. -/
def swapMscratchc : TrapProg := do
  trapIf (fun s => s.pcc.perms.accessSystemRegisters = false)
  Trapping.update (fun s => { s.setC 5 s.mscratchc with mscratchc := s.c 5 })

/-- `csrrw t0, mscratch, t0`. -/
def swapMscratch : TrapProg :=
  Trapping.update (fun s => { s.setX 5 s.mscratch with mscratch := s.x 5 })

/-- `CSpecialR` of a register that asks for the permission to access system
registers. -/
def cSpecialR (cd : RegId) (scr : TrapState → Capability) : TrapProg := do
  trapIf (fun s => s.pcc.perms.accessSystemRegisters = false)
  Trapping.update (fun s => s.setC cd (scr s))

/-- `CSpecialR` of `DDC`, which does not. -/
def cSpecialRDdc (cd : RegId) : TrapProg := Trapping.update (fun s => s.setC cd s.ddc)

/-- `CSpecialW mepcc`. -/
def cSpecialWMepcc (cs1 : RegId) : TrapProg := do
  trapIf (fun s => s.pcc.perms.accessSystemRegisters = false)
  Trapping.update (fun s => { s with mepcc := s.readC cs1 })

/-- `csrr` of `mcause`. -/
def csrrMcause (rd : RegId) : TrapProg := Trapping.update (fun s => s.setX rd s.mcause)

def cSealI (cd cs1 cs2 : RegId) : TrapProg :=
  setOrTrap cd (fun s => cSeal (s.readC cs1) (s.readC cs2) cs1 cs2)

def cUnsealI (cd cs1 cs2 : RegId) : TrapProg :=
  setOrTrap cd (fun s => cUnseal (s.readC cs1) (s.readC cs2) cs1 cs2)

def cSetAddr (cd cs1 rs2 : RegId) : TrapProg :=
  setOrTrap cd (fun s => Modification.setAddr.apply (s.readC cs1) (s.readX rs2))

variable (t : TrapText)

/-- `CJALR`, whose link is `_trusted_trap_return`. -/
def cjalr (cd cs1 : RegId) : TrapProg := fun s =>
  match jumpToCap (s.readC cs1) (CapIdx.gpcr cs1) with
  | .ok target =>
    (.ok (), (s.setC cd (UserEnclave.cSetOffset s.pcc t.returnOffset)).setPcc target)
  | .error _ => (.error .trap, s)

/-- The check of an access through a capability register. -/
def accessTraps (cs1 : RegId) (operation : LsuOperationType) (byteWidth : Word)
    (s : TrapState) : Prop :=
  CapCheck.check (s.readC cs1) (s.readC cs1).address operation byteWidth ≠ none

instance (cs1 : RegId) (operation : LsuOperationType) (byteWidth : Word) :
    DecidablePred (accessTraps cs1 operation byteWidth) :=
  fun _ => inferInstanceAs (Decidable (_ ≠ _))

def lcCap (cd cs1 : RegId) : TrapProg := do
  trapIf (accessTraps cs1 .load capByteWidth)
  Trapping.update (fun s => s.setC cd (s.mem.loadCap t.cfg t.device (s.readC cs1).address))

def scCap (cs2 cs1 : RegId) : TrapProg := do
  trapIf (accessTraps cs1 .store capByteWidth)
  Trapping.update (fun s =>
    s.setMem (s.mem.storeCap t.cfg (s.readC cs1).address (s.readC cs2)))

def lwCap (rd cs1 : RegId) : TrapProg := do
  trapIf (accessTraps cs1 .load LsuAccessWidth.W.byteWidth)
  trapIf (fun s => (s.readC cs1).address.toNat % 4 ≠ 0)
  Trapping.update (fun s => s.setX rd (s.mem.readWord t.cfg t.device (s.readC cs1).address))

def swCap (rs2 cs1 : RegId) : TrapProg := do
  trapIf (accessTraps cs1 .store LsuAccessWidth.W.byteWidth)
  trapIf (fun s => (s.readC cs1).address.toNat % 4 ≠ 0)
  Trapping.update (fun s =>
    s.setMem (s.mem.storeWord t.cfg (s.readC cs1).address (s.readX rs2)))

/-! ## The text -/

/-- The registers of the capability register file, in order. -/
def capRegs : List RegId := (List.range 30).map (fun k => BitVec.ofNat 5 (k + 1))

/-- The registers saved, in order: all but `zero`, `sp`, `gp` and `tp`. -/
def savedRegs : List RegId := 1 :: (List.range 27).map (fun k => BitVec.ofNat 5 (k + 5))

/-- The registers cleared: those saved, but for `ra` and the arguments. -/
def clearedRegs : List RegId :=
  (List.range 5).map (fun k => BitVec.ofNat 5 (k + 5))
    ++ (List.range 14).map (fun k => BitVec.ofNat 5 (k + 18))

/-- One instruction for each register of a list. -/
def each (op : RegId → TrapProg) : List RegId → TrapProg
  | [] => pure ()
  | r :: rs => do
    op r
    each op rs

/-- One access for each register of a list, with `c31` moved on in between. -/
def strides (stride : ℕ) (op : RegId → TrapProg) : List RegId → TrapProg
  | [] => pure ()
  | [r] => op r
  | r :: rs => do
    op r
    cIncOffsetImm 31 31 stride
    strides stride op rs

/-- `c31` to an offset, and the accesses from there on. -/
def walk (offset stride : ℕ) (op : RegId → TrapProg) (rs : List RegId) : TrapProg := do
  cSetOffset 31 31 0
  cIncOffsetImm 31 31 offset
  strides stride op rs

/-- `_jump_to_untrusted`. -/
def jumpToUntrusted : TrapProg := do
  li 7 t.untrustedTrapHandler
  cSpecialRDdc 5
  cSetAddr 5 5 7
  t.cjalr 1 5

/-- The place to resume goes to the trap data: behind a system call, the
instruction after it. -/
def storeEpcc : TrapProg := do
  li 5 (BitVec.ofNat 32 TRAP_DATA_OFFSET_EPCC)
  cSetOffset 31 31 5
  cSpecialR 5 TrapState.mepcc
  t.scCap 5 31
  csrrMcause 5
  li 6 11
  branch (fun s => s.x 5 ≠ s.x 6) (pure ()) (cIncOffsetImm 5 5 4)
  t.scCap 5 31

/-- `_clear_state`, and on to the untrusted handler. -/
def clearState : TrapProg := do
  each (fun r => cClearTag r r) capRegs
  each (fun r => li r 0) clearedRegs
  t.storeEpcc
  cSpecialR 5 TrapState.mtdc
  cSealI 31 31 5
  cClearTag 5 5
  t.jumpToUntrusted

/-- The registers go to the trap data. -/
def saveContext : TrapProg := do
  swapMscratchc
  swapMscratch
  walk TRAP_DATA_OFFSET_CAPS CAP_LEN (fun r => t.scCap r 31) capRegs
  walk TRAP_DATA_OFFSET_REGS WORD_SIZE (fun r => t.swCap r 31) savedRegs

/-- The place to resume that is stored already, if there is one. -/
def loadEpcc : TrapProg := do
  li 5 (BitVec.ofNat 32 TRAP_DATA_OFFSET_EPCC)
  cSetOffset 31 31 5
  t.lcCap 5 31
  cGetTag 5 5

/-- **`_trusted_trap_handler`**, up to the jump to the untrusted handler. -/
def trustedTrapHandler : TrapProg := do
  swapMscratchc
  swapMscratch
  cGetLen 5 31
  addi 5 5 (-BitVec.ofNat 32 TRAP_DATA_LEN)
  branch (fun s => (s.x 5).slt 0) t.clearState (do
    t.loadEpcc
    branch (fun s => s.x 5 ≠ 0) t.clearState (do
      t.saveContext
      t.clearState))

/-- What the untrusted handler returns from a system call goes where `a0` is
restored from. The cause is read again. -/
def storeSyscallResult : TrapProg := do
  csrrMcause 5
  li 6 11
  branch (fun s => s.x 5 ≠ s.x 6) (pure ()) (do
    li 5 (BitVec.ofNat 32 (TRAP_DATA_OFFSET_REGS + 6 * WORD_SIZE))
    cSetOffset 31 31 5
    t.swCap 10 31)

/-- The registers come back from the trap data, and the capabilities there are
cleared. -/
def restoreContext : TrapProg := do
  walk TRAP_DATA_OFFSET_CAPS CAP_LEN (fun r => t.lcCap r 31) capRegs
  walk TRAP_DATA_OFFSET_CAPS CAP_LEN (fun _ => t.scCap 0 31) capRegs
  walk TRAP_DATA_OFFSET_REGS WORD_SIZE (fun r => t.lwCap r 31) savedRegs
  cIncOffsetImm 31 31 WORD_SIZE
  cSetOffset 31 31 0

/-- `mret`. -/
def mret : TrapProg := Trapping.update (fun s => s.setPcc s.mepcc)

/-- **`_trusted_trap_return`**, up to and with `mret`. -/
def trustedTrapReturn : TrapProg := do
  cSpecialR 5 TrapState.mtdc
  cUnsealI 31 31 5
  cClearTag 5 5
  cSetOffset 31 31 0
  cIncOffsetImm 31 31 TRAP_DATA_OFFSET_EPCC
  t.lcCap 5 31
  cGetTag 5 5
  branch (fun s => s.x 5 = 0) (Trapping.lift (.error .hang)) (do
    cSpecialWMepcc 5
    t.scCap 0 31
    t.storeSyscallResult
    t.restoreContext
    mret)

end TrapText

end Proteus
