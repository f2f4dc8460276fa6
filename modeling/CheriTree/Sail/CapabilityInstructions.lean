import CheriTree.Sail.EnclaveLife
import CheriTree.Sail.RepresentableLength

/-!
# The instructions on capability registers

What a program can do to a capability without going through memory: narrow it,
move it, seal it and unseal it, make it anew from one that has not lost its tag,
exchange it for one of a special register, and jump to it. Most are a chain of
checks, in an order that decides which exception is raised, and one register
write at the end.

Near-identical instructions are one definition with parameters, and each keeps
its own under the name of the source. An integer is written to a register as the
null capability at that address.
-/

namespace Sail

variable {f : CapFormat}

/-! ## Exceptions

The instructions here raise more than those that attest do. A trap looks at the
number of its cause only, so it is stated for a number, and `handleException` is
the case of the exceptions it knows. -/

/-- **The causes of a capability exception** (`CapEx`): those of the enclave
instructions, and the others an instruction here raises. -/
inductive CapViolation where
  | common (e : CapEx)
  | TypeViolation
  | UserDefViolation
  | UnalignedBase
  | PermitExecuteViolation
  | PermitLoadCapViolation
  | AccessSystemRegsViolation
  | PermitCInvokeViolation
  | PermitUnsealViolation
deriving DecidableEq, Repr

/-- `CapExCode`. -/
def CapViolation.code : CapViolation → BitVec 5
  | common e => e.code
  | TypeViolation => 0b00100
  | UserDefViolation => 0b01000
  | UnalignedBase => 0b01011
  | PermitExecuteViolation => 0b10001
  | PermitLoadCapViolation => 0b10100
  | AccessSystemRegsViolation => 0b11000
  | PermitCInvokeViolation => 0b11001
  | PermitUnsealViolation => 0b11011

/-- **The synchronous exceptions**: those of the accesses, and the others an
instruction here raises. -/
inductive TrapCause where
  | access (e : ExceptionType)
  | E_Fetch_Addr_Align
  | E_Illegal_Instr
  | E_Breakpoint
  | E_U_EnvCall
  | E_S_EnvCall
  | E_M_EnvCall
deriving DecidableEq, Repr

/-- `num_of_ExceptionType`. -/
def TrapCause.num : TrapCause → ℕ
  | access e => e.num
  | E_Fetch_Addr_Align => 0
  | E_Illegal_Instr => 2
  | E_Breakpoint => 3
  | E_U_EnvCall => 8
  | E_S_EnvCall => 9
  | E_M_EnvCall => 11

/-- The privilege that handles the exception of a number
(`exception_delegatee`). -/
def delegatee (s : State f) (num : ℕ) (p : Privilege) : Privilege :=
  let super := s.medeleg.getLsbD num
  let user := if s.misa.S then super && s.misa.N && s.sedeleg.getLsbD num
    else super && s.misa.N
  let deleg : Privilege := if s.misa.U && user then .User
    else if s.misa.S && super then .Supervisor
    else .Machine
  if deleg.toBits < p.toBits then p else deleg

/-- **A trap** to a privilege, for the cause of a number (`trap_handler`). -/
def trapTo (delPriv : Privilege) (num : ℕ) (pc info : BitVec f.xlen) :
    M f (BitVec f.xlen) := do
  let s ← get
  let mstatus ← trapStatus s delPriv
  set { s with
    mstatus := mstatus
    trap := Function.update s.trap delPriv ⟨false, BitVec.ofNat f.xlen num, info, pc⟩
    curPrivilege := delPriv }
  handleTrapExtension delPriv pc
  prepareTrapVector delPriv

/-- `exception_handler` for a trap, with `set_next_pc`. -/
def exceptionAt (num : ℕ) (info : BitVec f.xlen) : M f Unit := do
  let s ← get
  let pc ← trapTo (delegatee s num s.curPrivilege) num s.PC info
  modify fun s => { s with
    nextPC := pc
    traps := s.traps + 1 }

theorem handleException_eq (e : ExceptionType) (info : BitVec f.xlen) :
    (handleException e info : M f Unit) = exceptionAt e.num info := rfl

/-- An instruction that fails by an exception. -/
def failAt (e : TrapCause) (info : BitVec f.xlen) : M f Retired := do
  exceptionAt e.num info
  pure .RETIRE_FAIL

/-- An instruction that fails by a capability exception
(`handle_cheri_cap_exception`). -/
def failOn (e : CapViolation) (reg : BitVec 6) : M f Retired :=
  failAt (.access (.E_Extension .EXC_CHERI)) ((reg ++ e.code).setWidth f.xlen)

/-- An instruction that fails by a capability exception of a general-purpose
register (`handle_cheri_reg_exception`). -/
def failReg (e : CapViolation) (reg : RegIdx) : M f Retired := failOn e (0#1 ++ reg)

/-! ## Fields of a capability -/

namespace Capability

/-- `getCapPerms`: the user permissions above the hardware ones. -/
def getCapPerms (c : Capability f) : BitVec (f.uw + 15) :=
  c.uperms ++ c.getCapHardPerms.setWidth 15

/-- `setCapPerms`. -/
def setCapPerms (c : Capability f) (perms : BitVec (f.uw + 15)) : Capability f :=
  { c with
    uperms := (perms >>> 15).setWidth f.uw
    permitSetCID := perms.getLsbD 11
    accessSystemRegs := perms.getLsbD 10
    permitUnseal := perms.getLsbD 9
    permitCInvoke := perms.getLsbD 8
    permitSeal := perms.getLsbD 7
    permitStoreLocalCap := perms.getLsbD 6
    permitStoreCap := perms.getLsbD 5
    permitLoadCap := perms.getLsbD 4
    permitStore := perms.getLsbD 3
    permitLoad := perms.getLsbD 2
    permitExecute := perms.getLsbD 1
    global := perms.getLsbD 0 }

/-- `getCapFlags`, of which there is one. -/
def getCapFlags (c : Capability f) : BitVec 1 := BitVec.ofBool c.flagCapMode

/-- `setCapFlags`. -/
def setCapFlags (c : Capability f) (flags : BitVec 1) : Capability f :=
  { c with flagCapMode := flags.getLsbD 0 }

/-- **`getCapLength`**, wrapped where the top is below the base. -/
def getCapLength (c : Capability f) : ℕ :=
  (((c.getCapTop : ℤ) - c.getCapBase) % 2 ^ (f.xlen + 1)).toNat

/-- `incCapOffset`. -/
def incCapOffset (c : Capability f) (delta : BitVec f.xlen) : Bool × Capability f :=
  (c.fastRepCheck delta, c.withAddress (c.address + delta))

/-- `setCapOffsetOrNull`. -/
def setCapOffsetOrNull (c : Capability f) (offset : BitVec f.xlen) : Capability f :=
  let r := c.setCapOffset offset
  if r.1 && !c.isCapSealed then r.2 else r.2.invalidateCap

/-- A capability that was moved, without its tag where it could not be. -/
def orInvalid (r : Bool × Capability f) : Capability f :=
  if r.1 then r.2 else r.2.invalidateCap

end Capability

open Capability

/-! ## Ends of an instruction -/

/-- The end of an instruction that writes a capability register. -/
def writeCap (cd : RegIdx) (v : Capability f) : M f Retired := do
  modify fun s => s.wC cd v
  pure .RETIRE_SUCCESS

/-- The end of an instruction that writes an integer register. -/
def writeInt (rd : RegIdx) (v : BitVec f.xlen) : M f Retired := do
  modify fun s => s.wX rd v
  pure .RETIRE_SUCCESS

/-- The authority an instruction reads from a register, of which the one of
number zero stands for `DDC`. -/
def State.rCOrDdc (s : State f) (r : RegIdx) : Capability f :=
  if r.toNat = 0 then s.scr .DDC else s.rC r

/-! ## Inspection -/

/-- An instruction that reads a field of a capability. -/
def inspect (rd cs1 : RegIdx) (field : Capability f → BitVec f.xlen) : M f Retired := do
  let s ← get
  writeInt rd (field (s.rC cs1))

def executeCGetPerm (rd cs1 : RegIdx) : M f Retired :=
  inspect rd cs1 fun c => c.getCapPerms.setWidth f.xlen

def executeCGetFlags (rd cs1 : RegIdx) : M f Retired :=
  inspect rd cs1 fun c => c.getCapFlags.setWidth f.xlen

def executeCGetType (rd cs1 : RegIdx) : M f Retired :=
  inspect rd cs1 fun c =>
    if c.hasReservedOType then c.otype.signExtend f.xlen else c.otype.setWidth f.xlen

def executeCGetBase (rd cs1 : RegIdx) : M f Retired := inspect rd cs1 getCapBaseBits

def executeCGetOffset (rd cs1 : RegIdx) : M f Retired := inspect rd cs1 getCapOffsetBits

/-- **`CGetLen`.** The bounds of a tagged capability are asserted to be in
order, and a length that does not fit is cut. -/
def executeCGetLen (rd cs1 : RegIdx) : M f Retired := do
  let s ← get
  let capVal := s.rC cs1
  assert (!capVal.tag || capVal.getCapBase ≤ capVal.getCapTop)
  writeInt rd (BitVec.ofNat f.xlen (min capVal.getCapLength (2 ^ f.xlen - 1)))

def executeCGetTag (rd cs1 : RegIdx) : M f Retired :=
  inspect rd cs1 fun c => (BitVec.ofBool c.tag).setWidth f.xlen

def executeCGetSealed (rd cs1 : RegIdx) : M f Retired :=
  inspect rd cs1 fun c => (BitVec.ofBool c.isCapSealed).setWidth f.xlen

def executeCGetAddr (rd cs1 : RegIdx) : M f Retired := inspect rd cs1 address

/-- `CToPtr`: of a capability without its tag the address is not read. -/
def executeCToPtr (rd cs1 cs2 : RegIdx) : M f Retired := do
  let s ← get
  let cs1Val := s.rC cs1
  let cs2Val := s.rCOrDdc cs2
  if !cs2Val.tag then failReg (.common .TagViolation) cs2
  else if cs1Val.tag && cs1Val.isCapSealed then failReg (.common .SealViolation) cs1
  else writeInt rd (if !cs1Val.tag then 0 else cs1Val.address - cs2Val.getCapBaseBits)

def executeCSub (rd cs1 cs2 : RegIdx) : M f Retired := do
  let s ← get
  writeInt rd ((s.rC cs1).address - (s.rC cs2).address)

def executeCRRL (rd rs1 : RegIdx) : M f Retired := do
  let s ← get
  writeInt rd (getRepresentableLength (s.rX rs1))

def executeCRAM (rd rs1 : RegIdx) : M f Retired := do
  let s ← get
  writeInt rd (getRepresentableAlignmentMask (s.rX rs1))

/-- The permissions `perms` are among those of `within`. -/
def permsSubset (perms within : BitVec (f.uw + 15)) : Bool := perms &&& within = perms

/-- What `CTestSubset` tests. The object type is not looked at. -/
def testSubset (cs1Val cs2Val : Capability f) : Bool :=
  if cs1Val.tag ≠ cs2Val.tag then false
  else if cs2Val.getCapBase < cs1Val.getCapBase then false
  else if cs1Val.getCapTop < cs2Val.getCapTop then false
  else permsSubset cs2Val.getCapPerms cs1Val.getCapPerms

def executeCTestSubset (rd cs1 cs2 : RegIdx) : M f Retired := do
  let s ← get
  writeInt rd ((BitVec.ofBool (testSubset (s.rCOrDdc cs1) (s.rC cs2))).setWidth f.xlen)

def executeCSEQX (rd cs1 cs2 : RegIdx) : M f Retired := do
  let s ← get
  writeInt rd ((BitVec.ofBool (s.rC cs1 = s.rC cs2)).setWidth f.xlen)

/-! ## Modification -/

def executeCAndPerm (cd cs1 rs2 : RegIdx) : M f Retired := do
  let s ← get
  let cs1Val := s.rC cs1
  let rs2Val := s.rX rs2
  if !cs1Val.tag then failReg (.common .TagViolation) cs1
  else if cs1Val.isCapSealed then failReg (.common .SealViolation) cs1
  else writeCap cd (cs1Val.setCapPerms (cs1Val.getCapPerms &&& rs2Val.setWidth (f.uw + 15)))

/-- An instruction that changes a capability, tagged or not, unless it is
tagged and sealed. -/
def adjust (cd cs1 : RegIdx) (change : State f → Capability f → Capability f) :
    M f Retired := do
  let s ← get
  let cs1Val := s.rC cs1
  if cs1Val.tag && cs1Val.isCapSealed then failReg (.common .SealViolation) cs1
  else writeCap cd (change s cs1Val)

def executeCSetFlags (cd cs1 rs2 : RegIdx) : M f Retired :=
  adjust cd cs1 fun s c => c.setCapFlags ((s.rX rs2).setWidth 1)

def executeCIncOffset (cd cs1 rs2 : RegIdx) : M f Retired :=
  adjust cd cs1 fun s c => .orInvalid (c.incCapOffset (s.rX rs2))

def executeCIncOffsetImmediate (cd cs1 : RegIdx) (imm : BitVec 12) : M f Retired :=
  adjust cd cs1 fun _ c => .orInvalid (c.incCapOffset (imm.signExtend f.xlen))

def executeCSetOffset (cd cs1 rs2 : RegIdx) : M f Retired :=
  adjust cd cs1 fun s c => .orInvalid (c.setCapOffset (s.rX rs2))

def executeCSetAddr (cd cs1 rs2 : RegIdx) : M f Retired :=
  adjust cd cs1 fun s c => .orInvalid (c.setCapAddr (s.rX rs2))

/-- The bounds of `length` bytes from the address of a capability on. -/
def boundsFrom (c : Capability f) (length : ℕ) : Bool × Capability f :=
  c.setCapBounds c.address (c.address.setWidth (f.xlen + 1) + BitVec.ofNat (f.xlen + 1) length)

/-- An instruction that sets bounds of a length it has read, with what it does
with the result. -/
def setBounds (cs1 : RegIdx) (length : State f → ℕ)
    (finish : Bool × Capability f → M f Retired) : M f Retired := do
  let s ← get
  let cs1Val := s.rC cs1
  if !cs1Val.tag then failReg (.common .TagViolation) cs1
  else if cs1Val.isCapSealed then failReg (.common .SealViolation) cs1
  else if !cs1Val.inCapBounds cs1Val.address (length s) then
    failReg (.common .LengthViolation) cs1
  else finish (boundsFrom cs1Val (length s))

def executeCSetBounds (cd cs1 rs2 : RegIdx) : M f Retired :=
  setBounds cs1 (fun s => (s.rX rs2).toNat) fun r => writeCap cd r.2

def executeCSetBoundsImmediate (cd cs1 : RegIdx) (uimm : BitVec 12) : M f Retired :=
  setBounds cs1 (fun _ => uimm.toNat) fun r => writeCap cd r.2

def executeCSetBoundsExact (cd cs1 rs2 : RegIdx) : M f Retired :=
  setBounds cs1 (fun s => (s.rX rs2).toNat) fun r =>
    if !r.1 then failReg (.common .InexactBounds) cs1 else writeCap cd r.2

def executeCClearTag (cd cs1 : RegIdx) : M f Retired := do
  let s ← get
  writeCap cd (s.rC cs1).invalidateCap

def executeCMove (cd cs1 : RegIdx) : M f Retired := do
  let s ← get
  writeCap cd (s.rC cs1)

/-- `CClear`: the registers of a quarter `q` that the mask `m` has, where
register zero stands for `DDC`. -/
def executeCClear (q : BitVec 2) (m : BitVec 8) : M f Retired := do
  modify fun s => (List.range 8).foldl (fun s i =>
    if m.getLsbD i then
      if q.toNat = 0 ∧ i = 0 then s.setScr .DDC (.nullCap f)
      else s.wC (BitVec.ofNat 5 (8 * q.toNat + i)) (.nullCap f)
    else s) s
  pure .RETIRE_SUCCESS

def executeCFromPtr (cd cs1 rs2 : RegIdx) : M f Retired := do
  let s ← get
  let cs1Val := s.rCOrDdc cs1
  let rs2Val := s.rX rs2
  if rs2Val = 0 then writeCap cd (.nullCap f)
  else if !cs1Val.tag then failReg (.common .TagViolation) cs1
  else if cs1Val.isCapSealed then failReg (.common .SealViolation) cs1
  else writeCap cd (.orInvalid (cs1Val.setCapOffset rs2Val))

/-- What `CBuildCap` derives from the authority `cs1Val` for the fields of
`cs2Val`, not sealed. Whether the offset is representable is not looked at. -/
def rebuild (cs1Val cs2Val : Capability f) : Bool × Capability f :=
  let cd1 := cs1Val.setCapBounds (BitVec.ofNat f.xlen cs2Val.getCapBase)
    (BitVec.ofNat (f.xlen + 1) cs2Val.getCapTop)
  let cd2 := (cd1.2.setCapOffset cs2Val.getCapOffsetBits).2
  (cd1.1, (cd2.setCapPerms cs2Val.getCapPerms).setCapFlags cs2Val.getCapFlags)

/-- **`CBuildCap`.** What is derived from the authority must be the capability
that was asked for; its bounds are asserted to be exact then. -/
def executeCBuildCap (cd cs1 cs2 : RegIdx) : M f Retired := do
  let s ← get
  let cs1Val := s.rCOrDdc cs1
  let cs2Val := s.rC cs2
  if !cs1Val.tag then failReg (.common .TagViolation) cs1
  else if cs1Val.isCapSealed then failReg (.common .SealViolation) cs1
  else if cs2Val.getCapBase < cs1Val.getCapBase then failReg (.common .LengthViolation) cs1
  else if cs1Val.getCapTop < cs2Val.getCapTop then failReg (.common .LengthViolation) cs1
  else if cs2Val.getCapTop < cs2Val.getCapBase then failReg (.common .LengthViolation) cs2
  else if !permsSubset cs2Val.getCapPerms cs1Val.getCapPerms then failReg .UserDefViolation cs1
  else if (rebuild cs1Val cs2Val).2 ≠ { cs2Val.unsealCap with tag := true } then
    failReg (.common .LengthViolation) cs2
  else do
    assert (rebuild cs1Val cs2Val).1
    writeCap cd (if cs2Val.otype = f.otypeSentry
      then (rebuild cs1Val cs2Val).2.sealCap f.otypeSentry else (rebuild cs1Val cs2Val).2)

/-- **`CCopyType`.** An address in bounds is asserted to be representable. -/
def executeCCopyType (cd cs1 cs2 : RegIdx) : M f Retired := do
  let s ← get
  let cs1Val := s.rC cs1
  let cs2Val := s.rC cs2
  if !cs1Val.tag then failReg (.common .TagViolation) cs1
  else if cs1Val.isCapSealed then failReg (.common .SealViolation) cs1
  else if cs2Val.hasReservedOType then
    writeCap cd (.intToCap (cs2Val.otype.signExtend f.xlen))
  else if cs2Val.otype.toNat < cs1Val.getCapBase then failReg (.common .LengthViolation) cs1
  else if cs1Val.getCapTop ≤ cs2Val.otype.toNat then failReg (.common .LengthViolation) cs1
  else do
    assert (cs1Val.setCapAddr (BitVec.ofNat f.xlen cs2Val.otype.toNat)).1
    writeCap cd (cs1Val.setCapAddr (BitVec.ofNat f.xlen cs2Val.otype.toNat)).2

/-- `AUIPCC`. -/
def executeAUIPCC (imm : BitVec 20) (cd : RegIdx) : M f Retired := do
  let s ← get
  writeCap cd (.orInvalid
    ((s.scr .PCC).setCapAddr (s.PC + (imm ++ 0x000#12).signExtend f.xlen)))

/-! ## Sealing -/

/-- A capability with the object type that another one points at. -/
def sealAt (c authority : Capability f) : Capability f :=
  c.sealCap (BitVec.ofNat f.ow authority.address.toNat)

def executeCSeal (cd cs1 cs2 : RegIdx) : M f Retired := do
  let s ← get
  let cs1Val := s.rC cs1
  let cs2Val := s.rC cs2
  if !cs1Val.tag then failReg (.common .TagViolation) cs1
  else if !cs2Val.tag then failReg (.common .TagViolation) cs2
  else if cs1Val.isCapSealed then failReg (.common .SealViolation) cs1
  else if cs2Val.isCapSealed then failReg (.common .SealViolation) cs2
  else if !cs2Val.permitSeal then failReg (.common .PermitSealViolation) cs2
  else if cs2Val.address.toNat < cs2Val.getCapBase then failReg (.common .LengthViolation) cs2
  else if cs2Val.getCapTop ≤ cs2Val.address.toNat then failReg (.common .LengthViolation) cs2
  else if f.capMaxOtype < cs2Val.address.toNat then failReg (.common .LengthViolation) cs2
  else writeCap cd (sealAt cs1Val cs2Val)

/-- **`CCSeal`.** Where there is nothing to seal with, the capability stays as
it is. -/
def executeCCSeal (cd cs1 cs2 : RegIdx) : M f Retired := do
  let s ← get
  let cs1Val := s.rC cs1
  let cs2Val := s.rC cs2
  if !cs1Val.tag then failReg (.common .TagViolation) cs1
  else if !cs2Val.tag then writeCap cd cs1Val
  else if cs1Val.isCapSealed then writeCap cd cs1Val
  else if cs2Val.address.toNat < cs2Val.getCapBase then writeCap cd cs1Val
  else if cs2Val.getCapTop ≤ cs2Val.address.toNat then writeCap cd cs1Val
  else if cs2Val.address = BitVec.allOnes f.xlen then writeCap cd cs1Val
  else if cs2Val.isCapSealed then failReg (.common .SealViolation) cs2
  else if !cs2Val.permitSeal then failReg (.common .PermitSealViolation) cs2
  else if f.capMaxOtype < cs2Val.address.toNat then failReg (.common .LengthViolation) cs2
  else writeCap cd (sealAt cs1Val cs2Val)

def executeCUnseal (cd cs1 cs2 : RegIdx) : M f Retired := do
  let s ← get
  let cs1Val := s.rC cs1
  let cs2Val := s.rC cs2
  if !cs1Val.tag then failReg (.common .TagViolation) cs1
  else if !cs2Val.tag then failReg (.common .TagViolation) cs2
  else if !cs1Val.isCapSealed then failReg (.common .SealViolation) cs1
  else if cs2Val.isCapSealed then failReg (.common .SealViolation) cs2
  else if cs1Val.hasReservedOType then failReg .TypeViolation cs1
  else if cs2Val.address.toNat ≠ cs1Val.otype.toNat then failReg .TypeViolation cs2
  else if !cs2Val.permitUnseal then failReg .PermitUnsealViolation cs2
  else if cs2Val.address.toNat < cs2Val.getCapBase then failReg (.common .LengthViolation) cs2
  else if cs2Val.getCapTop ≤ cs2Val.address.toNat then failReg (.common .LengthViolation) cs2
  else writeCap cd { cs1Val.unsealCap with global := cs1Val.global && cs2Val.global }

def executeCSealEntry (cd cs1 : RegIdx) : M f Retired := do
  let s ← get
  let cs1Val := s.rC cs1
  if !cs1Val.tag then failReg (.common .TagViolation) cs1
  else if cs1Val.isCapSealed then failReg (.common .SealViolation) cs1
  else if !cs1Val.permitExecute then failReg .PermitExecuteViolation cs1
  else writeCap cd (cs1Val.sealCap f.otypeSentry)

/-! ## The configuration -/

/-- **What a configuration of the core fixes**: the platform, `misa.C` and
`mstatus.TSR`, which no instruction here writes, whether compressed instructions
can be enabled and `misa` written, and the trap values of a `CSpecialRW` and of a
return that are illegal. -/
structure Core (f : CapFormat) where
  platform : Platform f
  rvc : Bool
  tsr : Bool
  enableRvc : Bool
  writableMisa : Bool
  illegalInfo : RegIdx → BitVec 5 → RegIdx → BitVec f.xlen
  illegalReturn : Privilege → BitVec f.xlen

/-- `min_instruction_bytes`. -/
def Core.minInstructionBytes (core : Core f) : ℕ :=
  if !core.writableMisa && !core.enableRvc then 4 else 2

/-- An address with its lowest bit cleared. -/
def clearBit0 {w : ℕ} (a : BitVec w) : BitVec w := a &&& ~~~1

/-! ## The special registers -/

/-- **The special register of a number**, the privilege it takes and whether it
takes access to the system registers, where the machine has it. -/
def specialReg (misa : Misa) (scr : BitVec 5) : Option (Scr × Privilege × Bool) :=
  match scr.toNat with
  | 0 => some (.PCC, .User, false)
  | 1 => some (.DDC, .User, false)
  | 4 => if misa.N then some (.UTCC, .User, true) else none
  | 5 => if misa.N then some (.UTDC, .User, true) else none
  | 6 => if misa.N then some (.UScratchC, .User, true) else none
  | 7 => if misa.N then some (.UEPCC, .User, true) else none
  | 12 => if misa.S then some (.STCC, .Supervisor, true) else none
  | 13 => if misa.S then some (.STDC, .Supervisor, true) else none
  | 14 => if misa.S then some (.SScratchC, .Supervisor, true) else none
  | 15 => if misa.S then some (.SEPCC, .Supervisor, true) else none
  | 28 => some (.MTCC, .Machine, true)
  | 29 => some (.MTDC, .Machine, true)
  | 30 => some (.MScratchC, .Machine, true)
  | 31 => some (.MEPCC, .Machine, true)
  | _ => none

/-- `legalize_tvec`: a mode that is reserved leaves the mode as it was. -/
def legalizeTvec {w : ℕ} (o v : BitVec w) : BitVec w :=
  if v.extractLsb' 0 2 = 0b00#2 ∨ v.extractLsb' 0 2 = 0b01#2 then v
  else (v >>> 2 <<< 2) ||| (o &&& 3)

/-- `legalize_tcc`: a write with an unaligned base is ignored. -/
def legalizeTcc (o v : Capability f) : Capability f :=
  let newBase := v.getCapBaseBits
  if newBase.getLsbD 0 || newBase.getLsbD 1 then o
  else v.setCapOffsetOrNull (legalizeTvec o.getCapOffsetBits (v.address - newBase))

/-- `legalize_xepc`. -/
def legalizeXepc (core : Core f) (v : BitVec f.xlen) : BitVec f.xlen :=
  if core.writableMisa && core.enableRvc || core.rvc then clearBit0 v
  else v &&& (0b100#3).signExtend f.xlen

/-- `legalize_epcc`: a capability whose offset is legal is left alone, so that a
sentry stays one. -/
def legalizeEpcc (core : Core f) (v : Capability f) : Capability f :=
  let legalized := legalizeXepc core v.getCapOffsetBits
  if legalized = v.getCapOffsetBits then v else v.setCapOffsetOrNull legalized

/-- What a special register reads as, and whether it does: the program counter
is asserted to be representable. -/
def State.readSpecial (s : State f) (core : Core f) (r : Scr) : Bool × Capability f :=
  match r with
  | .PCC => (s.scr .PCC).setCapAddr s.PC
  | .UEPCC | .SEPCC | .MEPCC => (true, legalizeEpcc core (s.scr r))
  | _ => (true, s.scr r)

/-- What a special register becomes where `v` is written to it. -/
def State.writtenSpecial (s : State f) (r : Scr) (v : Capability f) : Capability f :=
  match r with
  | .UTCC | .STCC | .MTCC => legalizeTcc (s.scr r) v
  | _ => v

/-- **`CSpecialRW`.** A register that only reads is not written. -/
def executeCSpecialRW (core : Core f) (cd : RegIdx) (scr : BitVec 5) (cs1 : RegIdx) :
    M f Retired := do
  let s ← get
  match specialReg s.misa scr with
  | none => failAt .E_Illegal_Instr (core.illegalInfo cd scr cs1)
  | some (r, priv, needASR) =>
    if (r = .PCC ∧ cs1 ≠ 0) ∨ s.curPrivilege.toBits < priv.toBits then
      failAt .E_Illegal_Instr (core.illegalInfo cd scr cs1)
    else if needASR && !(s.scr .PCC).accessSystemRegs then
      failOn .AccessSystemRegsViolation (1#1 ++ scr)
    else do
      assert (s.readSpecial core r).1
      modify fun t => t.wC cd (s.readSpecial core r).2
      modify fun t => if cs1 = 0 then t else t.setScr r (s.writtenSpecial r (s.rC cs1))
      pure .RETIRE_SUCCESS

/-! ## Jumps -/

/-- A base that is not aligned for instructions. -/
def Core.unalignedBase (core : Core f) (base : BitVec f.xlen) : Bool :=
  base.getLsbD 0 || base.getLsbD 1 && !core.rvc

/-- The last checks of a jump to a capability, and the jump. -/
def jumpTo (core : Core f) (cs1 : RegIdx) (target : Capability f)
    (jump : BitVec f.xlen → M f Retired) : M f Retired :=
  if !target.inCapBounds (clearBit0 target.address) core.minInstructionBytes then
    failReg (.common .LengthViolation) cs1
  else if core.unalignedBase target.getCapBaseBits then failReg .UnalignedBase cs1
  else if (clearBit0 target.address).getLsbD 1 && !core.rvc then
    failAt .E_Fetch_Addr_Align (clearBit0 target.address)
  else jump (clearBit0 target.address)

/-- The next instruction is at an address of a capability. -/
def State.goTo (s : State f) (pc : BitVec f.xlen) (pcc : Capability f) : State f :=
  { s.setScr .nextPCC pcc with nextPC := pc }

/-- **`CInvoke`**: a pair of capabilities sealed alike is unsealed into the
program counter and `c31`. -/
def executeCInvoke (core : Core f) (cs1 cs2 : RegIdx) : M f Retired := do
  let s ← get
  let cs1Val := s.rC cs1
  let cs2Val := s.rC cs2
  if !cs1Val.tag then failReg (.common .TagViolation) cs1
  else if !cs2Val.tag then failReg (.common .TagViolation) cs2
  else if cs1Val.hasReservedOType then failReg (.common .SealViolation) cs1
  else if cs2Val.hasReservedOType then failReg (.common .SealViolation) cs2
  else if cs1Val.otype ≠ cs2Val.otype then failReg .TypeViolation cs1
  else if !cs1Val.permitCInvoke then failReg .PermitCInvokeViolation cs1
  else if !cs2Val.permitCInvoke then failReg .PermitCInvokeViolation cs2
  else if !cs1Val.permitExecute then failReg .PermitExecuteViolation cs1
  else if cs2Val.permitExecute then failReg .PermitExecuteViolation cs2
  else jumpTo core cs1 cs1Val fun newPC => do
    modify fun t => (t.wC 31 cs2Val.unsealCap).goTo newPC cs1Val.unsealCap
    pure .RETIRE_SUCCESS

/-- **`CJALR`**: a jump to a capability that is not sealed or a sentry, with a
sentry to the next instruction left behind. -/
def executeCJALR (core : Core f) (cd cs1 : RegIdx) : M f Retired := do
  let s ← get
  let cs1Val := s.rC cs1
  if !cs1Val.tag then failReg (.common .TagViolation) cs1
  else if cs1Val.isCapSealed && cs1Val.otype ≠ f.otypeSentry then
    failReg (.common .SealViolation) cs1
  else if !cs1Val.permitExecute then failReg .PermitExecuteViolation cs1
  else jumpTo core cs1 cs1Val fun newPC => do
    let link := (s.scr .PCC).setCapAddr s.nextPC
    assert link.1
    assert (!link.2.isCapSealed)
    modify fun t => (t.wC cd (link.2.sealCap f.otypeSentry)).goTo newPC cs1Val.unsealCap
    pure .RETIRE_SUCCESS

end Sail
