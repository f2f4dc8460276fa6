import CheriTree.Raising
import CheriTree.Sail.Capability

/-!
# The machine of the formal model

The state an instruction reads and writes, and the program it is: a `Prog` on
that state, which raises where the model stops (a failed assertion, an internal
error, an inexhaustive match). An architectural exception is no such stop: it
writes the trap registers, points the next program counter at the handler and
goes on, and the instruction gives `RETIRE_FAIL`.
-/

namespace Sail

/-! ## Data -/

inductive Privilege where
  | User
  | Supervisor
  | Machine
deriving DecidableEq, Repr

/-- `privLevel_to_bits`. -/
def Privilege.toBits : Privilege → BitVec 2
  | User => 0b00
  | Supervisor => 0b01
  | Machine => 0b11

/-- The exceptions of the extension (`ext_exc_type`). -/
inductive ExtExcType where
  | EXC_LOAD_CAP_PAGE_FAULT
  | EXC_SAMO_CAP_PAGE_FAULT
  | EXC_CHERI
deriving DecidableEq, Repr

/-- The synchronous exceptions a memory access or a capability check raises. -/
inductive ExceptionType where
  | E_Fetch_Access_Fault
  | E_Load_Addr_Align
  | E_Load_Access_Fault
  | E_SAMO_Addr_Align
  | E_SAMO_Access_Fault
  | E_Fetch_Page_Fault
  | E_Load_Page_Fault
  | E_SAMO_Page_Fault
  | E_Extension (e : ExtExcType)
deriving DecidableEq, Repr

/-- `num_of_ExceptionType`. -/
def ExceptionType.num : ExceptionType → ℕ
  | E_Fetch_Access_Fault => 1
  | E_Load_Addr_Align => 4
  | E_Load_Access_Fault => 5
  | E_SAMO_Addr_Align => 6
  | E_SAMO_Access_Fault => 7
  | E_Fetch_Page_Fault => 12
  | E_Load_Page_Fault => 13
  | E_SAMO_Page_Fault => 15
  | E_Extension .EXC_LOAD_CAP_PAGE_FAULT => 26
  | E_Extension .EXC_SAMO_CAP_PAGE_FAULT => 27
  | E_Extension .EXC_CHERI => 28

/-- The causes of a capability exception the enclave instructions raise. -/
inductive CapEx where
  | LengthViolation
  | TagViolation
  | SealViolation
  | InexactBounds
  | PermitLoadViolation
  | PermitStoreViolation
  | PermitStoreCapViolation
  | PermitStoreLocalCapViolation
  | PermitSealViolation
  | LinearityViolation
  | TCBAttestViolation
deriving DecidableEq, Repr

/-- `CapExCode`. -/
def CapEx.code : CapEx → BitVec 5
  | LengthViolation => 0b00001
  | TagViolation => 0b00010
  | SealViolation => 0b00011
  | InexactBounds => 0b01010
  | PermitLoadViolation => 0b10010
  | PermitStoreViolation => 0b10011
  | PermitStoreCapViolation => 0b10101
  | PermitStoreLocalCapViolation => 0b10110
  | PermitSealViolation => 0b10111
  | LinearityViolation => 0b11101
  | TCBAttestViolation => 0b11110

/-- Whether an instruction retired. -/
inductive Retired where
  | RETIRE_SUCCESS
  | RETIRE_FAIL
deriving DecidableEq, Repr

/-- Where the model stops. The last one is a loop that was not run to its
end. -/
inductive SailError where
  | assertion
  | internalError
  | matchFailure
  | outOfFuel
deriving DecidableEq, Repr

/-- The number of a general-purpose register. -/
abbrev RegIdx := BitVec 5

/-- The special capability registers. -/
inductive Scr where
  | PCC | nextPCC | DDC
  | UTCC | UTDC | UScratchC | UEPCC
  | STCC | STDC | SScratchC | SEPCC
  | MTCC | MTDC | MScratchC | MEPCC
deriving DecidableEq, Repr

/-- The extensions of `misa` that decide which registers exist. -/
structure Misa where
  S : Bool
  U : Bool
  N : Bool
deriving DecidableEq, Repr

/-- The fields of `mstatus` that a trap or an access reads or writes. -/
structure Mstatus where
  SXL : BitVec 2
  MPRV : Bool
  MPP : BitVec 2
  SPP : Bool
  MPIE : Bool
  SPIE : Bool
  UPIE : Bool
  MIE : Bool
  SIE : Bool
  UIE : Bool
deriving DecidableEq, Repr

/-- The trap registers of one privilege. -/
structure TrapCsrs (w : ℕ) where
  isInterrupt : Bool
  cause : BitVec w
  tval : BitVec w
  epc : BitVec w
deriving DecidableEq, Repr

/-- An entry of the memory protection: `pmpcfg` and `pmpaddr`. -/
structure PmpEntry (w : ℕ) where
  L : Bool
  A : BitVec 2
  X : Bool
  W : Bool
  R : Bool
  addr : BitVec w
deriving DecidableEq, Repr

/-- The registers behind the memory map: the timer and the host interface. -/
structure Devices where
  MSI : Bool
  MTI : Bool
  mtime : BitVec 64
  mtimecmp : BitVec 64
  htifTohost : BitVec 64
  htifDone : Bool
  htifExitCode : BitVec 64
deriving DecidableEq, Repr

/-- The width of an identity. -/
abbrev Hash := BitVec 256

/-- **An entry of the table of identities** (`EMapping`). -/
structure EMapping (f : CapFormat) where
  id : Hash
  eid : BitVec (f.ow - 2)
  isTemp : Bool
deriving DecidableEq

/-- The number of entries of the table. -/
def tableSize : ℕ := 128

/-- **The table of identities.** -/
structure ETable (f : CapFormat) where
  slots : List (Option (EMapping f))
  length_eq : slots.length = tableSize

/-- **The state of the machine.** -/
structure State (f : CapFormat) where
  /-- The registers `x1` to `x31`. -/
  x : ℕ → Capability f
  PC : BitVec f.xlen
  nextPC : BitVec f.xlen
  scr : Scr → Capability f
  eidCounter : BitVec (f.ow - 1)
  etable : ETable f
  curPrivilege : Privilege
  misa : Misa
  mstatus : Mstatus
  satp : BitVec f.xlen
  medeleg : BitVec f.xlen
  sedeleg : BitVec f.xlen
  trap : Privilege → TrapCsrs f.xlen
  pmp : List (PmpEntry f.xlen)
  mem : ℕ → BitVec 8
  tags : ℕ → Bool
  dev : Devices
  /-- How often an exception was handled. It is no register: nothing reads it. -/
  traps : ℕ

/-- **A program of the model.** -/
abbrev M (f : CapFormat) := Prog (State f) SailError

variable {f : CapFormat}

/-! ## Registers -/

/-- `rC`: register zero reads as the null capability. -/
def State.rC (s : State f) (r : RegIdx) : Capability f :=
  if r.toNat = 0 then .nullCap f else s.x r.toNat

/-- `wC`: register zero is not written. -/
def State.wC (s : State f) (r : RegIdx) (v : Capability f) : State f :=
  if r.toNat = 0 then s else { s with x := Function.update s.x r.toNat v }

theorem State.rC_wC_self (s : State f) {r : RegIdx} (v : Capability f) (hr : r.toNat ≠ 0) :
    (s.wC r v).rC r = v := by
  rw [rC, wC, if_neg hr, if_neg hr]
  exact Function.update_self _ _ _

theorem State.rC_wC_of_ne (s : State f) {r r' : RegIdx} (v : Capability f) (h : r' ≠ r) :
    (s.wC r v).rC r' = s.rC r' := by
  have hne : r'.toNat ≠ r.toNat := fun he => h (BitVec.eq_of_toNat_eq he)
  rw [rC, rC, wC]
  split
  · rfl
  · split
    · rfl
    · exact Function.update_of_ne hne _ _

@[simp] theorem State.wC_scr (s : State f) (r : RegIdx) (v : Capability f) :
    (s.wC r v).scr = s.scr := by
  rw [wC, apply_ite State.scr, ite_self]

@[simp] theorem State.wC_misa (s : State f) (r : RegIdx) (v : Capability f) :
    (s.wC r v).misa = s.misa := by
  rw [wC, apply_ite State.misa, ite_self]

@[simp] theorem State.wC_mem (s : State f) (r : RegIdx) (v : Capability f) :
    (s.wC r v).mem = s.mem := by
  rw [wC, apply_ite State.mem, ite_self]

@[simp] theorem State.wC_tags (s : State f) (r : RegIdx) (v : Capability f) :
    (s.wC r v).tags = s.tags := by
  rw [wC, apply_ite State.tags, ite_self]

/-- A tagged register is not register zero. -/
theorem State.ne_zero_of_tag {s : State f} {r : RegIdx} (h : (s.rC r).tag = true) :
    r.toNat ≠ 0 := by
  intro h0
  rw [rC, if_pos h0] at h
  exact Bool.false_ne_true h

def State.setScr (s : State f) (r : Scr) (v : Capability f) : State f :=
  { s with scr := Function.update s.scr r v }

/-- Where the model asserts. -/
def assert (b : Bool) : M f Unit := if b then pure () else throw .assertion

/-! ## Traps -/

def Privilege.tcc : Privilege → Scr
  | User => .UTCC
  | Supervisor => .STCC
  | Machine => .MTCC

def Privilege.epcc : Privilege → Scr
  | User => .UEPCC
  | Supervisor => .SEPCC
  | Machine => .MEPCC

/-- The privilege that handles an exception (`exception_delegatee`). -/
def exceptionDelegatee (s : State f) (e : ExceptionType) (p : Privilege) : Privilege :=
  let super := s.medeleg.getLsbD e.num
  let user := if s.misa.S then super && s.misa.N && s.sedeleg.getLsbD e.num
    else super && s.misa.N
  let deleg : Privilege := if s.misa.U && user then .User
    else if s.misa.S && super then .Supervisor
    else .Machine
  if deleg.toBits < p.toBits then p else deleg

/-- The exception program counter capability: the program counter capability
at the address of the instruction. -/
def handleTrapExtension (p : Privilege) (pc : BitVec f.xlen) : M f Unit := do
  let s ← get
  let (representable, epcc) := (s.scr .PCC).setCapAddr pc
  assert representable
  modify fun s => s.setScr p.epcc epcc

/-- The address of the handler: the trap vector in direct mode, or in vectored
mode, where an exception also goes to its base. -/
def prepareTrapVector (p : Privilege) : M f (BitVec f.xlen) := do
  let s ← get
  let tcc := s.scr p.tcc
  let base : BitVec f.xlen := (tcc.address >>> 2) <<< 2
  if tcc.address.extractLsb' 0 2 = 0b00#2 then
    modify fun s => s.setScr .nextPCC tcc
    pure base
  else if tcc.address.extractLsb' 0 2 = 0b01#2 then
    modify fun s => s.setScr .nextPCC tcc
    pure (if (s.trap p).isInterrupt then base + (s.trap p).cause <<< 2 else base)
  else throw .internalError

/-- The fields of `mstatus` a trap to a privilege writes. -/
def trapStatus (s : State f) (delPriv : Privilege) : M f Mstatus :=
  match delPriv with
  | .Machine => pure { s.mstatus with
      MPIE := s.mstatus.MIE
      MIE := false
      MPP := s.curPrivilege.toBits }
  | .Supervisor => do
      assert s.misa.S
      match s.curPrivilege with
      | .User => pure { s.mstatus with
          SPIE := s.mstatus.SIE
          SIE := false
          SPP := false }
      | .Supervisor => pure { s.mstatus with
          SPIE := s.mstatus.SIE
          SIE := false
          SPP := true }
      | .Machine => throw .internalError
  | .User => do
      assert s.misa.U
      pure { s.mstatus with
        UPIE := s.mstatus.UIE
        UIE := false }

/-- **A trap** to a privilege, for a synchronous cause (`trap_handler`): the
address of the handler. -/
def trapHandler (delPriv : Privilege) (e : ExceptionType) (pc : BitVec f.xlen)
    (info : BitVec f.xlen) : M f (BitVec f.xlen) := do
  let s ← get
  let mstatus ← trapStatus s delPriv
  set { s with
    mstatus := mstatus
    trap := Function.update s.trap delPriv ⟨false, BitVec.ofNat f.xlen e.num, info, pc⟩
    curPrivilege := delPriv }
  handleTrapExtension delPriv pc
  prepareTrapVector delPriv

/-- **An exception** (`exception_handler` with `set_next_pc`). -/
def handleException (e : ExceptionType) (info : BitVec f.xlen) : M f Unit := do
  let s ← get
  let pc ← trapHandler (exceptionDelegatee s e s.curPrivilege) e s.PC info
  modify fun s => { s with
    nextPC := pc
    traps := s.traps + 1 }

/-- `handle_mem_exception`. -/
def handleMemException (addr : BitVec f.xlen) (e : ExceptionType) : M f Unit :=
  handleException e addr

/-- `handle_cheri_cap_exception`: the cause and the register are the trap
value. -/
def handleCheriCapException (e : CapEx) (reg : BitVec 6) : M f Unit :=
  handleException (.E_Extension .EXC_CHERI) ((reg ++ e.code).setWidth f.xlen)

/-- `handle_cheri_reg_exception`. -/
def handleCheriRegException (e : CapEx) (reg : RegIdx) : M f Unit :=
  handleCheriCapException e (0#1 ++ reg)

/-- An instruction that fails by a capability exception. -/
def failWith (e : CapEx) (reg : RegIdx) : M f Retired := do
  handleCheriRegException e reg
  pure .RETIRE_FAIL

/-- An instruction that fails has not retired. -/
theorem failWith_ne_success {e : CapEx} {reg : RegIdx} {s s' : State f} :
    (failWith e reg : M f Retired) s ≠ .ok (.RETIRE_SUCCESS, s') := by
  intro h
  rw [failWith, Prog.bind_eq_ok] at h
  obtain ⟨u, t, -, h⟩ := h
  exact absurd (Prog.pure_eq_ok.1 h).1 (by decide)

end Sail
