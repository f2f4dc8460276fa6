import CheriTree.Sail.CapabilityInstructions

/-!
# The instructions on memory

Loads and stores of data and of capabilities, through a capability register,
through `DDC`, or through the one the mode of the program counter capability
chooses. All make the same checks of their authority before they translate the
address (`dataAddrCheck`); a capability keeps its tag on the way only where the
authority may move capabilities. The accesses that reserve an address are left
out: the reservation is kept by the platform.
-/

namespace Sail

variable {f : CapFormat}

/-! ## Widths -/

/-- `word_width`. -/
inductive WordWidth where
  | BYTE
  | HALF
  | WORD
  | DOUBLE
deriving DecidableEq, Repr

/-- `word_width_bytes`. -/
def WordWidth.bytes : WordWidth → ℕ
  | BYTE => 1
  | HALF => 2
  | WORD => 4
  | DOUBLE => 8

/-- `check_misaligned`. -/
def checkMisaligned (p : Platform f) (vaddr : BitVec f.xlen) (width : WordWidth) : Bool :=
  if p.enableMisalignedAccess then false
  else match width with
    | .BYTE => false
    | .HALF => vaddr.getLsbD 0
    | .WORD => vaddr.getLsbD 0 || vaddr.getLsbD 1
    | .DOUBLE => vaddr.getLsbD 0 || vaddr.getLsbD 1 || vaddr.getLsbD 2

/-- `extend_value`. -/
def extendValue {n : ℕ} (isUnsigned : Bool) (v : BitVec n) : BitVec f.xlen :=
  if isUnsigned then v.setWidth f.xlen else v.signExtend f.xlen

/-- A width the machine has an access for. -/
def WordWidth.supported (f : CapFormat) (width : WordWidth) : Bool :=
  width ≠ .DOUBLE || f.xlen = 64

/-! ## The authority of an access -/

/-- `DDC_IDX`. -/
def ddcIdx : BitVec 6 := 0b100001

/-- **The checks of the authority of an access** to `size` bytes, in their
order: the cause that the first of them to fail raises. -/
def dataAddrCheck (auth : Capability f) (load store : Bool) (vaddr : BitVec f.xlen) (size : ℕ) :
    Option CapEx :=
  if !auth.tag then some .TagViolation
  else if auth.isCapSealed then some .SealViolation
  else if load && !auth.permitLoad then some .PermitLoadViolation
  else if store && !auth.permitStore then some .PermitStoreViolation
  else if !auth.inCapBounds vaddr size then some .LengthViolation
  else none

/-- The authority of an access and its address: by the mode of the program
counter capability, a register or `DDC` (`get_cheri_mode_cap_addr`). -/
def cheriModeCapAddr (s : State f) (baseReg : RegIdx) (offset : BitVec f.xlen) :
    Capability f × BitVec f.xlen × BitVec 6 :=
  if (s.scr .PCC).flagCapMode then
    let baseCap := s.rC baseReg
    (baseCap, baseCap.address + offset, 0#1 ++ baseReg)
  else
    let ddc := s.scr .DDC
    (ddc, ddc.address + s.rX baseReg + offset, ddcIdx)

/-- The authority and the address of an access through a register. -/
def capAddr (s : State f) (cs1 : RegIdx) : Capability f × BitVec f.xlen × BitVec 6 :=
  (s.rC cs1, (s.rC cs1).address, 0#1 ++ cs1)

/-- The authority and the address of an access through `DDC`. -/
def ddcAddr (s : State f) (rs1 : RegIdx) : Capability f × BitVec f.xlen × BitVec 6 :=
  (s.scr .DDC, (s.scr .DDC).address + s.rX rs1, ddcIdx)

/-! ## Loads -/

/-- A load of data at an address that was translated, into a register. -/
def loadInto (p : Platform f) (rd : RegIdx) (vaddr addr : BitVec f.xlen) (isUnsigned : Bool)
    (width : WordWidth) : M f Retired := do
  if !width.supported f then throw .matchFailure
  else
    match ← memReadMeta p (.Read .Data) addr width.bytes false with
    | .ok v => writeInt rd (extendValue isUnsigned v.1)
    | .error e => failWithMem vaddr e

/-- **A load of data** (`handle_load_data_via_cap`). -/
def loadDataViaCap (p : Platform f) (rd : RegIdx)
    (place : Capability f × BitVec f.xlen × BitVec 6) (isUnsigned : Bool) (width : WordWidth) :
    M f Retired := do
  let (auth, vaddr, authIdx) := place
  match dataAddrCheck auth true false vaddr width.bytes with
  | some e => failWithCap e authIdx
  | none =>
    if checkMisaligned p vaddr width then failWithMem vaddr .E_Load_Addr_Align
    else
      match ← translateAddr p vaddr (.Read .Data) with
      | .TR_Failure (.E_Extension _) _ => throw .internalError
      | .TR_Failure e _ => failWithMem vaddr e
      | .TR_Address addr _ => loadInto p rd vaddr addr isUnsigned width

def executeLoadDataDDC (core : Core f) (rd rs1 : RegIdx) (isUnsigned : Bool) (width : WordWidth) :
    M f Retired := do
  let s ← get
  loadDataViaCap core.platform rd (ddcAddr s rs1) isUnsigned width

def executeLoadDataCap (core : Core f) (rd cs1 : RegIdx) (isUnsigned : Bool) (width : WordWidth) :
    M f Retired := do
  let s ← get
  loadDataViaCap core.platform rd (capAddr s cs1) isUnsigned width

/-- **A load of a capability** (`handle_load_cap_via_cap` with `load_cap`). -/
def loadCapViaCap (p : Platform f) (cd : RegIdx)
    (place : Capability f × BitVec f.xlen × BitVec 6) : M f Retired := do
  let (auth, vaddr, authIdx) := place
  match dataAddrCheck auth true false vaddr f.capSize with
  | some e => failWithCap e authIdx
  | none =>
    if !isAlignedAddr vaddr f.capSize then failWithMem vaddr .E_Load_Addr_Align
    else
      match ← loadCapNoreg p auth vaddr with
      | none => pure .RETIRE_FAIL
      | some cr => writeCap cd cr

def executeLoadCapDDC (core : Core f) (cd rs1 : RegIdx) : M f Retired := do
  let s ← get
  loadCapViaCap core.platform cd (ddcAddr s rs1)

def executeLoadCapCap (core : Core f) (cd cs1 : RegIdx) : M f Retired := do
  let s ← get
  loadCapViaCap core.platform cd (capAddr s cs1)

def executeLoadCapImm (core : Core f) (cd rs1 : RegIdx) (imm : BitVec 12) : M f Retired := do
  let s ← get
  loadCapViaCap core.platform cd (cheriModeCapAddr s rs1 (imm.signExtend f.xlen))

/-- `caps_per_cache_line`, of 64 bytes. -/
def CapFormat.capsPerLine (f : CapFormat) : ℕ := 64 / f.capSize

/-- The tags of the granules with the numbers `is` from an address on. The
first read that fails decides. -/
def tagsLoop (p : Platform f) (addr : BitVec f.xlen) :
    List ℕ → BitVec f.xlen → M f (Except ExceptionType (BitVec f.xlen))
  | [], tags => pure (.ok tags)
  | i :: rest, tags => do
    match ← memReadCap p (addr + BitVec.ofNat f.xlen (i * f.capSize)) with
    | .error e => pure (.error e)
    | .ok v =>
      tagsLoop p addr rest (if v.tag then tags ||| BitVec.twoPow f.xlen i
        else tags &&& ~~~BitVec.twoPow f.xlen i)

/-- **`CLoadTags`.** -/
def executeCLoadTags (core : Core f) (rd cs1 : RegIdx) : M f Retired := do
  let s ← get
  let cs1Val := s.rC cs1
  let vaddr := cs1Val.address
  let line := f.capsPerLine * f.capSize
  if !cs1Val.tag then failReg (.common .TagViolation) cs1
  else if cs1Val.isCapSealed then failReg (.common .SealViolation) cs1
  else if !cs1Val.permitLoad then failReg (.common .PermitLoadViolation) cs1
  else if !cs1Val.permitLoadCap then failReg .PermitLoadCapViolation cs1
  else if !cs1Val.inCapBounds vaddr line then failReg (.common .LengthViolation) cs1
  else if vaddr.toNat % line ≠ 0 then failWithMem vaddr .E_Load_Addr_Align
  else
    match ← translateAddr core.platform vaddr (.Read .Cap) with
    | .TR_Failure (.E_Extension _) _ => throw .internalError
    | .TR_Failure e _ => failWithMem vaddr e
    | .TR_Address addr ptw =>
      if ptw.lcClear then failWithMem vaddr (.E_Extension .EXC_LOAD_CAP_PAGE_FAULT)
      else
        match ← tagsLoop core.platform addr (List.range f.capsPerLine) 0 with
        | .error e => failWithMem vaddr e
        | .ok v => writeInt rd v

/-! ## Stores -/

/-- A store of data at an address that was translated. -/
def storeAt (p : Platform f) (value : BitVec f.xlen) (vaddr addr : BitVec f.xlen)
    (width : WordWidth) : M f Retired := do
  if !width.supported f then throw .matchFailure
  else
    match ← memWriteValueMeta p addr width.bytes (value.setWidth (8 * width.bytes)) .Data false with
    | .ok () => pure .RETIRE_SUCCESS
    | .error e => failWithMem vaddr e

/-- **A store of data** (`handle_store_value_via_cap`). -/
def storeValueViaCap (p : Platform f) (value : BitVec f.xlen)
    (place : Capability f × BitVec f.xlen × BitVec 6) (width : WordWidth) : M f Retired := do
  let (auth, vaddr, authIdx) := place
  match dataAddrCheck auth false true vaddr width.bytes with
  | some e => failWithCap e authIdx
  | none =>
    if checkMisaligned p vaddr width then failWithMem vaddr .E_SAMO_Addr_Align
    else
      match ← translateAddr p vaddr (.Write .Data) with
      | .TR_Failure (.E_Extension _) _ => throw .internalError
      | .TR_Failure e _ => failWithMem vaddr e
      | .TR_Address addr _ => storeAt p value vaddr addr width

theorem checkMisaligned_word (p : Platform f) (vaddr : BitVec f.xlen) :
    checkMisaligned p vaddr .WORD = wordMisaligned p vaddr := by
  unfold checkMisaligned wordMisaligned
  cases p.enableMisalignedAccess <;> rfl

/-- The checks of a store, each with what it raises. -/
theorem store_checks (auth : Capability f) (vaddr : BitVec f.xlen) (n : ℕ) (authIdx : BitVec 6)
    (x : M f Retired) :
    (match dataAddrCheck auth false true vaddr n with
      | some e => failWithCap e authIdx
      | none => x)
      = if !auth.tag then failWithCap .TagViolation authIdx
        else if auth.isCapSealed then failWithCap .SealViolation authIdx
        else if !auth.permitStore then failWithCap .PermitStoreViolation authIdx
        else if !auth.inCapBounds vaddr n then failWithCap .LengthViolation authIdx
        else x := by
  unfold dataAddrCheck
  cases auth.tag <;> cases auth.isCapSealed <;> cases auth.permitStore <;>
    cases auth.inCapBounds vaddr n <;> rfl

/-- **The store of a word** that the enclave instructions make is the store of
that width. -/
theorem storeWordViaCap_eq (p : Platform f) (hx : 32 ≤ f.xlen) (value : BitVec 32)
    (authIdx : BitVec 6) (auth : Capability f) (vaddr : BitVec f.xlen) :
    storeWordViaCap p value authIdx auth vaddr
      = storeValueViaCap p (value.setWidth f.xlen) (auth, vaddr, authIdx) .WORD := by
  have hvalue : (value.setWidth f.xlen).setWidth 32 = value :=
    (BitVec.setWidth_setWidth_of_le value hx).trans (BitVec.setWidth_eq value)
  have hstore : ∀ addr, storeAt p (value.setWidth f.xlen) vaddr addr .WORD = (do
      match ← memWriteValueMeta p addr 4 value .Data false with
      | .ok () => pure .RETIRE_SUCCESS
      | .error e => failWithMem vaddr e) := by
    intro addr
    unfold storeAt WordWidth.bytes
    dsimp only
    rw [hvalue]
    rfl
  refine Eq.trans ?_ (store_checks auth vaddr 4 authIdx _).symm
  rw [checkMisaligned_word]
  simp only [hstore]
  rfl

def executeStoreDataDDC (core : Core f) (rs2 rs1 : RegIdx) (width : WordWidth) : M f Retired := do
  let s ← get
  storeValueViaCap core.platform (s.rX rs2) (ddcAddr s rs1) width

def executeStoreDataCap (core : Core f) (rs2 cs1 : RegIdx) (width : WordWidth) : M f Retired := do
  let s ← get
  storeValueViaCap core.platform (s.rX rs2) (capAddr s cs1) width

/-- `handle_store_cap_via_cap`. -/
def storeCapViaCap (p : Platform f) (cap : Capability f)
    (place : Capability f × BitVec f.xlen × BitVec 6) : M f Retired :=
  storeCapvalViaCap p cap place.2.2 place.1 place.2.1

def executeStoreCapDDC (core : Core f) (cs2 rs1 : RegIdx) : M f Retired := do
  let s ← get
  storeCapViaCap core.platform (s.rC cs2) (ddcAddr s rs1)

def executeStoreCapCap (core : Core f) (cs2 cs1 : RegIdx) : M f Retired := do
  let s ← get
  storeCapViaCap core.platform (s.rC cs2) (capAddr s cs1)

def executeStoreCapImm (core : Core f) (cs2 rs1 : RegIdx) (imm : BitVec 12) : M f Retired := do
  let s ← get
  storeCapViaCap core.platform (s.rC cs2) (cheriModeCapAddr s rs1 (imm.signExtend f.xlen))

/-! ## The accesses of the base architecture -/

/-- **`LOAD`**, with the checks of `ext_data_get_addr`. -/
def executeLOAD (core : Core f) (imm : BitVec 12) (rs1 rd : RegIdx) (isUnsigned : Bool)
    (width : WordWidth) : M f Retired := do
  let s ← get
  let (auth, vaddr, authIdx) := cheriModeCapAddr s rs1 (imm.signExtend f.xlen)
  match dataAddrCheck auth true false vaddr width.bytes with
  | some e => failWithCap e authIdx
  | none =>
    if checkMisaligned core.platform vaddr width then failWithMem vaddr .E_Load_Addr_Align
    else
      match ← translateAddr core.platform vaddr (.Read .Data) with
      | .TR_Failure e _ => failWithMem vaddr e
      | .TR_Address addr _ => loadInto core.platform rd vaddr addr isUnsigned width

/-- **`STORE`**, with the checks of `ext_data_get_addr`. -/
def executeSTORE (core : Core f) (imm : BitVec 12) (rs2 rs1 : RegIdx) (width : WordWidth) :
    M f Retired := do
  let s ← get
  let (auth, vaddr, authIdx) := cheriModeCapAddr s rs1 (imm.signExtend f.xlen)
  match dataAddrCheck auth false true vaddr width.bytes with
  | some e => failWithCap e authIdx
  | none =>
    if checkMisaligned core.platform vaddr width then failWithMem vaddr .E_SAMO_Addr_Align
    else
      match ← translateAddr core.platform vaddr (.Write .Data) with
      | .TR_Failure e _ => failWithMem vaddr e
      | .TR_Address addr _ => storeAt core.platform (s.rX rs2) vaddr addr width

end Sail
