import CheriTree.Sail.Machine

/-!
# Memory behind its map

An access goes through translation, which is the identity in machine mode,
through the memory protection where the platform enables it, and then to what
the memory map says is there: the timer, the host interface, or physical
memory with one tag for each granule of the size of a capability.

The devices come first: an address in their range never reaches the memory.

A capability write that succeeds changes the bytes and the tag of its granule
and nothing else of the machine but the devices (`memWriteCap_frame`); a read
changes nothing (`memReadMeta_silent`).
-/

namespace Sail

variable {f : CapFormat}

/-! ## The platform -/

/-- What an access moves: data, or a capability with its tag. -/
inductive ExtAccessType where
  | Data
  | Cap
deriving DecidableEq, Repr

inductive AccessType where
  | Read (e : ExtAccessType)
  | Write (e : ExtAccessType)
  | ReadWrite (e e' : ExtAccessType)
  | Execute
deriving DecidableEq, Repr

/-- The exception of an access to nothing. -/
def AccessType.accessFault : AccessType → ExceptionType
  | Execute => .E_Fetch_Access_Fault
  | Read .Data => .E_Load_Access_Fault
  | _ => .E_SAMO_Access_Fault

inductive SATPMode where
  | Sbare
  | Sv32
  | Sv39
  | Sv48
deriving DecidableEq, Repr

/-- What a page says about the tags of loads (`ext_ptw_lc`) and of stores
(`ext_ptw_sc`). -/
structure ExtPtw where
  lcClear : Bool
  scTrap : Bool
deriving DecidableEq, Repr

def initExtPtw : ExtPtw := ⟨false, false⟩

/-- The result of a translation. -/
inductive TRResult (w : ℕ) where
  | TR_Address (addr : BitVec w) (ptw : ExtPtw)
  | TR_Failure (e : ExceptionType) (ptw : ExtPtw)
deriving DecidableEq, Repr

/-- **The platform**: the memory map, what it enables, and what is outside the
model: the page table walk, and the hash of a list of words. -/
structure Platform (f : CapFormat) where
  ramBase : BitVec f.xlen
  ramSize : BitVec f.xlen
  romBase : BitVec f.xlen
  romSize : BitVec f.xlen
  clintBase : BitVec f.xlen
  clintSize : BitVec f.xlen
  htifTohost : BitVec f.xlen
  enablePmp : Bool
  enableMisalignedAccess : Bool
  walk : SATPMode → BitVec f.xlen → AccessType → Privilege → M f (TRResult f.xlen)
  sha256 : List (BitVec 32) → Hash

/-! ## Translation -/

/-- `privLevel_of_bits`. -/
def privLevelOfBits (b : BitVec 2) : Except SailError Privilege :=
  if b = 0b00#2 then .ok .User
  else if b = 0b01#2 then .ok .Supervisor
  else if b = 0b11#2 then .ok .Machine
  else .error .matchFailure

/-- The privilege an access is made with. -/
def effectivePrivilege (s : State f) (t : AccessType) : Except SailError Privilege :=
  if t ≠ .Execute ∧ s.mstatus.MPRV then privLevelOfBits s.mstatus.MPP else .ok s.curPrivilege

/-- `translationMode`, of a 32-bit machine or of a 64-bit one. -/
def translationMode (s : State f) (priv : Privilege) : Except SailError SATPMode :=
  if priv = .Machine then .ok .Sbare
  else if f.xlen = 32 ∨ s.mstatus.SXL = 0b01#2 then
    .ok (if s.satp.getLsbD 31 then .Sv32 else .Sbare)
  else if s.mstatus.SXL = 0b10#2 then
    if s.satp.extractLsb' 60 4 = 0x0#4 then .ok .Sbare
    else if s.satp.extractLsb' 60 4 = 0x8#4 then .ok .Sv39
    else if s.satp.extractLsb' 60 4 = 0x9#4 then .ok .Sv48
    else .error .internalError
  else .error .internalError

/-- **The translation of an address.** -/
def translateAddr (p : Platform f) (vAddr : BitVec f.xlen) (ac : AccessType) :
    M f (TRResult f.xlen) := do
  let s ← get
  let effPriv ← Prog.lift (effectivePrivilege s ac)
  let mode ← Prog.lift (translationMode s effPriv)
  if mode = .Sbare then pure (.TR_Address vAddr initExtPtw)
  else p.walk mode vAddr ac effPriv

/-! ## Memory protection -/

inductive PmpMatch where
  | PMP_Success
  | PMP_Continue
  | PMP_Fail
deriving DecidableEq, Repr

/-- The addresses an entry is about, from the first to past the last. -/
def PmpEntry.addrRange {w : ℕ} (ent : PmpEntry w) (prev : BitVec w) :
    Option (BitVec w × BitVec w) :=
  if ent.A = 0b00#2 then none
  else if ent.A = 0b01#2 then some (prev <<< 2, ent.addr <<< 2)
  else if ent.A = 0b10#2 then some (ent.addr <<< 2, ent.addr <<< 2 + 4)
  else
    let mask := ent.addr ^^^ (ent.addr + 1)
    let lo := ent.addr &&& ~~~mask
    some (lo <<< 2, (lo + (mask + 1)) <<< 2)

def PmpEntry.checkRWX {w : ℕ} (ent : PmpEntry w) : AccessType → Bool
  | .Read _ => ent.R
  | .Write _ => ent.W
  | .ReadWrite _ _ => ent.R && ent.W
  | .Execute => ent.X

/-- `pmpMatchEntry`. -/
def PmpEntry.matchEntry {w : ℕ} (ent : PmpEntry w) (addr width : BitVec w) (acc : AccessType)
    (priv : Privilege) (prev : BitVec w) : PmpMatch :=
  match ent.addrRange prev with
  | none => .PMP_Continue
  | some (lo, hi) =>
    if hi < lo then .PMP_Continue
    else if addr + width < lo ∨ hi < addr then .PMP_Continue
    else if lo ≤ addr ∧ addr + width ≤ hi then
      if priv = .Machine ∧ !ent.L then .PMP_Success
      else if ent.checkRWX acc then .PMP_Success
      else .PMP_Fail
    else .PMP_Fail

/-- The entries in order: the first that matches decides. -/
def pmpEntries {w : ℕ} (addr width : BitVec w) (acc : AccessType) (priv : Privilege) :
    List (PmpEntry w) → BitVec w → Bool
  | [], _ => priv = .Machine
  | ent :: rest, prev =>
    match ent.matchEntry addr width acc priv prev with
    | .PMP_Success => true
    | .PMP_Fail => false
    | .PMP_Continue => pmpEntries addr width acc priv rest ent.addr

/-- **The check of the memory protection.** -/
def pmpCheck (s : State f) (addr : BitVec f.xlen) (n : ℕ) (acc : AccessType) (priv : Privilege) :
    Option ExceptionType :=
  if pmpEntries addr (BitVec.ofNat f.xlen n) acc priv s.pmp 0 then none
  else match acc with
    | .Read _ => some .E_Load_Access_Fault
    | .Write _ => some .E_SAMO_Access_Fault
    | .ReadWrite _ _ => some .E_SAMO_Access_Fault
    | .Execute => some .E_Fetch_Access_Fault

/-! ## The memory map -/

namespace Platform

variable (p : Platform f)

def withinPhysMem (addr : BitVec f.xlen) (n : ℕ) : Bool :=
  (p.ramBase.toNat ≤ addr.toNat && addr.toNat + n ≤ p.ramBase.toNat + p.ramSize.toNat)
    || (p.romBase.toNat ≤ addr.toNat && addr.toNat + n ≤ p.romBase.toNat + p.romSize.toNat)

def withinClint (addr : BitVec f.xlen) (n : ℕ) : Bool :=
  p.clintBase.toNat ≤ addr.toNat && addr.toNat + n ≤ p.clintBase.toNat + p.clintSize.toNat

/-- The port of the host interface, read or written. -/
def withinHtif (addr : BitVec f.xlen) (n : ℕ) : Bool :=
  p.htifTohost = addr || (p.htifTohost + 4 = addr && n = 4)

def withinMmioReadable (addr : BitVec f.xlen) (n : ℕ) : Bool :=
  p.withinClint addr n || (p.withinHtif addr n && 1 ≤ n)

def withinMmioWritable (addr : BitVec f.xlen) (n : ℕ) : Bool :=
  p.withinClint addr n || (p.withinHtif addr n && n ≤ 8)

/-- `clint_load`. -/
def clintLoad (dev : Devices) (t : AccessType) (addr : BitVec f.xlen) (n : ℕ) :
    Except ExceptionType (BitVec (8 * n)) :=
  let addr := addr - p.clintBase
  if addr = 0x00000 ∧ (n = 8 ∨ n = 4) then .ok ((BitVec.ofBool dev.MSI).setWidth (8 * n))
  else if addr = 0x04000 ∧ (n = 4 ∨ n = 8) then .ok (dev.mtimecmp.setWidth (8 * n))
  else if addr = 0x04004 ∧ n = 4 then .ok ((dev.mtimecmp >>> 32).setWidth (8 * n))
  else if addr = 0x0bff8 ∧ (n = 4 ∨ n = 8) then .ok (dev.mtime.setWidth (8 * n))
  else if addr = 0x0bffc ∧ n = 4 then .ok ((dev.mtime >>> 32).setWidth (8 * n))
  else .error t.accessFault

/-- `htif_load`. -/
def htifLoad (dev : Devices) (t : AccessType) (addr : BitVec f.xlen) (n : ℕ) :
    Except ExceptionType (BitVec (8 * n)) :=
  if n = 8 ∧ addr = p.htifTohost then .ok (dev.htifTohost.setWidth (8 * n))
  else if n = 4 ∧ addr = p.htifTohost then .ok (dev.htifTohost.setWidth (8 * n))
  else if n = 4 ∧ addr = p.htifTohost + 4 then .ok ((dev.htifTohost >>> 32).setWidth (8 * n))
  else .error t.accessFault

def mmioRead (dev : Devices) (t : AccessType) (addr : BitVec f.xlen) (n : ℕ) :
    Except ExceptionType (BitVec (8 * n)) :=
  if p.withinClint addr n then p.clintLoad dev t addr n
  else if p.withinHtif addr n && 1 ≤ n then p.htifLoad dev t addr n
  else .error t.accessFault

end Platform

/-- The timer is due. -/
def Devices.clintDispatch (dev : Devices) : Devices :=
  { dev with MTI := dev.mtimecmp ≤ dev.mtime }

/-- A double word with its low or its high half replaced. -/
def replaceLow (old : BitVec 64) (data : BitVec 32) : BitVec 64 := old.extractLsb' 32 32 ++ data

def replaceHigh (old : BitVec 64) (data : BitVec 32) : BitVec 64 := data ++ old.extractLsb' 0 32

namespace Platform

variable (p : Platform f)

/-- `clint_store`. -/
def clintStore (dev : Devices) (addr : BitVec f.xlen) (n : ℕ) (data : BitVec (8 * n)) :
    Except ExceptionType Devices :=
  let addr := addr - p.clintBase
  if addr = 0x00000 ∧ (n = 8 ∨ n = 4) then
    .ok { dev with MSI := data.getLsbD 0 }.clintDispatch
  else if addr = 0x04000 ∧ n = 8 then
    .ok { dev with mtimecmp := data.setWidth 64 }.clintDispatch
  else if addr = 0x04000 ∧ n = 4 then
    .ok { dev with mtimecmp := replaceLow dev.mtimecmp (data.setWidth 32) }.clintDispatch
  else if addr = 0x04004 ∧ n = 4 then
    .ok { dev with mtimecmp := replaceHigh dev.mtimecmp (data.setWidth 32) }.clintDispatch
  else .error .E_SAMO_Access_Fault

/-- `htif_store`: the command is processed at once; a system call that ends the
run is recorded, and a character is printed, which is no part of the state. -/
def htifStore (dev : Devices) (addr : BitVec f.xlen) (n : ℕ) (data : BitVec (8 * n)) : Devices :=
  let tohost : BitVec 64 :=
    if n = 8 then data.setWidth 64
    else if n = 4 ∧ addr = p.htifTohost then replaceLow dev.htifTohost (data.setWidth 32)
    else if n = 4 ∧ addr = p.htifTohost + 4 then replaceHigh dev.htifTohost (data.setWidth 32)
    else data.setWidth 64
  if tohost.extractLsb' 56 8 = 0x00#8 ∧ tohost.getLsbD 0 then
    { dev with
      htifTohost := tohost
      htifDone := true
      htifExitCode := (tohost.extractLsb' 0 48).setWidth 64 >>> 1 }
  else { dev with htifTohost := tohost }

def mmioWrite (dev : Devices) (addr : BitVec f.xlen) (n : ℕ) (data : BitVec (8 * n)) :
    Except ExceptionType Devices :=
  if p.withinClint addr n then p.clintStore dev addr n data
  else if p.withinHtif addr n && n ≤ 8 then .ok (p.htifStore dev addr n data)
  else .error .E_SAMO_Access_Fault

end Platform

/-! ## Physical memory -/

/-- The bytes at an address as a number, the first one lowest. -/
def bytesToNat (mem : ℕ → BitVec 8) (addr : ℕ) : ℕ → ℕ
  | 0 => 0
  | n + 1 => (mem addr).toNat + 256 * bytesToNat mem (addr + 1) n

def readMem (mem : ℕ → BitVec 8) (addr n : ℕ) : BitVec (8 * n) :=
  BitVec.ofNat (8 * n) (bytesToNat mem addr n)

def writeMem (mem : ℕ → BitVec 8) (addr n : ℕ) (data : BitVec (8 * n)) : ℕ → BitVec 8 :=
  fun j => if addr ≤ j ∧ j < addr + n then data.extractLsb' (8 * (j - addr)) 8 else mem j

/-- The granule of an address (`addr_to_tag_addr`). -/
def tagAddr (addr : BitVec f.xlen) : ℕ := addr.toNat / f.capSize

/-- `__WriteRAM_Meta`: the tags of the granules of the first and of the last
byte. -/
def writeTags (tags : ℕ → Bool) (addr : BitVec f.xlen) (n : ℕ) (tag : Bool) : ℕ → Bool :=
  Function.update (Function.update tags (tagAddr addr) tag)
    (tagAddr (addr + BitVec.ofNat f.xlen (n - 1))) tag

/-- `write_ram`. -/
def State.writeRam (s : State f) (addr : BitVec f.xlen) (n : ℕ) (data : BitVec (8 * n))
    (tag : Bool) : State f :=
  { s with
    mem := writeMem s.mem addr.toNat n data
    tags := writeTags s.tags addr n tag }

/-- **A read through the map** (`checked_mem_read`), with the tag where asked
for. -/
def checkedMemRead (p : Platform f) (s : State f) (t : AccessType) (addr : BitVec f.xlen) (n : ℕ)
    (readMeta : Bool) : Except ExceptionType (BitVec (8 * n) × Bool) :=
  if p.withinMmioReadable addr n then (p.mmioRead s.dev t addr n).map fun v => (v, false)
  else if p.withinPhysMem addr n then
    .ok (readMem s.mem addr.toNat n, readMeta && s.tags (tagAddr addr))
  else .error t.accessFault

/-- **A write through the map** (`checked_mem_write`). -/
def checkedMemWrite (p : Platform f) (s : State f) (addr : BitVec f.xlen) (n : ℕ)
    (data : BitVec (8 * n)) (tag : Bool) : Except ExceptionType (State f) :=
  if p.withinMmioWritable addr n then
    (p.mmioWrite s.dev addr n data).map fun dev => { s with dev := dev }
  else if p.withinPhysMem addr n then .ok (s.writeRam addr n data tag)
  else .error .E_SAMO_Access_Fault

/-- The memory protection in front of an access, where enabled. -/
def pmpGuard (p : Platform f) (acc : AccessType) (addr : BitVec f.xlen) (n : ℕ) :
    M f (Option ExceptionType) := do
  let s ← get
  if p.enablePmp then
    let priv ← Prog.lift (effectivePrivilege s acc)
    pure (pmpCheck s addr n acc priv)
  else pure none

/-- A plain read (`mem_read_meta` with no ordering). -/
def memReadMeta (p : Platform f) (t : AccessType) (addr : BitVec f.xlen) (n : ℕ)
    (readMeta : Bool) : M f (Except ExceptionType (BitVec (8 * n) × Bool)) := do
  match ← pmpGuard p t addr n with
  | some e => pure (.error e)
  | none => do
    let s ← get
    pure (checkedMemRead p s t addr n readMeta)

/-- A plain write (`mem_write_value_meta` with no ordering). -/
def memWriteValueMeta (p : Platform f) (addr : BitVec f.xlen) (n : ℕ) (data : BitVec (8 * n))
    (extAcc : ExtAccessType) (tag : Bool) : M f (Except ExceptionType Unit) := do
  match ← pmpGuard p (.Write extAcc) addr n with
  | some e => pure (.error e)
  | none => do
    let s ← get
    match checkedMemWrite p s addr n data tag with
    | .ok s' => do
      set s'
      pure (.ok ())
    | .error e => pure (.error e)

/-- `mem_read_cap`. -/
def memReadCap (p : Platform f) (addr : BitVec f.xlen) :
    M f (Except ExceptionType (Capability f)) := do
  let result ← memReadMeta p (.Read .Data) addr f.capSize true
  pure (result.map fun v => .memBitsToCapability v.2 v.1)

/-- `mem_write_cap`: the capability must survive its encoding. -/
def memWriteCap (p : Platform f) (addr : BitVec f.xlen) (cap : Capability f) :
    M f (Except ExceptionType Unit) := do
  assert (Capability.memBitsToCapability cap.tag cap.capToMemBits = cap)
  memWriteValueMeta p addr f.capSize cap.capToMemBits .Cap cap.tag

def isAlignedAddr (addr : BitVec f.xlen) (n : ℕ) : Bool := addr.toNat % n = 0

/-! ## Accesses through a capability -/

/-- An access that fails by a memory exception. -/
def noneWith {α : Type} (vaddr : BitVec f.xlen) (e : ExceptionType) : M f (Option α) := do
  handleMemException vaddr e
  pure none

/-- **A capability load that writes no register** (`load_cap_noreg`). -/
def loadCapNoreg (p : Platform f) (auth : Capability f) (vaddr : BitVec f.xlen) :
    M f (Option (Capability f)) := do
  match ← translateAddr p vaddr (.Read .Cap) with
  | .TR_Failure (.E_Extension _) _ => throw .internalError
  | .TR_Failure e _ => noneWith vaddr e
  | .TR_Address addr ptw =>
    match ← memReadCap p addr with
    | .ok v => pure (some { v with tag := !ptw.lcClear && v.tag && auth.permitLoadCap })
    | .error e => noneWith vaddr e

/-- A word is not aligned, on a platform that minds. -/
def wordMisaligned (p : Platform f) (vaddr : BitVec f.xlen) : Bool :=
  !p.enableMisalignedAccess && (vaddr.getLsbD 0 || vaddr.getLsbD 1)

/-- A load that fails by a capability exception. -/
def noneWithCap {α : Type} (e : CapEx) (reg : BitVec 6) : M f (Option α) := do
  handleCheriCapException e reg
  pure none

/-- **A load of an unsigned word that writes no register**
(`handle_load_data_via_cap_noreg`, at the width the hash reads). -/
def loadWordNoreg (p : Platform f) (authIdx : BitVec 6) (auth : Capability f)
    (vaddr : BitVec f.xlen) : M f (Option (BitVec 32)) := do
  if !auth.tag then noneWithCap .TagViolation authIdx
  else if auth.isCapSealed then noneWithCap .SealViolation authIdx
  else if !auth.permitLoad then noneWithCap .PermitLoadViolation authIdx
  else if !auth.inCapBounds vaddr 4 then noneWithCap .LengthViolation authIdx
  else if wordMisaligned p vaddr then noneWith vaddr .E_Load_Addr_Align
  else
    match ← translateAddr p vaddr (.Read .Data) with
    | .TR_Failure (.E_Extension _) _ => throw .internalError
    | .TR_Failure e _ => noneWith vaddr e
    | .TR_Address addr _ =>
      match ← memReadMeta p (.Read .Data) addr 4 false with
      | .ok v => pure (some v.1)
      | .error e => noneWith vaddr e

/-- A store that fails by a capability or by a memory exception. -/
def failWithCap (e : CapEx) (reg : BitVec 6) : M f Retired := do
  handleCheriCapException e reg
  pure .RETIRE_FAIL

def failWithMem (vaddr : BitVec f.xlen) (e : ExceptionType) : M f Retired := do
  handleMemException vaddr e
  pure .RETIRE_FAIL

/-- **A capability store** (`handle_store_capval_via_cap`). -/
def storeCapvalViaCap (p : Platform f) (cap : Capability f) (authIdx : BitVec 6)
    (auth : Capability f) (vaddr : BitVec f.xlen) : M f Retired := do
  if !auth.tag then failWithCap .TagViolation authIdx
  else if auth.isCapSealed then failWithCap .SealViolation authIdx
  else if !auth.permitStore then failWithCap .PermitStoreViolation authIdx
  else if !auth.permitStoreCap && cap.tag then failWithCap .PermitStoreCapViolation authIdx
  else if !auth.permitStoreLocalCap && cap.tag && !cap.global then
    failWithCap .PermitStoreLocalCapViolation authIdx
  else if !auth.inCapBounds vaddr f.capSize then failWithCap .LengthViolation authIdx
  else if !isAlignedAddr vaddr f.capSize then failWithMem vaddr .E_SAMO_Addr_Align
  else
    match ← translateAddr p vaddr (.Write (if cap.tag then .Cap else .Data)) with
    | .TR_Failure e _ => failWithMem vaddr e
    | .TR_Address addr _ =>
      -- the announcement of the address checks the alignment again
      if !isAlignedAddr addr f.capSize then failWithMem vaddr .E_SAMO_Addr_Align
      else
        match ← memWriteCap p addr cap with
        | .ok () => pure .RETIRE_SUCCESS
        | .error e => failWithMem vaddr e

/-! ## What an access changes -/

section Frame

variable {p : Platform f} {s s' : State f}

theorem readMem_congr {mem mem' : ℕ → BitVec 8} {addr n : ℕ}
    (h : ∀ j, addr ≤ j → j < addr + n → mem j = mem' j) :
    readMem mem addr n = readMem mem' addr n := by
  rw [readMem, readMem]
  congr 1
  induction n generalizing addr with
  | zero => rfl
  | succ n ih =>
    rw [bytesToNat, bytesToNat, h addr (le_refl _) (by omega),
      ih fun j hlo hhi => h j (by omega) (by omega)]

theorem silent_pmpGuard (acc : AccessType) (addr : BitVec f.xlen) (n : ℕ) :
    Prog.Silent (pmpGuard p acc addr n) :=
  Prog.silent_get.bind fun _ => .ite
    ((Prog.silent_lift _).bind fun _ => Prog.silent_pure _) (Prog.silent_pure _)

/-- **A read changes nothing.** -/
theorem silent_memReadMeta (t : AccessType) (addr : BitVec f.xlen) (n : ℕ) (readMeta : Bool) :
    Prog.Silent (memReadMeta p t addr n readMeta) := by
  refine (silent_pmpGuard t addr n).bind fun check => ?_
  cases check with
  | none => exact Prog.silent_get.bind fun _ => Prog.silent_pure _
  | some e => exact Prog.silent_pure _

/-- A read that gives something gives what the map has there. -/
theorem memReadMeta_ok {t : AccessType} {addr : BitVec f.xlen} {n : ℕ} {readMeta : Bool}
    {v : BitVec (8 * n) × Bool} (h : memReadMeta p t addr n readMeta s = .ok (.ok v, s')) :
    checkedMemRead p s t addr n readMeta = .ok v := by
  obtain ⟨check, u, hcheck, h⟩ := Prog.bind_eq_ok.1 h
  obtain rfl := silent_pmpGuard _ _ _ _ _ _ hcheck
  cases check with
  | some e => exact absurd (Prog.pure_eq_ok.1 h).1 (by simp)
  | none =>
    obtain ⟨a, t, hget, h⟩ := Prog.bind_eq_ok.1 h
    obtain ⟨rfl, rfl⟩ := Prog.get_eq_ok.1 hget
    exact (Prog.pure_eq_ok.1 h).1

/-- The capability of a granule of physical memory: its bytes and its tag. -/
def State.capAt (s : State f) (addr : BitVec f.xlen) : Capability f :=
  .memBitsToCapability (s.tags (tagAddr addr)) (readMem s.mem addr.toNat f.capSize)

/-- **A device answers a load of a capability** at the address, in place of the
memory. The devices answer loads of at most eight bytes. -/
def Platform.AnswersCap (p : Platform f) (addr : BitVec f.xlen) : Prop :=
  p.withinMmioReadable addr f.capSize = true
    ∧ ∃ dev v, p.mmioRead dev (.Read .Data) addr f.capSize = .ok v

theorem Platform.not_answersCap_of_map {addr : BitVec f.xlen}
    (h : p.withinMmioReadable addr f.capSize = false) : ¬ p.AnswersCap addr :=
  fun hdev => Bool.false_ne_true (h.symm.trans hdev.1)

/-- No device answers a load of sixteen bytes. -/
theorem Platform.not_answersCap_of_capSize (hsize : 8 < f.capSize) (addr : BitVec f.xlen) :
    ¬ p.AnswersCap addr := by
  rintro ⟨-, dev, v, h⟩
  have h4 : f.capSize ≠ 4 := by omega
  have h8 : f.capSize ≠ 8 := by omega
  unfold mmioRead at h
  split at h
  · simp [clintLoad, h4, h8] at h
  · split at h
    · simp [htifLoad, h4, h8] at h
    · cases h

/-- A capability that is read is the one of the granule, where no device
answers. -/
theorem memReadCap_ok {addr : BitVec f.xlen} {c : Capability f} (hmap : ¬ p.AnswersCap addr)
    (h : memReadCap p addr s = .ok (.ok c, s')) : c = s.capAt addr ∧ s' = s := by
  rw [memReadCap, Prog.bind_eq_ok] at h
  obtain ⟨result, u, hread, h⟩ := h
  obtain ⟨hc, rfl⟩ := Prog.pure_eq_ok.1 h
  obtain rfl := silent_memReadMeta _ _ _ _ _ _ _ hread
  refine ⟨?_, rfl⟩
  cases result with
  | error e => cases hc
  | ok v =>
    have hv := memReadMeta_ok hread
    rw [checkedMemRead] at hv
    split at hv
    · rename_i hin
      cases hdev : p.mmioRead u.dev (.Read .Data) addr f.capSize with
      | error e =>
        rw [hdev] at hv
        cases hv
      | ok w => exact absurd ⟨hin, _, _, hdev⟩ hmap
    · split at hv
      · obtain rfl := Except.ok.inj hv
        exact (Except.ok.inj hc).symm
      · cases hv

/-- **No access of a state is translated**: its privilege is the machine's, or
translation is off. -/
def State.Untranslated (s : State f) : Prop :=
  ∀ t : AccessType, ∃ priv, effectivePrivilege s t = .ok priv
    ∧ translationMode s priv = .ok .Sbare

/-- In machine mode no access is translated. -/
theorem untranslated_of_machine (hpriv : s.curPrivilege = .Machine)
    (hmprv : s.mstatus.MPRV = false) : s.Untranslated := by
  intro t
  refine ⟨.Machine, ?_, if_pos rfl⟩
  rw [effectivePrivilege, hmprv, hpriv]
  exact if_neg (by simp)

/-- Then the translation is the identity. -/
theorem State.Untranslated.translateAddr (h : s.Untranslated) (p : Platform f) (a : BitVec f.xlen)
    (t : AccessType) : Sail.translateAddr p a t s = .ok (.TR_Address a initExtPtw, s) := by
  obtain ⟨priv, hpriv, hmode⟩ := h t
  refine Prog.bind_eq_ok.2 ⟨s, s, Prog.get_eq_ok.2 ⟨rfl, rfl⟩, ?_⟩
  refine Prog.bind_eq_ok.2 ⟨priv, s, Prog.lift_eq_ok.2 ⟨hpriv, rfl⟩, ?_⟩
  refine Prog.bind_eq_ok.2 ⟨.Sbare, s, Prog.lift_eq_ok.2 ⟨hmode, rfl⟩, ?_⟩
  rw [if_pos rfl]
  exact Prog.pure_eq_ok.2 ⟨rfl, rfl⟩

/-- A translation that is off gives the address back. -/
theorem State.Untranslated.eq_of_ok (h : s.Untranslated) {a : BitVec f.xlen} {t : AccessType}
    {r : TRResult f.xlen} (hr : Sail.translateAddr p a t s = .ok (r, s')) :
    .TR_Address a initExtPtw = r ∧ s = s' := by
  have heq := (h.translateAddr p a t).symm.trans hr
  simpa using heq

theorem noneWith_ne_some {α : Type} {vaddr : BitVec f.xlen} {e : ExceptionType} {a : α} :
    (noneWith vaddr e : M f (Option α)) s ≠ .ok (some a, s') := by
  intro h
  obtain ⟨u, t, -, h⟩ := Prog.bind_eq_ok.1 h
  exact absurd (Prog.pure_eq_ok.1 h).1 (by simp)

theorem noneWithCap_ne_some {α : Type} {e : CapEx} {reg : BitVec 6} {a : α} :
    (noneWithCap e reg : M f (Option α)) s ≠ .ok (some a, s') := by
  intro h
  obtain ⟨u, t, -, h⟩ := Prog.bind_eq_ok.1 h
  exact absurd (Prog.pure_eq_ok.1 h).1 (by simp)

theorem failWithCap_ne_success {e : CapEx} {reg : BitVec 6} :
    (failWithCap e reg : M f Retired) s ≠ .ok (.RETIRE_SUCCESS, s') := by
  intro h
  obtain ⟨u, t, -, h⟩ := Prog.bind_eq_ok.1 h
  exact absurd (Prog.pure_eq_ok.1 h).1 (by decide)

theorem failWithMem_ne_success {vaddr : BitVec f.xlen} {e : ExceptionType} :
    (failWithMem vaddr e : M f Retired) s ≠ .ok (.RETIRE_SUCCESS, s') := by
  intro h
  obtain ⟨u, t, -, h⟩ := Prog.bind_eq_ok.1 h
  exact absurd (Prog.pure_eq_ok.1 h).1 (by decide)

/-- **A capability load with no translation** gives the capability of the
granule, its tag kept where the authority may load capabilities. -/
theorem loadCapNoreg_ok {auth c : Capability f} {addr : BitVec f.xlen} (ht : s.Untranslated)
    (hmap : ¬ p.AnswersCap addr) (h : loadCapNoreg p auth addr s = .ok (some c, s')) :
    c = { s.capAt addr with tag := (s.capAt addr).tag && auth.permitLoadCap } ∧ s' = s := by
  obtain ⟨r, u, htr, h⟩ := Prog.bind_eq_ok.1 h
  obtain ⟨rfl, rfl⟩ := ht.eq_of_ok htr
  obtain ⟨r, u, hread, h⟩ := Prog.bind_eq_ok.1 h
  cases r with
  | error e => exact absurd h noneWith_ne_some
  | ok v =>
    obtain ⟨rfl, rfl⟩ := memReadCap_ok hmap hread
    obtain ⟨hc, rfl⟩ := Prog.pure_eq_ok.1 h
    refine ⟨?_, rfl⟩
    rw [← Option.some.inj hc]
    rfl

/-- A load of a capability that gives one changes nothing. -/
theorem loadCapNoreg_silent {auth c : Capability f} {addr : BitVec f.xlen} (ht : s.Untranslated)
    (h : loadCapNoreg p auth addr s = .ok (some c, s')) : s' = s := by
  obtain ⟨r, u, htr, h⟩ := Prog.bind_eq_ok.1 h
  obtain ⟨rfl, rfl⟩ := ht.eq_of_ok htr
  obtain ⟨r, u, hread, h⟩ := Prog.bind_eq_ok.1 h
  cases r with
  | error e => exact absurd h noneWith_ne_some
  | ok v =>
    obtain ⟨-, rfl⟩ := Prog.pure_eq_ok.1 h
    exact ((silent_memReadMeta _ _ _ _).bind fun _ => Prog.silent_pure _) _ _ _ hread

/-- A load of a word that gives one changes nothing. -/
theorem loadWordNoreg_silent {authIdx : BitVec 6} {auth : Capability f} {addr : BitVec f.xlen}
    {v : BitVec 32} (ht : s.Untranslated)
    (h : loadWordNoreg p authIdx auth addr s = .ok (some v, s')) : s' = s := by
  unfold loadWordNoreg at h
  simp only [Prog.ite_eq_ok, noneWithCap_ne_some, noneWith_ne_some, and_false, false_or] at h
  obtain ⟨-, -, -, -, -, h⟩ := h
  obtain ⟨r, u, htr, h⟩ := Prog.bind_eq_ok.1 h
  obtain ⟨rfl, rfl⟩ := ht.eq_of_ok htr
  obtain ⟨r, u, hread, h⟩ := Prog.bind_eq_ok.1 h
  cases r with
  | error e => exact absurd h noneWith_ne_some
  | ok v =>
    obtain ⟨-, rfl⟩ := Prog.pure_eq_ok.1 h
    exact silent_memReadMeta _ _ _ _ _ _ _ hread

/-- **A state that differs from another in one granule** of memory, and in the
devices, at most. -/
structure State.SameOutside (s s' : State f) (addr : BitVec f.xlen) : Prop where
  rest : s' = { s with mem := s'.mem, tags := s'.tags, dev := s'.dev }
  mem : ∀ j, ¬ (addr.toNat ≤ j ∧ j < addr.toNat + f.capSize) → s'.mem j = s.mem j
  tags : ∀ g, g ≠ tagAddr addr → s'.tags g = s.tags g

theorem State.SameOutside.x {addr : BitVec f.xlen} (h : s.SameOutside s' addr) : s'.x = s.x :=
  (congrArg State.x h.rest :)

theorem State.SameOutside.scr {addr : BitVec f.xlen} (h : s.SameOutside s' addr) :
    s'.scr = s.scr :=
  (congrArg State.scr h.rest :)

theorem State.SameOutside.misa {addr : BitVec f.xlen} (h : s.SameOutside s' addr) :
    s'.misa = s.misa :=
  (congrArg State.misa h.rest :)

/-- The last byte of an aligned granule is in it. -/
theorem tagAddr_last {addr : BitVec f.xlen} (hal : addr.toNat % f.capSize = 0) :
    tagAddr (addr + BitVec.ofNat f.xlen (f.capSize - 1)) = tagAddr addr := by
  have hpos := f.capSize_pos
  have hfit := f.add_capSize_le addr.isLt hal
  obtain ⟨q, hq⟩ := Nat.dvd_of_mod_eq_zero hal
  rw [tagAddr, tagAddr, BitVec.toNat_add, BitVec.toNat_ofNat,
    Nat.mod_eq_of_lt (a := f.capSize - 1) (by omega), Nat.mod_eq_of_lt (by omega), hq,
    Nat.mul_add_div hpos, Nat.mul_div_cancel_left _ hpos, Nat.div_eq_of_lt (by omega), add_zero]

theorem checkedMemWrite_frame {addr : BitVec f.xlen} {data : BitVec (8 * f.capSize)} {tag : Bool}
    (hal : addr.toNat % f.capSize = 0)
    (h : checkedMemWrite p s addr f.capSize data tag = .ok s') : s.SameOutside s' addr := by
  unfold checkedMemWrite at h
  split at h
  · cases hdev : p.mmioWrite s.dev addr f.capSize data with
    | error e =>
      rw [hdev] at h
      cases h
    | ok dev =>
      rw [hdev] at h
      obtain rfl := Except.ok.inj h
      exact ⟨rfl, fun _ _ => rfl, fun _ _ => rfl⟩
  · split at h
    · obtain rfl := Except.ok.inj h
      refine ⟨rfl, fun j hj => if_neg hj, fun g hg => ?_⟩
      show writeTags s.tags addr f.capSize tag g = s.tags g
      rw [writeTags, tagAddr_last hal, Function.update_of_ne hg, Function.update_of_ne hg]
    · cases h

theorem memWriteValueMeta_ok {addr : BitVec f.xlen} {n : ℕ} {data : BitVec (8 * n)}
    {extAcc : ExtAccessType} {tag : Bool}
    (h : memWriteValueMeta p addr n data extAcc tag s = .ok (.ok (), s')) :
    checkedMemWrite p s addr n data tag = .ok s' := by
  obtain ⟨check, u, hcheck, h⟩ := Prog.bind_eq_ok.1 h
  obtain rfl := silent_pmpGuard _ _ _ _ _ _ hcheck
  cases check with
  | some e => exact absurd (Prog.pure_eq_ok.1 h).1 (by simp)
  | none =>
    obtain ⟨a, t, hget, h⟩ := Prog.bind_eq_ok.1 h
    obtain ⟨rfl, rfl⟩ := Prog.get_eq_ok.1 hget
    revert h
    cases checkedMemWrite p u addr n data tag with
    | error e => exact fun h => absurd (Prog.pure_eq_ok.1 h).1 (by simp)
    | ok s'' =>
      intro h
      obtain ⟨u', t', hset, h⟩ := Prog.bind_eq_ok.1 h
      obtain ⟨-, rfl⟩ := Prog.pure_eq_ok.1 h
      exact congrArg Except.ok (Prog.set_eq_ok.1 hset)

/-- **A capability write that succeeds changes its granule only.** -/
theorem memWriteCap_frame {addr : BitVec f.xlen} {c : Capability f}
    (hal : addr.toNat % f.capSize = 0) (h : memWriteCap p addr c s = .ok (.ok (), s')) :
    s.SameOutside s' addr := by
  obtain ⟨u, t, hassert, hwrite⟩ := Prog.bind_eq_ok.1 h
  obtain rfl := Prog.Silent.ite (Prog.silent_pure _) (Prog.silent_throw _) _ _ _ hassert
  exact checkedMemWrite_frame hal (memWriteValueMeta_ok hwrite)

/-- **A capability store that succeeds** was to an aligned granule inside the
bounds of its authority, and changed that granule only. -/
theorem storeCapvalViaCap_ok {c auth : Capability f} {authIdx : BitVec 6} {vaddr : BitVec f.xlen}
    (ht : s.Untranslated)
    (h : storeCapvalViaCap p c authIdx auth vaddr s = .ok (.RETIRE_SUCCESS, s')) :
    auth.inCapBounds vaddr f.capSize = true ∧ vaddr.toNat % f.capSize = 0
      ∧ s.SameOutside s' vaddr := by
  unfold storeCapvalViaCap at h
  simp only [Prog.ite_eq_ok, failWithCap_ne_success, failWithMem_ne_success, and_false,
    false_or] at h
  obtain ⟨-, -, -, -, -, hbounds, hal, h⟩ := h
  obtain ⟨r, u, htr, h⟩ := Prog.bind_eq_ok.1 h
  obtain ⟨rfl, rfl⟩ := ht.eq_of_ok htr
  simp only [Prog.ite_eq_ok, failWithMem_ne_success, and_false, false_or] at h
  obtain ⟨-, h⟩ := h
  obtain ⟨r, u, hwrite, h⟩ := Prog.bind_eq_ok.1 h
  have hal' : vaddr.toNat % f.capSize = 0 := by simpa [isAlignedAddr] using hal
  cases r with
  | error e => exact absurd h failWithMem_ne_success
  | ok v =>
    obtain ⟨-, rfl⟩ := Prog.pure_eq_ok.1 h
    exact ⟨by simpa using hbounds, hal', memWriteCap_frame hal' hwrite⟩

end Frame

end Sail
