import CheriTree.SyncMachine
import CheriTree.Trapping
import CheriTree.Proteus.TaggedMemory
import CheriTree.Proteus.EnclaveInit
import CheriTree.Proteus.Access
import CheriTree.Proteus.Sealing

/-!
# The runtime of the user enclave

The program text of `enclave_entry.S`, as `user_enclave.S` includes it,
routine by routine: the dispatch of an entry on `a7`, the initialisation, the
invocation of another enclave, the entry by which that one returns, and the
two entry points of the user enclave. Registers are the local names of the
text; what stays between two entries is the memory.

An instruction that traps ends the entry, and what was stored before it stays
stored. Between two entries the memory is the adversary's, who brings it back
changed with the next entry.

Two fields of the state are no memory of the machine: who saved the stack
pointer last, and the log of the return capabilities stored and jumped to.
They record what the program does and are never read by it.
-/

namespace Proteus

/-! ## Layout -/

/-- Bytes of a capability (`CAP_LEN`). -/
def CAP_LEN : ℕ := 16

/-- The bits of a register (`__riscv_xlen`). -/
def riscvXlen : ℕ := 32

/-- Two capabilities, the 31 capability registers and the 31 registers. -/
def TRAP_DATA_LEN : ℕ := 2 * CAP_LEN + 31 * CAP_LEN + 31 * 4

def DATA_OFFSET_CODE_CAP : ℕ := 1 * CAP_LEN + TRAP_DATA_LEN

def DATA_OFFSET_DATA_CAP : ℕ := 2 * CAP_LEN + TRAP_DATA_LEN

def DATA_OFFSET_CSP : ℕ := 3 * CAP_LEN + TRAP_DATA_LEN

def DATA_OFFSET_ENCLAVE : ℕ := 4 * CAP_LEN + TRAP_DATA_LEN

/-- The data of the user enclave: four capabilities of the sensor, one for the
buffer, and an id. -/
def ENCLAVE_DATA_SIZE : ℕ := 5 * CAP_LEN + 32

def DATA_OFFSET_SENSOR_CODE : ℕ := 0 * CAP_LEN

def DATA_OFFSET_SENSOR_DATA : ℕ := 1 * CAP_LEN

def DATA_OFFSET_SENSOR_ENC : ℕ := 2 * CAP_LEN

def DATA_OFFSET_SENSOR_SIGN : ℕ := 3 * CAP_LEN

def DATA_OFFSET_ARGS : ℕ := 4 * CAP_LEN

def DATA_OFFSET_BUF : ℕ := 6 * CAP_LEN

/-- The size of the argument buffer: a seal, and room for a nonce and a result. -/
def ARGS_LEN : ℕ := CAP_LEN + 2 * riscvXlen

/-- The end of the argument buffer, which the sensor may write. It is past the
end of the data of the user enclave. -/
def ARGS_END : ℕ := DATA_OFFSET_ENCLAVE + DATA_OFFSET_ARGS + ARGS_LEN

/-- What `enclave_init` takes for the size of the static data. It leaves the
trap data out, so the stack it makes starts inside the static data. -/
def STATIC_LEN : ℕ := 4 * CAP_LEN + ENCLAVE_DATA_SIZE

/-! ## The state -/

/-- The routines that save the stack pointer. -/
inductive CspSaver where
  | init
  | invoke
  | return
deriving DecidableEq, Repr

/-- What happens to return capabilities. -/
inductive ReturnEvent where
  /-- `enclave_invoke` pushes a return capability. -/
  | stored (cap : Capability)
  /-- `enclave_return_entry` jumps to a capability. -/
  | jumped (cap : Capability)
deriving DecidableEq, Repr

/-- **What stays between two entries**, with the record of what the program
did. -/
structure RuntimeState where
  mem : TaggedMemory
  savedBy : Option CspSaver
  log : List ReturnEvent

/-- **A user enclave**: its two sections, as an entry finds them in PCC and
`c31`, and the places of its code that the text names. -/
structure UserEnclave where
  cfg : MemConfig
  pcc : Capability
  c31 : Capability
  enclaveEntriesStart : Word
  sensorIdStart : Word
  /-- The label in `use_sensor` the sensor returns to. -/
  useSensorReturn : Word
  offset_eq_zero : c31.offset = 0
  memoryStart_le : cfg.memoryStart ≤ c31.base.toNat
  le_memoryEnd : c31.base.toNat + c31.length.toNat ≤ cfg.memoryStart + cfg.numTags * capBytes
  top_lt : c31.base.toNat + max c31.length.toNat ARGS_END + capBytes < 2 ^ 32

/-- **An entry**: what the adversary does to the memory before it, the
registers it passes, the identity store and the devices of the machine, and
what becomes of an entry that jumps to code outside the table of entries. -/
structure EntryInput (w : ℕ) where
  interfere : TaggedMemory → TaggedMemory
  a7 : Word
  ca0 : Capability
  ca1 : Capability
  cra : Capability
  store : IdentityStore w
  device : Word → Word
  wild : RuntimeState

/-- How an entry ends, with what it passes on. -/
inductive EntryOutcome where
  /-- `enclave_exit` jumps to `cra`. -/
  | exited (ca0 ca1 target : Capability)
  /-- `enclave_invoke` enters another enclave. -/
  | invoked (pcc c31 ca0 cra cs0 : Capability)
  /-- `enclave_return_entry` jumps to a capability that is not the label in
  `use_sensor`. -/
  | jumpedTo (target : Capability)
  /-- A jump to code outside the table of entries. -/
  | wild
deriving DecidableEq, Repr

/-- How an entry stops on its way: a trap, whose cause is the trap handler's
business, or a request to the identity store that is never answered. -/
inductive EntryStop where
  | trap
  | hang
deriving DecidableEq, Repr

/-- A piece of the program. -/
abbrev Runtime := Trapping RuntimeState EntryStop

namespace UserEnclave

variable {w : ℕ} (x : UserEnclave) (i : EntryInput w)

/-! ## Instructions -/

/-- An instruction that gives a value or traps. -/
def orTrap {ε α : Type} (v : Except ε α) : Runtime α :=
  Trapping.lift (v.mapError fun _ => .trap)

/-- A check that traps unless it raises nothing. -/
def trapIf (p : Prop) [Decidable p] : Runtime Unit :=
  Trapping.lift (if p then .error .trap else .ok ())

/-- `LC_CAP`. -/
def lcCap (cs1 : Capability) : Runtime Capability := do
  trapIf (CapCheck.check cs1 cs1.address .load capByteWidth ≠ none)
  Trapping.read (fun s => s.mem.loadCap x.cfg i.device cs1.address)

/-- `SC_CAP`. -/
def scCap (cs2 cs1 : Capability) : Runtime Unit := do
  trapIf (CapCheck.check cs1 cs1.address .store capByteWidth ≠ none)
  Trapping.update (fun s => { s with mem := s.mem.storeCap x.cfg cs1.address cs2 })

/-- `LW_CAP`. -/
def lwCap (cs1 : Capability) : Runtime Word := do
  trapIf (CapCheck.check cs1 cs1.address .load LsuAccessWidth.W.byteWidth ≠ none)
  trapIf (cs1.address.toNat % 4 ≠ 0)
  Trapping.read (fun s => s.mem.readWord x.cfg i.device cs1.address)

/-- `SW_CAP`. -/
def swCap (rs2 : Word) (cs1 : Capability) : Runtime Unit := do
  trapIf (CapCheck.check cs1 cs1.address .store LsuAccessWidth.W.byteWidth ≠ none)
  trapIf (cs1.address.toNat % 4 ≠ 0)
  Trapping.update (fun s => { s with mem := s.mem.storeWord x.cfg cs1.address rs2 })

/-- `CSetOffset`. -/
def cSetOffset (cs : Capability) (offset : Word) : Capability := { cs with offset := offset }

/-- `CIncOffsetImm`. -/
def cIncOffset (cs : Capability) (imm : Word) : Capability :=
  { cs with offset := cs.offset + imm }

/-- An instruction of the `CMODIFY` group that checks something. -/
def modify (op : Modification) (cs : Capability) (rhs : Word) : Runtime Capability :=
  orTrap (op.apply cs rhs)

/-- The words of a digest, the first one first. -/
def digestWord (hash : Digest) (k : ℕ) : Word := hash.extractLsb' (32 * (7 - k)) 32

/-- `EStoreId`: the digest of the enclave an object type belongs to goes where
`cs2` points. -/
def eStoreId (rs1 : Word) (cs2 : Capability) : Runtime Word :=
  if !cs2.isSealed && cs2.perms.store && decide (32 ≤ (cs2.length - cs2.offset).toNat) then
    match i.store.getHash rs1 with
    | none => Trapping.lift (.error .hang)
    | some none => pure 0
    | some (some hash) => do
      Trapping.update (fun s => { s with
        mem := (List.range 8).foldl (fun m k =>
          m.storeWord x.cfg (cs2.address + BitVec.ofNat 32 (4 * k))
            (endiannessSwap (digestWord hash k))) s.mem })
      pure 1
  else pure 0

/-! ## The routines -/

/-- `enclave_exit`. -/
def enclaveExit (ca0 ca1 cra : Capability) : Runtime EntryOutcome := do
  let target ← orTrap (jumpToCap cra (CapIdx.gpcr 1))
  pure (.exited ca0 ca1 target)

/-- A save of the stack pointer at `DATA_OFFSET_CSP`. -/
def saveCsp (csp ct : Capability) (by_ : CspSaver) : Runtime Unit := do
  x.scCap csp ct
  Trapping.update (fun s => { s with savedBy := some by_ })

/-- `enclave_init`. -/
def enclaveInit (ct0 : Capability) : Runtime EntryOutcome :=
  let t0 := x.c31.length
  let t1 := BitVec.ofNat 32 STATIC_LEN
  if t0.slt t1 then enclaveExit i.ca0 i.ca1 i.cra
  else do
    x.scCap i.ca0 (cSetOffset x.c31 (BitVec.ofNat 32 DATA_OFFSET_CODE_CAP))
    x.scCap i.ca1 (cSetOffset x.c31 (BitVec.ofNat 32 DATA_OFFSET_DATA_CAP))
    let t2 := t0 - t1
    let csp ← modify .setBounds (cSetOffset x.c31 t1) t2
    let csp := cSetOffset csp t2
    x.saveCsp csp (cSetOffset x.c31 (BitVec.ofNat 32 DATA_OFFSET_CSP)) .init
    let ca0 ← modify .setBounds ct0 1
    let ca0 ← modify .andPerm ca0 (1 <<< 7)
    let ca1 ← modify .setBounds (cIncOffset ct0 1) 1
    let ca1 ← modify .andPerm ca1 (1 <<< 9)
    enclaveExit ca0 ca1 i.cra

/-- The capability to return to `ra`: our own code. -/
def returnCap (ra : Word) : Capability := cSetOffset x.pcc ra

/-- The push of a capability. -/
def push (cap csp : Capability) : Runtime Capability := do
  let csp := cIncOffset csp (-BitVec.ofNat 32 CAP_LEN)
  x.scCap cap csp
  pure csp

/-- `enclave_invoke`: the caller's return capability and our own are pushed,
and the enclave in `ct2` and `ct3` is entered. -/
def enclaveInvoke (ca0 ct2 ct3 csp : Capability) (ra : Word) (cra : Capability) :
    Runtime EntryOutcome := do
  let csp ← x.push cra csp
  let csp ← x.push (x.returnCap ra) csp
  Trapping.update (fun s => { s with log := s.log ++ [.stored (x.returnCap ra)] })
  x.saveCsp csp (cIncOffset x.c31 (BitVec.ofNat 32 DATA_OFFSET_CSP)) .invoke
  let cra ← x.lcCap i (cSetOffset x.c31 (BitVec.ofNat 32 DATA_OFFSET_CODE_CAP))
  let cs0 ← x.lcCap i (cSetOffset x.c31 (BitVec.ofNat 32 DATA_OFFSET_DATA_CAP))
  let callee ← orTrap (cInvoke ct2 ct3 7 28)
  pure (.invoked callee.1 callee.2 ca0 cra cs0)

/-- The comparison of the id stored at `ct3` with the expected one at `ct4`,
word by word, for `n` more words. -/
def compareId (ct3 ct4 : Capability) : ℕ → Runtime Bool
  | 0 => pure true
  | n + 1 => do
    let t3 ← x.lwCap i ct3
    let t4 ← x.lwCap i ct4
    if t3 ≠ t4 then pure false else compareId (cIncOffset ct3 4) (cIncOffset ct4 4) n

/-- The seals and entry capabilities of the sensor, checked, go to our data
section. -/
def storeSensor (ct1 ct2 : Capability) (t0 : Word) : Runtime EntryOutcome := do
  let ct3 ← x.lcCap i (cIncOffset i.ca0 (BitVec.ofNat 32 (3 * CAP_LEN)))
  if t0 ≠ ct3.base - 1 then enclaveExit { i.ca0 with tag := false } i.ca1 i.cra
  else do
    let ct4 ← x.lcCap i i.ca0
    x.scCap ct4 (cIncOffset ct1 (BitVec.ofNat 32 DATA_OFFSET_SENSOR_CODE))
    let ca0 := cIncOffset i.ca0 (BitVec.ofNat 32 CAP_LEN)
    let ct4 ← x.lcCap i ca0
    x.scCap ct4 (cIncOffset ct1 (BitVec.ofNat 32 DATA_OFFSET_SENSOR_DATA))
    x.scCap ct2 (cIncOffset ct1 (BitVec.ofNat 32 DATA_OFFSET_SENSOR_ENC))
    x.scCap ct3 (cIncOffset ct1 (BitVec.ofNat 32 DATA_OFFSET_SENSOR_SIGN))
    enclaveExit ca0 i.ca1 i.cra

/-- `set_sensor_enclave`. -/
def setSensorEnclave (ct1 : Capability) : Runtime EntryOutcome := do
  let ct2 ← x.lcCap i (cIncOffset i.ca0 (BitVec.ofNat 32 (2 * CAP_LEN)))
  if !ct2.tag then enclaveExit { i.ca0 with tag := false } i.ca1 i.cra
  else do
    let t0 := ct2.base
    let ct3 ← modify .setBounds (cIncOffset ct1 (BitVec.ofNat 32 DATA_OFFSET_BUF)) 32
    let t1 ← x.eStoreId i t0 ct3
    if t1 = 0 then enclaveExit { i.ca0 with tag := false } i.ca1 i.cra
    else do
      let same ← x.compareId i ct3 (cSetOffset x.pcc x.sensorIdStart) 8
      if !same then enclaveExit { i.ca0 with tag := false } i.ca1 i.cra
      else x.storeSensor i ct1 ct2 t0

/-- `use_sensor`, up to the invocation of the sensor. -/
def useSensor (ct0 ct1 csp : Capability) : Runtime EntryOutcome := do
  let t0 ← x.lwCap i i.ca0
  let csp ← x.push i.ca0 csp
  let ca0 ← modify .setBounds (cIncOffset ct1 (BitVec.ofNat 32 DATA_OFFSET_ARGS))
    (BitVec.ofNat 32 ARGS_LEN)
  let ct2 ← modify .setBounds ct0 1
  let ct2 ← modify .andPerm ct2 (1 <<< 7)
  x.scCap ct2 ca0
  x.swCap t0 (cIncOffset ca0 (BitVec.ofNat 32 CAP_LEN))
  let ct2 ← x.lcCap i (cIncOffset ct1 (BitVec.ofNat 32 DATA_OFFSET_SENSOR_ENC))
  let ca0 ← orTrap (cSeal ca0 ct2 10 7)
  let ct2 ← x.lcCap i (cIncOffset ct1 (BitVec.ofNat 32 DATA_OFFSET_SENSOR_CODE))
  let ct3 ← x.lcCap i (cIncOffset ct1 (BitVec.ofNat 32 DATA_OFFSET_SENSOR_DATA))
  x.enclaveInvoke i ca0 ct2 ct3 csp x.useSensorReturn i.cra

/-- The result of the sensor, doubled, goes where the caller of `use_sensor`
said. -/
def storeResult (ct0 ct2 ca0 cra : Capability) : Runtime EntryOutcome := do
  let t0 ← x.lwCap i (cIncOffset ct2 (BitVec.ofNat 32 (CAP_LEN + riscvXlen)))
  x.swCap (t0 + t0) (cIncOffset ca0 4)
  let ca0 ← orTrap (cSeal ca0 (cIncOffset ct0 1) 10 7)
  enclaveExit ca0 i.ca1 cra

/-- `use_sensor`, once the sensor has returned. The pop of `ca0` moves the
stack pointer, and nothing saves it. -/
def useSensorReturned (ct0 ct1 csp cra : Capability) : Runtime EntryOutcome := do
  let ct2 ← x.lcCap i (cIncOffset ct1 (BitVec.ofNat 32 DATA_OFFSET_SENSOR_SIGN))
  let ct2 ← orTrap (cUnseal i.ca0 ct2 10 7)
  let ct2 ← x.lcCap i ct2
  let ct2 ← orTrap (cUnseal ct2 ct0 7 5)
  let ca0 ← x.lcCap i csp
  let t0 ← x.lwCap i ca0
  let t1 ← x.lwCap i (cIncOffset ct2 (BitVec.ofNat 32 CAP_LEN))
  if t0 ≠ t1 then enclaveExit .null i.ca1 cra else x.storeResult i ct0 ct2 ca0 cra

/-- `enclave_return_entry`: the return capability and the caller's are popped,
and the first one is jumped to. -/
def enclaveReturnEntry (ct0 ct1 csp : Capability) : Runtime EntryOutcome := do
  let ct2 ← x.lcCap i csp
  let csp := cIncOffset csp (BitVec.ofNat 32 CAP_LEN)
  let cra ← x.lcCap i csp
  let csp := cIncOffset csp (BitVec.ofNat 32 CAP_LEN)
  x.saveCsp csp (cSetOffset x.c31 (BitVec.ofNat 32 DATA_OFFSET_CSP)) .return
  let target ← orTrap (jumpToCap ct2 (CapIdx.gpcr 7))
  Trapping.update (fun s => { s with log := s.log ++ [.jumped ct2] })
  if ct2 = x.returnCap x.useSensorReturn then x.useSensorReturned i ct0 ct1 csp cra
  else pure (.jumpedTo target)

/-- Where the dispatch of an entry goes. -/
inductive EntryPoint where
  | exit
  | setSensorEnclave
  | useSensor
  | wild
deriving DecidableEq, Repr

/-- The dispatch on the table of entries: the comparison with its end is a
signed one, and nothing compares with its start. -/
def dispatch (a7 : Word) : EntryPoint :=
  let t0 := x.enclaveEntriesStart
  let t1 := t0 + 8
  let t2 := t0 + ((a7 - 1) <<< 2)
  if t1.sle t2 then .exit
  else if t2 = t0 then .setSensorEnclave
  else if t2 = t0 + 4 then .useSensor
  else .wild

/-- What the pointer an entry finds in the table leads to. -/
def enter (ct0 ct1 csp : Capability) : Runtime EntryOutcome :=
  match x.dispatch i.a7 with
  | .exit => enclaveExit i.ca0 i.ca1 i.cra
  | .setSensorEnclave => x.setSensorEnclave i ct1
  | .useSensor => x.useSensor i ct0 ct1 csp
  | .wild => do
    Trapping.update (fun _ => i.wild)
    pure .wild

/-- An entry through the table, whose pointer is loaded through PCC. -/
def tableEntry (ct0 ct1 csp : Capability) : Runtime EntryOutcome :=
  if x.dispatch i.a7 = .exit then enclaveExit i.ca0 i.ca1 i.cra
  else do
    let _ ← x.lwCap i (cSetOffset x.pcc (x.enclaveEntriesStart + ((i.a7 - 1) <<< 2)))
    x.enter i ct0 ct1 csp

/-- **An entry**, from its first instruction on. -/
def entry : Runtime EntryOutcome := do
  let ct0 ← x.lcCap i x.c31
  if i.a7 = 0 then x.enclaveInit i ct0
  else do
    let csp ← x.lcCap i (cSetOffset x.c31 (BitVec.ofNat 32 DATA_OFFSET_CSP))
    if !csp.tag then enclaveExit i.ca0 i.ca1 i.cra
    else
      let ct1 := cSetOffset x.c31 (BitVec.ofNat 32 DATA_OFFSET_ENCLAVE)
      if i.a7 = -1 then x.enclaveReturnEntry i ct0 ct1 csp
      else x.tableEntry i ct0 ct1 csp

end UserEnclave

/-- **The enclave as a machine** driven by its entries; a step shows how the
entry ends. -/
def userEnclave {w : ℕ} (x : UserEnclave) :
    SyncMachine RuntimeState (EntryInput w) (Except EntryStop EntryOutcome) where
  step s i :=
    match (x.entry i).exec { s with mem := i.interfere s.mem } with
    | (outcome, s') => (s', outcome)

@[simp] theorem userEnclave_next {w : ℕ} (x : UserEnclave) (s : RuntimeState)
    (i : EntryInput w) :
    (userEnclave x).next s i = ((x.entry i).exec { s with mem := i.interfere s.mem }).2 := rfl

end Proteus
