import CheriTree.Proteus.EnclaveInit

/-!
# The identity store and the instructions that ask it

The identity store is a unit of its own: a request is a signal that the memory
stage holds, the unit walks its entries one per cycle, and its answer is valid
for one cycle. Three state machines of the memory stage make requests, one for
each of `EInitCode`, `EInitData` and `EStoreId`.

The machine here is the composition of the four, cycle by cycle. What the
other units of the core do (the stalls, the sweep, the hash engine, the bus and
the instructions that arrive) is its input.
-/

namespace Proteus

variable {w : ℕ}

/-! ## The store -/

/-- The states of the store's machine. -/
inductive SearchFsm where
  | idle
  | initEntry
  | getUnfinishedEntry
  | finishEntry
  | getHash
deriving DecidableEq, Repr

/-- **The signals of a request** (`StoreIo`, from the memory stage). -/
structure StoreIo (w : ℕ) where
  init : Bool
  getUnfinished : Bool
  finish : Bool
  getIdHash : Bool
  eid : EnclaveId w
  hash : Digest
deriving DecidableEq, Repr

/-- **The signals of an answer**: two flows, each valid or not. -/
structure StoreRsp (w : ℕ) where
  result : Option (EnclaveId w)
  hashResult : Option (Option Digest)
deriving DecidableEq, Repr

/-- **The store as a unit.** -/
structure StoreUnit (w : ℕ) where
  fsm : SearchFsm
  searchIdx : ℕ
  store : IdentityStore w
deriving DecidableEq, Repr

namespace StoreUnit

/-- The entry the search is at. -/
def entry (u : StoreUnit w) : Entry w := u.store.entries.getD u.searchIdx .empty

/-- The search is at its last entry (`willOverflowIfInc`). -/
def last (u : StoreUnit w) : Bool := u.searchIdx + 1 = u.store.entries.length

/-- A state entered from `idle`; its entry clears the index. -/
def enter (u : StoreUnit w) (fsm : SearchFsm) : StoreUnit w × StoreRsp w :=
  ({ u with fsm := fsm, searchIdx := 0 }, ⟨none, none⟩)

/-- An answer on the first channel, and back to `idle`. -/
def push (u : StoreUnit w) (id : EnclaveId w) : StoreUnit w × StoreRsp w :=
  ({ u with fsm := .idle }, ⟨some id, none⟩)

/-- An answer on the channel of the digests, and back to `idle`. -/
def pushHash (u : StoreUnit w) (hash : Option Digest) : StoreUnit w × StoreRsp w :=
  ({ u with fsm := .idle }, ⟨none, some hash⟩)

/-- An entry that does not answer: the next one, or what the end gives. -/
def advance (u : StoreUnit w) (atEnd : StoreUnit w × StoreRsp w) : StoreUnit w × StoreRsp w :=
  if u.last then atEnd else ({ u with searchIdx := u.searchIdx + 1 }, ⟨none, none⟩)

/-- The entry at the index written. -/
def writeEntry (u : StoreUnit w) (e : Entry w) : StoreUnit w :=
  { u with store := { u.store with entries := u.store.entries.set u.searchIdx e } }

/-- `idle`: the first request in order decides. A request under no id fails at
once, on the first channel whichever it is. -/
def stepIdle (u : StoreUnit w) (io : StoreIo w) : StoreUnit w × StoreRsp w :=
  if io.init then
    if u.store.idAvailable then u.enter .initEntry else u.push .setInvalid
  else if io.getUnfinished then
    if io.eid.valid then u.enter .getUnfinishedEntry else u.push .setInvalid
  else if io.finish then
    if io.eid.valid then u.enter .finishEntry else u.push .setInvalid
  else if io.getIdHash then
    if io.eid.valid then u.enter .getHash else u.push .setInvalid
  else (u, ⟨none, none⟩)

/-- `initEntry`: the first entry that is not used gets the next id. -/
def stepInitEntry (u : StoreUnit w) : StoreUnit w × StoreRsp w :=
  if !u.entry.used then
    let id : EnclaveId w := ⟨true, BitVec.ofNat w u.store.nextId⟩
    let t := u.writeEntry { (Entry.empty : Entry w) with used := true, id := id }
    { t with store := { t.store with nextId := t.store.nextId + 1 } }.push id
  else u.advance (u.push .setInvalid)

def stepGetUnfinishedEntry (u : StoreUnit w) (io : StoreIo w) : StoreUnit w × StoreRsp w :=
  if u.entry.used && !u.entry.ready && u.entry.id = io.eid then u.push u.entry.id
  else u.advance (u.push .setInvalid)

def stepFinishEntry (u : StoreUnit w) (io : StoreIo w) : StoreUnit w × StoreRsp w :=
  if u.entry.id = io.eid then
    if u.entry.used && !u.entry.ready then
      (u.writeEntry { u.entry with hash := io.hash, ready := true }).push io.eid
    else u.push .setInvalid
  else u.advance (u.push .setInvalid)

def stepGetHash (u : StoreUnit w) (io : StoreIo w) : StoreUnit w × StoreRsp w :=
  if u.entry.id = io.eid then
    if u.entry.used && u.entry.ready then u.pushHash (some u.entry.hash) else u.pushHash none
  else u.advance (u.pushHash none)

/-- **One cycle of the store.** -/
def step (u : StoreUnit w) (io : StoreIo w) : StoreUnit w × StoreRsp w :=
  match u.fsm with
  | .idle => u.stepIdle io
  | .initEntry => u.stepInitEntry
  | .getUnfinishedEntry => u.stepGetUnfinishedEntry io
  | .finishEntry => u.stepFinishEntry io
  | .getHash => u.stepGetHash io

end StoreUnit

/-! ## The memory stage -/

/-- **The instructions that ask the store**, with the operands the memory stage
has for them. -/
inductive StoreOp where
  | eInitCode (cs1 : Capability)
  | eInitData (cs1 cs2 : Capability)
  | eStoreId (rs1 : Word) (cs2 : Capability)
deriving DecidableEq, Repr

/-- What the sweep and the hash engine have found for an `EInitData`. -/
structure Findings where
  unique : Bool
  digest : Digest
deriving DecidableEq, Repr

/-- **The result of an instruction**: a capability, or an integer next to the
words stored. -/
inductive StoreResult where
  | cap (cd : Capability)
  | stored (rd : Word) (words : List (Word × Word))
deriving DecidableEq, Repr

/-- An instruction that has left the memory stage. -/
structure Completed where
  op : StoreOp
  findings : Findings
  result : StoreResult
deriving DecidableEq, Repr

/-- `initFsm`. -/
inductive InitFsm where
  | idle
  | initEntry
deriving DecidableEq, Repr

/-- `initDataFsm`; the two machines inside it are one state each. -/
inductive InitDataFsm where
  | IDLE
  | CHECK_CS1_VALID
  | CHECK_UNIQUENESS
  | HASH_ID
  | STORE_HASH
  | STORE_SEAL
deriving DecidableEq, Repr

/-- `storeIdFsm`. -/
inductive StoreIdFsm where
  | IDLE
  | GET_HASH
  | STORE_HASH
deriving DecidableEq, Repr

/-- **The memory stage and the store.** `written` are the words the bus has
taken for the instruction. -/
structure Attest (w : ℕ) where
  op : Option StoreOp
  initFsm : InitFsm
  initDataFsm : InitDataFsm
  storeIdFsm : StoreIdFsm
  currentEid : EnclaveId w
  findings : Findings
  hash : Digest
  hashIdx : ℕ
  currentAddress : Word
  written : List (Word × Word)
  unit : StoreUnit w
deriving DecidableEq, Repr

/-- **What the rest of the core does in a cycle.** -/
structure AttestInput where
  /-- The instruction that enters the stage, where it is free. -/
  next : Option StoreOp
  isStalled : Bool
  /-- `uniquenessFsm` exits, with its verdict. -/
  sweep : Option Bool
  /-- `hashFsm` exits, with the digest the engine holds from then on. -/
  digest : Option Digest
  /-- The bus takes a store. -/
  bus : Bool
deriving DecidableEq, Repr

/-- The number of words of a digest. -/
def numHashWords : ℕ := 8

/-- A word of a digest, the most significant one first. -/
def hashWord (hash : Digest) (idx : ℕ) : Word :=
  endiannessSwap (hash.extractLsb' (32 * (numHashWords - 1 - idx)) 32)

/-- `EStoreId` may store through the capability. -/
def Capability.takesHash (cs2 : Capability) : Bool :=
  !cs2.isSealed && cs2.perms.store && decide (32#32 ≤ cs2.length - cs2.offset)

namespace Attest

/-- The object type of the code capability. -/
def otype (s : Attest w) : ObjectType :=
  match s.op with
  | some (.eInitData cs1 _) => cs1.otype
  | _ => .unsealed

/-- The object type `EStoreId` asks for. -/
def rs1Data (s : Attest w) : Word :=
  match s.op with
  | some (.eStoreId rs1 _) => rs1
  | _ => 0

/-- **The request of a cycle**: the states that make one drive its signals. -/
def io (s : Attest w) : StoreIo w where
  init := s.initFsm = .initEntry
  getUnfinished := s.initDataFsm = .CHECK_CS1_VALID
  finish := s.initDataFsm = .STORE_HASH
  getIdHash := s.storeIdFsm = .GET_HASH
  eid :=
    if s.storeIdFsm = .GET_HASH then .assignFromOtype s.rs1Data
    else if s.initDataFsm = .CHECK_CS1_VALID ∨ s.initDataFsm = .STORE_HASH then
      .assignFromOtype s.otype
    else .setInvalid
  hash := if s.initDataFsm = .STORE_HASH then s.findings.digest else 0

/-- The answer of a cycle. -/
def rsp (s : Attest w) : StoreRsp w := (s.unit.step s.io).2

/-- The instruction leaves the stage with its result. -/
def finish (s : Attest w) (op : StoreOp) (result : StoreResult) : Attest w × Option Completed :=
  ({ s with
      op := none
      initFsm := .idle
      initDataFsm := .IDLE
      storeIdFsm := .IDLE }, some ⟨op, s.findings, result⟩)

/-- `initFsm`, with an `EInitCode` in the stage. -/
def actInit (s : Attest w) (i : AttestInput) (cs1 : Capability) : Attest w × Option Completed :=
  match s.initFsm with
  | .idle => (if i.isStalled then s else { s with initFsm := .initEntry }, none)
  | .initEntry =>
    match s.rsp.result with
    | some id =>
      s.finish (.eInitCode cs1) (.cap (if id.valid then cs1.sealWith id.identSeal else .null))
    | none => (s, none)

/-- `initDataFsm`, with an `EInitData` in the stage. A code capability that is
not tagged or not sealed is given up on at once, whatever the store does. -/
def actInitData (s : Attest w) (i : AttestInput) (cs1 cs2 : Capability) :
    Attest w × Option Completed :=
  match s.initDataFsm with
  | .IDLE =>
    ({ s with
        currentEid := .setInvalid
        findings := ⟨false, 0⟩
        initDataFsm := if i.isStalled then .IDLE else .CHECK_CS1_VALID }, none)
  | .CHECK_CS1_VALID =>
    if !cs1.tag || !cs1.isSealed then s.finish (.eInitData cs1 cs2) (.cap .null)
    else
      match s.rsp.result with
      | some id =>
        if id.valid then
          ({ s with currentEid := id, initDataFsm := .CHECK_UNIQUENESS }, none)
        else s.finish (.eInitData cs1 cs2) (.cap .null)
      | none => (s, none)
  | .CHECK_UNIQUENESS =>
    match i.sweep with
    | some true =>
      ({ s with
          findings := { s.findings with unique := true }
          initDataFsm := .HASH_ID }, none)
    | some false => s.finish (.eInitData cs1 cs2) (.cap .null)
    | none => (s, none)
  | .HASH_ID =>
    match i.digest with
    | some digest =>
      ({ s with
          findings := { s.findings with digest := digest }
          initDataFsm := .STORE_HASH }, none)
    | none => (s, none)
  | .STORE_HASH =>
    match s.rsp.result with
    | some id =>
      if id.valid then ({ s with initDataFsm := .STORE_SEAL }, none)
      else s.finish (.eInitData cs1 cs2) (.cap .null)
    | none => (s, none)
  | .STORE_SEAL =>
    if i.bus then
      s.finish (.eInitData cs1 cs2) (.cap (cs2.sealWith s.currentEid.identSeal))
    else (s, none)

/-- `storeIdFsm`, with an `EStoreId` in the stage. -/
def actStoreId (s : Attest w) (i : AttestInput) (rs1 : Word) (cs2 : Capability) :
    Attest w × Option Completed :=
  match s.storeIdFsm with
  | .IDLE =>
    if i.isStalled then (s, none)
    else if cs2.takesHash then ({ s with storeIdFsm := .GET_HASH }, none)
    else s.finish (.eStoreId rs1 cs2) (.stored 0 [])
  | .GET_HASH =>
    match s.rsp.hashResult with
    | some (some hash) =>
      ({ s with
          hash := hash
          hashIdx := 0
          currentAddress := cs2.address
          written := []
          storeIdFsm := .STORE_HASH }, none)
    | some none => s.finish (.eStoreId rs1 cs2) (.stored 0 [])
    | none => (s, none)
  | .STORE_HASH =>
    if i.bus then
      let words := s.written ++ [(s.currentAddress, hashWord s.hash s.hashIdx)]
      if s.hashIdx + 1 = numHashWords then s.finish (.eStoreId rs1 cs2) (.stored 1 words)
      else
        ({ s with
            hashIdx := s.hashIdx + 1
            currentAddress := s.currentAddress + 4
            written := words }, none)
    else (s, none)

/-- What the memory stage does in a cycle. A machine leaves its first state for
an instruction of its own only. -/
def act (s : Attest w) (i : AttestInput) : Attest w × Option Completed :=
  match s.op with
  | none => (s, none)
  | some (.eInitCode cs1) => s.actInit i cs1
  | some (.eInitData cs1 cs2) => s.actInitData i cs1 cs2
  | some (.eStoreId rs1 cs2) => s.actStoreId i rs1 cs2

/-- The stage and the store of reset. -/
def reset (numEnclaveIds numEntries : ℕ) : Attest w where
  op := none
  initFsm := .idle
  initDataFsm := .IDLE
  storeIdFsm := .IDLE
  currentEid := .setInvalid
  findings := ⟨false, 0⟩
  hash := 0
  hashIdx := 0
  currentAddress := 0
  written := []
  unit := ⟨.idle, 0, .reset numEnclaveIds numEntries⟩

end Attest

/-- **The machine.** The stage and the store read the signals of the same
cycle; an empty stage takes the instruction that arrives. -/
def attest : SyncMachine (Attest w) AttestInput (Option Completed) where
  step s i :=
    let t := s.act i
    ({ t.1 with
        op := if t.1.op.isNone then i.next else t.1.op
        unit := (s.unit.step s.io).1 }, t.2)

/-! ## The atomic store -/

/-- The words of a digest, stored from an address on. -/
def hashStores (address : Word) (hash : Digest) : List (Word × Word) :=
  (List.range numHashWords).map fun idx => (address + 4 * BitVec.ofNat 32 idx, hashWord hash idx)

/-- **What an instruction gives where the store answers at once.** -/
def IdentityStore.atomic (st : IdentityStore w) (found : Findings) :
    StoreOp → StoreResult × IdentityStore w
  | .eInitCode cs1 =>
    let r := st.initEntry
    (.cap (if r.1.valid then cs1.sealWith r.1.identSeal else .null), r.2)
  | .eInitData cs1 cs2 =>
    if !cs1.tag || !cs1.isSealed then (.cap .null, st)
    else
      let eid := st.getUnfinishedEntry cs1.otype
      if eid.valid && found.unique then
        let r := st.finishEntry cs1.otype found.digest
        (.cap (if r.1.valid then cs2.sealWith eid.identSeal else .null), r.2)
      else (.cap .null, st)
  | .eStoreId rs1 cs2 =>
    if cs2.takesHash then
      match st.getHash rs1 with
      | some (some hash) => (.stored 1 (hashStores cs2.address hash), st)
      | _ => (.stored 0 [], st)
    else (.stored 0 [], st)

/-- The instruction of the capability machine is the one of the atomic store. -/
theorem CapState.atomic_eInitCode (s : CapState w) (found : Findings) (cs1 : Capability) :
    s.store.atomic found (.eInitCode cs1) = (.cap (s.eInitCode cs1).1, (s.eInitCode cs1).2) := rfl

theorem CapState.atomic_eInitData (s : CapState w) (found : Findings) (cs1 cs2 : Capability) :
    s.store.atomic found (.eInitData cs1 cs2)
      = (.cap (s.eInitData cs1 cs2 found.unique found.digest).1,
        (s.eInitData cs1 cs2 found.unique found.digest).2) := by
  unfold IdentityStore.atomic CapState.eInitData
  simp only
  split
  · rfl
  · split
    · rfl
    · rfl

end Proteus
