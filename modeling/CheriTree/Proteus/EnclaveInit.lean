import CheriTree.Proteus.CapMachine
import CheriTree.Proteus.TaggedMemory

/-!
# The initialisation of an enclave's data section

`EInitData` is carried out in the memory stage, by a state machine that takes
many cycles: it looks up the enclave its code capability belongs to, claims
the pipeline, sweeps the registers, the special registers and the tagged
memory for a capability that overlaps one of the two sections, hashes the code
section, records the digest, stores the enclave's seals at the start of the
data section, and hands the sealed data capability to the write-back stage.

The machine here follows one `EInitData` from its first cycle in the memory
stage, with the instruction before it still in write-back, until its own
result is written. The overlap test is the one of the source, on tops that
wrap; the registers it leaves out are left out by their numbers.

An instruction in write-back that traps takes this one out of the memory
stage before it starts; that is no run of `EInitData`, and not one here.
-/

namespace Proteus

/-! ## The state machine -/

/-- **The states of `initDataFsm`.** From `START` to `GET_CAP` they are those
of `uniquenessFsm`, inside `CHECK_UNIQUENESS`; from `HASH_START` to
`HASH_WORD` those of `hashFsm`, inside `HASH_ID`. -/
inductive InitDataState where
  | IDLE
  | CHECK_CS1_VALID
  | START
  | CLAIM_PIPELINE
  | CHECK_REGS
  | CHECK_DDC
  | CHECK_PCC
  | CHECK_SCRS
  | GET_ADDRESS
  | GET_CAP
  | HASH_START
  | LOAD_WORD
  | HASH_WORD
  | STORE_HASH
  | STORE_SEAL
deriving DecidableEq, Repr

/-- The special registers besides DDC, in the order of the lookup table. -/
def registeredScrs : List Scr := [.mtdc, .mscratchc, .mtcc, .mepcc]

/-- **The core around an `EInitData`** in its memory stage.

`wb` is what the instruction in write-back writes, if there is one; `scan` is
what the tag scan still has to report, `hashed` the words the hash engine has
taken. `valid` says that the instruction is in the memory stage. -/
structure InitData (w : ℕ) where
  fsm : InitDataState
  valid : Bool
  rd : RegId
  rs1 : RegId
  rs2 : RegId
  cap : CapState w
  mem : TaggedMemory
  wb : Option (List CapWrite)
  scan : List Word
  currentReg : ℕ
  sweepAddress : Word
  currentAddress : Word
  currentWord : Word
  hashed : List Word
  currentEid : EnclaveId w

/-- What the units around the memory stage answer in a cycle. -/
structure InitDataInput where
  /-- The memory stage is stalled. -/
  isStalled : Bool
  /-- The identity store answers. -/
  idStore : Bool
  /-- The tag scan answers. -/
  capScan : Bool
  /-- The bus answers a read or takes a store. -/
  bus : Bool
  /-- The hash engine takes a word. -/
  hash : Bool
  /-- What a device outside the memory answers. -/
  device : Word
deriving DecidableEq, Repr

/-- The bytes of a word in the other order. -/
def endiannessSwap (x : Word) : Word :=
  x.extractLsb' 0 8 ++ x.extractLsb' 8 8 ++ x.extractLsb' 16 8 ++ x.extractLsb' 24 8

/-- **The overlap test of the sweep.** -/
def overlaps (c cap : Capability) : Bool :=
  cap.tag && !decide (c.top ≤ cap.base) && !decide (c.base ≥ cap.top)

namespace InitData

variable {w : ℕ} (cfg : MemConfig) (digest : List Word → Digest)

/-- The code capability. No write to it is under way once the machine has
started, so the register is the operand. -/
def cs1 (s : InitData w) : Capability := s.cap.regs s.rs1

/-- The data capability. -/
def cs2 (s : InitData w) : Capability := s.cap.regs s.rs2

/-- A capability overlaps one of the sections. -/
def anyOverlaps (s : InitData w) (cap : Capability) : Bool :=
  overlaps s.cs1 cap || overlaps s.cs2 cap

/-- The result goes to write-back, and the instruction leaves the stage. -/
def finish (s : InitData w) (cd : Capability) : InitData w :=
  { s with
    fsm := .IDLE
    valid := false
    wb := some [⟨.reg s.rd, s.cs2, cd⟩] }

def fail (s : InitData w) : InitData w := s.finish .null

/-- One swept capability: on an overlap the instruction fails. -/
def check (s : InitData w) (cap : Capability) (next : InitData w) : InitData w :=
  if s.anyOverlaps cap then s.fail else next

/-- What write-back does in a cycle. -/
def drain (s : InitData w) : InitData w :=
  match s.wb with
  | some ws => { s with cap := s.cap.writeAll ws, wb := none }
  | none => s

/-- `CHECK_CS1_VALID`: the code capability names an enclave whose data section
is still to come. -/
def checkCs1Valid (s : InitData w) (i : InitDataInput) : InitData w :=
  let unfinishedEntry := s.cap.store.getUnfinishedEntry s.cs1.otype
  if !s.cs1.tag || !s.cs1.isSealed then s.fail
  else if i.idStore then
    if unfinishedEntry.valid then { s with currentEid := unfinishedEntry, fsm := .START }
    else s.fail
  else s

/-- `CHECK_REGS`: one register, unless it is an operand by its number. -/
def checkRegs (s : InitData w) : InitData w :=
  let next : InitData w :=
    if s.currentReg = 31 then { s with fsm := .CHECK_DDC }
    else { s with currentReg := s.currentReg + 1 }
  if BitVec.ofNat 5 s.currentReg ≠ s.rs1 ∧ BitVec.ofNat 5 s.currentReg ≠ s.rs2 then
    s.check (s.cap.regs (BitVec.ofNat 5 s.currentReg)) next
  else next

/-- `CHECK_SCRS`: one registered special register. -/
def checkScrs (s : InitData w) : InitData w :=
  match registeredScrs[s.currentReg]? with
  | some r =>
    s.check (s.cap.scrs r)
      (if s.currentReg = registeredScrs.length - 1 then { s with fsm := .GET_ADDRESS }
      else { s with currentReg := s.currentReg + 1 })
  | none => s

/-- `GET_ADDRESS`: the next address of the scan, or its end. -/
def getAddress (s : InitData w) (i : InitDataInput) : InitData w :=
  if i.capScan then
    match s.scan with
    | a :: rest => { s with sweepAddress := a, scan := rest, fsm := .GET_CAP }
    | [] => { s with fsm := .HASH_START }
  else s

/-- `LOAD_WORD`: a word of the code section. -/
def loadWord (s : InitData w) (i : InitDataInput) : InitData w :=
  if i.bus then
    { s with
      currentWord := s.mem.readWord cfg (fun _ => i.device) s.currentAddress
      currentAddress := s.currentAddress + 4
      fsm := .HASH_WORD }
  else s

/-- `HASH_WORD`: the word goes to the hash engine; the last one is the one
before the top of the code section. -/
def hashWord (s : InitData w) (i : InitDataInput) : InitData w :=
  if i.hash then
    { s with
      hashed := s.hashed ++ [endiannessSwap s.currentWord]
      fsm := if s.currentAddress = s.cs1.top then .STORE_HASH else .LOAD_WORD }
  else s

/-- `STORE_HASH`: the entry of the enclave gets its digest. -/
def storeHash (s : InitData w) (i : InitDataInput) : InitData w :=
  let result := s.cap.store.finishEntry s.cs1.otype (digest s.hashed)
  if i.idStore then
    let t := { s with cap := { s.cap with store := result.2 } }
    if result.1.valid then { t with fsm := .STORE_SEAL } else t.fail
  else s

/-- `STORE_SEAL`: the seals of the enclave go to the base of the data section,
and the data capability is sealed with its identity. -/
def storeSeal (s : InitData w) (i : InitDataInput) : InitData w :=
  if i.bus then
    { s with mem := s.mem.storeCap cfg s.cs2.base s.currentEid.signEncSeal }.finish
      (s.cs2.sealWith s.currentEid.identSeal)
  else s

/-- What the memory stage does in a cycle; `flushed` says that no instruction
is in write-back. -/
def act (s : InitData w) (i : InitDataInput) (flushed : Bool) : InitData w :=
  match s.fsm with
  | .IDLE =>
    if s.valid then
      { s with
        currentEid := .setInvalid
        fsm := if i.isStalled then .IDLE else .CHECK_CS1_VALID }
    else s
  | .CHECK_CS1_VALID => s.checkCs1Valid i
  | .START => { s with fsm := .CLAIM_PIPELINE }
  | .CLAIM_PIPELINE => if flushed then { s with currentReg := 1, fsm := .CHECK_REGS } else s
  | .CHECK_REGS => s.checkRegs
  | .CHECK_DDC => s.check (s.cap.scrs .ddc) { s with fsm := .CHECK_PCC }
  | .CHECK_PCC => s.check s.cap.pcc { s with currentReg := 0, fsm := .CHECK_SCRS }
  | .CHECK_SCRS => s.checkScrs
  | .GET_ADDRESS => s.getAddress i
  | .GET_CAP =>
    if i.bus then
      s.check (s.mem.loadCap cfg (fun _ => i.device) s.sweepAddress) { s with fsm := .GET_ADDRESS }
    else s
  | .HASH_START => { s with currentAddress := s.cs1.base, hashed := [], fsm := .LOAD_WORD }
  | .LOAD_WORD => s.loadWord cfg i
  | .HASH_WORD => s.hashWord i
  | .STORE_HASH => s.storeHash digest i
  | .STORE_SEAL => s.storeSeal cfg i

end InitData

/-- **The machine.** In every cycle write-back does its part, then the memory
stage. -/
def eInitData {w : ℕ} (cfg : MemConfig) (digest : List Word → Digest) :
    SyncMachine (InitData w) InitDataInput Unit where
  step s i := (s.drain.act cfg digest i s.wb.isNone, ())

@[simp] theorem eInitData_next {w : ℕ} (cfg : MemConfig) (digest : List Word → Digest)
    (s : InitData w) (i : InitDataInput) :
    (eInitData cfg digest).next s i = s.drain.act cfg digest i s.wb.isNone := rfl

/-! ## What a run does -/

namespace InitData

variable {w : ℕ}

/-- **The core is as it was** when the machine started, up to the identity
store. -/
structure Same (b s : InitData w) : Prop where
  rd : s.rd = b.rd
  rs1 : s.rs1 = b.rs1
  rs2 : s.rs2 = b.rs2
  cap : s.cap = { b.cap with store := s.cap.store }
  mem : s.mem = b.mem
  wb : s.wb = none

/-- The code capability names an enclave that waits for its data section. -/
structure Accepted (b : InitData w) (eid : EnclaveId w) : Prop where
  tag : b.cs1.tag = true
  isSealed : b.cs1.isSealed = true
  eid_eq : eid = b.cap.store.getUnfinishedEntry b.cs1.otype
  valid : eid.valid = true

/-- A capability passes the sweep. -/
def Passes (b : InitData w) (cap : Capability) : Prop := b.anyOverlaps cap = false

/-- The registers below `n` have passed. -/
def RegsPassed (b : InitData w) (n : ℕ) : Prop :=
  ∀ k, 1 ≤ k → k < n → BitVec.ofNat 5 k ≠ b.rs1 → BitVec.ofNat 5 k ≠ b.rs2 →
    b.Passes (b.cap.regs (BitVec.ofNat 5 k))

/-- The first `n` of the registered special registers have passed. -/
def ScrsPassed (b : InitData w) (n : ℕ) : Prop :=
  ∀ k < n, ∀ r, registeredScrs[k]? = some r → b.Passes (b.cap.scrs r)

/-- The capabilities at the addresses reported have passed, those of `rest`
excepted. -/
def ScanPassed (cfg : MemConfig) (b : InitData w) (rest : List Word) : Prop :=
  ∃ done, b.scan = done ++ rest
    ∧ ∀ a ∈ done, ∃ device, b.Passes (b.mem.loadCap cfg device a)

/-- Everything besides the memory has passed. -/
structure CorePassed (b : InitData w) (eid : EnclaveId w) : Prop where
  accepted : b.Accepted eid
  regs : b.RegsPassed 32
  ddc : b.Passes (b.cap.scrs .ddc)
  pcc : b.Passes b.cap.pcc
  scrs : b.ScrsPassed registeredScrs.length

/-- **The sweep has passed.** -/
structure Swept (cfg : MemConfig) (b : InitData w) (eid : EnclaveId w) : Prop where
  core : b.CorePassed eid
  scan : b.ScanPassed cfg []

/-- **The result is on its way, or written.** A tagged one is the data
capability sealed, after a sweep that passed, with the seals in memory. -/
def Finished (cfg : MemConfig) (b s : InitData w) : Prop :=
  ∃ cd store, s.drain.cap = { b.cap.write (.reg b.rd) cd with store := store }
    ∧ (cd.tag = true → ∃ eid, b.Swept cfg eid ∧ cd = b.cs2.sealWith eid.identSeal
        ∧ s.mem = b.mem.storeCap cfg b.cs2.base eid.signEncSeal)

/-- **What holds in each state**, of a run that started as `b`. -/
def Inv (cfg : MemConfig) (b s : InitData w) : Prop :=
  match s.fsm with
  | .IDLE =>
    if s.valid then b.Same s.drain ∧ s.drain.cap.store = b.cap.store ∧ s.scan = b.scan
    else b.Finished cfg s
  | .CHECK_CS1_VALID => b.Same s ∧ s.cap.store = b.cap.store ∧ s.scan = b.scan
  | .START => b.Same s ∧ s.scan = b.scan ∧ b.Accepted s.currentEid
  | .CLAIM_PIPELINE => b.Same s ∧ s.scan = b.scan ∧ b.Accepted s.currentEid
  | .CHECK_REGS =>
    b.Same s ∧ s.scan = b.scan ∧ b.Accepted s.currentEid ∧ b.RegsPassed s.currentReg
      ∧ s.currentReg ≤ 31
  | .CHECK_DDC => b.Same s ∧ s.scan = b.scan ∧ b.Accepted s.currentEid ∧ b.RegsPassed 32
  | .CHECK_PCC =>
    b.Same s ∧ s.scan = b.scan ∧ b.Accepted s.currentEid ∧ b.RegsPassed 32
      ∧ b.Passes (b.cap.scrs .ddc)
  | .CHECK_SCRS =>
    b.Same s ∧ s.scan = b.scan ∧ b.Accepted s.currentEid ∧ b.RegsPassed 32
      ∧ b.Passes (b.cap.scrs .ddc) ∧ b.Passes b.cap.pcc ∧ b.ScrsPassed s.currentReg
      ∧ s.currentReg < registeredScrs.length
  | .GET_ADDRESS => b.Same s ∧ b.CorePassed s.currentEid ∧ b.ScanPassed cfg s.scan
  | .GET_CAP =>
    b.Same s ∧ b.CorePassed s.currentEid ∧ b.ScanPassed cfg (s.sweepAddress :: s.scan)
  | .HASH_START => b.Same s ∧ b.Swept cfg s.currentEid
  | .LOAD_WORD => b.Same s ∧ b.Swept cfg s.currentEid
  | .HASH_WORD => b.Same s ∧ b.Swept cfg s.currentEid
  | .STORE_HASH => b.Same s ∧ b.Swept cfg s.currentEid
  | .STORE_SEAL => b.Same s ∧ b.Swept cfg s.currentEid

section

variable {cfg : MemConfig} {digest : List Word → Digest} {b s : InitData w}

theorem Same.cs1_eq (h : b.Same s) : s.cs1 = b.cs1 := by
  rw [cs1, cs1, h.rs1, h.cap]

theorem Same.cs2_eq (h : b.Same s) : s.cs2 = b.cs2 := by
  rw [cs2, cs2, h.rs2, h.cap]

theorem Same.regs_eq (h : b.Same s) : s.cap.regs = b.cap.regs := by
  rw [h.cap]

theorem Same.scrs_eq (h : b.Same s) : s.cap.scrs = b.cap.scrs := by
  rw [h.cap]

theorem Same.pcc_eq (h : b.Same s) : s.cap.pcc = b.cap.pcc := by
  rw [h.cap]

theorem Same.anyOverlaps_eq (h : b.Same s) : s.anyOverlaps = b.anyOverlaps := by
  funext cap
  rw [anyOverlaps, anyOverlaps, h.cs1_eq, h.cs2_eq]

theorem drain_eq_self (h : s.wb = none) : s.drain = s := by
  rw [drain, h]

theorem drain_wb (s : InitData w) : s.drain.wb = none := by
  unfold drain
  split
  · rfl
  · assumption

@[simp] theorem drain_drain (s : InitData w) : s.drain.drain = s.drain :=
  drain_eq_self s.drain_wb

@[simp] theorem drain_fsm (s : InitData w) : s.drain.fsm = s.fsm := by
  unfold drain
  split <;> rfl

@[simp] theorem drain_valid (s : InitData w) : s.drain.valid = s.valid := by
  unfold drain
  split <;> rfl

@[simp] theorem drain_scan (s : InitData w) : s.drain.scan = s.scan := by
  unfold drain
  split <;> rfl

@[simp] theorem drain_rd (s : InitData w) : s.drain.rd = s.rd := by
  unfold drain
  split <;> rfl

@[simp] theorem drain_rs1 (s : InitData w) : s.drain.rs1 = s.rs1 := by
  unfold drain
  split <;> rfl

@[simp] theorem drain_mem (s : InitData w) : s.drain.mem = s.mem := by
  unfold drain
  split <;> rfl

/-- What a result in write-back becomes. -/
theorem Same.drain_finish (h : b.Same s) (cd : Capability) :
    (s.finish cd).drain.cap = { b.cap.write (.reg b.rd) cd with store := s.cap.store } := by
  show s.cap.write (.reg s.rd) cd = _
  rw [h.rd, h.cap]
  unfold CapState.write
  simp only
  split <;> rfl

/-- A failed instruction has no tagged result. -/
theorem Same.inv_fail (h : b.Same s) : b.Inv cfg s.fail :=
  ⟨.null, s.cap.store, h.drain_finish .null, fun htag => by cases htag⟩

/-- A check keeps what holds if what comes next does, once it has passed. -/
theorem Same.inv_check (h : b.Same s) {cap : Capability} {next : InitData w}
    (hnext : b.Passes cap → b.Inv cfg next) : b.Inv cfg (s.check cap next) := by
  unfold check
  split
  · exact h.inv_fail
  · rename_i hpass
    rw [h.anyOverlaps_eq, Bool.not_eq_true] at hpass
    exact hnext hpass

/-- Bookkeeping of the machine is none of the core. -/
theorem Same.of_eq {s' : InitData w} (h : b.Same s) (hrd : s'.rd = s.rd) (hrs1 : s'.rs1 = s.rs1)
    (hrs2 : s'.rs2 = s.rs2) (hcap : s'.cap = s.cap) (hmem : s'.mem = s.mem) (hwb : s'.wb = s.wb) :
    b.Same s' :=
  ⟨hrd.trans h.rd, hrs1.trans h.rs1, hrs2.trans h.rs2, by rw [hcap]; exact h.cap,
    hmem.trans h.mem, hwb.trans h.wb⟩

theorem inv_idle (hf : s.fsm = .IDLE) (h : b.Inv cfg s) (i : InitDataInput) (flushed : Bool) :
    b.Inv cfg (s.drain.act cfg digest i flushed) := by
  simp only [Inv, hf] at h
  simp only [act, drain_fsm, hf, drain_valid]
  split
  · rename_i hv
    rw [if_pos hv] at h
    obtain ⟨hsame, hstore, hscan⟩ := h
    cases hst : i.isStalled with
    | true =>
      simp only [Inv, if_true, hv]
      rw [drain_eq_self (by exact s.drain_wb), drain_scan]
      exact ⟨hsame.of_eq rfl rfl rfl rfl rfl rfl, hstore, hscan⟩
    | false =>
      exact ⟨hsame.of_eq rfl rfl rfl rfl rfl rfl, hstore, by
        show s.drain.scan = _
        rw [drain_scan]; exact hscan⟩
  · rename_i hv
    rw [if_neg hv] at h
    simp only [Inv, drain_fsm, hf, drain_valid, if_neg hv]
    obtain ⟨cd, store, hcap, htag⟩ := h
    exact ⟨cd, store, by rw [drain_drain]; exact hcap, by rw [drain_mem]; exact htag⟩

theorem inv_checkCs1Valid (hs : b.Same s) (hfsm : s.fsm = .CHECK_CS1_VALID)
    (hstore : s.cap.store = b.cap.store) (hscan : s.scan = b.scan) (i : InitDataInput) :
    b.Inv cfg (s.checkCs1Valid i) := by
  unfold checkCs1Valid
  simp only
  split
  · exact hs.inv_fail
  · rename_i hcs1
    rw [hs.cs1_eq, Bool.or_eq_true, not_or, Bool.not_eq_true, Bool.not_eq_true,
      Bool.not_eq_false', Bool.not_eq_false'] at hcs1
    split
    · split
      · rename_i hvalid
        rw [hs.cs1_eq, hstore] at *
        exact ⟨hs.of_eq rfl rfl rfl rfl rfl rfl, hscan, hcs1.1, hcs1.2, rfl, hvalid⟩
      · exact hs.inv_fail
    · simp only [Inv, hfsm]
      exact ⟨hs, hstore, hscan⟩

theorem RegsPassed.succ {n : ℕ} (h : b.RegsPassed n)
    (hn : BitVec.ofNat 5 n ≠ b.rs1 → BitVec.ofNat 5 n ≠ b.rs2 →
      b.Passes (b.cap.regs (BitVec.ofNat 5 n))) : b.RegsPassed (n + 1) := by
  intro k hk hlt
  rcases Nat.lt_succ_iff_lt_or_eq.1 hlt with hlt | rfl
  · exact h k hk hlt
  · exact hn

theorem inv_checkRegs (hs : b.Same s) (hfsm : s.fsm = .CHECK_REGS) (hscan : s.scan = b.scan)
    (hacc : b.Accepted s.currentEid) (hregs : b.RegsPassed s.currentReg)
    (hle : s.currentReg ≤ 31) : b.Inv cfg s.checkRegs := by
  -- whatever made this register pass, the next state is entered with one more
  have hnext : b.RegsPassed (s.currentReg + 1) → b.Inv cfg
      (if s.currentReg = 31 then { s with fsm := .CHECK_DDC }
        else { s with currentReg := s.currentReg + 1 }) := by
    intro hpassed
    split
    · rename_i h31
      rw [h31] at hpassed
      exact ⟨hs.of_eq rfl rfl rfl rfl rfl rfl, hscan, hacc, hpassed⟩
    · simp only [Inv, hfsm]
      exact ⟨hs.of_eq rfl rfl rfl rfl rfl rfl, hscan, hacc, hpassed, by omega⟩
  unfold checkRegs
  simp only
  split
  · refine hs.inv_check (fun hpass => hnext (hregs.succ (fun _ _ => ?_)))
    rw [hs.regs_eq] at hpass
    exact hpass
  · rename_i hop
    rw [hs.rs1, hs.rs2] at hop
    exact hnext (hregs.succ (fun h1 h2 => absurd ⟨h1, h2⟩ hop))

theorem inv_checkScrs (hs : b.Same s) (hfsm : s.fsm = .CHECK_SCRS) (hscan : s.scan = b.scan)
    (hacc : b.Accepted s.currentEid) (hregs : b.RegsPassed 32)
    (hddc : b.Passes (b.cap.scrs .ddc)) (hpcc : b.Passes b.cap.pcc)
    (hscrs : b.ScrsPassed s.currentReg) (hlt : s.currentReg < registeredScrs.length) :
    b.Inv cfg s.checkScrs := by
  unfold checkScrs
  rw [List.getElem?_eq_getElem hlt]
  refine hs.inv_check (fun hpass => ?_)
  rw [hs.scrs_eq] at hpass
  have hscrs' : b.ScrsPassed (s.currentReg + 1) := by
    intro k hk r hr
    rcases Nat.lt_succ_iff_lt_or_eq.1 hk with hk | rfl
    · exact hscrs k hk r hr
    · rw [List.getElem?_eq_getElem hlt, Option.some.injEq] at hr
      rw [← hr]
      exact hpass
  split
  · rename_i hlast
    have hlen : s.currentReg + 1 = registeredScrs.length := by
      rw [hlast]
      rfl
    rw [hlen] at hscrs'
    exact ⟨hs.of_eq rfl rfl rfl rfl rfl rfl, ⟨hacc, hregs, hddc, hpcc, hscrs'⟩,
      [], by rw [hscan]; rfl, fun a ha => absurd ha List.not_mem_nil⟩
  · simp only [Inv, hfsm]
    exact ⟨hs.of_eq rfl rfl rfl rfl rfl rfl, hscan, hacc, hregs, hddc, hpcc, hscrs', by omega⟩

theorem inv_getAddress (hs : b.Same s) (hfsm : s.fsm = .GET_ADDRESS)
    (hcore : b.CorePassed s.currentEid) (hscan : b.ScanPassed cfg s.scan) (i : InitDataInput) :
    b.Inv cfg (s.getAddress i) := by
  unfold getAddress
  split
  · cases hrest : s.scan with
    | nil =>
      rw [hrest] at hscan
      exact ⟨hs.of_eq rfl rfl rfl rfl rfl rfl, hcore, hscan⟩
    | cons a rest =>
      rw [hrest] at hscan
      exact ⟨hs.of_eq rfl rfl rfl rfl rfl rfl, hcore, hscan⟩
  · simp only [Inv, hfsm]
    exact ⟨hs, hcore, hscan⟩

theorem inv_getCap (hs : b.Same s) (hcore : b.CorePassed s.currentEid)
    (hscan : b.ScanPassed cfg (s.sweepAddress :: s.scan)) (device : Word → Word) :
    b.Inv cfg
      (s.check (s.mem.loadCap cfg device s.sweepAddress) { s with fsm := .GET_ADDRESS }) := by
  refine hs.inv_check (fun hpass => ?_)
  rw [hs.mem] at hpass
  obtain ⟨done, hdone, hall⟩ := hscan
  refine ⟨hs.of_eq rfl rfl rfl rfl rfl rfl, hcore, done ++ [s.sweepAddress], ?_, ?_⟩
  · rw [hdone, List.append_assoc]
    rfl
  · intro a ha
    rcases List.mem_append.1 ha with ha | ha
    · exact hall a ha
    · rw [List.mem_singleton.1 ha]
      exact ⟨device, hpass⟩

theorem inv_storeHash (hs : b.Same s) (hfsm : s.fsm = .STORE_HASH)
    (hswept : b.Swept cfg s.currentEid) (i : InitDataInput) :
    b.Inv cfg (s.storeHash digest i) := by
  unfold storeHash
  simp only
  split
  · -- only the store has changed
    have hs' : b.Same { s with
        cap :=
          { s.cap with store := (s.cap.store.finishEntry s.cs1.otype (digest s.hashed)).2 } } := by
      refine ⟨hs.rd, hs.rs1, hs.rs2, ?_, hs.mem, hs.wb⟩
      rw [hs.cap]
    split
    · exact ⟨hs'.of_eq rfl rfl rfl rfl rfl rfl, hswept⟩
    · exact hs'.inv_fail
  · simp only [Inv, hfsm]
    exact ⟨hs, hswept⟩

theorem inv_storeSeal (hs : b.Same s) (hfsm : s.fsm = .STORE_SEAL)
    (hswept : b.Swept cfg s.currentEid) (i : InitDataInput) :
    b.Inv cfg (s.storeSeal cfg i) := by
  unfold storeSeal
  split
  · refine ⟨s.cs2.sealWith s.currentEid.identSeal, s.cap.store, hs.drain_finish _, fun _ => ?_⟩
    exact ⟨s.currentEid, hswept, by rw [hs.cs2_eq], by
      show s.mem.storeCap cfg s.cs2.base _ = _
      rw [hs.mem, hs.cs2_eq]⟩
  · simp only [Inv, hfsm]
    exact ⟨hs, hswept⟩

/-- In every state but the first the write-back stage is empty. -/
theorem Inv.wb_eq_none (h : b.Inv cfg s) (hf : s.fsm ≠ .IDLE) : s.wb = none := by
  unfold Inv at h
  split at h
  case h_1 heq => exact absurd heq hf
  all_goals exact h.1.wb

/-- **One cycle keeps the invariant.** -/
theorem inv_next (h : b.Inv cfg s) (i : InitDataInput) :
    b.Inv cfg ((eInitData cfg digest).next s i) := by
  rw [eInitData_next]
  by_cases hf : s.fsm = .IDLE
  · exact inv_idle hf h i _
  have hwb := h.wb_eq_none hf
  rw [drain_eq_self hwb]
  cases hfsm : s.fsm with
  | IDLE => exact absurd hfsm hf
  | CHECK_CS1_VALID =>
    simp only [Inv, hfsm] at h
    simp only [act, hfsm]
    exact inv_checkCs1Valid h.1 hfsm h.2.1 h.2.2 i
  | START =>
    simp only [Inv, hfsm] at h
    simp only [act, hfsm]
    exact ⟨h.1.of_eq rfl rfl rfl rfl rfl rfl, h.2⟩
  | CLAIM_PIPELINE =>
    simp only [Inv, hfsm] at h
    simp only [act, hfsm, hwb]
    exact ⟨h.1.of_eq rfl rfl rfl rfl rfl hwb.symm, h.2.1, h.2.2,
      fun k hk hlt => absurd hk (Nat.not_le.2 hlt), (by decide : 1 ≤ 31)⟩
  | CHECK_REGS =>
    simp only [Inv, hfsm] at h
    simp only [act, hfsm]
    obtain ⟨hs, hscan, hacc, hregs, hle⟩ := h
    exact inv_checkRegs hs hfsm hscan hacc hregs hle
  | CHECK_DDC =>
    simp only [Inv, hfsm] at h
    simp only [act, hfsm]
    obtain ⟨hs, hscan, hacc, hregs⟩ := h
    refine hs.inv_check (fun hpass => ⟨hs.of_eq rfl rfl rfl rfl rfl rfl, hscan, hacc, hregs, ?_⟩)
    rw [hs.scrs_eq] at hpass
    exact hpass
  | CHECK_PCC =>
    simp only [Inv, hfsm] at h
    simp only [act, hfsm]
    obtain ⟨hs, hscan, hacc, hregs, hddc⟩ := h
    refine hs.inv_check (fun hpass => ⟨hs.of_eq rfl rfl rfl rfl rfl rfl, hscan, hacc, hregs,
      hddc, ?_, fun k hk => absurd hk (Nat.not_lt_zero k), (by decide : 0 < registeredScrs.length)⟩)
    rw [hs.pcc_eq] at hpass
    exact hpass
  | CHECK_SCRS =>
    simp only [Inv, hfsm] at h
    simp only [act, hfsm]
    obtain ⟨hs, hscan, hacc, hregs, hddc, hpcc, hscrs, hlt⟩ := h
    exact inv_checkScrs hs hfsm hscan hacc hregs hddc hpcc hscrs hlt
  | GET_ADDRESS =>
    simp only [Inv, hfsm] at h
    simp only [act, hfsm]
    exact inv_getAddress h.1 hfsm h.2.1 h.2.2 i
  | GET_CAP =>
    have h' := h
    simp only [Inv, hfsm] at h'
    simp only [act, hfsm]
    split
    · exact inv_getCap h'.1 h'.2.1 h'.2.2 (fun _ => i.device)
    · exact h
  | HASH_START =>
    simp only [Inv, hfsm] at h
    simp only [act, hfsm]
    exact ⟨h.1.of_eq rfl rfl rfl rfl rfl rfl, h.2⟩
  | LOAD_WORD =>
    have h' := h
    simp only [Inv, hfsm] at h'
    simp only [act, hfsm, loadWord]
    split
    · exact ⟨h'.1.of_eq rfl rfl rfl rfl rfl rfl, h'.2⟩
    · exact h
  | HASH_WORD =>
    have h' := h
    simp only [Inv, hfsm] at h'
    simp only [act, hfsm, hashWord]
    split
    · by_cases hlast : s.currentAddress = s.cs1.top
      · rw [if_pos hlast]
        exact ⟨h'.1.of_eq rfl rfl rfl rfl rfl rfl, h'.2⟩
      · rw [if_neg hlast]
        exact ⟨h'.1.of_eq rfl rfl rfl rfl rfl rfl, h'.2⟩
    · exact h
  | STORE_HASH =>
    simp only [Inv, hfsm] at h
    simp only [act, hfsm]
    exact inv_storeHash h.1 hfsm h.2 i
  | STORE_SEAL =>
    simp only [Inv, hfsm] at h
    simp only [act, hfsm]
    exact inv_storeSeal h.1 hfsm h.2 i

/-- The instruction enters the memory stage. -/
def Starts (s : InitData w) : Prop := s.fsm = .IDLE ∧ s.valid = true

/-- The instruction has left the write-back stage. -/
def Retired (s : InitData w) : Prop := s.fsm = .IDLE ∧ s.valid = false ∧ s.wb = none

/-- The invariant holds at first, of the core the write before leaves. -/
theorem Starts.inv (hs : s.Starts) : s.drain.Inv cfg s := by
  simp only [Inv, hs.1, hs.2, if_true]
  exact ⟨⟨rfl, rfl, rfl, rfl, rfl, s.drain_wb⟩, trivial, s.drain_scan.symm⟩

/-- **What a completed `EInitData` has done.** The registers and the special
registers are those it found, with the write of the instruction before it
done, except for its own result; and where the result is tagged the sweep has
passed, over exactly these. -/
theorem run_retired (hs : s.Starts) (is : List InitDataInput)
    (hr : ((eInitData cfg digest).run s is).Retired) :
    ∃ cd store,
      ((eInitData cfg digest).run s is).cap
          = { s.drain.cap.write (.reg s.rd) cd with store := store }
        ∧ (cd.tag = true → ∃ eid, s.drain.Swept cfg eid
            ∧ cd = s.drain.cs2.sealWith eid.identSeal
            ∧ ((eInitData cfg digest).run s is).mem
                = s.mem.storeCap cfg s.drain.cs2.base eid.signEncSeal) := by
  have h : s.drain.Inv cfg ((eInitData cfg digest).run s is) :=
    (eInitData cfg digest).run_invariant_all
      (fun t i (ht : s.drain.Inv cfg t) => inv_next ht i) hs.inv is
  obtain ⟨hf, hv, hwb⟩ := hr
  simp only [Inv, hf, hv, Bool.false_eq_true, if_false] at h
  obtain ⟨cd, store, hcap, htag⟩ := h
  rw [drain_eq_self hwb, drain_rd] at hcap
  rw [drain_mem] at htag
  exact ⟨cd, store, hcap, htag⟩

/-- Register zero is what it was, when the write before is done. -/
theorem drain_regs_zero (s : InitData w) : s.drain.cap.regs 0 = s.cap.regs 0 := by
  unfold drain
  split
  · exact CapState.writeAll_regs_zero _ _
  · rfl

/-- **What a completed `EInitData` with a tagged result has done.** Register
zero takes no result, and what is there is not tagged; so the data capability
is in its register, sealed. -/
theorem run_tagged (hs : s.Starts) (h0 : s.cap.regs 0 = .null) (is : List InitDataInput)
    (hr : ((eInitData cfg digest).run s is).Retired)
    (htag : (((eInitData cfg digest).run s is).cap.regs s.rd).tag = true) :
    ∃ eid store, s.drain.Swept cfg eid ∧ s.drain.cs2.tag = true
      ∧ ((eInitData cfg digest).run s is).cap
          = { s.drain.cap with
              regs := Function.update s.drain.cap.regs s.rd
                (s.drain.cs2.sealWith eid.identSeal)
              store := store }
      ∧ ((eInitData cfg digest).run s is).mem
          = s.mem.storeCap cfg s.drain.cs2.base eid.signEncSeal := by
  obtain ⟨cd, store, hcap, hcd⟩ := run_retired hs is hr
  have hrd : s.rd ≠ 0 := by
    intro he
    rw [hcap, show s.drain.cap.write (.reg s.rd) cd = s.drain.cap from if_pos he, he] at htag
    rw [show ({ s.drain.cap with store := store } : CapState w).regs 0 = .null from
      s.drain_regs_zero.trans h0] at htag
    cases htag
  have hwrite : s.drain.cap.write (.reg s.rd) cd
      = { s.drain.cap with regs := Function.update s.drain.cap.regs s.rd cd } := if_neg hrd
  rw [hwrite] at hcap
  have hres : ((eInitData cfg digest).run s is).cap.regs s.rd = cd := by
    rw [hcap]
    exact Function.update_self _ _ _
  rw [hres] at htag
  obtain ⟨eid, hswept, rfl, hmem⟩ := hcd htag
  exact ⟨eid, store, hswept, htag, hcap, hmem⟩

end

end InitData

end Proteus
