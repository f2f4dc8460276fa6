import CheriTree.Proteus.Capability

/-!
# The memory bus and its controller

`MemBusControl` turns the calls `read` and `write` of a client, made anew in
every cycle, into commands on a bus. It buffers one command so that a command
once shown stays until the bus takes it, and it takes the answer to a read
some cycles after the command.

The bus is whatever answers: in every cycle it may or may not take the command
shown, and may or may not answer a read it took before. Behind it is a memory
of words; a read outside the memory gives whatever the device there gives.

The result of this module is what a client sees that makes the same call until
it is done: `serve_step`. Nothing happens until one cycle in which the call is
done, and in that cycle the memory has changed as the call says.
-/

namespace Proteus

/-! ## Commands and the controller -/

/-- A command on the bus. -/
structure MemBusCmd where
  address : Word
  write : Bool
  wdata : Word
  wmask : BitVec 4
deriving DecidableEq, Repr

/-- **The controller**: the command it buffers, and whether that command is
still to be taken (`valid`) or is taken and not answered (`ready`). -/
structure MemBusControl where
  valid : Bool
  ready : Bool
  cmd : MemBusCmd
deriving DecidableEq, Repr

/-- The call a client makes in a cycle. -/
inductive BusCall where
  | idle
  | read (address : Word)
  | write (address wdata : Word) (wmask : BitVec 4)
deriving DecidableEq, Repr

namespace MemBusControl

/-- The controller of reset. -/
def reset : MemBusControl := ⟨false, false, ⟨0, false, 0, 0⟩⟩

def isIssued (c : MemBusControl) : Bool := c.valid || c.ready

/-- The command a call issues, when none is. -/
def issued (c : MemBusControl) : BusCall → Option MemBusCmd
  | .idle => none
  | .read address => some { c.cmd with address := address, write := false }
  | .write address wdata wmask => some ⟨address, true, wdata, wmask⟩

/-- **The command shown on the bus.** -/
def busCmd (c : MemBusControl) (call : BusCall) : Option MemBusCmd :=
  if c.isIssued then if c.valid then some c.cmd else none
  else c.issued call

/-- What the controller does by itself: a command taken is no longer shown,
and an answer ends it. -/
def settle (c : MemBusControl) (cmdReady rspValid : Bool) : MemBusControl :=
  let c := if c.valid && cmdReady then { c with ready := true, valid := false } else c
  if rspValid then { c with ready := false, valid := false } else c

/-- **The next state of the controller.** In each case the later assignment
of the source is the outer one. -/
def next (c : MemBusControl) (call : BusCall) (cmdReady rspValid : Bool) : MemBusControl :=
  match call with
  | .idle => c.settle cmdReady rspValid
  | .read address =>
    let c' := if c.isIssued then c.settle cmdReady rspValid
      else ⟨!cmdReady, cmdReady, { c.cmd with address := address, write := false }⟩
    if rspValid then { c' with valid := false, ready := false } else c'
  | .write address wdata wmask =>
    let c' := if c.isIssued then c.settle cmdReady rspValid
      else ⟨!cmdReady, cmdReady, ⟨address, true, wdata, wmask⟩⟩
    if cmdReady then { c' with valid := false, ready := false } else c'

/-- Whether the call is done in this cycle. -/
def done (c : MemBusControl) (call : BusCall) (cmdReady rspValid : Bool) : Bool :=
  match call with
  | .idle => false
  | .read address =>
    rspValid && (!c.isIssued || (c.cmd.address = address && !c.cmd.write))
  | .write address _ _ =>
    cmdReady && (!c.isIssued || (c.cmd.address = address && c.cmd.write))

end MemBusControl

/-! ## The bus and the memory behind it -/

/-- What the bus decides in a cycle: whether it takes the command shown,
whether it answers a read it took, and what a device outside the memory would
answer. -/
structure BusInput where
  cmdReady : Bool
  rsp : Bool
  device : Word
deriving DecidableEq, Repr

/-- Where the memory is. -/
structure MemConfig where
  memoryStart : ℕ
  /-- The number of granules. -/
  numTags : ℕ
  numTags_pos : 0 < numTags
  aligned : memoryStart % capBytes = 0
  fits : memoryStart + numTags * capBytes ≤ 2 ^ 32

/-- The address at which the memory of the core starts is that of a granule. -/
theorem MemConfig.aligned_ram : 0x80000000 % capBytes = 0 := by decide

/-- An address is in memory. -/
def MemConfig.InMemory (cfg : MemConfig) (address : Word) : Prop :=
  cfg.memoryStart ≤ address.toNat
    ∧ address.toNat < cfg.memoryStart + cfg.numTags * capBytes

instance (cfg : MemConfig) (address : Word) : Decidable (cfg.InMemory address) :=
  inferInstanceAs (Decidable (_ ∧ _))

/-- A word with the bytes of a mask replaced. -/
def maskWrite (old new : Word) (wmask : BitVec 4) : Word :=
  let byte (k : ℕ) : BitVec 8 :=
    if wmask.getLsbD k then new.extractLsb' (8 * k) 8 else old.extractLsb' (8 * k) 8
  byte 3 ++ byte 2 ++ byte 1 ++ byte 0

/-- A mask of all bytes replaces the word. -/
theorem maskWrite_all (old new : Word) : maskWrite old new 0b1111#4 = new := by
  show new.extractLsb' 24 8 ++ new.extractLsb' 16 8 ++ new.extractLsb' 8 8
    ++ new.extractLsb' 0 8 = new
  apply BitVec.eq_of_getLsbD_eq
  intro i hi
  simp only [BitVec.getLsbD_append, BitVec.getLsbD_extractLsb']
  split
  · rename_i h
    rw [decide_eq_true h, Bool.true_and, Nat.zero_add]
  · split
    · rename_i h h'
      rw [decide_eq_true h', Bool.true_and]
      congr 1
      omega
    · split
      · rename_i h h' h''
        rw [decide_eq_true h'', Bool.true_and]
        congr 1
        omega
      · rename_i h h' h''
        rw [decide_eq_true (by omega), Bool.true_and]
        congr 1
        omega

/-- **The bus**: the controller in front, the memory behind, and the read
taken and not answered, if any. -/
structure MemBus where
  ctrl : MemBusControl
  outstanding : Option Word
  ram : ℕ → Word

namespace MemBus

variable (cfg : MemConfig)

/-- The command the bus takes in a cycle. -/
def taken (b : MemBus) (call : BusCall) (i : BusInput) : Option MemBusCmd :=
  if i.cmdReady then b.ctrl.busCmd call else none

/-- The read the bus may answer in a cycle: one it took before or takes now. -/
def reading (b : MemBus) (call : BusCall) (i : BusInput) : Option Word :=
  match b.taken call i with
  | some cmd => if cmd.write then b.outstanding else some cmd.address
  | none => b.outstanding

/-- The bus answers a read in this cycle. -/
def rspValid (b : MemBus) (call : BusCall) (i : BusInput) : Bool :=
  i.rsp && (b.reading call i).isSome

/-- The word a read gives. -/
def readWord (b : MemBus) (i : BusInput) (address : Word) : Word :=
  if cfg.InMemory address then b.ram (address.toNat / 4) else i.device

/-- The memory after a command. -/
def writeWord (ram : ℕ → Word) (cmd : MemBusCmd) : ℕ → Word :=
  if cmd.write ∧ cfg.InMemory cmd.address then
    Function.update ram (cmd.address.toNat / 4)
      (maskWrite (ram (cmd.address.toNat / 4)) cmd.wdata cmd.wmask)
  else ram

/-- **One cycle of the bus** under a call. -/
def step (b : MemBus) (call : BusCall) (i : BusInput) : MemBus where
  ctrl := b.ctrl.next call i.cmdReady (b.rspValid call i)
  outstanding := if b.rspValid call i then none else b.reading call i
  ram := match b.taken call i with
    | some cmd => writeWord cfg b.ram cmd
    | none => b.ram

/-- The call is done in this cycle. -/
def done (b : MemBus) (call : BusCall) (i : BusInput) : Bool :=
  b.ctrl.done call i.cmdReady (b.rspValid call i)

/-- The word a read call gives in the cycle it is done. -/
def rdata (b : MemBus) (call : BusCall) (i : BusInput) : Word :=
  match b.reading call i with
  | some address => b.readWord cfg i address
  | none => 0

/-! ## A client that waits -/

/-- Nothing is going on. -/
def Free (b : MemBus) : Prop :=
  b.ctrl.valid = false ∧ b.ctrl.ready = false ∧ b.outstanding = none

/-- A command that carries out a call. -/
def Carries (call : BusCall) (cmd : MemBusCmd) : Prop :=
  match call with
  | .idle => False
  | .read address => cmd.address = address ∧ cmd.write = false
  | .write address wdata wmask => cmd = ⟨address, true, wdata, wmask⟩

/-- **The bus is serving a call**: it is free, or shows the call's command, or
has taken its read. -/
def Serving (b : MemBus) (call : BusCall) : Prop :=
  b.Free
    ∨ (b.ctrl.valid = true ∧ b.ctrl.ready = false ∧ b.outstanding = none
        ∧ Carries call b.ctrl.cmd)
    ∨ (∃ address, call = .read address ∧ b.ctrl.valid = false ∧ b.ctrl.ready = true
        ∧ Carries call b.ctrl.cmd ∧ b.outstanding = some address)

/-- The memory is as a call that is done leaves it, and the word read is the
one the memory had. -/
def Served (b : MemBus) (call : BusCall) (i : BusInput) : Prop :=
  match call with
  | .idle => False
  | .read address => b.rdata cfg call i = b.readWord cfg i address ∧ (b.step cfg call i).ram = b.ram
  | .write address wdata wmask =>
    (b.step cfg call i).ram = writeWord cfg b.ram ⟨address, true, wdata, wmask⟩

/-- With no call, a bus that is free stays free. -/
theorem free_step_idle {b : MemBus} (h : b.Free) (i : BusInput) :
    (b.step cfg .idle i).Free ∧ (b.step cfg .idle i).ram = b.ram
      ∧ b.done .idle i = false := by
  obtain ⟨hv, hr, ho⟩ := h
  have hcmd : b.ctrl.busCmd .idle = none := by
    simp [MemBusControl.busCmd, MemBusControl.isIssued, MemBusControl.issued, hv, hr]
  have htaken : b.taken .idle i = none := by
    rw [taken, hcmd, ite_self]
  have hrsp : b.rspValid .idle i = false := by
    simp [rspValid, reading, htaken, ho]
  refine ⟨⟨?_, ?_, ?_⟩, ?_, rfl⟩
  · simp [step, hrsp, MemBusControl.next, MemBusControl.settle, hv]
  · simp [step, hrsp, MemBusControl.next, MemBusControl.settle, hv, hr]
  · simp [step, hrsp, reading, htaken, ho]
  · simp [step, htaken]

/-- A word write waits for the bus to take it, and is done when it does. -/
theorem serve_write {b : MemBus} {address wdata : Word} {wmask : BitVec 4}
    (h : b.Serving (.write address wdata wmask)) (i : BusInput) :
    (b.done (.write address wdata wmask) i = false
        ∧ (b.step cfg (.write address wdata wmask) i).Serving (.write address wdata wmask)
        ∧ (b.step cfg (.write address wdata wmask) i).ram = b.ram)
      ∨ (b.done (.write address wdata wmask) i = true
        ∧ (b.step cfg (.write address wdata wmask) i).Free
        ∧ b.Served cfg (.write address wdata wmask) i) := by
  have hout : b.outstanding = none := by
    obtain h | h | ⟨a, h, -⟩ := h
    · exact h.2.2
    · exact h.2.2.1
    · cases h
  -- the command shown is the call's own, issued now or before
  have hcmd : b.ctrl.busCmd (.write address wdata wmask) = some ⟨address, true, wdata, wmask⟩ := by
    obtain ⟨hv, hr, -⟩ | ⟨hv, hr, -, hc⟩ | ⟨a, h, -⟩ := h
    · simp [MemBusControl.busCmd, MemBusControl.isIssued, MemBusControl.issued, hv, hr]
    · have hc' : b.ctrl.cmd = ⟨address, true, wdata, wmask⟩ := hc
      simp [MemBusControl.busCmd, MemBusControl.isIssued, hv, hc']
    · cases h
  cases hready : i.cmdReady with
  | false =>
    left
    have htaken : b.taken (.write address wdata wmask) i = none := by
      rw [taken, hready]
      rfl
    have hrsp : b.rspValid (.write address wdata wmask) i = false := by
      simp [rspValid, reading, htaken, hout]
    refine ⟨?_, Or.inr (Or.inl ?_), ?_⟩
    · simp [done, MemBusControl.done, hready]
    · obtain ⟨hv, hr, -⟩ | ⟨hv, hr, -, hc⟩ | ⟨a, h, -⟩ := h
      · simp [step, hrsp, hready, reading, htaken, hout, MemBusControl.next,
          MemBusControl.isIssued, hv, hr, Carries]
      · have hc' : b.ctrl.cmd = ⟨address, true, wdata, wmask⟩ := hc
        simp [step, hrsp, hready, reading, htaken, hout, MemBusControl.next,
          MemBusControl.isIssued, MemBusControl.settle, hv, hr, Carries, hc']
      · cases h
    · simp [step, htaken]
  | true =>
    right
    have htaken : b.taken (.write address wdata wmask) i = some ⟨address, true, wdata, wmask⟩ := by
      rw [taken, hready, hcmd]
      rfl
    have hrsp : b.rspValid (.write address wdata wmask) i = false := by
      simp [rspValid, reading, htaken, hout]
    refine ⟨?_, ⟨?_, ?_, ?_⟩, ?_⟩
    · obtain ⟨hv, hr, -⟩ | ⟨hv, hr, -, hc⟩ | ⟨a, h, -⟩ := h
      · simp [done, MemBusControl.done, MemBusControl.isIssued, hready, hv, hr]
      · have hc' : b.ctrl.cmd = ⟨address, true, wdata, wmask⟩ := hc
        simp [done, MemBusControl.done, hready, hc']
      · cases h
    · simp [step, MemBusControl.next, hready]
    · simp [step, MemBusControl.next, hready]
    · simp [step, hrsp, reading, htaken, hout]
    · simp [Served, step, htaken]

/-- A word read waits for the bus to take it and then to answer, and is done
when it does. -/
theorem serve_read {b : MemBus} {address : Word} (h : b.Serving (.read address)) (i : BusInput) :
    (b.done (.read address) i = false
        ∧ (b.step cfg (.read address) i).Serving (.read address)
        ∧ (b.step cfg (.read address) i).ram = b.ram)
      ∨ (b.done (.read address) i = true
        ∧ (b.step cfg (.read address) i).Free
        ∧ b.Served cfg (.read address) i) := by
  -- a read changes no memory, whatever command is taken
  have hram : (b.step cfg (.read address) i).ram = b.ram := by
    have hw : ∀ cmd, b.taken (.read address) i = some cmd → cmd.write = false := by
      intro cmd hcmd
      rw [taken] at hcmd
      split at hcmd
      · obtain ⟨hv, hr, -⟩ | ⟨hv, hr, -, hc⟩ | ⟨a, h, hv, hr, hc, -⟩ := h
        · simp only [MemBusControl.busCmd, MemBusControl.isIssued, MemBusControl.issued, hv, hr,
            Bool.or_self, Bool.false_eq_true, if_false, Option.some.injEq] at hcmd
          rw [← hcmd]
        · simp only [MemBusControl.busCmd, MemBusControl.isIssued, hv, Bool.true_or, if_true,
            Option.some.injEq] at hcmd
          rw [← hcmd]
          exact hc.2
        · simp [MemBusControl.busCmd, MemBusControl.isIssued, hv, hr] at hcmd
      · cases hcmd
    cases htaken : b.taken (.read address) i with
    | none => simp [step, htaken]
    | some cmd => simp [step, htaken, writeWord, hw cmd htaken]
  obtain ⟨hv, hr, ho⟩ | ⟨hv, hr, ho, hc⟩ | ⟨a, ha, hv, hr, hc, ho⟩ := h
  · -- issued now
    cases hready : i.cmdReady with
    | false =>
      have htaken : b.taken (.read address) i = none := by rw [taken, hready]; rfl
      have hrsp : b.rspValid (.read address) i = false := by
        simp [rspValid, reading, htaken, ho]
      refine Or.inl ⟨?_, Or.inr (Or.inl ?_), hram⟩
      · simp [done, MemBusControl.done, hrsp]
      · simp [step, hrsp, hready, reading, htaken, ho, MemBusControl.next,
          MemBusControl.isIssued, hv, hr, Carries]
    | true =>
      have hreading : b.reading (.read address) i = some address := by
        simp [reading, taken, hready, MemBusControl.busCmd, MemBusControl.isIssued,
          MemBusControl.issued, hv, hr]
      cases hi : i.rsp with
      | false =>
        have hrsp : b.rspValid (.read address) i = false := by simp [rspValid, hi]
        refine Or.inl ⟨?_, Or.inr (Or.inr ⟨address, rfl, ?_⟩), hram⟩
        · simp [done, MemBusControl.done, hrsp]
        · simp [step, hrsp, hready, hreading, MemBusControl.next, MemBusControl.isIssued, hv, hr,
            Carries]
      | true =>
        have hrsp : b.rspValid (.read address) i = true := by simp [rspValid, hi, hreading]
        refine Or.inr ⟨?_, ?_, ?_, hram⟩
        · simp [done, MemBusControl.done, MemBusControl.isIssued, hrsp, hv, hr]
        · simp [Free, step, hrsp, MemBusControl.next]
        · simp [rdata, hreading]
  · -- shown before and not taken yet
    have hc' : b.ctrl.cmd.address = address ∧ b.ctrl.cmd.write = false := hc
    cases hready : i.cmdReady with
    | false =>
      have htaken : b.taken (.read address) i = none := by rw [taken, hready]; rfl
      have hrsp : b.rspValid (.read address) i = false := by
        simp [rspValid, reading, htaken, ho]
      refine Or.inl ⟨?_, Or.inr (Or.inl ?_), hram⟩
      · simp [done, MemBusControl.done, hrsp]
      · simp [step, hrsp, hready, reading, htaken, ho, MemBusControl.next,
          MemBusControl.isIssued, MemBusControl.settle, hv, hr, Carries, hc']
    | true =>
      have hreading : b.reading (.read address) i = some address := by
        simp [reading, taken, hready, MemBusControl.busCmd, MemBusControl.isIssued, hv, hc']
      cases hi : i.rsp with
      | false =>
        have hrsp : b.rspValid (.read address) i = false := by simp [rspValid, hi]
        refine Or.inl ⟨?_, Or.inr (Or.inr ⟨address, rfl, ?_⟩), hram⟩
        · simp [done, MemBusControl.done, hrsp]
        · simp [step, hrsp, hready, hreading, MemBusControl.next, MemBusControl.isIssued,
            MemBusControl.settle, hv, Carries, hc']
      | true =>
        have hrsp : b.rspValid (.read address) i = true := by simp [rspValid, hi, hreading]
        refine Or.inr ⟨?_, ?_, ?_, hram⟩
        · simp [done, MemBusControl.done, hrsp, hc']
        · simp [Free, step, hrsp, MemBusControl.next]
        · simp [rdata, hreading]
  · -- taken before and not answered yet
    obtain rfl : address = a := by simpa using ha
    have hc' : b.ctrl.cmd.address = address ∧ b.ctrl.cmd.write = false := hc
    have htaken : b.taken (.read address) i = none := by
      simp [taken, MemBusControl.busCmd, MemBusControl.isIssued, hv, hr]
    have hreading : b.reading (.read address) i = some address := by
      simp [reading, htaken, ho]
    cases hi : i.rsp with
    | false =>
      have hrsp : b.rspValid (.read address) i = false := by simp [rspValid, hi]
      refine Or.inl ⟨?_, Or.inr (Or.inr ⟨address, rfl, ?_⟩), hram⟩
      · simp [done, MemBusControl.done, hrsp]
      · simp [step, hrsp, hreading, MemBusControl.next, MemBusControl.isIssued,
          MemBusControl.settle, hv, hr, Carries, hc']
    | true =>
      have hrsp : b.rspValid (.read address) i = true := by simp [rspValid, hi, hreading]
      refine Or.inr ⟨?_, ?_, ?_, hram⟩
      · simp [done, MemBusControl.done, hrsp, hc']
      · simp [Free, step, hrsp, MemBusControl.next]
      · simp [rdata, hreading]

/-- **What a client sees that makes one call until it is done.** -/
theorem serve_step {b : MemBus} {call : BusCall} (hcall : call ≠ .idle) (h : b.Serving call)
    (i : BusInput) :
    (b.done call i = false ∧ (b.step cfg call i).Serving call ∧ (b.step cfg call i).ram = b.ram)
      ∨ (b.done call i = true ∧ (b.step cfg call i).Free ∧ b.Served cfg call i) := by
  cases call with
  | idle => exact absurd rfl hcall
  | read address => exact serve_read cfg h i
  | write address wdata wmask => exact serve_write cfg h i

end MemBus

end Proteus
