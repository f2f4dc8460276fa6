import CheriTree.InFlight
import CheriTree.SyncMachine
import CheriTree.Proteus.EnclaveIdManager

/-!
# The instruction bus

`IBusControl` reads instruction words ahead of the fetch stage. It keeps the
addresses of the reads the bus has taken in one FIFO, and pairs each answer with
the oldest of them; answers that the fetch stage does not want yet are kept in
another. When the fetch stage asks for an address that is neither answered nor
next in line, the controller restarts from it: the reads that are under way are
left to finish, and it counts how many answers there are still to ignore.

The pairing and the count are right in every cycle, whatever the fetch stage
asks for, of a bus that answers the reads it took in their order and in time.
One more than the latency is enough room for the FIFO, since it holds at most
one read for each cycle that an answer may take.
-/

namespace Proteus

/-! ## The controller -/

/-- An answer, with the address it is for. -/
structure IBusRsp (addressWidth dataWidth : ℕ) where
  address : BitVec addressWidth
  ir : BitVec dataWidth
deriving DecidableEq, Repr

instance {addressWidth dataWidth : ℕ} : Inhabited (IBusRsp addressWidth dataWidth) :=
  ⟨⟨0, 0⟩⟩

/-- The command that was issued last, and whether the bus has taken it. -/
structure IBusCurrentCmd (addressWidth : ℕ) where
  valid : Bool
  accepted : Bool
  address : BitVec addressWidth
deriving DecidableEq, Repr

/-- **A cycle**: the address the fetch stage reads, if it does, whether the bus
takes a command, and the word it answers with. -/
structure IBusCycle (addressWidth dataWidth : ℕ) where
  call : Option (BitVec addressWidth)
  cmdReady : Bool
  rsp : Option (BitVec dataWidth)

section

variable {addressWidth dataWidth ibusLatency irQueueSize : ℕ}

/-- **The state of the controller**, with its two FIFOs. -/
structure IBusControl (cmdFifo : Fifo (BitVec addressWidth) (ibusLatency + 1))
    (rspFifo : Fifo (IBusRsp addressWidth dataWidth) irQueueSize) where
  cmdFifo : cmdFifo.State
  rspFifo : rspFifo.State
  currentCmd : IBusCurrentCmd addressWidth
  restartCmdsToFlush : BitVec (log2Up (ibusLatency + 1 + 1))

namespace IBusControl

variable {cmdFifo : Fifo (BitVec addressWidth) (ibusLatency + 1)}
  {rspFifo : Fifo (IBusRsp addressWidth dataWidth) irQueueSize}

/-- The registers are 0 after a reset; the address has no reset value, and is
not read before it is set. -/
def reset : IBusControl cmdFifo rspFifo :=
  ⟨cmdFifo.reset, rspFifo.reset, ⟨false, false, 0⟩, 0⟩

variable (s : IBusControl cmdFifo rspFifo) (c : IBusCycle addressWidth dataWidth)

def restarting : Bool := s.restartCmdsToFlush != 0

/-- **`popRsp`**: the oldest answer, from the FIFO or from the bus. -/
def popRsp (rsp : Option (BitVec dataWidth)) : Option (IBusRsp addressWidth dataWidth) :=
  let result :=
    if rspFifo.popValid s.rspFifo then some (rspFifo.popPayload s.rspFifo)
    else rsp.map fun rdata => ⟨cmdFifo.popPayload s.cmdFifo, rdata⟩
  -- answers are ignored while restarting
  if s.restarting then none else result

/-- **`read`**: the word, if there is a valid one. -/
def read (address : BitVec addressWidth) (rsp : Option (BitVec dataWidth)) :
    Option (BitVec dataWidth) :=
  match s.popRsp rsp with
  | some rsp => if rsp.address == address then some rsp.ir else none
  | none => none

def restartNeeded (address : BitVec addressWidth) (rsp : Option (BitVec dataWidth)) : Bool :=
  match s.popRsp rsp with
  | some rsp => rsp.address != address
  | none => !cmdFifo.popValid s.cmdFifo || cmdFifo.popPayload s.cmdFifo != address

/-- The address to restart from. -/
def restartAddress : Option (BitVec addressWidth) :=
  match c.call with
  | some address => if s.restartNeeded address c.rsp && !s.restarting then some address else none
  | none => none

/-- The command to put on the bus next: the restart, or else the word after the
current command. -/
def nextCmd : Option (BitVec addressWidth) :=
  match s.restartAddress c with
  | some address => some address
  | none =>
    if s.currentCmd.valid then
      some (s.currentCmd.address + BitVec.ofNat addressWidth (dataWidth / 8))
    else none

/-- The current command still has to be taken. -/
def pending : Bool := s.currentCmd.valid && !s.currentCmd.accepted

/-- The address on the bus, while `bus.cmd.valid`. -/
def busCmd : Option (BitVec addressWidth) :=
  match s.nextCmd c with
  | some address =>
    if !s.currentCmd.valid || s.currentCmd.accepted then some address
    else if s.pending then some s.currentCmd.address else none
  | none => if s.pending then some s.currentCmd.address else none

/-- The next command becomes the current one. -/
def startsCmd : Bool :=
  (s.nextCmd c).isSome && (!s.currentCmd.valid || s.currentCmd.accepted || c.cmdReady)

def restartAccepted : Bool := s.startsCmd c && (s.restartAddress c).isSome

def nextCurrentCmd : IBusCurrentCmd addressWidth :=
  match s.nextCmd c with
  | some address =>
    let started :=
      if !s.currentCmd.valid || s.currentCmd.accepted || c.cmdReady then ⟨true, false, address⟩
      else s.currentCmd
    if !s.currentCmd.valid || s.currentCmd.accepted then { started with accepted := c.cmdReady }
    else started
  | none =>
    if s.pending then { s.currentCmd with accepted := c.cmdReady } else s.currentCmd

/-- A number of commands, in the bits of the counter. -/
def toFlush (n : ℕ) : BitVec (log2Up (ibusLatency + 1 + 1)) := BitVec.ofNat _ n

/-- Where both are assigned, the later assignment counts: a restart that is
accepted and an answer while restarting. -/
def nextRestartCmdsToFlush : BitVec (log2Up (ibusLatency + 1 + 1)) :=
  if c.rsp.isSome && s.restarting then s.restartCmdsToFlush - 1
  else if s.restartAccepted c then
    toFlush (cmdFifo.occupancy s.cmdFifo) - toFlush c.rsp.isSome.toNat + toFlush s.pending.toNat
  else s.restartCmdsToFlush

/-- What is pushed on `cmdFifo`: a command that the bus takes. -/
def cmdPush : Option (BitVec addressWidth) :=
  if (s.busCmd c).isSome && c.cmdReady then
    if s.pending then some s.currentCmd.address else s.nextCmd c
  else none

/-- What is pushed on `rspFifo`: an answer that the fetch stage is not given
at once. -/
def rspPush : Option (IBusRsp addressWidth dataWidth) :=
  if c.call.isSome && !rspFifo.popValid s.rspFifo then none
  else c.rsp.map fun rdata => ⟨cmdFifo.popPayload s.cmdFifo, rdata⟩

/-- **The next cycle.** -/
def next : IBusControl cmdFifo rspFifo where
  cmdFifo := cmdFifo.next s.cmdFifo (s.cmdPush c) c.rsp.isSome false
  rspFifo := rspFifo.next s.rspFifo (s.rspPush c)
    (c.call.isSome && rspFifo.popValid s.rspFifo) (s.restartAddress c).isSome
  currentCmd := s.nextCurrentCmd c
  restartCmdsToFlush := s.nextRestartCmdsToFlush c

/-- The word given to the fetch stage. -/
def ir : Option (BitVec dataWidth) := c.call.bind fun address => s.read address c.rsp

end IBusControl

/-! ## The bus -/

/-- A read the bus has taken, with its place in the order in which the reads
were issued. -/
structure IBusRead (addressWidth : ℕ) where
  address : BitVec addressWidth
  serial : ℕ
deriving DecidableEq, Repr

/-- **The controller and the bus**: the reads that are taken and not answered,
the oldest first, and all answers up to now, with the addresses they are for. -/
structure IBusRun (cmdFifo : Fifo (BitVec addressWidth) (ibusLatency + 1))
    (rspFifo : Fifo (IBusRsp addressWidth dataWidth) irQueueSize) where
  ctrl : IBusControl cmdFifo rspFifo
  outstanding : List (Aged (IBusRead addressWidth))
  answers : List (IBusRsp addressWidth dataWidth)
  /-- How many commands have been issued. -/
  issued : ℕ
  /-- The place of the last restart that was accepted in the order of the
  commands. -/
  lastRestart : ℕ

namespace IBusRun

variable {cmdFifo : Fifo (BitVec addressWidth) (ibusLatency + 1)}
  {rspFifo : Fifo (IBusRsp addressWidth dataWidth) irQueueSize}

def reset : IBusRun cmdFifo rspFifo := ⟨IBusControl.reset, [], [], 0, 0⟩

variable (s : IBusRun cmdFifo rspFifo) (c : IBusCycle addressWidth dataWidth)

/-- The read the bus takes. The current command is the last one issued; a
command that is not current yet is issued in this cycle. -/
def taken : Option (IBusRead addressWidth) :=
  if c.cmdReady then
    (s.ctrl.busCmd c).map fun address =>
      ⟨address, if s.ctrl.pending then s.issued - 1 else s.issued⟩
  else none

/-- The answer of the bus is for the oldest of the reads. -/
def answer : Option (IBusRsp addressWidth dataWidth) :=
  match c.rsp, s.outstanding with
  | some rdata, oldest :: _ => some ⟨oldest.item.address, rdata⟩
  | _, _ => none

/-- **The next cycle.** -/
def next : IBusRun cmdFifo rspFifo where
  ctrl := s.ctrl.next c
  outstanding := Aged.advance s.outstanding c.rsp.isSome (s.taken c)
  answers := s.answers ++ (s.answer c).toList
  issued := if s.ctrl.startsCmd c then s.issued + 1 else s.issued
  lastRestart := if s.ctrl.restartAccepted c then s.issued else s.lastRestart

/-- The reads that are taken and not answered and were issued before the last
restart. -/
def issuedBeforeRestart : List (IBusRead addressWidth) :=
  (Aged.items s.outstanding).filter fun r => r.serial < s.lastRestart

/-- **The bus answers in time**: only reads that it has taken, in their order,
and each within `ibusLatency` cycles. -/
structure AnswersInTime : Prop where
  taken : c.rsp.isSome = true → s.outstanding ≠ []
  inTime : ∀ oldest rest, s.outstanding = oldest :: rest → ibusLatency ≤ oldest.age →
    c.rsp.isSome = true

/-- **The controller does as it should** in a cycle. -/
structure Right : Prop where
  /-- The word given to the fetch stage is an answer to a read of its address. -/
  ir : ∀ address rdata, c.call = some address → s.ctrl.ir c = some rdata →
    ⟨address, rdata⟩ ∈ s.answers ++ (s.answer c).toList
  /-- The FIFO has the reads that are taken and not answered, in their order. -/
  contents : cmdFifo.contents s.ctrl.cmdFifo
    = (Aged.items s.outstanding).map IBusRead.address
  /-- What is pushed is what the bus takes. -/
  pushed : s.ctrl.cmdPush c = (s.taken c).map IBusRead.address
  /-- There is room for it. -/
  room : cmdFifo.occupancy s.ctrl.cmdFifo < ibusLatency + 1
  /-- The counter has the bits for what it may be set to. -/
  width : cmdFifo.occupancy s.ctrl.cmdFifo + 1 < 2 ^ log2Up (ibusLatency + 1 + 1)
  /-- The counter is the number of reads under way from before the restart. -/
  toFlush : s.ctrl.restartCmdsToFlush.toNat = s.issuedBeforeRestart.length

end IBusRun

/-- **The controller and the bus from cycle to cycle.** -/
def ibusMachine (cmdFifo : Fifo (BitVec addressWidth) (ibusLatency + 1))
    (rspFifo : Fifo (IBusRsp addressWidth dataWidth) irQueueSize) :
    SyncMachine (IBusRun cmdFifo rspFifo) (IBusCycle addressWidth dataWidth)
      (Option (BitVec dataWidth)) where
  step s c := (s.next c, s.ctrl.ir c)

/-! ## The command on the bus -/

namespace IBusControl

theorem toNat_sub_one {w : ℕ} {x : BitVec w} (h : x ≠ 0) : (x - 1).toNat = x.toNat - 1 := by
  have hpos : 0 < x.toNat := BitVec.toNat_pos_of_ne_zero h
  have hw : 0 < w := by
    by_contra hno
    obtain rfl : w = 0 := Nat.eq_zero_of_not_pos hno
    exact h (Subsingleton.elim x 0)
  have hone : (1 : BitVec w).toNat = 1 := BitVec.toNat_one hw
  rw [BitVec.toNat_sub_of_le, hone]
  rw [BitVec.le_def, hone]
  exact hpos

/-- A difference and a sum that fit are exact. -/
theorem toNat_toFlush {n p q : ℕ} (hp : p ≤ n)
    (hfits : n - p + q < 2 ^ log2Up (ibusLatency + 1 + 1)) :
    (toFlush n - toFlush p + toFlush q : BitVec (log2Up (ibusLatency + 1 + 1))).toNat
      = n - p + q := by
  obtain ⟨d, rfl⟩ := Nat.exists_eq_add_of_le' hp
  rw [Nat.add_sub_cancel] at hfits ⊢
  have hsum : (toFlush (d + p) : BitVec (log2Up (ibusLatency + 1 + 1)))
      = toFlush d + toFlush p := BitVec.ofNat_add d p
  have hsum' : (toFlush (d + q) : BitVec (log2Up (ibusLatency + 1 + 1)))
      = toFlush d + toFlush q := BitVec.ofNat_add d q
  rw [hsum, BitVec.add_sub_cancel, ← hsum']
  exact Nat.mod_eq_of_lt hfits

variable {cmdFifo : Fifo (BitVec addressWidth) (ibusLatency + 1)}
  {rspFifo : Fifo (IBusRsp addressWidth dataWidth) irQueueSize}
  {s : IBusControl cmdFifo rspFifo} {c : IBusCycle addressWidth dataWidth}

theorem free_eq : (!s.currentCmd.valid || s.currentCmd.accepted) = !s.pending := by
  unfold pending
  cases s.currentCmd.valid <;> cases s.currentCmd.accepted <;> rfl

/-- A command that is pending has one after it. -/
theorem nextCmd_isSome (h : s.pending = true) : (s.nextCmd c).isSome = true := by
  have hvalid : s.currentCmd.valid = true := (Bool.and_eq_true_iff.1 h).1
  unfold nextCmd
  cases s.restartAddress c with
  | some address => rfl
  | none =>
    show Option.isSome (if _ then _ else _) = true
    rw [if_pos hvalid]
    rfl

/-- **A pending command stays on the bus.** -/
theorem busCmd_of_pending (h : s.pending = true) : s.busCmd c = some s.currentCmd.address := by
  unfold busCmd
  rw [free_eq, h]
  cases s.nextCmd c <;> rfl

/-- Where none is pending, the next command goes on the bus at once. -/
theorem busCmd_of_not_pending (h : s.pending = false) : s.busCmd c = s.nextCmd c := by
  unfold busCmd
  rw [free_eq, h]
  cases s.nextCmd c <;> rfl

/-- **What is pushed is the command on the bus**, if it is taken. -/
theorem cmdPush_eq : s.cmdPush c = if c.cmdReady then s.busCmd c else none := by
  unfold cmdPush
  cases hready : c.cmdReady with
  | false => rw [Bool.and_false]; rfl
  | true =>
    rw [Bool.and_true, if_pos rfl]
    cases hpending : s.pending with
    | true =>
      rw [busCmd_of_pending hpending]
      rfl
    | false =>
      rw [busCmd_of_not_pending hpending]
      cases s.nextCmd c <;> rfl

theorem startsCmd_eq : s.startsCmd c = ((s.nextCmd c).isSome && (!s.pending || c.cmdReady)) := by
  unfold startsCmd
  rw [free_eq]

/-- After a pending command there is one pending again, the same or the next. -/
theorem pending_next_of_pending (h : s.pending = true) : (s.next c).pending = true := by
  show ((s.nextCurrentCmd c).valid && !(s.nextCurrentCmd c).accepted) = true
  obtain ⟨address, hnext⟩ := Option.isSome_iff_exists.1 (nextCmd_isSome (c := c) h)
  unfold nextCurrentCmd
  rw [hnext]
  simp only [free_eq, h]
  cases c.cmdReady with
  | true => rfl
  | false => exact h

/-- A command that is put on the bus at once is pending if it is not taken. -/
theorem pending_next_of_not_pending (h : s.pending = false) :
    (s.next c).pending = ((s.nextCmd c).isSome && !c.cmdReady) := by
  show ((s.nextCurrentCmd c).valid && !(s.nextCurrentCmd c).accepted) = _
  unfold nextCurrentCmd
  cases s.nextCmd c with
  | some address =>
    simp only [free_eq, h]
    rfl
  | none =>
    simp only [h]
    exact h

end IBusControl

/-! ## The order of the reads -/

namespace IBusRun

variable {cmdFifo : Fifo (BitVec addressWidth) (ibusLatency + 1)}
  {rspFifo : Fifo (IBusRsp addressWidth dataWidth) irQueueSize}

/-- The place of the read the bus takes next. -/
def nextSerial (s : IBusRun cmdFifo rspFifo) : ℕ :=
  if s.ctrl.pending then s.issued - 1 else s.issued

variable {s : IBusRun cmdFifo rspFifo} {c : IBusCycle addressWidth dataWidth}

theorem taken_eq :
    s.taken c = if c.cmdReady then (s.ctrl.busCmd c).map fun address => ⟨address, s.nextSerial⟩
      else none := rfl

theorem serial_taken {r : IBusRead addressWidth} (h : s.taken c = some r) :
    r.serial = s.nextSerial := by
  rw [taken_eq] at h
  split at h
  · obtain ⟨address, -, rfl⟩ := Option.map_eq_some_iff.1 h
    rfl
  · cases h

/-- What is pushed is what the bus takes. -/
theorem cmdPush_eq : s.ctrl.cmdPush c = (s.taken c).map IBusRead.address := by
  rw [IBusControl.cmdPush_eq, taken_eq]
  cases c.cmdReady with
  | false => rfl
  | true =>
    show s.ctrl.busCmd c = ((s.ctrl.busCmd c).map _).map _
    rw [Option.map_map]
    exact (Option.map_id_fun' ▸ rfl)

theorem taken_of_pending (h : s.ctrl.pending = true) : (s.taken c).isSome = c.cmdReady := by
  rw [taken_eq, IBusControl.busCmd_of_pending h]
  cases c.cmdReady <;> rfl

theorem taken_of_not_pending (h : s.ctrl.pending = false) :
    (s.taken c).isSome = (c.cmdReady && (s.ctrl.nextCmd c).isSome) := by
  rw [taken_eq, IBusControl.busCmd_of_not_pending h]
  cases c.cmdReady with
  | false => rfl
  | true => exact Option.isSome_map

/-- **The places go up by one** with each read that is taken. -/
theorem nextSerial_next (hpos : s.ctrl.pending = true → 0 < s.issued) :
    (s.next c).nextSerial = s.nextSerial + (s.taken c).isSome.toNat := by
  unfold nextSerial
  show (if (s.ctrl.next c).pending then (if s.ctrl.startsCmd c then _ else _) - 1
    else if s.ctrl.startsCmd c then _ else _) = _
  rw [IBusControl.startsCmd_eq]
  cases hpending : s.ctrl.pending with
  | true =>
    have hone := hpos hpending
    rw [IBusControl.pending_next_of_pending hpending, IBusControl.nextCmd_isSome hpending,
      taken_of_pending hpending]
    cases c.cmdReady with
    | true =>
      show s.issued + 1 - 1 = s.issued - 1 + 1
      omega
    | false => rfl
  | false =>
    rw [IBusControl.pending_next_of_not_pending hpending, taken_of_not_pending hpending]
    cases (s.ctrl.nextCmd c).isSome with
    | true => cases c.cmdReady <;> rfl
    | false => cases c.cmdReady <;> rfl

/-- What is issued is past all that is taken. -/
theorem issued_le_nextSerial_next (hstarts : s.ctrl.startsCmd c = true) :
    s.issued ≤ (s.next c).nextSerial := by
  have hissued : (s.next c).issued = s.issued + 1 := if_pos hstarts
  unfold nextSerial
  rw [hissued]
  split <;> omega

theorem startsCmd_of_restartAccepted (h : s.ctrl.restartAccepted c = true) :
    s.ctrl.startsCmd c = true := (Bool.and_eq_true_iff.1 h).1

/-- A restart is accepted only when no answers are left to ignore. -/
theorem not_restarting_of_restartAccepted (h : s.ctrl.restartAccepted c = true) :
    s.ctrl.restarting = false := by
  have hsome := (Bool.and_eq_true_iff.1 h).2
  unfold IBusControl.restartAddress at hsome
  cases hcall : c.call with
  | none =>
    rw [hcall] at hsome
    cases hsome
  | some address =>
    rw [hcall] at hsome
    cases hrestarting : s.ctrl.restarting with
    | false => rfl
    | true =>
      simp only [hrestarting, Bool.not_true, Bool.and_false] at hsome
      cases hsome

/-! ## The invariant -/

/-- **What holds between the cycles.** -/
structure Paired (s : IBusRun cmdFifo rspFifo) : Prop where
  line : Aged.InLine ibusLatency s.outstanding
  contents : cmdFifo.contents s.ctrl.cmdFifo
    = (Aged.items s.outstanding).map IBusRead.address
  answers : ∀ r ∈ rspFifo.contents s.ctrl.rspFifo, r ∈ s.answers
  sorted : ((Aged.items s.outstanding).map IBusRead.serial).Pairwise (· < ·)
  serials : ∀ r ∈ Aged.items s.outstanding, r.serial < s.nextSerial
  issued : s.ctrl.pending = true → 0 < s.issued
  lastRestart : s.lastRestart ≤ s.nextSerial
  toFlush : s.ctrl.restartCmdsToFlush.toNat = s.issuedBeforeRestart.length

namespace Paired

theorem reset : (reset : IBusRun cmdFifo rspFifo).Paired where
  line := Aged.InLine.nil
  contents := cmdFifo.contents_reset
  answers r hr := by
    rw [show (IBusRun.reset : IBusRun cmdFifo rspFifo).ctrl.rspFifo = rspFifo.reset from rfl,
      rspFifo.contents_reset] at hr
    cases hr
  sorted := List.Pairwise.nil
  serials r hr := absurd hr List.not_mem_nil
  issued h := by cases h
  lastRestart := Nat.le_refl 0
  toFlush := rfl

variable (h : s.Paired) (hbus : s.AnswersInTime c)

include h

theorem length_le : (Aged.items s.outstanding).length ≤ ibusLatency := by
  unfold Aged.items
  rw [List.length_map]
  exact h.line.length_le

theorem occupancy_eq :
    cmdFifo.occupancy s.ctrl.cmdFifo = (Aged.items s.outstanding).length := by
  rw [cmdFifo.occupancy_eq, h.contents, List.length_map]

/-- **There is room in the FIFO.** -/
theorem room : (cmdFifo.contents s.ctrl.cmdFifo).length < ibusLatency + 1 := by
  rw [h.contents, List.length_map]
  exact Nat.lt_succ_of_le h.length_le

include hbus

/-- **The answer is paired with the address it is for.** -/
theorem answer_eq :
    (c.rsp.map fun rdata => ⟨cmdFifo.popPayload s.ctrl.cmdFifo, rdata⟩) = s.answer c := by
  unfold answer
  cases hrsp : c.rsp with
  | none => rfl
  | some rdata =>
    cases hout : s.outstanding with
    | nil =>
      refine absurd hout (hbus.taken ?_)
      rw [hrsp]
      rfl
    | cons oldest rest =>
      have hcontents := h.contents
      rw [hout] at hcontents
      show some _ = some _
      rw [cmdFifo.popPayload_eq _ _ _ hcontents]

/-! ## One cycle -/

/-- **The word given to the fetch stage** is one the bus returned for that
address. -/
theorem ir_mem {address : BitVec addressWidth} {rdata : BitVec dataWidth}
    (hcall : c.call = some address) (hir : s.ctrl.ir c = some rdata) :
    ⟨address, rdata⟩ ∈ s.answers ++ (s.answer c).toList := by
  unfold IBusControl.ir at hir
  rw [hcall, Option.bind_some] at hir
  unfold IBusControl.read at hir
  cases hpop : s.ctrl.popRsp c.rsp with
  | none =>
    rw [hpop] at hir
    cases hir
  | some rsp =>
    rw [hpop] at hir
    dsimp only at hir
    split at hir
    case isFalse => cases hir
    case isTrue hsame =>
      obtain rfl : rsp.ir = rdata := Option.some.inj hir
      obtain rfl : rsp.address = address := eq_of_beq hsame
      unfold IBusControl.popRsp at hpop
      dsimp only at hpop
      split at hpop
      · cases hpop
      · split at hpop
        case isTrue hvalid =>
          -- the answer is one that has been kept
          obtain rfl := Option.some.inj hpop
          exact List.mem_append_left _ (h.answers _ (rspFifo.popPayload_mem hvalid))
        case isFalse =>
          -- the answer is on the bus
          rw [h.answer_eq hbus] at hpop
          rw [hpop]
          exact List.mem_append_right _ (List.mem_singleton.2 rfl)

/-- What is kept is what the bus has answered. -/
theorem answers_next {r : IBusRsp addressWidth dataWidth}
    (hr : r ∈ rspFifo.contents (s.next c).ctrl.rspFifo) : r ∈ (s.next c).answers := by
  rcases rspFifo.mem_next hr with hr | hr
  · exact List.mem_append_left _ (h.answers r hr)
  · refine List.mem_append_right _ (Option.mem_toList.2 ?_)
    rw [← h.answer_eq hbus]
    unfold IBusControl.rspPush at hr
    split at hr
    · cases hr
    · exact hr

omit hbus in
/-- The addresses stay those of the reads that are under way. -/
theorem contents_next :
    cmdFifo.contents (s.next c).ctrl.cmdFifo
      = (Aged.items (s.next c).outstanding).map IBusRead.address := by
  show cmdFifo.contents (cmdFifo.next s.ctrl.cmdFifo (s.ctrl.cmdPush c) c.rsp.isSome false)
    = (Aged.items (Aged.advance _ _ _)).map _
  rw [cmdFifo.contents_push h.room, Aged.items_advance, List.map_append, cmdPush_eq, h.contents]
  congr 1
  · cases c.rsp.isSome with
    | false => rfl
    | true => exact List.map_tail.symm
  · cases s.taken c <;> rfl

omit hbus in
/-- A read that stays or is taken was issued before the next to be taken. -/
theorem serials_next {r : IBusRead addressWidth}
    (hr : r ∈ Aged.items (s.next c).outstanding) : r.serial < (s.next c).nextSerial := by
  have hr : r ∈ Aged.items (Aged.advance s.outstanding c.rsp.isSome (s.taken c)) := hr
  rw [Aged.items_advance] at hr
  rw [nextSerial_next h.issued]
  rcases List.mem_append.1 hr with hr | hr
  · have hmem : r ∈ Aged.items s.outstanding := by
      split at hr
      · exact List.mem_of_mem_tail hr
      · exact hr
    exact Nat.lt_add_right _ (h.serials r hmem)
  · have htaken := Option.mem_toList.1 hr
    rw [serial_taken htaken, htaken]
    exact Nat.lt_succ_self _

omit hbus in
theorem sorted_next :
    ((Aged.items (s.next c).outstanding).map IBusRead.serial).Pairwise (· < ·) := by
  show ((Aged.items (Aged.advance _ _ _)).map _).Pairwise _
  rw [Aged.items_advance, List.map_append, List.pairwise_append]
  refine ⟨?_, ?_, ?_⟩
  · split
    · rw [List.map_tail]
      exact h.sorted.sublist (List.tail_sublist _)
    · exact h.sorted
  · cases s.taken c with
    | none => exact List.Pairwise.nil
    | some r => exact List.pairwise_singleton _ _
  · intro m hm n hn
    obtain ⟨a, ha, rfl⟩ := List.mem_map.1 hm
    obtain ⟨b, hb, rfl⟩ := List.mem_map.1 hn
    rw [serial_taken (Option.mem_toList.1 hb)]
    refine h.serials a ?_
    split at ha
    · exact List.mem_of_mem_tail ha
    · exact ha

omit hbus in
theorem issued_next (hpending : (s.next c).ctrl.pending = true) : 0 < (s.next c).issued := by
  show 0 < if _ then s.issued + 1 else s.issued
  split
  · exact Nat.succ_pos _
  case isFalse hstarts =>
    cases hp : s.ctrl.pending with
    | true => exact h.issued hp
    | false =>
      -- only a command that starts becomes pending
      rw [show (s.next c).ctrl.pending = (s.ctrl.next c).pending from rfl,
        IBusControl.pending_next_of_not_pending hp] at hpending
      rw [IBusControl.startsCmd_eq, hp, (Bool.and_eq_true_iff.1 hpending).1] at hstarts
      exact absurd rfl hstarts

omit hbus in
theorem lastRestart_next : (s.next c).lastRestart ≤ (s.next c).nextSerial := by
  show (if _ then s.issued else s.lastRestart) ≤ _
  split
  case isTrue hrestart => exact issued_le_nextSerial_next (startsCmd_of_restartAccepted hrestart)
  case isFalse =>
    rw [nextSerial_next h.issued]
    exact Nat.le_add_right_of_le h.lastRestart

omit hbus in
/-- There are bits for one more than the FIFO ever holds. -/
theorem width : (Aged.items s.outstanding).length + 1 < 2 ^ log2Up (ibusLatency + 1 + 1) :=
  calc (Aged.items s.outstanding).length + 1 < ibusLatency + 1 + 1 :=
        Nat.succ_lt_succ (Nat.lt_succ_of_le h.length_le)
    _ ≤ 2 ^ log2Up (ibusLatency + 1 + 1) := Nat.le_pow_clog Nat.one_lt_two _

omit hbus in
/-- **A restart is after all that is under way**: what stays, and the command
that was pending, are from before it. -/
theorem issuedBeforeRestart_of_restart (hrestart : s.ctrl.restartAccepted c = true) :
    (s.next c).issuedBeforeRestart.length
      = (if c.rsp.isSome then (Aged.items s.outstanding).tail
        else Aged.items s.outstanding).length + s.ctrl.pending.toNat := by
  have hlast : (s.next c).lastRestart = s.issued := if_pos hrestart
  have hplace : s.nextSerial ≤ s.issued := by
    unfold nextSerial
    split
    · exact Nat.sub_le s.issued 1
    · exact Nat.le_refl _
  unfold issuedBeforeRestart
  rw [hlast]
  show ((Aged.items (Aged.advance _ _ _)).filter _).length = _
  rw [Aged.items_advance, List.filter_append, List.length_append]
  congr 1
  · rw [List.filter_eq_self.2]
    intro r hr
    refine decide_eq_true (Nat.lt_of_lt_of_le (h.serials r ?_) hplace)
    split at hr
    · exact List.mem_of_mem_tail hr
    · exact hr
  · have hstarts := startsCmd_of_restartAccepted hrestart
    rw [IBusControl.startsCmd_eq] at hstarts
    cases hpending : s.ctrl.pending with
    | true =>
      -- the pending command makes room for the restart by being taken
      rw [hpending, Bool.not_true, Bool.false_or] at hstarts
      have hsome : (s.taken c).isSome = true := by
        rw [taken_of_pending hpending]
        exact (Bool.and_eq_true_iff.1 hstarts).2
      obtain ⟨r, hr⟩ := Option.isSome_iff_exists.1 hsome
      have hserial : r.serial = s.issued - 1 := by
        rw [serial_taken hr]
        exact if_pos hpending
      have hlt : r.serial < s.issued := by
        rw [hserial]
        exact Nat.sub_lt (h.issued hpending) Nat.one_pos
      rw [hr]
      show ([r].filter _).length = 1
      rw [List.filter_cons_of_pos]
      · rfl
      · exact decide_eq_true hlt
    | false =>
      -- what is taken is the restart
      cases hr : s.taken c with
      | none => rfl
      | some r =>
        have hserial : r.serial = s.issued := by
          rw [serial_taken hr]
          exact if_neg (by rw [hpending]; exact Bool.false_ne_true)
        show ([r].filter _).length = 0
        rw [List.filter_cons_of_neg]
        · rfl
        · rw [hserial, decide_eq_true_iff]
          exact Nat.lt_irrefl _

omit hbus in
/-- Without a restart, what is taken is from after the last one. -/
theorem issuedBeforeRestart_of_not_restart (hrestart : s.ctrl.restartAccepted c = false) :
    (s.next c).issuedBeforeRestart
      = (if c.rsp.isSome then (Aged.items s.outstanding).tail
        else Aged.items s.outstanding).filter fun r => r.serial < s.lastRestart := by
  have hlast : (s.next c).lastRestart = s.lastRestart :=
    if_neg (by rw [hrestart]; exact Bool.false_ne_true)
  unfold issuedBeforeRestart
  rw [hlast]
  show (Aged.items (Aged.advance _ _ _)).filter _ = _
  rw [Aged.items_advance, List.filter_append]
  cases hr : s.taken c with
  | none => exact List.append_nil _
  | some r =>
    have hge : ¬ r.serial < s.lastRestart := by
      rw [serial_taken hr]
      exact Nat.not_lt.2 h.lastRestart
    show _ ++ [r].filter _ = _
    rw [List.filter_cons_of_neg (by rw [decide_eq_true_iff]; exact hge)]
    exact List.append_nil _

omit hbus in
/-- **The reads from before the restart are the first in line.** -/
theorem before_of_cons {oldest : IBusRead addressWidth} {rest : List (IBusRead addressWidth)}
    (hitems : Aged.items s.outstanding = oldest :: rest)
    (hsome : s.issuedBeforeRestart ≠ []) : oldest.serial < s.lastRestart := by
  obtain ⟨r, hr⟩ := List.exists_mem_of_ne_nil _ hsome
  obtain ⟨hmem, hlt⟩ := List.mem_filter.1 hr
  have hlt : r.serial < s.lastRestart := of_decide_eq_true hlt
  have hsorted := h.sorted
  rw [hitems] at hmem hsorted
  rcases List.mem_cons.1 hmem with rfl | hmem
  · exact hlt
  · have hfirst := List.rel_of_pairwise_cons hsorted (List.mem_map_of_mem hmem)
    exact Nat.lt_trans hfirst hlt

/-- With a restart, the counter is set to the number of reads from before it. -/
theorem toFlush_next_of_restart (hrestart : s.ctrl.restartAccepted c = true) :
    (s.ctrl.nextRestartCmdsToFlush c).toNat = (s.next c).issuedBeforeRestart.length := by
  have hwidth := h.width
  have hpending : s.ctrl.pending.toNat ≤ 1 := Bool.toNat_le _
  unfold IBusControl.nextRestartCmdsToFlush
  rw [not_restarting_of_restartAccepted hrestart, Bool.and_false, if_neg Bool.false_ne_true,
    if_pos hrestart, h.issuedBeforeRestart_of_restart hrestart, h.occupancy_eq]
  cases hrsp : c.rsp.isSome with
  | false =>
    rw [Bool.toNat_false, IBusControl.toNat_toFlush (Nat.zero_le _) (by omega)]
    rfl
  | true =>
    have hne : Aged.items s.outstanding ≠ [] := fun hnil =>
      hbus.taken hrsp (List.map_eq_nil_iff.1 hnil)
    have hpos := List.length_pos_iff.2 hne
    rw [Bool.toNat_true, IBusControl.toNat_toFlush hpos (by omega), if_pos rfl, List.length_tail]

omit hbus in
/-- **Each answer while restarting is one less to ignore**, since those from
before the restart come first. -/
theorem toFlush_next_of_answer {oldest : IBusRead addressWidth}
    {rest : List (IBusRead addressWidth)} (hitems : Aged.items s.outstanding = oldest :: rest) :
    (if s.ctrl.restarting then s.ctrl.restartCmdsToFlush - 1
      else s.ctrl.restartCmdsToFlush).toNat
      = (rest.filter fun r => r.serial < s.lastRestart).length := by
  have hcount := h.toFlush
  cases hrestarting : s.ctrl.restarting with
  | true =>
    have hne : s.ctrl.restartCmdsToFlush ≠ 0 := bne_iff_ne.1 hrestarting
    have hsome : s.issuedBeforeRestart ≠ [] := by
      intro hnil
      rw [hnil] at hcount
      exact hne (BitVec.eq_of_toNat_eq hcount)
    have hcons : s.issuedBeforeRestart
        = oldest :: rest.filter fun r => r.serial < s.lastRestart := by
      unfold issuedBeforeRestart
      rw [hitems]
      exact List.filter_cons_of_pos (decide_eq_true (h.before_of_cons hitems hsome))
    rw [hcons, List.length_cons] at hcount
    rw [if_pos rfl, IBusControl.toNat_sub_one hne, hcount]
    exact Nat.add_sub_cancel _ _
  | false =>
    have hzero : s.ctrl.restartCmdsToFlush = 0 := by
      by_contra hne
      rw [show s.ctrl.restarting = true from bne_iff_ne.2 hne] at hrestarting
      cases hrestarting
    rw [if_neg Bool.false_ne_true]
    rw [hzero] at hcount ⊢
    have hnil : s.issuedBeforeRestart = [] := List.length_eq_zero_iff.1 hcount.symm
    unfold issuedBeforeRestart at hnil
    rw [hitems] at hnil
    have hrest : (rest.filter fun r => r.serial < s.lastRestart) = [] :=
      List.sublist_nil.1 (hnil ▸ (List.sublist_cons_self oldest rest).filter _)
    rw [hrest]
    rfl

/-- **The counter stays the number of reads from before the restart.** -/
theorem toFlush_next :
    (s.next c).ctrl.restartCmdsToFlush.toNat = (s.next c).issuedBeforeRestart.length := by
  cases hrestart : s.ctrl.restartAccepted c with
  | true => exact h.toFlush_next_of_restart hbus hrestart
  | false =>
    show (s.ctrl.nextRestartCmdsToFlush c).toNat = _
    unfold IBusControl.nextRestartCmdsToFlush
    rw [h.issuedBeforeRestart_of_not_restart hrestart, hrestart]
    cases hrsp : c.rsp.isSome with
    | false => exact h.toFlush
    | true =>
      cases hitems : Aged.items s.outstanding with
      | nil => exact absurd (List.map_eq_nil_iff.1 hitems) (hbus.taken hrsp)
      | cons oldest rest => exact h.toFlush_next_of_answer hitems

/-- **One cycle keeps the pairing.** -/
theorem next (hlatency : 0 < ibusLatency) : (s.next c).Paired where
  line := h.line.advance hlatency hbus.inTime
  contents := h.contents_next
  answers _ hr := h.answers_next hbus hr
  sorted := h.sorted_next
  serials _ hr := h.serials_next hr
  issued := h.issued_next
  lastRestart := h.lastRestart_next
  toFlush := h.toFlush_next hbus

/-- What the pairing gives of a cycle. -/
theorem right : s.Right c where
  ir _ _ hcall hir := h.ir_mem hbus hcall hir
  contents := h.contents
  pushed := cmdPush_eq
  room := by
    rw [cmdFifo.occupancy_eq]
    exact h.room
  width := by
    rw [h.occupancy_eq]
    exact h.width
  toFlush := h.toFlush

end Paired

end IBusRun

/-! ## Runs -/

/-- **The right instruction word**: of a bus that answers in time, every word
given to the fetch stage is one that was read from the address it asked for, no
command is lost from the FIFO, and the answers to ignore are counted right. -/
theorem ibusControl_right (cmdFifo : Fifo (BitVec addressWidth) (ibusLatency + 1))
    (rspFifo : Fifo (IBusRsp addressWidth dataWidth) irQueueSize) (hlatency : 0 < ibusLatency)
    (env : ℕ → IBusCycle addressWidth dataWidth)
    (hbus : ∀ n, ((ibusMachine cmdFifo rspFifo).stateAt IBusRun.reset env n).AnswersInTime (env n))
    (n : ℕ) : ((ibusMachine cmdFifo rspFifo).stateAt IBusRun.reset env n).Right (env n) :=
  ((ibusMachine cmdFifo rspFifo).stateAt_invariant
    (C := fun s c => s.AnswersInTime c) (fun _ _ h hc => h.next hc hlatency)
    IBusRun.Paired.reset hbus n).right (hbus n)

end

/-- One read, which the bus takes at once and answers in the next cycle. -/
def oneRead : ℕ → IBusCycle 32 32
  | 0 => ⟨some 0x100, true, none⟩
  | 1 => ⟨some 0x100, false, some 0x13⟩
  | _ => ⟨none, false, none⟩

/-- The controller with FIFOs that are lists, at a latency of one cycle. -/
def oneReadMachine :=
  ibusMachine (Fifo.ofList (BitVec 32) (1 + 1)) (Fifo.ofList (IBusRsp 32 32) 4)

theorem oneRead_right :
    (∀ n, (oneReadMachine.stateAt IBusRun.reset oneRead n).Right (oneRead n))
      ∧ oneReadMachine.obsAt IBusRun.reset oneRead 1 = some 0x13 := by
  have hnone : ∀ n, (oneReadMachine.stateAt IBusRun.reset oneRead (n + 2)).outstanding = [] := by
    intro n
    induction n with
    | zero => rfl
    | succ n ih =>
      show Aged.advance (oneReadMachine.stateAt IBusRun.reset oneRead (n + 2)).outstanding false
        none = []
      rw [ih]
      rfl
  refine ⟨ibusControl_right _ _ Nat.one_pos oneRead fun n => ?_, by decide⟩
  match n with
  | 0 =>
    refine ⟨fun h => absurd h Bool.false_ne_true, fun _ _ h => ?_⟩
    exact absurd h (List.cons_ne_nil _ _).symm
  | 1 => exact ⟨fun _ => List.cons_ne_nil _ _, fun _ _ _ _ => rfl⟩
  | n + 2 =>
    refine ⟨fun h => absurd h Bool.false_ne_true, fun oldest rest h => ?_⟩
    exact absurd (h.symm.trans (hnone n)) (List.cons_ne_nil oldest rest)

end Proteus
