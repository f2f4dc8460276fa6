import CheriTree.SyncMachine
import CheriTree.Proteus.MemBus

/-!
# Calls that are abandoned

The client of `MemBusControl` may drop a call in any cycle, and make another one
in the next. The bus takes a command when it likes and answers each read that
it took once; writes have no answer.

The one command the controller holds is matched by its address only, and by
whether it is a write. That goes wrong in three ways. A write that was dropped
before the bus took it is taken while the client does something else, and the
controller then waits for an answer that does not come, for good. A write of
other data to the same address is reported as accepted when the old one is
taken. And a write that is called while the controller waits for a read makes it
forget the read as soon as the bus is ready, whose answer then goes to the next
read. In a run without these, the controller does as it should.
-/

namespace Proteus

/-! ## The controller and the bus -/

/-- **A cycle**: the call of the client, whether the bus takes a command, and
which of the reads it has taken it answers, with what. -/
structure BusCycle where
  call : BusCall
  cmdReady : Bool
  rsp : Option (ℕ × Word)

/-- **The controller, and the reads the bus has taken and not answered.** -/
structure ControlledBus where
  ctrl : MemBusControl
  outstanding : List Word
deriving DecidableEq, Repr

namespace ControlledBus

def reset : ControlledBus := ⟨MemBusControl.reset, []⟩

variable (s : ControlledBus) (c : BusCycle)

/-- The command the bus takes. -/
def taken : Option MemBusCmd := if c.cmdReady then s.ctrl.busCmd c.call else none

/-- The reads the bus may answer: those it has taken, up to this cycle. -/
def awaited : List Word :=
  match s.taken c with
  | some cmd => if cmd.write then s.outstanding else s.outstanding ++ [cmd.address]
  | none => s.outstanding

/-- The address of the read that is answered, and the answer. -/
def answered : Option (Word × Word) :=
  match c.rsp with
  | some (k, data) => ((s.awaited c)[k]?).map fun address => (address, data)
  | none => none

/-- **The next cycle.** Each read is answered once. -/
def next : ControlledBus where
  ctrl := s.ctrl.next c.call c.cmdReady (s.answered c).isSome
  outstanding :=
    match c.rsp with
    | some (k, _) => (s.awaited c).eraseIdx k
    | none => s.awaited c

/-- The call is done in this cycle. -/
def done : Bool := s.ctrl.done c.call c.cmdReady (s.answered c).isSome

end ControlledBus

/-- **The controller from cycle to cycle**, and whether the call is done. -/
def busMachine : SyncMachine ControlledBus BusCycle Bool where
  step s c := (s.next c, s.done c)

/-- **The controller does as it should** in a cycle. -/
structure ControlledBus.Sound (s : ControlledBus) (c : BusCycle) : Prop where
  /-- A command stays until it is taken, whatever the client calls. -/
  stable : ∀ cmd, s.ctrl.busCmd c.call = some cmd → c.cmdReady = false →
    ∀ call, (s.next c).ctrl.busCmd call = some cmd
  /-- What the controller waits for will be answered. -/
  ready : s.ctrl.ready = true → s.outstanding ≠ []
  /-- A read that is done has the answer to a read of its address. -/
  read : ∀ address, c.call = .read address → s.done c = true →
    ∃ data, s.answered c = some (address, data)
  /-- A write that is done has been taken as it was called. -/
  write : ∀ address wdata wmask, c.call = .write address wdata wmask → s.done c = true →
    s.taken c = some ⟨address, true, wdata, wmask⟩

/-- The call is a write. -/
def BusCall.isWrite : BusCall → Bool
  | .write _ _ _ => true
  | _ => false

/-- **The controller goes wrong** in a cycle. -/
inductive ControlledBus.GoesWrong (s : ControlledBus) (c : BusCycle) : Prop
  /-- A write is taken that is no longer called for. -/
  | dropped (hvalid : s.ctrl.valid = true) (hwrite : s.ctrl.cmd.write = true)
    (hready : c.cmdReady = true) (hcall : c.call.isWrite = false)
  /-- A write is taken, and another one to its address is called. -/
  | changed (hvalid : s.ctrl.valid = true) (hwrite : s.ctrl.cmd.write = true)
    (hready : c.cmdReady = true) {wdata : Word} {wmask : BitVec 4}
    (hcall : c.call = .write s.ctrl.cmd.address wdata wmask)
    (hother : (wdata, wmask) ≠ (s.ctrl.cmd.wdata, s.ctrl.cmd.wmask))
  /-- A write is called, and the bus is ready, while the controller is at a
  read. -/
  | forgotten (hissued : s.ctrl.isIssued = true) (hread : s.ctrl.cmd.write = false)
    (hready : c.cmdReady = true) (hcall : c.call.isWrite = true)

/-! ## The controller in a cycle -/

namespace MemBusControl

variable {ctrl : MemBusControl} {call : BusCall} {cmdReady rspValid : Bool}

/-- **While it waits for an answer** the controller stays, whatever is called,
but for a write that the bus is ready for. -/
theorem next_waiting (hready : ctrl.ready = true) (hvalid : ctrl.valid = false)
    (hwrite : call.isWrite = true → cmdReady = false) :
    ctrl.next call cmdReady rspValid = ⟨false, !rspValid, ctrl.cmd⟩ := by
  obtain ⟨valid, ready, cmd⟩ := ctrl
  obtain rfl : ready = true := hready
  obtain rfl : valid = false := hvalid
  cases call with
  | idle => cases rspValid <;> rfl
  | read address => cases rspValid <;> rfl
  | write address wdata wmask =>
    rw [hwrite rfl]
    cases rspValid <;> rfl

/-- **A command that is not taken** stays. -/
theorem next_shown (hready : ctrl.ready = false) (hvalid : ctrl.valid = true) :
    ctrl.next call false false = ctrl := by
  obtain ⟨valid, ready, cmd⟩ := ctrl
  obtain rfl : ready = false := hready
  obtain rfl : valid = true := hvalid
  cases call <;> rfl

/-- A command that is taken while no write is called is one to wait for. -/
theorem next_taken (hready : ctrl.ready = false) (hvalid : ctrl.valid = true)
    (hcall : call.isWrite = false) :
    ctrl.next call true rspValid = ⟨false, !rspValid, ctrl.cmd⟩ := by
  obtain ⟨valid, ready, cmd⟩ := ctrl
  obtain rfl : ready = false := hready
  obtain rfl : valid = true := hvalid
  cases call with
  | idle => cases rspValid <;> rfl
  | read address => cases rspValid <;> rfl
  | write address wdata wmask => cases hcall

/-- A command that is taken while a write is called is done. -/
theorem next_taken_write (hready : ctrl.ready = false) (hvalid : ctrl.valid = true)
    (hcall : call.isWrite = true) :
    ctrl.next call true false = ⟨false, false, ctrl.cmd⟩ := by
  obtain ⟨valid, ready, cmd⟩ := ctrl
  obtain rfl : ready = false := hready
  obtain rfl : valid = true := hvalid
  cases call with
  | idle => cases hcall
  | read address => cases hcall
  | write address wdata wmask => rfl

/-- **A command that is issued and not taken** is held. -/
theorem next_issued (hready : ctrl.ready = false) (hvalid : ctrl.valid = false) {cmd : MemBusCmd}
    (hcmd : ctrl.issued call = some cmd) : ctrl.next call false false = ⟨true, false, cmd⟩ := by
  obtain ⟨valid, ready, held⟩ := ctrl
  obtain rfl : ready = false := hready
  obtain rfl : valid = false := hvalid
  cases call with
  | idle => cases hcmd
  | read address =>
    obtain rfl := Option.some.inj hcmd
    rfl
  | write address wdata wmask =>
    obtain rfl := Option.some.inj hcmd
    rfl

/-- A read that is taken at once is one to wait for. -/
theorem next_issued_read (hready : ctrl.ready = false) (hvalid : ctrl.valid = false)
    {address : Word} : ctrl.next (.read address) true rspValid
      = ⟨false, !rspValid, { ctrl.cmd with address := address, write := false }⟩ := by
  obtain ⟨valid, ready, held⟩ := ctrl
  obtain rfl : ready = false := hready
  obtain rfl : valid = false := hvalid
  cases rspValid <;> rfl

/-- A write that is taken at once is done. -/
theorem next_issued_write (hready : ctrl.ready = false) (hvalid : ctrl.valid = false)
    {address wdata : Word} {wmask : BitVec 4} : ctrl.next (.write address wdata wmask) true false
      = ⟨false, false, ⟨address, true, wdata, wmask⟩⟩ := by
  obtain ⟨valid, ready, held⟩ := ctrl
  obtain rfl : ready = false := hready
  obtain rfl : valid = false := hvalid
  rfl

/-- Without a call nothing happens. -/
theorem next_idle (hready : ctrl.ready = false) (hvalid : ctrl.valid = false) :
    ctrl.next .idle cmdReady false = ctrl := by
  obtain ⟨valid, ready, held⟩ := ctrl
  obtain rfl : ready = false := hready
  obtain rfl : valid = false := hvalid
  rfl

theorem busCmd_waiting (hready : ctrl.ready = true) (hvalid : ctrl.valid = false) :
    ctrl.busCmd call = none := by
  unfold busCmd isIssued
  rw [hready, hvalid]
  rfl

theorem busCmd_shown (hvalid : ctrl.valid = true) : ctrl.busCmd call = some ctrl.cmd := by
  unfold busCmd isIssued
  rw [hvalid]
  rfl

theorem busCmd_free (hready : ctrl.ready = false) (hvalid : ctrl.valid = false) :
    ctrl.busCmd call = ctrl.issued call := by
  unfold busCmd isIssued
  rw [hready, hvalid]
  rfl

end MemBusControl

/-! ## Answers -/

namespace ControlledBus

variable {s : ControlledBus} {c : BusCycle}

/-- Nothing is answered if there is nothing to answer. -/
theorem answered_of_nil (h : s.awaited c = []) :
    s.answered c = none ∧ (s.next c).outstanding = [] := by
  unfold answered next
  rw [h]
  cases c.rsp <;> exact ⟨rfl, rfl⟩

/-- **The one read that may be answered** is answered, or stays. -/
theorem answered_of_singleton {address : Word} (h : s.awaited c = [address]) :
    (s.answered c = none ∧ (s.next c).outstanding = [address])
      ∨ (∃ data, s.answered c = some (address, data)) ∧ (s.next c).outstanding = [] := by
  unfold answered next
  rw [h]
  cases c.rsp with
  | none => exact Or.inl ⟨rfl, rfl⟩
  | some r =>
    obtain ⟨k, data⟩ := r
    cases k with
    | zero => exact Or.inr ⟨⟨data, rfl⟩, rfl⟩
    | succ k => exact Or.inl ⟨rfl, rfl⟩

/-- What is answered is one of the reads that may be. -/
theorem mem_awaited_of_answered {r : Word × Word} (h : s.answered c = some r) :
    r.1 ∈ s.awaited c := by
  unfold answered at h
  split at h
  · rw [Option.map_eq_some_iff] at h
    obtain ⟨address, haddress, rfl⟩ := h
    exact List.mem_of_getElem? haddress
  · cases h

/-- A read that is done. -/
theorem done_read {address : Word} (hcall : c.call = .read address) (hdone : s.done c = true) :
    (∃ r, s.answered c = some r)
      ∧ (s.ctrl.isIssued = false ∨ s.ctrl.cmd.address = address ∧ s.ctrl.cmd.write = false) := by
  unfold done MemBusControl.done at hdone
  rw [hcall] at hdone
  dsimp only at hdone
  rw [Bool.and_eq_true, Bool.or_eq_true, Bool.and_eq_true, Bool.not_eq_true', Bool.not_eq_true',
    decide_eq_true_eq] at hdone
  exact ⟨Option.isSome_iff_exists.1 hdone.1, hdone.2⟩

/-- A write that is done. -/
theorem done_write {address wdata : Word} {wmask : BitVec 4}
    (hcall : c.call = .write address wdata wmask) (hdone : s.done c = true) :
    c.cmdReady = true
      ∧ (s.ctrl.isIssued = false ∨ s.ctrl.cmd.address = address ∧ s.ctrl.cmd.write = true) := by
  unfold done MemBusControl.done at hdone
  rw [hcall] at hdone
  dsimp only at hdone
  rw [Bool.and_eq_true, Bool.or_eq_true, Bool.and_eq_true, Bool.not_eq_true', decide_eq_true_eq]
    at hdone
  exact hdone

theorem awaited_of_none (h : s.taken c = none) : s.awaited c = s.outstanding := by
  unfold awaited
  rw [h]

theorem awaited_of_write {cmd : MemBusCmd} (h : s.taken c = some cmd) (hwrite : cmd.write = true) :
    s.awaited c = s.outstanding := by
  unfold awaited
  rw [h]
  exact if_pos hwrite

theorem awaited_of_read {cmd : MemBusCmd} (h : s.taken c = some cmd) (hread : cmd.write = false) :
    s.awaited c = s.outstanding ++ [cmd.address] := by
  unfold awaited
  rw [h]
  exact if_neg (by rw [hread]; decide)

theorem taken_of_ready (h : c.cmdReady = true) : s.taken c = s.ctrl.busCmd c.call := if_pos h

theorem taken_of_not_ready (h : c.cmdReady = false) : s.taken c = none :=
  if_neg (by rw [h]; decide)

end ControlledBus

/-! ## What the controller holds -/

/-- **The controller is where it should be**: it waits for the one read that is
outstanding, or there is none. -/
structure ControlledBus.Tidy (s : ControlledBus) : Prop where
  waiting : s.ctrl.ready = true → s.ctrl.valid = false ∧ s.ctrl.cmd.write = false
    ∧ s.outstanding = [s.ctrl.cmd.address]
  free : s.ctrl.ready = false → s.outstanding = []

namespace ControlledBus

/-- A controller that does not wait is where it should be if nothing is
outstanding. -/
theorem tidy_of_free {s : ControlledBus} (hready : s.ctrl.ready = false)
    (hout : s.outstanding = []) : s.Tidy :=
  ⟨fun hyes => absurd hyes (by rw [hready]; decide), fun _ => hout⟩

/-- And one that has just had its read taken if it waits for the answer, or has
it. -/
theorem tidy_next_of_awaited {s : ControlledBus} {c : BusCycle} {cmd : MemBusCmd}
    (hnext : (s.next c).ctrl = ⟨false, !(s.answered c).isSome, cmd⟩) (hread : cmd.write = false)
    (hawaited : s.awaited c = [cmd.address]) : (s.next c).Tidy := by
  rcases answered_of_singleton hawaited with ⟨hnone, hout⟩ | ⟨⟨data, hsome⟩, hout⟩
  · rw [hnone] at hnext
    refine ⟨fun _ => ?_, fun hno => by rw [hnext] at hno; cases hno⟩
    rw [hnext, hout]
    exact ⟨rfl, hread, rfl⟩
  · rw [hsome] at hnext
    exact tidy_of_free (by rw [hnext]; rfl) hout

namespace Tidy

variable {s : ControlledBus} {c : BusCycle} (h : s.Tidy) (hno : ¬ s.GoesWrong c)
include h hno

/-- **A cycle of a controller that waits.** -/
theorem cycle_waiting (hready : s.ctrl.ready = true) : (s.next c).Tidy ∧ s.Sound c := by
  obtain ⟨hvalid, hread, houtstanding⟩ := h.waiting hready
  have hissued : s.ctrl.isIssued = true := by
    unfold MemBusControl.isIssued
    rw [hready, Bool.or_true]
  have hcall : c.call.isWrite = true → c.cmdReady = false := fun hwrite =>
    Bool.eq_false_iff.2 fun hcmd => hno (.forgotten hissued hread hcmd hwrite)
  have hshown : s.ctrl.busCmd c.call = none := MemBusControl.busCmd_waiting hready hvalid
  have htaken : s.taken c = none := by
    unfold taken
    rw [hshown]
    split <;> rfl
  have hawaited := (awaited_of_none htaken).trans houtstanding
  constructor
  · exact tidy_next_of_awaited (MemBusControl.next_waiting hready hvalid hcall) hread hawaited
  · refine ⟨fun cmd hcmd => ?_, fun _ => ?_, fun address hcall' hdone => ?_,
      fun address wdata wmask hcall' hdone => ?_⟩
    · rw [hshown] at hcmd
      cases hcmd
    · rw [houtstanding]
      exact List.cons_ne_nil _ _
    · obtain ⟨⟨r, hr⟩, hwhy⟩ := done_read hcall' hdone
      have hmem := mem_awaited_of_answered hr
      rw [hawaited, List.mem_singleton] at hmem
      rcases hwhy with hfree | ⟨heq, -⟩
      · rw [hissued] at hfree
        cases hfree
      · exact ⟨r.2, by rw [hr, ← heq, ← hmem]⟩
    · rw [hcall'] at hcall
      have hcmd := (done_write hcall' hdone).1
      rw [hcall rfl] at hcmd
      cases hcmd

/-- **A cycle of a controller that shows a command.** -/
theorem cycle_shown (hready : s.ctrl.ready = false) (hvalid : s.ctrl.valid = true) :
    (s.next c).Tidy ∧ s.Sound c := by
  have hissued : s.ctrl.isIssued = true := by
    unfold MemBusControl.isIssued
    rw [hvalid, Bool.true_or]
  have hshown : s.ctrl.busCmd c.call = some s.ctrl.cmd := MemBusControl.busCmd_shown hvalid
  have hnotready : s.ctrl.ready = true → s.outstanding ≠ [] := fun hyes => by
    rw [hready] at hyes
    cases hyes
  cases hcmd : c.cmdReady with
  | false =>
    have hawaited : s.awaited c = [] :=
      (awaited_of_none (taken_of_not_ready hcmd)).trans (h.free hready)
    obtain ⟨hanswered, hout⟩ := answered_of_nil hawaited
    have hnext : (s.next c).ctrl = s.ctrl := by
      show s.ctrl.next c.call c.cmdReady (s.answered c).isSome = s.ctrl
      rw [hcmd, hanswered]
      exact MemBusControl.next_shown hready hvalid
    refine ⟨tidy_of_free (by rw [hnext]; exact hready) hout, fun cmd hsome _ call => ?_,
      hnotready, fun address hcall hdone => ?_, fun address wdata wmask hcall hdone => ?_⟩
    · rw [hnext, ← hsome, hshown]
      exact MemBusControl.busCmd_shown hvalid
    · obtain ⟨⟨r, hr⟩, -⟩ := done_read hcall hdone
      rw [hanswered] at hr
      cases hr
    · have hyes := (done_write hcall hdone).1
      rw [hcmd] at hyes
      cases hyes
  | true =>
    have htaken := (taken_of_ready hcmd).trans hshown
    have hstable : ∀ cmd, s.ctrl.busCmd c.call = some cmd → c.cmdReady = false →
        ∀ call, (s.next c).ctrl.busCmd call = some cmd := fun _ _ hno => by
      rw [hcmd] at hno
      cases hno
    cases hwrite : s.ctrl.cmd.write with
    | true =>
      -- the write that is taken is called for
      have hcall : c.call.isWrite = true := by
        by_contra hother
        exact hno (.dropped hvalid hwrite hcmd (Bool.eq_false_iff.2 hother))
      have hawaited := (awaited_of_write htaken hwrite).trans (h.free hready)
      obtain ⟨hanswered, hout⟩ := answered_of_nil hawaited
      have hnext : (s.next c).ctrl = ⟨false, false, s.ctrl.cmd⟩ := by
        show s.ctrl.next c.call c.cmdReady (s.answered c).isSome = _
        rw [hcmd, hanswered]
        exact MemBusControl.next_taken_write hready hvalid hcall
      refine ⟨tidy_of_free (by rw [hnext]) hout, hstable, hnotready,
        fun address hcall' _ => ?_, fun address wdata wmask hcall' hdone => ?_⟩
      · rw [hcall'] at hcall
        cases hcall
      · rcases (done_write hcall' hdone).2 with hfree | ⟨haddress, -⟩
        · rw [hissued] at hfree
          cases hfree
        · rw [htaken]
          subst haddress
          have hsame : (wdata, wmask) = (s.ctrl.cmd.wdata, s.ctrl.cmd.wmask) := by
            by_contra hother
            exact hno (.changed hvalid hwrite hcmd hcall' hother)
          obtain ⟨rfl, rfl⟩ := Prod.mk.inj hsame
          rw [← hwrite]
    | false =>
      have hcall : c.call.isWrite = false := Bool.eq_false_iff.2 fun hother =>
        hno (.forgotten hissued hwrite hcmd hother)
      have hawaited : s.awaited c = [s.ctrl.cmd.address] := by
        rw [awaited_of_read htaken hwrite, h.free hready, List.nil_append]
      have hnext : (s.next c).ctrl = ⟨false, !(s.answered c).isSome, s.ctrl.cmd⟩ := by
        show s.ctrl.next c.call c.cmdReady (s.answered c).isSome = _
        rw [hcmd]
        exact MemBusControl.next_taken hready hvalid hcall
      refine ⟨tidy_next_of_awaited hnext hwrite hawaited, hstable, hnotready,
        fun address hcall' hdone => ?_, fun address wdata wmask hcall' _ => ?_⟩
      · obtain ⟨⟨r, hr⟩, hwhy⟩ := done_read hcall' hdone
        have hmem := mem_awaited_of_answered hr
        rw [hawaited, List.mem_singleton] at hmem
        rcases hwhy with hfree | ⟨heq, -⟩
        · rw [hissued] at hfree
          cases hfree
        · exact ⟨r.2, by rw [hr, ← heq, ← hmem]⟩
      · rw [hcall'] at hcall
        cases hcall

omit hno in
/-- **A cycle of a controller that is free.** -/
theorem cycle_free (hready : s.ctrl.ready = false) (hvalid : s.ctrl.valid = false) :
    (s.next c).Tidy ∧ s.Sound c := by
  have hshown : s.ctrl.busCmd c.call = s.ctrl.issued c.call :=
    MemBusControl.busCmd_free hready hvalid
  have hnotready : s.ctrl.ready = true → s.outstanding ≠ [] := fun hyes => by
    rw [hready] at hyes
    cases hyes
  have hissued : s.ctrl.isIssued = false := by
    unfold MemBusControl.isIssued
    rw [hvalid, hready]
    rfl
  cases hcmd : c.cmdReady with
  | false =>
    have hawaited : s.awaited c = [] :=
      (awaited_of_none (taken_of_not_ready hcmd)).trans (h.free hready)
    obtain ⟨hanswered, hout⟩ := answered_of_nil hawaited
    have hnext : (s.next c).ctrl = s.ctrl.next c.call false false := by
      show s.ctrl.next c.call c.cmdReady (s.answered c).isSome = _
      rw [hcmd, hanswered, Option.isSome_none]
    refine ⟨tidy_of_free ?_ hout, fun cmd hsome _ call => ?_, hnotready,
      fun address hcall hdone => ?_, fun address wdata wmask hcall hdone => ?_⟩
    · rw [hnext]
      cases hissue : s.ctrl.issued c.call with
      | none =>
        cases hcall : c.call with
        | idle => rw [MemBusControl.next_idle hready hvalid, hready]
        | read address =>
          rw [hcall] at hissue
          cases hissue
        | write address wdata wmask =>
          rw [hcall] at hissue
          cases hissue
      | some cmd => rw [MemBusControl.next_issued hready hvalid hissue]
    · rw [hnext, MemBusControl.next_issued hready hvalid (hshown.symm.trans hsome)]
      exact MemBusControl.busCmd_shown rfl
    · obtain ⟨⟨r, hr⟩, -⟩ := done_read hcall hdone
      rw [hanswered] at hr
      cases hr
    · have hyes := (done_write hcall hdone).1
      rw [hcmd] at hyes
      cases hyes
  | true =>
    have htaken := (taken_of_ready hcmd).trans hshown
    have hstable : ∀ cmd, s.ctrl.busCmd c.call = some cmd → c.cmdReady = false →
        ∀ call, (s.next c).ctrl.busCmd call = some cmd := fun _ _ hno => by
      rw [hcmd] at hno
      cases hno
    have hctrl : (s.next c).ctrl = s.ctrl.next c.call true (s.answered c).isSome := by
      show s.ctrl.next c.call c.cmdReady _ = _
      rw [hcmd]
    cases hcall : c.call with
    | idle =>
      rw [hcall] at htaken hctrl hstable
      obtain ⟨hanswered, hout⟩ := answered_of_nil ((awaited_of_none htaken).trans (h.free hready))
      rw [hanswered, Option.isSome_none, MemBusControl.next_idle hready hvalid] at hctrl
      refine ⟨tidy_of_free (by rw [hctrl]; exact hready) hout, ?_, hnotready, ?_, ?_⟩
      · rw [hcall]
        exact hstable
      · rw [hcall]
        exact fun address hno => by cases hno
      · rw [hcall]
        exact fun address wdata wmask hno => by cases hno
    | read address =>
      rw [hcall] at htaken hctrl hstable
      have hawaited : s.awaited c = [address] := by
        rw [awaited_of_read htaken rfl, h.free hready, List.nil_append]
      rw [MemBusControl.next_issued_read hready hvalid] at hctrl
      refine ⟨tidy_next_of_awaited hctrl rfl hawaited, ?_, hnotready,
        fun address' hsame hdone => ?_, ?_⟩
      · rw [hcall]
        exact hstable
      · obtain ⟨⟨r, hr⟩, -⟩ := done_read hsame hdone
        have hmem := mem_awaited_of_answered hr
        rw [hawaited, List.mem_singleton] at hmem
        rw [hcall] at hsame
        obtain rfl := BusCall.read.inj hsame
        exact ⟨r.2, by rw [hr, ← hmem]⟩
      · rw [hcall]
        exact fun address wdata wmask hno => by cases hno
    | write address wdata wmask =>
      rw [hcall] at htaken hctrl hstable
      obtain ⟨hanswered, hout⟩ :=
        answered_of_nil ((awaited_of_write htaken rfl).trans (h.free hready))
      rw [hanswered, Option.isSome_none, MemBusControl.next_issued_write hready hvalid] at hctrl
      refine ⟨tidy_of_free (by rw [hctrl]) hout, ?_, hnotready, ?_,
        fun address' wdata' wmask' hsame _ => ?_⟩
      · rw [hcall]
        exact hstable
      · rw [hcall]
        exact fun address hno => by cases hno
      · rw [hcall] at hsame
        obtain ⟨rfl, rfl, rfl⟩ := BusCall.write.inj hsame
        exact htaken

/-- **A cycle in which the controller does not go wrong.** -/
theorem cycle : (s.next c).Tidy ∧ s.Sound c := by
  cases hready : s.ctrl.ready with
  | true => exact h.cycle_waiting hno hready
  | false =>
    cases hvalid : s.ctrl.valid with
    | true => exact h.cycle_shown hno hready hvalid
    | false => exact h.cycle_free hready hvalid

end Tidy

end ControlledBus

/-! ## Runs -/

/-- **A run in which the controller does not go wrong is sound**: no command
changes while it is shown, the controller waits for nothing that does not come,
a read that is done has the answer to a read of its address, and a write that is
done has been taken as it was called. -/
theorem memBusControl_sound_of_not_wrong (env : ℕ → BusCycle)
    (hno : ∀ n, ¬ (busMachine.stateAt ControlledBus.reset env n).GoesWrong (env n)) (n : ℕ) :
    (busMachine.stateAt ControlledBus.reset env n).Sound (env n) := by
  have htidy := busMachine.stateAt_invariant (C := fun s c => ¬ s.GoesWrong c)
    (fun s c hs hc => (hs.cycle hc).1) (s := ControlledBus.reset)
    (ControlledBus.tidy_of_free rfl rfl) hno n
  exact (htidy.cycle (hno n)).2

/-- Reads of one address that the bus answers at once. -/
def promptReads (_ : ℕ) : BusCycle := ⟨.read 0x20, true, some (0, 7)⟩

theorem promptReads_sound :
    (busMachine.stateAt ControlledBus.reset promptReads 1).done (promptReads 1) = true
      ∧ ∀ n, (busMachine.stateAt ControlledBus.reset promptReads n).Sound (promptReads n) := by
  have hstays : ∀ n, busMachine.stateAt ControlledBus.reset promptReads (n + 1)
      = busMachine.stateAt ControlledBus.reset promptReads 1 := by
    intro n
    induction n with
    | zero => rfl
    | succ n ih =>
      rw [SyncMachine.stateAt_succ, ih]
      show busMachine.next (busMachine.stateAt ControlledBus.reset promptReads 1)
        ⟨.read 0x20, true, some (0, 7)⟩ = _
      decide
  have hvalid : ∀ n, (busMachine.stateAt ControlledBus.reset promptReads n).ctrl.valid = false := by
    intro n
    cases n with
    | zero => rfl
    | succ n =>
      rw [hstays]
      decide
  refine ⟨by decide, memBusControl_sound_of_not_wrong promptReads fun n hwrong => ?_⟩
  cases hwrong with
  | dropped hyes _ _ _ =>
    rw [hvalid] at hyes
    cases hyes
  | changed _ _ _ hcall _ => cases hcall
  | forgotten _ _ _ hcall => cases hcall

/-- A write that is dropped before the bus takes it, and then reads. -/
def droppedWrite : ℕ → BusCycle
  | 0 => ⟨.write 0x10 1 0b1111, false, none⟩
  | _ => ⟨.read 0x20, true, some (0, 7)⟩

/-- **After a write that was dropped the controller waits for good**, and no read
is done. -/
theorem droppedWrite_not_sound :
    (busMachine.stateAt ControlledBus.reset droppedWrite 2).ctrl.ready = true
      ∧ (busMachine.stateAt ControlledBus.reset droppedWrite 2).outstanding = []
      ∧ ¬ (busMachine.stateAt ControlledBus.reset droppedWrite 2).Sound (droppedWrite 2)
      ∧ ∀ n, busMachine.obsAt ControlledBus.reset droppedWrite n = false := by
  have hready : (busMachine.stateAt ControlledBus.reset droppedWrite 2).ctrl.ready = true := by
    decide
  have hout : (busMachine.stateAt ControlledBus.reset droppedWrite 2).outstanding = [] := by decide
  refine ⟨hready, hout, fun h => h.ready hready hout, ?_⟩
  have hstays : ∀ n, busMachine.stateAt ControlledBus.reset droppedWrite (n + 2)
      = busMachine.stateAt ControlledBus.reset droppedWrite 2 := by
    intro n
    induction n with
    | zero => rfl
    | succ n ih =>
      rw [show n + 1 + 2 = n + 2 + 1 from rfl, SyncMachine.stateAt_succ, ih]
      show busMachine.next (busMachine.stateAt ControlledBus.reset droppedWrite 2)
        ⟨.read 0x20, true, some (0, 7)⟩ = _
      decide
  intro n
  match n with
  | 0 => decide
  | 1 => decide
  | n + 2 =>
    show busMachine.obs (busMachine.stateAt ControlledBus.reset droppedWrite (n + 2))
      ⟨.read 0x20, true, some (0, 7)⟩ = false
    rw [hstays]
    decide

end Proteus
