import CheriTree.Sail.Atomicity
import CheriTree.Sail.Deinit

/-!
# One trap for each instruction that fails

An instruction that fails is to have entered the exception handler once, from
the privilege and the interrupt state it was started in, and one that retires
not at all. The helpers of the sweep and of the hash raise exceptions of their
own. `EInitData` answers them by another one, which finds the machine already
in the handler's privilege with its interrupts off; `IsUnique` answers by a
result, and retires with the handler entered.
-/

namespace Sail

open Prog

variable {f : CapFormat} {p : Platform f} {s s' : State f}

/-- **The enclave instructions.** -/
inductive AttestInstr where
  | EInitCode (cd cs1 : RegIdx)
  | EInitData (cd cs1 cs2 : RegIdx)
  | EDeinit (rd cs1 : RegIdx)
  | EStoreId (rd rs1 cs2 : RegIdx)
  | IsUnique (rd cs1 : RegIdx)
deriving DecidableEq, Repr

def AttestInstr.execute (p : Platform f) (fuel : ℕ) : AttestInstr → M f Retired
  | EInitCode cd cs1 => executeEInitCode cd cs1
  | EInitData cd cs1 cs2 => executeEInitData p fuel cd cs1 cs2
  | EDeinit rd cs1 => executeEDeinit rd cs1
  | EStoreId rd rs1 cs2 => executeEStoreId p rd rs1 cs2
  | IsUnique rd cs1 => executeIsUnique p fuel rd cs1

/-- **One trap for a failure, none for a success**: the handler was entered once
from a state with the privilege, the interrupt state and the trap registers the
instruction was started in, or it was not entered. -/
def TrapsOnce (s : State f) : Retired → State f → Prop
  | .RETIRE_FAIL, s' => ∃ t, s.SameControl t ∧ t.Trapped s'
  | .RETIRE_SUCCESS, s' => s.SameControl s'

/-- **A helper raises an exception of its own.** -/
def AttestInstr.HelperFaults (p : Platform f) (s : State f) : AttestInstr → Prop
  | EInitData cd cs1 cs2 => EInitDataHelperFaults p s cd cs1 cs2
  | IsUnique _ cs1 => (s.rC cs1).tag = true ∧ SweepFaults p s cs1
  | _ => False

/-! ## What takes no trap -/

theorem Stored.sameControl {auth : Capability f} {id : Hash} {places : List (BitVec f.xlen)}
    {t : State f} (h : Stored p auth id s places t) : s.SameControl t := by
  unfold State.SameControl
  rw [h.rest]

/-- The handler is entered once by what fails at once. -/
theorem TrapsOnce.of_trapped (h : s.Trapped s') : TrapsOnce s .RETIRE_FAIL s' :=
  ⟨s, State.SameControl.refl s, h⟩

/-- Two entries are not one. -/
theorem not_trapsOnce_of_twice {t : State f} (h : s.Trapped t) (h' : t.Trapped s') :
    ¬ TrapsOnce s .RETIRE_FAIL s' := by
  rintro ⟨u, hu, htrap⟩
  have h1 := h.traps
  have h2 := h'.traps
  have h3 := htrap.traps
  rw [hu.traps] at h3
  omega

/-- An entry is not none. -/
theorem not_sameControl_of_trapped {t : State f} (h : s.Trapped t) (h' : t.SameControl s') :
    ¬ s.SameControl s' := by
  intro hsame
  have h1 := h.traps
  have h2 := h'.traps
  have h3 := hsame.traps
  omega

/-! ## The instructions -/

theorem trapsOnce_executeEDeinit {rd cs1 : RegIdx} {r : Retired}
    (h : executeEDeinit rd cs1 s = .ok (r, s')) : TrapsOnce s r s' := by
  cases executeEDeinit_ends h with
  | rejected _ htrap => exact .of_trapped htrap
  | absent => exact State.SameControl.wC _ _ _
  | @removed i e etable =>
    have hentry : s.SameControl { s with etable := etable } := rfl
    exact hentry.trans (State.SameControl.wC _ _ _)

theorem trapsOnce_executeEStoreId (hwalk : p.WalkReads) {rd rs1 cs2 : RegIdx} {r : Retired}
    (h : executeEStoreId p rd rs1 cs2 s = .ok (r, s')) : TrapsOnce s r s' := by
  cases executeEStoreId_ends hwalk h with
  | rejected _ htrap => exact .of_trapped htrap
  | absent => exact State.SameControl.wC _ _ _
  | unstored => exact State.SameControl.wC _ _ _
  | stored _ _ _ hends _ => exact (State.SameControl.wC _ _ _).trans hends.1.sameControl
  | stopped _ _ _ hends _ htrap =>
    exact ⟨_, (State.SameControl.wC _ _ _).trans hends.1.sameControl, htrap⟩

/-- **`IsUnique`** enters the handler where a load of its sweep fails, and
retires. -/
theorem trapsOnce_executeIsUnique (hwalk : p.WalkReads) {fuel : ℕ} {rd cs1 : RegIdx} {r : Retired}
    (h : executeIsUnique p fuel rd cs1 s = .ok (r, s')) :
    TrapsOnce s r s' ↔ ¬ ((s.rC cs1).tag = true ∧ SweepFaults p s cs1) := by
  obtain ⟨u, t, hget, h⟩ := Prog.bind_eq_ok.1 h
  obtain ⟨rfl, rfl⟩ := get_eq_ok.1 hget
  obtain ⟨htag, h⟩ | ⟨htag, h⟩ := ite_eq_ok.1 h
  · obtain ⟨rfl, htrap⟩ := trapped_of_failWith h
    exact ⟨fun _ hf => by simp [hf.1] at htag, fun _ => .of_trapped htrap⟩
  · obtain ⟨b, t, hsweep, h⟩ := Prog.bind_eq_ok.1 h
    obtain ⟨v, w, hmod, hdone⟩ := Prog.bind_eq_ok.1 h
    obtain rfl := modify_eq_ok.1 hmod
    obtain ⟨rfl, rfl⟩ := pure_eq_ok.1 hdone
    obtain ⟨rfl, hnf⟩ | ⟨-, htrap, hf⟩ := sweep_cases hwalk hsweep
    · exact ⟨fun _ hf => hnf hf.2, fun _ => State.SameControl.wC _ _ _⟩
    · refine ⟨fun hsame => ?_, fun hno => absurd ⟨by simpa using htag, hf⟩ hno⟩
      exact absurd hsame (not_sameControl_of_trapped htrap (State.SameControl.wC _ _ _))

/-- **`EInitData`** enters the handler twice where a load of its sweep or of its
hash fails. -/
theorem trapsOnce_executeEInitData (hwalk : p.WalkReads) (hf : f.ow ≤ f.xlen) {fuel : ℕ}
    {cd cs1 cs2 : RegIdx} {r : Retired}
    (h : executeEInitData p fuel cd cs1 cs2 s = .ok (r, s')) :
    TrapsOnce s r s' ↔ ¬ EInitDataHelperFaults p s cd cs1 cs2 := by
  cases executeEInitData_ends hwalk h with
  | rejected _ hhelper htrap => exact ⟨fun _ => hhelper, fun _ => .of_trapped htrap⟩
  | twice _ hhelper htrap htrap' =>
    exact ⟨fun hone => absurd hone (not_trapsOnce_of_twice htrap htrap'),
      fun hno => absurd hhelper hno⟩
  | @committed id etable _ _ hcommit htable hfin =>
    have hhelper : ¬ EInitDataHelperFaults p s cd cs1 cs2 := by
      rintro ⟨-, hsweep | ⟨-, hhash⟩⟩
      · obtain ⟨-, k, hk, hfault⟩ := hsweep
        obtain ⟨-, hnf⟩ | ⟨hb, -⟩ := sweepGranule2_cases hwalk (hcommit.sweep.2 k hk)
        · exact hnf hfault
        · cases hb
      · exact hcommit.hash hhash
    refine ⟨fun _ => hhelper, fun _ => ?_⟩
    obtain ⟨rfl, htrap, -⟩ | ⟨rfl, -, -, addr, t, hat, rfl⟩ := finishData_cases hwalk hf
      hcommit.checks.dataTag hcommit.checks.dataUnsealed hcommit.checks.permitStore hfin
    · exact ⟨{ s with etable := etable }, rfl, htrap⟩
    · have hentry : s.SameControl { s with etable := etable } := rfl
      have hstore : State.SameControl { s with etable := etable } t := by
        unfold State.SameControl
        rw [checkedMemWrite_rest hat.2.2.2]
      exact (hentry.trans hstore).trans (State.SameControl.wC _ _ _)

/-- **One trap for each enclave instruction that fails, and none for one that
retires**, if and only if no helper of it raises an exception of its own. -/
theorem trapsOnce_iff (p : Platform f) (hwalk : p.WalkReads) (hf : f.ow ≤ f.xlen) (fuel : ℕ)
    (i : AttestInstr) (s s' : State f) (r : Retired) (h : i.execute p fuel s = .ok (r, s')) :
    TrapsOnce s r s' ↔ ¬ i.HelperFaults p s := by
  cases i with
  | EInitCode cd cs1 =>
    refine ⟨fun _ => not_false, fun _ => ?_⟩
    obtain ⟨rfl, htrap⟩ | ⟨rfl, hsame⟩ := executeEInitCode_ends h
    · exact .of_trapped htrap
    · exact hsame
  | EInitData cd cs1 cs2 => exact trapsOnce_executeEInitData hwalk hf h
  | EDeinit rd cs1 => exact ⟨fun _ => not_false, fun _ => trapsOnce_executeEDeinit h⟩
  | EStoreId rd rs1 cs2 => exact ⟨fun _ => not_false, fun _ => trapsOnce_executeEStoreId hwalk h⟩
  | IsUnique rd cs1 => exact trapsOnce_executeIsUnique hwalk h

/-- The copy of a part of the data section is answered by one trap. -/
theorem trapsOnce_copy :
    ∃ s', (AttestInstr.EInitData 2 1 2).execute smallPlatform 16 copyState = .ok (.RETIRE_FAIL, s')
      ∧ TrapsOnce copyState .RETIRE_FAIL s' := by
  obtain ⟨s', hrun⟩ := exists_ok_of_map_fst (a := .RETIRE_FAIL)
    (show ((AttestInstr.EInitData 2 1 2).execute smallPlatform 16 copyState).toOption.map Prod.fst
      = _ by decide +kernel)
  refine ⟨s', hrun, (trapsOnce_iff smallPlatform smallPlatform_walkReads (by decide) 16
    (.EInitData 2 1 2) copyState s' .RETIRE_FAIL hrun).2 ?_⟩
  -- The registers do not pass the sweep, so it loads nothing.
  have hregs : sweepRegs2 copyState 1 2 ≠ true := by decide +kernel
  rintro ⟨-, hsweep | hhash⟩
  · exact hregs hsweep.1
  · exact hregs hhash.1.1

/-- The small machine in user mode with its interrupts on, and with a code
section of six bytes. -/
def raggedState : State .cheri64 :=
  { smallState with
    x := fun r => if r = 1 then (Capability.bounded 0x80000010 0x80000016).sealCap 2
      else smallState.x r
    curPrivilege := .User
    mstatus := { smallState.mstatus with MIE := true } }

/-- **Two traps for one instruction**: the second word of the code section is not
within it, the hash says so by an exception, and `EInitData` by another. The
privilege and the interrupt state of the user are lost. -/
theorem raggedState_trapsTwice :
    ∃ s', (AttestInstr.EInitData 2 1 2).execute smallPlatform 16 raggedState
        = .ok (.RETIRE_FAIL, s')
      ∧ s'.traps = raggedState.traps + 2 ∧ s'.mstatus.MPP = 3 ∧ s'.mstatus.MPIE = false
      ∧ ¬ TrapsOnce raggedState .RETIRE_FAIL s' := by
  obtain ⟨s', hrun⟩ := exists_ok_of_map_fst (a := .RETIRE_FAIL)
    (show ((AttestInstr.EInitData 2 1 2).execute smallPlatform 16 raggedState).toOption.map Prod.fst
      = _ by decide +kernel)
  have hfound : (((AttestInstr.EInitData 2 1 2).execute smallPlatform 16 raggedState).toOption.map
      fun r => (r.2.traps, r.2.mstatus.MPP, r.2.mstatus.MPIE)) = some (2, 3, false) := by
    decide +kernel
  rw [hrun] at hfound
  have hend : (s'.traps, s'.mstatus.MPP, s'.mstatus.MPIE) = (2, 3, false) := Option.some.inj hfound
  have htraps : s'.traps = 2 := congrArg Prod.fst hend
  refine ⟨s', hrun, htraps, congrArg (fun u => u.2.1) hend, congrArg (fun u => u.2.2) hend, ?_⟩
  rintro ⟨t, hsame, htrap⟩
  have hone := htrap.traps
  rw [hsame.traps, htraps] at hone
  exact absurd hone (by decide)

end Sail
