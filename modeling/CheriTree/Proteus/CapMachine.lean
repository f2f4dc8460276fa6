import CheriTree.SyncMachine
import CheriTree.Proteus.Access
import CheriTree.Proteus.Sealing
import CheriTree.Proteus.IdentityStore

/-!
# The capability registers and the instructions that write them

The state holds the capability register file, the special capability
registers, the program counter capability (with the program counter as its
offset) and the identity store. An instruction gives the list of capability
writes it makes, each with the capability it was derived from; or it raises.

An instruction is fetched through the program counter capability. Where that
check fails the instruction still travels down the pipeline with its trap:
its writes to the register file are dropped, but a special register is
written in the last stage whether the instruction has trapped or not. The
step below keeps that difference.
-/

namespace Proteus

/-! ## The state -/

/-- The special capability registers the core implements, besides PCC. -/
inductive Scr where
  | ddc
  | mtcc
  | mtdc
  | mscratchc
  | mepcc
deriving DecidableEq, Repr

namespace Scr

/-- The register behind an index; `none` for an index of no register. -/
def ofIndex (id : RegId) : Option Scr :=
  if id = ScrIndex.DDC then some ddc
  else if id = ScrIndex.MTCC then some mtcc
  else if id = ScrIndex.MTDC then some mtdc
  else if id = ScrIndex.MScratchC then some mscratchc
  else if id = ScrIndex.MEPCC then some mepcc
  else none

/-- Whether a register asks for the permission to access system registers. -/
def needAsr : Scr → Bool
  | ddc => false
  | _ => true

end Scr

/-- **The capability state of the core.** -/
structure CapState (w : ℕ) where
  regs : RegId → Capability
  scrs : Scr → Capability
  pcc : Capability
  store : IdentityStore w

/-! ## The instructions -/

/-- The operation of a CSR instruction. -/
inductive CsrOp where
  | RW
  | RS
  | RC
deriving DecidableEq, Repr

/-- The CSRs that are the offset of a special capability register. -/
inductive OffsetCsr where
  | mtvec
  | mepc
deriving DecidableEq, Repr

/-- The special register a CSR is the offset of. -/
def OffsetCsr.scr : OffsetCsr → Scr
  | mtvec => .mtcc
  | mepc => .mepcc

/-- **The instructions that write a capability register.** An integer operand
is given by its value. The last two data of `EInitData` are the verdict of its
sweep and the digest of the code section. The last three write none of their
own: a return from a trap, a branch, and everything that only moves on. -/
inductive CapInstr where
  | modify (op : ModifyOp) (cd cs1 : RegId) (imm : BitVec 12) (rs2Data : Word)
  | cMove (cd cs1 : RegId)
  | cSeal (cd cs1 cs2 : RegId)
  | cUnseal (cd cs1 cs2 : RegId)
  | cInvoke (cs1 cs2 : RegId)
  | cjalr (cd cs1 : RegId)
  | eInitCode (cd cs1 : RegId)
  | eInitData (cd cs1 cs2 : RegId) (unique : Bool) (digest : Digest)
  | cSpecialRW (cd cs1 scrId : RegId) (ir : Word)
  | csr (op : CsrOp) (useImm : Bool) (id : OffsetCsr) (rs1 : RegId) (rs1Data : Word)
  | mret
  | branch (target : Word)
  | plain
deriving DecidableEq, Repr

/-- The instructions that seal. -/
def CapInstr.sealing : CapInstr → Bool
  | .cSeal .. => true
  | .eInitCode .. => true
  | .eInitData .. => true
  | _ => false

/-- A place a capability is written to. -/
inductive Dest where
  | reg (cd : RegId)
  | scr (r : Scr)
  | pcc
deriving DecidableEq, Repr

def Dest.isScr : Dest → Bool
  | scr _ => true
  | _ => false

/-- **A write of a capability**, with the capability it comes from. -/
structure CapWrite where
  dest : Dest
  source : Capability
  result : Capability
deriving DecidableEq, Repr

namespace CapState

variable {w : ℕ}

/-- The capability a sealed one becomes in `EInitCode`: the identity seal of
the entry it allocates, or nothing at all when no entry is left. -/
def eInitCode (s : CapState w) (cs1 : Capability) : Capability × IdentityStore w :=
  match s.store.initEntry with
  | (eid, store) => (if eid.valid then cs1.sealWith eid.identSeal else .null, store)

/-- The capability `EInitData` gives: the data capability under the identity
seal of an entry not finished yet, when the sweep passes; nothing otherwise. -/
def eInitData (s : CapState w) (cs1 cs2 : Capability) (unique : Bool) (digest : Digest) :
    Capability × IdentityStore w :=
  if !cs1.tag || !cs1.isSealed then
    (.null, s.store)
  else
    let currentEid := s.store.getUnfinishedEntry cs1.otype
    if currentEid.valid && unique then
      match s.store.finishEntry cs1.otype digest with
      | (result, store) =>
        (if result.valid then cs2.sealWith currentEid.identSeal else .null, store)
    else
      (.null, s.store)

/-- The value a CSR instruction writes, `none` where it writes none. -/
def csrValue (op : CsrOp) (useImm : Bool) (rs1 : RegId) (rs1Data old : Word) : Option Word :=
  let src := if useImm then rs1.setWidth 32 else rs1Data
  let ignoreWrite := !useImm && rs1 = 0
  match op with
  | .RW => some src
  | .RS => if ignoreWrite then none else some (old ||| src)
  | .RC => if ignoreWrite then none else some (old &&& ~~~src)

/-- **The writes of `CSpecialRW`.** The program counter capability can be read
and not written; register zero as source or destination leaves the write or
the read out. -/
def cSpecialRW (s : CapState w) (cd cs1 scrId : RegId) (ir : Word) :
    Except TrapCause (List CapWrite) :=
  let hasAsr := s.pcc.perms.accessSystemRegisters
  let readTo (c : Capability) : List CapWrite :=
    if cd = 0 then [] else [⟨.reg cd, c, c⟩]
  if scrId = ScrIndex.PCC then
    .ok (readTo s.pcc)
  else
    match Scr.ofIndex scrId with
    | none => .error (.illegalInstruction ir)
    | some r =>
      if r.needAsr && !hasAsr then
        .error (.cheriException ⟨.accessSystemRegistersViolation, CapIdx.scr scrId⟩)
      else
        .ok (readTo (s.scrs r)
          ++ if cs1 = 0 then [] else [⟨.scr r, s.regs cs1, s.regs cs1⟩])

/-- **What an instruction writes**, or the trap it raises. -/
def exec (s : CapState w) : CapInstr → Except TrapCause (List CapWrite)
  | .modify op cd cs1 imm rs2Data =>
    match op.modification.apply (s.regs cs1) (op.rhs imm rs2Data) with
    | .ok c => .ok [⟨.reg cd, s.regs cs1, c⟩]
    | .error cause => .error (.cheriException ⟨cause, CapIdx.gpcr cs1⟩)
  | .cMove cd cs1 => .ok [⟨.reg cd, s.regs cs1, s.regs cs1⟩]
  | .cSeal cd cs1 cs2 => do
    let c ← Proteus.cSeal (s.regs cs1) (s.regs cs2) cs1 cs2
    return [⟨.reg cd, s.regs cs1, c⟩]
  | .cUnseal cd cs1 cs2 => do
    let c ← Proteus.cUnseal (s.regs cs1) (s.regs cs2) cs1 cs2
    return [⟨.reg cd, s.regs cs1, c⟩]
  | .cInvoke cs1 cs2 => do
    let (pcc, cd) ← Proteus.cInvoke (s.regs cs1) (s.regs cs2) cs1 cs2
    -- the destination is fixed by the decoder
    return [⟨.pcc, s.regs cs1, pcc⟩, ⟨.reg 31, s.regs cs2, cd⟩]
  | .cjalr cd cs1 => do
    let pcc ← jumpToCap (s.regs cs1) (CapIdx.gpcr cs1)
    return [⟨.pcc, s.regs cs1, pcc⟩,
      ⟨.reg cd, s.pcc, { s.pcc with offset := s.pcc.offset + 4 }⟩]
  | .eInitCode cd cs1 => .ok [⟨.reg cd, s.regs cs1, (s.eInitCode (s.regs cs1)).1⟩]
  | .eInitData cd cs1 cs2 unique digest =>
    .ok [⟨.reg cd, s.regs cs2, (s.eInitData (s.regs cs1) (s.regs cs2) unique digest).1⟩]
  | .cSpecialRW cd cs1 scrId ir => s.cSpecialRW cd cs1 scrId ir
  | .csr op useImm id rs1 rs1Data =>
    match csrValue op useImm rs1 rs1Data (s.scrs id.scr).offset with
    | some value =>
      .ok [⟨.scr id.scr, s.scrs id.scr, { s.scrs id.scr with offset := value }⟩]
    | none => .ok []
  | .mret => .ok [⟨.pcc, s.scrs .mepcc, s.scrs .mepcc⟩]
  | .branch target =>
    if target &&& 3 ≠ 0 then
      .error (.instructionAddressMisaligned target)
    else
      match checkJumpTarget s.pcc (s.pcc.base + target) with
      | some cause => .error (.cheriException ⟨cause, CapIdx.scr ScrIndex.PCC⟩)
      | none => .ok [⟨.pcc, s.pcc, { s.pcc with offset := target }⟩]
  | .plain => .ok []

/-- The identity store after an instruction. -/
def storeAfter (s : CapState w) : CapInstr → IdentityStore w
  | .eInitCode _ cs1 => (s.eInitCode (s.regs cs1)).2
  | .eInitData _ cs1 cs2 unique digest =>
    (s.eInitData (s.regs cs1) (s.regs cs2) unique digest).2
  | _ => s.store

/-! ## The step -/

/-- A write performed. Register zero is not written. -/
def write (s : CapState w) (dest : Dest) (c : Capability) : CapState w :=
  match dest with
  | .reg cd => if cd = 0 then s else { s with regs := Function.update s.regs cd c }
  | .scr r => { s with scrs := Function.update s.scrs r c }
  | .pcc => { s with pcc := c }

/-- The writes of an instruction, performed in order. -/
def writeAll (s : CapState w) (ws : List CapWrite) : CapState w :=
  ws.foldl (fun s x => s.write x.dest x.result) s

/-- The check of a fetch. -/
def fetchCheck (s : CapState w) : Option ExceptionCause :=
  checkJumpTarget s.pcc s.pcc.address

/-- The program counter moves on to the next word. -/
def advance (s : CapState w) : CapState w :=
  { s with pcc := { s.pcc with offset := s.pcc.offset + 4 } }

/-- Where the program counter goes in a trap: MTCC, at an offset that is a
multiple of four. -/
def trapTarget (s : CapState w) : Capability :=
  { s.scrs .mtcc with offset := (s.scrs .mtcc).offset &&& ~~~3 }

/-- **Trap entry**: MEPCC takes the program counter capability. -/
def enterTrap (s : CapState w) : CapState w :=
  { s with
    scrs := Function.update s.scrs .mepcc s.pcc
    pcc := s.trapTarget }

/-- The writes a trapped instruction makes before the trap's own: the offset
of a special register. -/
def earlyWrites (s : CapState w) : CapInstr → List CapWrite
  | .csr op useImm id rs1 rs1Data =>
    match csrValue op useImm rs1 rs1Data (s.scrs id.scr).offset with
    | some value => [⟨.scr id.scr, s.scrs id.scr, { s.scrs id.scr with offset := value }⟩]
    | none => []
  | _ => []

/-- The special register `CSpecialRW` writes, trapped or not. -/
def specialWrites (s : CapState w) : CapInstr → List CapWrite
  | .cSpecialRW cd cs1 scrId ir =>
    match s.cSpecialRW cd cs1 scrId ir with
    | .ok ws => ws.filter (fun x => x.dest.isScr)
    | .error _ => []
  | _ => []

/-- The return of `mret`, trapped or not. -/
def returnWrites (s : CapState w) : CapInstr → List CapWrite
  | .mret => [⟨.pcc, s.scrs .mepcc, s.scrs .mepcc⟩]
  | _ => []

/-- The writes a trapped instruction makes over the trap's own. -/
def lateWrites (s : CapState w) (i : CapInstr) : List CapWrite :=
  s.specialWrites i ++ s.returnWrites i

/-- **One instruction.** -/
def step (s : CapState w) (i : CapInstr) : CapState w :=
  match s.fetchCheck with
  | none =>
    match s.exec i with
    | .ok ws => { s.advance.writeAll ws with store := s.storeAfter i }
    | .error _ => s.enterTrap
  | some _ =>
    -- the trap reads the registers as they were before this instruction
    let t := (s.writeAll (s.earlyWrites i)).scrs
    { ({ s.enterTrap with scrs := Function.update t .mepcc s.pcc }).writeAll
        (s.lateWrites i) with store := s.storeAfter i }

/-! ## What a step can do -/

/-- The capability a place holds. -/
def read (s : CapState w) : Dest → Capability
  | .reg cd => s.regs cd
  | .scr r => s.scrs r
  | .pcc => s.pcc

@[simp] theorem read_reg (s : CapState w) (r : RegId) : s.read (.reg r) = s.regs r := rfl

@[simp] theorem read_scr (s : CapState w) (r : Scr) : s.read (.scr r) = s.scrs r := rfl

@[simp] theorem read_pcc (s : CapState w) : s.read .pcc = s.pcc := rfl

theorem read_write (s : CapState w) (dest d : Dest) (c : Capability) :
    (s.write dest c).read d = s.read d ∨ dest = d ∧ (s.write dest c).read d = c := by
  cases dest with
  | reg cd =>
    by_cases h0 : cd = 0
    · left
      rw [show s.write (.reg cd) c = s from if_pos h0]
    · rw [show s.write (.reg cd) c = { s with regs := Function.update s.regs cd c } from
        if_neg h0]
      cases d with
      | reg r =>
        by_cases hr : r = cd
        · subst hr
          right
          simp
        · left
          simp [hr]
      | scr r => left; rfl
      | pcc => left; rfl
  | scr r =>
    cases d with
    | reg r' => left; rfl
    | scr r' =>
      by_cases hr : r' = r
      · subst hr
        right
        simp [write]
      · left
        simp [write, hr]
    | pcc => left; rfl
  | pcc =>
    cases d with
    | reg r => left; rfl
    | scr r => left; rfl
    | pcc => right; exact ⟨rfl, rfl⟩

/-- **A place holds what it held, or what one of the writes gave it.** -/
theorem read_writeAll (s : CapState w) (ws : List CapWrite) (d : Dest) :
    (s.writeAll ws).read d = s.read d
      ∨ ∃ x ∈ ws, x.dest = d ∧ (s.writeAll ws).read d = x.result := by
  induction ws generalizing s with
  | nil => exact Or.inl rfl
  | cons x ws ih =>
    obtain h | ⟨y, hy, hd, h⟩ := ih (s.write x.dest x.result)
    · obtain h' | ⟨hd, h'⟩ := s.read_write x.dest d x.result
      · exact Or.inl (h.trans h')
      · exact Or.inr ⟨x, List.mem_cons_self, hd, h.trans h'⟩
    · exact Or.inr ⟨y, List.mem_cons_of_mem _ hy, hd, h⟩

/-- Register zero is never written. -/
theorem writeAll_regs_zero (s : CapState w) (ws : List CapWrite) :
    (s.writeAll ws).regs 0 = s.regs 0 := by
  induction ws generalizing s with
  | nil => rfl
  | cons x ws ih =>
    refine (ih (s.write x.dest x.result)).trans ?_
    unfold write
    split
    · split
      · rfl
      · rename_i cd _ hne
        exact Function.update_of_ne (fun h => hne h.symm) _ _
    · rfl
    · rfl

/-- The instruction traps: at its fetch, or by itself. -/
def Traps (s : CapState w) (i : CapInstr) : Prop :=
  s.fetchCheck ≠ none ∨ ∃ cause, s.exec i = .error cause

instance (s : CapState w) (i : CapInstr) : Decidable (s.Traps i) :=
  decidable_of_iff (s.fetchCheck ≠ none ∨ (s.exec i).isOk = false) (by
    cases h : s.exec i with
    | ok ws => simp [Traps, h, Except.isOk, Except.toBool]
    | error cause => simp [Traps, h, Except.isOk, Except.toBool])

/-- **What a place can hold after one instruction.** What it held; the result
of a write of an instruction that was fetched; the program counter moved on;
what a trap puts there; or the result of a write of an instruction that was
trapped at its fetch. -/
theorem read_step (s : CapState w) (i : CapInstr) (d : Dest) :
    (s.step i).read d = s.read d
      ∨ (∃ ws, s.fetchCheck = none ∧ s.exec i = .ok ws
          ∧ ∃ x ∈ ws, x.dest = d ∧ (s.step i).read d = x.result)
      ∨ (d = .pcc ∧ s.fetchCheck = none
          ∧ (s.step i).read d = { s.pcc with offset := s.pcc.offset + 4 })
      ∨ (s.Traps i ∧ d = .scr .mepcc ∧ (s.step i).read d = s.pcc)
      ∨ (s.Traps i ∧ d = .pcc ∧ (s.step i).read d = s.trapTarget)
      ∨ ∃ x ∈ s.earlyWrites i ++ s.lateWrites i, s.fetchCheck ≠ none ∧ x.dest = d
          ∧ (s.step i).read d = x.result := by
  cases hf : s.fetchCheck with
  | none =>
    cases he : s.exec i with
    | ok ws =>
      have hs : s.step i = { s.advance.writeAll ws with store := s.storeAfter i } := by
        simp only [step, hf, he]
      have hr : (s.step i).read d = (s.advance.writeAll ws).read d := by
        rw [hs]
        cases d <;> rfl
      obtain h | ⟨x, hx, hd, h⟩ := s.advance.read_writeAll ws d
      · cases d with
        | reg r => exact Or.inl (hr.trans h)
        | scr r => exact Or.inl (hr.trans h)
        | pcc => exact Or.inr (Or.inr (Or.inl ⟨rfl, rfl, hr.trans h⟩))
      · exact Or.inr (Or.inl ⟨ws, rfl, rfl, x, hx, hd, hr.trans h⟩)
    | error cause =>
      have hs : s.step i = s.enterTrap := by simp only [step, hf, he]
      have ht : s.Traps i := Or.inr ⟨cause, he⟩
      rw [hs]
      cases d with
      | reg r => exact Or.inl rfl
      | scr r =>
        by_cases hr : r = .mepcc
        · subst hr
          refine Or.inr (Or.inr (Or.inr (Or.inl ⟨ht, rfl, ?_⟩)))
          simp [enterTrap]
        · left
          simp [enterTrap, hr]
      | pcc => exact Or.inr (Or.inr (Or.inr (Or.inr (Or.inl ⟨ht, rfl, rfl⟩))))
  | some cause =>
    have hne : s.fetchCheck ≠ none := by simp [hf]
    have ht : s.Traps i := Or.inl hne
    -- the state between the two groups of writes
    let t : CapState w :=
      { s.enterTrap with
        scrs := Function.update (s.writeAll (s.earlyWrites i)).scrs .mepcc s.pcc }
    have hs : s.step i = { t.writeAll (s.lateWrites i) with store := s.storeAfter i } := by
      simp only [step, hf]
      rfl
    have hr : (s.step i).read d = (t.writeAll (s.lateWrites i)).read d := by
      rw [hs]
      cases d <;> rfl
    obtain h | ⟨x, hx, hd, h⟩ := t.read_writeAll (s.lateWrites i) d
    · cases d with
      | reg r => exact Or.inl (hr.trans h)
      | scr r =>
        by_cases hr' : r = .mepcc
        · subst hr'
          refine Or.inr (Or.inr (Or.inr (Or.inl ⟨ht, rfl, hr.trans (h.trans ?_)⟩)))
          simp [t]
        · have ht' : t.read (.scr r) = (s.writeAll (s.earlyWrites i)).read (.scr r) := by
            simp [t, hr']
          obtain h' | ⟨x, hx, hd, h'⟩ := s.read_writeAll (s.earlyWrites i) (.scr r)
          · exact Or.inl (hr.trans (h.trans (ht'.trans h')))
          · exact Or.inr (Or.inr (Or.inr (Or.inr (Or.inr ⟨x,
              List.mem_append_left _ hx, by simp, hd,
              hr.trans (h.trans (ht'.trans h'))⟩))))
      | pcc => exact Or.inr (Or.inr (Or.inr (Or.inr (Or.inl ⟨ht, rfl, hr.trans h⟩))))
    · exact Or.inr (Or.inr (Or.inr (Or.inr (Or.inr ⟨x, List.mem_append_right _ hx,
        by simp, hd, hr.trans h⟩))))

/-- The capabilities an instruction seals: what it gives where it is one of
the sealing ones, is fetched and does not raise. -/
def sealings (s : CapState w) (i : CapInstr) : List Capability :=
  if i.sealing then
    match s.fetchCheck, s.exec i with
    | none, .ok ws => ws.map CapWrite.result
    | _, _ => []
  else
    []

end CapState

/-- **The capability state as a machine** driven by its instructions; a step
shows the capabilities it seals. -/
def capMachine (w : ℕ) : SyncMachine (CapState w) CapInstr (List Capability) where
  step s i := (s.step i, s.sealings i)

@[simp] theorem capMachine_next {w : ℕ} (s : CapState w) (i : CapInstr) :
    (capMachine w).next s i = s.step i := rfl

@[simp] theorem capMachine_obs {w : ℕ} (s : CapState w) (i : CapInstr) :
    (capMachine w).obs s i = s.sealings i := rfl

end Proteus
