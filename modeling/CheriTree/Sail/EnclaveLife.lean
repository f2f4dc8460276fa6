import CheriTree.Sail.Enclave

/-!
# The life of an enclave

The instructions around `EInitData`: `EInitCode` issues a number for an enclave
and enters it in the table, `EDeinit` takes it out, `IsUnique` sweeps for one
capability, and `EStoreId` looks up the identity behind an object type. Four
object types belong to one enclave, those whose quotient by four is its number.
-/

namespace Sail

variable {f : CapFormat}

/-! ## Integer registers -/

/-- `X(r)`: the address of the register. -/
def State.rX (s : State f) (r : RegIdx) : BitVec f.xlen := (s.rC r).address

/-- `int_to_cap`. -/
def Capability.intToCap (v : BitVec f.xlen) : Capability f :=
  { Capability.nullCap f with address := v }

/-- `X(r) = v`: the register becomes the null capability at that address. -/
def State.wX (s : State f) (r : RegIdx) (v : BitVec f.xlen) : State f := s.wC r (.intToCap v)

/-! ## The table of identities -/

/-- `initETable`. -/
def initETable : ETable f := ⟨List.replicate tableSize none, List.length_replicate⟩

/-- `findFreeIdxH`, from the slot `idx` on. -/
def findFreeIdxH (idx : ℕ) : List (Option (EMapping f)) → Option ℕ
  | [] => none
  | some _ :: rest => findFreeIdxH (idx + 1) rest
  | none :: _ => some idx

def ETable.findFreeIdx (t : ETable f) : Option ℕ := findFreeIdxH 0 t.slots

/-- A slot written. -/
def ETable.set (t : ETable f) (idx : ℕ) (slot : Option (EMapping f)) : ETable f :=
  ⟨t.slots.set idx slot, (List.length_set).trans t.length_eq⟩

/-- `addMappingH`. -/
def addMappingH (eid : BitVec (f.ow - 2)) (id : Hash) (isTemp : Bool) (idx : ℕ) : M f Unit := do
  assert (idx < tableSize)
  modify fun s => { s with etable := s.etable.set idx (some ⟨id, eid, isTemp⟩) }

def addTempMapping (eid : BitVec (f.ow - 2)) (idx : ℕ) : M f Unit := addMappingH eid 0 true idx

/-- `removeMappingH`, from a slot on: the slots without the entry of the
enclave, where it has one. -/
def removeMappingH (eid : BitVec (f.ow - 2)) :
    List (Option (EMapping f)) → Option (List (Option (EMapping f)))
  | [] => none
  | none :: rest => (removeMappingH eid rest).map (none :: ·)
  | some entry :: rest =>
    if entry.eid = eid then some (none :: rest)
    else (removeMappingH eid rest).map (some entry :: ·)

/-- The slot that is emptied held an entry of the enclave. -/
theorem removeMappingH_eq_some {eid : BitVec (f.ow - 2)}
    {slots slots' : List (Option (EMapping f))} (h : removeMappingH eid slots = some slots') :
    ∃ i e, slots[i]? = some (some e) ∧ e.eid = eid ∧ slots' = slots.set i none := by
  induction slots generalizing slots' with
  | nil => cases h
  | cons slot rest ih =>
    have hrest : (removeMappingH eid rest).map (slot :: ·) = some slots' →
        ∃ i e, (slot :: rest)[i]? = some (some e) ∧ e.eid = eid
          ∧ slots' = (slot :: rest).set i none := by
      intro h
      obtain ⟨rest', hrest', rfl⟩ := Option.map_eq_some_iff.1 h
      obtain ⟨i, e, hi, he, rfl⟩ := ih hrest'
      exact ⟨i + 1, e, hi, he, rfl⟩
    cases slot with
    | none => exact hrest h
    | some entry =>
      rw [removeMappingH] at h
      split at h
      · obtain rfl := Option.some.inj h
        exact ⟨0, entry, rfl, ‹_›, rfl⟩
      · exact hrest h

theorem length_removeMappingH {eid : BitVec (f.ow - 2)}
    {slots slots' : List (Option (EMapping f))}
    (h : removeMappingH eid slots = some slots') : slots'.length = slots.length := by
  obtain ⟨i, e, -, -, rfl⟩ := removeMappingH_eq_some h
  exact List.length_set

/-- **The entry of an enclave taken out**, where the table has one. -/
def ETable.removeMapping (t : ETable f) (eid : BitVec (f.ow - 2)) : Option (ETable f) :=
  match h : removeMappingH eid t.slots with
  | some slots => some ⟨slots, (length_removeMappingH h).trans t.length_eq⟩
  | none => none

/-! ## The number of an enclave -/

/-- **A new number** (`gen_eid`), while there are object types for it. -/
def genEid : M f (Option (BitVec (f.ow - 2))) := do
  let s ← get
  if 4 * s.eidCounter.toNat + 3 > f.capMaxOtype then pure none
  else do
    set { s with eidCounter := s.eidCounter + 1 }
    pure (some (s.eidCounter.setWidth (f.ow - 2)))

/-- The object type of the entry point: `eid @ 0b10`. -/
def entryOtype (eid : BitVec (f.ow - 2)) : BitVec f.ow := (eid ++ 0b10#2).setWidth f.ow

/-! ## The instructions -/

/-- **`EInitCode`.** A free slot is looked for before a number is issued; a
number that was issued is not given back where the code section cannot be
sealed at its base. -/
def executeEInitCode (cd cs1 : RegIdx) : M f Retired := do
  let s ← get
  let cs1Val := s.rC cs1
  if !cs1Val.tag then failWith .TagViolation cs1
  else if cs1Val.isCapSealed then failWith .SealViolation cs1
  else if !cs1Val.permitLoad then failWith .PermitLoadViolation cs1
  else if cd ≠ cs1 then failWith .LinearityViolation cs1
  else
    match s.etable.findFreeIdx with
    | none => failWith .TCBAttestViolation cs1
    | some idx => do
      match ← genEid with
      | none => failWith .TCBAttestViolation cs1
      | some eid =>
        let moved := cs1Val.setCapOffset 0
        if !moved.1 then failWith .InexactBounds cs1
        else do
          addTempMapping eid idx
          modify fun s => s.wC cd (moved.2.sealCap (entryOtype eid))
          pure .RETIRE_SUCCESS

/-- **`EDeinit`.** The key of the enclave names it: any object type in its
bounds does. -/
def executeEDeinit (rd cs1 : RegIdx) : M f Retired := do
  let s ← get
  let cs1Val := s.rC cs1
  let cursor := cs1Val.address.toNat
  if !cs1Val.tag then failWith .TagViolation cs1
  else if cursor < cs1Val.getCapBase then failWith .LengthViolation cs1
  else if cs1Val.getCapTop ≤ cursor then failWith .LengthViolation cs1
  else if f.capMaxOtype < cursor then failWith .LengthViolation cs1
  else if !(cs1Val.permitSeal && cs1Val.permitUnseal) then failWith .PermitSealViolation cs1
  else
    match s.etable.removeMapping (otypeToEid (cs1Val.address.setWidth f.ow)) with
    | some etable => do
      set ({ s with etable := etable }.wX rd 1)
      pure .RETIRE_SUCCESS
    | none => do
      set (s.wX rd 0)
      pure .RETIRE_SUCCESS

/-- **The sweep of the registers** for one section (`sweep_regs`): no overlap
was found. -/
def sweepRegs (s : State f) (reg : RegIdx) : Bool :=
  let cap := s.rC reg
  let overlaps := (List.range 32).any fun r =>
    reg.toNat ≠ r && overlap (s.rC (BitVec.ofNat 5 r)) cap
  !(overlaps || overlapSpecial s cap)

/-- The test of one granule, of which those in the section itself are not
looked at. A load that fails counts as an overlap. -/
def sweepGranule (p : Platform f) (cap ambient : Capability f) (addr : BitVec f.xlen) :
    M f Bool := do
  let s ← get
  if s.tags (tagAddr addr) then
    if !cap.inCapBounds addr f.capSize then
      match ← loadCapNoreg p ambient addr with
      | none => pure true
      | some loaded => pure (overlap cap loaded)
    else pure false
  else pure false

/-- The loop of a sweep, with its test of a granule. -/
def granuleLoop (test : BitVec f.xlen → M f Bool) (memEnd : ℕ) : ℕ → BitVec f.xlen → M f Bool
  | 0, _ => throw .outOfFuel
  | fuel + 1, addr => do
    if addr.toNat + f.capSize ≤ memEnd then
      let overlaps ← test addr
      if overlaps then pure true
      else granuleLoop test memEnd fuel (addr + BitVec.ofNat f.xlen f.capSize)
    else pure false

/-- `sweep_loop`. -/
def sweepLoop (p : Platform f) (cap ambient : Capability f) (memEnd : ℕ) :
    ℕ → BitVec f.xlen → M f Bool :=
  granuleLoop (sweepGranule p cap ambient) memEnd

/-- The loop for two sections is the same. -/
theorem sweepLoop2_eq (p : Platform f) (capCode capData ambient : Capability f) (memEnd fuel : ℕ) :
    sweepLoop2 p capCode capData ambient memEnd fuel
      = granuleLoop (sweepGranule2 p capCode capData ambient) memEnd fuel := by
  induction fuel with
  | zero => rfl
  | succ fuel ih =>
    funext addr
    rw [sweepLoop2, granuleLoop, ih]

/-- `sweep_mem`. -/
def sweepMem (p : Platform f) (fuel : ℕ) (reg : RegIdx) : M f Bool := do
  let s ← get
  let ambient := (Capability.defaultCap f).withAddress p.ramBase
  let result ← sweepLoop p (s.rC reg) ambient (p.ramBase.toNat + p.ramSize.toNat) fuel
    ambient.address
  pure (!result)

/-- **The sweep for one section** (`sweep`). -/
def sweep (p : Platform f) (fuel : ℕ) (reg : RegIdx) : M f Bool := do
  let s ← get
  if sweepRegs s reg then sweepMem p fuel reg else pure false

/-- **`IsUnique`.** What the sweep says is the result, also where a load of it
failed. -/
def executeIsUnique (p : Platform f) (fuel : ℕ) (rd cs1 : RegIdx) : M f Retired := do
  let s ← get
  if !(s.rC cs1).tag then failWith .TagViolation cs1
  else do
    let unique ← sweep p fuel cs1
    modify fun s => s.wX rd (if unique then 1 else 0)
    pure .RETIRE_SUCCESS

/-- **A store of a word** (`handle_store_value_via_cap`, at the width the
identity is stored with). -/
def storeWordViaCap (p : Platform f) (value : BitVec 32) (authIdx : BitVec 6)
    (auth : Capability f) (vaddr : BitVec f.xlen) : M f Retired := do
  if !auth.tag then failWithCap .TagViolation authIdx
  else if auth.isCapSealed then failWithCap .SealViolation authIdx
  else if !auth.permitStore then failWithCap .PermitStoreViolation authIdx
  else if !auth.inCapBounds vaddr 4 then failWithCap .LengthViolation authIdx
  else if wordMisaligned p vaddr then failWithMem vaddr .E_SAMO_Addr_Align
  else
    match ← translateAddr p vaddr (.Write .Data) with
    | .TR_Failure (.E_Extension _) _ => throw .internalError
    | .TR_Failure e _ => failWithMem vaddr e
    | .TR_Address addr _ =>
      match ← memWriteValueMeta p addr 4 value .Data false with
      | .ok () => pure .RETIRE_SUCCESS
      | .error e => failWithMem vaddr e

/-- The loop that stores an identity, word by word and each word as its bytes
stand in the identity; it stops at a store that fails. -/
def storeIdLoop (p : Platform f) (cs2 : RegIdx) (cs2Val : Capability f) (id : Hash) :
    List ℕ → M f Retired
  | [] => pure .RETIRE_SUCCESS
  | i :: rest => do
    match ← storeWordViaCap p (wordLeBeSwap (id.extractLsb' (224 - 32 * i) 32)) (0#1 ++ cs2) cs2Val
      (cs2Val.address + BitVec.ofNat f.xlen (4 * i)) with
    | .RETIRE_SUCCESS => storeIdLoop p cs2 cs2Val id rest
    | .RETIRE_FAIL => pure .RETIRE_FAIL

/-- **`EStoreId`.** -/
def executeEStoreId (p : Platform f) (rd rs1 cs2 : RegIdx) : M f Retired := do
  let s ← get
  let otype := (s.rX rs1).setWidth f.ow
  let cs2Val := s.rC cs2
  if cs2 ≠ 0 && !cs2Val.tag then failWith .TagViolation cs2
  else if cs2Val.isCapSealed then failWith .SealViolation cs2
  else if !cs2Val.inCapBounds cs2Val.address 32 then failWith .LengthViolation cs2
  else
    match s.etable.getId (otypeToEid otype) false with
    | none => do
      set (s.wX rd 0)
      pure .RETIRE_SUCCESS
    | some entry => do
      set (s.wX rd 1)
      if cs2 ≠ 0 then storeIdLoop p cs2 cs2Val entry.id (List.range 8)
      else pure .RETIRE_SUCCESS

end Sail
