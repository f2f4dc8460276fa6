import CheriTree.Sail.Memory

/-!
# Enclave initialisation

The table of identities, the key and the hash of an enclave, the sweep of the
registers and of the memory, and `EInitData`, which finishes an enclave: it
takes a sealed code capability, whose identity it computes, and a data
capability, in which it leaves the enclave's key.

The sweep looks for a capability that shares a byte with either section. In
the registers it passes over the two sections themselves; in memory it passes
over what lies in the data section, and takes any capability in the code
section for a failure.
-/

namespace Sail

variable {f : CapFormat}

/-! ## The table of identities -/

/-- `getIdH`, from a slot on. The first slot of an enclave decides: object
types are not reused. -/
def getIdH (eid : BitVec (f.ow - 2)) (isTemp : Bool) :
    List (Option (EMapping f)) → Option (EMapping f)
  | [] => none
  | none :: rest => getIdH eid isTemp rest
  | some entry :: rest =>
    if entry.eid = eid then
      if isTemp && entry.isTemp then some entry
      else if !(isTemp || entry.isTemp) then some entry
      else none
    else getIdH eid isTemp rest

def ETable.getId (t : ETable f) (eid : BitVec (f.ow - 2)) (isTemp : Bool) : Option (EMapping f) :=
  getIdH eid isTemp t.slots

/-- `makeMappingPermH`, from a slot on: the slots with the entry of the enclave
made permanent, where it was temporary. -/
def makeMappingPermH (eid : BitVec (f.ow - 2)) (id : Hash) :
    List (Option (EMapping f)) → Option (List (Option (EMapping f)))
  | [] => none
  | none :: rest => (makeMappingPermH eid id rest).map (none :: ·)
  | some entry :: rest =>
    if entry.eid = eid then
      if entry.isTemp then some (some { entry with
        isTemp := false
        id := id } :: rest)
      else none
    else (makeMappingPermH eid id rest).map (some entry :: ·)

/-- The slot that is written held a temporary entry of the enclave. -/
theorem makeMappingPermH_eq_some {eid : BitVec (f.ow - 2)} {id : Hash}
    {slots slots' : List (Option (EMapping f))}
    (h : makeMappingPermH eid id slots = some slots') :
    ∃ i e, slots[i]? = some (some e) ∧ e.eid = eid ∧ e.isTemp = true
      ∧ slots' = slots.set i (some { e with
          isTemp := false
          id := id }) := by
  induction slots generalizing slots' with
  | nil => cases h
  | cons slot rest ih =>
    have hrest : (makeMappingPermH eid id rest).map (slot :: ·) = some slots' →
        ∃ i e, (slot :: rest)[i]? = some (some e) ∧ e.eid = eid ∧ e.isTemp = true
          ∧ slots' = (slot :: rest).set i (some { e with
              isTemp := false
              id := id }) := by
      intro h
      obtain ⟨rest', hrest', rfl⟩ := Option.map_eq_some_iff.1 h
      obtain ⟨i, e, hi, he, htemp, rfl⟩ := ih hrest'
      exact ⟨i + 1, e, hi, he, htemp, rfl⟩
    cases slot with
    | none => exact hrest h
    | some entry =>
      rw [makeMappingPermH] at h
      split at h
      · split at h
        · obtain rfl := Option.some.inj h
          exact ⟨0, entry, rfl, ‹_›, ‹_›, rfl⟩
        · cases h
      · exact hrest h

theorem length_makeMappingPermH {eid : BitVec (f.ow - 2)} {id : Hash}
    {slots slots' : List (Option (EMapping f))}
    (h : makeMappingPermH eid id slots = some slots') : slots'.length = slots.length := by
  obtain ⟨i, e, -, -, -, rfl⟩ := makeMappingPermH_eq_some h
  exact List.length_set

/-- **The entry of an enclave made permanent**, with its identity. -/
def ETable.makeMappingPerm (t : ETable f) (eid : BitVec (f.ow - 2)) (id : Hash) :
    Option (ETable f) :=
  match h : makeMappingPermH eid id t.slots with
  | some slots => some ⟨slots, (length_makeMappingPermH h).trans t.length_eq⟩
  | none => none

/-- `otype_to_eid`. -/
def otypeToEid (otype : BitVec f.ow) : BitVec (f.ow - 2) := (otype >>> 2).setWidth (f.ow - 2)

/-! ## The key and the hash -/

/-- **The key of an enclave** (`make_key`): a capability to seal and unseal with
the `size` object types from `otype` on. -/
def makeKey (otype size : ℕ) : M f (Capability f) := do
  let base := BitVec.ofNat f.xlen otype
  let top := BitVec.ofNat (f.xlen + 1) (otype + size)
  let bounded := (Capability.nullCap f).setCapBounds base top
  let placed := bounded.2.setCapAddr base
  if bounded.1 && placed.1 then
    let key := { placed.2 with
      tag := true
      permitSeal := true
      permitUnseal := true
      global := true }
    -- printing the key takes its length
    assert (key.getCapBase ≤ key.getCapTop)
    pure key
  else pure (.nullCap f)

/-- `word_le_be_swap`. -/
def wordLeBeSwap (w : BitVec 32) : BitVec 32 :=
  w.extractLsb' 0 8 ++ w.extractLsb' 8 8 ++ w.extractLsb' 16 8 ++ w.extractLsb' 24 8

/-- The loop of `make_hash`: the words from the address of `cap` to `top`. -/
def hashLoop (p : Platform f) (cs1 : RegIdx) (top : BitVec (f.xlen + 1)) :
    ℕ → Capability f → List (BitVec 32) → M f (Option (List (BitVec 32)))
  | 0, _, _ => throw .outOfFuel
  | fuel + 1, cap, words => do
    if cap.address.toNat < top.toNat then
      match ← loadWordNoreg p (0#1 ++ cs1) cap cap.address with
      | none => pure none
      | some data =>
        hashLoop p cs1 top fuel (cap.withAddress (cap.address + 4)) (words ++ [wordLeBeSwap data])
    else pure (some words)

/-- **The identity of a code section** (`make_hash`). -/
def makeHash (p : Platform f) (fuel : ℕ) (cs1 : RegIdx) : M f (Option Hash) := do
  let s ← get
  let cap := (s.rC cs1).unsealCap
  assert (cap.address = cap.getCapBaseBits)
  match ← hashLoop p cs1 cap.getCapBoundsBits.2 fuel cap [] with
  | none => pure none
  | some words => pure (some (p.sha256 words))

/-! ## The sweep -/

/-- **Two capabilities overlap**, by the last byte of the one that starts
first. -/
def overlap (c d : Capability f) : Bool :=
  if c.tag && d.tag then
    if c.getCapBase < d.getCapBase then (d.getCapBase : ℤ) ≤ c.getCapTop - 1
    else (c.getCapBase : ℤ) ≤ d.getCapTop - 1
  else false

/-- The special registers a configuration has. -/
def Scr.implemented (misa : Misa) : Scr → Bool
  | UTCC | UTDC | UScratchC | UEPCC => misa.N
  | STCC | STDC | SScratchC | SEPCC => misa.S
  | _ => true

/-- `overlap_special`. -/
def overlapSpecial (s : State f) (cap : Capability f) : Bool :=
  [Scr.PCC, .DDC, .nextPCC, .UTCC, .UTDC, .UScratchC, .UEPCC, .STCC, .STDC, .SScratchC, .SEPCC,
    .MTCC, .MTDC, .MScratchC, .MEPCC].any fun r => r.implemented s.misa && overlap (s.scr r) cap

/-- **The sweep of the registers** for two sections: no overlap was found. -/
def sweepRegs2 (s : State f) (regCode regData : RegIdx) : Bool :=
  let capCode := s.rC regCode
  let capData := s.rC regData
  let overlaps := (List.range 32).any fun r =>
    regCode.toNat ≠ r && regData.toNat ≠ r
      && (overlap (s.rC (BitVec.ofNat 5 r)) capCode || overlap (s.rC (BitVec.ofNat 5 r)) capData)
  !(overlaps || overlapSpecial s capCode || overlapSpecial s capData || overlap capCode capData)

/-- The test of one granule. A load that fails counts as an overlap. -/
def sweepGranule2 (p : Platform f) (capCode capData ambient : Capability f)
    (addr : BitVec f.xlen) : M f Bool := do
  let s ← get
  if s.tags (tagAddr addr) then
    if capCode.inCapBounds addr f.capSize then pure true
    else if capData.inCapBounds addr f.capSize then pure false
    else
      match ← loadCapNoreg p ambient addr with
      | none => pure true
      | some loaded => pure (overlap capCode loaded || overlap capData loaded)
  else pure false

/-- **The sweep of the memory**, granule by granule up to `memEnd`. -/
def sweepLoop2 (p : Platform f) (capCode capData ambient : Capability f) (memEnd : ℕ) :
    ℕ → BitVec f.xlen → M f Bool
  | 0, _ => throw .outOfFuel
  | fuel + 1, addr => do
    if addr.toNat + f.capSize ≤ memEnd then
      let overlaps ← sweepGranule2 p capCode capData ambient addr
      if overlaps then pure true
      else sweepLoop2 p capCode capData ambient memEnd fuel (addr + BitVec.ofNat f.xlen f.capSize)
    else pure false

/-- `sweep_mem2`. -/
def sweepMem2 (p : Platform f) (fuel : ℕ) (regCode regData : RegIdx) : M f Bool := do
  let s ← get
  let ambient := (Capability.defaultCap f).withAddress p.ramBase
  let result ← sweepLoop2 p (s.rC regCode) (s.rC regData) ambient
    (p.ramBase.toNat + p.ramSize.toNat) fuel ambient.address
  pure (!result)

/-- **The sweep for two sections** (`sweep2`): the memory is swept where the
registers pass. -/
def sweep2 (p : Platform f) (fuel : ℕ) (regCode regData : RegIdx) : M f Bool := do
  let s ← get
  if sweepRegs2 s regCode regData then sweepMem2 p fuel regCode regData else pure false

/-! ## The instruction -/

/-- The last part of `EInitData`, once the identity is in the table: the data
section is sealed at its base, and the key is stored in it. -/
def finishData (p : Platform f) (cd cs2 : RegIdx) (cs2Val : Capability f) (otype : BitVec f.ow) :
    M f Retired := do
  let moved := cs2Val.setCapOffset 0
  if !moved.1 then failWith .InexactBounds cs2
  else
    let key ← makeKey (4 * (otypeToEid otype).toNat) 4
    match ← storeCapvalViaCap p key (0#1 ++ cs2) cs2Val cs2Val.address with
    | .RETIRE_FAIL => pure .RETIRE_FAIL
    | .RETIRE_SUCCESS => do
      modify fun s => s.wC cd (moved.2.sealCap otype)
      pure .RETIRE_SUCCESS

/-- **`EInitData`.** -/
def executeEInitData (p : Platform f) (fuel : ℕ) (cd cs1 cs2 : RegIdx) : M f Retired := do
  let s ← get
  let cs1Val := s.rC cs1
  let cs2Val := s.rC cs2
  if !cs1Val.tag then failWith .TagViolation cs1
  else if !cs2Val.tag then failWith .TagViolation cs2
  else if !cs1Val.isCapSealed then failWith .SealViolation cs1
  else if cs2Val.isCapSealed then failWith .SealViolation cs2
  else if !cs2Val.permitStore then failWith .PermitStoreViolation cs2
  else if cd ≠ cs2 then failWith .LinearityViolation cs2
  -- the length of a tagged capability is asserted not to be negative
  else if cs2Val.getCapTop < cs2Val.getCapBase then throw .assertion
  else if cs2Val.getCapTop - cs2Val.getCapBase < f.capSize then failWith .LengthViolation cs2
  else if cs1Val.otype.toNat % 4 ≠ 2 then failWith .SealViolation cs1
  else
    match s.etable.getId (otypeToEid cs1Val.otype) true with
    | none => failWith .TCBAttestViolation cs1
    | some _ => do
      if !(← sweep2 p fuel cs1 cs2) then failWith .LinearityViolation cs2
      else
        match ← makeHash p fuel cs1 with
        | none => failWith .TCBAttestViolation cs1
        | some id => do
          let s ← get
          match s.etable.makeMappingPerm (otypeToEid cs1Val.otype) id with
          | none => failWith .TCBAttestViolation cs1
          | some etable => do
            set { s with etable := etable }
            finishData p cd cs2 cs2Val cs1Val.otype

end Sail
