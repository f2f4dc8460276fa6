import CheriTree.Proteus.Capability

/-!
# The checks made of a memory access

Three places of the core decide whether an access is authorised: the load and
store unit checks a data access against `DDC` or against `cs1`, and a
capability access against the same, all through one shared `CapCheck`; the
fetch stage and every jump check the target against the program counter
capability. All of them test the tag, the seal, one permission and the bounds,
in that order.

`MemAccess` collects the accesses with what each one reads, and
`MemAccess.Authorised` says what an access that raises nothing should have:
among it, that a *tagged* capability moves only under the permission to move
capabilities. No check tests that permission, and the bounds are compared as
wrapped words, so the two kinds of access that pass without being authorised
are `MemAccess.Escapes` and `MemAccess.MovesTag`.
-/

namespace Proteus

/-- The operation of the load and store unit. -/
inductive LsuOperationType where
  | none
  | load
  | store
deriving DecidableEq, Repr

/-- The width of a data access. -/
inductive LsuAccessWidth where
  | B
  | H
  | W
deriving DecidableEq, Repr

/-- The number of bytes of a data access. -/
def LsuAccessWidth.byteWidth : LsuAccessWidth → Word
  | B => 1
  | H => 2
  | W => 4

/-- The number of bytes of a capability access, `clen / 8`. -/
def capByteWidth : Word := 16

/-- **The check of the load and store unit** (`CapCheck.check`): the exception
the access raises, if any. -/
def CapCheck.check (cap : Capability) (address : Word) (operation : LsuOperationType)
    (byteWidth : Word) : Option ExceptionCause :=
  if operation ≠ .none then
    if !cap.tag then some .tagViolation
    else if cap.isSealed then some .sealViolation
    else if operation = .load ∧ !cap.perms.load then some .permitLoadViolation
    else if operation = .store ∧ !cap.perms.store then some .permitStoreViolation
    else if address + byteWidth > cap.top then some .lengthViolation
    else if address < cap.base then some .lengthViolation
    else none
  else none

/-- **The check of a jump target** (`checkJumpTarget`): the target is the
address of the next instruction, already relative to no base. -/
def checkJumpTarget (targetPcc : Capability) (address : Word) : Option ExceptionCause :=
  if !targetPcc.tag then some .tagViolation
  else if targetPcc.isSealed then some .sealViolation
  else if !targetPcc.perms.execute then some .permitExecuteViolation
  else if address + 4 > targetPcc.top then some .lengthViolation
  else if address < targetPcc.base then some .lengthViolation
  else none

/-- The address of a data access that does not use `cs1`, relative to `DDC`
(`LsuAddressTranslator.translate`). -/
def translate (ddc : Capability) (address : Word) : Word := ddc.address + address

/-- The permission a `CapCheck` tests for an operation. -/
def LsuOperationType.permitted (operation : LsuOperationType) (p : Permissions) : Bool :=
  match operation with
  | .none => true
  | .load => p.load
  | .store => p.store

/-- The two comparisons every check ends with raise nothing for what is in
bounds. -/
theorem lengthCheck_eq_none_iff {c : Capability} {a n : Word} {e : ExceptionCause} :
    (if a + n > c.top then some e else if a < c.base then some e else none) = none
      ↔ c.InBounds a n := by
  unfold Capability.InBounds
  by_cases htop : a + n > c.top
  · rw [if_pos htop]
    exact ⟨fun h => absurd h (by simp), fun h => absurd htop h.1⟩
  · rw [if_neg htop]
    by_cases hbase : a < c.base
    · rw [if_pos hbase]
      exact ⟨fun h => absurd h (by simp), fun h => absurd hbase h.2⟩
    · rw [if_neg hbase]
      exact ⟨fun _ => ⟨htop, hbase⟩, fun _ => rfl⟩

/-- A check that raises nothing has tested the tag, the seal, the permission
and the bounds. -/
theorem CapCheck.check_eq_none_iff {cap : Capability} {address : Word}
    {operation : LsuOperationType} {byteWidth : Word} (hop : operation ≠ .none) :
    CapCheck.check cap address operation byteWidth = none ↔
      cap.tag = true ∧ cap.isSealed = false ∧ operation.permitted cap.perms = true
        ∧ cap.InBounds address byteWidth := by
  unfold CapCheck.check
  rw [if_pos hop, ← lengthCheck_eq_none_iff (e := .lengthViolation)]
  cases cap.tag with
  | false => simp
  | true =>
    cases cap.isSealed with
    | true => simp
    | false =>
      cases operation with
      | none => exact absurd rfl hop
      | load => cases hperm : cap.perms.load <;> simp [LsuOperationType.permitted, hperm]
      | store => cases hperm : cap.perms.store <;> simp [LsuOperationType.permitted, hperm]

/-- A jump target that raises nothing is tagged, unsealed, executable and in
bounds. -/
theorem checkJumpTarget_eq_none_iff {targetPcc : Capability} {address : Word} :
    checkJumpTarget targetPcc address = none ↔
      targetPcc.tag = true ∧ targetPcc.isSealed = false
        ∧ targetPcc.perms.execute = true ∧ targetPcc.InBounds address 4 := by
  unfold checkJumpTarget
  rw [← lengthCheck_eq_none_iff (e := .lengthViolation)]
  cases targetPcc.tag with
  | false => simp
  | true =>
    cases targetPcc.isSealed with
    | true => simp
    | false => cases targetPcc.perms.execute <;> simp

/-! ## Every access of the core -/

/-- The direction of an access to data or to a capability. -/
inductive Direction where
  | load
  | store
deriving DecidableEq, Repr

def Direction.operation : Direction → LsuOperationType
  | .load => .load
  | .store => .store

/-- **An access to memory**, with what its check reads. A capability access
also carries the tag of the capability it moves. -/
inductive MemAccess where
  /-- A data access relative to `DDC`, at the sum the ALU computed. -/
  | dataDdc (dir : Direction) (width : LsuAccessWidth) (ddc : Capability) (aluResult : Word)
  /-- A data access through `cs1` (`L*_CAP`, `S*_CAP`). -/
  | dataCap (dir : Direction) (width : LsuAccessWidth) (cs1 : Capability)
  /-- `LC` and `SC`, relative to `DDC`. -/
  | capDdc (dir : Direction) (tag : Bool) (ddc : Capability) (rs1Data imm : Word)
  /-- `LC_CAP` and `SC_CAP`, through `cs1`. -/
  | capCap (dir : Direction) (tag : Bool) (cs1 : Capability)
  /-- The fetch of the instruction at `pc`, relative to the program counter
  capability. -/
  | fetch (pcc : Capability) (pc : Word)
deriving DecidableEq, Repr

namespace MemAccess

/-- The capability the access is checked against. -/
def authority : MemAccess → Capability
  | dataDdc _ _ ddc _ => ddc
  | dataCap _ _ cs1 => cs1
  | capDdc _ _ ddc _ _ => ddc
  | capCap _ _ cs1 => cs1
  | fetch pcc _ => pcc

/-- The address of the first byte accessed. -/
def address : MemAccess → Word
  | dataDdc _ _ ddc aluResult => translate ddc aluResult
  | dataCap _ _ cs1 => cs1.address
  | capDdc _ _ ddc rs1Data imm => ddc.address + rs1Data + imm
  | capCap _ _ cs1 => cs1.address
  | fetch pcc pc => pcc.base + pc

/-- The number of bytes accessed. -/
def byteWidth : MemAccess → Word
  | dataDdc _ width _ _ => width.byteWidth
  | dataCap _ width _ => width.byteWidth
  | capDdc _ _ _ _ _ => capByteWidth
  | capCap _ _ _ => capByteWidth
  | fetch _ _ => 4

/-- **The exception the access raises, if any.** -/
def check (a : MemAccess) : Option ExceptionCause :=
  match a with
  | dataDdc dir _ _ _ => CapCheck.check a.authority a.address dir.operation a.byteWidth
  | dataCap dir _ _ => CapCheck.check a.authority a.address dir.operation a.byteWidth
  | capDdc dir _ _ _ _ => CapCheck.check a.authority a.address dir.operation a.byteWidth
  | capCap dir _ _ => CapCheck.check a.authority a.address dir.operation a.byteWidth
  | fetch _ _ => checkJumpTarget a.authority a.address

/-- The permission the operation needs: load, store or execute. -/
def permitted (a : MemAccess) : Bool :=
  match a with
  | dataDdc dir _ _ _ => dir.operation.permitted a.authority.perms
  | dataCap dir _ _ => dir.operation.permitted a.authority.perms
  | capDdc dir _ _ _ _ => dir.operation.permitted a.authority.perms
  | capCap dir _ _ => dir.operation.permitted a.authority.perms
  | fetch _ _ => a.authority.perms.execute

/-- The permission to move a capability in the direction of the access, where
the access moves a tagged one. -/
def capPermitted (a : MemAccess) : Bool :=
  match a with
  | capDdc .load tag ddc _ _ => !tag || ddc.perms.loadCapability
  | capDdc .store tag ddc _ _ => !tag || ddc.perms.storeCapability
  | capCap .load tag cs1 => !tag || cs1.perms.loadCapability
  | capCap .store tag cs1 => !tag || cs1.perms.storeCapability
  | _ => true

/-- **What an access should have**: a tagged and unsealed authority with the
permission of the operation, all its bytes inside the authority's range over
the integers, and the permission to move capabilities where it moves a tagged
one. -/
structure Authorised (a : MemAccess) : Prop where
  tagged : a.authority.tag = true
  notSealed : a.authority.isSealed = false
  permitted : a.permitted = true
  within : (ByteRange.mk a.address.toNat a.byteWidth.toNat).Within a.authority.range
  capPermitted : a.capPermitted = true

/-- The authority is tagged, unsealed and has the permission of the
operation. -/
def Granted (a : MemAccess) : Prop :=
  a.authority.tag = true ∧ a.authority.isSealed = false ∧ a.permitted = true

instance (a : MemAccess) : Decidable a.Granted := inferInstanceAs (Decidable (_ ∧ _))

/-- **An access whose end wraps**: it runs past the top of the address space,
from inside a capability that does not. -/
def Escapes (a : MemAccess) : Prop :=
  a.Granted ∧ a.authority.EndWraps a.address a.byteWidth

/-- **An access that moves a tagged capability without the permission to**. -/
def MovesTag (a : MemAccess) : Prop :=
  a.Granted ∧ a.authority.InBounds a.address a.byteWidth ∧ a.capPermitted = false

instance (a : MemAccess) : Decidable a.Escapes := inferInstanceAs (Decidable (_ ∧ _))

instance (a : MemAccess) : Decidable a.MovesTag := inferInstanceAs (Decidable (_ ∧ _))

/-- An access raises nothing when its authority grants it and its bytes pass
the check of the bounds. -/
theorem check_eq_none_iff (a : MemAccess) :
    a.check = none ↔ a.Granted ∧ a.authority.InBounds a.address a.byteWidth := by
  unfold Granted
  cases a with
  | dataDdc dir width ddc aluResult =>
    rw [check, CapCheck.check_eq_none_iff (by cases dir <;> decide)]
    simp only [permitted, and_assoc]
  | dataCap dir width cs1 =>
    rw [check, CapCheck.check_eq_none_iff (by cases dir <;> decide)]
    simp only [permitted, and_assoc]
  | capDdc dir tag ddc rs1Data imm =>
    rw [check, CapCheck.check_eq_none_iff (by cases dir <;> decide)]
    simp only [permitted, and_assoc]
  | capCap dir tag cs1 =>
    rw [check, CapCheck.check_eq_none_iff (by cases dir <;> decide)]
    simp only [permitted, and_assoc]
  | fetch pcc pc =>
    rw [check, checkJumpTarget_eq_none_iff]
    simp only [permitted, byteWidth, and_assoc]

/-- **An access that raises nothing is authorised, unless its end wraps or it
moves a tagged capability without the permission to.** -/
theorem authorised_iff_not_escapes (a : MemAccess) :
    (a.check = none → a.Authorised) ↔ ¬ a.Escapes ∧ ¬ a.MovesTag := by
  rw [check_eq_none_iff]
  constructor
  · intro h
    refine ⟨fun hesc => ?_, fun hmove => ?_⟩
    · exact (hesc.2.inBounds.within_iff.mp (h ⟨hesc.1, hesc.2.inBounds⟩).within) hesc.2
    · have hperm := (h ⟨hmove.1, hmove.2.1⟩).capPermitted
      rw [hmove.2.2] at hperm
      exact Bool.false_ne_true hperm
  · rintro ⟨hesc, hmove⟩ ⟨hgrant, hin⟩
    refine ⟨hgrant.1, hgrant.2.1, hgrant.2.2, hin.within_iff.mpr (fun hw => hesc ⟨hgrant, hw⟩), ?_⟩
    by_contra hcap
    exact hmove ⟨hgrant, hin, by simpa using hcap⟩

/-- A word store at the last word of the address space, authorised by the
capability of reset, whose last byte is not one of them; and a tagged
capability stored through a capability that may store no capability. -/
theorem word_store_at_top_escapes :
    let word := dataDdc .store .W Capability.root 0xfffffffc
    let noStoreCap : Capability := { Capability.root with
      perms := { Permissions.allowAll with storeCapability := false } }
    (word.check = none ∧ ¬ word.Authorised)
      ∧ (capCap .store true noStoreCap).check = none
      ∧ ¬ (capCap .store true noStoreCap).Authorised := by
  refine ⟨⟨by decide, fun h => ?_⟩, by decide, fun h => ?_⟩
  · exact absurd h.within (by decide)
  · exact absurd h.capPermitted (by decide)

end MemAccess

end Proteus
