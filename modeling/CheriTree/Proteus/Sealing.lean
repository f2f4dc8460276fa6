import CheriTree.Raising
import CheriTree.Proteus.CapCheck

/-!
# Sealing, unsealing and invocation

`CSeal` and `CUnseal` work under an authority whose address is the object
type; `CInvoke` unseals a code and a data capability of one object type and
jumps. Each is a chain of checks in a fixed order, and each check names the
register it is about.

A jump to a capability (`PccManager.jump`) takes the target's offset with its
last bit cleared as the new program counter. It is refused for an offset that
is not a multiple of four, and then for a target the capability does not let
execute.
-/

namespace Proteus

/-- A word with its last bit cleared. -/
def clearLsb (w : Word) : Word := w &&& 0xfffffffe#32

/-- The exception of a general-purpose register. -/
abbrev except {α : Type} (cause : ExceptionCause) (r : RegId) : Except TrapCause α :=
  .error (.cheriException ⟨cause, CapIdx.gpcr r⟩)

/-- **`CSeal`**: `cs1` sealed with the object type `cs2` points at. -/
def cSeal (cs1 cs2 : Capability) (rs1 rs2 : RegId) : Except TrapCause Capability :=
  if !cs1.tag then except .tagViolation rs1
  else if !cs2.tag then except .tagViolation rs2
  else if cs1.isSealed then except .sealViolation rs1
  else if cs2.isSealed then except .sealViolation rs2
  else if !cs2.perms.permitSeal then except .permitSealViolation rs2
  else if cs2.address < cs2.base then except .lengthViolation rs2
  else if cs2.address ≥ cs2.top then except .lengthViolation rs2
  else if cs2.address.toNat > maxOtype then except .lengthViolation rs2
  else .ok (cs1.sealWith (cs2.address.setWidth otypeLen))

/-- **`CUnseal`**: `cs1` unsealed, under an authority that points at its object
type. -/
def cUnseal (cs1 cs2 : Capability) (rs1 rs2 : RegId) : Except TrapCause Capability :=
  if !cs1.tag then except .tagViolation rs1
  else if !cs2.tag then except .tagViolation rs2
  else if !cs1.isSealed then except .sealViolation rs1
  else if cs2.isSealed then except .sealViolation rs2
  else if cs2.address ≠ cs1.otype.setWidth 32 then except .typeViolation rs2
  else if !cs2.perms.permitUnseal then except .permitUnsealViolation rs2
  else if cs2.address < cs2.base then except .lengthViolation rs2
  else if cs2.address ≥ cs2.top then except .lengthViolation rs2
  else .ok cs1.unsealed

/-- **A jump to a capability**: the program counter capability it installs,
with the program counter as its offset. -/
def jumpToCap (pcc : Capability) (capIdx : CapIdx) : Except TrapCause Capability :=
  if clearLsb pcc.offset &&& 3 ≠ 0 then
    .error (.instructionAddressMisaligned (clearLsb pcc.offset))
  else
    match checkJumpTarget pcc (pcc.base + clearLsb pcc.offset) with
    | some cause => .error (.cheriException ⟨cause, capIdx⟩)
    | none => .ok { pcc with offset := clearLsb pcc.offset }

/-- **`CInvoke`**: the program counter capability and the data capability it
installs. -/
def cInvoke (cs1 cs2 : Capability) (rs1 rs2 : RegId) :
    Except TrapCause (Capability × Capability) :=
  if !cs1.tag then except .tagViolation rs1
  else if !cs2.tag then except .tagViolation rs2
  else if !cs1.isSealed then except .sealViolation rs1
  else if !cs2.isSealed then except .sealViolation rs2
  else if cs1.otype ≠ cs2.otype then except .typeViolation rs1
  else if !cs1.perms.cinvoke then except .permitCInvokeViolation rs1
  else if !cs2.perms.cinvoke then except .permitCInvokeViolation rs2
  else if !cs1.perms.execute then except .permitExecuteViolation rs1
  else if cs2.perms.execute then except .permitExecuteViolation rs2
  else if clearLsb cs1.address < cs1.base then except .lengthViolation rs1
  else if clearLsb cs1.address ≥ cs1.top then except .lengthViolation rs1
  else do
    let pcc ← jumpToCap cs1.unsealed (CapIdx.gpcr rs1)
    return (pcc, cs2.unsealed)

/-! ## What each one gives -/

/-- **What `CSeal` checks and gives.** -/
theorem cSeal_ok {cs1 cs2 cd : Capability} {rs1 rs2 : RegId}
    (h : cSeal cs1 cs2 rs1 rs2 = .ok cd) :
    cs1.tag = true ∧ cs1.isSealed = false ∧ cs2.address.toNat ≤ maxOtype
      ∧ cd = cs1.sealWith (cs2.address.setWidth otypeLen) := by
  simp only [cSeal, ite_error_eq_ok] at h
  obtain ⟨htag, -, hseal, -, -, -, -, hotype, h⟩ := h
  exact ⟨by simpa using htag, by simpa using hseal, Nat.le_of_not_lt hotype,
    (Except.ok.inj h).symm⟩

/-- **What `CUnseal` checks and gives.** -/
theorem cUnseal_ok {cs1 cs2 cd : Capability} {rs1 rs2 : RegId}
    (h : cUnseal cs1 cs2 rs1 rs2 = .ok cd) :
    cs1.tag = true ∧ cs1.isSealed = true ∧ cd = cs1.unsealed := by
  simp only [cUnseal, ite_error_eq_ok] at h
  obtain ⟨htag, -, hseal, -, -, -, -, -, h⟩ := h
  exact ⟨by simpa using htag, by simpa using hseal, (Except.ok.inj h).symm⟩

/-- `CUnseal` unseals under an authority that points at the object type. -/
theorem cUnseal_of_authority {cs1 cs2 : Capability} (rs1 rs2 : RegId) (htag : cs1.tag = true)
    (hsealed : cs1.isSealed = true) (htag' : cs2.tag = true) (hunsealed : cs2.isSealed = false)
    (haddr : cs2.address = cs1.otype.setWidth 32) (hperm : cs2.perms.permitUnseal = true)
    (hbase : ¬ cs2.address < cs2.base) (htop : ¬ cs2.address ≥ cs2.top) :
    cUnseal cs1 cs2 rs1 rs2 = .ok cs1.unsealed := by
  unfold cUnseal
  rw [if_neg (by simp [htag]), if_neg (by simp [htag']), if_neg (by simp [hsealed]),
    if_neg (by simp [hunsealed]), if_neg (not_not.2 haddr), if_neg (by simp [hperm]),
    if_neg hbase, if_neg htop]

/-- A jump to a capability changes only the offset, and only its last bit. -/
theorem jumpToCap_ok {pcc target : Capability} {capIdx : CapIdx}
    (h : jumpToCap pcc capIdx = .ok target) :
    target = { pcc with offset := clearLsb pcc.offset } := by
  unfold jumpToCap at h
  split at h
  · cases h
  · split at h
    · cases h
    · exact (Except.ok.inj h).symm

/-- **What `CInvoke` checks and gives**: its code capability unsealed, at its
own offset with the last bit cleared, and its data capability unsealed. -/
theorem cInvoke_ok {cs1 cs2 pcc cd : Capability} {rs1 rs2 : RegId}
    (h : cInvoke cs1 cs2 rs1 rs2 = .ok (pcc, cd)) :
    cs1.tag = true ∧ cs2.tag = true ∧ cs1.isSealed = true ∧ cs2.isSealed = true
      ∧ pcc = { cs1.unsealed with offset := clearLsb cs1.offset }
      ∧ cd = cs2.unsealed := by
  simp only [cInvoke, ite_error_eq_ok] at h
  obtain ⟨htag, htag', hseal, hseal', -, -, -, -, -, -, -, h⟩ := h
  obtain ⟨target, hj, h⟩ := bind_eq_ok.1 h
  obtain ⟨rfl, rfl⟩ := Prod.mk.inj (Except.ok.inj h)
  exact ⟨by simpa using htag, by simpa using htag', by simpa using hseal,
    by simpa using hseal', jumpToCap_ok hj, rfl⟩

end Proteus
