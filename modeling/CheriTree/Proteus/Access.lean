import CheriTree.Raising
import CheriTree.Proteus.Capability

/-!
# Reading and modifying capabilities

The `Access` plugin reads the fields of a capability (`CGet*`) and derives one
capability from another (the `CMODIFY` group). A derivation starts from a copy
of its source and changes some fields; only a few of the derivations check
anything. `Modification` is what the plugin's switch distinguishes, and
`ModifyOp` is the nine opcodes that lead there, each with its own right-hand
side: a register, or an immediate that `CSetBoundsImm` alone reads unsigned.

The one derivation that sets bounds compares two sums of words. Read over the
integers, the comparison is unsound exactly where the new top passes `2^32`
and the old one does not: `setBounds_withinRights_iff`.
-/

namespace Proteus

/-! ## Reading a field -/

/-- The fields a `CGet*` instruction selects. -/
inductive FieldSelect where
  | perm
  | type
  | base
  | len
  | tag
  | sealedBit
  | offset
  | addr
deriving DecidableEq, Repr

/-- The object type as software reads it: all ones when nothing is sealed. -/
def ObjectType.extendedValue (o : ObjectType) : Word :=
  if ObjectType.isSealed o then o.setWidth 32 else BitVec.allOnes 32

/-- **The value a `CGet*` instruction reads.** -/
def Capability.get (cap : Capability) : FieldSelect → Word
  | .perm => cap.perms.asIsaBits
  | .type => ObjectType.extendedValue cap.otype
  | .base => cap.base
  | .len => cap.length
  | .tag => (BitVec.ofBool cap.tag).setWidth 32
  | .sealedBit => (BitVec.ofBool (cap.tag && cap.isSealed)).setWidth 32
  | .offset => cap.offset
  | .addr => cap.base + cap.offset

/-! ## Deriving a capability -/

/-- The modifications of the `CMODIFY` group. -/
inductive Modification where
  | andPerm
  | setOffset
  | setAddr
  | incOffset
  | setBounds
  | clearTag
deriving DecidableEq, Repr

/-- The opcodes of the `CMODIFY` group. -/
inductive ModifyOp where
  | CAndPerm
  | CSetOffset
  | CSetAddr
  | CIncOffset
  | CIncOffsetImm
  | CSetBounds
  | CSetBoundsExact
  | CSetBoundsImm
  | CClearTag
deriving DecidableEq, Repr

namespace ModifyOp

/-- The modification an opcode decodes to (`CMODIFICATION`). -/
def modification : ModifyOp → Modification
  | CAndPerm => .andPerm
  | CSetOffset => .setOffset
  | CSetAddr => .setAddr
  | CIncOffset => .incOffset
  | CIncOffsetImm => .incOffset
  | CSetBounds => .setBounds
  | CSetBoundsExact => .setBounds
  | CSetBoundsImm => .setBounds
  | CClearTag => .clearTag

/-- Whether the instruction carries an immediate (`IMM_USED`). -/
def immUsed : ModifyOp → Bool
  | CIncOffsetImm => true
  | CSetBoundsImm => true
  | _ => false

/-- Whether the immediate is read unsigned (`IMM_IS_UNSIGNED`). -/
def immIsUnsigned : ModifyOp → Bool
  | CSetBoundsImm => true
  | _ => false

/-- **The right-hand side of a modification**: the immediate, sign-extended
unless the opcode reads it unsigned, or the second register. -/
def rhs (op : ModifyOp) (imm : BitVec 12) (rs2Data : Word) : Word :=
  if op.immUsed then
    if op.immIsUnsigned then imm.setWidth 32 else imm.signExtend 32
  else
    rs2Data

end ModifyOp

/-- **A modification of the `CMODIFY` group**: the derived capability, or the
exception raised for the source register. -/
def Modification.apply (m : Modification) (cs : Capability) (rhs : Word) :
    Except ExceptionCause Capability :=
  match m with
  | .andPerm =>
    if !cs.tag then
      .error .tagViolation
    else
      .ok { cs with perms := .assignFromIsaBits (cs.perms.asIsaBits &&& rhs) }
  | .setOffset => .ok { cs with offset := rhs }
  | .setAddr =>
    if cs.tag && cs.isSealed then
      .error .sealViolation
    else if rhs < cs.base then
      .ok { cs with base := rhs, offset := 0, tag := false }
    else
      .ok { cs with
        offset := rhs - cs.base
        tag := cs.tag && decide (rhs - cs.base < cs.length) }
  | .incOffset => .ok { cs with offset := cs.offset + rhs }
  | .setBounds =>
    if !cs.tag then
      .error .tagViolation
    else if cs.address < cs.base then
      .error .lengthViolation
    else if cs.address + rhs > cs.top then
      .error .lengthViolation
    else
      .ok { cs with base := cs.address, length := rhs, offset := 0 }
  | .clearTag => .ok { cs with tag := false }

/-! ## What a derivation keeps -/

/-- What `SET_BOUNDS` gives where it gives anything, and what it checked. -/
theorem setBounds_ok {cs cd : Capability} {rhs : Word}
    (h : Modification.setBounds.apply cs rhs = .ok cd) :
    cs.tag = true ∧ cs.InBounds cs.address rhs
      ∧ cd = { cs with base := cs.address, length := rhs, offset := 0 } := by
  simp only [Modification.apply] at h
  split at h
  · exact absurd h (by simp)
  · rename_i htag
    split at h
    · exact absurd h (by simp)
    · rename_i hbase
      split at h
      · exact absurd h (by simp)
      · rename_i htop
        exact ⟨by simpa using htag, ⟨htop, hbase⟩, (Except.ok.inj h).symm⟩

/-- `SET_BOUNDS` gives the new bounds where its checks pass. -/
theorem setBounds_of_inBounds {cs : Capability} {rhs : Word} (htag : cs.tag = true)
    (h : cs.InBounds cs.address rhs) :
    Modification.setBounds.apply cs rhs
      = .ok { cs with base := cs.address, length := rhs, offset := 0 } := by
  simp only [Modification.apply, htag, h.1, h.2, Bool.not_true, Bool.false_eq_true,
    if_false]

/-- `SET_ADDR` keeps the tag of an unsealed capability inside its bounds. -/
theorem setAddr_of_lt {cs : Capability} {rhs : Word} (htag : cs.tag = true)
    (hunsealed : cs.isSealed = false) (hbase : ¬ rhs < cs.base)
    (hlt : rhs - cs.base < cs.length) :
    Modification.setAddr.apply cs rhs = .ok { cs with offset := rhs - cs.base } := by
  simp only [Modification.apply, htag, hunsealed, hbase, decide_eq_true hlt, Bool.and_false,
    Bool.false_eq_true, Bool.and_self, if_false]

/-- **`SET_BOUNDS` stays within its source, unless the new top wraps.** -/
theorem setBounds_withinRights_iff {cs cd : Capability} {rhs : Word}
    (h : Modification.setBounds.apply cs rhs = .ok cd) :
    cd.WithinRights cs ↔ ¬ cs.EndWraps cs.address rhs := by
  obtain ⟨htag, hin, rfl⟩ := setBounds_ok h
  rw [← hin.within_iff]
  exact ⟨fun hw => hw.2.2, fun hw => ⟨htag, .refl _, hw⟩⟩

/-- **Every other derivation keeps the tag, the permissions and the range of
its source, or gives some of them up.** -/
theorem Modification.withinRights_of_ne_setBounds {m : Modification}
    {cs cd : Capability} {rhs : Word} (hm : m ≠ .setBounds)
    (h : m.apply cs rhs = .ok cd) (ht : cd.tag = true) : cd.WithinRights cs := by
  cases m with
  | andPerm =>
    simp only [Modification.apply] at h
    split at h
    · exact absurd h (by simp)
    · rename_i htag
      obtain rfl := Except.ok.inj h
      exact ⟨by simpa using htag, Permissions.assignFromIsaBits_and_subset _ _, .refl _⟩
  | setOffset =>
    obtain rfl := Except.ok.inj h
    exact ⟨ht, .refl _, .refl _⟩
  | setAddr =>
    simp only [Modification.apply] at h
    split at h
    · exact absurd h (by simp)
    · split at h
      · obtain rfl := Except.ok.inj h
        exact absurd ht (by simp)
      · obtain rfl := Except.ok.inj h
        rw [Bool.and_eq_true] at ht
        exact ⟨ht.1, .refl _, .refl _⟩
  | incOffset =>
    obtain rfl := Except.ok.inj h
    exact ⟨ht, .refl _, .refl _⟩
  | setBounds => exact absurd rfl hm
  | clearTag =>
    obtain rfl := Except.ok.inj h
    exact absurd ht (by simp)

/-- A derivation keeps the object type, and gives no tag that was not
there. -/
theorem Modification.otype_of_ok {m : Modification} {cs cd : Capability} {rhs : Word}
    (h : m.apply cs rhs = .ok cd) :
    cd.otype = cs.otype ∧ (cd.tag = true → cs.tag = true) := by
  by_cases hm : m = .setBounds
  · subst hm
    obtain ⟨htag, -, rfl⟩ := setBounds_ok h
    exact ⟨rfl, fun _ => htag⟩
  · refine ⟨?_, fun ht => (Modification.withinRights_of_ne_setBounds hm h ht).1⟩
    cases m with
    | andPerm =>
      obtain ⟨-, h⟩ := ite_error_eq_ok.1 h
      rw [← Except.ok.inj h]
    | setOffset => rw [← Except.ok.inj h]
    | setAddr =>
      obtain ⟨-, h⟩ := ite_error_eq_ok.1 h
      split at h
      · rw [← Except.ok.inj h]
      · rw [← Except.ok.inj h]
    | incOffset => rw [← Except.ok.inj h]
    | setBounds => exact absurd rfl hm
    | clearTag => rw [← Except.ok.inj h]

end Proteus
