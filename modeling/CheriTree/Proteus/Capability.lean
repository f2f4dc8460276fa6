import Mathlib.Order.BooleanAlgebra.Basic
import Mathlib.Tactic.DeriveFintype
import CheriTree.ByteRange

/-!
# Capabilities of the Proteus core

The core is a 32-bit one, and a capability is held uncompressed: base,
length and offset are words, next to nine permissions and a 12-bit object
type. `top` and `address` are sums of two words and wrap, in `UInt`
arithmetic; every comparison of the core is made on these wrapped sums.

What a capability *means* is the byte range `[base, base + length)` over the
integers, `Capability.range`. Keeping the two apart is the point of the
model: the checks below compute with words, and what they are for is stated
with ranges.
-/

namespace Proteus

/-- A register of the core. -/
abbrev Word := BitVec 32

/-- The number of a general-purpose register. -/
abbrev RegId := BitVec 5

/-- Width of an object type (`Context.otypeLen`). -/
abbrev otypeLen : ℕ := 12

/-- The largest object type that seals (`Context.maxOtype`). -/
def maxOtype : ℕ := (1 <<< otypeLen) - 17

/-- Bytes of a capability in memory (`Context.clen / 8`). -/
def capBytes : ℕ := 16

/-! ## Permissions -/

/-- The nine permissions of a capability. -/
@[ext] structure Permissions where
  execute : Bool
  load : Bool
  store : Bool
  loadCapability : Bool
  storeCapability : Bool
  permitSeal : Bool
  cinvoke : Bool
  permitUnseal : Bool
  accessSystemRegisters : Bool
deriving Repr

-- field by field, so that a comparison of computed values stays cheap
instance : DecidableEq Permissions := fun p q =>
  decidable_of_iff (p.execute = q.execute ∧ p.load = q.load ∧ p.store = q.store
    ∧ p.loadCapability = q.loadCapability ∧ p.storeCapability = q.storeCapability
    ∧ p.permitSeal = q.permitSeal ∧ p.cinvoke = q.cinvoke ∧ p.permitUnseal = q.permitUnseal
    ∧ p.accessSystemRegisters = q.accessSystemRegisters) Permissions.ext_iff.symm

namespace Permissions

/-- The same value for every permission. -/
def setAll (value : Bool) : Permissions :=
  ⟨value, value, value, value, value, value, value, value, value⟩

def allowAll : Permissions := setAll true

def allowNone : Permissions := setAll false

/-- The permissions as the ISA numbers them, bit 0 first; bits 0, 6 and 11
are no permission of the core. -/
def asIsaBits (p : Permissions) : Word :=
  (BitVec.ofBoolListLE [false, p.execute, p.load, p.store, p.loadCapability,
    p.storeCapability, false, p.permitSeal, p.cinvoke, p.permitUnseal,
    p.accessSystemRegisters, false]).setWidth 32

/-- The permissions read back from their ISA numbering. -/
def assignFromIsaBits (bits : Word) : Permissions where
  execute := bits.getLsbD 1
  load := bits.getLsbD 2
  store := bits.getLsbD 3
  loadCapability := bits.getLsbD 4
  storeCapability := bits.getLsbD 5
  permitSeal := bits.getLsbD 7
  cinvoke := bits.getLsbD 8
  permitUnseal := bits.getLsbD 9
  accessSystemRegisters := bits.getLsbD 10

/-- **`p` grants nothing that `q` does not.** -/
def Subset (p q : Permissions) : Prop :=
  p.execute ≤ q.execute ∧ p.load ≤ q.load ∧ p.store ≤ q.store
    ∧ p.loadCapability ≤ q.loadCapability ∧ p.storeCapability ≤ q.storeCapability
    ∧ p.permitSeal ≤ q.permitSeal ∧ p.cinvoke ≤ q.cinvoke ∧ p.permitUnseal ≤ q.permitUnseal
    ∧ p.accessSystemRegisters ≤ q.accessSystemRegisters

instance (p q : Permissions) : Decidable (p.Subset q) :=
  inferInstanceAs (Decidable (_ ∧ _))

theorem Subset.refl (p : Permissions) : p.Subset p :=
  ⟨le_refl _, le_refl _, le_refl _, le_refl _, le_refl _, le_refl _, le_refl _,
    le_refl _, le_refl _⟩

theorem Subset.trans {p q r : Permissions} (h : p.Subset q) (h' : q.Subset r) :
    p.Subset r := by
  obtain ⟨a₁, a₂, a₃, a₄, a₅, a₆, a₇, a₈, a₉⟩ := h
  obtain ⟨b₁, b₂, b₃, b₄, b₅, b₆, b₇, b₈, b₉⟩ := h'
  exact ⟨a₁.trans b₁, a₂.trans b₂, a₃.trans b₃, a₄.trans b₄, a₅.trans b₅,
    a₆.trans b₆, a₇.trans b₇, a₈.trans b₈, a₉.trans b₉⟩

/-- Masking the ISA bits keeps of each permission what the mask lets
through. -/
theorem assignFromIsaBits_and (p : Permissions) (m : Word) :
    assignFromIsaBits (p.asIsaBits &&& m) =
      { execute := p.execute && m.getLsbD 1
        load := p.load && m.getLsbD 2
        store := p.store && m.getLsbD 3
        loadCapability := p.loadCapability && m.getLsbD 4
        storeCapability := p.storeCapability && m.getLsbD 5
        permitSeal := p.permitSeal && m.getLsbD 7
        cinvoke := p.cinvoke && m.getLsbD 8
        permitUnseal := p.permitUnseal && m.getLsbD 9
        accessSystemRegisters := p.accessSystemRegisters && m.getLsbD 10 } := by
  simp only [assignFromIsaBits, asIsaBits, BitVec.getLsbD_and, BitVec.getLsbD_setWidth,
    BitVec.getLsbD_ofBoolListLE]
  rfl

/-- **Masking never adds a permission.** -/
theorem assignFromIsaBits_and_subset (p : Permissions) (m : Word) :
    (assignFromIsaBits (p.asIsaBits &&& m)).Subset p := by
  rw [assignFromIsaBits_and]
  exact ⟨Bool.and_le_left _ _, Bool.and_le_left _ _, Bool.and_le_left _ _,
    Bool.and_le_left _ _, Bool.and_le_left _ _, Bool.and_le_left _ _,
    Bool.and_le_left _ _, Bool.and_le_left _ _, Bool.and_le_left _ _⟩

/-- Masking changes nothing exactly where the mask has every permission that
is there. -/
theorem assignFromIsaBits_and_eq_iff (p : Permissions) (m : Word) :
    assignFromIsaBits (p.asIsaBits &&& m) = p ↔ p.Subset (assignFromIsaBits m) := by
  rw [assignFromIsaBits_and, Permissions.ext_iff]
  simp only [Subset, assignFromIsaBits, ← Bool.inf_eq_band, inf_eq_left]

end Permissions

/-! ## Object types and capabilities -/

/-- An object type of the core. -/
abbrev ObjectType := BitVec otypeLen

/-- An object type seals when it is not above `maxOtype`. -/
def ObjectType.isSealed (o : ObjectType) : Bool := o.toNat ≤ maxOtype

/-- The object type of an unsealed capability: all ones. -/
def ObjectType.unsealed : ObjectType := BitVec.allOnes otypeLen

/-- **A capability of the core**, as a register holds it. -/
@[ext] structure Capability where
  tag : Bool
  base : Word
  length : Word
  offset : Word
  perms : Permissions
  otype : ObjectType
deriving Repr

instance : DecidableEq Capability := fun c d =>
  decidable_of_iff (c.tag = d.tag ∧ c.base = d.base ∧ c.length = d.length
    ∧ c.offset = d.offset ∧ c.perms = d.perms ∧ c.otype = d.otype) Capability.ext_iff.symm

namespace Capability

/-- The end of the capability, as the core computes it. -/
def top (c : Capability) : Word := c.base + c.length

/-- The address the capability points at, as the core computes it. -/
def address (c : Capability) : Word := c.base + c.offset

def isSealed (c : Capability) : Bool := ObjectType.isSealed c.otype

/-- The capability with the object type of an unsealed one. -/
def unsealed (c : Capability) : Capability := { c with otype := .unsealed }

/-- The capability sealed with an object type. -/
def sealWith (c : Capability) (o : ObjectType) : Capability := { c with otype := o }

/-- The capability of reset: everything up to the last byte, all permissions. -/
def root : Capability where
  tag := true
  base := 0
  length := 0xffffffff#32
  offset := 0
  perms := .allowAll
  otype := .unsealed

/-- The capability that grants nothing. -/
def null : Capability where
  tag := false
  base := 0
  length := 0
  offset := 0
  perms := .allowNone
  otype := .unsealed

instance : Inhabited Capability := ⟨null⟩

/-- **The bytes a capability is about**, over the integers. -/
def range (c : Capability) : ByteRange := ⟨c.base.toNat, c.length.toNat⟩

@[simp] theorem range_base (c : Capability) : c.range.base = c.base.toNat := rfl

@[simp] theorem range_length (c : Capability) : c.range.length = c.length.toNat := rfl

@[simp] theorem range_top (c : Capability) :
    c.range.top = c.base.toNat + c.length.toNat := rfl

@[simp] theorem range_sealWith (c : Capability) (o : ObjectType) :
    (c.sealWith o).range = c.range := rfl

@[simp] theorem range_unsealed (c : Capability) : c.unsealed.range = c.range := rfl

@[simp] theorem tag_sealWith (c : Capability) (o : ObjectType) :
    (c.sealWith o).tag = c.tag := rfl

@[simp] theorem tag_unsealed (c : Capability) : c.unsealed.tag = c.tag := rfl

theorem toNat_top (c : Capability) :
    c.top.toNat = (c.base.toNat + c.length.toNat) % 2 ^ 32 :=
  BitVec.toNat_add _ _

theorem toNat_address (c : Capability) :
    c.address.toNat = (c.base.toNat + c.offset.toNat) % 2 ^ 32 :=
  BitVec.toNat_add _ _

theorem isSealed_otype_unsealed : ObjectType.isSealed .unsealed = false := by decide

@[simp] theorem isSealed_unsealed (c : Capability) : c.unsealed.isSealed = false :=
  isSealed_otype_unsealed

/-! ### Bounds checks

Every bounds check of the core is one comparison of wrapped sums and one of
words: the end of the access against `top`, its start against `base`. -/

/-- The check the core makes of the bytes `[a, a + n)`. -/
def InBounds (c : Capability) (a n : Word) : Prop :=
  ¬ a + n > c.top ∧ ¬ a < c.base

instance (c : Capability) (a n : Word) : Decidable (c.InBounds a n) :=
  inferInstanceAs (Decidable (_ ∧ _))

/-- **The end of `[a, a + n)` passes the check by wrapping.** It passes `2^32`
while the end of the capability does not, and what the wrap leaves of it is
small enough for the comparison. -/
def EndWraps (c : Capability) (a n : Word) : Prop :=
  c.base.toNat ≤ a.toNat
    ∧ c.base.toNat + c.length.toNat < 2 ^ 32
    ∧ 2 ^ 32 ≤ a.toNat + n.toNat
    ∧ a.toNat + n.toNat ≤ c.base.toNat + c.length.toNat + 2 ^ 32

instance (c : Capability) (a n : Word) : Decidable (c.EndWraps a n) :=
  inferInstanceAs (Decidable (_ ∧ _))

theorem inBounds_iff {c : Capability} {a n : Word} :
    c.InBounds a n ↔ c.base.toNat ≤ a.toNat
      ∧ (a.toNat + n.toNat) % 2 ^ 32 ≤ (c.base.toNat + c.length.toNat) % 2 ^ 32 := by
  unfold InBounds
  rw [gt_iff_lt, BitVec.lt_def, BitVec.lt_def, toNat_top, BitVec.toNat_add]
  omega

/-- An end that wraps passes the check. -/
theorem EndWraps.inBounds {c : Capability} {a n : Word} (h : c.EndWraps a n) :
    c.InBounds a n := by
  obtain ⟨hbase, hc, hn, hle⟩ := h
  have ha := a.isLt
  have hn' := n.isLt
  rw [inBounds_iff]
  refine ⟨hbase, ?_⟩
  rw [Nat.mod_eq_of_lt hc, Nat.mod_eq_sub_mod hn, Nat.mod_eq_of_lt (by omega)]
  omega

/-- **What passes the check is inside the range, unless its end wraps.** -/
theorem InBounds.within_iff {c : Capability} {a n : Word} (h : c.InBounds a n) :
    (ByteRange.mk a.toNat n.toNat).Within c.range ↔ ¬ c.EndWraps a n := by
  rw [inBounds_iff, add_mod_le_iff a.isLt n.isLt c.base.isLt c.length.isLt] at h
  have ha := a.isLt
  rw [ByteRange.within_iff]
  simp only [range_base, range_length, ByteRange.top, EndWraps]
  omega

/-- **`c` is within the rights of `d`**: `d` is tagged, and `c` grants no
permission and covers no byte that `d` does not. -/
def WithinRights (c d : Capability) : Prop :=
  d.tag = true ∧ c.perms.Subset d.perms ∧ c.range.Within d.range

instance (c d : Capability) : Decidable (c.WithinRights d) :=
  inferInstanceAs (Decidable (_ ∧ _ ∧ _))

theorem WithinRights.refl {c : Capability} (h : c.tag = true) : c.WithinRights c :=
  ⟨h, .refl _, .refl _⟩

theorem WithinRights.trans {c d e : Capability} (h : c.WithinRights d)
    (h' : d.WithinRights e) : c.WithinRights e :=
  ⟨h'.1, h.2.1.trans h'.2.1, h.2.2.trans h'.2.2⟩

/-- Only the permissions and the range of a capability decide its rights. -/
theorem WithinRights.congr {c c' d : Capability} (h : c.WithinRights d)
    (hp : c'.perms = c.perms) (hr : c'.range = c.range) : c'.WithinRights d :=
  ⟨h.1, hp ▸ h.2.1, hr ▸ h.2.2⟩

end Capability

/-! ## Capabilities in memory

In memory a capability is four words: its address, its base, its length, and
a word of permissions and object type. The offset is not stored but read back
from the address. -/

/-- The permissions as memory holds them. -/
def Permissions.asMemBits (p : Permissions) : BitVec 15 :=
  BitVec.ofBoolListLE [false, p.execute, p.load, p.store, p.loadCapability,
    p.storeCapability, false, p.permitSeal, p.cinvoke, p.permitUnseal,
    p.accessSystemRegisters, false, false, false, false]

/-- The permissions read back from memory. -/
def Permissions.ofMemBits (bits : BitVec 15) : Permissions where
  execute := bits.getLsbD 1
  load := bits.getLsbD 2
  store := bits.getLsbD 3
  loadCapability := bits.getLsbD 4
  storeCapability := bits.getLsbD 5
  permitSeal := bits.getLsbD 7
  cinvoke := bits.getLsbD 8
  permitUnseal := bits.getLsbD 9
  accessSystemRegisters := bits.getLsbD 10

theorem Permissions.ofMemBits_asMemBits (p : Permissions) : ofMemBits p.asMemBits = p := by
  simp only [ofMemBits, asMemBits, BitVec.getLsbD_ofBoolListLE]
  rfl

namespace Capability

/-- The fourth word of a capability in memory. -/
def memMeta (c : Capability) : Word := 0#4 ++ c.otype ++ c.perms.asMemBits ++ 0#1

/-- **A capability in memory** (`MemCapability`), word by word. -/
def memWord (c : Capability) : ℕ → Word
  | 0 => c.address
  | 1 => c.base
  | 2 => c.length
  | _ => c.memMeta

/-- The capability four words and a tag make up. -/
def ofMemWords (tag : Bool) (word : ℕ → Word) : Capability where
  tag := tag
  base := word 1
  length := word 2
  offset := word 0 - word 1
  perms := .ofMemBits ((word 3).extractLsb' 1 15)
  otype := (word 3).extractLsb' 16 otypeLen

theorem ofMemWords_congr {tag : Bool} {word word' : ℕ → Word} (h : ∀ k < 4, word k = word' k) :
    ofMemWords tag word = ofMemWords tag word' := by
  simp only [ofMemWords, h 0 (by decide), h 1 (by decide), h 2 (by decide), h 3 (by decide)]

/-- **A capability comes back from memory as it went there.** -/
theorem ofMemWords_memWord (c : Capability) : ofMemWords c.tag c.memWord = c := by
  have hperms : c.memMeta.extractLsb' 1 15 = c.perms.asMemBits := by
    rw [memMeta]
    ext i hi
    simp [BitVec.getElem_extractLsb', BitVec.getLsbD_append, hi]
  have hotype : c.memMeta.extractLsb' 16 otypeLen = c.otype := by
    rw [memMeta]
    ext i hi
    simp only [BitVec.getElem_extractLsb', BitVec.getLsbD_append]
    rw [if_neg (by omega), if_neg (by omega), if_pos (by simpa [otypeLen] using hi)]
    simp [Nat.add_comm, hi]
  ext1
  · rfl
  · rfl
  · rfl
  · show c.base + c.offset - c.base = c.offset
    rw [BitVec.add_comm, BitVec.add_sub_cancel]
  · show Permissions.ofMemBits (c.memMeta.extractLsb' 1 15) = c.perms
    rw [hperms, Permissions.ofMemBits_asMemBits]
  · exact hotype

end Capability

/-! ## Exceptions -/

/-- The capability exceptions of the core. -/
inductive ExceptionCause where
  | lengthViolation
  | tagViolation
  | sealViolation
  | typeViolation
  | callTrap
  | returnTrap
  | trustedSystemStackOverflow
  | softwareDefinedPermissionViolation
  | mmuProhibitsStoreCapability
  | boundsCannotBeRepresentedExactly
  | globalViolation
  | permitExecuteViolation
  | permitLoadViolation
  | permitStoreViolation
  | permitLoadCapabilityViolation
  | permitStoreCapabilityViolation
  | permitStoreLocalCapabilityViolation
  | permitSealViolation
  | accessSystemRegistersViolation
  | permitCInvokeViolation
  | accessCInvokeIdcViolation
  | permitUnsealViolation
  | permitSetCidViolation
deriving DecidableEq, Repr

/-- The index of the capability register an exception is about: a
general-purpose one, or a special one with the top bit set. -/
abbrev CapIdx := BitVec 6

def CapIdx.gpcr (cr : RegId) : CapIdx := cr.setWidth 6

def CapIdx.scr (scr : RegId) : CapIdx := 1#1 ++ scr

/-- An exception, with the register it is about. -/
structure CapException where
  cause : ExceptionCause
  capIdx : CapIdx
deriving DecidableEq, Repr

/-- **The causes of a trap**, with what each one leaves in `mtval`. A
capability exception is one of them, with its own cause and register. -/
inductive TrapCause where
  | instructionAddressMisaligned (address : Word)
  | illegalInstruction (ir : Word)
  | breakpoint
  | loadAddressMisaligned (address : Word)
  | storeAddressMisaligned (address : Word)
  | cheriException (e : CapException)
  | environmentCallFromMMode
  | machineTimerInterrupt
  | machineExternalInterrupt
deriving DecidableEq, Repr

/-! ## Special capability registers -/

namespace ScrIndex

def PCC : RegId := 0

def DDC : RegId := 1

def MTCC : RegId := 28

def MTDC : RegId := 29

def MScratchC : RegId := 30

def MEPCC : RegId := 31

end ScrIndex

end Proteus
