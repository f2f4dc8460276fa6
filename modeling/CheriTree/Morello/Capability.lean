import CheriTree.ByteRange
import Mathlib.Data.BitVec

/-!
# Capabilities of the Morello port

What the hypervisor reads and makes of a capability through the intrinsics of
`cheriintrin.h`, and its memory. A capability is its tag, its bounds, its
address and the permissions that matter here. How it is packed into sixteen
bytes is not in the sources, so memory keeps the bytes of a granule and the
capability that they are side by side, and the packing is a parameter.

An intrinsic never traps: what cannot be done gives a capability without its
tag. A memory access does, and the vector of the hypervisor's own faults is a
branch to itself, so an access that traps is a call that does not return. That
is the `none` of the functions below.
-/

namespace Morello

/-- A word of the machine: an address, or a `size_t`. -/
abbrev Word := BitVec 64

abbrev Byte := BitVec 8

/-- Bytes of a capability, `CAP_LEN`. -/
def CAP_LEN : ℕ := 16

/-- The permissions that are read or tested. -/
structure Permissions where
  load : Bool
  store : Bool
  loadCap : Bool
  storeCap : Bool
  storeLocalCap : Bool
  permitSeal : Bool
  permitUnseal : Bool
  isGlobal : Bool
deriving DecidableEq, Repr

/-- **A capability.** Where it is tagged, its bounds are in the address
space. -/
structure Capability where
  tag : Bool
  base : Word
  length : ℕ
  address : Word
  perms : Permissions
  otype : BitVec 15
  fits : tag = true → base.toNat + length ≤ 2 ^ 64
deriving DecidableEq

namespace Capability

/-- The bytes between the bounds. -/
def range (c : Capability) : ByteRange := ⟨c.base.toNat, c.length⟩

def isSealed (c : Capability) : Bool := decide (c.otype ≠ 0)

/-- `n` bytes from an address on are between the bounds. -/
def InBounds (c : Capability) (a : Word) (n : ℕ) : Prop :=
  c.base.toNat ≤ a.toNat ∧ a.toNat + n ≤ c.base.toNat + c.length

instance (c : Capability) (a : Word) (n : ℕ) : Decidable (c.InBounds a n) :=
  inferInstanceAs (Decidable (_ ∧ _))

/-- The capability without its tag. -/
def clearTag (c : Capability) : Capability where
  tag := false
  base := c.base
  length := c.length
  address := c.address
  perms := c.perms
  otype := c.otype
  fits := fun h => absurd h Bool.false_ne_true

/-- The capability with its tag where a condition holds. -/
def tagIf (c : Capability) (p : Bool) : Capability := if p then c else c.clearTag

@[simp] theorem tagIf_tag (c : Capability) (p : Bool) : (c.tagIf p).tag = (p && c.tag) := by
  unfold tagIf
  cases p
  · rfl
  · rfl

@[simp] theorem tagIf_base (c : Capability) (p : Bool) : (c.tagIf p).base = c.base := by
  unfold tagIf
  cases p
  · rfl
  · rfl

@[simp] theorem tagIf_length (c : Capability) (p : Bool) : (c.tagIf p).length = c.length := by
  unfold tagIf
  cases p
  · rfl
  · rfl

theorem tagIf_range (c : Capability) (p : Bool) : (c.tagIf p).range = c.range := by
  rw [range, range, tagIf_base, tagIf_length]

end Capability

/-! ## The intrinsics -/

/-- The object types are those of fifteen bits. -/
def maxOtype : ℕ := 2 ^ 15 - 1

/-- `cheri_length_get`: a length of `2 ^ 64` is read as one less. -/
def cheriLengthGet (c : Capability) : Word := BitVec.ofNat 64 (min c.length (2 ^ 64 - 1))

/-- `cheri_offset_get`. -/
def cheriOffsetGet (c : Capability) : Word := c.address - c.base

/-- `cheri_type_get`. -/
def cheriTypeGet (c : Capability) : Word := c.otype.setWidth 64

/-- `cheri_address_set`. -/
def cheriAddressSet (c : Capability) (a : Word) : Capability :=
  { c with address := a }.tagIf (!c.isSealed)

/-- `cheri_bounds_set_exact`, for lengths that are exact at every address. -/
def cheriBoundsSetExact (c : Capability) (n : ℕ) : Capability where
  tag := c.tag && !c.isSealed && decide (c.InBounds c.address n)
  base := c.address
  length := n
  address := c.address
  perms := c.perms
  otype := c.otype
  fits := by
    intro h
    simp only [Bool.and_eq_true, decide_eq_true_eq] at h
    exact le_trans h.2.2 (c.fits h.1.1)

/-- `cheri_perms_and`, with the permissions to seal and to unseal. -/
def cheriPermsAndSeals (c : Capability) : Capability :=
  { c with
    perms := ⟨false, false, false, false, false, c.perms.permitSeal, c.perms.permitUnseal, false⟩ }

/-- `cheri_seal`. -/
def cheriSeal (c s : Capability) : Capability :=
  { c with otype := s.address.setWidth 15 }.tagIf
    (s.tag && !c.isSealed && !s.isSealed && s.perms.permitSeal && decide (s.InBounds s.address 1)
      && decide (s.address.toNat ≤ maxOtype))

/-- `cheri_unseal`. -/
def cheriUnseal (c s : Capability) : Capability :=
  { c with
    otype := 0
    perms := { c.perms with isGlobal := c.perms.isGlobal && s.perms.isGlobal } }.tagIf
    (s.tag && c.isSealed && !s.isSealed && s.perms.permitUnseal && decide (s.InBounds s.address 1)
      && decide (s.address = cheriTypeGet c))

theorem range_cheriUnseal (c s : Capability) : (cheriUnseal c s).range = c.range :=
  Capability.tagIf_range _ _

/-! ## Memory -/

/-- **Memory**: its bytes, and the capability that each granule holds, with its
tag. -/
structure Memory where
  byte : ℕ → Byte
  cap : ℕ → Capability

/-- How a capability is packed into sixteen bytes. -/
abbrev CapFormat := Capability → Fin 16 → Byte

namespace Memory

variable (m : Memory)

/-- The bytes of a range. -/
def bytesOf (r : ByteRange) : List Byte :=
  (List.range r.length).map (fun i => m.byte (r.base + i))

/-- A byte is written, and the tag of its granule goes. -/
def writeByte (a : ℕ) (b : Byte) : Memory where
  byte := Function.update m.byte a b
  cap := Function.update m.cap (a / CAP_LEN) (m.cap (a / CAP_LEN)).clearTag

/-- A capability is written to a granule. -/
def writeCap (fmt : CapFormat) (g : ℕ) (c : Capability) : Memory where
  byte := fun a => if h : a / CAP_LEN = g then
      fmt c ⟨a - CAP_LEN * g, by rw [CAP_LEN] at h ⊢; omega⟩
    else m.byte a
  cap := Function.update m.cap g c

/-- A byte loaded through a capability. -/
def loadByte (c : Capability) (a : Word) : Option Byte :=
  if c.tag = true ∧ c.isSealed = false ∧ c.perms.load = true ∧ c.InBounds a 1 then
    some (m.byte a.toNat)
  else none

/-- A capability loaded through a capability. Without the permission to load
capabilities it comes without its tag. -/
def loadCap (c : Capability) (a : Word) : Option Capability :=
  if c.tag = true ∧ c.isSealed = false ∧ c.perms.load = true ∧ c.InBounds a CAP_LEN
      ∧ a.toNat % CAP_LEN = 0 then
    some ((m.cap (a.toNat / CAP_LEN)).tagIf c.perms.loadCap)
  else none

/-- A byte stored through a capability. -/
def storeByte (c : Capability) (a : Word) (b : Byte) : Option Memory :=
  if c.tag = true ∧ c.isSealed = false ∧ c.perms.store = true ∧ c.InBounds a 1 then
    some (m.writeByte a.toNat b)
  else none

/-- A capability stored through a capability. A tagged one asks for the
permission to store capabilities, and one that is not global for that to store
local ones. -/
def storeCap (fmt : CapFormat) (c : Capability) (a : Word) (v : Capability) : Option Memory :=
  if c.tag = true ∧ c.isSealed = false ∧ c.perms.store = true ∧ c.InBounds a CAP_LEN
      ∧ a.toNat % CAP_LEN = 0 ∧ (v.tag = true → c.perms.storeCap = true)
      ∧ (v.tag = true → v.perms.isGlobal = false → c.perms.storeLocalCap = true) then
    some (m.writeCap fmt (a.toNat / CAP_LEN) v)
  else none

/-- **What was stored is loaded.** -/
theorem cap_writeCap_self (fmt : CapFormat) (g : ℕ) (c : Capability) :
    (m.writeCap fmt g c).cap g = c := Function.update_self _ _ _

/-- The other granules are as they were. -/
theorem cap_writeCap_of_ne (fmt : CapFormat) {g g' : ℕ} (h : g' ≠ g) (c : Capability) :
    (m.writeCap fmt g c).cap g' = m.cap g' := Function.update_of_ne h _ _

end Memory

end Morello
