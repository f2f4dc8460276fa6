import CheriTree.Proteus.ReturnIntegrity
import CheriTree.Proteus.TrapHandler

/-!
# The layout of the data section

What an enclave keeps in its data section is laid out in four files: the seal
and the trap data in `trusted_traps.h`, the three capabilities behind them in
`enclave_entry.S`, the data of an enclave in its own file, and the stack, which
has no offset of its own, where `enclave_init` puts it.

All but the stack are one behind the other and apart (`Slot.top_le_base`).
`enclave_init` leaves the trap data out when it looks for the end of what is
static: it does so twice, once for the least length it admits and once for the
bottom of the stack. So a section with room for what is static has the stack
over it, and a section whose stack is apart has no room. The words of the
registers are no multiple of a granule in all, so that what is behind them is
not aligned either.
-/

namespace Proteus

/-! ## The offsets -/

def DATA_OFFSET_SEAL : ℕ := 0 * CAP_LEN

/-- The data of an enclave: its size, `ENCLAVE_DATA_SIZE`, and the parts that
are used of it. -/
structure DataArea where
  size : ℕ
  parts : List ByteRange

/-- The data of the user enclave: what it keeps of the sensor, the argument
buffer, and the buffer of an id. -/
def userData : DataArea where
  size := ENCLAVE_DATA_SIZE
  parts := [⟨DATA_OFFSET_SENSOR_CODE, CAP_LEN⟩, ⟨DATA_OFFSET_SENSOR_DATA, CAP_LEN⟩,
    ⟨DATA_OFFSET_SENSOR_ENC, CAP_LEN⟩, ⟨DATA_OFFSET_SENSOR_SIGN, CAP_LEN⟩,
    ⟨DATA_OFFSET_ARGS, ARGS_LEN⟩, ⟨DATA_OFFSET_BUF, 32⟩]

/-- The data of the sensor enclave: the value it returns. -/
def sensorData : DataArea where
  size := CAP_LEN
  parts := [⟨0 * CAP_LEN, CAP_LEN⟩]

/-- **What is static in a data section.** -/
inductive Slot where
  | seal
  | epcc
  | trapCap (k : Fin 31)
  | trapReg (k : Fin 31)
  | codeCap
  | dataCap
  | csp
  | enclaveData
deriving DecidableEq, Repr

/-- A slot that holds a capability. -/
def Slot.IsCap : Slot → Prop
  | .trapReg _ => False
  | .enclaveData => False
  | _ => True

namespace DataArea

variable (d : DataArea)

/-- Where a slot is, from the base of the section. -/
def slot : Slot → ByteRange
  | .seal => ⟨DATA_OFFSET_SEAL, CAP_LEN⟩
  | .epcc => ⟨TRAP_DATA_OFFSET_EPCC, CAP_LEN⟩
  | .trapCap k => ⟨TRAP_DATA_OFFSET_CAPS + k * CAP_LEN, CAP_LEN⟩
  | .trapReg k => ⟨TRAP_DATA_OFFSET_REGS + k * WORD_SIZE, WORD_SIZE⟩
  | .codeCap => ⟨DATA_OFFSET_CODE_CAP, CAP_LEN⟩
  | .dataCap => ⟨DATA_OFFSET_DATA_CAP, CAP_LEN⟩
  | .csp => ⟨DATA_OFFSET_CSP, CAP_LEN⟩
  | .enclaveData => ⟨DATA_OFFSET_ENCLAVE, d.size⟩

/-- What `enclave_init` takes for the size of what is static. -/
def staticLen : Word := BitVec.ofNat 32 (4 * CAP_LEN + d.size)

/-- **A length `enclave_init` admits.** -/
def Admits (len : Word) : Prop := len.slt d.staticLen = false

/-- The stack: what is between the bounds `enclave_init` gives `csp`. -/
def stack (len : Word) : ByteRange := ⟨d.staticLen.toNat, (len - d.staticLen).toNat⟩

/-! ## What the layout is for -/

/-- Nothing is used twice: neither of two slots, nor of a slot and the stack,
nor of two parts of the data, which are in the data. -/
structure NotShared (len : Word) : Prop where
  slots : ∀ r s, r ≠ s → Disjoint (d.slot r).bytes (d.slot s).bytes
  stack : ∀ r, Disjoint (d.slot r).bytes (d.stack len).bytes
  parts : d.parts.Pairwise fun p q => Disjoint p.bytes q.bytes
  area : ∀ p ∈ d.parts, p.Within ⟨0, d.size⟩

/-- Everything is in the section. -/
structure InSection (len : Word) : Prop where
  slots : ∀ r, (d.slot r).Within ⟨0, len.toNat⟩
  stack : (d.stack len).Within ⟨0, len.toNat⟩

/-- Every slot of a capability is a granule, in a section that starts at one. -/
def Aligned : Prop := ∀ r : Slot, r.IsCap → (d.slot r).base % CAP_LEN = 0

/-- **The layout is sound.** -/
structure LayoutSound (len : Word) : Prop where
  notShared : d.NotShared len
  inSection : d.InSection len
  aligned : d.Aligned

end DataArea

/-! ## What is static is apart -/

/-- The slots in their order. -/
def Slot.rank : Slot → ℕ
  | .seal => 0
  | .epcc => 1
  | .trapCap k => 2 + k
  | .trapReg k => 33 + k
  | .codeCap => 64
  | .dataCap => 65
  | .csp => 66
  | .enclaveData => 67

theorem Slot.rank_injective {r s : Slot} (h : r.rank = s.rank) : r = s := by
  cases r <;> cases s <;> simp only [Slot.rank] at h <;> first
    | rfl
    | exact congrArg _ (Fin.ext (by omega))
    | omega

namespace DataArea

variable {d : DataArea} {len : Word}

/-- **One slot behind the other.** -/
theorem top_le_base {r s : Slot} (h : r.rank < s.rank) : (d.slot r).top ≤ (d.slot s).base := by
  cases r <;> cases s <;>
    simp only [Slot.rank, slot, ByteRange.top, DATA_OFFSET_SEAL, TRAP_DATA_OFFSET_EPCC,
      TRAP_DATA_OFFSET_CAPS, TRAP_DATA_OFFSET_REGS, DATA_OFFSET_CODE_CAP, DATA_OFFSET_DATA_CAP,
      DATA_OFFSET_CSP, DATA_OFFSET_ENCLAVE, TRAP_DATA_LEN, CAP_LEN, WORD_SIZE] at h ⊢ <;>
    omega

/-- **What is static is apart.** -/
theorem disjoint_slots {r s : Slot} (h : r ≠ s) :
    Disjoint (d.slot r).bytes (d.slot s).bytes := by
  rw [ByteRange.disjoint_bytes_iff]
  rcases Nat.lt_or_gt_of_ne (mt Slot.rank_injective h) with hlt | hlt
  · exact Or.inl (top_le_base hlt)
  · exact Or.inr (Or.inl (top_le_base hlt))

/-- What is shared is the stack's, or inside the data of the enclave. -/
theorem notShared_iff :
    d.NotShared len ↔ (∀ r, Disjoint (d.slot r).bytes (d.stack len).bytes)
      ∧ (d.parts.Pairwise fun p q => Disjoint p.bytes q.bytes)
      ∧ ∀ p ∈ d.parts, p.Within ⟨0, d.size⟩ :=
  ⟨fun h => ⟨h.stack, h.parts, h.area⟩, fun h => ⟨fun _ _ => disjoint_slots, h.1, h.2.1, h.2.2⟩⟩

/-! ## The stack is over it -/

/-- In a section with room for the data, its end and the bottom of the stack
are what they should be. -/
theorem stack_eq (h : DATA_OFFSET_ENCLAVE + d.size ≤ len.toNat) :
    d.stack len = ⟨4 * CAP_LEN + d.size, len.toNat - (4 * CAP_LEN + d.size)⟩ := by
  have hlen := len.isLt
  have hle : 4 * CAP_LEN ≤ DATA_OFFSET_ENCLAVE := by decide
  have hstatic : d.staticLen.toNat = 4 * CAP_LEN + d.size := by
    rw [staticLen, BitVec.toNat_ofNat, Nat.mod_eq_of_lt (by omega)]
  rw [stack, BitVec.toNat_sub_of_le (BitVec.le_def.2 (by rw [hstatic]; omega)), hstatic]

/-- A section that reaches to the end of the data has everything in it. -/
theorem inSection_of_le (h : DATA_OFFSET_ENCLAVE + d.size ≤ len.toNat) : d.InSection len where
  slots r := by
    have htop : (d.slot r).top ≤ DATA_OFFSET_ENCLAVE + d.size := by
      by_cases hr : r = .enclaveData
      · rw [hr]
        exact le_refl _
      · have hrank : r.rank < Slot.enclaveData.rank := by
          cases r <;> simp only [Slot.rank, not_true] at hr ⊢ <;> omega
        exact le_trans (top_le_base (d := d) hrank) (Nat.le_add_right _ _)
    rw [ByteRange.within_iff]
    refine Or.inr ⟨Nat.zero_le _, ?_⟩
    show (d.slot r).top ≤ 0 + len.toNat
    omega
  stack := by
    have hle : 4 * CAP_LEN ≤ DATA_OFFSET_ENCLAVE := by decide
    rw [ByteRange.within_iff, stack_eq h]
    refine Or.inr ⟨Nat.zero_le _, ?_⟩
    simp only [ByteRange.top]
    omega

/-- **A section with room for what is static has the stack over it**: over the
data of the enclave or, where it has none, over the saved stack pointer. -/
theorem exists_not_disjoint_stack (h : d.InSection len) :
    ∃ r, ¬ Disjoint (d.slot r).bytes (d.stack len).bytes := by
  have hcsp := h.slots .csp
  have hdata := h.slots .enclaveData
  rw [ByteRange.within_iff] at hcsp hdata
  simp only [slot, ByteRange.top, CAP_LEN] at hcsp hdata
  have hoff : DATA_OFFSET_ENCLAVE = DATA_OFFSET_CSP + 16 := rfl
  have hcspOff : DATA_OFFSET_CSP = 700 := rfl
  have hstack := @stack_eq d len (by omega)
  rcases Nat.eq_zero_or_pos d.size with hzero | hpos
  · refine ⟨.csp, ?_⟩
    rw [hstack, ByteRange.disjoint_bytes_iff]
    simp only [slot, ByteRange.top, CAP_LEN]
    omega
  · refine ⟨.enclaveData, ?_⟩
    rw [hstack, ByteRange.disjoint_bytes_iff]
    simp only [slot, ByteRange.top, CAP_LEN]
    omega

/-- **What is behind the trap data is not aligned.** -/
theorem not_aligned : ¬ d.Aligned := by
  intro h
  have hmod : DATA_OFFSET_CODE_CAP % CAP_LEN = 0 := h .codeCap trivial
  exact absurd hmod (by decide)

/-- The argument buffer of the user enclave is over the buffer of the id, and
past the end of the data. -/
theorem userData_parts_shared :
    ¬ (userData.parts.Pairwise fun p q => Disjoint p.bytes q.bytes)
      ∧ ¬ ∀ p ∈ userData.parts, p.Within ⟨0, userData.size⟩ := by
  constructor
  · intro h
    have hdisj := List.pairwise_iff_getElem.1 h 4 5 (by decide) (by decide) (by decide)
    rw [ByteRange.disjoint_bytes_iff] at hdisj
    exact absurd hdisj (by decide)
  · intro h
    have hin := h ⟨DATA_OFFSET_ARGS, ARGS_LEN⟩ (by decide)
    exact absurd hin (by decide)

/-- The push of the `k`-th capability on an empty stack. -/
def push (len : Word) (k : ℕ) : ByteRange := ⟨len.toNat - k * CAP_LEN, CAP_LEN⟩

/-- **Pushes within the bounds of the stack reach the code capability**, where
the data is not larger than the trap data. -/
theorem exists_push_meets_codeCap (h : DATA_OFFSET_ENCLAVE + d.size ≤ len.toNat)
    (hsize : 4 * CAP_LEN + d.size ≤ DATA_OFFSET_CODE_CAP) :
    ∃ k, (push len k).Within (d.stack len) ∧ (push len k).Meets (d.slot .codeCap) := by
  have hcode : DATA_OFFSET_CODE_CAP = 668 := rfl
  have hdata : DATA_OFFSET_ENCLAVE = 716 := rfl
  refine ⟨(len.toNat - DATA_OFFSET_CODE_CAP) / CAP_LEN, ?_, ?_⟩
  · rw [ByteRange.within_iff, stack_eq h]
    simp only [push, ByteRange.top, CAP_LEN] at hsize ⊢
    omega
  · rw [ByteRange.meets_iff]
    simp only [push, slot, ByteRange.top, CAP_LEN] at hsize ⊢
    omega

/-- A length that is admitted is not below what is taken to be static. -/
theorem Admits.le (h : d.Admits len) (hsize : 4 * CAP_LEN + d.size < 2 ^ 31) :
    4 * CAP_LEN + d.size ≤ len.toNat := by
  have hstatic : d.staticLen.toNat = 4 * CAP_LEN + d.size := by
    rw [staticLen, BitVec.toNat_ofNat, Nat.mod_eq_of_lt (by omega)]
  have hlt : ¬ len.toInt < d.staticLen.toInt := by
    rw [← BitVec.slt_iff_toInt_lt, Bool.not_eq_true]
    exact h
  rw [BitVec.toInt_eq_toNat_cond, BitVec.toInt_eq_toNat_cond, hstatic] at hlt
  split at hlt <;> split at hlt <;> omega

end DataArea

/-! ## The user enclave -/

namespace UserEnclave

variable {w : ℕ} (x : UserEnclave) {i : EntryInput w}

/-- A length that is not admitted ends the initialisation. -/
theorem enclaveInit_of_not_admits (h : ¬ userData.Admits x.c31.length) (ct0 : Capability) :
    x.enclaveInit i ct0 = enclaveExit i.ca0 i.ca1 i.cra :=
  if_pos (Bool.not_eq_false _ ▸ h)

/-- **The stack pointer of `enclave_init` has the bounds of the stack.** -/
theorem range_stackCap (h : userData.Admits x.c31.length) (sp : ℕ) :
    (x.stackCap sp).range = ⟨x.c31.base.toNat + (userData.stack x.c31.length).base,
      (userData.stack x.c31.length).length⟩ := by
  have hle : STATIC_LEN ≤ x.len := h.le (by decide)
  exact ByteRange.ext (toNat_addr hle) rfl

end UserEnclave

/-! ## No length will do -/

/-- **The layout is sound for no enclave and no length**: what is behind the
trap data is not aligned, and what is in the section is shared. -/
theorem dataLayout_never_sound (d : DataArea) (len : Word) :
    ¬ d.LayoutSound len ∧ ¬ d.Aligned ∧ ¬ (d.NotShared len ∧ d.InSection len) := by
  have hshared : ¬ (d.NotShared len ∧ d.InSection len) := by
    rintro ⟨hnot, hin⟩
    obtain ⟨r, hmeets⟩ := DataArea.exists_not_disjoint_stack hin
    exact hmeets (hnot.stack r)
  exact ⟨fun h => hshared ⟨h.notShared, h.inSection⟩, DataArea.not_aligned, hshared⟩

/-- **A section of a page is admitted, and has everything in it**, for both
enclaves, and is not sound. -/
theorem page_not_sound :
    (userData.Admits 0x1000 ∧ userData.InSection 0x1000 ∧ ¬ userData.LayoutSound 0x1000)
      ∧ sensorData.Admits 0x1000 ∧ sensorData.InSection 0x1000
        ∧ ¬ sensorData.LayoutSound 0x1000 :=
  ⟨⟨rfl, DataArea.inSection_of_le (by decide), fun h => DataArea.not_aligned h.aligned⟩,
    rfl, DataArea.inSection_of_le (by decide), fun h => DataArea.not_aligned h.aligned⟩

end Proteus
