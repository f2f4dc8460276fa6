import CheriTree.Proteus.MemoryTagger

/-!
# The memory format of a capability

A register holds an offset, memory holds an address: `MemCapability` is the
bundle that stands between the two. Its bits, the first field lowest, are the
`value` the bus carries – the address, the base, the length, and a last word
in which one bit of padding comes before the permissions and four after the
object type; the permissions are a field of fifteen bits with padding of its
own, at the places where the ISA has no permission of the core.

The tagger cuts `value` into four words (`cbusWords`) and puts four words
together again (`assignValue`), the last one on top. Nothing about the two
directions is shared but the order of the fields, so what has to be seen is
that every field is found where it was put: `cbusWords_eq_memWord` and
`cbusRead_toReg` say so, and are the reason the rest of the development may
speak of `Capability.memWord` and `Capability.ofMemWords` only.
-/

namespace Proteus

/-! ## The bundles -/

/-- The fields of a capability, next to its tag. -/
@[ext] structure PackedCapabilityFields where
  base : Word
  length : Word
  offset : Word
  perms : Permissions
  otype : ObjectType

/-- **A capability as memory holds it.** -/
@[ext] structure MemCapability where
  cursor : Word
  base : Word
  length : Word
  perms : Permissions
  otype : ObjectType
  tag : Bool

namespace MemCapability

/-- The offset is not a field: it is read off the cursor. -/
def offset (m : MemCapability) : Word := m.cursor - m.base

/-- The bits of the bundle but for the tag, `cursor` lowest. -/
def value (m : MemCapability) : BitVec 128 :=
  0#4 ++ m.otype ++ m.perms.asMemBits ++ 0#1 ++ m.length ++ m.base ++ m.cursor

/-- The fields read back from the bits; what comes in the padding is in no
field. -/
def assignValue (m : MemCapability) (value : BitVec 128) : MemCapability where
  cursor := value.extractLsb' 0 32
  base := value.extractLsb' 32 32
  length := value.extractLsb' 64 32
  perms := .ofMemBits (value.extractLsb' 97 15)
  otype := value.extractLsb' 112 otypeLen
  tag := m.tag

/-- The word a store is at, by the tagger's counter. -/
def cbusWords (m : MemCapability) (cbusWordCtr : ℕ) : Word :=
  m.value.extractLsb' (32 * cbusWordCtr) 32

/-- **What the tagger answers a load with**: the word just read on top of the
three it has kept, and the tag of the granule. -/
def cbusRead (m : MemCapability) (tag : Bool) (rdata : Word) (cbusReadWords : ℕ → Word) :
    MemCapability :=
  { m.assignValue (rdata ++ (cbusReadWords 2 ++ cbusReadWords 1 ++ cbusReadWords 0)) with
    tag := tag }

/-- The capability of a register assigned from one of memory. -/
def toReg (m : MemCapability) : Capability where
  tag := m.tag
  base := m.base
  length := m.length
  offset := m.offset
  perms := m.perms
  otype := m.otype

end MemCapability

namespace Capability

/-- The fields of a capability without its tag. -/
def packedFields (c : Capability) : PackedCapabilityFields :=
  ⟨c.base, c.length, c.offset, c.perms, c.otype⟩

/-- The capability of memory assigned from one of a register. -/
def toMem (c : Capability) : MemCapability where
  cursor := c.address
  base := c.base
  length := c.length
  perms := c.perms
  otype := c.otype
  tag := c.tag

end Capability

/-! ## Words and fields -/

namespace MemCapability

/-- **The words the tagger stores** are those of `Capability.memWord`. -/
theorem cbusWords_eq_memWord (c : Capability) {k : ℕ} (hk : k < 4) :
    c.toMem.cbusWords k = c.memWord k := by
  unfold cbusWords value
  match k, hk with
  | 0, _ =>
    show BitVec.extractLsb' 0 32 _ = c.address
    rw [BitVec.extractLsb'_append_eq_right]
    rfl
  | 1, _ =>
    show BitVec.extractLsb' 32 32 _ = c.base
    rw [BitVec.extractLsb'_append_eq_of_le (le_refl 32), BitVec.extractLsb'_append_eq_right]
    rfl
  | 2, _ =>
    show BitVec.extractLsb' 64 32 _ = c.length
    rw [BitVec.extractLsb'_append_eq_of_le (by decide),
      BitVec.extractLsb'_append_eq_of_le (le_refl 32), BitVec.extractLsb'_append_eq_right]
    rfl
  | 3, _ =>
    -- below the last word are three of 32 bits each
    show BitVec.extractLsb' 96 32 _ = c.memMeta
    rw [BitVec.extractLsb'_append_eq_of_le (by decide),
      BitVec.extractLsb'_append_eq_of_le (by decide),
      BitVec.extractLsb'_append_eq_of_le (le_refl 32)]
    exact BitVec.extractLsb'_eq_self

/-- **What the tagger answers a load with** is the capability the model of
the tagger answers with. -/
theorem toReg_cbusRead (m : MemCapability) (tag : Bool) (word : ℕ → Word) :
    (m.cbusRead tag (word 3) word).toReg = .ofMemWords tag word := by
  have h₀ : (word 3 ++ (word 2 ++ word 1 ++ word 0)).extractLsb' 0 32 = word 0 := by
    rw [BitVec.extractLsb'_append_eq_of_add_le (by decide), BitVec.extractLsb'_append_eq_right]
  have h₁ : (word 3 ++ (word 2 ++ word 1 ++ word 0)).extractLsb' 32 32 = word 1 := by
    rw [BitVec.extractLsb'_append_eq_of_add_le (by decide),
      BitVec.extractLsb'_append_eq_of_le (le_refl 32), BitVec.extractLsb'_append_eq_right]
  have h₂ : (word 3 ++ (word 2 ++ word 1 ++ word 0)).extractLsb' 64 32 = word 2 := by
    rw [BitVec.extractLsb'_append_eq_of_add_le (by decide),
      BitVec.extractLsb'_append_eq_of_le (by decide), BitVec.extractLsb'_append_eq_left]
  -- the fields of the last word start after its bit of padding
  have h₃ : ∀ s n, (word 3 ++ (word 2 ++ word 1 ++ word 0)).extractLsb' (96 + s) n
      = (word 3).extractLsb' s n := fun s n => by
    rw [BitVec.extractLsb'_append_eq_of_le (Nat.le_add_right 96 s), Nat.add_sub_cancel_left]
  unfold cbusRead toReg offset assignValue Capability.ofMemWords
  rw [h₀, h₁, h₂, ← h₃ 1 15, ← h₃ 16 otypeLen]

end MemCapability

namespace Capability

/-- The words of memory tell the fields of a capability apart, and nothing
more: the tag is not in them. -/
theorem memWord_eq_iff {c d : Capability} :
    (∀ k < 4, c.memWord k = d.memWord k) ↔ c.packedFields = d.packedFields := by
  constructor
  · intro h
    calc c.packedFields = (ofMemWords c.tag c.memWord).packedFields := by
          rw [ofMemWords_memWord]
      _ = (ofMemWords d.tag c.memWord).packedFields := rfl
      _ = (ofMemWords d.tag d.memWord).packedFields := by rw [ofMemWords_congr h]
      _ = d.packedFields := by rw [ofMemWords_memWord]
  · intro h k _
    obtain ⟨t, b, l, o, p, y⟩ := c
    obtain ⟨t', b', l', o', p', y'⟩ := d
    cases h
    match k with
    | 0 | 1 | 2 | _ + 3 => rfl

end Capability

/-! ## Permissions

The nine permissions are at the same places of the field of memory and of a
register read by `CGetPerm`; above and between them both have zeros. -/

namespace Permissions

theorem asIsaBits_eq_setWidth (p : Permissions) : p.asIsaBits = p.asMemBits.setWidth 32 := by
  obtain ⟨e, l, s, lc, sc, se, ci, un, sr⟩ := p
  revert e l s lc sc se ci un sr
  decide +kernel

/-- Whatever the fifteen bits are, those that are read are read at the places
of the ISA. -/
theorem ofMemBits_eq_assignFromIsaBits (bits : BitVec 15) :
    ofMemBits bits = assignFromIsaBits (bits.setWidth 32) := by
  unfold ofMemBits assignFromIsaBits
  simp only [BitVec.getLsbD_setWidth]
  rfl

end Permissions

namespace MemCapability

/-- **The memory format keeps a capability.** What the tagger puts together
of the words it stored is the capability that was stored, in every field;
the words tell the fields apart; and the permissions are at the places the
ISA gives them, written and read. -/
theorem format_faithful :
    (∀ (c : Capability) (m : MemCapability),
      (m.cbusRead c.toMem.tag (c.toMem.cbusWords 3) c.toMem.cbusWords).toReg = c)
      ∧ (∀ c d : Capability, c.packedFields ≠ d.packedFields →
        ∃ k < 4, c.toMem.cbusWords k ≠ d.toMem.cbusWords k)
      ∧ (∀ p : Permissions, p.asIsaBits = p.asMemBits.setWidth 32)
      ∧ ∀ bits : BitVec 15,
        Permissions.ofMemBits bits = .assignFromIsaBits (bits.setWidth 32) := by
  refine ⟨fun c m => ?_, fun c d hne => ?_, Permissions.asIsaBits_eq_setWidth,
    Permissions.ofMemBits_eq_assignFromIsaBits⟩
  · rw [toReg_cbusRead, Capability.ofMemWords_congr (fun k hk => cbusWords_eq_memWord c hk)]
    exact Capability.ofMemWords_memWord c
  · by_contra hsame
    refine hne (Capability.memWord_eq_iff.1 fun k hk => ?_)
    rw [← cbusWords_eq_memWord c hk, ← cbusWords_eq_memWord d hk]
    by_contra hk'
    exact hsame ⟨k, hk, hk'⟩

end MemCapability

end Proteus
