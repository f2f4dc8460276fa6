import CheriTree.Proteus.MemoryTagger

/-!
# Tagged memory

What the tagger keeps between two commands: the words of the memory and one
tag per granule. A capability store writes four words and the tag of the
granule of its first byte, wherever that byte is in the granule; a data store
writes a word and clears the tag of its granule; a load at an address gives
the four words there, with the tag of the granule of the first.

So a store that does not start at a granule leaves words in a granule whose
tag it does not write. The lemmas say what each granule holds after a store at
any address, and what a load at one address gives after a store at another.
-/

namespace Proteus

/-! ## Commands on a tagged memory -/

/-- **The memory behind the tagger**, between commands: the words and the tags
of the granules. -/
structure TaggedMemory where
  tags : ℕ → Bool
  ram : ℕ → Word

namespace TaggedMemory

variable (cfg : MemConfig)

/-- The word at an address; outside the memory a device answers. -/
def readWord (m : TaggedMemory) (device : Word → Word) (address : Word) : Word :=
  if cfg.InMemory address then m.ram (address.toNat / 4) else device address

/-- What a capability load gives. -/
def loadCap (m : TaggedMemory) (device : Word → Word) (address : Word) : Capability :=
  .ofMemWords (m.tags (MemoryTagger.tagIndex cfg address))
    (fun k => m.readWord cfg device (address + BitVec.ofNat 32 (4 * k)))

/-- A tag written, where the address is in memory. -/
def setTag (m : TaggedMemory) (address : Word) (tag : Bool) (g : ℕ) : Bool :=
  if cfg.InMemory address ∧ g = MemoryTagger.tagIndex cfg address then tag else m.tags g

/-- The word command of a capability store. -/
def storeCmd (address : Word) (cap : Capability) (k : ℕ) : MemBusCmd :=
  ⟨address + BitVec.ofNat 32 (4 * k), true, cap.memWord k, 0b1111#4⟩

/-- **What a capability store leaves**: four words, and the tag of the granule
of the first one. -/
def storeCap (m : TaggedMemory) (address : Word) (cap : Capability) : TaggedMemory where
  tags := m.setTag cfg address cap.tag
  ram := (List.range 4).foldl
    (fun ram k => MemBus.writeWord cfg ram (storeCmd address cap k)) m.ram

/-- **What a data store of a word leaves**: the word, and no tag. -/
def storeWord (m : TaggedMemory) (address data : Word) : TaggedMemory where
  tags := m.setTag cfg address false
  ram := MemBus.writeWord cfg m.ram ⟨address, true, data, 0b1111#4⟩

/-- **What a data store of a byte leaves**: the byte in its word, and no tag. -/
def storeByte (m : TaggedMemory) (address : Word) (data : BitVec 8) : TaggedMemory where
  tags := m.setTag cfg address false
  ram := MemBus.writeWord cfg m.ram ⟨address &&& ~~~3, true,
    data.setWidth 32 <<< (8 * (address.toNat % 4)), 1#4 <<< (address.toNat % 4)⟩

/-- The capability a granule holds. -/
def capAt (m : TaggedMemory) (g : ℕ) : Capability :=
  .ofMemWords (m.tags g) (fun k => m.ram (cfg.granuleWord g + k))

end TaggedMemory

/-- The address of a granule. -/
def MemConfig.granuleAddress (cfg : MemConfig) (g : ℕ) : Word :=
  BitVec.ofNat 32 (cfg.memoryStart + g * capBytes)

/-! ## Where a capability store goes -/

/-- Which of the four words of a store at `a`, if any, is the word `j` of
granule `g`: the distance of the two, in words and around the end of the
address space. -/
def MemConfig.storeOffset (cfg : MemConfig) (a : Word) (g j : ℕ) : ℕ :=
  (cfg.granuleWord g + j + 2 ^ 30 - a.toNat / 4) % 2 ^ 30

/-- **A store at `a` reaches into granule `g`.** -/
def MemConfig.Touches (cfg : MemConfig) (a : Word) (g : ℕ) : Prop :=
  ∃ j < 4, cfg.storeOffset a g j < 4

/-- The granule of the address, where it is in memory, gets the tag. -/
def MemConfig.TagsAt (cfg : MemConfig) (a : Word) (g : ℕ) : Prop :=
  cfg.InMemory a ∧ g = cfg.granule a

/-- The store is in one granule, `g`: none of its words is another's. -/
def MemConfig.StoresIn (cfg : MemConfig) (a : Word) (g : ℕ) : Prop :=
  cfg.TagsAt a g ∧ a.toNat % capBytes < 4

instance (cfg : MemConfig) (a : Word) (g : ℕ) : Decidable (cfg.Touches a g) :=
  inferInstanceAs (Decidable (∃ j < 4, _))

instance (cfg : MemConfig) (a : Word) (g : ℕ) : Decidable (cfg.TagsAt a g) :=
  inferInstanceAs (Decidable (_ ∧ _))

instance (cfg : MemConfig) (a : Word) (g : ℕ) : Decidable (cfg.StoresIn a g) :=
  inferInstanceAs (Decidable (_ ∧ _))

namespace TaggedMemory

variable (cfg : MemConfig)

/-- Word `j` of granule `g`, or the word of `cap` that a store at `a` puts
there. -/
def spillWord (m : TaggedMemory) (a : Word) (cap : Capability) (g j : ℕ) : Word :=
  if cfg.storeOffset a g j < 4 then cap.memWord (cfg.storeOffset a g j)
  else m.ram (cfg.granuleWord g + j)

/-- The bytes the capability in granule `g` is about, with the words that a
store at `a` spills over it. -/
def spillRange (m : TaggedMemory) (a : Word) (cap : Capability) (g : ℕ) : ByteRange :=
  ⟨(m.spillWord cfg a cap g 1).toNat, (m.spillWord cfg a cap g 2).toNat⟩

variable {cfg}

/-- The words of a granule are in memory. -/
theorem granuleWord_bounds {g j : ℕ} (hg : g < cfg.numTags) (hj : j < 4) :
    cfg.memoryStart ≤ 4 * (cfg.granuleWord g + j)
      ∧ 4 * (cfg.granuleWord g + j) + 4 ≤ cfg.memoryStart + cfg.numTags * capBytes := by
  have ha := cfg.aligned
  rw [MemConfig.granuleWord]
  rw [capBytes] at *
  omega

/-- One word of a store, read at a word of a granule. -/
theorem writeWord_storeCmd (ram : ℕ → Word) (a : Word) (cap : Capability) {g j k : ℕ}
    (hg : g < cfg.numTags) (hj : j < 4) (hk : k < 4) :
    MemBus.writeWord cfg ram (storeCmd a cap k) (cfg.granuleWord g + j)
      = if cfg.storeOffset a g j = k then cap.memWord k else ram (cfg.granuleWord g + j) := by
  have hb := granuleWord_bounds hg hj
  have hfits := cfg.fits
  have ha := a.isLt
  have haddr : (a + BitVec.ofNat 32 (4 * k)).toNat = (a.toNat + 4 * k) % 2 ^ 32 := by
    rw [BitVec.toNat_add, BitVec.toNat_ofNat, Nat.mod_eq_of_lt (a := 4 * k) (by omega)]
  -- the word is the command's exactly when it is that far from the first one
  have hat : cfg.granuleWord g + j = (a + BitVec.ofNat 32 (4 * k)).toNat / 4
      ↔ cfg.storeOffset a g j = k := by
    rw [haddr, MemConfig.storeOffset]
    omega
  by_cases h : cfg.storeOffset a g j = k
  · have hin : cfg.InMemory (a + BitVec.ofNat 32 (4 * k)) := by
      have := hat.2 h
      rw [MemConfig.InMemory]
      omega
    rw [if_pos h, MemBus.writeWord, if_pos ⟨rfl, hin⟩, hat.2 h]
    show Function.update ram _ _ _ = _
    rw [storeCmd, Function.update_self, maskWrite_all]
  · rw [if_neg h, MemBus.writeWord]
    split
    · exact Function.update_of_ne (fun he => h (hat.1 he)) _ _
    · rfl

/-- **A word of a granule after a capability store.** -/
theorem storeCap_ram (m : TaggedMemory) (a : Word) (cap : Capability) {g j : ℕ}
    (hg : g < cfg.numTags) (hj : j < 4) :
    (m.storeCap cfg a cap).ram (cfg.granuleWord g + j) = m.spillWord cfg a cap g j := by
  show MemBus.writeWord cfg (MemBus.writeWord cfg (MemBus.writeWord cfg (MemBus.writeWord cfg m.ram
    (storeCmd a cap 0)) (storeCmd a cap 1)) (storeCmd a cap 2)) (storeCmd a cap 3) _ = _
  rw [writeWord_storeCmd _ _ _ hg hj (by decide), writeWord_storeCmd _ _ _ hg hj (by decide),
    writeWord_storeCmd _ _ _ hg hj (by decide), writeWord_storeCmd _ _ _ hg hj (by decide),
    spillWord]
  by_cases h : cfg.storeOffset a g j < 4
  · rw [if_pos h]
    generalize cfg.storeOffset a g j = k at h
    match k, h with
    | 0, _ => rfl
    | 1, _ => rfl
    | 2, _ => rfl
    | 3, _ => rfl
  · rw [if_neg h, if_neg (by omega), if_neg (by omega), if_neg (by omega), if_neg (by omega)]

/-- A tag written is the one of the granule. -/
theorem setTag_eq (m : TaggedMemory) (a : Word) (tag : Bool) (g : ℕ) :
    m.setTag cfg a tag g = if cfg.TagsAt a g then tag else m.tags g := by
  unfold setTag
  by_cases hin : cfg.InMemory a
  · rw [MemConfig.tagIndex_eq_granule hin]
    rfl
  · rw [if_neg (fun h => hin h.1), if_neg (fun h => hin h.1)]

/-- The tag of a granule after a capability store. -/
theorem storeCap_tags (m : TaggedMemory) (a : Word) (cap : Capability) (g : ℕ) :
    (m.storeCap cfg a cap).tags g = if cfg.TagsAt a g then cap.tag else m.tags g :=
  m.setTag_eq a cap.tag g

/-- The tag a store writes goes to a granule it reaches into. -/
theorem touches_of_tagsAt {a : Word} {g : ℕ} (h : cfg.TagsAt a g) : cfg.Touches a g := by
  obtain ⟨⟨hlo, hhi⟩, rfl⟩ := h
  have ha := cfg.aligned
  have hfits := cfg.fits
  have hlt := a.isLt
  refine ⟨a.toNat % 16 / 4, by omega, ?_⟩
  rw [MemConfig.storeOffset, MemConfig.granuleWord, MemConfig.granule]
  rw [capBytes] at *
  omega

/-- A granule that a store does not reach is as it was. -/
theorem capAt_storeCap_of_not_touches (m : TaggedMemory) {a : Word} (cap : Capability) {g : ℕ}
    (hg : g < cfg.numTags) (h : ¬ cfg.Touches a g) :
    (m.storeCap cfg a cap).capAt cfg g = m.capAt cfg g := by
  unfold capAt
  rw [storeCap_tags, if_neg (fun ht => h (touches_of_tagsAt ht))]
  refine Capability.ofMemWords_congr (fun j hj => ?_)
  rw [storeCap_ram m a cap hg hj, spillWord, if_neg (fun hlt => h ⟨j, hj, hlt⟩)]

/-- The bytes a granule is about after a store. -/
theorem range_capAt_storeCap (m : TaggedMemory) (a : Word) (cap : Capability) {g : ℕ}
    (hg : g < cfg.numTags) :
    ((m.storeCap cfg a cap).capAt cfg g).range = m.spillRange cfg a cap g := by
  unfold capAt Capability.range Capability.ofMemWords spillRange
  simp only
  rw [storeCap_ram m a cap hg (by decide), storeCap_ram m a cap hg (by decide)]

/-- A load at the address of a granule gives what the granule holds. -/
theorem loadCap_granuleAddress (m : TaggedMemory) (device : Word → Word) {g : ℕ}
    (hg : g < cfg.numTags) :
    m.loadCap cfg device (cfg.granuleAddress g) = m.capAt cfg g := by
  have ha := cfg.aligned
  have hfits := cfg.fits
  have haddr : (cfg.granuleAddress g).toNat = cfg.memoryStart + g * capBytes := by
    rw [MemConfig.granuleAddress, BitVec.toNat_ofNat, Nat.mod_eq_of_lt]
    rw [capBytes] at *
    omega
  have hal : (cfg.granuleAddress g).toNat % capBytes = 0 := by
    rw [haddr, Nat.add_mul_mod_self_right]
    exact ha
  have hin : cfg.InMemory (cfg.granuleAddress g) := by
    rw [MemConfig.InMemory, haddr, capBytes]
    omega
  have hgran : cfg.granule (cfg.granuleAddress g) = g := by
    rw [MemConfig.granule, haddr, capBytes]
    omega
  unfold loadCap capAt
  rw [MemConfig.tagIndex_eq_granule hin, hgran]
  refine Capability.ofMemWords_congr (fun k hk => ?_)
  rw [readWord, if_pos ((MemConfig.inMemory_word_iff hal hk).2 hin),
    MemConfig.toNat_cbusWordAddress hal hk]
  have hword := MemConfig.granuleWord_granule hal hin
  rw [hgran] at hword
  rw [hword]
  congr 1
  omega

/-! ## Loads and stores at any address

The bytes of a capability at an address of the memory that is not too close to
the end of it. -/

/-- All `n` bytes from an address on are in memory. -/
def Holds (cfg : MemConfig) (address : Word) (n : ℕ) : Prop :=
  cfg.memoryStart ≤ address.toNat
    ∧ address.toNat + n ≤ cfg.memoryStart + cfg.numTags * capBytes

theorem Holds.inMemory {a : Word} (h : Holds cfg a 16) : cfg.InMemory a :=
  ⟨h.1, by have := h.2; omega⟩

/-- The words of a capability in memory. -/
theorem Holds.toNat_add {a : Word} (h : Holds cfg a 16) {k : ℕ} (hk : k < 4) :
    (a + BitVec.ofNat 32 (4 * k)).toNat = a.toNat + 4 * k := by
  have hfits := cfg.fits
  have := h.2
  rw [BitVec.toNat_add, BitVec.toNat_ofNat, Nat.mod_eq_of_lt (a := 4 * k) (by omega),
    Nat.mod_eq_of_lt (by omega)]

theorem Holds.inMemory_add {a : Word} (h : Holds cfg a 16) {k : ℕ} (hk : k < 4) :
    cfg.InMemory (a + BitVec.ofNat 32 (4 * k)) := by
  have := h.1
  have := h.2
  rw [MemConfig.InMemory, h.toNat_add hk]
  omega

/-- **What a load in memory gives.** -/
theorem Holds.loadCap_eq {a : Word} (h : Holds cfg a 16) (m : TaggedMemory)
    (device : Word → Word) :
    m.loadCap cfg device a
      = .ofMemWords (m.tags (cfg.granule a)) (fun k => m.ram (a.toNat / 4 + k)) := by
  unfold loadCap
  rw [MemConfig.tagIndex_eq_granule h.inMemory]
  refine Capability.ofMemWords_congr (fun k hk => ?_)
  rw [readWord, if_pos (h.inMemory_add hk), h.toNat_add hk]
  congr 1
  omega

/-- A word of a store in memory. -/
theorem Holds.writeWord_apply {a : Word} (h : Holds cfg a 16) (ram : ℕ → Word)
    (cap : Capability) {k : ℕ} (hk : k < 4) (n : ℕ) :
    MemBus.writeWord cfg ram (storeCmd a cap k) n
      = if n = a.toNat / 4 + k then cap.memWord k else ram n := by
  have haddr : (a + BitVec.ofNat 32 (4 * k)).toNat / 4 = a.toNat / 4 + k := by
    rw [h.toNat_add hk]
    omega
  rw [MemBus.writeWord, if_pos ⟨rfl, h.inMemory_add hk⟩]
  show Function.update ram ((a + BitVec.ofNat 32 (4 * k)).toNat / 4) _ n = _
  rw [haddr, storeCmd, maskWrite_all, Function.update_apply]

/-- The memory after a store in memory. -/
theorem Holds.storeCap_ram {a : Word} (h : Holds cfg a 16) (m : TaggedMemory)
    (cap : Capability) (n : ℕ) :
    (m.storeCap cfg a cap).ram n
      = if a.toNat / 4 ≤ n ∧ n < a.toNat / 4 + 4 then cap.memWord (n - a.toNat / 4)
        else m.ram n := by
  show MemBus.writeWord cfg (MemBus.writeWord cfg (MemBus.writeWord cfg (MemBus.writeWord cfg m.ram
    (storeCmd a cap 0)) (storeCmd a cap 1)) (storeCmd a cap 2)) (storeCmd a cap 3) n = _
  rw [h.writeWord_apply _ _ (by decide), h.writeWord_apply _ _ (by decide),
    h.writeWord_apply _ _ (by decide), h.writeWord_apply _ _ (by decide)]
  by_cases hn : a.toNat / 4 ≤ n ∧ n < a.toNat / 4 + 4
  · obtain ⟨k, rfl⟩ := Nat.exists_eq_add_of_le hn.1
    have hk : k < 4 := by omega
    rw [if_pos hn, Nat.add_sub_cancel_left]
    simp only [Nat.add_left_cancel_iff]
    match k, hk with
    | 0, _ => rfl
    | 1, _ => rfl
    | 2, _ => rfl
    | 3, _ => rfl
  · rw [if_neg hn, if_neg (by omega), if_neg (by omega), if_neg (by omega), if_neg (by omega)]

/-- **A capability is loaded as it was stored.** -/
theorem Holds.loadCap_storeCap_self {a : Word} (h : Holds cfg a 16) (m : TaggedMemory)
    (cap : Capability) (device : Word → Word) :
    (m.storeCap cfg a cap).loadCap cfg device a = cap := by
  rw [h.loadCap_eq, storeCap_tags, if_pos ⟨h.inMemory, rfl⟩]
  conv_rhs => rw [← Capability.ofMemWords_memWord cap]
  refine Capability.ofMemWords_congr (fun k hk => ?_)
  rw [h.storeCap_ram, if_pos ⟨by omega, by omega⟩, Nat.add_sub_cancel_left]

/-- Addresses sixteen bytes apart are in different granules. -/
theorem granule_ne {a b : Word} (ha : cfg.memoryStart ≤ a.toNat) (hb : cfg.memoryStart ≤ b.toNat)
    (h : a.toNat + 16 ≤ b.toNat ∨ b.toNat + 16 ≤ a.toNat) : cfg.granule a ≠ cfg.granule b := by
  rw [MemConfig.granule, MemConfig.granule, capBytes]
  omega

/-- **A store does not change what is loaded sixteen bytes away.** -/
theorem Holds.loadCap_storeCap_of_apart {a b : Word} (ha : Holds cfg a 16) (hb : Holds cfg b 16)
    (h : a.toNat + 16 ≤ b.toNat ∨ b.toNat + 16 ≤ a.toNat) (m : TaggedMemory) (cap : Capability)
    (device : Word → Word) :
    (m.storeCap cfg a cap).loadCap cfg device b = m.loadCap cfg device b := by
  rw [hb.loadCap_eq, hb.loadCap_eq, storeCap_tags,
    if_neg (fun ht => granule_ne ha.1 hb.1 h ht.2.symm)]
  refine Capability.ofMemWords_congr (fun k hk => ?_)
  rw [ha.storeCap_ram, if_neg]
  omega

/-- **A data store outside a capability leaves it, or takes its tag.** -/
theorem Holds.loadCap_storeWord {b x : Word} (hb : Holds cfg b 16)
    (h : x.toNat + 4 ≤ b.toNat ∨ b.toNat + 16 ≤ x.toNat) (m : TaggedMemory) (data : Word)
    (device : Word → Word)
    (htag : ((m.storeWord cfg x data).loadCap cfg device b).tag = true) :
    (m.storeWord cfg x data).loadCap cfg device b = m.loadCap cfg device b := by
  rw [hb.loadCap_eq] at htag ⊢
  have htags : (m.storeWord cfg x data).tags (cfg.granule b) = m.tags (cfg.granule b) := by
    have htag' : m.setTag cfg x false (cfg.granule b) = true := htag
    show m.setTag cfg x false (cfg.granule b) = _
    rw [setTag_eq] at htag' ⊢
    split
    · rename_i ht
      rw [if_pos ht] at htag'
      cases htag'
    · rfl
  rw [hb.loadCap_eq, htags]
  refine Capability.ofMemWords_congr (fun k hk => ?_)
  show MemBus.writeWord cfg m.ram _ _ = _
  unfold MemBus.writeWord
  split
  · exact Function.update_of_ne (by
      show b.toNat / 4 + k ≠ x.toNat / 4
      omega) _ _
  · rfl

/-- **A byte stored behind a granule leaves the capability there.** -/
theorem Holds.loadCap_storeByte {b x : Word} (hb : Holds cfg b 16) (hal : b.toNat % 16 = 0)
    (h : b.toNat + 16 ≤ x.toNat) (m : TaggedMemory) (data : BitVec 8) (device : Word → Word) :
    (m.storeByte cfg x data).loadCap cfg device b = m.loadCap cfg device b := by
  have hstart := cfg.aligned
  have hword : (x &&& ~~~3).toNat / 4 = x.toNat / 4 := by
    rw [BitVec.toNat_and, ← Nat.shiftRight_eq_div_pow _ 2, ← Nat.shiftRight_eq_div_pow _ 2,
      Nat.shiftRight_and_distrib]
    show x.toNat >>> 2 &&& (2 ^ 30 - 1) = x.toNat >>> 2
    rw [Nat.and_two_pow_sub_one_eq_mod, Nat.shiftRight_eq_div_pow]
    exact Nat.mod_eq_of_lt (by have := x.isLt; omega)
  have htags : (m.storeByte cfg x data).tags (cfg.granule b) = m.tags (cfg.granule b) := by
    show m.setTag cfg x false (cfg.granule b) = _
    rw [setTag_eq, if_neg]
    rintro ⟨hin, hg⟩
    have := hb.1
    have := hin.1
    rw [MemConfig.granule, MemConfig.granule, capBytes] at hg
    rw [capBytes] at hstart
    omega
  rw [hb.loadCap_eq, hb.loadCap_eq, htags]
  refine Capability.ofMemWords_congr (fun k hk => ?_)
  show MemBus.writeWord cfg m.ram _ _ = _
  unfold MemBus.writeWord
  split
  · exact Function.update_of_ne (by
      show b.toNat / 4 + k ≠ (x &&& ~~~3).toNat / 4
      rw [hword]
      omega) _ _
  · rfl

end TaggedMemory

end Proteus
