import CheriTree.Proteus.ExclusiveOwnership

/-!
# The enclave finds its key

`EInitData` stores the seals of the enclave at the *base* of its data section
and seals the data capability at whatever offset it had; `EInitCode` did the
same with the code capability. `CInvoke` unseals both and starts at the code
capability's *address*, and the first instruction of the entry code loads
through the data capability's *address*.

The hardware and the entry code so agree on where the seals are, and on where
the code starts, only for capabilities that point at the start of what they
are about. No instruction sees to that. `KeyInReach` is what it takes.
-/

namespace Proteus

/-! ## The key of an enclave -/

namespace EnclaveId

variable {w : ℕ}

/-- **The key of an enclave**: to seal and to unseal, and nothing else, with
the first two object types of its id. -/
def ownKey (e : EnclaveId w) : Capability where
  tag := true
  base := BitVec.ofNat 32 (4 * e.id.toNat)
  length := 2
  offset := 0
  perms := { Permissions.allowNone with permitSeal := true, permitUnseal := true }
  otype := .unsealed

/-- The seals `EInitData` stores are the key of the enclave. -/
theorem signEncSeal_eq_ownKey (hw : w + 2 ≤ otypeLen) (e : EnclaveId w) :
    e.signEncSeal = e.ownKey := by
  unfold signEncSeal createSeal ownKey
  congr 1
  apply BitVec.eq_of_toNat_eq
  rw [BitVec.toNat_setWidth, toNat_otype hw, BitVec.toNat_ofNat]

/-- The identity seal names its id. -/
theorem assignFromOtype_identSeal_id (hw : w + 2 ≤ otypeLen) (e : EnclaveId w) :
    (assignFromOtype e.identSeal : EnclaveId w).id = e.id := by
  have hquarter : e.identSeal.toNat / 4 = e.id.toNat := by
    rw [toNat_identSeal hw]
    omega
  apply BitVec.eq_of_toNat_eq
  rw [toNat_assignFromOtype (by rw [hquarter]; exact e.id.isLt), hquarter]

/-- The number of a key: a multiple of four, of twelve bits. -/
theorem ownKey_base_lt (hw : w + 2 ≤ otypeLen) (e : EnclaveId w) :
    e.ownKey.base.toNat < 2 ^ otypeLen ∧ e.ownKey.base.toNat % 4 = 0 := by
  have hid := toNat_id_lt hw e
  show (BitVec.ofNat 32 (4 * e.id.toNat)).toNat < 2 ^ otypeLen
    ∧ (BitVec.ofNat 32 (4 * e.id.toNat)).toNat % 4 = 0
  rw [BitVec.toNat_ofNat]
  simp only [otypeLen] at hid ⊢
  omega

end EnclaveId

/-! ## A key stored at one address and loaded at another -/

namespace TaggedMemory

variable {w : ℕ} {cfg : MemConfig} {m : TaggedMemory}

/-- **The words a key is loaded from**: its number twice, the number two, and
a word with the object type of an unsealed capability. -/
structure KeyWords (e : EnclaveId w) (word : ℕ → Word) : Prop where
  address : word 0 = e.ownKey.base
  base : word 1 = e.ownKey.base
  length : word 2 = 2
  otype : (word 3).extractLsb' 16 otypeLen = BitVec.allOnes otypeLen

theorem keyWords_of_loadCap {e : EnclaveId w} {device : Word → Word} {a : Word}
    (h : m.loadCap cfg device a = e.ownKey) :
    KeyWords e (fun k => m.readWord cfg device (a + BitVec.ofNat 32 (4 * k))) := by
  have hbase := congrArg Capability.base h
  have hoffset := congrArg Capability.offset h
  refine ⟨?_, hbase, congrArg Capability.length h, congrArg Capability.otype h⟩
  -- the offset is zero, so that the address is the base
  rw [← hbase, ← BitVec.zero_add (m.loadCap cfg device a).base]
  exact BitVec.sub_eq_iff_eq_add.1 hoffset

/-- A key in memory is made of such words. -/
theorem keyWords_memWord (e : EnclaveId w) : KeyWords e e.ownKey.memWord where
  address := BitVec.add_zero _
  base := rfl
  length := rfl
  otype := by
    have h := congrArg Capability.otype (Capability.ofMemWords_memWord e.ownKey)
    exact h

/-- No word of a key is another one of it, but for the first two. -/
theorem KeyWords.shift_lt {e : EnclaveId w} (hw : w + 2 ≤ otypeLen) {word word' : ℕ → Word}
    (h : KeyWords e word) (h' : KeyWords e word') {j : ℕ} (hj : 1 ≤ j) (hj' : j < 4) :
    ¬ ∀ k, k + j < 4 → word k = word' (k + j) := by
  have hb := e.ownKey_base_lt hw
  intro heq
  have h0 : e.ownKey.base = word' j := by
    rw [← h.address, heq 0 (by omega), Nat.zero_add]
  match j, hj, hj' with
  | 1, _, _ =>
    have h1 : e.ownKey.base = 2 := by rw [← h.base, heq 1 (by decide), h'.length]
    rw [h1] at hb
    exact absurd hb.2 (by decide)
  | 2, _, _ =>
    rw [h'.length] at h0
    rw [h0] at hb
    exact absurd hb.2 (by decide)
  | 3, _, _ =>
    have h3 := h'.otype
    rw [← h0] at h3
    have hbit := congrArg (fun b => b.getLsbD 0) h3
    simp only [BitVec.getLsbD_extractLsb', BitVec.getLsbD_allOnes] at hbit
    have hlt : e.ownKey.base.toNat < 2 ^ (16 + 0) :=
      lt_of_lt_of_le hb.1 (by decide)
    rw [BitVec.getLsbD, Nat.testBit_lt_two_pow hlt] at hbit
    exact absurd hbit (by decide)

/-- **A key that every device answers for is in memory**, all four words of
it. -/
theorem inMemory_of_loadCap {e : EnclaveId w} (hw : w + 2 ≤ otypeLen) {a : Word}
    (h : ∀ device, m.loadCap cfg device a = e.ownKey) {k : ℕ} (hk : k < 4) :
    cfg.InMemory (a + BitVec.ofNat 32 (4 * k)) := by
  by_contra hout
  have hb := e.ownKey_base_lt hw
  have hwords := keyWords_of_loadCap (h (fun _ => 1))
  have hone : m.readWord cfg (fun _ => 1) (a + BitVec.ofNat 32 (4 * k)) = 1 := if_neg hout
  match k, hk with
  | 0, _ =>
    have h1 : e.ownKey.base = 1 := hwords.address.symm.trans hone
    rw [h1] at hb
    exact absurd hb.2 (by decide)
  | 1, _ =>
    have h1 : e.ownKey.base = 1 := hwords.base.symm.trans hone
    rw [h1] at hb
    exact absurd hb.2 (by decide)
  | 2, _ =>
    have h1 : (2 : Word) = 1 := hwords.length.symm.trans hone
    exact absurd h1 (by decide)
  | 3, _ =>
    have h1 : (1 : Word).extractLsb' 16 otypeLen = BitVec.allOnes otypeLen := by
      rw [← hone]
      exact hwords.otype
    exact absurd h1 (by decide)

/-- A granule that starts in memory is in memory. -/
theorem holds_of_inMemory {a : Word} (hal : a.toNat % capBytes = 0) (h : cfg.InMemory a) :
    Holds cfg a 16 := by
  obtain ⟨hlo, hhi⟩ := h
  have ha := cfg.aligned
  refine ⟨hlo, ?_⟩
  rw [capBytes] at *
  omega

/-- **A store at a granule out of memory is none of the memory's.** -/
theorem storeCap_of_not_inMemory {a : Word} (hal : a.toNat % capBytes = 0)
    (h : ¬ cfg.InMemory a) (m : TaggedMemory) (c : Capability) : m.storeCap cfg a c = m := by
  have hwrite : ∀ ram, ∀ k < 4, MemBus.writeWord cfg ram (storeCmd a c k) = ram := by
    intro ram k hk
    rw [MemBus.writeWord]
    exact if_neg (fun hin => h ((MemConfig.inMemory_word_iff hal hk).1 hin.2))
  have htags : m.setTag cfg a c.tag = m.tags := by
    funext g
    exact if_neg (fun hin => h hin.1)
  have hram : (m.storeCap cfg a c).ram = m.ram := by
    show MemBus.writeWord cfg (MemBus.writeWord cfg (MemBus.writeWord cfg (MemBus.writeWord cfg
      m.ram (storeCmd a c 0)) (storeCmd a c 1)) (storeCmd a c 2)) (storeCmd a c 3) = _
    rw [hwrite _ 0 (by decide), hwrite _ 1 (by decide), hwrite _ 2 (by decide),
      hwrite _ 3 (by decide)]
  show (⟨m.setTag cfg a c.tag, (m.storeCap cfg a c).ram⟩ : TaggedMemory) = m
  rw [htags, hram]

section

variable {e : EnclaveId w} {a o : Word}

/-- A word read at an offset from a granule. -/
theorem readWord_storeCap {x : Word} (h : Holds cfg a 16) (hx : cfg.InMemory x) (m : TaggedMemory)
    (c : Capability) (device : Word → Word) :
    (m.storeCap cfg a c).readWord cfg device x
      = if a.toNat / 4 ≤ x.toNat / 4 ∧ x.toNat / 4 < a.toNat / 4 + 4
        then c.memWord (x.toNat / 4 - a.toNat / 4) else m.readWord cfg device x := by
  rw [readWord, if_pos hx, h.storeCap_ram, readWord, if_pos hx]

/-- **A load close behind a key misses it**: some of the words are not where
the load looks for them. -/
theorem not_loadCap_of_close (hw : w + 2 ≤ otypeLen) (hold : Holds cfg a 16)
    (hal : a.toNat % capBytes = 0) (h4 : 4 ≤ o.toNat) (h16 : o.toNat < 16) :
    ¬ ∀ device, (m.storeCap cfg a e.ownKey).loadCap cfg device (a + o) = e.ownKey := by
  intro h
  have hwords := keyWords_of_loadCap (h (fun _ => 1))
  refine hwords.shift_lt hw (keyWords_memWord e) (j := o.toNat / 4) (by omega) (by omega) ?_
  intro k hk
  have hin := inMemory_of_loadCap hw h (k := k) (by omega)
  have haddr : (a + o + BitVec.ofNat 32 (4 * k)).toNat = a.toNat + o.toNat + 4 * k := by
    have hfits := cfg.fits
    have hend := hold.2
    rw [BitVec.toNat_add, BitVec.toNat_add, BitVec.toNat_ofNat]
    omega
  show (m.storeCap cfg a e.ownKey).readWord cfg _ _ = _
  rw [readWord_storeCap hold hin, haddr]
  rw [capBytes] at hal
  rw [if_pos (by omega)]
  congr 1
  omega

/-- **A load that wraps around to a key misses it** as well. -/
theorem not_loadCap_of_wraps (hw : w + 2 ≤ otypeLen) (hold : Holds cfg a 16)
    (hsum : a.toNat + o.toNat < 2 ^ 32) (hal : a.toNat % capBytes = 0)
    (hwrap : 2 ^ 32 ≤ o.toNat + 12) :
    ¬ ∀ device, (m.storeCap cfg a e.ownKey).loadCap cfg device (a + o) = e.ownKey := by
  intro h
  have hwords := keyWords_of_loadCap (h (fun _ => 1))
  rw [capBytes] at hal
  -- the key is at address zero, and the load starts `4 * j` bytes before it
  have ho := o.isLt
  refine (keyWords_memWord e).shift_lt hw hwords (j := (2 ^ 32 - o.toNat + 3) / 4)
    (by omega) (by omega) ?_
  intro k hk
  have hin := inMemory_of_loadCap hw h (k := k + (2 ^ 32 - o.toNat + 3) / 4) hk
  have haddr : (a + o + BitVec.ofNat 32 (4 * (k + (2 ^ 32 - o.toNat + 3) / 4))).toNat / 4 = k := by
    rw [BitVec.toNat_add, BitVec.toNat_add, BitVec.toNat_ofNat]
    omega
  show _ = (m.storeCap cfg a e.ownKey).readWord cfg _ _
  rw [readWord_storeCap hold hin, haddr, if_pos (by omega)]
  congr 1
  omega

/-- **A load away from a key is not about it.** -/
theorem loadCap_storeCap_of_away (hold : Holds cfg a 16)
    (hsum : a.toNat + o.toNat < 2 ^ 32) (hal : a.toNat % capBytes = 0)
    (h16 : 16 ≤ o.toNat) (hwrap : o.toNat + 12 < 2 ^ 32) (hin : cfg.InMemory (a + o))
    (m : TaggedMemory) (c : Capability) (device : Word → Word) :
    (m.storeCap cfg a c).loadCap cfg device (a + o) = m.loadCap cfg device (a + o) := by
  have haddr : (a + o).toNat = a.toNat + o.toNat := by
    rw [BitVec.toNat_add, Nat.mod_eq_of_lt hsum]
  have htag : (m.storeCap cfg a c).tags (MemoryTagger.tagIndex cfg (a + o))
      = m.tags (MemoryTagger.tagIndex cfg (a + o)) := by
    rw [storeCap_tags, MemConfig.tagIndex_eq_granule hin]
    exact if_neg (fun ht => granule_ne hin.1 hold.1 (Or.inr (by omega)) ht.2)
  unfold loadCap
  rw [htag]
  refine Capability.ofMemWords_congr (fun k hk => ?_)
  by_cases hink : cfg.InMemory (a + o + BitVec.ofNat 32 (4 * k))
  · rw [readWord_storeCap hold hink]
    refine if_neg (fun hk' => ?_)
    rw [BitVec.toNat_add, haddr, BitVec.toNat_ofNat] at hk'
    rw [capBytes] at hal
    omega
  · rw [readWord, readWord, if_neg hink, if_neg hink]

/-- A load inside the first word of a key gives it. -/
theorem loadCap_storeCap_of_same (hold : Holds cfg a 16) (hal : a.toNat % capBytes = 0)
    (h4 : o.toNat < 4) (m : TaggedMemory) (c : Capability) (device : Word → Word) :
    (m.storeCap cfg a c).loadCap cfg device (a + o) = c := by
  have hfits := cfg.fits
  have hlo := hold.1
  have hhi := hold.2
  rw [capBytes] at hal
  have haddr : ∀ k < 4, (a + o + BitVec.ofNat 32 (4 * k)).toNat = a.toNat + o.toNat + 4 * k := by
    intro k hk
    rw [BitVec.toNat_add, BitVec.toNat_add, BitVec.toNat_ofNat]
    omega
  have hin : ∀ k < 4, cfg.InMemory (a + o + BitVec.ofNat 32 (4 * k)) := by
    intro k hk
    rw [MemConfig.InMemory, haddr k hk]
    omega
  have h0 : a + o + BitVec.ofNat 32 (4 * 0) = a + o := BitVec.add_zero _
  have hin0 := hin 0 (by decide)
  have haddr0 := haddr 0 (by decide)
  rw [h0] at hin0 haddr0
  have htag : (m.storeCap cfg a c).tags (MemoryTagger.tagIndex cfg (a + o)) = c.tag := by
    have ha := cfg.aligned
    have hg : cfg.granule (a + o) = cfg.granule a := by
      rw [MemConfig.granule, MemConfig.granule, haddr0, capBytes]
      rw [capBytes] at ha
      omega
    rw [storeCap_tags, MemConfig.tagIndex_eq_granule hin0]
    exact if_pos ⟨hold.inMemory, hg⟩
  unfold loadCap
  rw [htag]
  conv_rhs => rw [← Capability.ofMemWords_memWord c]
  refine Capability.ofMemWords_congr (fun k hk => ?_)
  rw [readWord_storeCap hold (hin k hk), haddr k hk, if_pos (by omega)]
  congr 1
  omega

/-- **Where a key stored at a granule is loaded from**: the granule itself, or
a place away from it that holds the key already. -/
theorem loadCap_ownKey_iff (hw : w + 2 ≤ otypeLen) (hsum : a.toNat + o.toNat < 2 ^ 32)
    (hal : a.toNat % capBytes = 0) :
    (∀ device, (m.storeCap cfg a e.ownKey).loadCap cfg device (a + o) = e.ownKey)
      ↔ o.toNat < 4 ∧ cfg.InMemory a
        ∨ 16 ≤ o.toNat ∧ o.toNat + 12 < 2 ^ 32
          ∧ ∀ device, m.loadCap cfg device (a + o) = e.ownKey := by
  have h0 : a + o + BitVec.ofNat 32 (4 * 0) = a + o := BitVec.add_zero _
  have haddr : (a + o).toNat = a.toNat + o.toNat := by
    rw [BitVec.toNat_add, Nat.mod_eq_of_lt hsum]
  by_cases hmem : cfg.InMemory a
  · have hold := holds_of_inMemory hal hmem
    constructor
    · intro h
      have hin := inMemory_of_loadCap hw h (k := 0) (by decide)
      rw [h0] at hin
      by_cases h4 : o.toNat < 4
      · exact Or.inl ⟨h4, hmem⟩
      · have h16 : 16 ≤ o.toNat := by
          by_contra hlt
          exact not_loadCap_of_close hw hold hal (by omega) (by omega) h
        have hwrap : o.toNat + 12 < 2 ^ 32 := by
          by_contra hge
          exact not_loadCap_of_wraps hw hold hsum hal (by omega) h
        refine Or.inr ⟨h16, hwrap, fun device => ?_⟩
        rw [← loadCap_storeCap_of_away hold hsum hal h16 hwrap hin m e.ownKey device]
        exact h device
    · rintro (⟨h4, -⟩ | ⟨h16, hwrap, h⟩)
      · exact fun device => loadCap_storeCap_of_same hold hal h4 m e.ownKey device
      · have hin := inMemory_of_loadCap hw h (k := 0) (by decide)
        rw [h0] at hin
        intro device
        rw [loadCap_storeCap_of_away hold hsum hal h16 hwrap hin m e.ownKey device]
        exact h device
  · rw [storeCap_of_not_inMemory hal hmem]
    constructor
    · intro h
      have ha := cfg.aligned
      have hin := inMemory_of_loadCap hw h (k := 0) (by decide)
      rw [h0, MemConfig.InMemory, haddr] at hin
      rw [MemConfig.InMemory] at hmem
      rw [capBytes] at *
      have h16 : 16 ≤ o.toNat := by
        by_contra hlt
        omega
      refine Or.inr ⟨h16, ?_, h⟩
      by_contra hge
      -- the load wraps around to the granule that is not in memory
      have hin' := inMemory_of_loadCap hw h (k := 3) (by decide)
      rw [MemConfig.InMemory, BitVec.toNat_add, haddr, BitVec.toNat_ofNat, capBytes] at hin'
      omega
    · rintro (⟨-, hin⟩ | ⟨-, -, h⟩)
      · exact absurd hin hmem
      · exact h

end

end TaggedMemory

/-! ## What the enclave finds -/

/-- The address of the granule of an address. -/
def granuleStart (a : Word) : Word := BitVec.ofNat 32 (a.toNat / capBytes * capBytes)

/-- **The enclave `e` finds its own key**, entered with `pcc` and `c31`: the
first load of its entry code, through `c31`, raises nothing and gives the key;
the first instruction is the one at the base of the code section; and an
offset set in `c31` counts from the granule the seals were stored in. -/
structure FindsKey {w : ℕ} (cfg : MemConfig) (e : EnclaveId w) (code data : Capability)
    (mem : TaggedMemory) (pcc c31 : Capability) : Prop where
  authorised : (MemAccess.capCap .load e.ownKey.tag c31).check = none
  key : ∀ device, mem.loadCap cfg device c31.address = e.ownKey
  start : pcc.address = code.base
  offsets : ∀ t, ∃ c, Modification.setOffset.apply c31 t = .ok c
    ∧ c.address = granuleStart data.base + t

/-- **What it takes**, of the code capability as `EInitCode` got it and of the
state `EInitData` starts in: the code capability points at its base, give or
take the bit a jump clears; the data section starts at a granule; the data
capability can load a capability where it points; and it points at its base,
give or take what a word hides, or at a key that is there already. -/
structure KeyInReach {w : ℕ} (cfg : MemConfig) (e : EnclaveId w) (code data : Capability)
    (mem : TaggedMemory) : Prop where
  start : clearLsb code.offset = 0
  aligned : data.base.toNat % capBytes = 0
  permitted : data.perms.load = true
  inBounds : data.InBounds data.address capByteWidth
  near : data.offset.toNat < 4 ∧ cfg.InMemory data.base
    ∨ 16 ≤ data.offset.toNat ∧ data.offset.toNat + 12 < 2 ^ 32
      ∧ ∀ device, mem.loadCap cfg device data.address = e.ownKey

section

variable {w : ℕ} {cfg : MemConfig} {e : EnclaveId w} {code data : Capability}

theorem granuleStart_eq_iff (a : Word) : granuleStart a = a ↔ a.toNat % capBytes = 0 := by
  have ha := a.isLt
  rw [← BitVec.toNat_inj, granuleStart, BitVec.toNat_ofNat]
  rw [capBytes]
  omega

/-- An address in bounds is an offset that does not wrap. -/
theorem Capability.InBounds.offset_lt {n : Word} (h : data.InBounds data.address n) :
    data.base.toNat + data.offset.toNat < 2 ^ 32 := by
  have hb := data.base.isLt
  have ho := data.offset.isLt
  have h' := (Capability.inBounds_iff.1 h).1
  rw [Capability.toNat_address] at h'
  omega

/-- **The key is found exactly where it is in reach**, with the seals stored at
the base of the data section. -/
theorem findsKey_iff (hw : w + 2 ≤ otypeLen) (htag : data.tag = true) (mem : TaggedMemory)
    (o : ObjectType) :
    FindsKey cfg e code data (mem.storeCap cfg data.base e.ownKey)
        { (code.sealWith o).unsealed with offset := clearLsb code.offset }
        (data.sealWith o).unsealed
      ↔ KeyInReach cfg e code data mem := by
  have hauth : (MemAccess.capCap .load e.ownKey.tag (data.sealWith o).unsealed).check = none
      ↔ data.perms.load = true ∧ data.InBounds data.address capByteWidth := by
    rw [MemAccess.check_eq_none_iff]
    show (data.tag = true ∧ (data.sealWith o).unsealed.isSealed = false ∧ data.perms.load = true)
      ∧ data.InBounds data.address capByteWidth ↔ _
    rw [Capability.isSealed_unsealed, htag]
    simp
  constructor
  · intro h
    obtain ⟨hperm, hin⟩ := hauth.1 h.authorised
    have hal : data.base.toNat % capBytes = 0 := by
      obtain ⟨c, hc, haddr⟩ := h.offsets 0#32
      rw [← (Except.ok.inj hc), BitVec.add_zero] at haddr
      rw [← granuleStart_eq_iff, ← haddr]
      exact BitVec.add_zero _
    have hstart : code.base + clearLsb code.offset = code.base + 0#32 := by
      rw [BitVec.add_zero]
      exact h.start
    exact ⟨(BitVec.add_right_inj _).1 hstart, hal, hperm, hin,
      (TaggedMemory.loadCap_ownKey_iff hw hin.offset_lt hal).1 h.key⟩
  · intro h
    refine ⟨hauth.2 ⟨h.permitted, h.inBounds⟩, ?_, ?_, ?_⟩
    · exact (TaggedMemory.loadCap_ownKey_iff hw h.inBounds.offset_lt h.aligned).2 h.near
    · show code.base + clearLsb code.offset = code.base
      rw [h.start]
      exact BitVec.add_zero _
    · intro t
      refine ⟨_, rfl, ?_⟩
      rw [(granuleStart_eq_iff _).2 h.aligned]
      rfl

/-- What `EInitCode` gives where it gives anything tagged. -/
theorem CapState.eInitCode_tag {s : CapState w} (h : (s.eInitCode code).1.tag = true) :
    (s.eInitCode code).1 = code.sealWith s.store.initEntry.1.identSeal := by
  unfold CapState.eInitCode at h ⊢
  simp only at h ⊢
  cases hv : s.store.initEntry.1.valid with
  | true => rw [if_pos rfl]
  | false =>
    rw [hv] at h
    cases h

end

/-- **The enclave finds its own key, and what it takes.** After an `EInitCode`,
an `EInitData` of the code capability it gave, and a `CInvoke` of both results,
the enclave finds its key if and only if it is in reach. -/
theorem enclave_findsKey_iff_keyInReach {w : ℕ} (hw : w + 2 ≤ otypeLen) (cfg : MemConfig)
    (digest : List Word → Digest) (s₀ : CapState w) (code : Capability) (s : InitData w)
    (is : List InitDataInput) (hs : s.Starts) (h0 : s.cap.regs 0 = .null)
    (hcode : s.drain.cs1 = (s₀.eInitCode code).1)
    (hr : ((eInitData cfg digest).run s is).Retired) (rs1 rs2 : RegId) (pcc c31 : Capability)
    (hinvoke : cInvoke (s₀.eInitCode code).1 (((eInitData cfg digest).run s is).cap.regs s.rd)
      rs1 rs2 = .ok (pcc, c31)) :
    FindsKey cfg s₀.store.initEntry.1 code s.drain.cs2 ((eInitData cfg digest).run s is).mem pcc c31
      ↔ KeyInReach cfg s₀.store.initEntry.1 code s.drain.cs2 s.mem := by
  obtain ⟨htag, htag', -, -, rfl, rfl⟩ := cInvoke_ok hinvoke
  obtain ⟨eid, store, hswept, hdata, hcap, hmem⟩ := InitData.run_tagged hs h0 is hr htag'
  have hres : ((eInitData cfg digest).run s is).cap.regs s.rd
      = s.drain.cs2.sealWith eid.identSeal := by
    rw [hcap]
    exact Function.update_self _ _ _
  have hsealed := CapState.eInitCode_tag htag
  -- the entry found is the one `EInitCode` made
  have hid : eid.id = s₀.store.initEntry.1.id := by
    have hacc := hswept.core.accepted
    rw [hacc.eid_eq, InitData.getUnfinishedEntry_eq (hacc.eid_eq ▸ hacc.valid), hcode, hsealed]
    exact EnclaveId.assignFromOtype_identSeal_id hw _
  have hkey : eid.signEncSeal = s₀.store.initEntry.1.ownKey := by
    rw [EnclaveId.signEncSeal_eq_ownKey hw, EnclaveId.ownKey, EnclaveId.ownKey, hid]
  have hident : eid.identSeal = s₀.store.initEntry.1.identSeal := by
    rw [EnclaveId.identSeal, EnclaveId.identSeal, EnclaveId.otype, EnclaveId.otype, hid]
  rw [hmem, hkey, hres, hident, hsealed]
  exact findsKey_iff hw hdata s.mem _

/-! ### An enclave with two granules of data -/

namespace InitData

/-- The core an `EInitCode` finds after reset. -/
def fresh : CapState 4 where
  regs := fun _ => .null
  scrs := fun _ => .null
  pcc := .root
  store := .reset 4 1

/-- The code capability, before it is sealed. -/
def plainCode : Capability := smallCode.unsealed

/-- The data capability: two granules, pointing `offset` bytes into them, and
not to be executed. -/
def pointingData (offset : Word) : Capability :=
  ⟨true, 0x80000010, 32, offset, { Permissions.allowAll with execute := false }, .unsealed⟩

/-- `EInitData c2, c1, c2` enters the memory stage, after the instruction that
moves the data capability to `c2`. -/
def pointing (offset : Word) : InitData 4 :=
  { small 2 with wb := some [⟨.reg 2, pointingData offset, pointingData offset⟩] }

/-- The program counter capability the enclave starts with. -/
def entryPcc : Capability := plainCode

theorem pointing_cs2 (offset : Word) : (pointing offset).drain.cs2 = pointingData offset := by
  show Function.update (small 2).cap.regs 2 (pointingData offset) 2 = _
  exact Function.update_self _ _ _

theorem pointing_cs1 (offset : Word) :
    (pointing offset).drain.cs1 = (fresh.eInitCode plainCode).1 := by
  show Function.update (small 2).cap.regs 2 (pointingData offset) 1 = _
  rw [Function.update_of_ne (by decide)]
  decide +kernel

end InitData

open InitData in
/-- An enclave whose capabilities point at their bases finds its key. -/
theorem pointing_zero_findsKey :
    FindsKey smallMemory fresh.store.initEntry.1 plainCode (pointingData 0)
      ((eInitData smallMemory lastWords).run (pointing 0) promptAnswers).mem entryPcc
      (pointingData 0) := by
  have h := enclave_findsKey_iff_keyInReach (by decide) smallMemory lastWords fresh plainCode
    (pointing 0) promptAnswers ⟨rfl, rfl⟩ rfl (pointing_cs1 0)
    ⟨by decide +kernel, by decide +kernel, by decide +kernel⟩ 1 2 entryPcc (pointingData 0)
    (by decide +kernel)
  rw [pointing_cs2] at h
  exact h.2 ⟨by decide, by decide, rfl, by decide, Or.inl (by decide)⟩

open InitData in
/-- **The key is not where the enclave looks.** With a data capability that
points at its second granule every instruction of the sequence succeeds, and
the first load of the enclave gives what that granule held: nothing tagged. -/
theorem pointing_sixteen_not_findsKey :
    let t := (eInitData smallMemory lastWords).run (pointing 16) promptAnswers
    (pointing 16).Starts ∧ (pointing 16).cap.regs 0 = .null
      ∧ (pointing 16).drain.cs1 = (fresh.eInitCode plainCode).1 ∧ t.Retired
      ∧ 16 ≤ (pointingData 16).length.toNat
      ∧ cInvoke (fresh.eInitCode plainCode).1 (t.cap.regs 2) 1 2
          = .ok (entryPcc, pointingData 16)
      ∧ ¬ FindsKey smallMemory fresh.store.initEntry.1 plainCode (pointingData 16) t.mem entryPcc
          (pointingData 16) := by
  refine ⟨⟨rfl, rfl⟩, rfl, pointing_cs1 16,
    ⟨by decide +kernel, by decide +kernel, by decide +kernel⟩, by decide, by decide +kernel, ?_⟩
  intro h
  have htag := congrArg Capability.tag (h.key (fun _ => 0))
  exact absurd htag (by decide +kernel)

end Proteus
