import CheriTree.Proteus.EnclaveInit

/-!
# Exclusive ownership of an enclave's sections

Once `EInitData` has given a tagged result, the two sections of the enclave
are to be out of reach of every other capability: no register besides the
result and the code capability, no special register, no granule of memory
besides the one of the seals holds a tagged capability that shares a byte with
them, and they share none with each other.

The state machine does not see to all of it. It leaves the data operand alone
when the result goes to another register; it does not compare the two sections;
its test is on tops that wrap; and the seals are stored at a base that nothing
has compared with the granules, so that they can end up in two of them.
`Unaliased` is what is left to ask of the state before, and `Owned` holds
afterwards exactly when it does.
-/

namespace Proteus

/-! ## What the overlap test misses -/

/-- **Two capabilities meet by a top that wraps**: they share a byte, and the
end of one passes `2^32` and what the wrap leaves of it is not above the start
of the other. -/
def TopWraps (a c : Capability) : Prop :=
  a.range.Meets c.range
    ∧ (2 ^ 32 ≤ a.range.top ∧ a.range.top ≤ c.range.base + 2 ^ 32
      ∨ 2 ^ 32 ≤ c.range.top ∧ c.range.top ≤ a.range.base + 2 ^ 32)

instance (a c : Capability) : Decidable (TopWraps a c) :=
  inferInstanceAs (Decidable (_ ∧ _))

/-- **A tagged capability that passes the test meets the section only by a top
that wraps.** -/
theorem meets_iff_topWraps {a c : Capability} (htag : c.tag = true)
    (h : overlaps a c = false) : a.range.Meets c.range ↔ TopWraps a c := by
  refine ⟨fun hm => ⟨hm, ?_⟩, fun hw => hw.1⟩
  have ha := a.base.isLt
  have hl := a.length.isLt
  have hc := c.base.isLt
  have hcl := c.length.isLt
  -- the test on the sums, taken modulo `2^32`
  have htest : (a.base.toNat + a.length.toNat) % 2 ^ 32 ≤ c.base.toNat
      ∨ (c.base.toNat + c.length.toNat) % 2 ^ 32 ≤ a.base.toNat := by
    rw [← Capability.toNat_top, ← Capability.toNat_top, ← BitVec.le_def, ← BitVec.le_def]
    simpa [overlaps, htag, or_iff_not_imp_left] using h
  rw [ByteRange.meets_iff] at hm
  simp only [ByteRange.top, Capability.range_base, Capability.range_length] at hm ⊢
  rcases htest with htest | htest
  · left
    omega
  · right
    omega

/-! ## What is to hold, and what it takes -/

namespace InitData

variable {w : ℕ} (cfg : MemConfig)

/-- A capability shares no byte with the two sections. -/
def Outside (code data r : ByteRange) : Prop := ¬ code.Meets r ∧ ¬ data.Meets r

instance (code data r : ByteRange) : Decidable (Outside code data r) :=
  inferInstanceAs (Decidable (_ ∧ _))

/-- **The sections are owned exclusively**: no tagged capability in the core,
but for the registers `cd` and `cs1`, and none in memory, but for a seal
stored whole at `a`, shares a byte with them; nor do they with each other. -/
structure Owned (s : InitData w) (cd cs1 : RegId) (a : Word) (code data : ByteRange) : Prop where
  core : ∀ d, d ≠ .reg cd → d ≠ .reg cs1 → (s.cap.read d).tag = true →
    Outside code data (s.cap.read d).range
  memory : ∀ g < cfg.numTags, ¬ cfg.StoresIn a g → (s.mem.capAt cfg g).tag = true →
    Outside code data (s.mem.capAt cfg g).range
  apart : ¬ code.Meets data

/-- **The tag scan reports every tagged granule exactly once.** -/
def ScanExact (s : InitData w) : Prop :=
  ∀ g < cfg.numTags, s.mem.tags g = true → s.scan.count (cfg.granuleAddress g) = 1

/-- A tagged capability meets a section by a top that wraps. -/
def Slips (s : InitData w) (c : Capability) : Prop :=
  c.tag = true ∧ (TopWraps s.cs1 c ∨ TopWraps s.cs2 c)

/-- The seals of the enclave a code capability belongs to. -/
def seals (s : InitData w) : Capability :=
  (EnclaveId.assignFromOtype s.cs1.otype : EnclaveId w).signEncSeal

/-- **Nothing escapes the sweep.** The data operand is overwritten or is the
code operand, or there is no data; the sections are apart; no capability that
stays slips through the overlap test; and no granule that the seals are spilt
over is left with a capability to a section. -/
structure Unaliased (s : InitData w) : Prop where
  operand : s.rs2 = s.rd ∨ s.rs2 = s.rs1 ∨ s.cs2.length = 0
  apart : ¬ s.cs1.range.Meets s.cs2.range
  core : ∀ d, d ≠ .reg s.rd → d ≠ .reg s.rs1 → d ≠ .reg s.rs2 → ¬ s.Slips (s.cap.read d)
  memory : ∀ g < cfg.numTags, ¬ cfg.Touches s.cs2.base g → ¬ s.Slips (s.mem.capAt cfg g)
  spill : ∀ g < cfg.numTags, cfg.Touches s.cs2.base g → ¬ cfg.StoresIn s.cs2.base g →
    cfg.TagsAt s.cs2.base g ∨ s.mem.tags g = true →
      Outside s.cs1.range s.cs2.range (s.mem.spillRange cfg s.cs2.base s.seals g)

section

variable {cfg} {b : InitData w}

/-- The entry found is the one the object type names. -/
theorem getUnfinishedEntry_eq {store : IdentityStore w} {o : ObjectType}
    (h : (store.getUnfinishedEntry o).valid = true) :
    store.getUnfinishedEntry o = .assignFromOtype o := by
  unfold IdentityStore.getUnfinishedEntry at h ⊢
  simp only at h ⊢
  split
  · rename_i hv
    rw [if_pos hv] at h
    cases hfind : store.entries.find?
        (fun e => e.used && !e.ready && e.id = .assignFromOtype o) with
    | none =>
      rw [hfind] at h
      cases h
    | some e =>
      have := List.find?_some hfind
      simp only [Bool.and_eq_true, decide_eq_true_eq] at this
      exact this.2
  · rename_i hv
    rw [if_neg hv] at h
    cases h

/-- A capability that passes the sweep is outside the sections, unless it
slips. -/
theorem Passes.outside_iff {c : Capability} (h : b.Passes c) (htag : c.tag = true) :
    Outside b.cs1.range b.cs2.range c.range ↔ ¬ b.Slips c := by
  obtain ⟨h1, h2⟩ := Bool.or_eq_false_iff.1 h
  rw [Outside, meets_iff_topWraps htag h1, meets_iff_topWraps htag h2, Slips, not_and, not_or]
  exact ⟨fun h _ => h, fun h => h htag⟩

/-- A capability that is outside the sections does not slip. -/
theorem not_slips_of_outside {c : Capability}
    (h : c.tag = true → Outside b.cs1.range b.cs2.range c.range) : ¬ b.Slips c :=
  fun hs => hs.2.elim (fun hw => (h hs.1).1 hw.1) (fun hw => (h hs.1).2 hw.1)

/-- **Every place of the core was swept**, the operands apart. -/
theorem CorePassed.passes {eid : EnclaveId w} (h : b.CorePassed eid)
    (h0 : b.cap.regs 0 = .null) {d : Dest} (h1 : d ≠ .reg b.rs1) (h2 : d ≠ .reg b.rs2)
    (htag : (b.cap.read d).tag = true) : b.Passes (b.cap.read d) := by
  cases d with
  | reg r =>
    have hr : r ≠ 0 := by
      rintro rfl
      rw [CapState.read_reg, h0] at htag
      cases htag
    have hpos : 1 ≤ r.toNat := Nat.one_le_iff_ne_zero.2 (fun h => hr (BitVec.eq_of_toNat_eq h))
    have hof : BitVec.ofNat 5 r.toNat = r := by
      rw [BitVec.ofNat_toNat, BitVec.setWidth_eq]
    have := h.regs r.toNat hpos r.isLt
    rw [hof] at this
    exact this (fun he => h1 (by rw [he])) (fun he => h2 (by rw [he]))
  | scr r =>
    cases r with
    | ddc => exact h.ddc
    | mtdc => exact h.scrs 0 (by decide) .mtdc rfl
    | mscratchc => exact h.scrs 1 (by decide) .mscratchc rfl
    | mtcc => exact h.scrs 2 (by decide) .mtcc rfl
    | mepcc => exact h.scrs 3 (by decide) .mepcc rfl
  | pcc => exact h.pcc

/-- **Every tagged granule was swept.** -/
theorem Swept.passes_capAt {eid : EnclaveId w} (h : b.Swept cfg eid) (hscan : b.ScanExact cfg)
    {g : ℕ} (hg : g < cfg.numTags) (htag : (b.mem.capAt cfg g).tag = true) :
    b.Passes (b.mem.capAt cfg g) := by
  obtain ⟨done, hdone, hall⟩ := h.scan
  have hmem : cfg.granuleAddress g ∈ done := by
    rw [List.append_nil] at hdone
    rw [← hdone, ← List.count_pos_iff, hscan g hg htag]
    exact Nat.one_pos
  obtain ⟨device, hpass⟩ := hall _ hmem
  rw [TaggedMemory.loadCap_granuleAddress _ _ hg] at hpass
  exact hpass

/-- An empty range meets nothing. -/
theorem outside_of_length_eq_zero {code data r : ByteRange} (h : r.length = 0) :
    Outside code data r := by
  constructor
  · rw [ByteRange.meets_iff]
    omega
  · rw [ByteRange.meets_iff]
    omega

/-- The tag of a granule once the seals are stored. -/
theorem tag_capAt_storeCap_seals (m : TaggedMemory) (eid : EnclaveId w) (a : Word) (g : ℕ) :
    ((m.storeCap cfg a eid.signEncSeal).capAt cfg g).tag = true
      ↔ cfg.TagsAt a g ∨ m.tags g = true := by
  show (m.storeCap cfg a eid.signEncSeal).tags g = true ↔ _
  rw [TaggedMemory.storeCap_tags]
  by_cases h : cfg.TagsAt a g
  · rw [if_pos h]
    exact ⟨fun _ => Or.inl h, fun _ => rfl⟩
  · rw [if_neg h]
    exact ⟨Or.inr, fun h' => h'.resolve_left h⟩

/-- **What a successful `EInitData` leaves is owned exclusively exactly when
nothing escaped its sweep.** -/
theorem Swept.owned_iff {eid : EnclaveId w} (h : b.Swept cfg eid) (h0 : b.cap.regs 0 = .null)
    (hscan : b.ScanExact cfg) (htag : b.cs2.tag = true) {t : InitData w}
    (hcap : ∀ d, d ≠ .reg b.rd → t.cap.read d = b.cap.read d)
    (hmem : t.mem = b.mem.storeCap cfg b.cs2.base eid.signEncSeal) :
    t.Owned cfg b.rd b.rs1 b.cs2.base b.cs1.range b.cs2.range ↔ b.Unaliased cfg := by
  have hseals : eid.signEncSeal = b.seals := by
    have hacc := h.core.accepted
    rw [seals, ← getUnfinishedEntry_eq (hacc.eid_eq ▸ hacc.valid), hacc.eid_eq]
  have hsame : ∀ g < cfg.numTags, ¬ cfg.Touches b.cs2.base g →
      t.mem.capAt cfg g = b.mem.capAt cfg g := by
    intro g hg ht
    rw [hmem, TaggedMemory.capAt_storeCap_of_not_touches _ _ hg ht]
  have hrange : ∀ g < cfg.numTags,
      (t.mem.capAt cfg g).range = b.mem.spillRange cfg b.cs2.base b.seals g := by
    intro g hg
    rw [hmem, TaggedMemory.range_capAt_storeCap _ _ _ hg, hseals]
  constructor
  · intro ho
    refine ⟨?_, ho.apart, ?_, ?_, ?_⟩
    · by_contra hne
      rw [not_or, not_or] at hne
      have hd : (Dest.reg b.rs2) ≠ .reg b.rd := fun he => hne.1 (Dest.reg.inj he)
      have hout := ho.core (.reg b.rs2) hd (fun he => hne.2.1 (Dest.reg.inj he)) (by
        rw [hcap _ hd]
        exact htag)
      rw [hcap _ hd] at hout
      -- the alias is the data capability itself
      refine hout.2 (ByteRange.meets_iff.2 ?_)
      have hpos : 0 < b.cs2.length.toNat :=
        Nat.pos_of_ne_zero (fun h => hne.2.2 (BitVec.eq_of_toNat_eq h))
      exact ⟨Nat.lt_add_of_pos_right hpos, Nat.lt_add_of_pos_right hpos, hpos, hpos⟩
    · intro d hd h1 _
      refine not_slips_of_outside (fun ht => ?_)
      rw [← hcap d hd] at ht ⊢
      exact ho.core d hd h1 ht
    · intro g hg hnt
      refine not_slips_of_outside (fun ht => ?_)
      rw [← hsame g hg hnt] at ht ⊢
      exact ho.memory g hg (fun hst => hnt (TaggedMemory.touches_of_tagsAt hst.1)) ht
    · intro g hg _ hst ht
      rw [← hrange g hg]
      refine ho.memory g hg hst ?_
      rw [hmem]
      exact (tag_capAt_storeCap_seals _ _ _ _).2 ht
  · intro hu
    refine ⟨?_, ?_, hu.apart⟩
    · intro d hd h1 ht
      rw [hcap d hd] at ht ⊢
      by_cases h2 : d = .reg b.rs2
      · subst h2
        obtain he | he | he := hu.operand
        · exact absurd (congrArg Dest.reg he) hd
        · exact absurd (congrArg Dest.reg he) h1
        · exact outside_of_length_eq_zero (congrArg BitVec.toNat he)
      · exact ((h.core.passes h0 h1 h2 ht).outside_iff ht).2 (hu.core d hd h1 h2)
    · intro g hg hst ht
      by_cases htouch : cfg.Touches b.cs2.base g
      · rw [hrange g hg]
        refine hu.spill g hg htouch hst ?_
        rw [hmem] at ht
        exact (tag_capAt_storeCap_seals _ _ _ _).1 ht
      · rw [hsame g hg htouch] at ht ⊢
        exact ((h.passes_capAt hscan hg ht).outside_iff ht).2 (hu.memory g hg htouch)

end

end InitData

/-- **Exclusive ownership after `EInitData`, and what it takes.** An
`EInitData` that completes with a tagged result leaves its sections owned
exclusively if and only if nothing in the state it started in escapes its
sweep. -/
theorem eInitData_owned_iff_unaliased {w : ℕ} (cfg : MemConfig) (digest : List Word → Digest)
    (s : InitData w) (is : List InitDataInput) (hs : s.Starts) (h0 : s.cap.regs 0 = .null)
    (hscan : s.ScanExact cfg) (hr : ((eInitData cfg digest).run s is).Retired)
    (htag : (((eInitData cfg digest).run s is).cap.regs s.rd).tag = true) :
    ((eInitData cfg digest).run s is).Owned cfg s.rd s.rs1 s.drain.cs2.base s.drain.cs1.range
        (((eInitData cfg digest).run s is).cap.regs s.rd).range
      ↔ s.drain.Unaliased cfg := by
  obtain ⟨eid, store, hswept, htag', hcap, hmem⟩ := InitData.run_tagged hs h0 is hr htag
  have h0' : s.drain.cap.regs 0 = .null := s.drain_regs_zero.trans h0
  have hres : ((eInitData cfg digest).run s is).cap.regs s.rd
      = s.drain.cs2.sealWith eid.identSeal := by
    rw [hcap]
    exact Function.update_self _ _ _
  rw [hres]
  have hscan' : s.drain.ScanExact cfg := by
    unfold InitData.ScanExact
    rw [InitData.drain_mem, InitData.drain_scan]
    exact hscan
  have hread : ∀ d, d ≠ .reg s.drain.rd →
      ((eInitData cfg digest).run s is).cap.read d = s.drain.cap.read d := by
    intro d hd
    rw [InitData.drain_rd] at hd
    rw [hcap]
    cases d with
    | reg r => exact Function.update_of_ne (fun he => hd (congrArg Dest.reg he)) _ _
    | scr r => rfl
    | pcc => rfl
  have h := hswept.owned_iff h0' hscan' htag' hread (by rw [hmem, InitData.drain_mem])
  rw [InitData.drain_rd, InitData.drain_rs1] at h
  exact h

/-! ### An enclave of two granules -/

namespace InitData

/-- A memory of four granules. -/
def smallMemory : MemConfig := ⟨0x80000000, 4, by decide, MemConfig.aligned_ram, by decide⟩

/-- The code capability of the first enclave: one word, under its identity seal. -/
def smallCode : Capability := ⟨true, 0x80000000, 4, 0, .allowAll, 2⟩

/-- Its data capability: the second granule. -/
def smallData : Capability := ⟨true, 0x80000010, 16, 0, .allowAll, .unsealed⟩

/-- `EInitData rd, c1, c2` enters the memory stage; the instruction before it
puts the data capability in `c2`. -/
def small (rd : RegId) : InitData 4 where
  fsm := .IDLE
  valid := true
  rd := rd
  rs1 := 1
  rs2 := 2
  cap :=
    { regs := fun r => if r = 1 then smallCode else .null
      scrs := fun _ => .null
      pcc := { Capability.root with base := 0x1000, length := 0x1000 }
      store := ⟨4, 1, [⟨true, false, ⟨true, 0⟩, 0⟩]⟩ }
  mem := ⟨fun _ => false, fun _ => 0⟩
  wb := some [⟨.reg 2, smallData, smallData⟩]
  scan := []
  currentReg := 0
  sweepAddress := 0
  currentAddress := 0
  currentWord := 0
  hashed := []
  currentEid := .setInvalid

/-- Every unit answers at once, for as long as the instruction takes. -/
def promptAnswers : List InitDataInput := List.replicate 48 ⟨false, true, true, true, true, 0⟩

/-- A digest of the last eight words. -/
def lastWords (words : List Word) : Digest :=
  words.foldl (fun h x => h <<< 32 ||| x.setWidth 256) 0

theorem small_rd (rd : RegId) : (small rd).rd = rd := rfl

theorem small_starts (rd : RegId) : (small rd).Starts := ⟨rfl, rfl⟩

theorem small_scanExact (rd : RegId) : (small rd).ScanExact smallMemory :=
  fun _ _ htag => by cases htag

/-- With the result in the register of the data operand nothing escapes. -/
theorem small_unaliased : (small 2).drain.Unaliased smallMemory where
  operand := Or.inl rfl
  apart := by decide
  core := by
    intro d _ h1 h2 hslip
    cases d with
    | reg r =>
      have hr : (small 2).drain.cap.regs r = .null := by
        have h1' : r ≠ 1 := fun h => h1 (congrArg Dest.reg h)
        have h2' : r ≠ 2 := fun h => h2 (congrArg Dest.reg h)
        show Function.update (fun r => if r = 1 then smallCode else .null) 2 smallData r = .null
        rw [Function.update_of_ne h2', if_neg h1']
      rw [CapState.read_reg, hr] at hslip
      cases hslip.1
    | scr r => cases hslip.1
    | pcc => exact absurd hslip.2 (by decide)
  memory := fun _ _ _ hslip => by cases hslip.1
  spill := by decide +kernel

end InitData

open InitData in
/-- The small enclave is owned exclusively, its data capability sealed in place. -/
theorem small_eInitData_owned :
    let t := (eInitData smallMemory lastWords).run (small 2) promptAnswers
    t.Retired ∧ t.cap.regs 2 = smallData.sealWith 2
      ∧ t.Owned smallMemory 2 1 smallData.base smallCode.range smallData.range := by
  have hr : ((eInitData smallMemory lastWords).run (small 2) promptAnswers).Retired :=
    ⟨by decide +kernel, by decide +kernel, by decide +kernel⟩
  have hres : ((eInitData smallMemory lastWords).run (small 2) promptAnswers).cap.regs 2
      = smallData.sealWith 2 := by decide +kernel
  have h := eInitData_owned_iff_unaliased smallMemory lastWords (small 2) promptAnswers
    (small_starts 2) rfl (small_scanExact 2) hr (by rw [small_rd, hres]; rfl)
  rw [small_rd, hres] at h
  exact ⟨hr, hres, h.2 small_unaliased⟩

open InitData in
/-- **The data operand is left behind.** With the result in `c3` the run
completes with a tagged result, and `c2` still holds the data capability,
unsealed. -/
theorem small_eInitData_not_owned :
    let t := (eInitData smallMemory lastWords).run (small 3) promptAnswers
    (small 3).Starts ∧ (small 3).cap.regs 0 = .null ∧ (small 3).ScanExact smallMemory
      ∧ t.Retired ∧ (t.cap.regs 3).tag = true ∧ t.cap.regs 2 = smallData
      ∧ ¬ t.Owned smallMemory 3 1 smallData.base smallCode.range (t.cap.regs 3).range := by
  have hc2 : ((eInitData smallMemory lastWords).run (small 3) promptAnswers).cap.regs 2
      = smallData := by decide +kernel
  have hc3 : ((eInitData smallMemory lastWords).run (small 3) promptAnswers).cap.regs 3
      = smallData.sealWith 2 := by decide +kernel
  refine ⟨small_starts 3, rfl, small_scanExact 3,
    ⟨by decide +kernel, by decide +kernel, by decide +kernel⟩, by rw [hc3]; rfl, hc2, ?_⟩
  intro ho
  have hout := ho.core (.reg 2) (by decide) (by decide) (by rw [CapState.read_reg, hc2]; rfl)
  rw [CapState.read_reg, hc2, hc3] at hout
  exact hout.2 (by decide)

end Proteus
