import CheriTree.Proteus.ExclusiveOwnership

/-!
# What `EInitData` writes, and on whose authority

`EInitData` stores the seals of an enclave at the base of its data section. A
store of a capability is to be authorised by the capability it goes through:
tagged, not sealed, with the two store permissions, at an aligned address,
within its bounds. The state machine reads the base of the data capability and
nothing else of it; what keeps a run from the store are the checks on the code
capability, on the table and on all the other capabilities.

So a run writes without authority exactly where these all pass, and `Refuses`
says when they do not. Between the two there is a third kind: the loop that
hashes the code section is left at the top of the section and nowhere else,
and an address that goes up in words does not meet a top that is no whole
number of words away from the base. Such a run neither stores nor ends.
-/

namespace Proteus

/-- **A capability authorises the store of a capability** at an address. -/
structure Capability.AuthorisesStore (c : Capability) (address : Word) : Prop where
  tag : c.tag = true
  isSealed : c.isSealed = false
  store : c.perms.store = true
  storeCapability : c.perms.storeCapability = true
  aligned : address.toNat % capBytes = 0
  within : ByteRange.Within ⟨address.toNat, capBytes⟩ c.range

/-- What a state waits for comes: the answer of the unit it asks, or a stage
that is not stalled. The other states wait for nothing. -/
def InitDataState.Comes (fsm : InitDataState) (i : InitDataInput) : Prop :=
  match fsm with
  | .IDLE => i.isStalled = false
  | .CHECK_CS1_VALID | .STORE_HASH => i.idStore = true
  | .GET_ADDRESS => i.capScan = true
  | .GET_CAP | .LOAD_WORD | .STORE_SEAL => i.bus = true
  | .HASH_WORD => i.hash = true
  | _ => True

namespace InitData

variable {w : ℕ} (cfg : MemConfig) (digest : List Word → Digest)

/-! ## What is asked of a run -/

/-- **The units answer**, each again and again, at any time. -/
def Answers (env : ℕ → InitDataInput) : Prop :=
  ∀ (fsm : InitDataState) (n : ℕ), ∃ m, n ≤ m ∧ fsm.Comes (env m)

/-- **The seals are stored** in this cycle. -/
def StoresSeals (s : InitData w) (i : InitDataInput) : Prop :=
  s.fsm = .STORE_SEAL ∧ i.bus = true

/-- The instruction has left the memory stage with the result `cd`. -/
def Returns (s : InitData w) (cd : Capability) : Prop :=
  s.fsm = .IDLE ∧ s.valid = false ∧ ∃ source, s.wb = some [⟨.reg s.rd, source, cd⟩]

/-- **The data capability authorises what `EInitData` is to write.** -/
def DataAuthorises (s : InitData w) : Prop := s.cs2.AuthorisesStore s.cs2.base

/-- **A run of `EInitData` writes only what its data capability authorises**,
and gives a tagged result only then; otherwise it gives null and leaves the
core, the table and the memory as they were. -/
structure WritesAuthorised (s : InitData w) (env : ℕ → InitDataInput) : Prop where
  stores : ∀ n, ((eInitData cfg digest).stateAt s env n).StoresSeals (env n) →
    s.drain.DataAuthorises
  returns : ∀ n cd, ((eInitData cfg digest).stateAt s env n).Returns cd → cd.tag = true →
    s.drain.DataAuthorises
  refuses : ¬ s.drain.DataAuthorises → ∃ n, ((eInitData cfg digest).stateAt s env n).Retired
    ∧ ((eInitData cfg digest).stateAt s env n).cap = s.drain.cap.write (.reg s.rd) .null
    ∧ ((eInitData cfg digest).stateAt s env n).mem = s.mem

/-! ## What keeps a run from writing -/

/-- The tag scan reports addresses of granules. -/
def ScanInMemory (s : InitData w) : Prop :=
  ∀ a ∈ s.scan, ∃ g < cfg.numTags, a = cfg.granuleAddress g

/-- The code section is a whole number of words. -/
def WholeWords (s : InitData w) : Prop := s.cs1.length.toNat % 4 = 0

/-- The table takes the digest of the enclave, whatever it is. -/
def Finishes (s : InitData w) : Prop :=
  (s.cap.store.finishEntry s.cs1.otype 0).1.valid = true

/-- **The operands are refused**: the code capability or the sweep does not
pass, or the table does not take the digest the run then comes to. -/
def Refuses (s : InitData w) : Prop :=
  (¬ ∃ eid, s.Swept cfg eid) ∨ s.WholeWords ∧ ¬ s.Finishes

/-- **Nothing is written yet**, of a run that started as `b`: until the seals
are stored a run that ends has been refused. -/
def Unwritten (b s : InitData w) : Prop :=
  match s.fsm with
  | .IDLE =>
    s.valid = true ∨ b.Refuses cfg ∧ s.drain.cap = b.cap.write (.reg b.rd) .null
      ∧ s.mem = b.mem ∧ ∀ ws, s.wb = some ws → ws = [⟨.reg s.rd, b.cs2, .null⟩]
  | .CHECK_REGS => s.cap.store = b.cap.store ∧ 1 ≤ s.currentReg
  | .LOAD_WORD | .HASH_WORD =>
    s.cap.store = b.cap.store ∧ (s.currentAddress - b.cs1.base).toNat % 4 = 0
  | .STORE_HASH => s.cap.store = b.cap.store ∧ b.WholeWords
  | .STORE_SEAL => b.WholeWords ∧ b.Finishes
  | _ => s.cap.store = b.cap.store

section

variable {cfg : MemConfig} {digest : List Word → Digest} {b s : InitData w}

/-! ### What the table takes -/

theorem finishWalk_isSome_eq (eid : EnclaveId w) (hash hash' : Digest) (es : List (Entry w)) :
    (IdentityStore.finishWalk eid hash es).isSome
      = (IdentityStore.finishWalk eid hash' es).isSome := by
  induction es with
  | nil => rfl
  | cons e es ih =>
    unfold IdentityStore.finishWalk
    split
    · split <;> rfl
    · rw [Option.isSome_map, Option.isSome_map, ih]

/-- Whether a digest is taken does not depend on it. -/
theorem finishEntry_valid_eq (store : IdentityStore w) (o : ObjectType) (hash hash' : Digest) :
    (store.finishEntry o hash).1.valid = (store.finishEntry o hash').1.valid := by
  have h := finishWalk_isSome_eq (.assignFromOtype o) hash hash' store.entries
  unfold IdentityStore.finishEntry
  simp only
  split
  · cases h1 : IdentityStore.finishWalk (.assignFromOtype o) hash store.entries
    all_goals
      cases h2 : IdentityStore.finishWalk (.assignFromOtype o) hash' store.entries
      all_goals first | rfl | (rw [h1, h2] at h; cases h)
  · rfl

/-- A table that does not take a digest is left as it was. -/
theorem finishEntry_store_of_invalid {store : IdentityStore w} {o : ObjectType} {hash : Digest}
    (h : ¬ (store.finishEntry o hash).1.valid = true) : (store.finishEntry o hash).2 = store := by
  unfold IdentityStore.finishEntry at h ⊢
  simp only at h ⊢
  split
  · rename_i hv
    rw [if_pos hv] at h
    split
    · rename_i hwalk
      rw [hwalk] at h
      exact absurd hv h
    · rfl
  · rfl

/-! ### One cycle -/

/-- A refused instruction gives null, and has left the table alone. -/
theorem Same.unwritten_fail (h : b.Same s) (hstore : s.cap.store = b.cap.store)
    (hr : b.Refuses cfg) : b.Unwritten cfg s.fail := by
  refine Or.inr ⟨hr, ?_, h.mem, ?_⟩
  · rw [show s.fail.drain.cap = _ from h.drain_finish .null, hstore]
    unfold CapState.write
    simp only
    split <;> rfl
  · intro ws hws
    rw [← h.cs2_eq]
    exact (Option.some.inj hws).symm

/-- A check keeps what holds if a sweep that passes passes it. -/
theorem Same.unwritten_check (h : b.Same s) (hstore : s.cap.store = b.cap.store)
    {cap : Capability} {next : InitData w}
    (hswept : ∀ eid, b.Swept cfg eid → b.Passes cap) (hnext : b.Unwritten cfg next) :
    b.Unwritten cfg (s.check cap next) := by
  unfold check
  split
  · rename_i hover
    refine h.unwritten_fail hstore (Or.inl ?_)
    rintro ⟨eid, hs⟩
    have hpass : b.anyOverlaps cap = false := hswept eid hs
    rw [h.anyOverlaps_eq, hpass] at hover
    cases hover
  · exact hnext

theorem unwritten_checkCs1Valid (hs : b.Same s) (hfsm : s.fsm = .CHECK_CS1_VALID)
    (hstore : s.cap.store = b.cap.store) (i : InitDataInput) :
    b.Unwritten cfg (s.checkCs1Valid i) := by
  unfold checkCs1Valid
  simp only
  split
  · rename_i hcs1
    refine hs.unwritten_fail hstore (Or.inl ?_)
    rintro ⟨eid, hswept⟩
    have hacc := hswept.core.accepted
    rw [hs.cs1_eq, hacc.tag, hacc.isSealed] at hcs1
    cases hcs1
  · split
    · split
      · exact hstore
      · rename_i hinvalid
        refine hs.unwritten_fail hstore (Or.inl ?_)
        rintro ⟨eid, hswept⟩
        have hacc := hswept.core.accepted
        rw [hs.cs1_eq, hstore, ← hacc.eid_eq] at hinvalid
        exact hinvalid hacc.valid
    · simp only [Unwritten, hfsm]
      exact hstore

theorem unwritten_checkRegs (hs : b.Same s) (hfsm : s.fsm = .CHECK_REGS)
    (hstore : s.cap.store = b.cap.store) (hpos : 1 ≤ s.currentReg) (hle : s.currentReg ≤ 31) :
    b.Unwritten cfg s.checkRegs := by
  have hnext : b.Unwritten cfg
      (if s.currentReg = 31 then { s with fsm := .CHECK_DDC }
        else { s with currentReg := s.currentReg + 1 }) := by
    split
    · exact hstore
    · simp only [Unwritten, hfsm]
      exact ⟨hstore, by omega⟩
  unfold checkRegs
  simp only
  split
  · rename_i hop
    rw [hs.rs1, hs.rs2] at hop
    refine hs.unwritten_check hstore (fun eid hswept => ?_) hnext
    rw [hs.regs_eq]
    exact hswept.core.regs _ hpos (by omega) hop.1 hop.2
  · exact hnext

theorem unwritten_checkScrs (hs : b.Same s) (hfsm : s.fsm = .CHECK_SCRS)
    (hstore : s.cap.store = b.cap.store) (hlt : s.currentReg < registeredScrs.length) :
    b.Unwritten cfg s.checkScrs := by
  unfold checkScrs
  have hget := List.getElem?_eq_getElem hlt
  rw [hget]
  refine hs.unwritten_check hstore (fun eid hswept => ?_) ?_
  · rw [hs.scrs_eq]
    exact hswept.core.scrs _ hlt _ hget
  · split
    · exact hstore
    · simp only [Unwritten, hfsm]
      exact hstore

/-- What a load at a reported address gives does not depend on the devices. -/
theorem ScanInMemory.passes_loadCap (hscan : b.ScanInMemory cfg) {eid : EnclaveId w}
    (hswept : b.Swept cfg eid) {a : Word} (ha : a ∈ b.scan) (device : Word → Word) :
    b.Passes (b.mem.loadCap cfg device a) := by
  obtain ⟨done, hdone, hall⟩ := hswept.scan
  rw [List.append_nil] at hdone
  obtain ⟨g, hg, rfl⟩ := hscan a ha
  obtain ⟨device', hpass⟩ := hall _ (hdone ▸ ha)
  rw [TaggedMemory.loadCap_granuleAddress _ _ hg] at hpass ⊢
  exact hpass

theorem unwritten_storeHash (hs : b.Same s) (hfsm : s.fsm = .STORE_HASH)
    (hstore : s.cap.store = b.cap.store) (hwhole : b.WholeWords) (i : InitDataInput) :
    b.Unwritten cfg (s.storeHash digest i) := by
  have hfin : (s.cap.store.finishEntry s.cs1.otype (digest s.hashed)).1.valid = true
      ↔ b.Finishes := by
    rw [hs.cs1_eq, hstore, finishEntry_valid_eq _ _ _ 0]
    rfl
  unfold storeHash
  simp only
  split
  · split
    · rename_i hvalid
      exact ⟨hwhole, hfin.1 hvalid⟩
    · rename_i hinvalid
      rw [finishEntry_store_of_invalid hinvalid]
      exact hs.unwritten_fail hstore (Or.inr ⟨hwhole, fun h => hinvalid (hfin.2 h)⟩)
  · simp only [Unwritten, hfsm]
    exact ⟨hstore, hwhole⟩

theorem unwritten_loadWord (hfsm : s.fsm = .LOAD_WORD) (hu : b.Unwritten cfg s)
    (i : InitDataInput) : b.Unwritten cfg (s.loadWord cfg i) := by
  have hu' := hu
  simp only [Unwritten, hfsm] at hu'
  unfold loadWord
  split
  · refine ⟨hu'.1, ?_⟩
    have h4 := hu'.2
    show (s.currentAddress + 4 - b.cs1.base).toNat % 4 = 0
    rw [BitVec.toNat_sub] at h4 ⊢
    rw [BitVec.toNat_add]
    have := b.cs1.base.isLt
    have h4' : (4 : Word).toNat = 4 := rfl
    omega
  · exact hu

/-- The loop ends at the top, so the top is whole words away. -/
theorem unwritten_hashWord (hs : b.Same s) (hfsm : s.fsm = .HASH_WORD) (hu : b.Unwritten cfg s)
    (i : InitDataInput) : b.Unwritten cfg (s.hashWord i) := by
  have hu' := hu
  simp only [Unwritten, hfsm] at hu'
  unfold hashWord
  split
  · by_cases hlast : s.currentAddress = s.cs1.top
    · rw [if_pos hlast]
      refine ⟨hu'.1, ?_⟩
      have h4 := hu'.2
      rw [hlast, hs.cs1_eq, BitVec.toNat_sub, Capability.toNat_top] at h4
      have := b.cs1.base.isLt
      rw [WholeWords]
      omega
    · rw [if_neg hlast]
      exact hu'
  · exact hu

theorem unwritten_idle (hf : s.fsm = .IDLE) (hi : b.Inv cfg s) (hu : b.Unwritten cfg s)
    (i : InitDataInput) (flushed : Bool) :
    b.Unwritten cfg (s.drain.act cfg digest i flushed) := by
  simp only [Inv, hf] at hi
  simp only [Unwritten, hf] at hu
  simp only [act, drain_fsm, hf, drain_valid]
  split
  · rename_i hv
    rw [if_pos hv] at hi
    cases i.isStalled with
    | true => exact Or.inl hv
    | false => exact hi.2.1
  · rename_i hv
    obtain ⟨hr, hcap, hmem, -⟩ := hu.resolve_left hv
    simp only [Unwritten, drain_fsm, hf]
    refine Or.inr ⟨hr, ?_, ?_, ?_⟩
    · rw [drain_drain]
      exact hcap
    · rw [drain_mem]
      exact hmem
    · intro ws hws
      rw [s.drain_wb] at hws
      cases hws

/-- **One cycle that does not store the seals writes nothing.** -/
theorem unwritten_next (hscan : b.ScanInMemory cfg) (hi : b.Inv cfg s) (hu : b.Unwritten cfg s)
    {i : InitDataInput} (hns : ¬ s.StoresSeals i) :
    b.Unwritten cfg ((eInitData cfg digest).next s i) := by
  rw [eInitData_next]
  by_cases hf : s.fsm = .IDLE
  · exact unwritten_idle hf hi hu i _
  have hwb := hi.wb_eq_none hf
  rw [drain_eq_self hwb]
  cases hfsm : s.fsm with
  | IDLE => exact absurd hfsm hf
  | CHECK_CS1_VALID =>
    simp only [Inv, hfsm] at hi
    simp only [Unwritten, hfsm] at hu
    simp only [act, hfsm]
    exact unwritten_checkCs1Valid hi.1 hfsm hu i
  | START =>
    simp only [Unwritten, hfsm] at hu
    simp only [act, hfsm]
    exact hu
  | CLAIM_PIPELINE =>
    simp only [Unwritten, hfsm] at hu
    simp only [act, hfsm, hwb]
    exact ⟨hu, le_refl 1⟩
  | CHECK_REGS =>
    simp only [Inv, hfsm] at hi
    simp only [Unwritten, hfsm] at hu
    simp only [act, hfsm]
    exact unwritten_checkRegs hi.1 hfsm hu.1 hu.2 hi.2.2.2.2
  | CHECK_DDC =>
    simp only [Inv, hfsm] at hi
    simp only [Unwritten, hfsm] at hu
    simp only [act, hfsm]
    refine hi.1.unwritten_check hu (fun eid hswept => ?_) hu
    rw [hi.1.scrs_eq]
    exact hswept.core.ddc
  | CHECK_PCC =>
    simp only [Inv, hfsm] at hi
    simp only [Unwritten, hfsm] at hu
    simp only [act, hfsm]
    refine hi.1.unwritten_check hu (fun eid hswept => ?_) hu
    rw [hi.1.pcc_eq]
    exact hswept.core.pcc
  | CHECK_SCRS =>
    simp only [Inv, hfsm] at hi
    simp only [Unwritten, hfsm] at hu
    simp only [act, hfsm]
    exact unwritten_checkScrs hi.1 hfsm hu hi.2.2.2.2.2.2.2
  | GET_ADDRESS =>
    have hu' := hu
    simp only [Unwritten, hfsm] at hu'
    simp only [act, hfsm, getAddress]
    split
    · split
      · exact hu'
      · exact hu'
    · exact hu
  | GET_CAP =>
    have hu' := hu
    simp only [Inv, hfsm] at hi
    simp only [Unwritten, hfsm] at hu'
    simp only [act, hfsm]
    split
    · refine hi.1.unwritten_check hu' (fun eid hswept => ?_) hu'
      obtain ⟨done, hdone, -⟩ := hi.2.2
      rw [hi.1.mem]
      refine hscan.passes_loadCap hswept ?_ _
      rw [hdone]
      exact List.mem_append_right _ List.mem_cons_self
    · exact hu
  | HASH_START =>
    simp only [Inv, hfsm] at hi
    simp only [Unwritten, hfsm] at hu
    simp only [act, hfsm]
    refine ⟨hu, ?_⟩
    rw [hi.1.cs1_eq, BitVec.sub_self]
    rfl
  | LOAD_WORD =>
    simp only [act, hfsm]
    exact unwritten_loadWord hfsm hu i
  | HASH_WORD =>
    simp only [Inv, hfsm] at hi
    simp only [act, hfsm]
    exact unwritten_hashWord hi.1 hfsm hu i
  | STORE_HASH =>
    simp only [Inv, hfsm] at hi
    simp only [Unwritten, hfsm] at hu
    simp only [act, hfsm]
    exact unwritten_storeHash hi.1 hfsm hu.1 hu.2 i
  | STORE_SEAL =>
    have hbus : ¬ i.bus = true := fun hb => hns ⟨hfsm, hb⟩
    simp only [act, hfsm, storeSeal]
    rw [if_neg hbus]
    exact hu

end

/-! ## A run that is refused comes to its end -/

/-- The words from an address up to a top, around the end of the address
space. -/
def wordsLeft (top address : Word) : ℕ := (top - address).toNat / 4

/-- The most cycles the scan and the hash loop can still take. -/
def sweepLeft (s : InitData w) : ℕ := 2 ^ 31 + 5 + 2 * s.scan.length

/-- **The most cycles left**, those in which the state waits not counted. -/
def cyclesLeft (s : InitData w) : ℕ :=
  match s.fsm with
  | .IDLE => if s.valid then s.sweepLeft + 50 else 0
  | .CHECK_CS1_VALID => s.sweepLeft + 49
  | .START => s.sweepLeft + 48
  | .CLAIM_PIPELINE => s.sweepLeft + 47
  | .CHECK_REGS => s.sweepLeft + 15 + (31 - s.currentReg)
  | .CHECK_DDC => s.sweepLeft + 12
  | .CHECK_PCC => s.sweepLeft + 11
  | .CHECK_SCRS => s.sweepLeft + 3 + (registeredScrs.length - s.currentReg)
  | .GET_CAP => s.sweepLeft + 2
  | .GET_ADDRESS => s.sweepLeft + 1
  | .HASH_START => 2 ^ 31 + 5
  | .LOAD_WORD => 4 + 2 * wordsLeft s.cs1.top (s.currentAddress + 4)
  | .HASH_WORD => 3 + 2 * wordsLeft s.cs1.top s.currentAddress
  | .STORE_HASH => 2
  | .STORE_SEAL => 1

section

variable {cfg : MemConfig} {digest : List Word → Digest} {b s : InitData w}

theorem wordsLeft_lt (top address : Word) : wordsLeft top address < 2 ^ 30 := by
  have := (top - address).isLt
  rw [wordsLeft]
  omega

/-- A word less is left, whole words from the top. -/
theorem wordsLeft_add_four {top address : Word} (h4 : (top - address).toNat % 4 = 0)
    (hne : address ≠ top) : wordsLeft top (address + 4) + 1 = wordsLeft top address := by
  have hne' : address.toNat ≠ top.toNat := fun h => hne (BitVec.eq_of_toNat_eq h)
  have ha := address.isLt
  have ht := top.isLt
  have hfour : (4 : Word).toNat = 4 := rfl
  rw [BitVec.toNat_sub] at h4
  rw [wordsLeft, wordsLeft, BitVec.toNat_sub, BitVec.toNat_sub, BitVec.toNat_add]
  omega

theorem cyclesLeft_check_lt {cap : Capability} {next : InitData w}
    (h : next.cyclesLeft < s.cyclesLeft) : (s.check cap next).cyclesLeft < s.cyclesLeft := by
  unfold check
  split
  · show 0 < s.cyclesLeft
    omega
  · exact h

/-- The run of a code section that is whole words, or is not reached. -/
def Ends (cfg : MemConfig) (b : InitData w) : Prop :=
  (∃ eid, b.Swept cfg eid) → b.WholeWords

theorem Refuses.ends (h : b.Refuses cfg) : b.Ends cfg :=
  fun hswept => (h.resolve_left (fun hn => hn hswept)).1

/-- A cycle makes progress, or waits for what is to come. -/
def Advances (i : InitDataInput) (s s' : InitData w) : Prop :=
  s'.cyclesLeft < s.cyclesLeft
    ∨ ¬ s.fsm.Comes i ∧ s'.cyclesLeft = s.cyclesLeft ∧ s'.fsm = s.fsm

/-- A state that waits. -/
theorem advances_self {i : InitDataInput} (h : ¬ s.fsm.Comes i) : Advances i s s :=
  Or.inr ⟨h, rfl, rfl⟩

theorem advances_idle (hf : s.fsm = .IDLE) (i : InitDataInput) (flushed : Bool)
    (h0 : s.cyclesLeft ≠ 0) : Advances i s (s.drain.act cfg digest i flushed) := by
  cases hv : s.valid with
  | false =>
    refine absurd ?_ h0
    rw [cyclesLeft, hf, hv]
    rfl
  | true =>
    simp only [act, drain_fsm, hf, drain_valid, hv, if_true]
    cases hst : i.isStalled with
    | true =>
      have hno : ¬ s.fsm.Comes i := by
        rw [hf]
        exact fun h => absurd (hst.symm.trans h) (by decide)
      refine Or.inr ⟨hno, ?_, hf.symm⟩
      simp [cyclesLeft, sweepLeft, hf, hv]
    | false =>
      left
      simp [cyclesLeft, sweepLeft, hf, hv]

theorem advances_checkCs1Valid (hfsm : s.fsm = .CHECK_CS1_VALID) (i : InitDataInput)
    (h0 : s.cyclesLeft ≠ 0) : Advances i s (s.checkCs1Valid i) := by
  have hlt : 0 < s.cyclesLeft := Nat.pos_of_ne_zero h0
  unfold checkCs1Valid
  simp only
  split
  · exact Or.inl hlt
  · split
    · left
      split
      · simp [cyclesLeft, sweepLeft, hfsm]
      · exact hlt
    · rename_i hno
      refine advances_self ?_
      rw [hfsm]
      exact hno

theorem cyclesLeft_checkRegs_lt (hfsm : s.fsm = .CHECK_REGS) (hle : s.currentReg ≤ 31) :
    s.checkRegs.cyclesLeft < s.cyclesLeft := by
  have hnext : (if s.currentReg = 31 then { s with fsm := .CHECK_DDC }
      else { s with currentReg := s.currentReg + 1 }).cyclesLeft < s.cyclesLeft := by
    split
    · simp [cyclesLeft, sweepLeft, hfsm]
      omega
    · simp only [cyclesLeft, sweepLeft, hfsm]
      omega
  unfold checkRegs
  simp only
  split
  · exact cyclesLeft_check_lt hnext
  · exact hnext

theorem cyclesLeft_checkScrs_lt (hfsm : s.fsm = .CHECK_SCRS)
    (hlt : s.currentReg < registeredScrs.length) : s.checkScrs.cyclesLeft < s.cyclesLeft := by
  unfold checkScrs
  rw [List.getElem?_eq_getElem hlt]
  refine cyclesLeft_check_lt ?_
  split
  · simp [cyclesLeft, sweepLeft, hfsm]
    omega
  · simp only [cyclesLeft, sweepLeft, hfsm]
    omega

theorem advances_getAddress (hfsm : s.fsm = .GET_ADDRESS) (i : InitDataInput) :
    Advances i s (s.getAddress i) := by
  unfold getAddress
  split
  · left
    split
    · rename_i hscan
      simp [cyclesLeft, sweepLeft, hfsm, hscan]
      omega
    · rename_i hscan
      simp [cyclesLeft, sweepLeft, hfsm, hscan]
  · rename_i hno
    refine advances_self ?_
    rw [hfsm]
    exact hno

theorem advances_loadWord (hfsm : s.fsm = .LOAD_WORD) (i : InitDataInput) :
    Advances i s (s.loadWord cfg i) := by
  unfold loadWord
  split
  · left
    simp only [cyclesLeft, hfsm]
    show 3 + 2 * wordsLeft s.cs1.top (s.currentAddress + 4) < _
    omega
  · rename_i hno
    refine advances_self ?_
    rw [hfsm]
    exact hno

/-- The section is whole words, and so is what is left of it. -/
theorem advances_hashWord (hs : b.Same s) (hwhole : b.WholeWords) (hfsm : s.fsm = .HASH_WORD)
    (hpast : (s.currentAddress - b.cs1.base).toNat % 4 = 0) (i : InitDataInput) :
    Advances i s (s.hashWord i) := by
  unfold hashWord
  split
  · left
    by_cases hlast : s.currentAddress = s.cs1.top
    · rw [if_pos hlast]
      simp only [cyclesLeft, hfsm]
      omega
    · rw [if_neg hlast]
      have h4 : (s.cs1.top - s.currentAddress).toNat % 4 = 0 := by
        have := b.cs1.base.isLt
        have := s.currentAddress.isLt
        unfold WholeWords at hwhole
        rw [BitVec.toNat_sub] at hpast ⊢
        rw [hs.cs1_eq, Capability.toNat_top]
        omega
      have := wordsLeft_add_four h4 hlast
      simp only [cyclesLeft, hfsm]
      show 4 + 2 * wordsLeft s.cs1.top (s.currentAddress + 4) < _
      omega
  · rename_i hno
    refine advances_self ?_
    rw [hfsm]
    exact hno

theorem advances_storeHash (hfsm : s.fsm = .STORE_HASH) (i : InitDataInput)
    (h0 : s.cyclesLeft ≠ 0) : Advances i s (s.storeHash digest i) := by
  unfold storeHash
  simp only
  split
  · left
    split
    · simp [cyclesLeft, hfsm]
    · exact Nat.pos_of_ne_zero h0
  · rename_i hno
    refine advances_self ?_
    rw [hfsm]
    exact hno

/-- **One cycle makes progress, or waits for what is to come.** -/
theorem advances_next (hends : b.Ends cfg) (hi : b.Inv cfg s) (hu : b.Unwritten cfg s)
    (i : InitDataInput) (h0 : s.cyclesLeft ≠ 0) :
    Advances i s ((eInitData cfg digest).next s i) := by
  rw [eInitData_next]
  by_cases hf : s.fsm = .IDLE
  · exact advances_idle hf i _ h0
  have hwb := hi.wb_eq_none hf
  rw [drain_eq_self hwb]
  cases hfsm : s.fsm with
  | IDLE => exact absurd hfsm hf
  | CHECK_CS1_VALID =>
    simp only [act, hfsm]
    exact advances_checkCs1Valid hfsm i h0
  | START =>
    left
    simp [act, cyclesLeft, sweepLeft, hfsm]
  | CLAIM_PIPELINE =>
    left
    simp [act, cyclesLeft, sweepLeft, hfsm, hwb]
  | CHECK_REGS =>
    simp only [Inv, hfsm] at hi
    simp only [act, hfsm]
    exact Or.inl (cyclesLeft_checkRegs_lt hfsm hi.2.2.2.2)
  | CHECK_DDC =>
    left
    simp only [act, hfsm]
    refine cyclesLeft_check_lt ?_
    simp [cyclesLeft, sweepLeft, hfsm]
  | CHECK_PCC =>
    left
    simp only [act, hfsm]
    refine cyclesLeft_check_lt ?_
    simp [cyclesLeft, sweepLeft, hfsm, registeredScrs]
  | CHECK_SCRS =>
    simp only [Inv, hfsm] at hi
    simp only [act, hfsm]
    exact Or.inl (cyclesLeft_checkScrs_lt hfsm hi.2.2.2.2.2.2.2)
  | GET_ADDRESS =>
    simp only [act, hfsm]
    exact advances_getAddress hfsm i
  | GET_CAP =>
    simp only [act, hfsm]
    split
    · left
      refine cyclesLeft_check_lt ?_
      simp [cyclesLeft, sweepLeft, hfsm]
    · rename_i hno
      refine advances_self ?_
      rw [hfsm]
      exact hno
  | HASH_START =>
    left
    have := wordsLeft_lt s.cs1.top (s.cs1.base + 4)
    simp only [act, hfsm, cyclesLeft]
    show 4 + 2 * wordsLeft s.cs1.top (s.cs1.base + 4) < _
    omega
  | LOAD_WORD =>
    simp only [act, hfsm]
    exact advances_loadWord hfsm i
  | HASH_WORD =>
    simp only [Inv, hfsm] at hi
    simp only [Unwritten, hfsm] at hu
    simp only [act, hfsm]
    exact advances_hashWord hi.1 (hends ⟨_, hi.2⟩) hfsm hu.2 i
  | STORE_HASH =>
    simp only [act, hfsm]
    exact advances_storeHash hfsm i h0
  | STORE_SEAL =>
    simp only [act, hfsm, storeSeal]
    split
    · exact Or.inl (Nat.pos_of_ne_zero h0)
    · rename_i hno
      refine advances_self ?_
      rw [hfsm]
      exact hno

/-! ## Whole runs -/

theorem Starts.unwritten (hs : s.Starts) : s.drain.Unwritten cfg s := by
  simp only [Unwritten, hs.1]
  exact Or.inl hs.2

theorem ScanInMemory.drain (h : s.ScanInMemory cfg) : s.drain.ScanInMemory cfg := by
  unfold ScanInMemory
  rw [drain_scan]
  exact h

/-- **As long as no run stores the seals, nothing is written.** -/
theorem unwritten_stateAt (hs : s.Starts) (hscan : s.ScanInMemory cfg)
    {env : ℕ → InitDataInput}
    (hns : ∀ n, ¬ ((eInitData cfg digest).stateAt s env n).StoresSeals (env n)) (n : ℕ) :
    s.drain.Inv cfg ((eInitData cfg digest).stateAt s env n)
      ∧ s.drain.Unwritten cfg ((eInitData cfg digest).stateAt s env n) := by
  have hstep : ∀ t i, (s.drain.Inv cfg t ∧ s.drain.Unwritten cfg t) → ¬ t.StoresSeals i →
      s.drain.Inv cfg ((eInitData cfg digest).next t i)
        ∧ s.drain.Unwritten cfg ((eInitData cfg digest).next t i) :=
    fun t i ht hns => ⟨inv_next ht.1 i, unwritten_next hscan.drain ht.1 ht.2 hns⟩
  exact (eInitData cfg digest).stateAt_invariant hstep ⟨hs.inv, hs.unwritten⟩ hns n

/-- A run that is refused does not store the seals. -/
theorem Refuses.not_storesSeals (hr : b.Refuses cfg) (hi : b.Inv cfg s)
    (hu : b.Unwritten cfg s) (i : InitDataInput) : ¬ s.StoresSeals i := by
  rintro ⟨hfsm, -⟩
  simp only [Inv, hfsm] at hi
  simp only [Unwritten, hfsm] at hu
  exact hr.elim (fun hn => hn ⟨_, hi.2⟩) (fun hn => hn.2 hu.2)

theorem Refuses.unwritten_stateAt (hr : s.drain.Refuses cfg) (hs : s.Starts)
    (hscan : s.ScanInMemory cfg) (env : ℕ → InitDataInput) (n : ℕ) :
    s.drain.Inv cfg ((eInitData cfg digest).stateAt s env n)
      ∧ s.drain.Unwritten cfg ((eInitData cfg digest).stateAt s env n) := by
  induction n with
  | zero => exact ⟨hs.inv, hs.unwritten⟩
  | succ n ih =>
    exact ⟨inv_next ih.1 _,
      unwritten_next hscan.drain ih.1 ih.2 (hr.not_storesSeals ih.1 ih.2 _)⟩

/-- No cycles are left of an instruction that has left the stage. -/
theorem left_of_cyclesLeft_eq_zero (h : s.cyclesLeft = 0) :
    s.fsm = .IDLE ∧ s.valid = false := by
  unfold cyclesLeft at h
  split at h
  case h_1 hf =>
    refine ⟨hf, ?_⟩
    cases hv : s.valid with
    | true =>
      rw [hv, if_pos rfl] at h
      omega
    | false => rfl
  all_goals omega

/-- **A run that is refused retires.** -/
theorem Refuses.exists_retired (hr : s.drain.Refuses cfg) (hs : s.Starts)
    (hscan : s.ScanInMemory cfg) {env : ℕ → InitDataInput} (henv : Answers env) :
    ∃ n, ((eInitData cfg digest).stateAt s env n).Retired := by
  have hstep : ∀ t i, (s.drain.Inv cfg t ∧ s.drain.Unwritten cfg t) → True → t.cyclesLeft ≠ 0 →
      ((eInitData cfg digest).next t i).cyclesLeft < t.cyclesLeft
        ∨ ¬ t.fsm.Comes i ∧ ((eInitData cfg digest).next t i).cyclesLeft ≤ t.cyclesLeft
          ∧ ((eInitData cfg digest).next t i).fsm = t.fsm := by
    intro t i ht _ h0
    exact (advances_next hr.ends ht.1 ht.2 i h0).imp_right fun h => ⟨h.1, h.2.1.le, h.2.2⟩
  obtain ⟨n, hn⟩ := (eInitData cfg digest).exists_measure_eq_zero_of_fair hstep
    (hr.unwritten_stateAt hs hscan env) (fun _ => trivial) henv
  obtain ⟨hf, hv⟩ := left_of_cyclesLeft_eq_zero hn
  -- one more cycle, for the write-back of the result
  refine ⟨n + 1, ?_⟩
  rw [SyncMachine.stateAt_succ, eInitData_next]
  simp only [act, drain_fsm, hf, drain_valid, hv, Bool.false_eq_true, if_false]
  exact ⟨(drain_fsm _).trans hf, (drain_valid _).trans hv, drain_wb _⟩

/-- What is not written when an instruction has retired, or is about to. -/
theorem Unwritten.left (h : b.Unwritten cfg s) (hf : s.fsm = .IDLE) (hv : s.valid = false) :
    b.Refuses cfg ∧ s.drain.cap = b.cap.write (.reg b.rd) .null
      ∧ s.mem = b.mem ∧ ∀ ws, s.wb = some ws → ws = [⟨.reg s.rd, b.cs2, .null⟩] := by
  simp only [Unwritten, hf, hv, Bool.false_eq_true, false_or] at h
  exact h

end

end InitData

/-- **`EInitData` writes only what its data capability authorises exactly when
that capability authorises the store of the seals, or the operands are
refused.** -/
theorem eInitData_writesAuthorised_iff {w : ℕ} (cfg : MemConfig) (digest : List Word → Digest)
    (s : InitData w) (env : ℕ → InitDataInput) (hs : s.Starts) (hscan : s.ScanInMemory cfg)
    (henv : InitData.Answers env) :
    s.WritesAuthorised cfg digest env ↔ s.drain.DataAuthorises ∨ s.drain.Refuses cfg := by
  constructor
  · intro h
    by_cases hd : s.drain.DataAuthorises
    · exact Or.inl hd
    · right
      have hun := InitData.unwritten_stateAt hs hscan (fun n hn => hd (h.stores n hn))
      obtain ⟨n, hr, -, -⟩ := h.refuses hd
      exact ((hun n).2.left hr.1 hr.2.1).1
  · rintro (hd | hr)
    · exact ⟨fun _ _ => hd, fun _ _ _ _ => hd, fun hn => absurd hd hn⟩
    · have hun : ∀ n, s.drain.Inv cfg ((eInitData cfg digest).stateAt s env n)
          ∧ s.drain.Unwritten cfg ((eInitData cfg digest).stateAt s env n) :=
        hr.unwritten_stateAt hs hscan env
      refine ⟨fun n hn => ?_, fun n cd hret htag => ?_, fun _ => ?_⟩
      · exact absurd hn (hr.not_storesSeals (hun n).1 (hun n).2 _)
      · -- the result of a run that is refused is null
        obtain ⟨hf, hv, source, hwb⟩ := hret
        have hws := ((hun n).2.left hf hv).2.2.2 _ hwb
        have hcd : cd = .null := (CapWrite.mk.inj (List.singleton_inj.1 hws)).2.2
        rw [hcd] at htag
        cases htag
      · obtain ⟨n, hret⟩ : ∃ n, ((eInitData cfg digest).stateAt s env n).Retired :=
          hr.exists_retired hs hscan henv
        obtain ⟨-, hcap, hmem, -⟩ := (hun n).2.left hret.1 hret.2.1
        rw [InitData.drain_eq_self hret.2.2, InitData.drain_rd] at hcap
        rw [InitData.drain_mem] at hmem
        exact ⟨n, hret, hcap, hmem⟩

namespace InitData

/-- The small enclave, with any capability for its data operand. -/
def smallWith (data : Capability) : InitData 4 :=
  { small 2 with
    wb := some [⟨.reg 2, data, data⟩] }

/-- Every unit answers at once, for ever. -/
def promptRun : ℕ → InitDataInput := fun _ => ⟨false, true, true, true, true, 0⟩

theorem answers_promptRun : InitData.Answers promptRun := by
  intro fsm n
  refine ⟨n, le_refl n, ?_⟩
  cases fsm <;> first | rfl | trivial

/-- Data nobody has a capability for: the tag of the operand is clear. -/
def forgedData : Capability :=
  { smallData with
    tag := false }

theorem smallWith_starts (data : Capability) : (smallWith data).Starts := ⟨rfl, rfl⟩

theorem smallWith_scanInMemory (data : Capability) :
    (smallWith data).ScanInMemory smallMemory := fun _ ha => absurd ha List.not_mem_nil

theorem smallWith_dataAuthorises : (smallWith smallData).drain.DataAuthorises :=
  ⟨by decide, by decide, by decide, by decide, by decide, by decide⟩

end InitData

open InitData in
/-- The data section of the small enclave is written on its capability's authority. -/
theorem smallWith_writesAuthorised :
    (smallWith smallData).WritesAuthorised smallMemory lastWords promptRun :=
  (eInitData_writesAuthorised_iff smallMemory lastWords (smallWith smallData) promptRun
    (smallWith_starts smallData) (smallWith_scanInMemory smallData) answers_promptRun).2
    (Or.inl smallWith_dataAuthorises)

open InitData in
/-- **A forged data capability is written through.** Its tag is clear, and the
seals of the enclave are stored at its base all the same. -/
theorem smallWith_forgedData_not_writesAuthorised :
    let s := smallWith forgedData
    s.Starts ∧ s.ScanInMemory smallMemory ∧ InitData.Answers promptRun ∧ s.drain.cs2 = forgedData
      ∧ (((eInitData smallMemory lastWords).stateAt s promptRun 48).mem.capAt smallMemory 1).tag
          = true
      ∧ ¬ s.WritesAuthorised smallMemory lastWords promptRun := by
  refine ⟨smallWith_starts _, smallWith_scanInMemory _, answers_promptRun, by decide,
    by decide +kernel, fun h => ?_⟩
  have htag := (h.stores 46 ⟨by decide +kernel, rfl⟩).tag
  exact absurd htag (by decide)

end Proteus
