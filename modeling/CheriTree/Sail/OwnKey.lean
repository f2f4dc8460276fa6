import CheriTree.Sail.KeyStore
import CheriTree.Sail.StoreId

/-!
# An enclave and its own key

`EInitData` stores the key of the enclave where the data capability points, and
hands that capability out sealed and moved to its base. An enclave that loads
from where its data capability points finds the key if these are one place in
memory: without translation, if the data capability was at its base already.
-/

namespace Sail

open Prog

variable {f : CapFormat} {p : Platform f} {s s' : State f}

/-! ## Reading back -/

/-- The bytes of a number that was written. -/
theorem bytesToNat_of_bytes {mem : ℕ → BitVec 8} {addr n v : ℕ}
    (h : ∀ j < n, (mem (addr + j)).toNat = v / 256 ^ j % 256) :
    bytesToNat mem addr n = v % 256 ^ n := by
  induction n generalizing addr v with
  | zero => rw [bytesToNat, pow_zero, Nat.mod_one]
  | succ n ih =>
    have hfirst := h 0 (Nat.succ_pos n)
    rw [Nat.add_zero, pow_zero, Nat.div_one] at hfirst
    have hrest : bytesToNat mem (addr + 1) n = v / 256 % 256 ^ n := by
      refine ih fun j hj => ?_
      rw [Nat.add_assoc, Nat.add_comm 1 j, h (j + 1) (by omega), pow_succ', Nat.div_div_eq_div_mul]
    rw [bytesToNat, hfirst, hrest, pow_succ', Nat.mod_mul]

/-- **What is written is read back.** -/
theorem readMem_writeMem (mem : ℕ → BitVec 8) (addr n : ℕ) (data : BitVec (8 * n)) :
    readMem (writeMem mem addr n data) addr n = data := by
  have hpow : 2 ^ (8 * n) = 256 ^ n := by
    rw [pow_mul]
    rfl
  apply BitVec.eq_of_toNat_eq
  rw [readMem, BitVec.toNat_ofNat, bytesToNat_of_bytes (v := data.toNat), hpow, Nat.mod_mod,
    Nat.mod_eq_of_lt (by rw [← hpow]; exact data.isLt)]
  intro j hj
  rw [writeMem, if_pos (by omega), Nat.add_sub_cancel_left, BitVec.extractLsb'_toNat,
    Nat.shiftRight_eq_div_pow, pow_mul]
  rfl

/-- A capability that was written to memory is read back, if it survives its
encoding. -/
theorem State.capAt_writeRam {addr : BitVec f.xlen} {c : Capability f}
    (hal : addr.toNat % f.capSize = 0)
    (hround : Capability.memBitsToCapability c.tag c.capToMemBits = c) :
    (s.writeRam addr f.capSize c.capToMemBits c.tag).capAt addr = c := by
  have htag : (s.writeRam addr f.capSize c.capToMemBits c.tag).tags (tagAddr addr) = c.tag := by
    show writeTags s.tags addr f.capSize c.tag (tagAddr addr) = c.tag
    rw [writeTags, tagAddr_last hal, Function.update_self]
  rw [capAt, htag]
  show Capability.memBitsToCapability c.tag (readMem (writeMem _ _ _ _) _ _) = c
  rw [readMem_writeMem, hround]

/-! ## The load -/

/-- **A capability load gives** the capability: the address is aligned, and
with the authority to load capabilities it is what comes back. -/
def LoadsCap (p : Platform f) (s : State f) (vaddr : BitVec f.xlen) (c : Capability f) : Prop :=
  isAlignedAddr vaddr f.capSize = true
    ∧ ∀ auth : Capability f, auth.permitLoadCap = true →
      loadCapNoreg p auth vaddr s = .ok (some c, s)

/-- **Where a capability load goes**: the granule of memory behind the virtual
address, if capabilities can be loaded from there. -/
structure LoadsFrom (p : Platform f) (s : State f) (vaddr addr : BitVec f.xlen) : Prop where
  translates : ∃ ptw, translateAddr p vaddr (.Read .Cap) s = .ok (.TR_Address addr ptw, s)
    ∧ ptw.lcClear = false
  allowed : pmpGuard p (.Read .Data) addr f.capSize s = .ok (none, s)
  noDevice : p.withinMmioReadable addr f.capSize = false
  memory : p.withinPhysMem addr f.capSize = true

/-- **A read of a capability** that keeps its tag is from memory. -/
theorem memReadCap_iff {addr : BitVec f.xlen} {c : Capability f} (htag : c.tag = true) :
    memReadCap p addr s = .ok (.ok c, s)
      ↔ pmpGuard p (.Read .Data) addr f.capSize s = .ok (none, s)
        ∧ p.withinMmioReadable addr f.capSize = false ∧ p.withinPhysMem addr f.capSize = true
        ∧ s.capAt addr = c := by
  constructor
  · intro h
    obtain ⟨result, u, hmeta, hend⟩ := Prog.bind_eq_ok.1 h
    obtain ⟨hc, rfl⟩ := pure_eq_ok.1 hend
    obtain ⟨guard, u, hguard, hrest⟩ := Prog.bind_eq_ok.1 hmeta
    obtain rfl := silent_pmpGuard _ _ _ _ _ _ hguard
    cases guard with
    | some e =>
      obtain ⟨rfl, -⟩ := pure_eq_ok.1 hrest
      cases hc
    | none =>
      obtain ⟨v, w, hget, hread⟩ := Prog.bind_eq_ok.1 hrest
      obtain ⟨rfl, rfl⟩ := get_eq_ok.1 hget
      obtain ⟨rfl, -⟩ := pure_eq_ok.1 hread
      unfold checkedMemRead at hc
      split at hc
      · -- what a device gives has no tag
        cases hdev : p.mmioRead u.dev (.Read .Data) addr f.capSize with
        | error e =>
          rw [hdev] at hc
          cases hc
        | ok v =>
          rw [hdev] at hc
          have hc' : Capability.memBitsToCapability false v = c := Except.ok.inj hc
          rw [← hc'] at htag
          cases htag
      · rename_i hmmio
        split at hc
        · rename_i hmem
          exact ⟨hguard, Bool.eq_false_iff.2 hmmio, hmem, Except.ok.inj hc⟩
        · cases hc
  · rintro ⟨hguard, hmmio, hmem, rfl⟩
    refine Prog.bind_eq_ok.2
      ⟨.ok (readMem s.mem addr.toNat f.capSize, s.tags (tagAddr addr)), s, ?_,
      pure_eq_ok.2 ⟨rfl, rfl⟩⟩
    refine Prog.bind_eq_ok.2 ⟨none, s, hguard, ?_⟩
    refine Prog.bind_eq_ok.2 ⟨s, s, get_eq_ok.2 ⟨rfl, rfl⟩, pure_eq_ok.2 ⟨?_, rfl⟩⟩
    rw [checkedMemRead, hmmio, if_neg Bool.false_ne_true, if_pos hmem, Bool.true_and]

/-- **A load gives a tagged capability** if it is in memory where the load
goes. -/
theorem loadsCap_iff (hwalk : p.WalkReads) {vaddr : BitVec f.xlen} {c : Capability f}
    (htag : c.tag = true) :
    LoadsCap p s vaddr c ↔ isAlignedAddr vaddr f.capSize = true
      ∧ ∃ addr, LoadsFrom p s vaddr addr ∧ s.capAt addr = c := by
  refine and_congr_right fun _ => ?_
  constructor
  · intro h
    obtain ⟨tr, u, htr, hrest⟩ := Prog.bind_eq_ok.1 (h (.defaultCap f) rfl)
    obtain rfl := silent_translateAddr hwalk _ _ _ _ _ htr
    cases tr with
    | TR_Failure e ptw =>
      cases e with
      | E_Extension e => exact absurd hrest throw_ne_ok
      | _ => exact absurd hrest noneWith_ne_some
    | TR_Address addr ptw =>
      obtain ⟨r, w, hread, hend⟩ := Prog.bind_eq_ok.1 hrest
      cases r with
      | error e => exact absurd hend noneWith_ne_some
      | ok v =>
        obtain ⟨hv, rfl⟩ := pure_eq_ok.1 hend
        have hv' := Option.some.inj hv
        rw [← hv'] at htag
        simp only [Bool.and_eq_true, Bool.not_eq_true'] at htag
        obtain ⟨⟨hlc, hvtag⟩, hperm⟩ := htag
        have hvc : v = c := by
          rw [← hv', hlc, hvtag, hperm]
          show v = { v with tag := true }
          rw [← hvtag]
        subst hvc
        obtain ⟨hguard, hmmio, hmem, hc⟩ := (memReadCap_iff hvtag).1 hread
        exact ⟨addr, ⟨⟨ptw, htr, hlc⟩, hguard, hmmio, hmem⟩, hc⟩
  · rintro ⟨addr, hfrom, hc⟩ auth hauth
    obtain ⟨ptw, htr, hlc⟩ := hfrom.translates
    refine Prog.bind_eq_ok.2 ⟨_, _, htr, ?_⟩
    have hread := (memReadCap_iff htag).2 ⟨hfrom.allowed, hfrom.noDevice, hfrom.memory, hc⟩
    refine Prog.bind_eq_ok.2 ⟨_, _, hread, pure_eq_ok.2 ⟨?_, rfl⟩⟩
    rw [hlc, hauth, Bool.not_false, Bool.true_and, Bool.and_true]

/-! ## The state that `EInitData` leaves -/

/-- **The page table walk does not look at the registers.** -/
def Platform.WalkIgnoresRegisters (p : Platform f) : Prop :=
  ∀ mode vAddr ac priv (s : State f) x r, p.walk mode vAddr ac priv s = .ok (r, s) →
    p.walk mode vAddr ac priv { s with x := x } = .ok (r, { s with x := x })

/-- The translation does not look at the registers. -/
theorem translateAddr_regs (hregs : p.WalkIgnoresRegisters) {vAddr : BitVec f.xlen}
    {ac : AccessType} {r : TRResult f.xlen} (x : ℕ → Capability f)
    (h : translateAddr p vAddr ac s = .ok (r, s)) :
    translateAddr p vAddr ac { s with x := x } = .ok (r, { s with x := x }) :=
  translateAddr_update (g := fun s => { s with x := x }) rfl (fun _ => rfl)
    (fun _ _ hw => hregs _ _ _ _ _ _ _ hw) h

theorem LoadsFrom.table (hwalk : p.WalkReads) {vaddr addr : BitVec f.xlen} (t : ETable f)
    (h : LoadsFrom p s vaddr addr) : LoadsFrom p { s with etable := t } vaddr addr := by
  obtain ⟨ptw, htr, hlc⟩ := h.translates
  exact ⟨⟨ptw, translateAddr_table hwalk t htr, hlc⟩, pmpGuard_table t h.allowed, h.noDevice,
    h.memory⟩

theorem LoadsFrom.regs (hregs : p.WalkIgnoresRegisters) {vaddr addr : BitVec f.xlen}
    (x : ℕ → Capability f) (h : LoadsFrom p s vaddr addr) :
    LoadsFrom p { s with x := x } vaddr addr := by
  obtain ⟨ptw, htr, hlc⟩ := h.translates
  exact ⟨⟨ptw, translateAddr_regs hregs x htr, hlc⟩,
    pmpGuard_update (g := fun s => { s with x := x }) rfl rfl h.allowed, h.noDevice,
    h.memory⟩

/-- A load does not look at the registers. -/
theorem loadsFrom_wC (hregs : p.WalkIgnoresRegisters) {vaddr addr : BitVec f.xlen} (r : RegIdx)
    (v : Capability f) : LoadsFrom p (s.wC r v) vaddr addr ↔ LoadsFrom p s vaddr addr := by
  unfold State.wC
  split
  · rfl
  · exact ⟨fun h => h.regs hregs s.x, fun h => h.regs hregs _⟩

/-! ## The key at the base -/

/-- **The base of the section is where the key goes**: with the key stored where
the data capability points, a capability load at its base goes to the same
granule, or to one that held the key before. -/
def KeyAtBase (p : Platform f) (s : State f) (key data : Capability f) : Prop :=
  isAlignedAddr data.getCapBaseBits f.capSize = true
    ∧ ∃ place t, StoresAt p s key data.address place t
      ∧ ∃ addr, LoadsFrom p t data.getCapBaseBits addr ∧ (addr = place ∨ s.capAt addr = key)

/-- **An enclave finds its own key**: its sealed capabilities have the object
type of entry points, and a load from where the data capability points gives
the key. -/
structure FindsOwnKey (p : Platform f) (s' : State f) (cs1 cd : RegIdx)
    (eid : BitVec (f.ow - 2)) : Prop where
  codeType : (s'.rC cs1).otype.toNat = 4 * eid.toNat + 2
  dataType : (s'.rC cd).otype.toNat = 4 * eid.toNat + 2
  made : makeKey (4 * eid.toNat) 4 s' = .ok (enclaveKey eid, s')
  bounds : (enclaveKey eid : Capability f).getCapBounds = (4 * eid.toNat, 4 * eid.toNat + 4)
  cursor : (enclaveKey eid : Capability f).address.toNat = 4 * eid.toNat
  loads : LoadsCap p s' (s'.rC cd).address (enclaveKey eid)

/-- A capability store goes to one place. -/
theorem StoresAt.unique {key : Capability f} {vaddr addr addr' : BitVec f.xlen} {t t' : State f}
    (h : StoresAt p s key vaddr addr t) (h' : StoresAt p s key vaddr addr' t') :
    addr' = addr ∧ t' = t := by
  obtain ⟨⟨ptw, htr⟩, -, -, hmem⟩ := h
  obtain ⟨⟨ptw', htr'⟩, -, -, hmem'⟩ := h'
  have haddr : addr' = addr := by
    have := htr'.symm.trans htr
    simp only [Except.ok.injEq, Prod.mk.injEq, TRResult.TR_Address.injEq, and_true] at this
    exact this.1
  subst haddr
  exact ⟨rfl, Except.ok.inj (hmem'.symm.trans hmem)⟩

/-- **What a granule holds after the store**: the key where it was stored, and
what it held before elsewhere. -/
theorem StoresAt.capAt_iff {key : Capability f} {vaddr place addr : BitVec f.xlen} {t : State f}
    (hround : Capability.memBitsToCapability key.tag key.capToMemBits = key)
    (h : StoresAt p s key vaddr place t) (hal : addr.toNat % f.capSize = 0)
    (hdev : p.withinMmioReadable addr f.capSize = false) :
    t.capAt addr = key ↔ addr = place ∨ s.capAt addr = key := by
  obtain ⟨-, hplace, -, hmem⟩ := h
  have hplace' : place.toNat % f.capSize = 0 := of_decide_eq_true hplace
  by_cases heq : addr = place
  · subst heq
    have hnodev : p.withinMmioWritable addr f.capSize = false := by
      have hpos : 1 ≤ f.capSize := f.capSize_pos
      simp only [Platform.withinMmioReadable, Bool.or_eq_false_iff, hpos, decide_true,
        Bool.and_true] at hdev
      simp only [Platform.withinMmioWritable, hdev.1, hdev.2, Bool.false_and, Bool.or_false]
    unfold checkedMemWrite at hmem
    rw [hnodev, if_neg Bool.false_ne_true] at hmem
    split at hmem
    · obtain rfl := Except.ok.inj hmem
      exact ⟨fun _ => Or.inl rfl, fun _ => State.capAt_writeRam hal hround⟩
    · cases hmem
  · rw [((checkedMemWrite_frame hplace' hmem).granule hplace' hal heq).2]
    exact ⟨Or.inr, fun h => h.resolve_left heq⟩

/-- **A load at the base, after the store**, gives the key where the base is the
place of the key. -/
theorem loadsCap_iff_keyAtBase (hwalk : p.WalkReads) (hregs : p.WalkIgnoresRegisters)
    (hoff : p.WalkKeepsOffset) (hsize : f.capSize ∣ 64) {key data v : Capability f} (cd : RegIdx)
    {place : BitVec f.xlen} {etable : ETable f} {t : State f} (htag : key.tag = true)
    (hround : Capability.memBitsToCapability key.tag key.capToMemBits = key)
    (hat : StoresAt p { s with etable := etable } key data.address place t) :
    LoadsCap p (t.wC cd v) data.getCapBaseBits key ↔ KeyAtBase p s key data := by
  rw [loadsCap_iff hwalk htag]
  refine and_congr_right fun hal => ?_
  have hal' : data.getCapBaseBits.toNat % f.capSize = 0 := of_decide_eq_true hal
  have haligned : ∀ {addr}, LoadsFrom p t data.getCapBaseBits addr →
      addr.toNat % f.capSize = 0 := by
    intro addr hfrom
    obtain ⟨ptw, htr, -⟩ := hfrom.translates
    have hmod := hoff.translateAddr htr
    rw [← Nat.mod_mod_of_dvd _ hsize, hmod, Nat.mod_mod_of_dvd _ hsize, hal']
  have hcap : ∀ addr, (t.wC cd v).capAt addr = t.capAt addr := by
    intro addr
    rw [State.capAt, State.capAt, State.wC_mem, State.wC_tags]
  have hback : StoresAt p s key data.address place { t with etable := s.etable } :=
    hat.table hwalk s.etable
  constructor
  · rintro ⟨addr, hfrom, hc⟩
    rw [loadsFrom_wC hregs] at hfrom
    rw [hcap, hat.capAt_iff hround (haligned hfrom) hfrom.noDevice] at hc
    exact ⟨place, _, hback, addr, hfrom.table hwalk s.etable, hc⟩
  · rintro ⟨place', t', hat', addr, hfrom, hc⟩
    obtain ⟨rfl, rfl⟩ := hback.unique hat'
    have hfrom' : LoadsFrom p t data.getCapBaseBits addr := hfrom.table hwalk t.etable
    refine ⟨addr, (loadsFrom_wC hregs cd v).2 hfrom', ?_⟩
    rw [hcap, hat.capAt_iff hround (haligned hfrom') hfrom'.noDevice]
    exact hc

/-- The object type of an entry point. -/
theorem toNat_of_entry {otype : BitVec f.ow} (h : otype.toNat % 4 = 2) :
    otype.toNat = 4 * (otypeToEid otype).toNat + 2 := by
  have how := f.ow_ge
  have hlt := otype.isLt
  have hsplit : 2 ^ f.ow = 4 * 2 ^ (f.ow - 2) := by
    rw [show (4 : ℕ) = 2 ^ 2 from rfl, ← pow_add]
    congr 1
    omega
  rw [otypeToEid, BitVec.toNat_setWidth, BitVec.toNat_ushiftRight, Nat.shiftRight_eq_div_pow,
    Nat.mod_eq_of_lt (Nat.div_lt_of_lt_mul (by omega))]
  omega

/-- **An enclave that `EInitData` has made finds its own key** if and only if
the base of its section is where the key was stored. -/
theorem executeEInitData_findsOwnKey_iff (p : Platform f) (hwalk : p.WalkReads)
    (hregs : p.WalkIgnoresRegisters) (hoff : p.WalkKeepsOffset) (hf : f.ow ≤ f.xlen)
    (hsize : f.capSize ∣ 64) (fuel : ℕ) (cd cs1 cs2 : RegIdx) (s s' : State f)
    (h : executeEInitData p fuel cd cs1 cs2 s = .ok (.RETIRE_SUCCESS, s')) :
    FindsOwnKey p s' cs1 cd (otypeToEid (s.rC cs1).otype)
      ↔ KeyAtBase p s (enclaveKey (otypeToEid (s.rC cs1).otype)) (s.rC cs2) := by
  cases executeEInitData_ends hwalk h with
  | @committed id etable _ _ hcommit htable hfin =>
    obtain ⟨hr, -⟩ | ⟨-, -, hround, place, t, hat, rfl⟩ := finishData_cases hwalk hf
      hcommit.checks.dataTag hcommit.checks.dataUnsealed hcommit.checks.permitStore hfin
    · cases hr
    obtain rfl := hcommit.checks.linear
    set key := (enclaveKey (otypeToEid (s.rC cs1).otype) : Capability f)
    set data := s.rC cd
    set base := data.getCapBaseBits
    have hcd : ((t.wC cd ((data.setCapOffset 0).2.sealCap (s.rC cs1).otype)).rC cd)
        = (data.setCapOffset 0).2.sealCap (s.rC cs1).otype :=
      State.rC_wC_self _ _ (State.ne_zero_of_tag hcommit.checks.dataTag)
    have hcs1 : ((t.wC cd ((data.setCapOffset 0).2.sealCap (s.rC cs1).otype)).rC cs1)
        = s.rC cs1 := by
      have hne : cs1 ≠ cd := by
        rintro rfl
        exact absurd (hcommit.checks.codeSealed.symm.trans hcommit.checks.dataUnsealed) (by decide)
      have hx : t.x = s.x := (congrArg State.x (checkedMemWrite_rest hat.2.2.2) :)
      rw [State.rC_wC_of_ne _ _ hne, State.rC, State.rC, hx]
    have haddr : ((data.setCapOffset 0).2.sealCap (s.rC cs1).otype).address = base :=
      BitVec.add_zero _
    have hotype := toNat_of_entry hcommit.checks.entry
    have hloads := loadsCap_iff_keyAtBase (v := (data.setCapOffset 0).2.sealCap (s.rC cs1).otype)
      hwalk hregs hoff hsize cd rfl hround hat
    constructor
    · intro hfinds
      have hl := hfinds.loads
      rw [hcd, haddr] at hl
      exact hloads.1 hl
    · intro hbase
      refine ⟨by rw [hcs1, hotype], by rw [hcd]; exact hotype, ?_, getCapBounds_enclaveKey hf _,
        toNat_address_enclaveKey hf _, ?_⟩
      · rw [makeKey_eq hf]
        rfl
      · rw [hcd, haddr]
        exact hloads.2 hbase

/-- The key of the first enclave, stored at the base of its section. -/
theorem keyAtBase_smallState :
    KeyAtBase smallPlatform smallState (enclaveKey 0) (smallState.rC 2) := by
  have hbare := untranslated_of_machine (s := smallState) rfl rfl
  refine ⟨by decide +kernel, 0x80000020, _, ⟨⟨_, hbare.translateAddr _ _ _⟩, by decide +kernel, rfl,
    rfl⟩, 0x80000020, ⟨⟨initExtPtw, ?_, rfl⟩, rfl, rfl, rfl⟩,
    Or.inl rfl⟩
  exact (untranslated_of_machine rfl rfl).translateAddr _ _ _

/-- The small machine finishes its enclave, and the key is where it should
be. -/
theorem smallState_findsOwnKey :
    ∃ s', executeEInitData smallPlatform 16 2 1 2 smallState = .ok (.RETIRE_SUCCESS, s')
      ∧ FindsOwnKey smallPlatform s' 1 2 0 := by
  obtain ⟨s', hrun⟩ := exists_ok_of_map_fst (a := .RETIRE_SUCCESS)
    (show (executeEInitData smallPlatform 16 2 1 2 smallState).toOption.map Prod.fst = _ by
      decide +kernel)
  refine ⟨s', hrun, (executeEInitData_findsOwnKey_iff smallPlatform smallPlatform_walkReads
    (fun _ _ _ _ _ _ _ h => absurd h throw_ne_ok) (fun _ _ _ _ _ _ _ _ h => absurd h throw_ne_ok)
    (by decide) (by decide) 16 2 1 2 smallState s' hrun).2 keyAtBase_smallState⟩

/-- The small machine with a data capability that points past its base. -/
def offsetState : State .cheri64 :=
  { smallState with
    x := fun r => if r = 2 then (smallState.x 2).withAddress 0x80000028 else smallState.x r }

/-- **The key is not at the base**: the enclave is made, and a load from where
its data capability points gives what was in memory before. -/
theorem offsetState_not_findsOwnKey :
    ∃ s', executeEInitData smallPlatform 16 2 1 2 offsetState = .ok (.RETIRE_SUCCESS, s')
      ∧ ¬ FindsOwnKey smallPlatform s' 1 2 0 := by
  obtain ⟨s', hrun⟩ := exists_ok_of_map_fst (a := .RETIRE_SUCCESS)
    (show (executeEInitData smallPlatform 16 2 1 2 offsetState).toOption.map Prod.fst = _ by
      decide +kernel)
  refine ⟨s', hrun, fun hfinds => ?_⟩
  have hload := hfinds.loads.2 (.defaultCap _) rfl
  have hfound : ((executeEInitData smallPlatform 16 2 1 2 offsetState).toOption.bind fun r =>
      (loadCapNoreg smallPlatform (.defaultCap _) (r.2.rC 2).address r.2).toOption.map
        fun v => v.1.map Capability.tag) = some (some false) := by
    decide +kernel
  rw [hrun] at hfound
  simp only [Except.toOption, Option.bind_some, hload, Option.map_some] at hfound
  cases hfound

end Sail
