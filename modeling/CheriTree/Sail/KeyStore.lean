import CheriTree.Sail.Key
import CheriTree.Sail.Outcomes

/-!
# The key in memory

The last part of `EInitData` stores the key where the data capability points,
and not where it will point once it is sealed. Whether the store goes through is
for the data capability and for the memory to say (`KeyFits`): the permission to
store capabilities, the bounds and the alignment of the address, and a place in
memory that takes the write.
-/

namespace Sail

open Prog

variable {f : CapFormat} {p : Platform f} {s s' : State f}

/-- **Where a capability store goes**: the address behind the virtual one, if
the memory takes the capability there. -/
def StoresAt (p : Platform f) (s : State f) (key : Capability f)
    (vaddr addr : BitVec f.xlen) (s' : State f) : Prop :=
  (∃ ptw, translateAddr p vaddr (.Write .Cap) s = .ok (.TR_Address addr ptw, s))
    ∧ isAlignedAddr addr f.capSize = true
    ∧ pmpGuard p (.Write .Cap) addr f.capSize s = .ok (none, s)
    ∧ checkedMemWrite p s addr f.capSize key.capToMemBits key.tag = .ok s'

/-- **The key of an enclave can be stored** through its data capability, where
that points. -/
structure KeyFits (p : Platform f) (s : State f) (key data : Capability f) : Prop where
  permitStoreCap : data.permitStoreCap = true
  bounds : data.inCapBounds data.address f.capSize = true
  aligned : isAlignedAddr data.address f.capSize = true
  writable : ∃ addr s', StoresAt p s key data.address addr s'

section Store

variable {key data : Capability f} {authIdx : BitVec 6} {r : Retired}

/-- A failure by an exception, of a store. -/
theorem trapped_of_exception {e : ExceptionType} {info : BitVec f.xlen}
    (h : (do handleException e info; pure .RETIRE_FAIL : M f Retired) s = .ok (r, s')) :
    r = .RETIRE_FAIL ∧ s.Trapped s' := by
  obtain ⟨u, t, htrap, h⟩ := Prog.bind_eq_ok.1 h
  obtain ⟨rfl, rfl⟩ := pure_eq_ok.1 h
  exact ⟨rfl, _, _, htrap⟩

/-- **A write** goes to the memory that takes it, or changes nothing. -/
theorem memWriteValueMeta_cases {addr : BitVec f.xlen} {n : ℕ} {bits : BitVec (8 * n)}
    {ext : ExtAccessType} {tag : Bool} {res : Except ExceptionType Unit}
    (h : memWriteValueMeta p addr n bits ext tag s = .ok (res, s')) :
    (res = .ok () ∧ pmpGuard p (.Write ext) addr n s = .ok (none, s)
        ∧ checkedMemWrite p s addr n bits tag = .ok s')
      ∨ (∃ e, res = .error e ∧ s' = s ∧ ∀ t,
        ¬ (pmpGuard p (.Write ext) addr n s = .ok (none, s)
          ∧ checkedMemWrite p s addr n bits tag = .ok t)) := by
  obtain ⟨guard, u, hguard, hrest⟩ := Prog.bind_eq_ok.1 h
  obtain rfl := silent_pmpGuard _ _ _ _ _ _ hguard
  cases guard with
  | some e =>
    obtain ⟨rfl, rfl⟩ := pure_eq_ok.1 hrest
    refine Or.inr ⟨e, rfl, rfl, fun t ht => ?_⟩
    have := hguard.symm.trans ht.1
    simp at this
  | none =>
    obtain ⟨v, w, hget, hput⟩ := Prog.bind_eq_ok.1 hrest
    obtain ⟨rfl, rfl⟩ := get_eq_ok.1 hget
    cases hw : checkedMemWrite p u addr n bits tag with
    | error e =>
      rw [hw] at hput
      obtain ⟨rfl, rfl⟩ := pure_eq_ok.1 hput
      refine Or.inr ⟨e, rfl, rfl, fun t ht => ?_⟩
      have := ht.2
      simp at this
    | ok u' =>
      rw [hw] at hput
      obtain ⟨v, w, hset, hdone⟩ := Prog.bind_eq_ok.1 hput
      obtain rfl := set_eq_ok.1 hset
      obtain ⟨rfl, rfl⟩ := pure_eq_ok.1 hdone
      exact Or.inl ⟨rfl, hguard, rfl⟩

/-- A capability that is written survives its encoding. -/
theorem memWriteCap_round {addr : BitVec f.xlen} {res : Except ExceptionType Unit}
    (h : memWriteCap p addr key s = .ok (res, s')) :
    Capability.memBitsToCapability key.tag key.capToMemBits = key
      ∧ memWriteValueMeta p addr f.capSize key.capToMemBits .Cap key.tag s = .ok (res, s') := by
  obtain ⟨u, t, hassert, hmeta⟩ := Prog.bind_eq_ok.1 h
  have hround : Capability.memBitsToCapability key.tag key.capToMemBits = key := by
    unfold assert at hassert
    obtain ⟨hb, -⟩ | ⟨-, hthrow⟩ := ite_eq_ok.1 hassert
    · exact of_decide_eq_true hb
    · exact absurd hthrow throw_ne_ok
  obtain rfl := silent_assert _ _ _ _ hassert
  exact ⟨hround, hmeta⟩

/-- **The store of the key** fails by one exception where the key does not fit,
and goes through where it does. -/
theorem storeCapvalViaCap_cases (hwalk : p.WalkReads) (htag : data.tag = true)
    (hsealed : data.isCapSealed = false) (hperm : data.permitStore = true) (hkey : key.tag = true)
    (hglobal : key.global = true)
    (h : storeCapvalViaCap p key authIdx data data.address s = .ok (r, s')) :
    (r = .RETIRE_FAIL ∧ s.Trapped s' ∧ ¬ KeyFits p s key data)
      ∨ (r = .RETIRE_SUCCESS ∧ KeyFits p s key data
        ∧ Capability.memBitsToCapability key.tag key.capToMemBits = key
        ∧ ∃ addr, StoresAt p s key data.address addr s') := by
  unfold storeCapvalViaCap at h
  simp only [htag, hsealed, hperm, hkey, hglobal, Bool.not_true, Bool.and_false, Bool.and_true,
    if_neg Bool.false_ne_true, if_true] at h
  obtain ⟨h1, h⟩ | ⟨h1, h⟩ := ite_eq_ok.1 h
  · obtain ⟨rfl, htrap⟩ := trapped_of_exception h
    exact Or.inl ⟨rfl, htrap, fun hk => by simp [hk.permitStoreCap] at h1⟩
  obtain ⟨h2, h⟩ | ⟨h2, h⟩ := ite_eq_ok.1 h
  · obtain ⟨rfl, htrap⟩ := trapped_of_exception h
    exact Or.inl ⟨rfl, htrap, fun hk => by simp [hk.bounds] at h2⟩
  obtain ⟨h3, h⟩ | ⟨h3, h⟩ := ite_eq_ok.1 h
  · obtain ⟨rfl, htrap⟩ := trapped_of_exception h
    exact Or.inl ⟨rfl, htrap, fun hk => by simp [hk.aligned] at h3⟩
  obtain ⟨tr, t, htr, h⟩ := Prog.bind_eq_ok.1 h
  obtain rfl := silent_translateAddr hwalk _ _ _ _ _ htr
  -- where the translation goes, every place the key could be stored at is
  have hplace : ∀ {addr ptw}, tr = .TR_Address addr ptw → ∀ {addr' u},
      StoresAt p t key data.address addr' u → addr' = addr := by
    intro addr ptw he addr' u hs
    obtain ⟨ptw', hs⟩ := hs.1
    have := htr.symm.trans hs
    rw [he] at this
    simp only [Except.ok.injEq, Prod.mk.injEq, TRResult.TR_Address.injEq, and_true] at this
    exact this.1.symm
  cases tr with
  | TR_Failure e ptw =>
    obtain ⟨rfl, htrap⟩ := trapped_of_exception h
    refine Or.inl ⟨rfl, htrap, fun hk => ?_⟩
    obtain ⟨addr, u, ⟨ptw', hs⟩, -⟩ := hk.writable
    have := htr.symm.trans hs
    simp at this
  | TR_Address addr ptw =>
    obtain ⟨h4, h⟩ | ⟨h4, h⟩ := ite_eq_ok.1 h
    · obtain ⟨rfl, htrap⟩ := trapped_of_exception h
      refine Or.inl ⟨rfl, htrap, fun hk => ?_⟩
      obtain ⟨addr', u, hs⟩ := hk.writable
      obtain rfl := hplace rfl hs
      rw [hs.2.1] at h4
      cases h4
    · obtain ⟨res, u, hwrite, hend⟩ := Prog.bind_eq_ok.1 h
      obtain ⟨hround, hmeta⟩ := memWriteCap_round hwrite
      obtain ⟨rfl, hguard, hmem⟩ | ⟨e, rfl, rfl, hnone⟩ := memWriteValueMeta_cases hmeta
      · obtain ⟨rfl, rfl⟩ := pure_eq_ok.1 hend
        have hat : StoresAt p t key data.address addr u :=
          ⟨⟨ptw, htr⟩, by simpa using h4, hguard, hmem⟩
        exact Or.inr ⟨rfl, ⟨by simpa using h1, by simpa using h2, by simpa using h3, addr, u, hat⟩,
          hround, addr, hat⟩
      · obtain ⟨rfl, htrap⟩ := trapped_of_exception hend
        refine Or.inl ⟨rfl, htrap, fun hk => ?_⟩
        obtain ⟨addr', v, hs⟩ := hk.writable
        obtain rfl := hplace rfl hs
        exact hnone v ⟨hs.2.2.1, hs.2.2.2⟩

/-- The memory does not look at the table of identities. -/
theorem checkedMemWrite_table {addr : BitVec f.xlen} {n : ℕ} {bits : BitVec (8 * n)} {tag : Bool}
    (t : ETable f) :
    checkedMemWrite p { s with etable := t } addr n bits tag
      = (checkedMemWrite p s addr n bits tag).map fun u => { u with etable := t } := by
  unfold checkedMemWrite
  split
  · show (p.mmioWrite s.dev addr n bits).map _ = ((p.mmioWrite s.dev addr n bits).map _).map _
    cases p.mmioWrite s.dev addr n bits with
    | error e => rfl
    | ok dev => rfl
  · split
    · rfl
    · rfl

/-- The memory protection looks at its entries and at the privilege: a change
`g` of the state that keeps these keeps it. -/
theorem pmpGuard_update {acc : AccessType} {addr : BitVec f.xlen} {n : ℕ}
    {guard : Option ExceptionType} {g : State f → State f}
    (hpriv : effectivePrivilege (g s) acc = effectivePrivilege s acc)
    (hpmp : (g s).pmp = s.pmp) (h : pmpGuard p acc addr n s = .ok (guard, s)) :
    pmpGuard p acc addr n (g s) = .ok (guard, g s) := by
  obtain ⟨u, v, hget, h⟩ := Prog.bind_eq_ok.1 h
  obtain ⟨rfl, rfl⟩ := get_eq_ok.1 hget
  refine Prog.bind_eq_ok.2 ⟨_, _, get_eq_ok.2 ⟨rfl, rfl⟩, ?_⟩
  obtain ⟨hen, h⟩ | ⟨hen, h⟩ := ite_eq_ok.1 h
  · obtain ⟨priv, v, hp, hpure⟩ := Prog.bind_eq_ok.1 h
    obtain ⟨hp', rfl⟩ := lift_eq_ok.1 hp
    refine ite_eq_ok.2 (Or.inl ⟨hen, Prog.bind_eq_ok.2
      ⟨priv, _, lift_eq_ok.2 ⟨hpriv.trans hp', rfl⟩, pure_eq_ok.2 ⟨?_, rfl⟩⟩⟩)
    rw [← (pure_eq_ok.1 hpure).1]
    unfold pmpCheck
    rw [hpmp]
  · exact ite_eq_ok.2 (Or.inr ⟨hen, pure_eq_ok.2 ⟨(pure_eq_ok.1 h).1, rfl⟩⟩)

theorem pmpGuard_table {acc : AccessType} {addr : BitVec f.xlen} {n : ℕ}
    {guard : Option ExceptionType} (t : ETable f) (h : pmpGuard p acc addr n s = .ok (guard, s)) :
    pmpGuard p acc addr n { s with etable := t } = .ok (guard, { s with etable := t }) :=
  pmpGuard_update (g := fun s => { s with etable := t }) rfl rfl h

theorem StoresAt.table (hwalk : p.WalkReads) {vaddr addr : BitVec f.xlen} (t : ETable f)
    (h : StoresAt p s key vaddr addr s') :
    StoresAt p { s with etable := t } key vaddr addr { s' with etable := t } := by
  obtain ⟨⟨ptw, htr⟩, hal, hguard, hmem⟩ := h
  refine ⟨⟨ptw, translateAddr_table hwalk t htr⟩, hal, pmpGuard_table t hguard, ?_⟩
  rw [checkedMemWrite_table, hmem]
  rfl

/-- Whether the key fits does not depend on the table. -/
theorem keyFits_table (hwalk : p.WalkReads) (t : ETable f) :
    KeyFits p { s with etable := t } key data ↔ KeyFits p s key data := by
  constructor
  · rintro ⟨h1, h2, h3, addr, u, hs⟩
    exact ⟨h1, h2, h3, addr, { u with etable := s.etable }, hs.table hwalk s.etable⟩
  · rintro ⟨h1, h2, h3, addr, u, hs⟩
    exact ⟨h1, h2, h3, addr, { u with etable := t }, hs.table hwalk t⟩

/-- **The last part of `EInitData`** fails by one exception where the key does
not fit; it never fails to move the data capability to its base. -/
theorem finishData_cases (hwalk : p.WalkReads) (hf : f.ow ≤ f.xlen) {cd cs2 : RegIdx}
    {otype : BitVec f.ow} (htag : data.tag = true) (hsealed : data.isCapSealed = false)
    (hperm : data.permitStore = true) (h : finishData p cd cs2 data otype s = .ok (r, s')) :
    (r = .RETIRE_FAIL ∧ s.Trapped s' ∧ ¬ KeyFits p s (enclaveKey (otypeToEid otype)) data)
      ∨ (r = .RETIRE_SUCCESS ∧ KeyFits p s (enclaveKey (otypeToEid otype)) data
        ∧ Capability.memBitsToCapability true (enclaveKey (otypeToEid otype)).capToMemBits
          = (enclaveKey (otypeToEid otype) : Capability f)
        ∧ ∃ addr t, StoresAt p s (enclaveKey (otypeToEid otype)) data.address addr t
          ∧ s' = t.wC cd ((data.setCapOffset 0).2.sealCap otype)) := by
  unfold finishData at h
  simp only [data.setCapOffset_zero, Bool.not_true, if_neg Bool.false_ne_true] at h
  obtain ⟨key, t, hkey, h⟩ := Prog.bind_eq_ok.1 h
  rw [makeKey_eq hf] at hkey
  obtain ⟨rfl, rfl⟩ := pure_eq_ok.1 hkey
  obtain ⟨ret, t, hstore, hend⟩ := Prog.bind_eq_ok.1 h
  obtain ⟨rfl, htrap, hfit⟩ | ⟨rfl, hfit, hround, addr, hat⟩ :=
    storeCapvalViaCap_cases hwalk htag hsealed hperm rfl rfl hstore
  · obtain ⟨rfl, rfl⟩ := pure_eq_ok.1 hend
    exact Or.inl ⟨rfl, htrap, hfit⟩
  · obtain ⟨u, v, hmod, hdone⟩ := Prog.bind_eq_ok.1 hend
    obtain ⟨rfl, rfl⟩ := pure_eq_ok.1 hdone
    exact Or.inr ⟨rfl, hfit, hround, addr, t, hat, (modify_eq_ok.1 hmod).symm⟩

end Store

end Sail
