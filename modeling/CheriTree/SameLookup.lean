import CheriTree.Morello.IdentityStore
import CheriTree.Proteus.StoreTable
import CheriTree.Sail.StoreId

/-!
# One lookup, three implementations

`EStoreId` looks the enclave of an object type up. The four object types of the
enclave `e` are `4 * e` to `4 * e + 3`, and what it is asked for is any integer
that fits a register. The Sail model looks at the low bits of it only, and so
finds an enclave under integers that are no object types of it; Proteus does not
answer at all past the largest id, as an integer; Morello looks at all of it.
-/

namespace CheriTree

open Sail

variable {f : CapFormat} {p : Platform f} {s s' : State f}

/-! ## Finished enclaves -/

/-- **A finished enclave** of the Sail model: a permanent entry, with its
digest. -/
def SailFinished (t : ETable f) (e : ℕ) (id : Hash) : Prop :=
  ∃ i entry, t.slot i = some entry ∧ entry.isTemp = false ∧ entry.eid.toNat = e ∧ entry.id = id

/-- **A finished enclave** of Morello. -/
def MorelloFinished {b : Morello.Build} (st : Morello.IdentityStore b) (e : ℕ) : Prop :=
  ∃ i, (st.entries i).used = true ∧ (st.entries i).ready = true ∧ (st.entries i).id.toNat = e

/-- **What `getHashEntry` answers**, to any object type. -/
theorem morello_getHashEntry_iff {b : Morello.Build} (st : Morello.IdentityStore b)
    (otype : Morello.IdType) :
    (st.getHashEntry otype).isSome = true ↔ MorelloFinished st (otype.toNat / 4) := by
  have hid : ∀ i, (st.entries i).id = Morello.assignIDFromOtype otype
      ↔ (st.entries i).id.toNat = otype.toNat / 4 := by
    intro i
    rw [← BitVec.toNat_inj, Morello.assignIDFromOtype, BitVec.toNat_ushiftRight,
      Nat.shiftRight_eq_div_pow]
  unfold Morello.IdentityStore.getHashEntry MorelloFinished
  rw [Option.isSome_map]
  constructor
  · intro hsome
    obtain ⟨i, hi⟩ := Option.isSome_iff_exists.1 hsome
    have hthis := Morello.IdentityStore.firstEntry_some hi
    simp only [Bool.and_eq_true, decide_eq_true_eq, hid] at hthis
    exact ⟨i, hthis.1.1, hthis.1.2, hthis.2⟩
  · rintro ⟨i, hused, hready, hnum⟩
    by_contra hnone
    have hthis := Morello.IdentityStore.firstEntry_none (Option.not_isSome_iff_eq_none.1 hnone) i
    rw [hused, hready, decide_eq_true ((hid i).2 hnum)] at hthis
    cases hthis

/-! ## The lookup of the Sail model -/

/-- **What the lookup finds**: the enclave of the low bits, if it is
finished. -/
theorem foundId_iff (hunique : s.etable.Unique) {rs1 : RegIdx} {id : Hash} :
    (∃ entry, s.foundId rs1 = some entry ∧ entry.id = id)
      ↔ SailFinished s.etable ((s.rX rs1).toNat % 2 ^ f.ow / 4) id := by
  have hsearch := hunique.searchesRight.getId (otypeToEid ((s.rX rs1).setWidth f.ow)) false
  rw [← toNat_otypeToEid]
  constructor
  · rintro ⟨entry, hfound, hid⟩
    obtain ⟨⟨i, hi⟩, heid, htemp⟩ := (hsearch entry).1 hfound
    exact ⟨i, entry, hi, htemp, by rw [heid], hid⟩
  · rintro ⟨i, entry, hi, htemp, heid, hid⟩
    exact ⟨entry, (hsearch entry).2 ⟨⟨i, hi⟩, BitVec.eq_of_toNat_eq heid, htemp⟩, hid⟩

/-- A register reads what was written to it. -/
theorem rX_wX_self (s : State f) {rd : RegIdx} (hrd : rd.toNat ≠ 0) (v : BitVec f.xlen) :
    (s.wX rd v).rX rd = v := by
  rw [rX_wX, if_neg]
  rintro rfl
  exact hrd rfl

/-- **What `EStoreId` does, once its buffer has passed the checks**: zero for
an enclave that it does not find; one, and the words of the digest, for one that
it finds. -/
theorem executeEStoreId_answers (hwalk : p.WalkReads) {rd rs1 cs2 : RegIdx} {r : Retired}
    (hrd : rd.toNat ≠ 0) (hcheck : StoreIdChecks s cs2)
    (h : executeEStoreId p rd rs1 cs2 s = .ok (r, s')) :
    (s.foundId rs1 = none ∧ s'.rX rd = 0)
      ∨ ∃ entry, s.foundId rs1 = some entry ∧ s'.rX rd = 1
        ∧ (cs2 ≠ 0 → ∃ places t, EndsAt p (s.rC cs2) entry.id (s.wX rd 1) places t
          ∧ (s' = t ∨ t.Trapped s')) := by
  cases executeEStoreId_ends hwalk h with
  | rejected hno _ => exact absurd hcheck hno
  | absent _ hfound => exact Or.inl ⟨hfound, rX_wX_self s hrd 0⟩
  | @unstored entry _ hfound hcs2 =>
    exact Or.inr ⟨entry, hfound, rX_wX_self s hrd 1, fun hne => absurd hcs2 hne⟩
  | @stored entry places _ _ hfound _ hends _ =>
    refine Or.inr ⟨entry, hfound, ?_, fun _ => ⟨places, s', hends, Or.inl rfl⟩⟩
    rw [hends.1.rX, rX_wX_self s hrd]
  | @stopped entry places t _ _ hfound _ hends _ htrap =>
    refine Or.inr ⟨entry, hfound, ?_, fun _ => ⟨places, t, hends, Or.inr htrap⟩⟩
    rw [htrap.rX, hends.1.rX, rX_wX_self s hrd]

/-- **The result is one** for the enclave of the low bits, if it is finished. -/
theorem rX_eq_one_iff (hwalk : p.WalkReads) (hunique : s.etable.Unique) {rd rs1 cs2 : RegIdx}
    {r : Retired} (hrd : rd.toNat ≠ 0) (hcheck : StoreIdChecks s cs2)
    (h : executeEStoreId p rd rs1 cs2 s = .ok (r, s')) :
    s'.rX rd = 1 ↔ ∃ id, SailFinished s.etable ((s.rX rs1).toNat % 2 ^ f.ow / 4) id := by
  have hmw := f.mw_ge
  have hle := f.mw_le
  have hone : (0 : BitVec f.xlen) ≠ 1 := by
    intro he
    have hnat : (0#f.xlen).toNat = (1#f.xlen).toNat := congrArg BitVec.toNat he
    rw [BitVec.toNat_zero, BitVec.toNat_one (by omega)] at hnat
    cases hnat
  obtain ⟨hnone, hzero⟩ | ⟨entry, hsome, hrdone, -⟩ := executeEStoreId_answers hwalk hrd hcheck h
  · refine ⟨fun hrdone => absurd (hzero.symm.trans hrdone) hone, ?_⟩
    rintro ⟨id, hfin⟩
    obtain ⟨entry, hsome, -⟩ := (foundId_iff hunique).2 hfin
    rw [hnone] at hsome
    cases hsome
  · exact ⟨fun _ => ⟨entry.id, (foundId_iff hunique).1 ⟨entry, hsome, rfl⟩⟩, fun _ => hrdone⟩

theorem rX_eq_zero_of_ne (hwalk : p.WalkReads) {rd rs1 cs2 : RegIdx} {r : Retired}
    (hrd : rd.toNat ≠ 0) (hcheck : StoreIdChecks s cs2)
    (h : executeEStoreId p rd rs1 cs2 s = .ok (r, s')) (hne : s'.rX rd ≠ 1) : s'.rX rd = 0 := by
  obtain ⟨-, hzero⟩ | ⟨-, -, hone, -⟩ := executeEStoreId_answers hwalk hrd hcheck h
  · exact hzero
  · exact absurd hone hne

/-- **The words that are stored** are those of the digest of the enclave. -/
theorem digest_of_finished (hwalk : p.WalkReads) (hunique : s.etable.Unique)
    {rd rs1 cs2 : RegIdx} {r : Retired} (hrd : rd.toNat ≠ 0) (hcheck : StoreIdChecks s cs2)
    (h : executeEStoreId p rd rs1 cs2 s = .ok (r, s')) {id : Hash}
    (hfin : SailFinished s.etable ((s.rX rs1).toNat % 2 ^ f.ow / 4) id) (hcs2 : cs2 ≠ 0) :
    ∃ places t, EndsAt p (s.rC cs2) id (s.wX rd 1) places t ∧ (s' = t ∨ t.Trapped s') := by
  obtain ⟨entry, hsome, rfl⟩ := (foundId_iff hunique).2 hfin
  obtain ⟨hnone, -⟩ | ⟨entry', hsome', -, hstores⟩ := executeEStoreId_answers hwalk hrd hcheck h
  · rw [hnone] at hsome
    cases hsome
  · obtain rfl := Option.some.inj (hsome.symm.trans hsome')
    exact hstores hcs2

/-- The low bits of an object type that is reserved name no enclave. -/
theorem not_finished_of_reserved (hf : f.ow ≤ f.xlen)
    (hissued : ∀ i e, s.etable.slot i = some e → 4 * e.eid.toNat + 3 ≤ f.capMaxOtype)
    {rs1 : RegIdx} {c : Sail.Capability f} (hc : c.hasReservedOType = true)
    (hv : s.rX rs1 = c.getType) {id : Hash} :
    ¬ SailFinished s.etable ((s.rX rs1).toNat % 2 ^ f.ow / 4) id := by
  rintro ⟨i, entry, hi, -, heid, -⟩
  have hle := hissued i entry hi
  have hlow : (c.otype.signExtend f.xlen).setWidth f.ow = c.otype := by
    ext i hi
    rw [BitVec.getElem_setWidth, BitVec.getLsbD_signExtend, decide_eq_true (by omega),
      Bool.true_and, if_pos hi, BitVec.getLsbD_eq_getElem hi]
  have hreserved : f.capMaxOtype < c.otype.toNat := of_decide_eq_true hc
  rw [hv, Sail.Capability.getType, if_pos hc, ← BitVec.toNat_setWidth, hlow] at heid
  omega

/-! ## The same answer -/

/-- **`EStoreId` attests the object types of a finished enclave, and the other
implementations answer the same.** -/
structure SameAnswer (p : Platform f) {w : ℕ} {b : Morello.Build} (ps : Proteus.IdentityStore w)
    (ms : Morello.IdentityStore b) (rd rs1 cs2 : RegIdx) (s s' : State f) : Prop where
  one : s'.rX rd = 1 ↔ ∃ e id, SailFinished s.etable e id
    ∧ 4 * e ≤ (s.rX rs1).toNat ∧ (s.rX rs1).toNat ≤ 4 * e + 3
  zero : s'.rX rd ≠ 1 → s'.rX rd = 0
  digest : ∀ e id, SailFinished s.etable e id → 4 * e ≤ (s.rX rs1).toNat →
    (s.rX rs1).toNat ≤ 4 * e + 3 → cs2 ≠ 0 →
    ∃ places t, EndsAt p (s.rC cs2) id (s.wX rd 1) places t ∧ (s' = t ∨ t.Trapped s')
  reserved : ∀ c : Sail.Capability f, c.hasReservedOType = true → s.rX rs1 = c.getType →
    s'.rX rd = 0
  proteus : ∀ v : Proteus.Word, v.toNat = (s.rX rs1).toNat →
    ∃ answer, ps.getHash v = some answer ∧ (answer.isSome = true ↔ s'.rX rd = 1)
  morello : ∀ v : Morello.IdType, v.toNat = (s.rX rs1).toNat →
    ((ms.getHashEntry v).isSome = true ↔ s'.rX rd = 1)

/-- **The lookups agree** if and only if the low bits of the register name no
finished enclave unless they are all of it, and Proteus answers: for every
table that a run reaches and every integer, with the same enclaves finished in
the three. -/
theorem sameAnswer_iff (p : Platform f) (hwalk : p.WalkReads) (hkeep : p.WalkKeepsIdentities)
    (hf : f.ow ≤ f.xlen) {w : ℕ} {b : Morello.Build} (ps : Proteus.IdentityStore w)
    (hps : ps.Reachable) (ms : Morello.IdentityStore b) (s₀ s s' : State f)
    (hcounter : s₀.eidCounter = 0) (htable : s₀.etable = initETable) (hrun : Steps p s₀ s)
    (hproteus : ∀ e, ps.Finished e ↔ ∃ id, SailFinished s.etable e id)
    (hmorello : ∀ e, MorelloFinished ms e ↔ ∃ id, SailFinished s.etable e id)
    (rd rs1 cs2 : RegIdx) (r : Retired) (hrd : rd.toNat ≠ 0) (hcheck : StoreIdChecks s cs2)
    (h : executeEStoreId p rd rs1 cs2 s = .ok (r, s')) :
    SameAnswer p ps ms rd rs1 cs2 s s'
      ↔ ((s.rX rs1).toNat < 2 ^ f.ow
          ∨ ∀ id, ¬ SailFinished s.etable ((s.rX rs1).toNat % 2 ^ f.ow / 4) id)
        ∧ ((s.rX rs1).toNat < 2 ^ 32 → (s.rX rs1).toNat ≤ 2 ^ w - 1) := by
  have hunique := ETable.unique_of_inv (Steps.inv hkeep htable hrun)
  have hissued : ∀ i e, s.etable.slot i = some e → 4 * e.eid.toNat + 3 ≤ f.capMaxOtype :=
    fun i e hi => Steps.issued hkeep hcounter htable hrun hi
  have hone := rX_eq_one_iff hwalk hunique hrd hcheck h
  have hzero := rX_eq_zero_of_ne hwalk hrd hcheck h
  -- an enclave has its object types among those of the format
  have hsmall : ∀ {e id}, SailFinished s.etable e id → 4 * e + 3 < 2 ^ f.ow := by
    rintro e id ⟨i, entry, hi, -, rfl, -⟩
    have hle := hissued i entry hi
    have hpos := Nat.two_pow_pos f.ow
    unfold CapFormat.capMaxOtype at hle
    omega
  constructor
  · intro hsame
    constructor
    · by_contra hno
      push Not at hno
      obtain ⟨hbig, id, hfin⟩ := hno
      obtain ⟨e, id', hfin', -, hle⟩ := hsame.one.1 (hone.2 ⟨id, hfin⟩)
      have := hsmall hfin'
      omega
    · intro hlt
      have hv : (BitVec.ofNat 32 (s.rX rs1).toNat).toNat = (s.rX rs1).toNat := by
        rw [BitVec.toNat_ofNat, Nat.mod_eq_of_lt hlt]
      obtain ⟨answer, hget, -⟩ := hsame.proteus _ hv
      by_contra hbig
      rw [ps.getHash_of_lt (by omega)] at hget
      cases hget
  · rintro ⟨hlow, hle⟩
    have hquot : ∀ id, SailFinished s.etable ((s.rX rs1).toNat % 2 ^ f.ow / 4) id
        ↔ SailFinished s.etable ((s.rX rs1).toNat / 4) id := by
      intro id
      obtain hlt | hnone := hlow
      · rw [Nat.mod_eq_of_lt hlt]
      · by_cases hlt : (s.rX rs1).toNat < 2 ^ f.ow
        · rw [Nat.mod_eq_of_lt hlt]
        · refine ⟨fun hfin => absurd hfin (hnone id), fun hfin => ?_⟩
          have := hsmall hfin
          omega
    have hone' : s'.rX rd = 1 ↔ ∃ id, SailFinished s.etable ((s.rX rs1).toNat / 4) id :=
      hone.trans (exists_congr hquot)
    refine ⟨?_, hzero, ?_, ?_, ?_, ?_⟩
    · rw [hone']
      constructor
      · rintro ⟨id, hfin⟩
        exact ⟨_, id, hfin, by omega, by omega⟩
      · rintro ⟨e, id, hfin, h1, h2⟩
        rw [show (s.rX rs1).toNat / 4 = e by omega]
        exact ⟨id, hfin⟩
    · intro e id hfin h1 h2 hcs2
      rw [show e = (s.rX rs1).toNat / 4 by omega, ← hquot] at hfin
      exact digest_of_finished hwalk hunique hrd hcheck h hfin hcs2
    · intro c hc hv
      refine hzero fun hno => ?_
      obtain ⟨id, hfin⟩ := hone.1 hno
      exact not_finished_of_reserved hf hissued hc hv hfin
    · intro v hv
      have hlt := v.isLt
      rw [hv] at hlt
      obtain ⟨answer, hget, hiff⟩ := hps.inv.getHash_answers v (by rw [hv]; exact hle hlt)
      rw [hv, hproteus, ← hone'] at hiff
      exact ⟨answer, hget, hiff⟩
    · intro v hv
      rw [morello_getHashEntry_iff, hv, hmorello, hone']

/-! ## A machine with two enclaves, the second one finished -/

/-- An instruction, and then anything that leaves the identities alone. -/
theorem steps_of_execute {t : State f} (i : EnclaveInstr) (fuel : ℕ)
    (h : (i.execute p fuel s).toOption.map (fun r => (r.2.eidCounter, r.2.etable.slots))
      = some (t.eidCounter, t.etable.slots)) : Steps p s t := by
  cases hrun : i.execute p fuel s with
  | error e =>
    rw [hrun] at h
    cases h
  | ok r =>
    obtain ⟨r, u⟩ := r
    rw [hrun] at h
    have hids : (u.eidCounter, u.etable.slots) = (t.eidCounter, t.etable.slots) :=
      Option.some.inj h
    have htable : t.etable = u.etable := by
      have hslots : u.etable.slots = t.etable.slots := congrArg Prod.snd hids
      cases ht : t.etable with
      | mk slots hlen =>
        cases hu : u.etable with
        | mk slots' hlen' =>
          rw [ht, hu] at hslots
          cases hslots
          rfl
    refine .tail (.single (.execute i fuel r hrun)) (.other ?_)
    exact Prod.ext (congrArg Prod.fst hids).symm htable

/-- The first enclave is entered. -/
def oneEntered : State .cheri64 :=
  { bootState with
    eidCounter := 1
    etable := smallState.etable }

/-- A second one is, and its code is in `c1`. -/
def twoEntered : State .cheri64 :=
  { smallState with
    x := fun r => if r = 1 then (Sail.Capability.bounded 0x80000010 0x80000018).sealCap 6
      else smallState.x r
    eidCounter := 2
    etable := ⟨some ⟨0, 0, true⟩ :: some ⟨0, 1, true⟩ :: List.replicate 126 none, rfl⟩ }

/-- The second one is finished; a buffer is in `c2`, and the integer to ask for
in `x3`. -/
def oneFinished (v : BitVec 32) : State .cheri64 :=
  { smallState with
    x := fun r => if r = 2 then wholeBuffer else if r = 3 then .intToCap v else .nullCap _
    eidCounter := 2
    etable := ⟨some ⟨0, 0, true⟩ :: some ⟨0, 1, false⟩ :: List.replicate 126 none, rfl⟩ }

theorem steps_oneFinished (v : BitVec 32) : Steps smallPlatform bootState (oneFinished v) := by
  have h1 : Steps smallPlatform bootState oneEntered :=
    steps_of_execute (.EInitCode 1 1) 0 (by decide +kernel)
  have h2 : Steps smallPlatform oneEntered twoEntered :=
    steps_of_execute (.EInitCode 1 1) 0 (by decide +kernel)
  have h3 : Steps smallPlatform twoEntered (oneFinished v) :=
    steps_of_execute (.EInitData 2 1 2) 16
      (show _ = some ((oneFinished 0).eidCounter, (oneFinished 0).etable.slots) by decide +kernel)
  exact (h1.trans h2).trans h3

theorem sailFinished_oneFinished (v : BitVec 32) (e : ℕ) :
    (∃ id, SailFinished (oneFinished v).etable e id) ↔ e = 1 := by
  constructor
  · rintro ⟨id, i, entry, hi, htemp, rfl, -⟩
    have hslot := ETable.slot_eq_some.1 hi
    match i with
    | 0 =>
      obtain rfl := Option.some.inj (Option.some.inj hslot)
      cases htemp
    | 1 =>
      obtain rfl := Option.some.inj (Option.some.inj hslot)
      rfl
    | i + 2 =>
      have hmem : some entry ∈ List.replicate 126 (none : Option (EMapping .cheri64)) :=
        List.mem_of_getElem? hslot
      cases List.eq_of_mem_replicate hmem
  · rintro rfl
    exact ⟨0, 1, ⟨0, 1, false⟩, rfl, rfl, rfl, rfl⟩

/-- The store of Proteus with the same enclave finished. -/
def proteusOneFinished : Proteus.IdentityStore 3 :=
  ((Proteus.IdentityStore.reset 8 2).initEntry.2.initEntry.2.finishEntry 6 0).2

theorem reachable_proteusOneFinished : proteusOneFinished.Reachable :=
  ⟨8, 2, le_refl _, ((Relation.ReflTransGen.single (.initEntry _)).tail (.initEntry _)).tail
    (.finishEntry _ 6 0)⟩

theorem finished_proteusOneFinished (e : ℕ) : proteusOneFinished.Finished e ↔ e = 1 := by
  have hentries : proteusOneFinished.entries
      = [⟨true, false, ⟨true, 0⟩, 0⟩, ⟨true, true, ⟨true, 1⟩, 0⟩] := by decide
  unfold Proteus.IdentityStore.Finished
  rw [hentries]
  constructor
  · rintro ⟨entry, hmem, -, hready, rfl⟩
    simp only [List.mem_cons, List.not_mem_nil, or_false] at hmem
    obtain rfl | rfl := hmem
    · cases hready
    · rfl
  · rintro rfl
    exact ⟨_, List.mem_cons_of_mem _ List.mem_cons_self, rfl, rfl, rfl⟩

/-- The store of Morello with the same enclave finished. -/
def morelloOneFinished : Morello.IdentityStore .release where
  entries := fun i =>
    if i.val = 0 then ⟨0, true, true, 1, fun _ => 0⟩
    else ⟨i.val, false, false, Morello.setInvalidEnclaveID, fun _ => 0⟩
  idCounter := 2

theorem finished_morelloOneFinished (e : ℕ) : MorelloFinished morelloOneFinished e ↔ e = 1 := by
  unfold MorelloFinished morelloOneFinished
  constructor
  · rintro ⟨i, hused, -, rfl⟩
    simp only at hused ⊢
    split at hused
    · rename_i hi
      rw [if_pos hi]
      rfl
    · cases hused
  · rintro rfl
    exact ⟨⟨0, by decide⟩, rfl, rfl, rfl⟩

theorem storeIdChecks_oneFinished (v : BitVec 32) : StoreIdChecks (oneFinished v) 2 where
  tag := fun _ => rfl
  unsealed := show wholeBuffer.isCapSealed = false by decide +kernel
  bounds := show wholeBuffer.inCapBounds wholeBuffer.address 32 = true by decide +kernel

/-- **The object type of the enclave is attested** by the three. -/
theorem sameAnswer_six :
    ∃ s', executeEStoreId smallPlatform 4 3 2 (oneFinished 6) = .ok (.RETIRE_SUCCESS, s')
      ∧ SameAnswer smallPlatform proteusOneFinished morelloOneFinished 4 3 2 (oneFinished 6)
        s' := by
  obtain ⟨s', hrun⟩ := exists_ok_of_map_fst (a := .RETIRE_SUCCESS)
    (show (executeEStoreId smallPlatform 4 3 2 (oneFinished 6)).toOption.map Prod.fst = _ by
      decide +kernel)
  refine ⟨s', hrun, (sameAnswer_iff smallPlatform smallPlatform_walkReads
    (fun _ _ _ _ => (Prog.silent_throw _).keeps) (by decide) proteusOneFinished
    reachable_proteusOneFinished morelloOneFinished bootState (oneFinished 6) s' rfl rfl
    (steps_oneFinished 6) (fun e => ?_) (fun e => ?_) 4 3 2 .RETIRE_SUCCESS (by decide)
    (storeIdChecks_oneFinished 6) hrun).2 ⟨Or.inl (by decide), fun _ => by decide⟩⟩
  · rw [finished_proteusOneFinished, sailFinished_oneFinished]
  · rw [finished_morelloOneFinished, sailFinished_oneFinished]

/-- **An integer that is no object type of the enclave is attested**: 22 has the
low bits of 6. -/
theorem not_sameAnswer_twentyTwo :
    ∃ s', executeEStoreId smallPlatform 4 3 2 (oneFinished 22) = .ok (.RETIRE_SUCCESS, s')
      ∧ s'.rX 4 = 1
      ∧ ¬ SameAnswer smallPlatform proteusOneFinished morelloOneFinished 4 3 2 (oneFinished 22)
        s' := by
  obtain ⟨s', hrun⟩ := exists_ok_of_map_fst (a := .RETIRE_SUCCESS)
    (show (executeEStoreId smallPlatform 4 3 2 (oneFinished 22)).toOption.map Prod.fst = _ by
      decide +kernel)
  have hone : (executeEStoreId smallPlatform 4 3 2 (oneFinished 22)).toOption.map
      (fun r => r.2.rX 4) = some 1 := by
    decide +kernel
  rw [hrun] at hone
  refine ⟨s', hrun, Option.some.inj hone, fun hsame => ?_⟩
  obtain ⟨e, id, hfin, hlo, hhi⟩ := hsame.one.1 (Option.some.inj hone)
  obtain rfl := (sailFinished_oneFinished 22 e).1 ⟨id, hfin⟩
  exact absurd hhi (by decide)

end CheriTree
