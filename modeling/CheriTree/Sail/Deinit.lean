import CheriTree.Sail.StoreId

/-!
# An enclave is taken out by its key

`EDeinit` takes the entry of an enclave out of the table for whoever holds a
capability to seal and unseal with its object types. What it may do then is
`DeinitsByKey`: the entry goes for good, and nothing else of the machine is
touched but the register for the answer.

The instruction looks at the tag, the bounds and the permissions of the key,
and does not ask whether it is sealed. A sealed key is handed out as one that
gives no authority, and takes its enclave out all the same
(`sealedKey_deinits`).
-/

namespace Sail

open Prog

variable {f : CapFormat} {p : Platform f} {s s' : State f}

/-! ## How the instruction ends -/

/-- **The checks of `EDeinit`** on the capability that names the enclave. -/
structure DeinitChecks (s : State f) (cs1 : RegIdx) : Prop where
  tag : (s.rC cs1).tag = true
  base_le : (s.rC cs1).getCapBase ≤ (s.rC cs1).address.toNat
  lt_top : (s.rC cs1).address.toNat < (s.rC cs1).getCapTop
  le_max : (s.rC cs1).address.toNat ≤ f.capMaxOtype
  permitSeal : (s.rC cs1).permitSeal = true
  permitUnseal : (s.rC cs1).permitUnseal = true

/-- **An entry of the enclave that the capability names**: its number is the
fourth part of the address. -/
def NamesEntry (s : State f) (cs1 : RegIdx) : Prop :=
  ∃ i e, s.etable.slot i = some e ∧ e.eid.toNat = (s.rC cs1).address.toNat / 4

/-- The address of a key that passes is an object type, of which nothing is cut
off. -/
theorem DeinitChecks.toNat_eid {cs1 : RegIdx} (h : DeinitChecks s cs1) :
    (otypeToEid ((s.rC cs1).address.setWidth f.ow)).toNat = (s.rC cs1).address.toNat / 4 := by
  have hpos := Nat.two_pow_pos f.ow
  have hle : (s.rC cs1).address.toNat ≤ 2 ^ f.ow - 1 - 4 := h.le_max
  rw [toNat_otypeToEid, Nat.mod_eq_of_lt (by omega)]

/-- **How `EDeinit` ends.** -/
inductive DeinitEnds (rd cs1 : RegIdx) (s : State f) : Retired → State f → Prop
  /-- By an exception, with nothing done. -/
  | rejected {s' : State f} (hchecks : ¬ DeinitChecks s cs1) (h : s.Trapped s') :
      DeinitEnds rd cs1 s .RETIRE_FAIL s'
  /-- With no entry of the enclave. -/
  | absent (hchecks : DeinitChecks s cs1) (h : ¬ NamesEntry s cs1) :
      DeinitEnds rd cs1 s .RETIRE_SUCCESS (s.wX rd 0)
  /-- With the entry of the enclave taken out. -/
  | removed {i : ℕ} {e : EMapping f} {etable : ETable f} (hchecks : DeinitChecks s cs1)
      (hslot : s.etable.slot i = some e)
      (heid : e.eid.toNat = (s.rC cs1).address.toNat / 4)
      (h : etable.slot = Function.update s.etable.slot i none) :
      DeinitEnds rd cs1 s .RETIRE_SUCCESS ({ s with etable := etable }.wX rd 1)

theorem DeinitEnds.of_check {rd cs1 : RegIdx} {e : CapEx} {reg : RegIdx} {r : Retired}
    (hchecks : ¬ DeinitChecks s cs1) (h : failWith e reg s = .ok (r, s')) :
    DeinitEnds rd cs1 s r s' := by
  obtain ⟨rfl, htrap⟩ := trapped_of_failWith h
  exact .rejected hchecks htrap

theorem executeEDeinit_ends {rd cs1 : RegIdx} {r : Retired}
    (h : executeEDeinit rd cs1 s = .ok (r, s')) : DeinitEnds rd cs1 s r s' := by
  obtain ⟨u, t, hget, h⟩ := Prog.bind_eq_ok.1 h
  obtain ⟨rfl, rfl⟩ := get_eq_ok.1 hget
  obtain ⟨htag, h⟩ | ⟨htag, h⟩ := ite_eq_ok.1 h
  · exact .of_check (fun hc => by simp [hc.tag] at htag) h
  obtain ⟨hbase, h⟩ | ⟨hbase, h⟩ := ite_eq_ok.1 h
  · exact .of_check (fun hc => absurd hbase (Nat.not_lt.2 hc.base_le)) h
  obtain ⟨htop, h⟩ | ⟨htop, h⟩ := ite_eq_ok.1 h
  · exact .of_check (fun hc => absurd htop (Nat.not_le.2 hc.lt_top)) h
  obtain ⟨hmax, h⟩ | ⟨hmax, h⟩ := ite_eq_ok.1 h
  · exact .of_check (fun hc => absurd hmax (Nat.not_lt.2 hc.le_max)) h
  obtain ⟨hperm, h⟩ | ⟨hperm, h⟩ := ite_eq_ok.1 h
  · exact .of_check (fun hc => by simp [hc.permitSeal, hc.permitUnseal] at hperm) h
  have hboth : (s.rC cs1).permitSeal = true ∧ (s.rC cs1).permitUnseal = true := by
    simpa using hperm
  have hchecks : DeinitChecks s cs1 :=
    ⟨by simpa using htag, Nat.not_lt.1 hbase, Nat.not_le.1 htop, Nat.not_lt.1 hmax, hboth.1,
      hboth.2⟩
  revert h
  cases hrem : s.etable.removeMapping (otypeToEid ((s.rC cs1).address.setWidth f.ow)) with
  | some etable =>
    intro h
    obtain ⟨v, w, hset, hdone⟩ := Prog.bind_eq_ok.1 h
    obtain rfl := set_eq_ok.1 hset
    obtain ⟨rfl, rfl⟩ := pure_eq_ok.1 hdone
    obtain ⟨i, e, hslot, heid, hupd⟩ := ETable.removeMapping_eq_some hrem
    exact .removed hchecks hslot (by rw [heid, hchecks.toNat_eid]) hupd
  | none =>
    intro h
    obtain ⟨v, w, hset, hdone⟩ := Prog.bind_eq_ok.1 h
    obtain rfl := set_eq_ok.1 hset
    obtain ⟨rfl, rfl⟩ := pure_eq_ok.1 hdone
    refine .absent hchecks ?_
    rintro ⟨i, e, hslot, heid⟩
    rw [ETable.removeMapping_eq_none, ETable.removeMappingH_eq_none] at hrem
    refine hrem i e (ETable.slot_eq_some.1 hslot) (BitVec.eq_of_toNat_eq ?_)
    rw [heid, hchecks.toNat_eid]

/-! ## What it may do -/

/-- **An enclave is gone** in a state: it is attested no more, and no
initialisation of it is finished. -/
structure Gone (p : Platform f) (s : State f) (eid : BitVec (f.ow - 2)) : Prop where
  storeId : ∀ rd rs1 cs2 r t, otypeToEid ((s.rX rs1).setWidth f.ow) = eid →
    executeEStoreId p rd rs1 cs2 s = .ok (r, t) →
      t.mem = s.mem ∧ t.tags = s.tags ∧ (r = .RETIRE_SUCCESS → t = s.wX rd 0)
  initData : ∀ fuel cd cs1 cs2 r t, otypeToEid (s.rC cs1).otype = eid →
    executeEInitData p fuel cd cs1 cs2 s = .ok (r, t) → r = .RETIRE_FAIL

/-- **The one entry of an enclave goes**, and for good. -/
def RemovesOnly (p : Platform f) (s s' : State f) (n : ℕ) : Prop :=
  ∃ i e, s.etable.slot i = some e ∧ e.eid.toNat = n
    ∧ (∀ j e', s.etable.slot j = some e' → e'.eid.toNat = n → j = i)
    ∧ s'.etable.slot = Function.update s.etable.slot i none
    ∧ ∀ t, Steps p s' t → Gone p t e.eid

/-- **`EDeinit` takes an enclave out by its key only**, and touches nothing
else. -/
structure DeinitsByKey (p : Platform f) (rd cs1 : RegIdx) (s : State f) (r : Retired)
    (s' : State f) : Prop where
  authority : s'.etable ≠ s.etable → (s.rC cs1).tag = true ∧ (s.rC cs1).isCapSealed = false
    ∧ (s.rC cs1).permitSeal = true ∧ (s.rC cs1).permitUnseal = true
    ∧ (s.rC cs1).getCapBase ≤ (s.rC cs1).address.toNat
    ∧ (s.rC cs1).address.toNat < (s.rC cs1).getCapTop
  removes : s'.etable ≠ s.etable → RemovesOnly p s s' ((s.rC cs1).address.toNat / 4)
  answer : r = .RETIRE_SUCCESS → (s'.rX rd = 1 ↔ s'.etable ≠ s.etable)
  counter : s'.eidCounter = s.eidCounter
  registers : ∀ reg, reg ≠ rd → s'.rC reg = s.rC reg
  memory : s'.mem = s.mem ∧ s'.tags = s.tags
  /-- An instruction that retires writes no other register of the machine. -/
  retired : r = .RETIRE_SUCCESS → s' = { s with
    x := s'.x
    etable := s'.etable }
  /-- One that fails writes the trap registers only. -/
  failed : r = .RETIRE_FAIL → s'.untrapped = s.untrapped

/-- **An `EInitData` for an enclave that is not in the table** does not
retire. -/
theorem executeEInitData_of_absent {fuel : ℕ} {cd cs1 cs2 : RegIdx} {r : Retired}
    (habs : s.etable.Absent (otypeToEid (s.rC cs1).otype))
    (h : executeEInitData p fuel cd cs1 cs2 s = .ok (r, s')) : r = .RETIRE_FAIL := by
  have hnone : s.etable.getId (otypeToEid (s.rC cs1).otype) true = none := by
    cases hget : s.etable.getId (otypeToEid (s.rC cs1).otype) true with
    | none => rfl
    | some e =>
      obtain ⟨⟨i, hi⟩, he, -⟩ := ETable.getIdH_eq_some hget
      exact absurd he (habs i e (ETable.slot_eq_some.2 hi))
  cases r with
  | RETIRE_FAIL => rfl
  | RETIRE_SUCCESS =>
    obtain ⟨u, t, hget, h⟩ := Prog.bind_eq_ok.1 h
    obtain ⟨rfl, rfl⟩ := get_eq_ok.1 hget
    simp only [ite_eq_ok, failWith_ne_success, throw_ne_ok, and_false, false_or, hnone] at h

/-- **An enclave taken out in a reachable state is gone for good.** -/
theorem gone_of_removed (hwalk : p.WalkKeepsIdentities) {s₀ : State f}
    (htable : s₀.etable = initETable) (hrun : Steps p s₀ s) {i : ℕ} {e : EMapping f}
    (hslot : s.etable.slot i = some e) (hstep : Step p s s') (habs : s'.etable.Absent e.eid)
    {t : State f} (hlater : Steps p s' t) : Gone p t e.eid := by
  have hissued : e.key < (freshTable s.identities).counter :=
    (Steps.inv hwalk htable hrun).issued hslot
  have hlt : e.key < (freshTable s'.identities).counter :=
    lt_of_lt_of_le hissued (hstep.idStep hwalk).step.counter_le
  have habs' : FreshTable.Absent EMapping.key (freshTable s'.identities) e.key :=
    fun j e' hj hkey => habs j e' hj (BitVec.eq_of_toNat_eq hkey)
  have hgone : t.etable.Absent e.eid := fun j e' hj he =>
    FreshTable.Steps.absent hlt habs' (Steps.fresh hwalk hlater) j e' hj (congrArg BitVec.toNat he)
  constructor
  · intro rd rs1 cs2 r u heid h
    exact executeEStoreId_of_absent (by rwa [heid]) h
  · intro fuel cd cs1 cs2 r u heid h
    exact executeEInitData_of_absent (by rwa [heid]) h

/-- A table without one of its entries is another table. -/
theorem ETable.ne_of_slot_update {t t' : ETable f} {i : ℕ} {e : EMapping f}
    (hslot : t.slot i = some e) (h : t'.slot = Function.update t.slot i none) : t' ≠ t := by
  rintro rfl
  have hi := congrFun h i
  rw [Function.update_self, hslot] at hi
  cases hi

/-- **The entry taken out was the only one of its enclave**, and it is gone for
good. -/
theorem removesOnly_of_removed (hwalk : p.WalkKeepsIdentities) {s₀ : State f}
    (htable : s₀.etable = initETable) (hrun : Steps p s₀ s) (hstep : Step p s s') {i n : ℕ}
    {e : EMapping f} (hslot : s.etable.slot i = some e) (heid : e.eid.toNat = n)
    (h : s'.etable.slot = Function.update s.etable.slot i none) : RemovesOnly p s s' n := by
  have hunique : ∀ j e', s.etable.slot j = some e' → e'.eid.toNat = n → j = i := by
    intro j e' hj he'
    exact (Steps.inv hwalk htable hrun).unique hj hslot (he'.trans heid.symm)
  refine ⟨i, e, hslot, heid, hunique, h, fun t hlater => ?_⟩
  refine gone_of_removed hwalk htable hrun hslot hstep (fun j e' hj he' => ?_) hlater
  rw [h] at hj
  obtain ⟨-, hnone⟩ | ⟨hne, hold⟩ := FreshTable.update_eq_some hj
  · cases hnone
  · exact hne (hunique j e' hold (by rw [he', heid]))

/-- **`EDeinit` takes an enclave out by its key only**, in every reachable
state, if and only if a capability that takes one out is not sealed, and the
answer has a register to go to. -/
theorem executeEDeinit_deinitsByKey_iff (p : Platform f) (hwalk : p.WalkKeepsIdentities)
    (s₀ s s' : State f) (rd cs1 : RegIdx) (r : Retired) (htable : s₀.etable = initETable)
    (hrun : Steps p s₀ s) (h : executeEDeinit rd cs1 s = .ok (r, s')) :
    DeinitsByKey p rd cs1 s r s' ↔
      (DeinitChecks s cs1 → NamesEntry s cs1 → (s.rC cs1).isCapSealed = false ∧ rd ≠ 0) := by
  have hstep : Step p s s' := .execute (.EDeinit rd cs1) 0 r h
  have hzero : ∀ t : State f, (t.wX rd 0).rX rd ≠ 1 := by
    intro t hone
    rw [rX_wX, ite_self] at hone
    exact one_ne_zero_xlen f hone.symm
  have hother : ∀ (t : State f) (v : BitVec f.xlen) (reg : RegIdx), reg ≠ rd →
      (t.wX rd v).rC reg = t.rC reg := fun t v reg hne => State.rC_wC_of_ne t _ hne
  cases executeEDeinit_ends h with
  | rejected hchecks htrap =>
    refine ⟨fun _ hc => absurd hc hchecks, fun _ => ?_⟩
    have hkept := htrap.untrapped
    have hsame : s'.etable = s.etable := congrArg (fun u => u.1.2) hkept
    have hx : s'.x = s.x := congrArg (fun u => u.2.1) hkept
    refine ⟨fun hne => absurd hsame hne, fun hne => absurd hsame hne, fun hr => ?_,
      congrArg (fun u => u.1.1) hkept, fun reg _ => ?_,
      ⟨congrArg (fun u => u.2.2.1) hkept, congrArg (fun u => u.2.2.2) hkept⟩, fun hr => ?_,
      fun _ => hkept⟩
    · cases hr
    · unfold State.rC
      rw [hx]
    · cases hr
  | absent hchecks hnames =>
    refine ⟨fun _ _ hn => absurd hn hnames, fun _ => ?_⟩
    have hsame : (s.wX rd 0).etable = s.etable := congrArg Prod.snd (State.wC_identities s rd _)
    refine ⟨fun hne => absurd hsame hne, fun hne => absurd hsame hne, fun _ => ?_,
      congrArg Prod.fst (State.wC_identities s rd _), hother s 0,
      ⟨State.wC_mem _ _ _, State.wC_tags _ _ _⟩, fun _ => ?_, fun hr => ?_⟩
    · exact ⟨fun hone => absurd hone (hzero s), fun hne => absurd hsame hne⟩
    · unfold State.wX State.wC
      split
      · rfl
      · rfl
    · cases hr
  | @removed i e etable hchecks hslot heid hupd =>
    have htable' : ({ s with etable := etable }.wX rd 1).etable = etable :=
      congrArg Prod.snd (State.wC_identities { s with etable := etable } rd _)
    have hne : ({ s with etable := etable }.wX rd 1).etable ≠ s.etable := by
      rw [htable']
      exact ETable.ne_of_slot_update hslot hupd
    constructor
    · intro hlaw _ _
      refine ⟨(hlaw.authority hne).2.1, ?_⟩
      rintro rfl
      exact one_ne_zero_xlen f ((hlaw.answer rfl).2 hne).symm
    · intro hcond
      obtain ⟨hunsealed, hrd⟩ := hcond hchecks ⟨i, e, hslot, heid⟩
      refine ⟨fun _ => ⟨hchecks.tag, hunsealed, hchecks.permitSeal, hchecks.permitUnseal,
        hchecks.base_le, hchecks.lt_top⟩, fun _ => ?_, fun _ => ⟨fun _ => hne, fun _ => ?_⟩,
        congrArg Prod.fst (State.wC_identities { s with etable := etable } rd _),
        hother { s with etable := etable } 1, ⟨State.wC_mem _ _ _, State.wC_tags _ _ _⟩,
        fun _ => ?_, fun hr => ?_⟩
      · refine removesOnly_of_removed hwalk htable hrun hstep hslot heid ?_
        rw [htable', hupd]
      · rw [rX_wX, if_neg hrd]
      · unfold State.wX State.wC
        split
        · rfl
        · rfl
      · cases hr

/-! ## A sealed key -/

/-- The small machine with its enclave finished, and a capability in `c7`. -/
def keyState (key : Capability .cheri64) : State .cheri64 :=
  { smallState with
    x := fun r => if r = 7 then key else smallState.x r
    etable := ⟨some ⟨0, 0, false⟩ :: List.replicate 127 none, rfl⟩ }

/-- What a program leaves of the identities, read off its result. -/
theorem identities_eq_of_map {x : Except SailError (Retired × State f)} {r : Retired}
    {u t : State f} (hx : x = .ok (r, u))
    (h : x.toOption.map (fun a => (a.2.eidCounter, a.2.etable.slots))
      = some (t.eidCounter, t.etable.slots)) : t.identities = u.identities := by
  rw [hx] at h
  have hpair : (u.eidCounter, u.etable.slots) = (t.eidCounter, t.etable.slots) := Option.some.inj h
  have hcount : u.eidCounter = t.eidCounter := congrArg Prod.fst hpair
  have hslots : u.etable.slots = t.etable.slots := congrArg Prod.snd hpair
  unfold State.identities
  rw [hcount]
  congr 1
  cases hu : u.etable
  cases ht : t.etable
  rw [hu, ht] at hslots
  simp only [ETable.mk.injEq]
  exact hslots.symm

/-- The enclave is entered, its program readies the registers, and it is
finished. -/
theorem keyState_reachable (key : Capability .cheri64) :
    Steps smallPlatform bootState (keyState key) := by
  obtain ⟨s₁, hcode⟩ := exists_ok_of_map_fst (a := .RETIRE_SUCCESS)
    (show (executeEInitCode 1 1 bootState).toOption.map Prod.fst = _ by decide +kernel)
  obtain ⟨s₂, hdata⟩ := exists_ok_of_map_fst (a := .RETIRE_SUCCESS)
    (show (executeEInitData smallPlatform 16 2 1 2 smallState).toOption.map Prod.fst = _ by
      decide +kernel)
  have hready : smallState.identities = s₁.identities :=
    identities_eq_of_map hcode (by decide +kernel)
  have hkey : (keyState key).identities = s₂.identities := by
    refine identities_eq_of_map hdata ?_
    show _ = some ((1 : BitVec (CapFormat.ow .cheri64 - 1)),
      some (⟨0, 0, false⟩ : EMapping .cheri64) :: List.replicate 127 none)
    decide +kernel
  exact (((Relation.ReflTransGen.single (.execute (.EInitCode 1 1) 0 _ hcode)).tail
    (.other hready)).tail (.execute (.EInitData 2 1 2) 16 _ hdata)).tail (.other hkey)

/-- The key of the enclave takes it out. -/
theorem enclaveKey_deinits :
    ∃ s', executeEDeinit 10 7 (keyState (enclaveKey 0)) = .ok (.RETIRE_SUCCESS, s')
      ∧ DeinitsByKey smallPlatform 10 7 (keyState (enclaveKey 0)) .RETIRE_SUCCESS s' := by
  obtain ⟨s', hrun⟩ := exists_ok_of_map_fst (a := .RETIRE_SUCCESS)
    (show (executeEDeinit 10 7 (keyState (enclaveKey 0))).toOption.map Prod.fst = _ by
      decide +kernel)
  refine ⟨s', hrun, (executeEDeinit_deinitsByKey_iff smallPlatform
    (fun _ _ _ _ => (silent_throw _).keeps) bootState _ s' 10 7 _ rfl
    (keyState_reachable (enclaveKey 0)) hrun).2 ?_⟩
  exact fun _ _ => ⟨by decide +kernel, by decide⟩

/-- **A sealed key takes its enclave out**: the key of enclave `0`, sealed with
an object type of another enclave, gives the authority it was sealed to
withhold. -/
theorem sealedKey_deinits :
    ∃ s', executeEDeinit 10 7 (keyState ((enclaveKey 0).sealCap 4)) = .ok (.RETIRE_SUCCESS, s')
      ∧ s'.etable.getId 0 false = none
      ∧ (keyState ((enclaveKey 0).sealCap 4)).etable.getId 0 false ≠ none
      ∧ Steps smallPlatform bootState (keyState ((enclaveKey 0).sealCap 4))
      ∧ ¬ DeinitsByKey smallPlatform 10 7 (keyState ((enclaveKey 0).sealCap 4))
        .RETIRE_SUCCESS s' := by
  obtain ⟨s', hrun⟩ := exists_ok_of_map_fst (a := .RETIRE_SUCCESS)
    (show (executeEDeinit 10 7 (keyState ((enclaveKey 0).sealCap 4))).toOption.map Prod.fst = _ by
      decide +kernel)
  have hgone : (executeEDeinit 10 7 (keyState ((enclaveKey 0).sealCap 4))).toOption.map
      (fun a => a.2.etable.getId 0 false) = some none := by
    decide +kernel
  rw [hrun] at hgone
  have hnone : s'.etable.getId 0 false = none := Option.some.inj hgone
  have hthere : (keyState ((enclaveKey 0).sealCap 4)).etable.getId 0 false ≠ none := by
    decide +kernel
  refine ⟨s', hrun, hnone, hthere, keyState_reachable _, fun hlaw => ?_⟩
  have hne : s'.etable ≠ (keyState ((enclaveKey 0).sealCap 4)).etable := by
    intro he
    rw [he] at hnone
    exact hthere hnone
  exact absurd (hlaw.authority hne).2.1 (by decide +kernel)

end Sail
