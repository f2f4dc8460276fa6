import CheriTree.Sail.KeyStore

/-!
# What a failed initialisation leaves behind

An instruction that fails is to change nothing but the trap registers, so that
the enclave can be made by a corrected retry. `EInitCode` issues its number
before the code capability is moved to its base, and this is harmless, since the
move is always representable. `EInitData` enters the identity in the table
before it stores the key, and this is not: where the key does not fit, the
entry has become permanent and no retry finds it.
-/

namespace Sail

open Prog

variable {f : CapFormat}

/-! ## `EInitCode` -/

/-- **What `EInitCode` leaves when it succeeds**: the entry in the free slot, and
the code capability sealed at its base. -/
def State.initCode (s : State f) (cd cs1 : RegIdx) (idx : ℕ) : State f :=
  State.wC { s with
    eidCounter := s.eidCounter + 1
    etable := s.etable.set idx (some ⟨0, s.nextEid, true⟩) } cd
    (((s.rC cs1).setCapOffset 0).2.sealCap (entryOtype s.nextEid))

theorem assert_eq_ok {b : Bool} {u : Unit} {s s' : State f} :
    (assert b : M f Unit) s = .ok (u, s') ↔ b = true ∧ s = s' := by
  unfold assert
  rw [ite_eq_ok, pure_eq_ok]
  simp [throw_ne_ok]

/-- An entry is added at an index of the table. -/
theorem addTempMapping_eq_ok {eid : BitVec (f.ow - 2)} {idx : ℕ} {u : Unit} {s s' : State f} :
    addTempMapping eid idx s = .ok (u, s') ↔ idx < tableSize
      ∧ s' = { s with etable := s.etable.set idx (some ⟨0, eid, true⟩) } := by
  unfold addTempMapping addMappingH
  rw [Prog.bind_eq_ok]
  constructor
  · rintro ⟨a, t, hassert, hmod⟩
    obtain ⟨hlt, rfl⟩ := assert_eq_ok.1 hassert
    exact ⟨of_decide_eq_true hlt, (modify_eq_ok.1 hmod).symm⟩
  · rintro ⟨hlt, rfl⟩
    exact ⟨⟨⟩, s, assert_eq_ok.2 ⟨decide_eq_true hlt, rfl⟩, rfl⟩

/-- **When `EInitCode` succeeds**, and what it leaves. -/
theorem executeEInitCode_success_iff {cd cs1 : RegIdx} {s s' : State f} :
    executeEInitCode cd cs1 s = .ok (.RETIRE_SUCCESS, s') ↔
      (s.rC cs1).tag = true ∧ (s.rC cs1).isCapSealed = false ∧ (s.rC cs1).permitLoad = true
        ∧ cd = cs1 ∧ 4 * s.eidCounter.toNat + 3 ≤ f.capMaxOtype
        ∧ ∃ idx, s.etable.findFreeIdx = some idx ∧ s' = s.initCode cd cs1 idx := by
  unfold executeEInitCode
  rw [Prog.bind_eq_ok]
  simp only [get_eq_ok, ite_eq_ok, failWith_ne_success, and_false, false_or]
  constructor
  · rintro ⟨a, t, ⟨rfl, rfl⟩, htag, hseal, hload, hcd, h⟩
    refine ⟨by simpa using htag, by simpa using hseal, by simpa using hload, not_not.1 hcd, ?_⟩
    cases hidx : s.etable.findFreeIdx with
    | none =>
      rw [hidx] at h
      exact absurd h failWith_ne_success
    | some idx =>
      rw [hidx] at h
      obtain ⟨eid, t, hgen, h⟩ := Prog.bind_eq_ok.1 h
      rw [genEid_eq_ok] at hgen
      split at hgen
      · rename_i hle
        obtain ⟨rfl, rfl⟩ := hgen
        simp only [Capability.setCapOffset_zero, Bool.not_true, if_neg Bool.false_ne_true,
          Prog.bind_eq_ok, addTempMapping_eq_ok, modify_eq_ok, pure_eq_ok] at h
        obtain ⟨u, v, ⟨-, rfl⟩, u', v', rfl, -, rfl⟩ := h
        exact ⟨hle, idx, rfl, rfl⟩
      · obtain ⟨rfl, rfl⟩ := hgen
        exact absurd h failWith_ne_success
  · rintro ⟨htag, hseal, hload, rfl, hle, idx, hidx, rfl⟩
    have hlt : idx < tableSize := (ETable.slot_findFreeIdx hidx).1
    refine ⟨s, s, ⟨rfl, rfl⟩, by simp [htag], by simp [hseal], by simp [hload], by simp, ?_⟩
    rw [hidx]
    refine Prog.bind_eq_ok.2 ⟨some s.nextEid, _, genEid_eq_ok.2 (by
      rw [if_pos hle]
      exact ⟨rfl, rfl⟩), ?_⟩
    simp only [Capability.setCapOffset_zero, Bool.not_true, if_neg Bool.false_ne_true,
      Prog.bind_eq_ok, addTempMapping_eq_ok, modify_eq_ok, pure_eq_ok]
    exact ⟨⟨⟩, _, ⟨hlt, rfl⟩, ⟨⟩, _, rfl, trivial, rfl⟩

/-- **`EInitCode` fails by one exception** with nothing else changed, or takes
none; the exit after the number was issued is not taken. -/
theorem executeEInitCode_ends {cd cs1 : RegIdx} {r : Retired} {s s' : State f}
    (h : executeEInitCode cd cs1 s = .ok (r, s')) :
    r = .RETIRE_FAIL ∧ s.Trapped s' ∨ r = .RETIRE_SUCCESS ∧ s.SameControl s' := by
  obtain ⟨u, t, hget, h⟩ := Prog.bind_eq_ok.1 h
  obtain ⟨rfl, rfl⟩ := get_eq_ok.1 hget
  obtain ⟨-, h⟩ | ⟨-, h⟩ := ite_eq_ok.1 h
  · exact Or.inl (trapped_of_failWith h)
  obtain ⟨-, h⟩ | ⟨-, h⟩ := ite_eq_ok.1 h
  · exact Or.inl (trapped_of_failWith h)
  obtain ⟨-, h⟩ | ⟨-, h⟩ := ite_eq_ok.1 h
  · exact Or.inl (trapped_of_failWith h)
  obtain ⟨-, h⟩ | ⟨-, h⟩ := ite_eq_ok.1 h
  · exact Or.inl (trapped_of_failWith h)
  cases hidx : s.etable.findFreeIdx with
  | none =>
    rw [hidx] at h
    exact Or.inl (trapped_of_failWith h)
  | some idx =>
    rw [hidx] at h
    obtain ⟨eid, t, hgen, hrest⟩ := Prog.bind_eq_ok.1 h
    cases eid with
    | none =>
      obtain rfl := genEid_none hgen
      exact Or.inl (trapped_of_failWith hrest)
    | some eid =>
      simp only [Capability.setCapOffset_zero, Bool.not_true, if_neg Bool.false_ne_true] at hrest
      obtain ⟨u, v, hadd, hrest⟩ := Prog.bind_eq_ok.1 hrest
      obtain ⟨u, w, hmod, hdone⟩ := Prog.bind_eq_ok.1 hrest
      obtain ⟨rfl, rfl⟩ := pure_eq_ok.1 hdone
      refine Or.inr ⟨rfl, ?_⟩
      have hcount : s.SameControl t := by
        have hgen := genEid_eq_ok.1 hgen
        split at hgen
        · rw [hgen.2]
          rfl
        · cases hgen.1
      have hentry : t.SameControl v := by
        obtain ⟨a, u, hassert, hentry⟩ := Prog.bind_eq_ok.1 hadd
        obtain rfl := silent_assert _ _ _ _ hassert
        rw [← modify_eq_ok.1 hentry]
        rfl
      rw [← modify_eq_ok.1 hmod]
      exact (hcount.trans hentry).trans (State.SameControl.wC _ _ _)

/-- **`EInitCode` is atomic on failure**: the table, the counter and the
registers are what they were, and what it fails by is one exception. Whatever
is in its register, moving it to its base is representable. -/
theorem executeEInitCode_atomic (cd cs1 : RegIdx) (s s' : State f) :
    ((s.rC cs1).setCapOffset 0).1 = true
      ∧ (executeEInitCode cd cs1 s = .ok (.RETIRE_FAIL, s') →
        s.Trapped s' ∧ s'.etable = s.etable ∧ s'.eidCounter = s.eidCounter
          ∧ ∀ r, s'.rC r = s.rC r) := by
  refine ⟨(s.rC cs1).setCapOffset_zero, fun h => ?_⟩
  have htrap : s.Trapped s' := by
    obtain ⟨-, htrap⟩ | ⟨hr, -⟩ := executeEInitCode_ends h
    · exact htrap
    · cases hr
  have hkeep := htrap.untrapped
  have hids : s'.identities = s.identities := congrArg Prod.fst hkeep
  have hx : s'.x = s.x := congrArg (fun u => u.2.1) hkeep
  refine ⟨htrap, congrArg Prod.snd hids, congrArg Prod.fst hids, fun r => ?_⟩
  unfold State.rC
  rw [hx]

/-- The machine with all its object types given away. -/
def exhaustedState : State .cheri64 := { bootState with eidCounter := 3 }

/-- It makes no further enclave, and its code section stays as it is. -/
theorem executeEInitCode_atomic_exhausted :
    ∃ s', executeEInitCode 1 1 exhaustedState = .ok (.RETIRE_FAIL, s')
      ∧ s'.eidCounter = 3 ∧ s'.rC 1 = .bounded 0x80000010 0x80000018 := by
  obtain ⟨s', hrun⟩ := exists_ok_of_map_fst (a := .RETIRE_FAIL)
    (show (executeEInitCode 1 1 exhaustedState).toOption.map Prod.fst = _ by decide +kernel)
  obtain ⟨-, -, hcounter, hregs⟩ := (executeEInitCode_atomic 1 1 exhaustedState s').2 hrun
  exact ⟨s', hrun, hcounter, hregs 1⟩

/-! ## `EInitData` -/

/-- An entry made permanent is another table. -/
theorem ETable.makeMappingPerm_ne {t t' : ETable f} {eid : BitVec (f.ow - 2)} {id : Hash}
    (h : t.makeMappingPerm eid id = some t') : t' ≠ t := by
  rintro rfl
  unfold makeMappingPerm at h
  split at h
  · rename_i slots hslots
    obtain ⟨i, e, hi, -, htemp, hset⟩ := makeMappingPermH_eq_some hslots
    have hsame : slots = t'.slots := congrArg ETable.slots (Option.some.inj h)
    obtain ⟨hlt, -⟩ := List.getElem?_eq_some_iff.1 hi
    have hnew : slots[i]? = some (some { e with
        isTemp := false
        id := id }) := by
      rw [hset, List.getElem?_set_self hlt]
    rw [hsame, hi] at hnew
    have hold : e.isTemp = false := congrArg EMapping.isTemp
      (Option.some.inj (Option.some.inj hnew))
    rw [htemp] at hold
    cases hold
  · cases h

/-- **An `EInitData` that fails leaves everything as it was** if and only if the
key fits the data section, or the instruction did not come to the table. -/
theorem executeEInitData_atomic_iff (p : Platform f) (hwalk : p.WalkReads) (hf : f.ow ≤ f.xlen)
    (fuel : ℕ) (cd cs1 cs2 : RegIdx) (s s' : State f)
    (h : executeEInitData p fuel cd cs1 cs2 s = .ok (.RETIRE_FAIL, s')) :
    s'.untrapped = s.untrapped
      ↔ KeyFits p s (enclaveKey (otypeToEid (s.rC cs1).otype)) (s.rC cs2)
        ∨ ¬ EInitDataCommits p s cd cs1 cs2 := by
  cases executeEInitData_ends hwalk h with
  | rejected hcommit _ htrap => exact ⟨fun _ => Or.inr hcommit, fun _ => htrap.untrapped⟩
  | twice hcommit _ htrap htrap' =>
    exact ⟨fun _ => Or.inr hcommit, fun _ => htrap'.untrapped.trans htrap.untrapped⟩
  | @committed id etable _ _ hcommit htable hfin =>
    obtain ⟨-, htrap, hfit⟩ | ⟨hr, -⟩ := finishData_cases hwalk hf hcommit.checks.dataTag
      hcommit.checks.dataUnsealed hcommit.checks.permitStore hfin
    · rw [keyFits_table hwalk] at hfit
      constructor
      · intro hsame
        have hids : etable = s.etable :=
          congrArg (fun u => u.1.2) (htrap.untrapped.symm.trans hsame)
        exact absurd hids (ETable.makeMappingPerm_ne htable)
      · rintro (hfit' | hno)
        · exact absurd hfit' hfit
        · exact absurd hcommit hno
    · cases hr

/-- The small machine with a copy of part of the data section in `c3`. -/
def copyState : State .cheri64 :=
  { smallState with
    x := fun r => if r = 3 then .bounded 0x80000020 0x80000024 else smallState.x r }

/-- The copy is found, and nothing has changed. -/
theorem executeEInitData_atomic_copy :
    ∃ s', executeEInitData smallPlatform 16 2 1 2 copyState = .ok (.RETIRE_FAIL, s')
      ∧ s'.untrapped = copyState.untrapped := by
  obtain ⟨s', hrun⟩ := exists_ok_of_map_fst (a := .RETIRE_FAIL)
    (show (executeEInitData smallPlatform 16 2 1 2 copyState).toOption.map Prod.fst = _ by
      decide +kernel)
  refine ⟨s', hrun, (executeEInitData_atomic_iff smallPlatform smallPlatform_walkReads (by decide)
    16 2 1 2 copyState s' hrun).2 (Or.inr fun hc => ?_)⟩
  exact absurd hc.sweep.1 (by decide +kernel)

/-- The small machine with a data capability that may not store capabilities. -/
def storelessState : State .cheri64 :=
  { smallState with
    x := fun r => if r = 2 then { (smallState.x 2) with permitStoreCap := false }
      else smallState.x r }

/-- **The entry is lost**: the instruction fails, and the temporary entry of the
enclave is permanent. -/
theorem executeEInitData_storeless_not_atomic :
    ∃ s', executeEInitData smallPlatform 16 2 1 2 storelessState = .ok (.RETIRE_FAIL, s')
      ∧ s'.untrapped ≠ storelessState.untrapped
      ∧ storelessState.etable.getId 0 true = some ⟨0, 0, true⟩
      ∧ s'.etable.getId 0 true = none := by
  have hfound : ((executeEInitData smallPlatform 16 2 1 2 storelessState).toOption.map
      fun r => (r.1, r.2.etable.getId 0 true)) = some (.RETIRE_FAIL, none) := by
    decide +kernel
  obtain ⟨s', hrun⟩ := exists_ok_of_map_fst (a := .RETIRE_FAIL)
    (show (executeEInitData smallPlatform 16 2 1 2 storelessState).toOption.map Prod.fst = _ by
      decide +kernel)
  rw [hrun] at hfound
  have hnone : s'.etable.getId 0 true = none := congrArg Prod.snd (Option.some.inj hfound)
  have hsome : storelessState.etable.getId 0 true = some ⟨0, 0, true⟩ := by decide +kernel
  refine ⟨s', hrun, fun hsame => ?_, hsome, hnone⟩
  have htable : s'.etable = storelessState.etable := congrArg (fun u => u.1.2) hsame
  rw [htable, hsome] at hnone
  cases hnone

end Sail
