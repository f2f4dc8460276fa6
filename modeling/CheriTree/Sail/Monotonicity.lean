import CheriTree.Sail.Authority

/-!
# Monotonicity

A program gets no authority by working on the one it has. In a compressed format
this is not a matter of comparing two numbers: bounds that are asked for are
rounded outwards, an address that is moved moves what the middle bits of the
bounds mean, and `CBuildCap` makes a capability of bits that anybody may have
chosen. Still nothing comes to hold a capability with bounds or permissions
outside those of one that was there (`run_monotone`), over every program of
these instructions, through memory and back, and all the traps it takes.

What a machine holds is bounded by an authority before a step and after it. The
least authority of a state is what it holds and what is narrower
(`State.authority`). With the authority of a region the same lemmas say of the
rest of memory that it is not written (`run_keeps_memory`).
-/

namespace Sail

open Prog

variable {f : CapFormat}

open Capability

/-! ## The instructions -/

section Instructions

variable {p : Platform f} {A : Authority p} (cd cs1 cs2 rs2 : RegIdx)

theorem tag_of_checked {b : Bool} (h : ¬ (!b) = true) : b = true := by
  simpa using h

/-- An integer has no tag. -/
theorem preserves_writeInt (rd : RegIdx) (v : BitVec f.xlen) :
    Preserves A.Bounds (writeInt rd v : M f Retired) :=
  (preserves_modify fun _ hs => hs.wC rd fun htag => (by cases htag)).bind fun _ =>
    preserves_pure _

theorem preserves_inspect (rd : RegIdx) (field : Capability f → BitVec f.xlen) :
    Preserves A.Bounds (inspect rd cs1 field) :=
  preserves_get_bind fun _ _ => preserves_writeInt rd _

theorem preserves_executeCGetPerm (rd : RegIdx) :
    Preserves A.Bounds (executeCGetPerm rd cs1 : M f Retired) := preserves_inspect cs1 rd _

theorem preserves_executeCGetFlags (rd : RegIdx) :
    Preserves A.Bounds (executeCGetFlags rd cs1 : M f Retired) := preserves_inspect cs1 rd _

theorem preserves_executeCGetType (rd : RegIdx) :
    Preserves A.Bounds (executeCGetType rd cs1 : M f Retired) := preserves_inspect cs1 rd _

theorem preserves_executeCGetBase (rd : RegIdx) :
    Preserves A.Bounds (executeCGetBase rd cs1 : M f Retired) := preserves_inspect cs1 rd _

theorem preserves_executeCGetOffset (rd : RegIdx) :
    Preserves A.Bounds (executeCGetOffset rd cs1 : M f Retired) := preserves_inspect cs1 rd _

theorem preserves_executeCGetTag (rd : RegIdx) :
    Preserves A.Bounds (executeCGetTag rd cs1 : M f Retired) := preserves_inspect cs1 rd _

theorem preserves_executeCGetSealed (rd : RegIdx) :
    Preserves A.Bounds (executeCGetSealed rd cs1 : M f Retired) := preserves_inspect cs1 rd _

theorem preserves_executeCGetAddr (rd : RegIdx) :
    Preserves A.Bounds (executeCGetAddr rd cs1 : M f Retired) := preserves_inspect cs1 rd _

theorem preserves_executeCGetLen (rd : RegIdx) :
    Preserves A.Bounds (executeCGetLen rd cs1 : M f Retired) :=
  preserves_get_bind fun _ _ => preserves_assert_bind fun _ => preserves_writeInt rd _

theorem preserves_executeCToPtr (rd : RegIdx) :
    Preserves A.Bounds (executeCToPtr rd cs1 cs2 : M f Retired) :=
  preserves_get_bind fun _ _ => preserves_check A fun _ => preserves_check A fun _ =>
    preserves_writeInt rd _

theorem preserves_executeCSub (rd : RegIdx) :
    Preserves A.Bounds (executeCSub rd cs1 cs2 : M f Retired) :=
  preserves_get_bind fun _ _ => preserves_writeInt rd _

theorem preserves_executeCTestSubset (rd : RegIdx) :
    Preserves A.Bounds (executeCTestSubset rd cs1 cs2 : M f Retired) :=
  preserves_get_bind fun _ _ => preserves_writeInt rd _

theorem preserves_executeCSEQX (rd : RegIdx) :
    Preserves A.Bounds (executeCSEQX rd cs1 cs2 : M f Retired) :=
  preserves_get_bind fun _ _ => preserves_writeInt rd _

theorem preserves_executeCRRL (rd rs1 : RegIdx) :
    Preserves A.Bounds (executeCRRL rd rs1 : M f Retired) :=
  preserves_get_bind fun _ _ => preserves_writeInt rd _

theorem preserves_executeCRAM (rd rs1 : RegIdx) :
    Preserves A.Bounds (executeCRAM rd rs1 : M f Retired) :=
  preserves_get_bind fun _ _ => preserves_writeInt rd _

theorem preserves_executeCAndPerm : Preserves A.Bounds (executeCAndPerm cd cs1 rs2 : M f Retired) :=
  preserves_get_bind fun s hs => preserves_check A fun htag => preserves_check A fun _ =>
    preserves_writeCap fun _ => Authority.setCapPerms (hs.rC (tag_of_checked htag)) fun i hi => by
      rw [BitVec.getLsbD_and] at hi
      exact (Bool.and_eq_true_iff.1 hi).1

/-- **An instruction that changes a capability** keeps to the authority, if the
change does. -/
theorem preserves_adjust {change : State f → Capability f → Capability f}
    (h : ∀ s c, ((change s c).tag = true → c.tag = true)
      ∧ (A.grants c → (change s c).tag = true → A.grants (change s c))) :
    Preserves A.Bounds (adjust cd cs1 change) :=
  preserves_get_bind fun s hs => preserves_check A fun _ =>
    preserves_writeCap fun htag => (h s _).2 (hs.rC ((h s _).1 htag)) htag

/-- **A move that was tested** keeps to the authority, and does not give a tag. -/
theorem grants_orInvalid {c : Capability f} {r : Bool × Capability f} {a : BitVec f.xlen}
    (hr : r.2 = c.withAddress a) (hbounds : r.1 = true → r.2.getCapBounds = c.getCapBounds) :
    ((orInvalid r).tag = true → c.tag = true)
      ∧ (A.grants c → (orInvalid r).tag = true → A.grants (orInvalid r)) := by
  constructor
  · intro htag
    rw [(tag_orInvalid htag).2, hr] at htag
    exact htag
  · intro h htag
    obtain ⟨hok, heq⟩ := tag_orInvalid htag
    have hb := hbounds hok
    rw [heq, hr]
    rw [hr] at hb
    exact Authority.withAddress h hb

theorem grants_incCapOffset (c : Capability f) (delta : BitVec f.xlen) :
    ((orInvalid (c.incCapOffset delta)).tag = true → c.tag = true)
      ∧ (A.grants c → (orInvalid (c.incCapOffset delta)).tag = true →
        A.grants (orInvalid (c.incCapOffset delta))) :=
  grants_orInvalid rfl getCapBounds_incCapOffset

theorem grants_setCapOffset (c : Capability f) (offset : BitVec f.xlen) :
    ((orInvalid (c.setCapOffset offset)).tag = true → c.tag = true)
      ∧ (A.grants c → (orInvalid (c.setCapOffset offset)).tag = true →
        A.grants (orInvalid (c.setCapOffset offset))) :=
  grants_orInvalid rfl getCapBounds_setCapOffset

theorem grants_setCapAddr (c : Capability f) (a : BitVec f.xlen) :
    ((orInvalid (c.setCapAddr a)).tag = true → c.tag = true)
      ∧ (A.grants c → (orInvalid (c.setCapAddr a)).tag = true →
        A.grants (orInvalid (c.setCapAddr a))) :=
  grants_orInvalid rfl getCapBounds_setCapAddr

theorem preserves_executeCSetFlags :
    Preserves A.Bounds (executeCSetFlags cd cs1 rs2 : M f Retired) :=
  preserves_adjust cd cs1 fun _ _ => ⟨fun h => h, fun h _ => Authority.setCapFlags h _⟩

theorem preserves_executeCIncOffset :
    Preserves A.Bounds (executeCIncOffset cd cs1 rs2 : M f Retired) :=
  preserves_adjust cd cs1 fun _ c => grants_incCapOffset c _

theorem preserves_executeCIncOffsetImmediate (imm : BitVec 12) :
    Preserves A.Bounds (executeCIncOffsetImmediate cd cs1 imm : M f Retired) :=
  preserves_adjust cd cs1 fun _ c => grants_incCapOffset c _

theorem preserves_executeCSetOffset :
    Preserves A.Bounds (executeCSetOffset cd cs1 rs2 : M f Retired) :=
  preserves_adjust cd cs1 fun _ c => grants_setCapOffset c _

theorem preserves_executeCSetAddr :
    Preserves A.Bounds (executeCSetAddr cd cs1 rs2 : M f Retired) :=
  preserves_adjust cd cs1 fun _ c => grants_setCapAddr c _

/-- **An instruction that sets bounds.** -/
theorem preserves_setBounds (hE : f.capMaxE < 64) {length : State f → ℕ}
    {finish : Bool × Capability f → M f Retired}
    (h : ∀ r, A.grants r.2 → Preserves A.Bounds (finish r)) :
    Preserves A.Bounds (setBounds cs1 length finish) :=
  preserves_get_bind fun _ hs => preserves_check A fun htag => preserves_check A fun _ =>
    preserves_check A fun hb =>
      h _ (Authority.boundsFrom hE (hs.rC (tag_of_checked htag)) (tag_of_checked hb))

theorem preserves_executeCSetBounds (hE : f.capMaxE < 64) :
    Preserves A.Bounds (executeCSetBounds cd cs1 rs2 : M f Retired) :=
  preserves_setBounds cs1 hE fun _ h => preserves_writeCap fun _ => h

theorem preserves_executeCSetBoundsImmediate (hE : f.capMaxE < 64) (uimm : BitVec 12) :
    Preserves A.Bounds (executeCSetBoundsImmediate cd cs1 uimm : M f Retired) :=
  preserves_setBounds cs1 hE fun _ h => preserves_writeCap fun _ => h

theorem preserves_executeCSetBoundsExact (hE : f.capMaxE < 64) :
    Preserves A.Bounds (executeCSetBoundsExact cd cs1 rs2 : M f Retired) :=
  preserves_setBounds cs1 hE fun _ h =>
    preserves_check A fun _ => preserves_writeCap fun _ => h

theorem preserves_executeCClearTag :
    Preserves A.Bounds (executeCClearTag cd cs1 : M f Retired) :=
  preserves_get_bind fun _ _ => preserves_writeCap fun htag => (by cases htag)

theorem preserves_executeCMove : Preserves A.Bounds (executeCMove cd cs1 : M f Retired) :=
  preserves_get_bind fun _ hs => preserves_writeCap hs.rC

/-- The null capability has no tag. -/
theorem Authority.Bounds.clear {s : State f} (hs : A.Bounds s) (q : BitVec 2) (m : BitVec 8)
    (l : List ℕ) : A.Bounds (l.foldl (fun s i =>
      if m.getLsbD i then
        if q.toNat = 0 ∧ i = 0 then s.setScr .DDC (.nullCap f)
        else s.wC (BitVec.ofNat 5 (8 * q.toNat + i)) (.nullCap f)
      else s) s) := by
  induction l generalizing s with
  | nil => exact hs
  | cons i l ih =>
    refine ih ?_
    dsimp only
    split
    · split
      · exact hs.setScr _ fun htag => (by cases htag)
      · exact hs.wC _ fun htag => (by cases htag)
    · exact hs

theorem preserves_executeCClear (q : BitVec 2) (m : BitVec 8) :
    Preserves A.Bounds (executeCClear q m : M f Retired) :=
  (preserves_modify fun _ hs => hs.clear q m _).bind fun _ => preserves_pure _

theorem preserves_executeCFromPtr :
    Preserves A.Bounds (executeCFromPtr cd cs1 rs2 : M f Retired) := by
  refine preserves_get_bind fun _ hs => ?_
  refine Preserves.ite (preserves_writeCap fun htag => (by cases htag)) ?_
  exact preserves_check A fun htag => preserves_check A fun _ => preserves_writeCap
    ((grants_setCapOffset _ _).2 (hs.rCOrDdc (tag_of_checked htag)))

theorem preserves_executeCBuildCap :
    Preserves A.Bounds (executeCBuildCap cd cs1 cs2 : M f Retired) := by
  refine preserves_get_bind fun s hs => preserves_check A fun htag => preserves_check A fun _ =>
    preserves_check A fun hbase => preserves_check A fun htop => preserves_check A fun hle =>
    preserves_check A fun hperms => preserves_check A fun hr => preserves_assert_bind fun _ =>
    preserves_writeCap fun _ => ?_
  have h := Authority.rebuild (hs.rCOrDdc (tag_of_checked htag)) (not_lt.1 hbase)
    (not_lt.1 htop) (not_lt.1 hle) (tag_of_checked hperms) (not_not.1 hr)
  split
  · exact Authority.sealCap h _
  · exact h

theorem preserves_executeCCopyType :
    Preserves A.Bounds (executeCCopyType cd cs1 cs2 : M f Retired) := by
  refine preserves_get_bind fun _ hs => preserves_check A fun htag =>
    preserves_check A fun _ => ?_
  refine Preserves.ite (preserves_writeCap fun htag => (by cases htag)) ?_
  exact preserves_check A fun _ => preserves_check A fun _ => preserves_assert_bind fun hrep =>
    preserves_writeCap fun _ =>
      Authority.withAddress (hs.rC (tag_of_checked htag)) (getCapBounds_setCapAddr hrep)

theorem preserves_executeAUIPCC (imm : BitVec 20) :
    Preserves A.Bounds (executeAUIPCC imm cd : M f Retired) := by
  refine preserves_get_bind fun s hs => preserves_writeCap fun htag => ?_
  obtain ⟨hkeep, hgrant⟩ := grants_setCapAddr (A := A) (s.scr .PCC)
    (s.PC + (imm ++ 0x000#12).signExtend f.xlen)
  exact hgrant (hs.scr (hkeep htag)) htag

theorem preserves_executeCSeal :
    Preserves A.Bounds (executeCSeal cd cs1 cs2 : M f Retired) :=
  preserves_get_bind fun _ hs => preserves_check A fun htag => preserves_check A fun _ =>
    preserves_check A fun _ => preserves_check A fun _ => preserves_check A fun _ =>
    preserves_check A fun _ => preserves_check A fun _ => preserves_check A fun _ =>
    preserves_writeCap fun _ => Authority.sealCap (hs.rC (tag_of_checked htag)) _

theorem preserves_executeCCSeal :
    Preserves A.Bounds (executeCCSeal cd cs1 cs2 : M f Retired) := by
  refine preserves_get_bind fun s hs => preserves_check A fun htag => ?_
  have hkeep : Preserves A.Bounds (writeCap cd (s.rC cs1) : M f Retired) :=
    preserves_writeCap hs.rC
  refine hkeep.ite (hkeep.ite (hkeep.ite (hkeep.ite (hkeep.ite ?_))))
  exact preserves_check A fun _ => preserves_check A fun _ => preserves_check A fun _ =>
    preserves_writeCap fun _ => Authority.sealCap (hs.rC (tag_of_checked htag)) _

theorem preserves_executeCUnseal :
    Preserves A.Bounds (executeCUnseal cd cs1 cs2 : M f Retired) :=
  preserves_get_bind fun _ hs => preserves_check A fun htag => preserves_check A fun _ =>
    preserves_check A fun _ => preserves_check A fun _ => preserves_check A fun _ =>
    preserves_check A fun _ => preserves_check A fun _ => preserves_check A fun _ =>
    preserves_check A fun _ =>
    preserves_writeCap fun _ => Authority.unsealCap (hs.rC (tag_of_checked htag)) _

theorem grants_setCapOffsetOrNull {c : Capability f} {offset : BitVec f.xlen}
    (h : c.tag = true → A.grants c) (htag : (c.setCapOffsetOrNull offset).tag = true) :
    A.grants (c.setCapOffsetOrNull offset) := by
  unfold setCapOffsetOrNull at htag ⊢
  simp only at htag ⊢
  split at htag
  · rename_i hok
    rw [if_pos hok]
    obtain ⟨hrep, -⟩ := Bool.and_eq_true_iff.1 hok
    exact Authority.withAddress (h htag) (getCapBounds_setCapOffset hrep)
  · cases htag

theorem grants_legalizeTcc {o v : Capability f} (ho : o.tag = true → A.grants o)
    (hv : v.tag = true → A.grants v) (htag : (legalizeTcc o v).tag = true) :
    A.grants (legalizeTcc o v) := by
  unfold legalizeTcc at htag ⊢
  simp only at htag ⊢
  split at htag
  · rename_i hb
    rw [if_pos hb]
    exact ho htag
  · rename_i hb
    rw [if_neg hb]
    exact grants_setCapOffsetOrNull hv htag

theorem grants_legalizeEpcc {core : Core f} {v : Capability f} (hv : v.tag = true → A.grants v)
    (htag : (legalizeEpcc core v).tag = true) : A.grants (legalizeEpcc core v) := by
  unfold legalizeEpcc at htag ⊢
  simp only at htag ⊢
  split at htag
  · rename_i hb
    rw [if_pos hb]
    exact hv htag
  · rename_i hb
    rw [if_neg hb]
    exact grants_setCapOffsetOrNull hv htag

/-- **What a special register reads as** is granted, as what it holds is. -/
theorem Authority.Bounds.readSpecial {s : State f} (hs : A.Bounds s) {core : Core f} {r : Scr}
    (hok : (s.readSpecial core r).1 = true) (htag : (s.readSpecial core r).2.tag = true) :
    A.grants (s.readSpecial core r).2 := by
  cases r with
  | PCC => exact Authority.withAddress (hs.scr htag) (getCapBounds_setCapAddr hok)
  | UEPCC | SEPCC | MEPCC => exact grants_legalizeEpcc hs.scr htag
  | _ => exact hs.scr htag

theorem Authority.Bounds.writtenSpecial {s : State f} (hs : A.Bounds s) {r : Scr}
    {v : Capability f} (hv : v.tag = true → A.grants v)
    (htag : (s.writtenSpecial r v).tag = true) : A.grants (s.writtenSpecial r v) := by
  cases r with
  | UTCC | STCC | MTCC => exact grants_legalizeTcc hs.scr hv htag
  | _ => exact hv htag

theorem preserves_executeCSpecialRW (core : Core f) (scr : BitVec 5) :
    Preserves A.Bounds (executeCSpecialRW core cd scr cs1) := by
  refine preserves_get_bind fun s hs => ?_
  split
  · exact preserves_failAt A _ _
  · refine Preserves.ite (preserves_failAt A _ _) (Preserves.ite (preserves_failAt A _ _) ?_)
    refine preserves_assert_bind fun hok => ?_
    refine Preserves.bind (preserves_modify fun t ht => ht.wC cd (hs.readSpecial hok)) fun _ => ?_
    refine Preserves.bind (preserves_modify fun t ht => ?_) fun _ => preserves_pure _
    split
    · exact ht
    · exact ht.setScr _ (hs.writtenSpecial hs.rC)

/-- A jump to a capability, once it is checked. -/
theorem preserves_jumpTo {core : Core f} {target : Capability f}
    {jump : BitVec f.xlen → M f Retired} (h : ∀ pc, Preserves A.Bounds (jump pc)) :
    Preserves A.Bounds (jumpTo core cs1 target jump) :=
  preserves_check A fun _ => preserves_check A fun _ =>
    Preserves.ite (preserves_failAt A _ _) (h _)

theorem Authority.Bounds.goTo {s : State f} (hs : A.Bounds s) (pc : BitVec f.xlen)
    {pcc : Capability f} (h : A.grants pcc) : A.Bounds (s.goTo pc pcc) :=
  (hs.setScr .nextPCC fun _ => h).same rfl rfl rfl rfl rfl

theorem preserves_executeCInvoke (core : Core f) :
    Preserves A.Bounds (executeCInvoke core cs1 cs2) := by
  refine preserves_get_bind fun s hs => preserves_check A fun htag => preserves_check A fun htag2 =>
    preserves_check A fun _ => preserves_check A fun _ => preserves_check A fun _ =>
    preserves_check A fun _ => preserves_check A fun _ => preserves_check A fun _ =>
    preserves_check A fun _ => preserves_jumpTo cs1 fun pc => ?_
  have hcode := Authority.sealCap (hs.rC (tag_of_checked htag)) f.otypeUnsealed
  have hdata := Authority.sealCap (hs.rC (tag_of_checked htag2)) f.otypeUnsealed
  exact (preserves_modify fun t ht => (ht.wC 31 fun _ => hdata).goTo pc hcode).bind
    fun _ => preserves_pure _

theorem preserves_executeCJALR (core : Core f) :
    Preserves A.Bounds (executeCJALR core cd cs1) := by
  refine preserves_get_bind fun s hs => preserves_check A fun htag => preserves_check A fun _ =>
    preserves_check A fun _ => preserves_jumpTo cs1 fun pc => preserves_assert_bind fun hrep =>
    preserves_assert_bind fun _ => ?_
  have htarget := Authority.sealCap (hs.rC (tag_of_checked htag)) f.otypeUnsealed
  refine (preserves_modify fun t ht => (ht.wC cd fun hlink => ?_).goTo pc htarget).bind
    fun _ => preserves_pure _
  exact Authority.sealCap
    (Authority.withAddress (hs.scr hlink) (getCapBounds_setCapAddr hrep)) _

theorem preserves_executeCSealEntry :
    Preserves A.Bounds (executeCSealEntry cd cs1 : M f Retired) :=
  preserves_get_bind fun _ hs => preserves_check A fun htag => preserves_check A fun _ =>
    preserves_check A fun _ =>
    preserves_writeCap fun _ => Authority.sealCap (hs.rC (tag_of_checked htag)) _

end Instructions

/-! ## The instructions on memory -/

section MemoryInstructions

variable {p : Platform f} {A : Authority p}

variable (A) in
theorem preserves_handleException (e : ExceptionType) (info : BitVec f.xlen) :
    Preserves A.Bounds (handleException e info : M f Unit) := by
  rw [handleException_eq]
  exact preserves_exceptionAt A _ _

variable (A) in
theorem preserves_failWithMem (vaddr : BitVec f.xlen) (e : ExceptionType) :
    Preserves A.Bounds (failWithMem vaddr e : M f Retired) :=
  (preserves_handleException A e vaddr).bind fun _ => preserves_pure _

variable (A) in
theorem preserves_failWithCap (e : CapEx) (reg : BitVec 6) :
    Preserves A.Bounds (failWithCap e reg : M f Retired) :=
  (preserves_handleException A _ _).bind fun _ => preserves_pure _

variable (A) in
theorem preserves_noneWith {α : Type} (vaddr : BitVec f.xlen) (e : ExceptionType) :
    Preserves A.Bounds (noneWith vaddr e : M f (Option α)) :=
  (preserves_handleException A e vaddr).bind fun _ => preserves_pure _

theorem WordWidth.bytes_le (hf : f.Sized) (width : WordWidth) : width.bytes ≤ f.capSize := by
  have hword : 2 ^ 3 ≤ f.capSize := Nat.pow_le_pow_right (by decide) hf.word
  have hbytes : width.bytes ≤ 2 ^ 3 := by cases width <;> decide
  exact hbytes.trans hword

theorem preserves_loadInto (rd : RegIdx) (vaddr addr : BitVec f.xlen) (isUnsigned : Bool)
    (width : WordWidth) : Preserves A.Bounds (loadInto p rd vaddr addr isUnsigned width) := by
  refine Preserves.ite (preserves_throw _) ?_
  refine (silent_memReadMeta _ _ _ _).preserves.bind fun result => ?_
  cases result with
  | ok v => exact preserves_writeInt rd _
  | error e => exact preserves_failWithMem A vaddr e

/-- **A load of data** leaves an integer. -/
theorem preserves_loadDataViaCap (hwalk : p.WalkKeeps) (rd : RegIdx)
    (place : Capability f × BitVec f.xlen × BitVec 6) (isUnsigned : Bool) (width : WordWidth) :
    Preserves A.Bounds (loadDataViaCap p rd place isUnsigned width) := by
  obtain ⟨auth, vaddr, authIdx⟩ := place
  unfold loadDataViaCap
  dsimp only
  split
  · exact preserves_failWithCap A _ _
  · refine Preserves.ite (preserves_failWithMem A _ _) ?_
    refine (preserves_translateAddr hwalk _ _).bind fun r => ?_
    split
    · exact preserves_throw _
    · exact preserves_failWithMem A _ _
    · exact preserves_loadInto rd _ _ _ _

theorem preserves_loadCapNoreg (hwalk : p.WalkKeeps) (auth : Capability f)
    (vaddr : BitVec f.xlen) : Preserves A.Bounds (loadCapNoreg p auth vaddr) := by
  refine (preserves_translateAddr hwalk _ _).bind fun r => ?_
  split
  · exact preserves_throw _
  · exact preserves_noneWith A _ _
  · refine (silent_memReadCap _).preserves.bind fun result => ?_
    split
    · exact preserves_pure _
    · exact preserves_noneWith A _ _

/-- **What is loaded with its tag** was in memory with its tag. -/
theorem grants_loadCapNoreg (hf : f.Sized) (hwalk : p.WalkKeeps) {auth c : Capability f}
    {vaddr : BitVec f.xlen} (hal : vaddr.toNat % f.capSize = 0) {s s' : State f} (hs : A.Bounds s)
    (h : loadCapNoreg p auth vaddr s = .ok (some c, s')) (ht : c.tag = true) : A.grants c := by
  obtain ⟨r, u, htr, h⟩ := Prog.bind_eq_ok.1 h
  have hu : A.Bounds u := preserves_translateAddr hwalk _ _ s r u hs htr
  split at h
  · exact absurd h throw_ne_ok
  · exact absurd h noneWith_ne_some
  · rename_i addr ptw
    obtain ⟨result, t, hread, h⟩ := Prog.bind_eq_ok.1 h
    split at h
    · rename_i v
      obtain rfl := Option.some.inj (Prog.pure_eq_ok.1 h).1
      have hv : v.tag = true := by
        simp only [Bool.and_eq_true] at ht
        exact ht.1.2
      have hsame : { v with tag := !ptw.lcClear && v.tag && auth.permitLoadCap } = v := by
        have htag : (!ptw.lcClear && v.tag && auth.permitLoadCap) = v.tag := ht.trans hv.symm
        rw [htag]
      rw [hsame]
      have hcap := memReadCap_tagged hread hv
      rw [hcap] at hv ⊢
      exact hu.capAt (translateAddr_aligned hf hwalk hal htr) hv
    · exact absurd h noneWith_ne_some

theorem preserves_loadCapViaCap (hf : f.Sized) (hwalk : p.WalkKeeps) (cd : RegIdx)
    (place : Capability f × BitVec f.xlen × BitVec 6) :
    Preserves A.Bounds (loadCapViaCap p cd place) := by
  obtain ⟨auth, vaddr, authIdx⟩ := place
  unfold loadCapViaCap
  dsimp only
  split
  · exact preserves_failWithCap A _ _
  · split
    · exact preserves_failWithMem A _ _
    · rename_i hal
      have hal : vaddr.toNat % f.capSize = 0 := by simpa [isAlignedAddr] using hal
      intro s r s' hs h
      obtain ⟨result, t, hload, h⟩ := Prog.bind_eq_ok.1 h
      have ht : A.Bounds t := preserves_loadCapNoreg hwalk _ _ s result t hs hload
      cases result with
      | none => exact preserves_pure _ t r s' ht h
      | some c => exact preserves_writeCap (grants_loadCapNoreg hf hwalk hal hs hload) t r s' ht h

theorem silent_tagsLoop (addr : BitVec f.xlen) (is : List ℕ) (tags : BitVec f.xlen) :
    Silent (tagsLoop p addr is tags) := by
  induction is generalizing tags with
  | nil => exact silent_pure _
  | cons i is ih =>
    refine (silent_memReadCap _).bind fun result => ?_
    cases result with
    | error e => exact silent_pure _
    | ok v => exact ih _

theorem preserves_executeCLoadTags {core : Core f} {A : Authority core.platform}
    (hwalk : core.platform.WalkKeeps) (rd cs1 : RegIdx) :
    Preserves A.Bounds (executeCLoadTags core rd cs1) := by
  refine preserves_get_bind fun s hs => preserves_check A fun _ => preserves_check A fun _ =>
    preserves_check A fun _ => preserves_check A fun _ => preserves_check A fun _ => ?_
  refine Preserves.ite (preserves_failWithMem A _ _) ?_
  refine (preserves_translateAddr hwalk _ _).bind fun r => ?_
  split
  · exact preserves_throw _
  · exact preserves_failWithMem A _ _
  · refine Preserves.ite (preserves_failWithMem A _ _) ?_
    refine (silent_tagsLoop _ _ _).preserves.bind fun result => ?_
    cases result with
    | error e => exact preserves_failWithMem A _ _
    | ok v => exact preserves_writeInt rd v

theorem preserves_storeAt (hf : f.Sized) {value vaddr addr : BitVec f.xlen} {width : WordWidth}
    (hframe : ∀ {s : State f} (data : BitVec (8 * width.bytes)) (tag : Bool), A.frame s →
      A.frame (s.writeRam addr width.bytes data tag)) :
    Preserves A.Bounds (storeAt p value vaddr addr width) := by
  refine Preserves.ite (preserves_throw _) ?_
  refine Preserves.bind ?_ fun result => ?_
  · exact preserves_memWriteValueMeta fun _ hs =>
      hs.writeRam_data (width.bytes_le hf) (hframe _ _ hs.frame)
  · cases result with
    | ok _ => exact preserves_pure _
    | error e => exact preserves_failWithMem A _ _

/-- An access that passes the checks of its authority. -/
theorem dataAddrCheck_eq_none {auth : Capability f} {load store : Bool} {vaddr : BitVec f.xlen}
    {n : ℕ} (h : dataAddrCheck auth load store vaddr n = none) :
    auth.tag = true ∧ (store = true → auth.permitStore = true)
      ∧ auth.inCapBounds vaddr n = true := by
  unfold dataAddrCheck at h
  split_ifs at h with htag _ _ hstore hb
  refine ⟨tag_of_checked htag, fun hs => ?_, tag_of_checked hb⟩
  rw [hs, Bool.true_and] at hstore
  exact tag_of_checked hstore

/-- **A store of data** clears the tags of what it touches. -/
theorem preserves_storeValueViaCap (hf : f.Sized) (hwalk : p.WalkKeeps) (value : BitVec f.xlen)
    {place : Capability f × BitVec f.xlen × BitVec 6}
    (hplace : place.1.tag = true → A.grants place.1) (width : WordWidth) :
    Preserves A.Bounds (storeValueViaCap p value place width) := by
  obtain ⟨auth, vaddr, authIdx⟩ := place
  unfold storeValueViaCap
  dsimp only
  split
  · exact preserves_failWithCap A _ _
  · rename_i hcheck
    obtain ⟨htag, hstore, hb⟩ := dataAddrCheck_eq_none hcheck
    refine Preserves.ite (preserves_failWithMem A _ _) ?_
    intro s r s' hs h
    obtain ⟨tr, t, htr, h⟩ := Prog.bind_eq_ok.1 h
    have ht : A.Bounds t := preserves_translateAddr hwalk _ _ s tr t hs htr
    split at h
    · exact absurd h throw_ne_ok
    · exact preserves_failWithMem A _ _ t r s' ht h
    · exact preserves_storeAt hf (A.store hs.frame (hplace htag) (hstore rfl) hb htr) t r s' ht h

/-- A check of a store, and what it gives. -/
theorem preserves_checkCap {q : Prop} [Decidable q] {e : CapEx} {reg : BitVec 6}
    {x : M f Retired} (h : ¬ q → Preserves A.Bounds x) :
    Preserves A.Bounds (if q then failWithCap e reg else x) := by
  by_cases hq : q
  · rw [if_pos hq]
    exact preserves_failWithCap A _ _
  · rw [if_neg hq]
    exact h hq

/-- **A store of a capability** that is granted. -/
theorem preserves_storeCapViaCap (hwalk : p.WalkKeeps) {c : Capability f}
    (hc : c.tag = true → A.grants c) {place : Capability f × BitVec f.xlen × BitVec 6}
    (hplace : place.1.tag = true → A.grants place.1) :
    Preserves A.Bounds (storeCapViaCap p c place) := by
  obtain ⟨auth, vaddr, authIdx⟩ := place
  refine preserves_checkCap fun htag => preserves_checkCap fun _ => preserves_checkCap fun hstore =>
    preserves_checkCap fun _ => preserves_checkCap fun _ => preserves_checkCap fun hb =>
    Preserves.ite (preserves_failWithMem A _ _) ?_
  intro s r s' hs h
  obtain ⟨tr, t, htr, h⟩ := Prog.bind_eq_ok.1 h
  have ht : A.Bounds t := preserves_translateAddr hwalk _ _ s tr t hs htr
  cases tr with
  | TR_Failure e ptw => exact preserves_failWithMem A _ _ t r s' ht h
  | TR_Address addr ptw =>
    have hframe : ∀ u : State f, A.frame u →
        A.frame (u.writeRam addr f.capSize c.capToMemBits c.tag) := fun u hu =>
      A.store hs.frame (hplace (tag_of_checked htag)) (tag_of_checked hstore)
        (tag_of_checked hb) htr _ _ hu
    dsimp only at h
    split at h
    · exact preserves_failWithMem A _ _ t r s' ht h
    · rename_i hal
      have hal : addr.toNat % f.capSize = 0 := by simpa [isAlignedAddr] using hal
      have hwrite : Preserves A.Bounds (memWriteCap p addr c) :=
        preserves_memWriteCap hal hc fun hu => hframe _ hu
      obtain ⟨result, u, hres, h⟩ := Prog.bind_eq_ok.1 h
      have hu : A.Bounds u := hwrite t result u ht hres
      cases result with
      | ok _ => exact preserves_pure _ u r s' hu h
      | error e => exact preserves_failWithMem A _ _ u r s' hu h

/-- **The authority of an access is held**, whichever it is. -/
theorem Authority.Bounds.cheriModeCapAddr {s : State f} (hs : A.Bounds s) (baseReg : RegIdx)
    (offset : BitVec f.xlen) (ht : (cheriModeCapAddr s baseReg offset).1.tag = true) :
    A.grants (Sail.cheriModeCapAddr s baseReg offset).1 := by
  unfold Sail.cheriModeCapAddr at ht ⊢
  split at ht
  · rename_i hmode
    rw [if_pos hmode]
    exact hs.rC ht
  · rename_i hmode
    rw [if_neg hmode]
    exact hs.scr ht

variable {core : Core f} {A : Authority core.platform} (hf : f.Sized)
  (hwalk : core.platform.WalkKeeps)

include hwalk

theorem preserves_executeLoadDataDDC (rd rs1 : RegIdx) (isUnsigned : Bool) (width : WordWidth) :
    Preserves A.Bounds (executeLoadDataDDC core rd rs1 isUnsigned width) :=
  preserves_get_bind fun _ _ => preserves_loadDataViaCap hwalk _ _ _ _

theorem preserves_executeLoadDataCap (rd cs1 : RegIdx) (isUnsigned : Bool) (width : WordWidth) :
    Preserves A.Bounds (executeLoadDataCap core rd cs1 isUnsigned width) :=
  preserves_get_bind fun _ _ => preserves_loadDataViaCap hwalk _ _ _ _

theorem preserves_executeStoreCapDDC (cs2 rs1 : RegIdx) :
    Preserves A.Bounds (executeStoreCapDDC core cs2 rs1) :=
  preserves_get_bind fun _ hs => preserves_storeCapViaCap hwalk hs.rC hs.scr

theorem preserves_executeStoreCapCap (cs2 cs1 : RegIdx) :
    Preserves A.Bounds (executeStoreCapCap core cs2 cs1) :=
  preserves_get_bind fun _ hs => preserves_storeCapViaCap hwalk hs.rC hs.rC

theorem preserves_executeStoreCapImm (cs2 rs1 : RegIdx) (imm : BitVec 12) :
    Preserves A.Bounds (executeStoreCapImm core cs2 rs1 imm) :=
  preserves_get_bind fun _ hs => preserves_storeCapViaCap hwalk hs.rC (hs.cheriModeCapAddr _ _)

theorem preserves_executeLOAD (imm : BitVec 12) (rs1 rd : RegIdx) (isUnsigned : Bool)
    (width : WordWidth) : Preserves A.Bounds (executeLOAD core imm rs1 rd isUnsigned width) := by
  refine preserves_get_bind fun s hs => ?_
  split
  split
  · exact preserves_failWithCap A _ _
  · refine Preserves.ite (preserves_failWithMem A _ _) ?_
    refine (preserves_translateAddr hwalk _ _).bind fun r => ?_
    split
    · exact preserves_failWithMem A _ _
    · exact preserves_loadInto rd _ _ _ _

include hf

theorem preserves_executeLoadCapDDC (cd rs1 : RegIdx) :
    Preserves A.Bounds (executeLoadCapDDC core cd rs1) :=
  preserves_get_bind fun _ _ => preserves_loadCapViaCap hf hwalk _ _

theorem preserves_executeLoadCapCap (cd cs1 : RegIdx) :
    Preserves A.Bounds (executeLoadCapCap core cd cs1) :=
  preserves_get_bind fun _ _ => preserves_loadCapViaCap hf hwalk _ _

theorem preserves_executeLoadCapImm (cd rs1 : RegIdx) (imm : BitVec 12) :
    Preserves A.Bounds (executeLoadCapImm core cd rs1 imm) :=
  preserves_get_bind fun _ _ => preserves_loadCapViaCap hf hwalk _ _

theorem preserves_executeStoreDataDDC (rs2 rs1 : RegIdx) (width : WordWidth) :
    Preserves A.Bounds (executeStoreDataDDC core rs2 rs1 width) :=
  preserves_get_bind fun _ hs => preserves_storeValueViaCap hf hwalk _ hs.scr _

theorem preserves_executeStoreDataCap (rs2 cs1 : RegIdx) (width : WordWidth) :
    Preserves A.Bounds (executeStoreDataCap core rs2 cs1 width) :=
  preserves_get_bind fun _ hs => preserves_storeValueViaCap hf hwalk _ hs.rC _

theorem preserves_executeSTORE (imm : BitVec 12) (rs2 rs1 : RegIdx) (width : WordWidth) :
    Preserves A.Bounds (executeSTORE core imm rs2 rs1 width) := by
  refine preserves_get_bind fun s hs => ?_
  have hplace := hs.cheriModeCapAddr rs1 (imm.signExtend f.xlen)
  obtain ⟨⟨auth, vaddr, authIdx⟩, hp⟩ : ∃ place, cheriModeCapAddr s rs1 (imm.signExtend f.xlen)
      = place := ⟨_, rfl⟩
  rw [hp] at hplace ⊢
  dsimp only at hplace ⊢
  split
  · exact preserves_failWithCap A _ _
  · rename_i hcheck
    obtain ⟨htag, hstore, hb⟩ := dataAddrCheck_eq_none hcheck
    refine Preserves.ite (preserves_failWithMem A _ _) ?_
    intro s r s' hs h
    obtain ⟨tr, t, htr, h⟩ := Prog.bind_eq_ok.1 h
    have ht : A.Bounds t := preserves_translateAddr hwalk _ _ s tr t hs htr
    split at h
    · exact preserves_failWithMem A _ _ t r s' ht h
    · exact preserves_storeAt hf (A.store hs.frame (hplace htag) (hstore rfl) hb htr) t r s' ht h

end MemoryInstructions

/-! ## The instructions of the base architecture -/

section BaseInstructions

variable {core : Core f} {A : Authority core.platform}

theorem preserves_executeUTYPE (imm : BitVec 20) (rd : RegIdx) (op : Uop) :
    Preserves A.Bounds (executeUTYPE imm rd op : M f Retired) :=
  preserves_get_bind fun _ _ => preserves_writeInt rd _

theorem preserves_executeITYPE (imm : BitVec 12) (rs1 rd : RegIdx) (op : Iop) :
    Preserves A.Bounds (executeITYPE imm rs1 rd op : M f Retired) :=
  preserves_get_bind fun _ _ => preserves_writeInt rd _

theorem preserves_executeSHIFTIOP (shamt : BitVec 6) (rs1 rd : RegIdx) (op : Sop) :
    Preserves A.Bounds (executeSHIFTIOP shamt rs1 rd op : M f Retired) :=
  preserves_get_bind fun _ _ => preserves_writeInt rd _

theorem preserves_executeRTYPE (rs2 rs1 rd : RegIdx) (op : Rop) :
    Preserves A.Bounds (executeRTYPE rs2 rs1 rd op : M f Retired) :=
  preserves_get_bind fun _ _ => preserves_writeInt rd _

theorem preserves_executeADDIW (imm : BitVec 12) (rs1 rd : RegIdx) :
    Preserves A.Bounds (executeADDIW imm rs1 rd : M f Retired) :=
  preserves_get_bind fun _ _ => preserves_writeInt rd _

theorem preserves_executeRTYPEW (rs2 rs1 rd : RegIdx) (op : Ropw) :
    Preserves A.Bounds (executeRTYPEW rs2 rs1 rd op : M f Retired) :=
  preserves_get_bind fun _ _ => preserves_writeInt rd _

theorem preserves_executeSHIFTIWOP (shamt : BitVec 5) (rs1 rd : RegIdx) (op : Sopw) :
    Preserves A.Bounds (executeSHIFTIWOP shamt rs1 rd op : M f Retired) :=
  preserves_get_bind fun _ _ => preserves_writeInt rd _

/-- A jump inside the program counter capability, once it is checked. -/
theorem preserves_checkedTarget {target : BitVec f.xlen} {jump : M f Retired}
    (h : Preserves A.Bounds jump) : Preserves A.Bounds (checkedTarget core target jump) :=
  preserves_get_bind fun _ _ => Preserves.ite (preserves_failAt A _ _)
    (Preserves.ite (preserves_failAt A _ _) h)

theorem preserves_linkAndJump (rd : RegIdx) (target : BitVec f.xlen) :
    Preserves A.Bounds (linkAndJump rd target) := by
  refine Preserves.bind (preserves_modify fun s hs => ?_) fun _ => preserves_pure _
  have hlink : A.Bounds (s.wX rd s.getNextPc) := hs.wC rd fun htag => (by cases htag)
  exact hlink.same rfl rfl rfl rfl rfl

theorem preserves_executeJAL (imm : BitVec 21) (rd : RegIdx) :
    Preserves A.Bounds (executeJAL core imm rd) :=
  preserves_get_bind fun _ _ => preserves_checkedTarget (preserves_linkAndJump rd _)

theorem preserves_executeJALR (imm : BitVec 12) (rs1 rd : RegIdx) :
    Preserves A.Bounds (executeJALR core imm rs1 rd) :=
  preserves_get_bind fun _ _ => preserves_checkedTarget (preserves_linkAndJump rd _)

theorem preserves_executeBTYPE (imm : BitVec 13) (rs2 rs1 : RegIdx) (op : Bop) :
    Preserves A.Bounds (executeBTYPE core imm rs2 rs1 op) := by
  refine preserves_get_bind fun s hs => ?_
  refine Preserves.ite (preserves_checkedTarget ?_) (preserves_pure _)
  exact (preserves_modify fun s hs => hs.same rfl rfl rfl rfl rfl).bind fun _ => preserves_pure _

theorem preserves_executeECALL : Preserves A.Bounds (executeECALL : M f Retired) := by
  refine preserves_get_bind fun s hs => ?_
  split
  · exact preserves_failAt A _ _
  · exact preserves_failAt A _ _
  · exact preserves_failAt A _ _

/-- **A return goes on with what a trap has saved**, or what was put there. -/
theorem preserves_returnTo (p : Privilege) : Preserves A.Bounds (returnTo core p) := by
  refine Preserves.bind ?_ fun target => ?_
  · refine preserves_get_bind fun s hs => ?_
    refine Preserves.bind (preserves_modify fun t ht => ht.setScr _ ?_) fun _ => preserves_pure _
    intro htag
    split at htag
    · rename_i hsentry
      rw [if_pos hsentry]
      exact Authority.sealCap (grants_legalizeEpcc hs.scr htag) f.otypeUnsealed
    · rename_i hsentry
      rw [if_neg hsentry]
      exact grants_legalizeEpcc hs.scr htag
  · exact (preserves_modify fun s hs => hs.same rfl rfl rfl rfl rfl).bind fun _ => preserves_pure _

theorem preserves_executeMRET : Preserves A.Bounds (executeMRET core) := by
  refine preserves_get_bind fun s hs => Preserves.ite (preserves_failAt A _ _) ?_
  refine Preserves.ite (preserves_failAt A _ _) ((silent_lift _).preserves.bind fun priv => ?_)
  refine Preserves.bind (preserves_set ?_) fun _ => preserves_returnTo _
  exact hs.same rfl rfl rfl rfl rfl

theorem preserves_executeSRET : Preserves A.Bounds (executeSRET core) := by
  refine preserves_get_bind fun s hs => Preserves.ite (preserves_failAt A _ _) ?_
  refine Preserves.ite (preserves_failAt A _ _) ?_
  refine Preserves.bind (preserves_set ?_) fun _ => preserves_returnTo _
  exact hs.same rfl rfl rfl rfl rfl

theorem preserves_executeURET : Preserves A.Bounds (executeURET core) := by
  refine preserves_get_bind fun s hs => Preserves.ite (preserves_failAt A _ _) ?_
  refine Preserves.ite (preserves_failAt A _ _) ?_
  refine Preserves.bind (preserves_set ?_) fun _ => preserves_returnTo _
  exact hs.same rfl rfl rfl rfl rfl

end BaseInstructions

/-! ## Programs -/

section Programs

variable {core : Core f} {A : Authority core.platform}

/-- **Every instruction keeps to the authority.** -/
theorem preserves_execute (hf : f.Sized) (hwalk : core.platform.WalkKeeps) (i : Instr) :
    Preserves A.Bounds (i.execute core) := by
  cases i with
  | CGetPerm rd cs1 => exact preserves_executeCGetPerm cs1 rd
  | CGetFlags rd cs1 => exact preserves_executeCGetFlags cs1 rd
  | CGetType rd cs1 => exact preserves_executeCGetType cs1 rd
  | CGetBase rd cs1 => exact preserves_executeCGetBase cs1 rd
  | CGetOffset rd cs1 => exact preserves_executeCGetOffset cs1 rd
  | CGetLen rd cs1 => exact preserves_executeCGetLen cs1 rd
  | CGetTag rd cs1 => exact preserves_executeCGetTag cs1 rd
  | CGetSealed rd cs1 => exact preserves_executeCGetSealed cs1 rd
  | CGetAddr rd cs1 => exact preserves_executeCGetAddr cs1 rd
  | CToPtr rd cs1 cs2 => exact preserves_executeCToPtr cs1 cs2 rd
  | CSub rd cs1 cs2 => exact preserves_executeCSub cs1 cs2 rd
  | CRRL rd rs1 => exact preserves_executeCRRL rd rs1
  | CRAM rd rs1 => exact preserves_executeCRAM rd rs1
  | CTestSubset rd cs1 cs2 => exact preserves_executeCTestSubset cs1 cs2 rd
  | CSEQX rd cs1 cs2 => exact preserves_executeCSEQX cs1 cs2 rd
  | CAndPerm cd cs1 rs2 => exact preserves_executeCAndPerm cd cs1 rs2
  | CSetFlags cd cs1 rs2 => exact preserves_executeCSetFlags cd cs1 rs2
  | CIncOffset cd cs1 rs2 => exact preserves_executeCIncOffset cd cs1 rs2
  | CIncOffsetImmediate cd cs1 imm => exact preserves_executeCIncOffsetImmediate cd cs1 imm
  | CSetOffset cd cs1 rs2 => exact preserves_executeCSetOffset cd cs1 rs2
  | CSetAddr cd cs1 rs2 => exact preserves_executeCSetAddr cd cs1 rs2
  | CSetBounds cd cs1 rs2 => exact preserves_executeCSetBounds cd cs1 rs2 hf.maxE
  | CSetBoundsImmediate cd cs1 uimm =>
    exact preserves_executeCSetBoundsImmediate cd cs1 hf.maxE uimm
  | CSetBoundsExact cd cs1 rs2 => exact preserves_executeCSetBoundsExact cd cs1 rs2 hf.maxE
  | CClearTag cd cs1 => exact preserves_executeCClearTag cd cs1
  | CMove cd cs1 => exact preserves_executeCMove cd cs1
  | CClear q m => exact preserves_executeCClear q m
  | CFromPtr cd cs1 rs2 => exact preserves_executeCFromPtr cd cs1 rs2
  | CBuildCap cd cs1 cs2 => exact preserves_executeCBuildCap cd cs1 cs2
  | CCopyType cd cs1 cs2 => exact preserves_executeCCopyType cd cs1 cs2
  | AUIPCC imm cd => exact preserves_executeAUIPCC cd imm
  | CSeal cd cs1 cs2 => exact preserves_executeCSeal cd cs1 cs2
  | CCSeal cd cs1 cs2 => exact preserves_executeCCSeal cd cs1 cs2
  | CUnseal cd cs1 cs2 => exact preserves_executeCUnseal cd cs1 cs2
  | CSealEntry cd cs1 => exact preserves_executeCSealEntry cd cs1
  | CSpecialRW cd scr cs1 => exact preserves_executeCSpecialRW cd cs1 core scr
  | CInvoke cs1 cs2 => exact preserves_executeCInvoke cs1 cs2 core
  | CJALR cd cs1 => exact preserves_executeCJALR cd cs1 core
  | LoadDataDDC rd rs1 isUnsigned width =>
    exact preserves_executeLoadDataDDC hwalk rd rs1 isUnsigned width
  | LoadDataCap rd cs1 isUnsigned width =>
    exact preserves_executeLoadDataCap hwalk rd cs1 isUnsigned width
  | LoadCapDDC cd rs1 => exact preserves_executeLoadCapDDC hf hwalk cd rs1
  | LoadCapCap cd cs1 => exact preserves_executeLoadCapCap hf hwalk cd cs1
  | LoadCapImm cd rs1 imm => exact preserves_executeLoadCapImm hf hwalk cd rs1 imm
  | CLoadTags rd cs1 => exact preserves_executeCLoadTags hwalk rd cs1
  | StoreDataDDC rs2 rs1 width => exact preserves_executeStoreDataDDC hf hwalk rs2 rs1 width
  | StoreDataCap rs2 cs1 width => exact preserves_executeStoreDataCap hf hwalk rs2 cs1 width
  | StoreCapDDC cs2 rs1 => exact preserves_executeStoreCapDDC hwalk cs2 rs1
  | StoreCapCap cs2 cs1 => exact preserves_executeStoreCapCap hwalk cs2 cs1
  | StoreCapImm cs2 rs1 imm => exact preserves_executeStoreCapImm hwalk cs2 rs1 imm
  | LOAD imm rs1 rd isUnsigned width =>
    exact preserves_executeLOAD hwalk imm rs1 rd isUnsigned width
  | STORE imm rs2 rs1 width => exact preserves_executeSTORE hf hwalk imm rs2 rs1 width
  | UTYPE imm rd op => exact preserves_executeUTYPE imm rd op
  | ITYPE imm rs1 rd op => exact preserves_executeITYPE imm rs1 rd op
  | SHIFTIOP shamt rs1 rd op => exact preserves_executeSHIFTIOP shamt rs1 rd op
  | RTYPE rs2 rs1 rd op => exact preserves_executeRTYPE rs2 rs1 rd op
  | ADDIW imm rs1 rd => exact preserves_executeADDIW imm rs1 rd
  | RTYPEW rs2 rs1 rd op => exact preserves_executeRTYPEW rs2 rs1 rd op
  | SHIFTIWOP shamt rs1 rd op => exact preserves_executeSHIFTIWOP shamt rs1 rd op
  | JAL imm rd => exact preserves_executeJAL imm rd
  | JALR imm rs1 rd => exact preserves_executeJALR imm rs1 rd
  | BTYPE imm rs2 rs1 op => exact preserves_executeBTYPE imm rs2 rs1 op
  | ECALL => exact preserves_executeECALL
  | EBREAK => exact preserves_failAt A _ _
  | FENCE => exact preserves_pure _
  | MRET => exact preserves_executeMRET
  | SRET => exact preserves_executeSRET
  | URET => exact preserves_executeURET

/-- **One step**: the next program counter capability is held already. -/
theorem preserves_step (hf : f.Sized) (hwalk : core.platform.WalkKeeps) (i : Instr) :
    Preserves A.Bounds (step core i) := by
  have hfetch : Preserves A.Bounds
      (modify fun s => { s with nextPC := s.PC + 4 } : M f Unit) :=
    preserves_modify fun _ hs => hs.same rfl rfl rfl rfl rfl
  have htick : Preserves A.Bounds (modify State.tickPc : M f Unit) :=
    preserves_modify fun s hs =>
      (hs.setScr .PCC fun htag => hs.scr htag).same rfl rfl rfl rfl rfl
  exact hfetch.bind fun _ => (preserves_execute hf hwalk i).bind fun _ =>
    htick.bind fun _ => preserves_pure _

theorem preserves_run (hf : f.Sized) (hwalk : core.platform.WalkKeeps) (program : List Instr) :
    Preserves A.Bounds (run core program) := by
  induction program with
  | nil => exact preserves_pure _
  | cons i program ih => exact (preserves_step hf hwalk i).bind fun _ => ih

/-- **The authority of a state**: what it holds, and what is narrower. -/
def State.authority (s : State f) (p : Platform f) : Authority p where
  grants c := c.WellFormed ∧ ∃ d, s.Holds d ∧ c.AtMost d
  wellFormed h := h.1
  narrow := fun ⟨_, d, hd, hle⟩ hw hv => ⟨hw, d, hd, hv.trans hle⟩
  frame _ := True
  congr _ _ _ := trivial
  translate _ _ := trivial
  store _ _ _ _ _ _ _ _ _ := trivial

/-- **No program gets authority.** Where what a machine holds is well formed, a
capability that is in a register or in memory after a program of these
instructions, with all the traps it takes, is well formed, and has at most the
bounds and permissions of one that was in a register or in memory before. -/
theorem run_monotone (hf : f.Sized) (hwalk : core.platform.WalkKeeps) {program : List Instr}
    {s s' : State f} (hs : ∀ c, s.Holds c → c.WellFormed)
    (hrun : run core program s = .ok ((), s'))
    {c : Capability f} (hc : s'.Holds c) : c.WellFormed ∧ ∃ d, s.Holds d ∧ c.AtMost d := by
  have hfirst : (s.authority core.platform).Bounds s :=
    ⟨fun d hd => ⟨hs d hd, d, hd, AtMost.refl d⟩, trivial⟩
  exact (preserves_run hf hwalk program s () s' hfirst hrun).held c hc

/-- A core with nothing optional. -/
def plainCore : Core .cheri64 :=
  ⟨smallPlatform, false, false, false, false, fun _ _ _ => 0, fun _ => 0⟩

theorem plainCore_walkKeeps : plainCore.platform.WalkKeeps :=
  ⟨fun h => absurd h throw_ne_ok, fun h => absurd h throw_ne_ok⟩

/-- The machine before any enclave, with one capability, in `c2`, besides those of
the program counter. -/
def loneState (v : Capability .cheri64) : State .cheri64 :=
  { bootState with
    x := fun r => if r = 2 then v else .nullCap _
    tags := fun _ => false }

theorem loneState_holds {v c : Capability .cheri64} (hc : (loneState v).Holds c) :
    c = v ∨ c = bounded 0x80000000 0x80000010 := by
  obtain ⟨htag, ⟨r, rfl⟩ | ⟨r, rfl⟩ | ⟨addr, -, rfl⟩⟩ := hc
  · rw [State.rC] at htag ⊢
    split at htag
    · cases htag
    · rename_i h0
      rw [if_neg h0]
      by_cases h2 : r.toNat = 2
      · exact Or.inl (if_pos h2)
      · have hx : (loneState v).x r.toNat = .nullCap _ := if_neg h2
        rw [hx] at htag
        cases htag
  · by_cases hr : r = .PCC ∨ r = .nextPCC
    · exact Or.inr (if_pos hr)
    · have hscr : (loneState v).scr r = .nullCap _ := if_neg hr
      rw [hscr] at htag
      cases htag
  · cases htag

theorem wellFormed_code : (bounded 0x80000000 0x80000010 : Capability .cheri64).WellFormed :=
  ⟨⟨by decide, by decide, by decide⟩, by decide, by decide⟩

/-- The machine with a root capability. -/
def rootState : State .cheri64 := loneState (.defaultCap _)

theorem rootState_wellFormed {c : Capability .cheri64} (hc : rootState.Holds c) :
    c.WellFormed := by
  obtain rfl | rfl := loneState_holds hc
  · exact ⟨⟨by decide, by decide, by decide⟩, by decide, by decide⟩
  · exact wellFormed_code

/-- The machine cuts a piece out of a root capability, stores it and loads it
again, and seals it as an entry; a second cut traps. -/
def cutProgram : List Instr :=
  [.UTYPE 0x80000 7 .RISCV_LUI, .ITYPE 8 7 7 .RISCV_ADDI, .CSetAddr 3 2 7,
    .CSetBoundsImmediate 4 3 0x10, .StoreCapCap 4 3, .LoadCapCap 5 3, .CSealEntry 6 5,
    .CSetBoundsImmediate 8 6 4]

theorem run_monotone_cut :
    ∃ s', run plainCore cutProgram rootState = .ok ((), s')
      ∧ ∀ c, s'.Holds c → c.WellFormed ∧ ∃ d, rootState.Holds d ∧ c.AtMost d := by
  obtain ⟨s', hrun⟩ := exists_ok_of_map_fst (a := ())
    (show (run plainCore cutProgram rootState).toOption.map Prod.fst = _ by decide +kernel)
  exact ⟨s', hrun, fun c hc => run_monotone ⟨by decide, by decide, by decide⟩
    plainCore_walkKeeps (fun d hd => rootState_wellFormed hd) hrun hc⟩

end Programs

/-! ## Memory out of reach -/

section Reach

variable {p : Platform f} {s t : State f}

/-- With no root of a page table, no mode translates. -/
theorem translationMode_of_satp (hsatp : s.satp = 0) {priv : Privilege} {mode : SATPMode}
    (h : translationMode s priv = .ok mode) : mode = .Sbare := by
  unfold translationMode at h
  rw [hsatp] at h
  split_ifs at h <;> simp_all

theorem translateAddr_of_satp (hsatp : s.satp = 0) {vaddr : BitVec f.xlen} {ac : AccessType}
    {r : TRResult f.xlen} (h : translateAddr p vaddr ac s = .ok (r, t)) :
    r = .TR_Address vaddr initExtPtw ∧ t = s := by
  obtain ⟨a, u, hget, h⟩ := Prog.bind_eq_ok.1 h
  obtain ⟨rfl, rfl⟩ := get_eq_ok.1 hget
  obtain ⟨priv, u, hpriv, h⟩ := Prog.bind_eq_ok.1 h
  obtain ⟨-, rfl⟩ := lift_eq_ok.1 hpriv
  obtain ⟨mode, u, hmode, h⟩ := Prog.bind_eq_ok.1 h
  obtain ⟨hbare, rfl⟩ := lift_eq_ok.1 hmode
  rw [if_pos (translationMode_of_satp hsatp hbare)] at h
  obtain ⟨rfl, rfl⟩ := pure_eq_ok.1 h
  exact ⟨rfl, rfl⟩

/-- **A capability that stores inside a region**, if it stores at all. -/
def Capability.StoresIn (c : Capability f) (lo hi : ℕ) : Prop :=
  c.permitStore = true → lo ≤ c.getCapBase ∧ c.getCapTop ≤ hi

theorem Capability.AtMost.storesIn {c d : Capability f} {lo hi : ℕ} (hle : c.AtMost d)
    (h : d.StoresIn lo hi) : c.StoresIn lo hi := by
  intro hc
  have hbit : ∀ e : Capability f, e.getCapPerms.getLsbD 3 = e.permitStore := fun e => by
    rw [getLsbD_getCapPerms, if_pos (by decide)]
    rfl
  have hd := hle.perms 3 (by rw [hbit, hc])
  rw [hbit] at hd
  obtain ⟨hbase, htop⟩ := h hd
  exact ⟨hbase.trans hle.base, hle.top.trans htop⟩

/-- **The authority of a region**: capabilities that store inside it. Its frame
is the rest of memory, as it was. -/
def regionAuthority (p : Platform f) (lo hi : ℕ) (mem : ℕ → BitVec 8) : Authority p where
  grants c := c.WellFormed ∧ c.StoresIn lo hi
  wellFormed h := h.1
  narrow := fun ⟨_, hin⟩ hw hle => ⟨hw, hle.storesIn hin⟩
  frame s := s.satp = 0 ∧ ∀ j, ¬ (lo ≤ j ∧ j < hi) → s.mem j = mem j
  congr hmem hsatp h := ⟨hsatp.trans h.1, fun j hj => (congrFun hmem j).trans (h.2 j hj)⟩
  translate h htr := by
    obtain ⟨-, rfl⟩ := translateAddr_of_satp h.1 htr
    exact h
  store := by
    intro s t auth vaddr n ac addr ptw h hauth hstore hb htr u data tag hu
    obtain ⟨heq, -⟩ := translateAddr_of_satp h.1 htr
    obtain ⟨rfl, -⟩ := TRResult.TR_Address.inj heq
    obtain ⟨hlo, hhi⟩ := hauth.2 hstore
    obtain ⟨hbase, htop⟩ := Bool.and_eq_true_iff.1 hb
    have hbase := of_decide_eq_true hbase
    have htop := of_decide_eq_true htop
    refine ⟨hu.1, fun j hj => ?_⟩
    have hout : ¬ (addr.toNat ≤ j ∧ j < addr.toNat + n) := by omega
    exact (if_neg hout).trans (hu.2 j hj)

/-- **Memory out of reach is not written.** Where nothing that a machine holds
can store outside a region, and no access is translated, a program of these
instructions leaves the rest of memory as it was, and holds nothing that could
store there. -/
theorem run_keeps_memory {core : Core f} (hf : f.Sized) (hwalk : core.platform.WalkKeeps)
    {program : List Instr} {s s' : State f} {lo hi : ℕ} (hsatp : s.satp = 0)
    (hs : ∀ c, s.Holds c → c.WellFormed ∧ c.StoresIn lo hi)
    (hrun : run core program s = .ok ((), s')) :
    (∀ c, s'.Holds c → c.StoresIn lo hi)
      ∧ ∀ j, ¬ (lo ≤ j ∧ j < hi) → s'.mem j = s.mem j := by
  have hfirst : (regionAuthority core.platform lo hi s.mem).Bounds s :=
    ⟨hs, hsatp, fun _ _ => rfl⟩
  have hlast := preserves_run hf hwalk program s () s' hfirst hrun
  exact ⟨fun c hc => (hlast.held c hc).2, hlast.frame.2⟩

/-- The machine with two granules of memory. -/
def confinedState : State .cheri64 := loneState (bounded 0x80000010 0x80000020)

theorem confinedState_storesIn {c : Capability .cheri64} (hc : confinedState.Holds c) :
    c.WellFormed ∧ c.StoresIn 0x80000000 0x80000020 := by
  obtain rfl | rfl := loneState_holds hc
  · exact ⟨⟨⟨by decide, by decide, by decide⟩, by decide, by decide⟩, fun _ => by decide⟩
  · exact ⟨wellFormed_code, fun _ => by decide⟩

/-- A capability is stored inside the region, and a second store, past it, traps. -/
def storeProgram : List Instr :=
  [.StoreCapCap 2 2, .CIncOffsetImmediate 3 2 0x10, .StoreCapCap 2 3]

theorem run_keeps_memory_store :
    ∃ s', run plainCore storeProgram confinedState = .ok ((), s')
      ∧ (∀ c, s'.Holds c → c.StoresIn 0x80000000 0x80000020)
      ∧ ∀ j, ¬ (0x80000000 ≤ j ∧ j < 0x80000020) → s'.mem j = confinedState.mem j := by
  obtain ⟨s', hrun⟩ := exists_ok_of_map_fst (a := ())
    (show (run plainCore storeProgram confinedState).toOption.map Prod.fst = _ by decide +kernel)
  exact ⟨s', hrun, run_keeps_memory ⟨by decide, by decide, by decide⟩ plainCore_walkKeeps rfl
    (fun d hd => confinedState_storesIn hd) hrun⟩

end Reach

end Sail
