import CheriTree.Sail.PageTables

/-!
# What a sweep sees of the memory

A sweep asks for the tag of a granule at its physical address, and then loads
the capability of it at the same address through translation. Its verdict is
about what the loads show (`SweepTest.Shows`), and not about what the memory
holds (`SweepTest.Holds`): the two agree where each granule translates to
itself with its tag.

Neither `EInitData` nor `IsUnique` asks for a privilege, so the verdict is given
in every mode, through whatever page table is in force. It is independent of
the translation exactly where what the loads show is (`sweep_sameVerdict_iff`).
-/

namespace Sail

open Prog

variable {f : CapFormat} {p : Platform f} {s t s' t' : State f} {test : SweepTest f}

/-! ## What is held and what is shown -/

namespace SweepTest

/-- A granule in which no capability is to be. -/
def forbids (a : BitVec f.xlen) : SweepTest f → Bool
  | one _ => false
  | two capCode _ => capCode.inCapBounds a f.capSize

/-- A granule that is passed over. -/
def exempts (a : BitVec f.xlen) : SweepTest f → Bool
  | one cap => cap.inCapBounds a f.capSize
  | two _ capData => capData.inCapBounds a f.capSize

/-- A capability that overlaps a section. -/
def reaches (c : Capability f) : SweepTest f → Bool
  | one cap => overlap cap c
  | two capCode capData => overlap capCode c || overlap capData c

/-- **The memory holds a capability that the sweep is to find** in the
granule. -/
def Holds (test : SweepTest f) (s : State f) (a : BitVec f.xlen) : Prop :=
  s.tags (tagAddr a) = true ∧ (test.forbids a = true
    ∨ test.exempts a = false ∧ test.reaches (s.capAt a) = true)

/-- **The sweep is stopped at the granule**: its load through the translation
fails, or shows a capability that overlaps. -/
def Shows (p : Platform f) (test : SweepTest f) (s : State f) (a : BitVec f.xlen) : Prop :=
  s.tags (tagAddr a) = true ∧ (test.forbids a = true
    ∨ test.exempts a = false ∧ (LoadFaults p s a
      ∨ ∃ c, loadCapNoreg p (ambientCap p) a s = .ok (some c, s) ∧ test.reaches c = true))

/-- What a load of the sweep says of its granule. -/
theorem load_shows_iff (hwalk : p.WalkReads) {a : BitVec f.xlen} {b : Bool}
    {ov : Capability f → Bool}
    (h : (do
      match ← loadCapNoreg p (ambientCap p) a with
      | none => pure true
      | some loaded => pure (ov loaded) : M f Bool) s = .ok (b, s')) :
    b = true ↔ LoadFaults p s a
      ∨ ∃ c, loadCapNoreg p (ambientCap p) a s = .ok (some c, s) ∧ ov c = true := by
  obtain ⟨r, u, hload, hrest⟩ := Prog.bind_eq_ok.1 h
  cases r with
  | none =>
    obtain ⟨rfl, rfl⟩ := pure_eq_ok.1 hrest
    exact ⟨fun _ => Or.inl ⟨_, hload⟩, fun _ => rfl⟩
  | some loaded =>
    obtain ⟨rfl, rfl⟩ := pure_eq_ok.1 hrest
    obtain ⟨-, rfl⟩ | ⟨hnone, -⟩ := failsBy_loadCapNoreg hwalk _ _ _ _ _ hload
    · constructor
      · exact fun hov => Or.inr ⟨loaded, hload, hov⟩
      · rintro (⟨u, hu⟩ | ⟨c, hc, hov⟩)
        · have := hload.symm.trans hu
          simp at this
        · have heq := hload.symm.trans hc
          simp only [Except.ok.injEq, Prod.mk.injEq, Option.some.injEq, and_true] at heq
          rwa [heq]
    · cases hnone

/-- **The test of a granule** stops the sweep where something is shown. -/
theorem granule_iff_shows (hwalk : p.WalkReads) {a : BitVec f.xlen} {b : Bool}
    (h : test.granule p a s = .ok (b, s')) : b = true ↔ test.Shows p s a := by
  unfold Shows
  cases test with
  | one cap =>
    obtain ⟨u, v, hget, hbody⟩ := Prog.bind_eq_ok.1 h
    obtain ⟨rfl, rfl⟩ := get_eq_ok.1 hget
    obtain ⟨htag, hbody⟩ | ⟨htag, hbody⟩ := ite_eq_ok.1 hbody
    · obtain ⟨hin, hbody⟩ | ⟨hin, hbody⟩ := ite_eq_ok.1 hbody
      · have hout : cap.inCapBounds a f.capSize = false := by simpa using hin
        rw [load_shows_iff hwalk hbody]
        simp [htag, forbids, exempts, reaches, hout]
      · have hin' : cap.inCapBounds a f.capSize = true := by simpa using hin
        rw [← (pure_eq_ok.1 hbody).1]
        simp [forbids, exempts, hin']
    · rw [← (pure_eq_ok.1 hbody).1]
      simp [htag]
  | two capCode capData =>
    obtain ⟨u, v, hget, hbody⟩ := Prog.bind_eq_ok.1 h
    obtain ⟨rfl, rfl⟩ := get_eq_ok.1 hget
    obtain ⟨htag, hbody⟩ | ⟨htag, hbody⟩ := ite_eq_ok.1 hbody
    · obtain ⟨hcode, hbody⟩ | ⟨hcode, hbody⟩ := ite_eq_ok.1 hbody
      · rw [← (pure_eq_ok.1 hbody).1]
        simp [htag, forbids, hcode]
      · obtain ⟨hdata, hbody⟩ | ⟨hdata, hbody⟩ := ite_eq_ok.1 hbody
        · rw [← (pure_eq_ok.1 hbody).1]
          simp [forbids, exempts, hcode, hdata]
        · rw [load_shows_iff hwalk hbody]
          simp [htag, forbids, exempts, reaches, hcode, hdata]
    · rw [← (pure_eq_ok.1 hbody).1]
      simp [htag]

end SweepTest

/-! ## The verdict -/

/-- **A granule that a sweep comes to** where nothing stops it before: one of
the memory, or, where the memory ends at the top of the address space, any. -/
structure Swept (p : Platform f) (a : BitVec f.xlen) : Prop where
  aligned : a.toNat % f.capSize = 0
  le : a.toNat + f.capSize ≤ p.ramEnd
  ge : p.ramBase.toNat ≤ a.toNat ∨ 2 ^ f.xlen ≤ p.ramEnd

theorem InRam.swept {a : BitVec f.xlen} (h : InRam p a) : Swept p a :=
  ⟨h.aligned, h.le, Or.inl h.ge⟩

/-- The granules up to one that is in the memory do not pass the top of the
address space. -/
theorem granuleAt_of_arrives {start : BitVec f.xlen} {k memEnd : ℕ} (htop : memEnd < 2 ^ f.xlen)
    (h : ∀ j, j ≤ k → (granuleAt start j).toNat + f.capSize ≤ memEnd) :
    (granuleAt start k).toNat = start.toNat + k * f.capSize := by
  induction k with
  | zero =>
    rw [granuleAt_zero]
    omega
  | succ k ih =>
    have hk := ih (fun j hj => h j (Nat.le_succ_of_le hj))
    have hle := h k (Nat.le_succ k)
    refine granuleAt_toNat ?_
    rw [Nat.succ_mul]
    omega

/-- **The loop of a sweep says yes** where something is shown in a granule that
it comes to. -/
theorem SweepTest.loop_iff_shows (hwalk : p.WalkReads) (hbase : p.ramBase.toNat % f.capSize = 0)
    {fuel : ℕ} {b : Bool} (h : test.loop p fuel s = .ok (b, s')) :
    b = true ↔ ∃ a, Swept p a ∧ test.Shows p s a := by
  cases b with
  | true =>
    refine ⟨fun _ => ?_, fun _ => rfl⟩
    rw [SweepTest.loop_eq] at h
    obtain ⟨hb, -⟩ | ⟨-, k, hk, hstop⟩ :=
      granuleLoop_cases (fun _ _ h => SweepTest.granule_silent hwalk h) h
    · cases hb
    · refine ⟨_, ⟨granuleAt_aligned hbase k, hk.1 k (le_refl k), ?_⟩,
        (granule_iff_shows hwalk hstop).1 rfl⟩
      obtain htop | htop := Nat.lt_or_ge p.ramEnd (2 ^ f.xlen)
      · rw [granuleAt_of_arrives htop hk.1]
        exact Or.inl (Nat.le_add_right _ _)
      · exact Or.inr htop
  | false =>
    refine ⟨fun hb => absurd hb (by decide), ?_⟩
    rintro ⟨a, hswept, hshows⟩
    rw [SweepTest.loop_eq, granuleLoop_eq_trace] at h
    obtain ⟨⟨b, l⟩, u, hl, hpure⟩ := Prog.bind_eq_ok.1 h
    obtain ⟨rfl, rfl⟩ := pure_eq_ok.1 hpure
    obtain ⟨htop, -, -, hpass⟩ := sweep_visits hwalk hbase hl
    have hin : InRam p a := by
      refine ⟨hswept.aligned, ?_, hswept.le⟩
      obtain hge | hge := hswept.ge
      · exact hge
      · omega
    exact (granule_iff_shows hwalk (hpass a hin)).2 hshows

/-- **The sweeps**, by the registers of their sections. -/
inductive SweepRegs where
  | one (reg : RegIdx)
  | two (regCode regData : RegIdx)
deriving DecidableEq, Repr

namespace SweepRegs

/-- The sections themselves. -/
def sections (s : State f) : SweepRegs → SweepTest f
  | one reg => .one (s.rC reg)
  | two regCode regData => .two (s.rC regCode) (s.rC regData)

/-- The sweep of the registers: no overlap was found. -/
def registers (s : State f) : SweepRegs → Bool
  | one reg => sweepRegs s reg
  | two regCode regData => sweepRegs2 s regCode regData

/-- `sweep`, or `sweep2`. -/
def sweep (p : Platform f) (fuel : ℕ) : SweepRegs → M f Bool
  | one reg => Sail.sweep p fuel reg
  | two regCode regData => sweep2 p fuel regCode regData

variable {w : SweepRegs}

/-- The memory is swept where the registers pass. -/
theorem sweep_eq_ok {fuel : ℕ} {b : Bool} (h : w.sweep p fuel s = .ok (b, s')) :
    w.registers s = false ∧ b = false ∧ s' = s
      ∨ w.registers s = true ∧ (w.sections s).loop p fuel s = .ok (!b, s') := by
  cases w with
  | one reg =>
    obtain ⟨u, v, hget, hbody⟩ := Prog.bind_eq_ok.1 h
    obtain ⟨rfl, rfl⟩ := get_eq_ok.1 hget
    obtain ⟨hregs, hbody⟩ | ⟨hregs, hbody⟩ := ite_eq_ok.1 hbody
    · obtain ⟨u, v, hget, hbody⟩ := Prog.bind_eq_ok.1 hbody
      obtain ⟨rfl, rfl⟩ := get_eq_ok.1 hget
      obtain ⟨r, v, hloop, hpure⟩ := Prog.bind_eq_ok.1 hbody
      obtain ⟨rfl, rfl⟩ := pure_eq_ok.1 hpure
      rw [Bool.not_not]
      exact Or.inr ⟨hregs, hloop⟩
    · obtain ⟨rfl, rfl⟩ := pure_eq_ok.1 hbody
      exact Or.inl ⟨Bool.eq_false_iff.2 hregs, rfl, rfl⟩
  | two regCode regData =>
    obtain ⟨u, v, hget, hbody⟩ := Prog.bind_eq_ok.1 h
    obtain ⟨rfl, rfl⟩ := get_eq_ok.1 hget
    obtain ⟨hregs, hbody⟩ | ⟨hregs, hbody⟩ := ite_eq_ok.1 hbody
    · obtain ⟨u, v, hget, hbody⟩ := Prog.bind_eq_ok.1 hbody
      obtain ⟨rfl, rfl⟩ := get_eq_ok.1 hget
      obtain ⟨r, v, hloop, hpure⟩ := Prog.bind_eq_ok.1 hbody
      obtain ⟨rfl, rfl⟩ := pure_eq_ok.1 hpure
      rw [Bool.not_not]
      exact Or.inr ⟨hregs, hloop⟩
    · obtain ⟨rfl, rfl⟩ := pure_eq_ok.1 hbody
      exact Or.inl ⟨Bool.eq_false_iff.2 hregs, rfl, rfl⟩

/-- **Something is shown** to the sweep of a state. -/
def Stopped (p : Platform f) (w : SweepRegs) (s : State f) : Prop :=
  ∃ a, Swept p a ∧ (w.sections s).Shows p s a

/-- **The memory holds** a capability that the sweep is to find. -/
def Aliased (p : Platform f) (w : SweepRegs) (s : State f) : Prop :=
  ∃ a, InRam p a ∧ (w.sections s).Holds s a

/-- **The verdict of a sweep**: the registers pass, and nothing is shown. -/
theorem sweep_verdict (hwalk : p.WalkReads) (hbase : p.ramBase.toNat % f.capSize = 0) {fuel : ℕ}
    {b : Bool} (h : w.sweep p fuel s = .ok (b, s')) :
    b = true ↔ w.registers s = true ∧ ¬ w.Stopped p s := by
  obtain ⟨hregs, rfl, -⟩ | ⟨hregs, hloop⟩ := sweep_eq_ok h
  · rw [hregs]
    simp
  · rw [Stopped, ← SweepTest.loop_iff_shows hwalk hbase hloop, hregs]
    simp

end SweepRegs

/-! ## Two states with the same memory -/

/-- **Two states that differ in how addresses are translated only**: in their
privilege, and in where their page tables start. -/
def PhysicallyAlike (s t : State f) : Prop :=
  t = { s with
    curPrivilege := t.curPrivilege
    mstatus := t.mstatus
    satp := t.satp }

/-- **The verdicts of a sweep in two states are the same**, and neither misses
what the memory holds. -/
structure SameVerdict (p : Platform f) (w : SweepRegs) (s t : State f) (b b' : Bool) : Prop where
  same : b = b'
  found : b = true → ∀ a, InRam p a → ¬ (w.sections s).Holds s a
  found' : b' = true → ∀ a, InRam p a → ¬ (w.sections t).Holds t a

/-- What the memory holds does not depend on the translation. -/
theorem PhysicallyAlike.aliased_iff (h : PhysicallyAlike s t) (w : SweepRegs) :
    w.Aliased p t ↔ w.Aliased p s := by
  unfold PhysicallyAlike at h
  rw [h]
  cases w <;> exact Iff.rfl

theorem PhysicallyAlike.registers (h : PhysicallyAlike s t) (w : SweepRegs) :
    w.registers t = w.registers s := by
  unfold PhysicallyAlike at h
  rw [h]
  cases w <;> rfl

/-- **The verdict of a sweep does not depend on the translation**, if and only
if, where the registers pass, the loads show something in the one state as in
the other, and show something where the memory holds a capability that the
sweep is to find. -/
theorem sweep_sameVerdict_iff (p : Platform f) (hwalk : p.WalkReads)
    (hbase : p.ramBase.toNat % f.capSize = 0) (w : SweepRegs) (s t s' t' : State f)
    (fuel fuel' : ℕ) (b b' : Bool) (halike : PhysicallyAlike s t)
    (h : w.sweep p fuel s = .ok (b, s')) (h' : w.sweep p fuel' t = .ok (b', t')) :
    SameVerdict p w s t b b' ↔
      (w.registers s = true → (w.Stopped p s ↔ w.Stopped p t)
        ∧ (w.Aliased p s → w.Stopped p s)) := by
  have hb := SweepRegs.sweep_verdict hwalk hbase h
  have hb' := SweepRegs.sweep_verdict hwalk hbase h'
  rw [halike.registers] at hb'
  have hfound : ∀ {u : State f} {c : Bool}, (c = true ↔ w.registers s = true ∧ ¬ w.Stopped p u) →
      ((c = true → ∀ a, InRam p a → ¬ (w.sections u).Holds u a)
        ↔ (w.registers s = true → w.Aliased p u → w.Stopped p u)) := by
    intro u c hc
    constructor
    · rintro hno hregs ⟨a, hin, hholds⟩
      by_contra hstop
      exact hno (hc.2 ⟨hregs, hstop⟩) a hin hholds
    · intro hstop htrue a hin hholds
      exact (hc.1 htrue).2 (hstop (hc.1 htrue).1 ⟨a, hin, hholds⟩)
  constructor
  · intro hsame hregs
    refine ⟨?_, (hfound hb).1 hsame.found hregs⟩
    have hiff : ¬ w.Stopped p s ↔ ¬ w.Stopped p t := by
      rw [hregs] at hb hb'
      have hs : b = true ↔ ¬ w.Stopped p s := by simpa using hb
      have ht : b' = true ↔ ¬ w.Stopped p t := by simpa using hb'
      rw [← hs, ← ht, hsame.same]
    exact not_iff_not.1 hiff
  · intro hcond
    refine ⟨?_, (hfound hb).2 (fun hregs => (hcond hregs).2), (hfound hb').2 (fun hregs hal => ?_)⟩
    · refine Bool.eq_iff_iff.2 ?_
      rw [hb, hb']
      refine and_congr_right (fun hregs => ?_)
      rw [(hcond hregs).1]
    · rw [halike.aliased_iff] at hal
      exact (hcond hregs).1.1 ((hcond hregs).2 hal)

/-! ## A page that hides an alias -/

/-- The small platform with a larger ROM and with page tables. -/
def pagedPlatform : Platform .cheri64 :=
  Platform.withSv32 { smallPlatform with romSize := 0x3000 }

/-- The page tables in ROM: the page at the start of the memory is mapped to a
page of the ROM, for a user to read. -/
def pageTables (a : ℕ) : BitVec 8 :=
  if a = 0x2800 then 0x01 else if a = 0x2801 then 0x0c
  else if a = 0x3000 then 0xd3 else if a = 0x3001 then 0x04
  else 0

/-- The small machine with a capability to the data section past its end, and
page tables. -/
def hiddenState (priv : Privilege) : State .cheri64 :=
  { smallState with
    curPrivilege := priv
    satp := 0x80000002
    mem := writeMem pageTables 0x80000030 8
      (Capability.bounded 0x80000020 0x80000030 : Capability .cheri64).capToMemBits
    tags := fun g => g = 0x80000028 / 8 || g = 0x80000030 / 8 }

/-- The alias past the data section is found in machine mode. -/
theorem hiddenState_found :
    ((SweepRegs.two 1 2).sweep pagedPlatform 16 (hiddenState .Machine)).toOption.map Prod.fst
      = some false := by
  decide +kernel

/-- The user's page shows the ROM in its place. -/
theorem hiddenState_missed :
    ((SweepRegs.two 1 2).sweep pagedPlatform 16 (hiddenState .User)).toOption.map Prod.fst
      = some true := by
  decide +kernel

/-- **The verdict depends on the page table**: with one memory, the sweep for the
two sections finds the alias in machine mode, and misses it in user mode. -/
theorem hiddenState_not_sameVerdict :
    ∃ s' t', (SweepRegs.two 1 2).sweep pagedPlatform 16 (hiddenState .Machine) = .ok (false, s')
      ∧ (SweepRegs.two 1 2).sweep pagedPlatform 16 (hiddenState .User) = .ok (true, t')
      ∧ PhysicallyAlike (hiddenState .Machine) (hiddenState .User)
      ∧ ¬ SameVerdict pagedPlatform (.two 1 2) (hiddenState .Machine) (hiddenState .User)
        false true := by
  obtain ⟨s', hs⟩ := exists_ok_of_map_fst hiddenState_found
  obtain ⟨t', ht⟩ := exists_ok_of_map_fst hiddenState_missed
  exact ⟨s', t', hs, ht, rfl, fun hsame => absurd hsame.same (by decide)⟩

/-- The tagged granule of the small machine. -/
theorem smallState_tagged {a : BitVec 32} (hal : a.toNat % 8 = 0)
    (htag : smallState.tags (tagAddr (f := .cheri64) a) = true) : a = 0x80000028#32 := by
  have hgranule : a.toNat / 8 = 0x80000028 / 8 := of_decide_eq_true htag
  refine BitVec.eq_of_toNat_eq ?_
  show a.toNat = 0x80000028
  omega

/-- **Without the alias the verdict is the same** in both modes: what is tagged
is in the data section. -/
theorem smallState_sameVerdict :
    ∃ s' t', (SweepRegs.two 1 2).sweep pagedPlatform 16 smallState = .ok (true, s')
      ∧ (SweepRegs.two 1 2).sweep pagedPlatform 16
        { smallState with curPrivilege := .User, satp := 0x80000002 } = .ok (true, t')
      ∧ SameVerdict pagedPlatform (.two 1 2) smallState
        { smallState with curPrivilege := .User, satp := 0x80000002 } true true := by
  obtain ⟨s', hs⟩ := exists_ok_of_map_fst
    (show ((SweepRegs.two 1 2).sweep pagedPlatform 16 smallState).toOption.map Prod.fst
      = some true by decide +kernel)
  obtain ⟨t', ht⟩ := exists_ok_of_map_fst
    (show ((SweepRegs.two 1 2).sweep pagedPlatform 16
      { smallState with curPrivilege := .User, satp := 0x80000002 }).toOption.map Prod.fst
      = some true by decide +kernel)
  have hwalk := withSv32_walkReads { smallPlatform with romSize := 0x3000 }
  have halike : PhysicallyAlike smallState
      { smallState with curPrivilege := .User, satp := 0x80000002 } := rfl
  refine ⟨s', t', hs, ht,
    (sweep_sameVerdict_iff pagedPlatform hwalk (by decide) (.two 1 2) _ _ s' t'
    16 16 true true halike hs ht).2 (fun _ => ⟨?_, ?_⟩)⟩
  · have hs' := ((SweepRegs.sweep_verdict hwalk (by decide) hs).1 rfl).2
    have ht' := ((SweepRegs.sweep_verdict hwalk (by decide) ht).1 rfl).2
    exact ⟨fun h => absurd h hs', fun h => absurd h ht'⟩
  · -- The one tagged granule is passed over.
    rintro ⟨a, hin, htag, hholds⟩
    obtain rfl := smallState_tagged hin.aligned htag
    obtain hforbids | ⟨hexempts, -⟩ := hholds
    · exact absurd hforbids (by decide +kernel)
    · exact absurd hexempts (by decide +kernel)

end Sail
