import CheriTree.Sail.StoreId
import CheriTree.Sail.SweepView

/-!
# What `IsUnique` answers

`IsUnique` is to say whether any other tagged capability of the machine shares
a byte with the one in its register: in another register, in a special
register, or in a granule of the memory that is not within it (`Unaliased`).

The overlap of two capabilities is told by the last byte of the one that starts
first. For capabilities that are not empty that is sharing a byte
(`overlap_iff_meets`), so the sweep of the registers is exact. The memory is
read through loads, which may fail, or show something else than the memory
holds: the sweep is exact where they show an alias if there is one, and
otherwise none (`ShownAsHeld`). It is so in a machine that neither translates
nor protects its memory (`isUniqueExact_of_untranslated`).
-/

namespace Sail

open Prog

variable {f : CapFormat} {p : Platform f} {s s' : State f}

/-! ## Overlap -/

/-- **A tagged capability that is not empty.** -/
def Capability.NonEmpty (c : Capability f) : Prop := c.tag = true → c.getCapBase < c.getCapTop

/-- **To overlap is to share a byte**, for capabilities that are not empty. -/
theorem overlap_iff_meets {c d : Capability f} (hc : c.NonEmpty) (hd : d.NonEmpty) :
    overlap c d = true ↔ c.tag = true ∧ d.tag = true ∧ c.range.Meets d.range := by
  constructor
  · intro h
    have htags : c.tag = true ∧ d.tag = true := by
      by_contra hno
      rw [overlap, if_neg (by simpa using hno)] at h
      cases h
    have hc' := hc htags.1
    have hd' := hd htags.2
    refine ⟨htags.1, htags.2, ?_⟩
    rw [overlap, htags.1, htags.2, Bool.and_self, if_pos rfl] at h
    simp only [ByteRange.meets_iff, Capability.range, ByteRange.top]
    split at h
    · have := of_decide_eq_true h
      omega
    · have := of_decide_eq_true h
      omega
  · rintro ⟨hct, hdt, hmeets⟩
    by_contra hno
    exact not_meets_of_overlap (Bool.eq_false_iff.2 hno) hct hdt hmeets

/-- **All tagged capabilities of the machine are not empty.** -/
structure CapsNonEmpty (p : Platform f) (s : State f) : Prop where
  registers : ∀ r : RegIdx, (s.rC r).NonEmpty
  special : ∀ r : Scr, r.implemented s.misa = true → (s.scr r).NonEmpty
  memory : ∀ a, InRam p a → (s.capAt a).NonEmpty

/-- **No other capability shares a byte** with the one in a register. -/
structure Unaliased (p : Platform f) (s : State f) (cs1 : RegIdx) : Prop where
  registers : ∀ r, r ≠ cs1 → (s.rC r).tag = true → ¬ (s.rC r).range.Meets (s.rC cs1).range
  special : ∀ r : Scr, r.implemented s.misa = true → (s.scr r).tag = true →
    ¬ (s.scr r).range.Meets (s.rC cs1).range
  memory : ∀ a, InRam p a → ¬ (granuleRange a).Within (s.rC cs1).range →
    (s.capAt a).tag = true → ¬ (s.capAt a).range.Meets (s.rC cs1).range

/-- **Another register aliases** the capability in a register. -/
def RegisterAliased (s : State f) (cs1 : RegIdx) : Prop :=
  (∃ r, r ≠ cs1 ∧ (s.rC r).tag = true ∧ (s.rC r).range.Meets (s.rC cs1).range)
    ∨ ∃ r : Scr, r.implemented s.misa = true ∧ (s.scr r).tag = true
      ∧ (s.scr r).range.Meets (s.rC cs1).range

/-- **A granule of the memory aliases** the capability, and is not within it. -/
def MemoryAliased (p : Platform f) (s : State f) (cs1 : RegIdx) : Prop :=
  ∃ a, InRam p a ∧ ¬ (granuleRange a).Within (s.rC cs1).range ∧ (s.capAt a).tag = true
    ∧ (s.capAt a).range.Meets (s.rC cs1).range

theorem unaliased_iff {cs1 : RegIdx} :
    Unaliased p s cs1 ↔ ¬ RegisterAliased s cs1 ∧ ¬ MemoryAliased p s cs1 := by
  constructor
  · intro h
    refine ⟨?_, ?_⟩
    · rintro (⟨r, hr, ht, hmeets⟩ | ⟨r, hr, ht, hmeets⟩)
      · exact h.registers r hr ht hmeets
      · exact h.special r hr ht hmeets
    · rintro ⟨a, ha, hout, ht, hmeets⟩
      exact h.memory a ha hout ht hmeets
  · rintro ⟨hregs, hmem⟩
    exact ⟨fun r hr ht hmeets => hregs (Or.inl ⟨r, hr, ht, hmeets⟩),
      fun r hr ht hmeets => hregs (Or.inr ⟨r, hr, ht, hmeets⟩),
      fun a ha hout ht hmeets => hmem ⟨a, ha, hout, ht, hmeets⟩⟩

/-- **The sweep of the registers is exact.** -/
theorem sweepRegs_iff {cs1 : RegIdx} (htag : (s.rC cs1).tag = true) (hne : CapsNonEmpty p s) :
    sweepRegs s cs1 = true ↔ ¬ RegisterAliased s cs1 := by
  have hiff : ∀ {c : Capability f}, c.NonEmpty → (overlap c (s.rC cs1) = false ↔
      (c.tag = true → ¬ c.range.Meets (s.rC cs1).range)) := by
    intro c hc
    rw [← Bool.not_eq_true, overlap_iff_meets hc (hne.registers cs1)]
    simp [htag]
  simp only [sweepRegs, Bool.not_eq_true', Bool.or_eq_false_iff]
  constructor
  · rintro ⟨hregs, hspec⟩ (⟨r, hr, ht, hmeets⟩ | ⟨r, hr, ht, hmeets⟩)
    · have hreg := List.any_eq_false.1 hregs r.toNat (List.mem_range.2 r.isLt)
      have hnat : cs1.toNat ≠ r.toNat := fun he => hr (BitVec.eq_of_toNat_eq he.symm)
      rw [BitVec.ofNat_toNat, BitVec.setWidth_eq] at hreg
      exact (hiff (hne.registers r)).1 (by simpa [hnat] using hreg) ht hmeets
    · exact (hiff (hne.special r hr)).1 (overlap_special_of_not hspec hr) ht hmeets
  · intro hno
    constructor
    · refine List.any_eq_false.2 (fun r hr => ?_)
      have hr' := List.mem_range.1 hr
      by_cases hcs : cs1.toNat = r
      · simp [hcs]
      · have hreg : (BitVec.ofNat 5 r : RegIdx) ≠ cs1 := by
          intro he
          refine hcs ?_
          rw [← he, BitVec.toNat_ofNat, Nat.mod_eq_of_lt hr']
        rw [(hiff (hne.registers _)).2 fun ht hmeets => hno (Or.inl ⟨_, hreg, ht, hmeets⟩)]
        simp
    · refine List.any_eq_false.2 (fun r _ => ?_)
      by_cases hr : r.implemented s.misa = true
      · rw [(hiff (hne.special r hr)).2 fun ht hmeets => hno (Or.inr ⟨r, hr, ht, hmeets⟩)]
        simp
      · simp [hr]

/-! ## The loop -/

section Loop

variable {test : BitVec f.xlen → M f Bool} {memEnd : ℕ}

/-- A loop over granules that pass, up to one that is out of the memory. -/
theorem granuleLoop_of_passes {n : ℕ} {start : BitVec f.xlen}
    (hin : ∀ k, k < n → (granuleAt start k).toNat + f.capSize ≤ memEnd)
    (hpass : ∀ k, k < n → test (granuleAt start k) s = .ok (false, s))
    (hout : memEnd < (granuleAt start n).toNat + f.capSize) (m : ℕ) :
    granuleLoop test memEnd (n + 1 + m) start s = .ok (false, s) := by
  induction n generalizing start with
  | zero =>
    rw [granuleAt_zero] at hout
    rw [Nat.add_right_comm, granuleLoop, if_neg (Nat.not_le.2 hout)]
    rfl
  | succ n ih =>
    have hin0 := hin 0 (Nat.succ_pos n)
    have hpass0 := hpass 0 (Nat.succ_pos n)
    rw [granuleAt_zero] at hin0 hpass0
    rw [Nat.add_right_comm, granuleLoop, if_pos hin0]
    refine Prog.bind_eq_ok.2 ⟨false, s, hpass0, ?_⟩
    refine ih (fun k hk => ?_) (fun k hk => ?_) ?_
    · rw [granuleAt_succ]
      exact hin (k + 1) (Nat.succ_lt_succ hk)
    · rw [granuleAt_succ]
      exact hpass (k + 1) (Nat.succ_lt_succ hk)
    · rwa [granuleAt_succ]

/-- A loop that comes to a granule that stops it. -/
theorem granuleLoop_of_arrives {k : ℕ} {start : BitVec f.xlen}
    (hk : Arrives test memEnd s start k) (hstop : test (granuleAt start k) s = .ok (true, s'))
    (m : ℕ) : granuleLoop test memEnd (k + 1 + m) start s = .ok (true, s') := by
  induction k generalizing start with
  | zero =>
    have hin := hk.1 0 (le_refl 0)
    rw [granuleAt_zero] at hin hstop
    rw [Nat.add_right_comm, granuleLoop, if_pos hin]
    exact Prog.bind_eq_ok.2 ⟨true, s', hstop, rfl⟩
  | succ k ih =>
    have hin := hk.1 0 (Nat.zero_le _)
    have hpass := hk.2 0 (Nat.succ_pos k)
    rw [granuleAt_zero] at hin hpass
    rw [← granuleAt_succ] at hstop
    rw [Nat.add_right_comm, granuleLoop, if_pos hin]
    exact Prog.bind_eq_ok.2 ⟨false, s, hpass, ih ((arrives_succ hin hpass).1 hk) hstop⟩

end Loop

/-! ## What the loads show -/

section Shown

variable {c : Capability f} {a : BitVec f.xlen}

/-- **The load of a granule shows an overlap**, of a granule that is tagged and
not within the section. -/
def ShowsOverlap (p : Platform f) (s : State f) (c : Capability f) (a : BitVec f.xlen) : Prop :=
  s.tags (tagAddr a) = true ∧ ¬ (granuleRange a).Within c.range
    ∧ ∃ d, loadCapNoreg p (ambientCap p) a s = .ok (some d, s) ∧ overlap c d = true

/-- **Nothing is shown at a granule**: if it is tagged and not within the section,
its load succeeds, and shows no overlap. -/
def ShowsNothing (p : Platform f) (s : State f) (c : Capability f) (a : BitVec f.xlen) : Prop :=
  s.tags (tagAddr a) = true → ¬ (granuleRange a).Within c.range →
    ∃ d, loadCapNoreg p (ambientCap p) a s = .ok (some d, s) ∧ overlap c d = false

/-- A granule is looked at where it is tagged, and not within the section: its
load decides, and a load that traps counts as an overlap. -/
theorem sweepGranule_of_looked (htag : s.tags (tagAddr a) = true)
    (hout : ¬ (granuleRange a).Within c.range) {r : Bool} :
    sweepGranule p c (ambientCap p) a s = .ok (r, s') ↔
      ∃ d, loadCapNoreg p (ambientCap p) a s = .ok (d, s') ∧ r = d.elim true (overlap c) := by
  have hout' : c.inCapBounds a f.capSize = false :=
    Bool.eq_false_iff.2 (fun hin => hout (within_range_iff.2 hin))
  unfold sweepGranule
  rw [Prog.bind_eq_ok]
  constructor
  · rintro ⟨_, _, hget, hrest⟩
    obtain ⟨rfl, rfl⟩ := get_eq_ok.1 hget
    rw [if_pos htag, hout', Bool.not_false, if_pos rfl] at hrest
    obtain ⟨d, t, hload, hrest⟩ := Prog.bind_eq_ok.1 hrest
    cases d with
    | none =>
      obtain ⟨rfl, rfl⟩ := pure_eq_ok.1 hrest
      exact ⟨none, hload, rfl⟩
    | some d =>
      obtain ⟨rfl, rfl⟩ := pure_eq_ok.1 hrest
      exact ⟨some d, hload, rfl⟩
  · rintro ⟨d, hload, rfl⟩
    refine ⟨s, s, get_eq_ok.2 ⟨rfl, rfl⟩, ?_⟩
    rw [if_pos htag, hout', Bool.not_false, if_pos rfl]
    refine Prog.bind_eq_ok.2 ⟨d, s', hload, ?_⟩
    cases d <;> exact pure_eq_ok.2 ⟨rfl, rfl⟩

/-- Else it is passed over. -/
theorem sweepGranule_of_not_looked
    (h : s.tags (tagAddr a) = true → (granuleRange a).Within c.range) :
    sweepGranule p c (ambientCap p) a s = .ok (false, s) := by
  refine Prog.bind_eq_ok.2 ⟨s, s, get_eq_ok.2 ⟨rfl, rfl⟩, ?_⟩
  cases htag : s.tags (tagAddr a) with
  | false => rfl
  | true =>
    rw [if_pos rfl, within_range_iff.1 (h htag)]
    rfl

/-- **The test of a granule says yes** where its load shows an overlap. -/
theorem ShowsOverlap.sweepGranule_eq (h : ShowsOverlap p s c a) :
    sweepGranule p c (ambientCap p) a s = .ok (true, s) := by
  obtain ⟨htag, hout, d, hload, hov⟩ := h
  exact (sweepGranule_of_looked htag hout).2 ⟨some d, hload, hov.symm⟩

/-- It says so only there, or traps. -/
theorem sweepGranule_eq_true_iff (hwalk : p.WalkReads) :
    sweepGranule p c (ambientCap p) a s = .ok (true, s) ↔ ShowsOverlap p s c a := by
  refine ⟨fun h => ?_, ShowsOverlap.sweepGranule_eq⟩
  have hlooked : s.tags (tagAddr a) = true ∧ ¬ (granuleRange a).Within c.range := by
    by_contra hno
    rw [sweepGranule_of_not_looked (fun htag => by_contra fun hout => hno ⟨htag, hout⟩)] at h
    cases h
  obtain ⟨r, hload, hov⟩ := (sweepGranule_of_looked hlooked.1 hlooked.2).1 h
  cases r with
  | none =>
    obtain ⟨hsome, -⟩ | ⟨-, htrap⟩ := failsBy_loadCapNoreg hwalk _ _ _ _ _ hload
    · exact absurd rfl hsome
    · -- the exception has been counted
      have := htrap.traps
      omega
  | some d => exact ⟨hlooked.1, hlooked.2, d, hload, hov.symm⟩

/-- **The test says no** where nothing is shown. -/
theorem sweepGranule_eq_false_iff :
    sweepGranule p c (ambientCap p) a s = .ok (false, s) ↔ ShowsNothing p s c a := by
  constructor
  · intro h htag hout
    obtain ⟨r, hload, hov⟩ := (sweepGranule_of_looked htag hout).1 h
    cases r with
    | none => cases hov
    | some d => exact ⟨d, hload, hov.symm⟩
  · intro h
    by_cases hlooked : s.tags (tagAddr a) = true ∧ ¬ (granuleRange a).Within c.range
    · obtain ⟨d, hload, hov⟩ := h hlooked.1 hlooked.2
      exact (sweepGranule_of_looked hlooked.1 hlooked.2).2 ⟨some d, hload, hov.symm⟩
    · exact sweepGranule_of_not_looked (fun htag => by_contra fun hout => hlooked ⟨htag, hout⟩)

end Shown

/-- **The loads show an alias**: the one of a granule shows an overlap, and those
of the granules before it succeed and show none. -/
def ShowsAlias (p : Platform f) (s : State f) (cs1 : RegIdx) : Prop :=
  ∃ k, (∀ j, j ≤ k → (granuleAt p.ramBase j).toNat + f.capSize ≤ p.ramEnd)
    ∧ (∀ j, j < k → ShowsNothing p s (s.rC cs1) (granuleAt p.ramBase j))
    ∧ ShowsOverlap p s (s.rC cs1) (granuleAt p.ramBase k)

/-- **The loads show no alias**: they succeed, in a memory that ends below the top
of the address space, and none shows an overlap. -/
def ShowsNoAlias (p : Platform f) (s : State f) (cs1 : RegIdx) : Prop :=
  p.ramEnd < 2 ^ f.xlen ∧ ∀ a, InRam p a → ShowsNothing p s (s.rC cs1) a

/-- **The loads show an alias if the memory holds one**, and else none. -/
structure ShownAsHeld (p : Platform f) (s : State f) (cs1 : RegIdx) : Prop where
  shown : MemoryAliased p s cs1 → ShowsAlias p s cs1
  clear : ¬ MemoryAliased p s cs1 → ShowsNoAlias p s cs1

/-! ## The instruction -/

/-- The granules of the memory, and where they end. -/
theorem exists_granules (hbase : p.ramBase.toNat % f.capSize = 0) (htop : p.ramEnd < 2 ^ f.xlen) :
    ∃ n, (∀ a, a ∈ granules p.ramBase n ↔ InRam p a)
      ∧ p.ramEnd < (granuleAt p.ramBase n).toNat + f.capSize := by
  have hpos := f.capSize_pos
  have hend : p.ramEnd = p.ramBase.toNat + p.ramSize.toNat := rfl
  obtain ⟨n, hn⟩ : ∃ n, n = p.ramSize.toNat / f.capSize := ⟨_, rfl⟩
  have hdiv := Nat.div_add_mod p.ramSize.toNat f.capSize
  have hmod := Nat.mod_lt p.ramSize.toNat hpos
  rw [← hn, Nat.mul_comm] at hdiv
  have hlt : p.ramSize.toNat < (n + 1) * f.capSize := by
    rw [Nat.succ_mul]
    omega
  refine ⟨n, (mem_granules_iff hbase (by omega) hlt htop).2, ?_⟩
  rw [granuleAt_toNat (by omega)]
  rw [Nat.succ_mul] at hlt
  omega

/-- **`IsUnique` answers** `v`, and changes nothing else: with any fuel from some
on. -/
def IsUniqueAnswers (p : Platform f) (rd cs1 : RegIdx) (s : State f) (v : BitVec f.xlen) : Prop :=
  ∃ fuel, ∀ n, fuel ≤ n → executeIsUnique p n rd cs1 s = .ok (.RETIRE_SUCCESS, s.wX rd v)

/-- **`IsUnique` is exact**: it answers whether the capability is unaliased. -/
def IsUniqueExact (p : Platform f) (rd cs1 : RegIdx) (s : State f) : Prop :=
  (Unaliased p s cs1 → IsUniqueAnswers p rd cs1 s 1)
    ∧ (¬ Unaliased p s cs1 → IsUniqueAnswers p rd cs1 s 0)

section Instruction

variable {rd cs1 : RegIdx}

/-- The instruction is its sweep. -/
theorem executeIsUnique_of_sweep (htag : (s.rC cs1).tag = true) {fuel : ℕ} {b : Bool}
    (h : sweep p fuel cs1 s = .ok (b, s)) :
    executeIsUnique p fuel rd cs1 s = .ok (.RETIRE_SUCCESS, s.wX rd (if b then 1 else 0)) := by
  refine Prog.bind_eq_ok.2 ⟨s, s, get_eq_ok.2 ⟨rfl, rfl⟩, ?_⟩
  refine ite_eq_ok.2 (Or.inr ⟨by simp [htag], Prog.bind_eq_ok.2 ⟨b, s, h, ?_⟩⟩)
  exact Prog.bind_eq_ok.2 ⟨(), _, modify_eq_ok.2 rfl, pure_eq_ok.2 ⟨rfl, rfl⟩⟩

theorem sweep_of_loop {fuel : ℕ} {b : Bool} (hregs : sweepRegs s cs1 = true)
    (h : granuleLoop (sweepGranule p (s.rC cs1) (ambientCap p)) p.ramEnd fuel p.ramBase s
      = .ok (b, s)) : sweep p fuel cs1 s = .ok (!b, s) := by
  refine Prog.bind_eq_ok.2 ⟨s, s, get_eq_ok.2 ⟨rfl, rfl⟩, ite_eq_ok.2 (Or.inl ⟨hregs, ?_⟩)⟩
  refine Prog.bind_eq_ok.2 ⟨s, s, get_eq_ok.2 ⟨rfl, rfl⟩, ?_⟩
  exact Prog.bind_eq_ok.2 ⟨b, s, h, pure_eq_ok.2 ⟨rfl, rfl⟩⟩

theorem answers_of_registers (htag : (s.rC cs1).tag = true) (hregs : sweepRegs s cs1 = false) :
    IsUniqueAnswers p rd cs1 s 0 := by
  refine ⟨0, fun n _ => executeIsUnique_of_sweep (b := false) htag ?_⟩
  refine Prog.bind_eq_ok.2 ⟨s, s, get_eq_ok.2 ⟨rfl, rfl⟩, ite_eq_ok.2 (Or.inr ⟨?_, rfl⟩)⟩
  simp [hregs]

/-- Where the loads show an alias the answer is no. -/
theorem answers_of_showsAlias (htag : (s.rC cs1).tag = true) (hregs : sweepRegs s cs1 = true)
    (h : ShowsAlias p s cs1) : IsUniqueAnswers p rd cs1 s 0 := by
  obtain ⟨k, hin, hpass, hstop⟩ := h
  refine ⟨k + 1, fun n hn => executeIsUnique_of_sweep (b := false) htag ?_⟩
  obtain ⟨m, rfl⟩ := Nat.exists_eq_add_of_le hn
  have harrives : Arrives (sweepGranule p (s.rC cs1) (ambientCap p)) p.ramEnd s p.ramBase k :=
    ⟨hin, fun j hj => sweepGranule_eq_false_iff.2 (hpass j hj)⟩
  exact sweep_of_loop hregs (granuleLoop_of_arrives harrives hstop.sweepGranule_eq m)

/-- Where they show none it is yes. -/
theorem answers_of_showsNoAlias (hbase : p.ramBase.toNat % f.capSize = 0)
    (htag : (s.rC cs1).tag = true) (hregs : sweepRegs s cs1 = true) (h : ShowsNoAlias p s cs1) :
    IsUniqueAnswers p rd cs1 s 1 := by
  obtain ⟨htop, hpass⟩ := h
  obtain ⟨n, hmem, hout⟩ := exists_granules hbase htop
  have hin : ∀ j, j < n → InRam p (granuleAt p.ramBase j) := fun j hj =>
    (hmem _).1 (List.mem_map.2 ⟨j, List.mem_range.2 hj, rfl⟩)
  refine ⟨n + 1, fun k hk => executeIsUnique_of_sweep (b := true) htag ?_⟩
  obtain ⟨m, rfl⟩ := Nat.exists_eq_add_of_le hk
  exact sweep_of_loop (b := false) hregs (granuleLoop_of_passes (fun j hj => (hin j hj).le)
    (fun j hj => sweepGranule_eq_false_iff.2 (hpass _ (hin j hj))) hout m)

/-- **How an `IsUnique` ends** that changes nothing but its register. -/
theorem executeIsUnique_ends (hwalk : p.WalkReads) (hbase : p.ramBase.toNat % f.capSize = 0)
    (htag : (s.rC cs1).tag = true) {fuel : ℕ} {v : BitVec f.xlen}
    (h : executeIsUnique p fuel rd cs1 s = .ok (.RETIRE_SUCCESS, s.wX rd v)) :
    s.wX rd v = s.wX rd 0 ∧ (sweepRegs s cs1 = false ∨ ShowsAlias p s cs1)
      ∨ s.wX rd v = s.wX rd 1 ∧ sweepRegs s cs1 = true ∧ ShowsNoAlias p s cs1 := by
  obtain ⟨u, t, hget, h⟩ := Prog.bind_eq_ok.1 h
  obtain ⟨rfl, rfl⟩ := get_eq_ok.1 hget
  obtain ⟨hno, -⟩ | ⟨-, h⟩ := ite_eq_ok.1 h
  · simp [htag] at hno
  obtain ⟨b, t, hsweep, h⟩ := Prog.bind_eq_ok.1 h
  obtain ⟨x, u, hmod, hdone⟩ := Prog.bind_eq_ok.1 h
  have hend : t.wX rd (if b then 1 else 0) = s.wX rd v :=
    (modify_eq_ok.1 hmod).trans (pure_eq_ok.1 hdone).2
  -- a trap would be counted
  obtain rfl : t = s := by
    obtain ⟨rfl, -⟩ | ⟨-, htrap, -⟩ := sweep_cases hwalk hsweep
    · rfl
    · have h1 := htrap.traps
      have h2 := (State.SameControl.wC t rd (.intToCap (if b then 1 else 0))).traps
      have h3 := (State.SameControl.wC s rd (.intToCap v)).traps
      have h4 : (t.wX rd (if b then 1 else 0)).traps = (s.wX rd v).traps := by rw [hend]
      change (t.wC rd _).traps = (s.wC rd _).traps at h4
      omega
  obtain ⟨hregs, rfl, -⟩ | ⟨hregs, hloop⟩ := SweepRegs.sweep_eq_ok (w := .one cs1) hsweep
  · exact Or.inl ⟨hend.symm, Or.inl hregs⟩
  · rw [SweepTest.loop_eq] at hloop
    cases b with
    | false =>
      obtain ⟨hb, -⟩ | ⟨-, k, hk, hstop⟩ :=
        granuleLoop_cases (fun _ _ h => SweepTest.granule_silent hwalk h) hloop
      · cases hb
      · refine Or.inl ⟨hend.symm, Or.inr ⟨k, hk.1, fun j hj => ?_, ?_⟩⟩
        · exact sweepGranule_eq_false_iff.1 (hk.2 j hj)
        · exact (sweepGranule_eq_true_iff hwalk).1 hstop
    | true =>
      rw [granuleLoop_eq_trace] at hloop
      obtain ⟨⟨c, l⟩, u, hl, hpure⟩ := Prog.bind_eq_ok.1 hloop
      obtain ⟨rfl, rfl⟩ := pure_eq_ok.1 hpure
      obtain ⟨htop, -, -, hpass⟩ := sweep_visits hwalk hbase hl
      exact Or.inr ⟨hend.symm, hregs, htop,
        fun a ha => sweepGranule_eq_false_iff.1 (hpass a ha)⟩

end Instruction

/-- A register other than register zero tells the answers apart. -/
theorem wX_one_ne_zero {rd : RegIdx} (hrd : rd ≠ 0) : s.wX rd 1 ≠ s.wX rd 0 := by
  intro h
  have hrX : (s.wX rd 1).rX rd = (s.wX rd 0).rX rd := by rw [h]
  rw [rX_wX, rX_wX, if_neg hrd, if_neg hrd] at hrX
  exact one_ne_zero_xlen f hrX

/-- **`IsUnique` is exact** if and only if a register aliases, or the loads of the
sweep show an alias where the memory holds one and none where it does not. To
register zero any answer will do. -/
theorem isUniqueExact_iff (p : Platform f) (hwalk : p.WalkReads)
    (hbase : p.ramBase.toNat % f.capSize = 0) (rd cs1 : RegIdx) (s : State f)
    (htag : (s.rC cs1).tag = true) (hne : CapsNonEmpty p s) :
    IsUniqueExact p rd cs1 s ↔ RegisterAliased s cs1 ∨ ShownAsHeld p s cs1
      ∨ rd = 0 ∧ (ShowsAlias p s cs1 ∨ ShowsNoAlias p s cs1) := by
  have hregs := sweepRegs_iff htag hne
  by_cases hreg : RegisterAliased s cs1
  · have hno : sweepRegs s cs1 = false := Bool.eq_false_iff.2 fun h => hregs.1 h hreg
    exact ⟨fun _ => Or.inl hreg, fun _ => ⟨fun hu => absurd hreg (unaliased_iff.1 hu).1,
      fun _ => answers_of_registers htag hno⟩⟩
  have hpass : sweepRegs s cs1 = true := hregs.2 hreg
  have hunaliased : Unaliased p s cs1 ↔ ¬ MemoryAliased p s cs1 :=
    unaliased_iff.trans (and_iff_right hreg)
  have hshown : ∀ {v}, IsUniqueAnswers p rd cs1 s v →
      s.wX rd v = s.wX rd 0 ∧ ShowsAlias p s cs1
        ∨ s.wX rd v = s.wX rd 1 ∧ ShowsNoAlias p s cs1 := by
    rintro v ⟨fuel, hrun⟩
    obtain ⟨hv, hno | halias⟩ | ⟨hv, -, hnone⟩ :=
      executeIsUnique_ends hwalk hbase htag (hrun fuel (le_refl fuel))
    · exact absurd (hpass.symm.trans hno) (by decide)
    · exact Or.inl ⟨hv, halias⟩
    · exact Or.inr ⟨hv, hnone⟩
  constructor
  · intro hexact
    refine Or.inr ?_
    by_cases hrd : rd = 0
    · refine Or.inr ⟨hrd, ?_⟩
      by_cases hmem : MemoryAliased p s cs1
      · exact (hshown (hexact.2 fun hu => hunaliased.1 hu hmem)).imp And.right And.right
      · exact (hshown (hexact.1 (hunaliased.2 hmem))).imp And.right And.right
    · refine Or.inl ⟨fun hmem => ?_, fun hmem => ?_⟩
      · obtain ⟨-, halias⟩ | ⟨hv, -⟩ := hshown (hexact.2 fun hu => hunaliased.1 hu hmem)
        · exact halias
        · exact absurd hv.symm (wX_one_ne_zero hrd)
      · obtain ⟨hv, -⟩ | ⟨-, hnone⟩ := hshown (hexact.1 (hunaliased.2 hmem))
        · exact absurd hv (wX_one_ne_zero hrd)
        · exact hnone
  · rintro (hno | hheld | ⟨rfl, halias | hnone⟩)
    · exact absurd hno hreg
    · exact ⟨fun hu => answers_of_showsNoAlias hbase htag hpass
          (hheld.clear (hunaliased.1 hu)),
        fun hno => answers_of_showsAlias htag hpass
          (hheld.shown (not_not.1 fun hmem => hno (hunaliased.2 hmem)))⟩
    · exact ⟨fun _ => answers_of_showsAlias htag hpass halias,
        fun _ => answers_of_showsAlias htag hpass halias⟩
    · exact ⟨fun _ => answers_of_showsNoAlias hbase htag hpass hnone,
        fun _ => answers_of_showsNoAlias hbase htag hpass hnone⟩

/-! ## A machine that does not translate -/

/-- **A load of the sweep shows what the memory holds**, in a machine that neither
translates nor protects its memory. -/
theorem loadCapNoreg_of_untranslated (ht : s.Untranslated) (hpmp : p.enablePmp = false)
    {a : BitVec f.xlen} (ha : InRam p a) (hmap : p.withinMmioReadable a f.capSize = false) :
    loadCapNoreg p (ambientCap p) a s = .ok (some (s.capAt a), s) := by
  have hphys : p.withinPhysMem a f.capSize = true := by
    unfold Platform.withinPhysMem
    rw [decide_eq_true ha.ge, decide_eq_true ha.le]
    rfl
  have hguard : pmpGuard p (.Read .Data) a f.capSize s = .ok (none, s) := by
    refine Prog.bind_eq_ok.2 ⟨s, s, get_eq_ok.2 ⟨rfl, rfl⟩, ?_⟩
    exact ite_eq_ok.2 (Or.inr ⟨by simp [hpmp], rfl⟩)
  have hread : memReadCap p a s = .ok (.ok (s.capAt a), s) := by
    refine Prog.bind_eq_ok.2 ⟨.ok (readMem s.mem a.toNat f.capSize, s.tags (tagAddr a)), s, ?_, rfl⟩
    refine Prog.bind_eq_ok.2 ⟨none, s, hguard, ?_⟩
    refine Prog.bind_eq_ok.2 ⟨s, s, get_eq_ok.2 ⟨rfl, rfl⟩, pure_eq_ok.2 ⟨?_, rfl⟩⟩
    rw [checkedMemRead, hmap, if_neg Bool.false_ne_true, hphys, if_pos rfl, Bool.true_and]
  refine Prog.bind_eq_ok.2 ⟨_, s, ht.translateAddr p a (.Read .Cap), ?_⟩
  refine Prog.bind_eq_ok.2 ⟨_, s, hread, pure_eq_ok.2 ⟨?_, rfl⟩⟩
  have hperm : (ambientCap p).permitLoadCap = true := rfl
  rw [hperm]
  simp [initExtPtw]

/-- **What is shown is then what is held.** -/
theorem showsOverlap_iff_of_untranslated (ht : s.Untranslated) (hpmp : p.enablePmp = false)
    {cs1 : RegIdx} (htag : (s.rC cs1).tag = true) (hne : CapsNonEmpty p s) {a : BitVec f.xlen}
    (ha : InRam p a)
    (hmap : s.tags (tagAddr a) = true → p.withinMmioReadable a f.capSize = false) :
    (ShowsOverlap p s (s.rC cs1) a ↔ ¬ (granuleRange a).Within (s.rC cs1).range
        ∧ (s.capAt a).tag = true ∧ (s.capAt a).range.Meets (s.rC cs1).range)
      ∧ (¬ ShowsOverlap p s (s.rC cs1) a → ShowsNothing p s (s.rC cs1) a) := by
  have htags : (s.capAt a).tag = s.tags (tagAddr a) := Capability.tag_memBitsToCapability _ _
  have hload := fun h => loadCapNoreg_of_untranslated ht hpmp ha (hmap h)
  have hov : overlap (s.rC cs1) (s.capAt a) = true
      ↔ (s.capAt a).tag = true ∧ (s.capAt a).range.Meets (s.rC cs1).range := by
    rw [overlap_iff_meets (hne.registers cs1) (hne.memory a ha), and_iff_right htag,
      ByteRange.meets_comm]
  constructor
  · constructor
    · rintro ⟨htagged, hout, d, hd, hover⟩
      rw [hload htagged] at hd
      obtain rfl : s.capAt a = d := by simpa using hd
      exact ⟨hout, hov.1 hover⟩
    · rintro ⟨hout, hheld⟩
      have htagged := htags.symm.trans hheld.1
      exact ⟨htagged, hout, s.capAt a, hload htagged, hov.2 hheld⟩
  · intro hno htagged hout
    refine ⟨s.capAt a, hload htagged, Bool.eq_false_iff.2 fun hover => hno ?_⟩
    exact ⟨htagged, hout, s.capAt a, hload htagged, hover⟩

/-- **In a machine that neither translates nor protects its memory**, which ends
below the top of the address space, `IsUnique` is exact. -/
theorem isUniqueExact_of_untranslated (hbase : p.ramBase.toNat % f.capSize = 0)
    (htop : p.ramEnd < 2 ^ f.xlen) (hpmp : p.enablePmp = false)
    (hmap : ∀ a, InRam p a → s.tags (tagAddr a) = true →
      p.withinMmioReadable a f.capSize = false)
    (ht : s.Untranslated) (rd cs1 : RegIdx) (htag : (s.rC cs1).tag = true)
    (hne : CapsNonEmpty p s) : IsUniqueExact p rd cs1 s := by
  have hshows := fun a (ha : InRam p a) =>
    showsOverlap_iff_of_untranslated ht hpmp htag hne ha (hmap a ha)
  have hregs := sweepRegs_iff htag hne
  by_cases hreg : RegisterAliased s cs1
  · refine ⟨fun hu => absurd hreg (unaliased_iff.1 hu).1, fun _ => answers_of_registers htag ?_⟩
    exact Bool.eq_false_iff.2 fun h => hregs.1 h hreg
  obtain ⟨n, hmem, -⟩ := exists_granules hbase htop
  have hin : ∀ j, j < n → InRam p (granuleAt p.ramBase j) := fun j hj =>
    (hmem _).1 (List.mem_map.2 ⟨j, List.mem_range.2 hj, rfl⟩)
  constructor
  · intro hu
    refine answers_of_showsNoAlias hbase htag (hregs.2 hreg) ⟨htop, fun a ha => ?_⟩
    refine (hshows a ha).2 fun hshown => (unaliased_iff.1 hu).2 ?_
    exact ⟨a, ha, (hshows a ha).1.1 hshown⟩
  · intro hno
    have hmem' : MemoryAliased p s cs1 := not_not.1 fun h => hno (unaliased_iff.2 ⟨hreg, h⟩)
    have hex : ∃ k, k < n ∧ ShowsOverlap p s (s.rC cs1) (granuleAt p.ramBase k) := by
      obtain ⟨a, ha, hheld⟩ := hmem'
      obtain ⟨k, hk, rfl⟩ := List.mem_map.1 ((hmem a).2 ha)
      exact ⟨k, List.mem_range.1 hk, (hshows _ ha).1.2 hheld⟩
    -- the first granule that shows something stops the sweep
    classical
    obtain ⟨hk, hshown⟩ := Nat.find_spec hex
    refine answers_of_showsAlias htag (hregs.2 hreg)
      ⟨Nat.find hex, fun j hj => (hin j (Nat.lt_of_le_of_lt hj hk)).le, fun j hj => ?_, hshown⟩
    have hjn := Nat.lt_trans hj hk
    exact (hshows _ (hin j hjn)).2 fun hj' => Nat.find_min hex hj ⟨hjn, hj'⟩

/-! ## An alias behind a page -/

/-- The registers of the small machine hold no empty capability. -/
theorem smallState_registers (r : RegIdx) : (smallState.rC r).NonEmpty := by
  by_cases h : r = 1 ∨ r = 2
  · obtain rfl | rfl := h
    · exact fun _ => by decide +kernel
    · exact fun _ => by decide +kernel
  · have hnull : smallState.rC r = .nullCap _ := by
      have h1 : r.toNat ≠ 1 := fun he => h (Or.inl (BitVec.eq_of_toNat_eq he))
      have h2 : r.toNat ≠ 2 := fun he => h (Or.inr (BitVec.eq_of_toNat_eq he))
      show (if r.toNat = 0 then _ else if r.toNat = 1 then _ else if r.toNat = 2 then _ else _) = _
      rw [if_neg h1, if_neg h2, ite_self]
    rw [hnull]
    exact fun ht => absurd ht (by decide)

theorem smallState_special (r : Scr) : (smallState.scr r).NonEmpty := by
  cases r with
  | PCC => exact fun _ => by decide +kernel
  | nextPCC => exact fun _ => by decide +kernel
  | _ => exact fun ht => absurd ht (by decide)

/-- The data section of the small machine is unaliased, and `IsUnique` says
so. -/
theorem smallState_isUniqueExact : IsUniqueExact smallPlatform 4 2 smallState := by
  have hwithin : ∀ a, InRam smallPlatform a → smallState.tags (tagAddr a) = true →
      (smallState.rC 2).inCapBounds a (CapFormat.capSize .cheri64) = true := by
    intro a ha htag
    rw [smallState_tagged ha.aligned htag]
    decide +kernel
  have hne : CapsNonEmpty smallPlatform smallState := by
    refine ⟨smallState_registers, fun r _ => smallState_special r, fun a ha htag => ?_⟩
    have htag' : smallState.tags (tagAddr a) = true := by
      rwa [State.capAt, Capability.tag_memBitsToCapability] at htag
    rw [smallState_tagged ha.aligned htag']
    decide +kernel
  have hout : ∀ a, InRam smallPlatform a → ¬ (granuleRange a).Within (smallState.rC 2).range →
      ¬ smallState.tags (tagAddr a) = true :=
    fun a ha hno htag => hno (within_range_iff.2 (hwithin a ha htag))
  refine (isUniqueExact_iff smallPlatform smallPlatform_walkReads (by decide) 4 2 smallState
    (by decide +kernel) hne).2 (Or.inr (Or.inl ⟨?_, fun _ => ⟨by decide, ?_⟩⟩))
  · rintro ⟨a, ha, hno, htag, -⟩
    rw [State.capAt, Capability.tag_memBitsToCapability] at htag
    exact absurd htag (hout a ha hno)
  · exact fun a ha htag hno => absurd htag (hout a ha hno)

/-- The machine with the hidden alias, whose loads are those of a user. -/
def mprvState : State .cheri64 :=
  { hiddenState .Machine with
    mstatus := { smallState.mstatus with MPRV := true } }

theorem mprvState_capsNonEmpty : CapsNonEmpty pagedPlatform mprvState := by
  refine ⟨smallState_registers, fun r _ => smallState_special r, fun a ha htag => ?_⟩
  have htag' : mprvState.tags (tagAddr a) = true := by
    rwa [State.capAt, Capability.tag_memBitsToCapability] at htag
  have hal : a.toNat % 8 = 0 := ha.aligned
  have hgranule : a.toNat / 8 = 0x80000028 / 8 ∨ a.toNat / 8 = 0x80000030 / 8 := by
    change (decide (a.toNat / 8 = 0x80000028 / 8) || decide (a.toNat / 8 = 0x80000030 / 8)) = true
      at htag'
    rwa [Bool.or_eq_true, decide_eq_true_eq, decide_eq_true_eq] at htag'
  obtain h | h := hgranule
  · have ha' : a = 0x80000028#32 := BitVec.eq_of_toNat_eq (by show a.toNat = 0x80000028; omega)
    rw [ha']
    decide +kernel
  · have ha' : a = 0x80000030#32 := BitVec.eq_of_toNat_eq (by show a.toNat = 0x80000030; omega)
    rw [ha']
    decide +kernel

/-- **`IsUnique` says that an aliased capability is unique**, in machine mode: its
loads are made with the privilege that `MPRV` selects, through the user's page
table, which shows the ROM where the alias is. -/
theorem mprvState_not_isUniqueExact :
    mprvState.curPrivilege = .Machine ∧ (mprvState.rC 2).tag = true
      ∧ CapsNonEmpty pagedPlatform mprvState
      ∧ (mprvState.capAt 0x80000030).tag = true
      ∧ (mprvState.capAt 0x80000030).range.Meets (mprvState.rC 2).range
      ∧ ((executeIsUnique pagedPlatform 16 4 2 mprvState).toOption.map fun r => r.2.rX 4)
        = some 1
      ∧ ¬ IsUniqueExact pagedPlatform 4 2 mprvState := by
  have hwalk : pagedPlatform.WalkReads :=
    withSv32_walkReads { smallPlatform with romSize := 0x3000 }
  have hmeets : (mprvState.capAt 0x80000030).range.Meets (mprvState.rC 2).range := by
    decide +kernel
  have halias : ¬ Unaliased pagedPlatform mprvState 2 := by
    intro hu
    exact hu.memory 0x80000030 ⟨by decide, by decide, by decide⟩ (by decide +kernel)
      (by decide +kernel) hmeets
  refine ⟨rfl, by decide +kernel, mprvState_capsNonEmpty, by decide +kernel, hmeets,
    by decide +kernel, fun hexact => ?_⟩
  obtain ⟨fuel, hrun⟩ := hexact.2 halias
  -- the registers pass, and so does every granule
  have hregs : sweepRegs mprvState 2 = true := by decide +kernel
  obtain ⟨t, hsweep⟩ := exists_ok_of_map_fst
    (show (sweep pagedPlatform 16 2 mprvState).toOption.map Prod.fst = some true by
      decide +kernel)
  have hstop := (SweepRegs.sweep_verdict (w := .one 2) hwalk (by decide) hsweep).1 rfl
  obtain ⟨-, hno | ⟨k, hin, -, hshown⟩⟩ | ⟨hv, -, -⟩ :=
    executeIsUnique_ends hwalk (by decide) (by decide +kernel) (hrun fuel (le_refl fuel))
  · rw [hregs] at hno
    cases hno
  · have hgranule : SweepTest.granule _ (.one _) _ _ = .ok (true, _) := hshown.sweepGranule_eq
    refine hstop.2 ⟨granuleAt pagedPlatform.ramBase k, ⟨granuleAt_aligned (by decide) k,
      hin k (le_refl k), Or.inl ?_⟩, (SweepTest.granule_iff_shows hwalk hgranule).1 rfl⟩
    rw [granuleAt_of_arrives (by decide) hin]
    exact Nat.le_add_right _ _
  · exact wX_one_ne_zero (by decide) hv.symm

end Sail
