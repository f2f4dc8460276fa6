import CheriTree.Sail.Representability
import CheriTree.Sail.Traps

/-!
# How the enclave instructions end

`EInitData` has more than ten exits, and so each exit of it is told once, by
what holds of the state the instruction was started in (`EInitDataEnds`): it
fails by one exception before it has done anything; a load of the sweep or of
the hash fails, and then the instruction by a second exception; the key cannot
be stored, with the identity already in the table; or it retires.

The sweep is a loop over the granules, which it leaves at the first one that
does not pass; the hash is a loop over the words of the code section. What the
loops find is said of the state before them, since they only read.
-/

namespace Sail

open Prog

variable {f : CapFormat} {p : Platform f} {s s' : State f}

/-! ## The loop of a sweep -/

section Loop

variable {test : BitVec f.xlen → M f Bool} {memEnd fuel : ℕ}

/-- The granule `k` steps on. -/
def granuleAt (start : BitVec f.xlen) (k : ℕ) : BitVec f.xlen :=
  start + BitVec.ofNat f.xlen (k * f.capSize)

theorem granuleAt_zero (start : BitVec f.xlen) : granuleAt start 0 = start := by
  rw [granuleAt, Nat.zero_mul]
  exact BitVec.add_zero start

theorem granuleAt_succ (start : BitVec f.xlen) (k : ℕ) :
    granuleAt (start + BitVec.ofNat f.xlen f.capSize) k = granuleAt start (k + 1) := by
  rw [granuleAt, granuleAt, BitVec.add_assoc, ← BitVec.ofNat_add, Nat.add_comm, Nat.succ_mul]

/-- **The loop comes to the granule** `k`: all before it pass. -/
def Arrives (test : BitVec f.xlen → M f Bool) (memEnd : ℕ) (s : State f) (start : BitVec f.xlen)
    (k : ℕ) : Prop :=
  (∀ j, j ≤ k → (granuleAt start j).toNat + f.capSize ≤ memEnd)
    ∧ ∀ j, j < k → test (granuleAt start j) s = .ok (false, s)

theorem arrives_succ {start : BitVec f.xlen} {k : ℕ}
    (hin : start.toNat + f.capSize ≤ memEnd) (hpass : test start s = .ok (false, s)) :
    Arrives test memEnd s start (k + 1)
      ↔ Arrives test memEnd s (start + BitVec.ofNat f.xlen f.capSize) k := by
  unfold Arrives
  simp only [granuleAt_succ]
  constructor
  · exact fun h => ⟨fun j hj => h.1 (j + 1) (by omega), fun j hj => h.2 (j + 1) (by omega)⟩
  · intro h
    constructor
    · intro j hj
      cases j with
      | zero => rwa [granuleAt_zero]
      | succ j => exact h.1 j (by omega)
    · intro j hj
      cases j with
      | zero => rwa [granuleAt_zero]
      | succ j => exact h.2 j (by omega)

/-- **What the loop gives**: at the first granule that does not pass, what the
test gives there; where all pass, nothing. -/
theorem granuleLoop_cases {start : BitVec f.xlen} {b : Bool}
    (hsilent : ∀ a t, test a s = .ok (false, t) → t = s)
    (h : granuleLoop test memEnd fuel start s = .ok (b, s')) :
    (b = false ∧ s' = s ∧ ∀ k, Arrives test memEnd s start k →
        test (granuleAt start k) s = .ok (false, s))
      ∨ (b = true ∧ ∃ k, Arrives test memEnd s start k
        ∧ test (granuleAt start k) s = .ok (true, s')) := by
  induction fuel generalizing start with
  | zero => exact absurd h throw_ne_ok
  | succ fuel ih =>
    obtain ⟨hin, h⟩ | ⟨hout, h⟩ := ite_eq_ok.1 h
    · obtain ⟨r, t, htest, hrest⟩ := Prog.bind_eq_ok.1 h
      have hfirst : Arrives test memEnd s start 0 := by
        refine ⟨fun j hj => ?_, fun j hj => absurd hj (Nat.not_lt_zero j)⟩
        rwa [Nat.le_zero.1 hj, granuleAt_zero]
      cases r with
      | true =>
        obtain ⟨rfl, rfl⟩ := pure_eq_ok.1 hrest
        refine Or.inr ⟨rfl, 0, hfirst, ?_⟩
        rwa [granuleAt_zero]
      | false =>
        obtain rfl := hsilent _ _ htest
        obtain ⟨rfl, rfl, hpass⟩ | ⟨rfl, k, hk, hstop⟩ := ih hrest
        · refine Or.inl ⟨rfl, rfl, fun k hk => ?_⟩
          cases k with
          | zero => rwa [granuleAt_zero]
          | succ k =>
            rw [← granuleAt_succ]
            exact hpass k ((arrives_succ hin htest).1 hk)
        · refine Or.inr ⟨rfl, k + 1, (arrives_succ hin htest).2 hk, ?_⟩
          rwa [← granuleAt_succ]
    · obtain ⟨rfl, rfl⟩ := pure_eq_ok.1 h
      refine Or.inl ⟨rfl, rfl, fun k hk => absurd (hk.1 0 (Nat.zero_le k)) ?_⟩
      rwa [granuleAt_zero]

/-- **The loop, where a test may fail by an exception**: it is left there, and
has changed nothing before. -/
theorem granuleLoop_faults {start : BitVec f.xlen} {b : Bool} {Faults : BitVec f.xlen → Prop}
    (htest : ∀ a b t, test a s = .ok (b, t) →
      t = s ∧ ¬ Faults a ∨ b = true ∧ s.Trapped t ∧ Faults a)
    (h : granuleLoop test memEnd fuel start s = .ok (b, s')) :
    (s' = s ∧ ¬ ∃ k, Arrives test memEnd s start k ∧ Faults (granuleAt start k))
      ∨ (b = true ∧ s.Trapped s' ∧ ∃ k, Arrives test memEnd s start k
        ∧ Faults (granuleAt start k)) := by
  have hpass : ∀ a t, test a s = .ok (false, t) → t = s ∧ ¬ Faults a := by
    intro a t ha
    obtain h | ⟨hb, -⟩ := htest a false t ha
    · exact h
    · cases hb
  obtain ⟨rfl, rfl, hall⟩ | ⟨rfl, k, hk, hstop⟩ :=
    granuleLoop_cases (fun a t ha => (hpass a t ha).1) h
  · exact Or.inl ⟨rfl, fun ⟨k, hk, hf⟩ => (hpass _ _ (hall k hk)).2 hf⟩
  · obtain ⟨rfl, hnf⟩ | ⟨-, htrap, hf⟩ := htest _ _ _ hstop
    · refine Or.inl ⟨rfl, fun ⟨k', hk', hf⟩ => ?_⟩
      obtain hlt | rfl | hgt := lt_trichotomy k k'
      · have := (hk'.2 k hlt).symm.trans hstop
        simp at this
      · exact hnf hf
      · exact (hpass _ _ (hk.2 k' hgt)).2 hf
    · exact Or.inr ⟨rfl, htrap, k, hk, hf⟩

end Loop

/-! ## The sweeps -/

/-- The capability the sweep reads with. -/
def ambientCap (p : Platform f) : Capability f := (Capability.defaultCap f).withAddress p.ramBase

/-- A load of the sweep fails. -/
def LoadFaults (p : Platform f) (s : State f) (a : BitVec f.xlen) : Prop :=
  ∃ t, loadCapNoreg p (ambientCap p) a s = .ok (none, t)

/-- The sweep for two sections loads from the granule, and fails. -/
def GranuleFaults2 (p : Platform f) (s : State f) (code data : Capability f)
    (a : BitVec f.xlen) : Prop :=
  s.tags (tagAddr a) = true ∧ code.inCapBounds a f.capSize = false
    ∧ data.inCapBounds a f.capSize = false ∧ LoadFaults p s a

/-- The sweep for one section loads from the granule, and fails. -/
def GranuleFaults (p : Platform f) (s : State f) (cap : Capability f) (a : BitVec f.xlen) : Prop :=
  s.tags (tagAddr a) = true ∧ cap.inCapBounds a f.capSize = false ∧ LoadFaults p s a

/-- The end of the memory that is swept. -/
def Platform.ramEnd (p : Platform f) : ℕ := p.ramBase.toNat + p.ramSize.toNat

/-- **A load of the sweep for two sections fails**, at a granule that it comes
to. -/
def SweepFaults2 (p : Platform f) (s : State f) (cs1 cs2 : RegIdx) : Prop :=
  sweepRegs2 s cs1 cs2 = true ∧ ∃ k,
    Arrives (sweepGranule2 p (s.rC cs1) (s.rC cs2) (ambientCap p)) p.ramEnd s p.ramBase k
      ∧ GranuleFaults2 p s (s.rC cs1) (s.rC cs2) (granuleAt p.ramBase k)

/-- **A load of the sweep for one section fails.** -/
def SweepFaults (p : Platform f) (s : State f) (cs1 : RegIdx) : Prop :=
  sweepRegs s cs1 = true ∧ ∃ k,
    Arrives (sweepGranule p (s.rC cs1) (ambientCap p)) p.ramEnd s p.ramBase k
      ∧ GranuleFaults p s (s.rC cs1) (granuleAt p.ramBase k)

/-- **Nothing is in the way of the sweep**: the registers pass, and every granule
it comes to. -/
def SweepClean (p : Platform f) (s : State f) (cs1 cs2 : RegIdx) : Prop :=
  sweepRegs2 s cs1 cs2 = true ∧ ∀ k,
    Arrives (sweepGranule2 p (s.rC cs1) (s.rC cs2) (ambientCap p)) p.ramEnd s p.ramBase k →
      sweepGranule2 p (s.rC cs1) (s.rC cs2) (ambientCap p) (granuleAt p.ramBase k) s
        = .ok (false, s)

section Sweep

variable (hwalk : p.WalkReads)

include hwalk

/-- A load of the sweep, and what the test makes of it. -/
theorem loadCapNoreg_cases {a : BitVec f.xlen} {b : Bool} {ov : Capability f → Bool}
    (h : (do
      match ← loadCapNoreg p (ambientCap p) a with
      | none => pure true
      | some loaded => pure (ov loaded) : M f Bool) s = .ok (b, s')) :
    s' = s ∧ ¬ LoadFaults p s a ∨ b = true ∧ s.Trapped s' ∧ LoadFaults p s a := by
  obtain ⟨r, t, hload, h⟩ := Prog.bind_eq_ok.1 h
  cases r with
  | none =>
    obtain ⟨rfl, rfl⟩ := pure_eq_ok.1 h
    obtain ⟨hne, -⟩ | ⟨-, htrap⟩ := failsBy_loadCapNoreg hwalk _ _ _ _ _ hload
    · exact absurd rfl hne
    · exact Or.inr ⟨rfl, htrap, t, hload⟩
  | some loaded =>
    obtain ⟨-, rfl⟩ := pure_eq_ok.1 h
    obtain ⟨-, rfl⟩ | ⟨hnone, -⟩ := failsBy_loadCapNoreg hwalk _ _ _ _ _ hload
    · refine Or.inl ⟨rfl, fun ⟨u, hu⟩ => ?_⟩
      have := hload.symm.trans hu
      simp at this
    · cases hnone

theorem sweepGranule2_cases {code data : Capability f} {a : BitVec f.xlen} {b : Bool}
    (h : sweepGranule2 p code data (ambientCap p) a s = .ok (b, s')) :
    s' = s ∧ ¬ GranuleFaults2 p s code data a
      ∨ b = true ∧ s.Trapped s' ∧ GranuleFaults2 p s code data a := by
  unfold GranuleFaults2
  obtain ⟨u, t, hget, h⟩ := Prog.bind_eq_ok.1 h
  obtain ⟨rfl, rfl⟩ := get_eq_ok.1 hget
  obtain ⟨htag, h⟩ | ⟨htag, h⟩ := ite_eq_ok.1 h
  · obtain ⟨hcode, h⟩ | ⟨hcode, h⟩ := ite_eq_ok.1 h
    · refine Or.inl ⟨(pure_eq_ok.1 h).2.symm, fun hf => ?_⟩
      rw [hf.2.1] at hcode
      cases hcode
    · obtain ⟨hdata, h⟩ | ⟨hdata, h⟩ := ite_eq_ok.1 h
      · refine Or.inl ⟨(pure_eq_ok.1 h).2.symm, fun hf => ?_⟩
        rw [hf.2.2.1] at hdata
        cases hdata
      · obtain ⟨rfl, hnf⟩ | ⟨hb, htrap, hf⟩ := loadCapNoreg_cases hwalk h
        · exact Or.inl ⟨rfl, fun hf => hnf hf.2.2.2⟩
        · exact Or.inr ⟨hb, htrap, htag, Bool.eq_false_iff.2 hcode, Bool.eq_false_iff.2 hdata, hf⟩
  · exact Or.inl ⟨(pure_eq_ok.1 h).2.symm, fun hf => htag hf.1⟩

theorem sweepGranule_cases {cap : Capability f} {a : BitVec f.xlen} {b : Bool}
    (h : sweepGranule p cap (ambientCap p) a s = .ok (b, s')) :
    s' = s ∧ ¬ GranuleFaults p s cap a ∨ b = true ∧ s.Trapped s' ∧ GranuleFaults p s cap a := by
  unfold GranuleFaults
  obtain ⟨u, t, hget, h⟩ := Prog.bind_eq_ok.1 h
  obtain ⟨rfl, rfl⟩ := get_eq_ok.1 hget
  obtain ⟨htag, h⟩ | ⟨htag, h⟩ := ite_eq_ok.1 h
  · obtain ⟨hcap, h⟩ | ⟨hcap, h⟩ := ite_eq_ok.1 h
    · have hout : cap.inCapBounds a f.capSize = false := by simpa using hcap
      obtain ⟨rfl, hnf⟩ | ⟨hb, htrap, hf⟩ := loadCapNoreg_cases hwalk h
      · exact Or.inl ⟨rfl, fun hf => hnf hf.2.2⟩
      · exact Or.inr ⟨hb, htrap, htag, hout, hf⟩
    · refine Or.inl ⟨(pure_eq_ok.1 h).2.symm, fun hf => ?_⟩
      rw [hf.2.1] at hcap
      exact hcap rfl
  · exact Or.inl ⟨(pure_eq_ok.1 h).2.symm, fun hf => htag hf.1⟩

/-- **The sweep for two sections** changes nothing, or says no by an exception. -/
theorem sweep2_cases {fuel : ℕ} {cs1 cs2 : RegIdx} {b : Bool}
    (h : sweep2 p fuel cs1 cs2 s = .ok (b, s')) :
    s' = s ∧ ¬ SweepFaults2 p s cs1 cs2 ∨ b = false ∧ s.Trapped s' ∧ SweepFaults2 p s cs1 cs2 := by
  unfold SweepFaults2
  obtain ⟨u, t, hget, h⟩ := Prog.bind_eq_ok.1 h
  obtain ⟨rfl, rfl⟩ := get_eq_ok.1 hget
  obtain ⟨hregs, h⟩ | ⟨hregs, h⟩ := ite_eq_ok.1 h
  · obtain ⟨u, t, hget, h⟩ := Prog.bind_eq_ok.1 h
    obtain ⟨rfl, rfl⟩ := get_eq_ok.1 hget
    obtain ⟨r, t, hloop, h⟩ := Prog.bind_eq_ok.1 h
    obtain ⟨rfl, rfl⟩ := pure_eq_ok.1 h
    rw [sweepLoop2_eq] at hloop
    obtain ⟨rfl, hnf⟩ | ⟨rfl, htrap, hf⟩ :=
      granuleLoop_faults (fun a b t ha => sweepGranule2_cases hwalk ha) hloop
    · exact Or.inl ⟨rfl, fun hf => hnf hf.2⟩
    · exact Or.inr ⟨rfl, htrap, hregs, hf⟩
  · exact Or.inl ⟨(pure_eq_ok.1 h).2.symm, fun hf => hregs hf.1⟩

/-- **The sweep for two sections says yes** where nothing is in its way. -/
theorem sweep2_iff_clean {fuel : ℕ} {cs1 cs2 : RegIdx} {b : Bool}
    (h : sweep2 p fuel cs1 cs2 s = .ok (b, s')) : b = true ↔ SweepClean p s cs1 cs2 := by
  unfold SweepClean
  obtain ⟨u, t, hget, h⟩ := Prog.bind_eq_ok.1 h
  obtain ⟨rfl, rfl⟩ := get_eq_ok.1 hget
  obtain ⟨hregs, h⟩ | ⟨hregs, h⟩ := ite_eq_ok.1 h
  · obtain ⟨u, t, hget, h⟩ := Prog.bind_eq_ok.1 h
    obtain ⟨rfl, rfl⟩ := get_eq_ok.1 hget
    obtain ⟨r, t, hloop, h⟩ := Prog.bind_eq_ok.1 h
    obtain ⟨rfl, rfl⟩ := pure_eq_ok.1 h
    rw [sweepLoop2_eq] at hloop
    have hsilent : ∀ a t, sweepGranule2 p (s.rC cs1) (s.rC cs2) (ambientCap p) a s
        = .ok (false, t) → t = s := by
      intro a t ha
      obtain ⟨rfl, -⟩ | ⟨hb, -⟩ := sweepGranule2_cases hwalk ha
      · rfl
      · cases hb
    obtain ⟨rfl, rfl, hall⟩ | ⟨rfl, k, hk, hstop⟩ := granuleLoop_cases hsilent hloop
    · exact ⟨fun _ => ⟨hregs, hall⟩, fun _ => rfl⟩
    · refine ⟨fun hb => absurd hb (by decide), fun hclean => ?_⟩
      have := (hclean.2 k hk).symm.trans hstop
      simp at this
  · obtain ⟨rfl, rfl⟩ := pure_eq_ok.1 h
    exact ⟨fun hb => absurd hb (by decide), fun hclean => absurd hclean.1 hregs⟩

/-- **The sweep for one section** likewise. -/
theorem sweep_cases {fuel : ℕ} {cs1 : RegIdx} {b : Bool}
    (h : sweep p fuel cs1 s = .ok (b, s')) :
    s' = s ∧ ¬ SweepFaults p s cs1 ∨ b = false ∧ s.Trapped s' ∧ SweepFaults p s cs1 := by
  unfold SweepFaults
  obtain ⟨u, t, hget, h⟩ := Prog.bind_eq_ok.1 h
  obtain ⟨rfl, rfl⟩ := get_eq_ok.1 hget
  obtain ⟨hregs, h⟩ | ⟨hregs, h⟩ := ite_eq_ok.1 h
  · obtain ⟨u, t, hget, h⟩ := Prog.bind_eq_ok.1 h
    obtain ⟨rfl, rfl⟩ := get_eq_ok.1 hget
    obtain ⟨r, t, hloop, h⟩ := Prog.bind_eq_ok.1 h
    obtain ⟨rfl, rfl⟩ := pure_eq_ok.1 h
    obtain ⟨rfl, hnf⟩ | ⟨rfl, htrap, hf⟩ :=
      granuleLoop_faults (fun a b t ha => sweepGranule_cases hwalk ha) hloop
    · exact Or.inl ⟨rfl, fun hf => hnf hf.2⟩
    · exact Or.inr ⟨rfl, htrap, hregs, hf⟩
  · exact Or.inl ⟨(pure_eq_ok.1 h).2.symm, fun hf => hregs hf.1⟩

end Sweep

/-! ## The hash -/

/-- The word `k` steps on. -/
def wordAt (start : BitVec f.xlen) (k : ℕ) : BitVec f.xlen := start + BitVec.ofNat f.xlen (4 * k)

theorem wordAt_zero (start : BitVec f.xlen) : wordAt start 0 = start := BitVec.add_zero start

theorem wordAt_succ (start : BitVec f.xlen) (k : ℕ) :
    wordAt (start + 4) k = wordAt start (k + 1) := by
  rw [wordAt, wordAt, BitVec.add_assoc, Nat.mul_succ, Nat.add_comm, BitVec.ofNat_add]
  rfl

/-- The load of a word of a code section. -/
def wordLoad (p : Platform f) (s : State f) (cs1 : RegIdx) (cap : Capability f)
    (a : BitVec f.xlen) : Except SailError (Option (BitVec 32) × State f) :=
  loadWordNoreg p (0#1 ++ cs1) (cap.withAddress a) a s

/-- **The hash comes to the word** `k`: all before it are loaded. -/
def HashArrives (p : Platform f) (s : State f) (cs1 : RegIdx) (cap : Capability f)
    (top : BitVec (f.xlen + 1)) (k : ℕ) : Prop :=
  (∀ j, j ≤ k → (wordAt cap.address j).toNat < top.toNat)
    ∧ ∀ j, j < k → ∃ v, wordLoad p s cs1 cap (wordAt cap.address j) = .ok (some v, s)

/-- The load of a word fails. -/
def WordFaults (p : Platform f) (s : State f) (cs1 : RegIdx) (cap : Capability f)
    (a : BitVec f.xlen) : Prop := ∃ t, wordLoad p s cs1 cap a = .ok (none, t)

/-- **A load of the hash fails**, at a word of the code section that it comes
to. -/
def HashFaults (p : Platform f) (s : State f) (cs1 : RegIdx) : Prop :=
  let cap := (s.rC cs1).unsealCap
  ∃ k, HashArrives p s cs1 cap cap.getCapBoundsBits.2 k
    ∧ WordFaults p s cs1 cap (wordAt cap.address k)

section Hash

variable {cs1 : RegIdx} {cap : Capability f} {top : BitVec (f.xlen + 1)} {fuel : ℕ}

theorem hashArrives_succ {k : ℕ} {v : BitVec 32} (hin : cap.address.toNat < top.toNat)
    (hload : wordLoad p s cs1 cap cap.address = .ok (some v, s)) :
    HashArrives p s cs1 cap top (k + 1)
      ↔ HashArrives p s cs1 (cap.withAddress (cap.address + 4)) top k := by
  unfold HashArrives
  show _ ↔ (∀ j, j ≤ k → (wordAt (cap.address + 4) j).toNat < top.toNat)
    ∧ ∀ j, j < k → ∃ v, wordLoad p s cs1 cap (wordAt (cap.address + 4) j) = .ok (some v, s)
  simp only [wordAt_succ]
  constructor
  · exact fun h => ⟨fun j hj => h.1 (j + 1) (by omega), fun j hj => h.2 (j + 1) (by omega)⟩
  · intro h
    constructor
    · intro j hj
      cases j with
      | zero => rwa [wordAt_zero]
      | succ j => exact h.1 j (by omega)
    · intro j hj
      cases j with
      | zero =>
        rw [wordAt_zero]
        exact ⟨v, hload⟩
      | succ j => exact h.2 j (by omega)

/-- **The loop of the hash** changes nothing, or ends by an exception. -/
theorem hashLoop_cases (hwalk : p.WalkReads) {words : List (BitVec 32)}
    {r : Option (List (BitVec 32))}
    (h : hashLoop p cs1 top fuel cap words s = .ok (r, s')) :
    (r ≠ none ∧ s' = s ∧ ¬ ∃ k, HashArrives p s cs1 cap top k
        ∧ WordFaults p s cs1 cap (wordAt cap.address k))
      ∨ (r = none ∧ s.Trapped s' ∧ ∃ k, HashArrives p s cs1 cap top k
        ∧ WordFaults p s cs1 cap (wordAt cap.address k)) := by
  induction fuel generalizing cap words with
  | zero => exact absurd h throw_ne_ok
  | succ fuel ih =>
    obtain ⟨hin, h⟩ | ⟨hout, h⟩ := ite_eq_ok.1 h
    · obtain ⟨v, t, hload, hrest⟩ := Prog.bind_eq_ok.1 h
      have hload' : wordLoad p s cs1 cap cap.address = .ok (v, t) := hload
      have hfirst : HashArrives p s cs1 cap top 0 := by
        refine ⟨fun j hj => ?_, fun j hj => absurd hj (Nat.not_lt_zero j)⟩
        rwa [Nat.le_zero.1 hj, wordAt_zero]
      cases v with
      | none =>
        obtain ⟨rfl, rfl⟩ := pure_eq_ok.1 hrest
        obtain ⟨hne, -⟩ | ⟨-, htrap⟩ := failsBy_loadWordNoreg hwalk _ _ _ _ _ _ hload
        · exact absurd rfl hne
        · refine Or.inr ⟨rfl, htrap, 0, hfirst, t, ?_⟩
          rwa [wordAt_zero]
      | some v =>
        obtain ⟨-, rfl⟩ | ⟨hnone, -⟩ := failsBy_loadWordNoreg hwalk _ _ _ _ _ _ hload
        · have hshift : (∃ k, HashArrives p t cs1 cap top k
              ∧ WordFaults p t cs1 cap (wordAt cap.address k))
              ↔ ∃ k, HashArrives p t cs1 (cap.withAddress (cap.address + 4)) top k
                ∧ WordFaults p t cs1 (cap.withAddress (cap.address + 4))
                  (wordAt (cap.withAddress (cap.address + 4)).address k) := by
            constructor
            · rintro ⟨k, hk, u, hu⟩
              cases k with
              | zero =>
                rw [wordAt_zero] at hu
                have := hload'.symm.trans hu
                simp at this
              | succ k =>
                refine ⟨k, (hashArrives_succ hin hload').1 hk, u, ?_⟩
                rw [← wordAt_succ] at hu
                exact hu
            · rintro ⟨k, hk, u, hu⟩
              refine ⟨k + 1, (hashArrives_succ hin hload').2 hk, u, ?_⟩
              rw [← wordAt_succ]
              exact hu
          rw [hshift]
          exact ih hrest
        · cases hnone
    · obtain ⟨rfl, rfl⟩ := pure_eq_ok.1 h
      refine Or.inl ⟨by simp, rfl, fun ⟨k, hk, _⟩ => absurd (hk.1 0 (Nat.zero_le k)) ?_⟩
      rwa [wordAt_zero]

/-- **The hash** changes nothing, or ends by an exception. -/
theorem makeHash_cases (hwalk : p.WalkReads) {r : Option Hash}
    (h : makeHash p fuel cs1 s = .ok (r, s')) :
    r ≠ none ∧ s' = s ∧ ¬ HashFaults p s cs1 ∨ r = none ∧ s.Trapped s' ∧ HashFaults p s cs1 := by
  obtain ⟨u, t, hget, h⟩ := Prog.bind_eq_ok.1 h
  obtain ⟨rfl, rfl⟩ := get_eq_ok.1 hget
  obtain ⟨u, t, hassert, h⟩ := Prog.bind_eq_ok.1 h
  obtain rfl := silent_assert _ _ _ _ hassert
  obtain ⟨words, t', hloop, h⟩ := Prog.bind_eq_ok.1 h
  obtain ⟨hne, rfl, hnf⟩ | ⟨rfl, htrap, hf⟩ := hashLoop_cases hwalk hloop
  · cases words with
    | none => exact absurd rfl hne
    | some words =>
      obtain ⟨rfl, rfl⟩ := pure_eq_ok.1 h
      exact Or.inl ⟨by simp, rfl, hnf⟩
  · obtain ⟨rfl, rfl⟩ := pure_eq_ok.1 h
    exact Or.inr ⟨rfl, htrap, hf⟩

end Hash

/-! ## `EInitData` -/

/-- **The checks of `EInitData`** before the sweep. -/
structure EInitDataChecks (s : State f) (cd cs1 cs2 : RegIdx) : Prop where
  codeTag : (s.rC cs1).tag = true
  dataTag : (s.rC cs2).tag = true
  codeSealed : (s.rC cs1).isCapSealed = true
  dataUnsealed : (s.rC cs2).isCapSealed = false
  permitStore : (s.rC cs2).permitStore = true
  linear : cd = cs2
  length : (s.rC cs2).getCapBase + f.capSize ≤ (s.rC cs2).getCapTop
  entry : (s.rC cs1).otype.toNat % 4 = 2
  known : (s.etable.getId (otypeToEid (s.rC cs1).otype) true).isSome = true

/-- **The identity is entered in the table**: the checks pass, nothing is in
the way of the sweep, and every word of the code section is loaded. -/
structure EInitDataCommits (p : Platform f) (s : State f) (cd cs1 cs2 : RegIdx) : Prop where
  checks : EInitDataChecks s cd cs1 cs2
  sweep : SweepClean p s cs1 cs2
  hash : ¬ HashFaults p s cs1

/-- **A helper of `EInitData` raises an exception of its own** before the
instruction does. -/
def EInitDataHelperFaults (p : Platform f) (s : State f) (cd cs1 cs2 : RegIdx) : Prop :=
  EInitDataChecks s cd cs1 cs2
    ∧ (SweepFaults2 p s cs1 cs2 ∨ SweepClean p s cs1 cs2 ∧ HashFaults p s cs1)

/-- **How `EInitData` ends.** -/
inductive EInitDataEnds (p : Platform f) (cd cs1 cs2 : RegIdx) (s : State f) :
    Retired → State f → Prop
  /-- By one exception, with nothing done. -/
  | rejected {s' : State f} (hcommit : ¬ EInitDataCommits p s cd cs1 cs2)
      (hhelper : ¬ EInitDataHelperFaults p s cd cs1 cs2) (h : s.Trapped s') :
      EInitDataEnds p cd cs1 cs2 s .RETIRE_FAIL s'
  /-- By the exception of a helper, and then by its own. -/
  | twice {t s' : State f} (hcommit : ¬ EInitDataCommits p s cd cs1 cs2)
      (hhelper : EInitDataHelperFaults p s cd cs1 cs2) (h : s.Trapped t) (h' : t.Trapped s') :
      EInitDataEnds p cd cs1 cs2 s .RETIRE_FAIL s'
  /-- In its last part, with the identity in the table. -/
  | committed {id : Hash} {etable : ETable f} {r : Retired} {s' : State f}
      (hcommit : EInitDataCommits p s cd cs1 cs2)
      (htable : s.etable.makeMappingPerm (otypeToEid (s.rC cs1).otype) id = some etable)
      (h : finishData p cd cs2 (s.rC cs2) (s.rC cs1).otype { s with etable := etable }
        = .ok (r, s')) :
      EInitDataEnds p cd cs1 cs2 s r s'

/-- What the search finds temporary is made permanent. -/
theorem makeMappingPermH_of_getIdH {eid : BitVec (f.ow - 2)} (id : Hash)
    {slots : List (Option (EMapping f))} (h : (getIdH eid true slots).isSome = true) :
    (makeMappingPermH eid id slots).isSome = true := by
  induction slots with
  | nil => cases h
  | cons slot rest ih =>
    cases slot with
    | none =>
      rw [makeMappingPermH, Option.isSome_map]
      exact ih h
    | some entry =>
      rw [getIdH] at h
      rw [makeMappingPermH]
      split
      · rename_i heid
        rw [if_pos heid] at h
        cases htemp : entry.isTemp with
        | false =>
          rw [htemp] at h
          cases h
        | true => rfl
      · rename_i heid
        rw [if_neg heid] at h
        rw [Option.isSome_map]
        exact ih h

theorem makeMappingPerm_of_getId {t : ETable f} {eid : BitVec (f.ow - 2)} (id : Hash)
    (h : (t.getId eid true).isSome = true) : ∃ etable, t.makeMappingPerm eid id = some etable := by
  have hsome := makeMappingPermH_of_getIdH id h
  unfold ETable.makeMappingPerm
  split
  · exact ⟨_, rfl⟩
  · rename_i hnone
    rw [hnone] at hsome
    cases hsome

/-- An `EInitData` that is turned down by its checks. -/
theorem EInitDataEnds.of_check {cd cs1 cs2 : RegIdx} {e : CapEx} {reg : RegIdx} {r : Retired}
    (hcheck : ¬ EInitDataChecks s cd cs1 cs2) (h : failWith e reg s = .ok (r, s')) :
    EInitDataEnds p cd cs1 cs2 s r s' := by
  obtain ⟨rfl, htrap⟩ := trapped_of_failWith h
  exact .rejected (fun hc => hcheck hc.checks) (fun hc => hcheck hc.1) htrap

/-- **Every end of `EInitData`.** -/
theorem executeEInitData_ends (hwalk : p.WalkReads) {fuel : ℕ} {cd cs1 cs2 : RegIdx}
    {r : Retired} (h : executeEInitData p fuel cd cs1 cs2 s = .ok (r, s')) :
    EInitDataEnds p cd cs1 cs2 s r s' := by
  obtain ⟨u, t, hget, h⟩ := Prog.bind_eq_ok.1 h
  obtain ⟨rfl, rfl⟩ := get_eq_ok.1 hget
  obtain ⟨h1, h⟩ | ⟨h1, h⟩ := ite_eq_ok.1 h
  · exact .of_check (fun hc => by simp [hc.codeTag] at h1) h
  obtain ⟨h2, h⟩ | ⟨h2, h⟩ := ite_eq_ok.1 h
  · exact .of_check (fun hc => by simp [hc.dataTag] at h2) h
  obtain ⟨h3, h⟩ | ⟨h3, h⟩ := ite_eq_ok.1 h
  · exact .of_check (fun hc => by simp [hc.codeSealed] at h3) h
  obtain ⟨h4, h⟩ | ⟨h4, h⟩ := ite_eq_ok.1 h
  · exact .of_check (fun hc => by simp [hc.dataUnsealed] at h4) h
  obtain ⟨h5, h⟩ | ⟨h5, h⟩ := ite_eq_ok.1 h
  · exact .of_check (fun hc => by simp [hc.permitStore] at h5) h
  obtain ⟨h6, h⟩ | ⟨h6, h⟩ := ite_eq_ok.1 h
  · exact .of_check (fun hc => h6 hc.linear) h
  obtain ⟨h7, h⟩ | ⟨h7, h⟩ := ite_eq_ok.1 h
  · exact absurd h throw_ne_ok
  obtain ⟨h8, h⟩ | ⟨h8, h⟩ := ite_eq_ok.1 h
  · exact .of_check (fun hc => by have := hc.length; omega) h
  obtain ⟨h9, h⟩ | ⟨h9, h⟩ := ite_eq_ok.1 h
  · exact .of_check (fun hc => h9 hc.entry) h
  cases hid : s.etable.getId (otypeToEid (s.rC cs1).otype) true with
  | none =>
    rw [hid] at h
    refine .of_check (fun hc => ?_) h
    have := hc.known
    rw [hid] at this
    cases this
  | some entry =>
    rw [hid] at h
    have hchecks : EInitDataChecks s cd cs1 cs2 :=
      ⟨by simpa using h1, by simpa using h2, by simpa using h3, by simpa using h4,
        by simpa using h5, by simpa using h6, by omega, by simpa using h9, by rw [hid]; rfl⟩
    obtain ⟨b, t, hsweep, h⟩ := Prog.bind_eq_ok.1 h
    have hclean := sweep2_iff_clean hwalk hsweep
    obtain ⟨rfl, hnf⟩ | ⟨rfl, htrap, hf⟩ := sweep2_cases hwalk hsweep
    · cases b with
      | false =>
        have hdirty : ¬ SweepClean p t cs1 cs2 := fun hc => absurd (hclean.2 hc) (by decide)
        obtain ⟨rfl, htrap⟩ := trapped_of_failWith h
        refine .rejected (fun hc => hdirty hc.sweep) (fun hc => ?_) htrap
        obtain hf | hc := hc.2
        · exact hnf hf
        · exact hdirty hc.1
      | true =>
        have hsweeps := hclean.1 rfl
        obtain ⟨id, u, hhash, h⟩ := Prog.bind_eq_ok.1 h
        obtain ⟨hne, rfl, hnf'⟩ | ⟨rfl, htrap, hf⟩ := makeHash_cases hwalk hhash
        · cases id with
          | none => exact absurd rfl hne
          | some id =>
            obtain ⟨v, w, hget, h⟩ := Prog.bind_eq_ok.1 h
            obtain ⟨rfl, rfl⟩ := get_eq_ok.1 hget
            obtain ⟨etable, htable⟩ := makeMappingPerm_of_getId id hchecks.known
            simp only [htable] at h
            obtain ⟨v, w, hset, h⟩ := Prog.bind_eq_ok.1 h
            obtain rfl := set_eq_ok.1 hset
            exact .committed ⟨hchecks, hsweeps, hnf'⟩ htable h
        · obtain ⟨rfl, htrap'⟩ := trapped_of_failWith h
          exact .twice (fun hc => hc.hash hf) ⟨hchecks, Or.inr ⟨hsweeps, hf⟩⟩ htrap htrap'
    · obtain ⟨rfl, htrap'⟩ := trapped_of_failWith h
      refine .twice (fun hc => ?_) ⟨hchecks, Or.inl hf⟩ htrap htrap'
      exact absurd (hclean.2 hc.sweep) (by decide)

end Sail
