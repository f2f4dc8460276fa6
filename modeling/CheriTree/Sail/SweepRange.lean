import CheriTree.Sail.Outcomes
import Mathlib.Data.List.Nodup

/-!
# What a sweep of the memory visits

The two loops of the sweeps differ in their test of a granule only. Each goes
from the start of the memory up by granules and stops at the first one that
does not pass; where it gives no, it is to have tested every granule of the
memory, once (`SweepsAll`).

The address is a machine word, and it is compared after it was moved on. Where
the memory ends below the top of the address space that does no harm, and the
loop ends after as many rounds as there are granules. Where it ends at the top,
the address comes back to zero, which is below every end: the loop goes on from
there, and ends only at a granule that stops it (`granuleLoop_endless`).
-/

namespace Sail

open Prog

variable {f : CapFormat} {p : Platform f} {s s' : State f}

/-! ## The granules a loop visits -/

/-- **The loop with the addresses it has tested**, in the order of the tests. -/
def granuleTrace (test : BitVec f.xlen → M f Bool) (memEnd : ℕ) :
    ℕ → BitVec f.xlen → M f (Bool × List (BitVec f.xlen))
  | 0, _ => throw .outOfFuel
  | fuel + 1, addr => do
    if addr.toNat + f.capSize ≤ memEnd then
      let overlaps ← test addr
      if overlaps then pure (true, [addr])
      else do
        let rest ← granuleTrace test memEnd fuel (addr + BitVec.ofNat f.xlen f.capSize)
        pure (rest.1, addr :: rest.2)
    else pure (false, [])

section Loop

variable {test : BitVec f.xlen → M f Bool} {memEnd : ℕ}

/-- The addresses are only written down: the loop is the same. -/
theorem granuleLoop_eq_trace (fuel : ℕ) (start : BitVec f.xlen) :
    granuleLoop test memEnd fuel start = (do
      let result ← granuleTrace test memEnd fuel start
      pure result.1) := by
  induction fuel generalizing start with
  | zero => rfl
  | succ fuel ih =>
    rw [granuleLoop, granuleTrace]
    split
    · rw [bind_assoc]
      congr 1
      funext overlaps
      split
      · rfl
      · rw [ih, bind_assoc]
        rfl
    · rfl

/-- The first `n` granules from an address on. -/
def granules (start : BitVec f.xlen) (n : ℕ) : List (BitVec f.xlen) :=
  (List.range n).map (granuleAt start)

theorem granules_succ (start : BitVec f.xlen) (n : ℕ) :
    granules start (n + 1)
      = start :: granules (start + BitVec.ofNat f.xlen f.capSize) n := by
  rw [granules, granules, List.range_succ_eq_map, List.map_cons, granuleAt_zero, List.map_map]
  congr 2
  funext k
  exact (granuleAt_succ start k).symm

/-- **A loop that passes** has visited the granules from its start on, up to
the first one that is not in the memory, and each has passed. -/
theorem granuleTrace_passes {fuel : ℕ} {start : BitVec f.xlen} {l : List (BitVec f.xlen)}
    (hsilent : ∀ a t, test a s = .ok (false, t) → t = s)
    (h : granuleTrace test memEnd fuel start s = .ok ((false, l), s')) :
    ∃ n, l = granules start n ∧ (∀ k, k < n → (granuleAt start k).toNat + f.capSize ≤ memEnd)
      ∧ memEnd < (granuleAt start n).toNat + f.capSize
      ∧ ∀ k, k < n → test (granuleAt start k) s = .ok (false, s) := by
  induction fuel generalizing start l with
  | zero => exact absurd h throw_ne_ok
  | succ fuel ih =>
    obtain ⟨hin, h⟩ | ⟨hout, h⟩ := ite_eq_ok.1 h
    · obtain ⟨r, t, htest, hround⟩ := Prog.bind_eq_ok.1 h
      obtain ⟨-, hdone⟩ | ⟨hr, hgo⟩ := ite_eq_ok.1 hround
      · cases (pure_eq_ok.1 hdone).1
      · obtain rfl : r = false := by simpa using hr
        obtain rfl := hsilent _ _ htest
        obtain ⟨⟨b, rest⟩, u, htrace, hpure⟩ := Prog.bind_eq_ok.1 hgo
        obtain ⟨hpair, rfl⟩ := pure_eq_ok.1 hpure
        obtain rfl : b = false := congrArg Prod.fst hpair
        obtain rfl : start :: rest = l := congrArg Prod.snd hpair
        obtain ⟨n, rfl, hbefore, hafter, hpass⟩ := ih htrace
        refine ⟨n + 1, (granules_succ start n).symm, fun k hk => ?_, ?_, fun k hk => ?_⟩
        · cases k with
          | zero => rwa [granuleAt_zero]
          | succ k =>
            rw [← granuleAt_succ]
            exact hbefore k (Nat.lt_of_succ_lt_succ hk)
        · rwa [← granuleAt_succ]
        · cases k with
          | zero => rwa [granuleAt_zero]
          | succ k =>
            rw [← granuleAt_succ]
            exact hpass k (Nat.lt_of_succ_lt_succ hk)
    · obtain rfl : ([] : List (BitVec f.xlen)) = l := congrArg Prod.snd (pure_eq_ok.1 h).1
      refine ⟨0, rfl, fun k hk => absurd hk (Nat.not_lt_zero k), ?_,
        fun k hk => absurd hk (Nat.not_lt_zero k)⟩
      rw [granuleAt_zero]
      exact Nat.lt_of_not_le hout

/-- **A loop that ends below the top** of the address space has ended after as
many rounds as there are granules. -/
theorem granuleLoop_ends (havoid : ∀ a, Avoids .outOfFuel (test a))
    (htop : memEnd + f.capSize ≤ 2 ^ f.xlen) {n : ℕ} {start : BitVec f.xlen}
    (hn : memEnd < start.toNat + (n + 1) * f.capSize) :
    Avoids .outOfFuel (granuleLoop test memEnd (n + 1) start) := by
  induction n generalizing start with
  | zero =>
    rw [granuleLoop, if_neg (by omega)]
    exact avoids_pure _
  | succ n ih =>
    rw [granuleLoop]
    by_cases hin : start.toNat + f.capSize ≤ memEnd
    · have hpos := f.capSize_pos
      -- the next granule is not past the address space
      have hnext : (start + BitVec.ofNat f.xlen f.capSize).toNat = start.toNat + f.capSize := by
        rw [BitVec.toNat_add, BitVec.toNat_ofNat, Nat.mod_eq_of_lt (a := f.capSize) (by omega),
          Nat.mod_eq_of_lt (by omega)]
      rw [if_pos hin]
      refine (havoid _).bind (fun overlaps => Avoids.ite (avoids_pure _) (ih ?_))
      rw [hnext]
      rw [Nat.succ_mul] at hn
      omega
    · rw [if_neg hin]
      exact avoids_pure _

/-- A round that does not end in the loop going on. -/
theorem granuleLoop_succ_error {fuel : ℕ} {start : BitVec f.xlen}
    (havoid : ∀ a, Avoids .outOfFuel (test a)) (hsilent : ∀ a t, test a s = .ok (false, t) → t = s)
    (h : granuleLoop test memEnd (fuel + 1) start s = .error .outOfFuel) :
    test start s = .ok (false, s)
      ∧ granuleLoop test memEnd fuel (start + BitVec.ofNat f.xlen f.capSize) s
        = .error .outOfFuel := by
  rw [granuleLoop] at h
  split at h
  · obtain htest | ⟨b, t, htest, hrest⟩ := bind_eq_error.1 h
    · exact absurd htest (havoid _ _)
    · cases b with
      | true => exact absurd hrest (avoids_pure _ _)
      | false =>
        obtain rfl := hsilent _ _ htest
        exact ⟨htest, hrest⟩
  · exact absurd h (avoids_pure _ _)

/-- **A loop ends at a granule that does not pass**, if not before. -/
theorem granuleLoop_stops {n : ℕ} {start : BitVec f.xlen}
    (havoid : ∀ a, Avoids .outOfFuel (test a)) (hsilent : ∀ a t, test a s = .ok (false, t) → t = s)
    (hstop : test (granuleAt start n) s ≠ .ok (false, s)) :
    granuleLoop test memEnd (n + 1) start s ≠ .error .outOfFuel := by
  induction n generalizing start with
  | zero =>
    rw [granuleAt_zero] at hstop
    exact fun h => hstop (granuleLoop_succ_error havoid hsilent h).1
  | succ n ih =>
    rw [← granuleAt_succ] at hstop
    exact fun h => ih hstop (granuleLoop_succ_error havoid hsilent h).2

/-- **A memory that ends at the top of the address space** has no end for the
loop, where every aligned granule passes. -/
theorem granuleLoop_endless {fuel : ℕ} {start : BitVec f.xlen}
    (hpass : ∀ a : BitVec f.xlen, a.toNat % f.capSize = 0 → test a s = .ok (false, s))
    (hal : start.toNat % f.capSize = 0) :
    granuleLoop test (2 ^ f.xlen) fuel start s = .error .outOfFuel := by
  induction fuel generalizing start with
  | zero => rfl
  | succ fuel ih =>
    have hnext : (start + BitVec.ofNat f.xlen f.capSize).toNat % f.capSize = 0 := by
      rw [BitVec.toNat_add, BitVec.toNat_ofNat, Nat.add_mod_mod, Nat.mod_mod_of_dvd _ f.capSize_dvd,
        Nat.add_mod_right, hal]
    rw [granuleLoop, if_pos (f.add_capSize_le start.isLt hal)]
    refine Prog.bind_eq_error.2 (Or.inr ⟨false, s, hpass start hal, ?_⟩)
    exact ih hnext

end Loop

/-! ## The tests of a granule end -/

/-- **The page table walk ends**: it goes down the levels of the tables, and is
not left in a loop. -/
def Platform.WalkEnds (p : Platform f) : Prop :=
  ∀ mode vAddr ac priv, Avoids .outOfFuel (p.walk mode vAddr ac priv)

theorem avoids_assert (b : Bool) : Avoids .outOfFuel (assert b : M f Unit) :=
  Avoids.ite (avoids_pure _) (avoids_throw (by simp))

theorem avoids_trapStatus (s : State f) (priv : Privilege) :
    Avoids .outOfFuel (trapStatus s priv) := by
  unfold trapStatus
  split
  · exact avoids_pure _
  · refine (avoids_assert _).bind (fun _ => ?_)
    split
    · exact avoids_pure _
    · exact avoids_pure _
    · exact avoids_throw (by simp)
  · exact (avoids_assert _).bind (fun _ => avoids_pure _)

theorem avoids_prepareTrapVector (priv : Privilege) :
    Avoids .outOfFuel (prepareTrapVector priv : M f (BitVec f.xlen)) := by
  unfold prepareTrapVector
  refine avoids_get.bind (fun s => Avoids.ite ?_ (Avoids.ite ?_ (avoids_throw (by simp))))
  · exact (avoids_modify _).bind (fun _ => avoids_pure _)
  · exact (avoids_modify _).bind (fun _ => avoids_pure _)

theorem avoids_handleMemException (addr : BitVec f.xlen) (e : ExceptionType) :
    Avoids .outOfFuel (handleMemException addr e : M f Unit) := by
  refine avoids_get.bind (fun s => Avoids.bind ?_ (fun _ => avoids_modify _))
  refine avoids_get.bind (fun s => (avoids_trapStatus _ _).bind (fun m => ?_))
  refine (avoids_set _).bind (fun _ => Avoids.bind ?_ (fun _ => avoids_prepareTrapVector _))
  exact avoids_get.bind (fun s => (avoids_assert _).bind (fun _ => avoids_modify _))

theorem effectivePrivilege_ne_outOfFuel (s : State f) (ac : AccessType) :
    effectivePrivilege s ac ≠ .error .outOfFuel := by
  unfold effectivePrivilege privLevelOfBits
  split_ifs <;> simp

theorem translationMode_ne_outOfFuel (s : State f) (priv : Privilege) :
    translationMode s priv ≠ .error .outOfFuel := by
  unfold translationMode
  split_ifs <;> simp

theorem avoids_translateAddr (hends : p.WalkEnds) (vAddr : BitVec f.xlen) (ac : AccessType) :
    Avoids .outOfFuel (translateAddr p vAddr ac) := by
  refine avoids_get.bind (fun s => ?_)
  refine (avoids_lift (effectivePrivilege_ne_outOfFuel _ _)).bind (fun priv => ?_)
  refine (avoids_lift (translationMode_ne_outOfFuel _ _)).bind (fun mode => ?_)
  exact Avoids.ite (avoids_pure _) (hends _ _ _ _)

theorem avoids_memReadMeta (ac : AccessType) (addr : BitVec f.xlen) (n : ℕ) (readMeta : Bool) :
    Avoids .outOfFuel (memReadMeta p ac addr n readMeta) := by
  refine Avoids.bind ?_ (fun check => ?_)
  · refine avoids_get.bind (fun s => Avoids.ite ?_ (avoids_pure _))
    exact (avoids_lift (effectivePrivilege_ne_outOfFuel _ _)).bind (fun _ => avoids_pure _)
  · cases check with
    | some e => exact avoids_pure _
    | none => exact avoids_get.bind (fun _ => avoids_pure _)

theorem avoids_loadCapNoreg (hends : p.WalkEnds) (auth : Capability f) (vaddr : BitVec f.xlen) :
    Avoids .outOfFuel (loadCapNoreg p auth vaddr) := by
  unfold loadCapNoreg
  refine (avoids_translateAddr hends _ _).bind (fun tr => ?_)
  split
  · exact avoids_throw (by simp)
  · exact (avoids_handleMemException _ _).bind (fun _ => avoids_pure _)
  · refine ((avoids_memReadMeta _ _ _ _).bind (fun _ => avoids_pure _)).bind (fun r => ?_)
    split
    · exact avoids_pure _
    · exact (avoids_handleMemException _ _).bind (fun _ => avoids_pure _)

/-! ## The two sweeps -/

/-- **The test of a sweep**: for one section, or for a code and a data
section. -/
inductive SweepTest (f : CapFormat) where
  | one (cap : Capability f)
  | two (capCode capData : Capability f)

/-- What the loop of the sweep does at a granule. -/
def SweepTest.granule (p : Platform f) : SweepTest f → BitVec f.xlen → M f Bool
  | one cap => sweepGranule p cap (ambientCap p)
  | two capCode capData => sweepGranule2 p capCode capData (ambientCap p)

/-- **The loop of the sweep**, as `sweep_mem` and `sweep_mem2` call it. -/
def SweepTest.loop (p : Platform f) (fuel : ℕ) : SweepTest f → M f Bool
  | one cap => sweepLoop p cap (ambientCap p) p.ramEnd fuel (ambientCap p).address
  | two capCode capData =>
    sweepLoop2 p capCode capData (ambientCap p) p.ramEnd fuel (ambientCap p).address

variable {test : SweepTest f}

theorem SweepTest.loop_eq (fuel : ℕ) :
    test.loop p fuel = granuleLoop (test.granule p) p.ramEnd fuel p.ramBase := by
  cases test with
  | one cap => rfl
  | two capCode capData =>
    rw [loop, sweepLoop2_eq]
    rfl

theorem SweepTest.avoids_granule (hends : p.WalkEnds) (a : BitVec f.xlen) :
    Avoids .outOfFuel (test.granule p a) := by
  cases test with
  | one cap =>
    refine avoids_get.bind (fun s => Avoids.ite (Avoids.ite ?_ (avoids_pure _)) (avoids_pure _))
    refine (avoids_loadCapNoreg hends _ _).bind (fun r => ?_)
    cases r with
    | none => exact avoids_pure _
    | some loaded => exact avoids_pure _
  | two capCode capData =>
    refine avoids_get.bind (fun s => Avoids.ite (Avoids.ite (avoids_pure _)
      (Avoids.ite (avoids_pure _) ?_)) (avoids_pure _))
    refine (avoids_loadCapNoreg hends _ _).bind (fun r => ?_)
    cases r with
    | none => exact avoids_pure _
    | some loaded => exact avoids_pure _

/-- A granule that passes has changed nothing. -/
theorem SweepTest.granule_silent (hwalk : p.WalkReads) {a : BitVec f.xlen}
    (h : test.granule p a s = .ok (false, s')) : s' = s := by
  cases test with
  | one cap =>
    obtain ⟨rfl, -⟩ | ⟨hb, -⟩ := sweepGranule_cases hwalk h
    · rfl
    · cases hb
  | two capCode capData =>
    obtain ⟨rfl, -⟩ | ⟨hb, -⟩ := sweepGranule2_cases hwalk h
    · rfl
    · cases hb

/-- **A sweep ends, and tests every granule of the memory once** where it says
no. -/
structure SweepsAll (p : Platform f) (test : SweepTest f) (s : State f) : Prop where
  ends : ∃ fuel, test.loop p fuel s ≠ .error .outOfFuel
  visits : ∀ fuel s', test.loop p fuel s = .ok (false, s') →
    ∃ l : List (BitVec f.xlen),
      granuleTrace (test.granule p) p.ramEnd fuel p.ramBase s = .ok ((false, l), s')
        ∧ l.Nodup ∧ ∀ a, a ∈ l ↔ InRam p a

/-- The granules of the memory, one after the other. -/
theorem granuleAt_toNat {start : BitVec f.xlen} {k : ℕ}
    (h : start.toNat + k * f.capSize < 2 ^ f.xlen) :
    (granuleAt start k).toNat = start.toNat + k * f.capSize := by
  rw [granuleAt, BitVec.toNat_add, BitVec.toNat_ofNat, Nat.mod_eq_of_lt (a := k * f.capSize)
    (by omega), Nat.mod_eq_of_lt h]

/-- Every aligned address is so many granules on. -/
theorem exists_granuleAt {start a : BitVec f.xlen} (hstart : start.toNat % f.capSize = 0)
    (ha : a.toNat % f.capSize = 0) : ∃ k, granuleAt start k = a := by
  have hdvd : f.capSize ∣ (a - start).toNat := by
    obtain ⟨q, hq⟩ := f.capSize_dvd
    obtain ⟨m, hm⟩ := Nat.dvd_of_mod_eq_zero hstart
    have hlt := start.isLt
    rw [BitVec.toNat_sub, Nat.dvd_mod_iff f.capSize_dvd]
    refine Nat.dvd_add ?_ (Nat.dvd_of_mod_eq_zero ha)
    exact Nat.dvd_sub f.capSize_dvd (Nat.dvd_of_mod_eq_zero hstart)
  refine ⟨(a - start).toNat / f.capSize, ?_⟩
  rw [granuleAt, Nat.div_mul_cancel hdvd, BitVec.ofNat_toNat, BitVec.setWidth_eq,
    BitVec.add_comm, BitVec.sub_add_cancel]

/-- **The granules of a memory that ends below the top** of the address
space. -/
theorem mem_granules_iff {n : ℕ} (hbase : p.ramBase.toNat % f.capSize = 0)
    (hle : n * f.capSize ≤ p.ramSize.toNat) (hlt : p.ramSize.toNat < (n + 1) * f.capSize)
    (htop : p.ramEnd < 2 ^ f.xlen) :
    (granules p.ramBase n).Nodup ∧ ∀ a, a ∈ granules p.ramBase n ↔ InRam p a := by
  have hpos := f.capSize_pos
  have hend : p.ramEnd = p.ramBase.toNat + p.ramSize.toNat := rfl
  have hat : ∀ k, k ≤ n → (granuleAt p.ramBase k).toNat = p.ramBase.toNat + k * f.capSize := by
    intro k hk
    have := Nat.mul_le_mul_right f.capSize hk
    exact granuleAt_toNat (by omega)
  constructor
  · refine List.Nodup.map_on ?_ List.nodup_range
    intro i hi j hj hij
    have hnat := congrArg BitVec.toNat hij
    rw [hat i (Nat.le_of_lt (List.mem_range.1 hi)), hat j (Nat.le_of_lt (List.mem_range.1 hj))]
      at hnat
    exact Nat.eq_of_mul_eq_mul_right hpos (Nat.add_left_cancel hnat)
  · intro a
    rw [granules, List.mem_map]
    constructor
    · rintro ⟨k, hk, rfl⟩
      have hk' := List.mem_range.1 hk
      have hkn := Nat.mul_le_mul_right f.capSize (Nat.succ_le_of_lt hk')
      rw [Nat.succ_mul] at hkn
      have hk'' := hat k (Nat.le_of_lt hk')
      refine ⟨?_, by omega, by omega⟩
      rw [hk'', Nat.add_mod, hbase, Nat.mul_mod_left]
      exact Nat.zero_mod _
    · intro hin
      obtain ⟨q, hq⟩ : f.capSize ∣ a.toNat - p.ramBase.toNat :=
        Nat.dvd_sub (Nat.dvd_of_mod_eq_zero hin.aligned) (Nat.dvd_of_mod_eq_zero hbase)
      rw [Nat.mul_comm] at hq
      have hge := hin.ge
      have hin' : a.toNat + f.capSize ≤ p.ramEnd := hin.le
      have hqn : q + 1 < n + 1 := by
        refine Nat.lt_of_mul_lt_mul_right (a := f.capSize) ?_
        rw [Nat.succ_mul]
        omega
      have hqn' : q < n := Nat.lt_of_succ_lt_succ hqn
      refine ⟨q, List.mem_range.2 hqn', BitVec.eq_of_toNat_eq ?_⟩
      rw [hat q (Nat.le_of_lt hqn')]
      omega

/-- The granules from an aligned address on are aligned. -/
theorem granuleAt_aligned {start : BitVec f.xlen} (h : start.toNat % f.capSize = 0) (k : ℕ) :
    (granuleAt start k).toNat % f.capSize = 0 := by
  rw [granuleAt, BitVec.toNat_add, BitVec.toNat_ofNat, Nat.add_mod_mod,
    Nat.mod_mod_of_dvd _ f.capSize_dvd, Nat.add_mul_mod_self_right, h]

/-- **What a sweep that says no has visited**: all granules of the memory, each
of which passes, and the memory ends below the top of the address space. -/
theorem sweep_visits (hwalk : p.WalkReads) (hbase : p.ramBase.toNat % f.capSize = 0) {fuel : ℕ}
    {l : List (BitVec f.xlen)}
    (h : granuleTrace (test.granule p) p.ramEnd fuel p.ramBase s = .ok ((false, l), s')) :
    p.ramEnd < 2 ^ f.xlen ∧ l.Nodup ∧ (∀ a, a ∈ l ↔ InRam p a)
      ∧ ∀ a, InRam p a → test.granule p a s = .ok (false, s) := by
  obtain ⟨m, rfl, hbefore, hafter, hpass⟩ :=
    granuleTrace_passes (fun _ _ h => SweepTest.granule_silent hwalk h) h
  -- no granule is past the top
  have hin := f.add_capSize_le (granuleAt p.ramBase m).isLt (granuleAt_aligned hbase m)
  have htop : p.ramEnd < 2 ^ f.xlen := by omega
  have hpos := f.capSize_pos
  have hend : p.ramEnd = p.ramBase.toNat + p.ramSize.toNat := rfl
  have hdiv := Nat.div_add_mod p.ramSize.toNat f.capSize
  have hmod := Nat.mod_lt p.ramSize.toNat hpos
  obtain ⟨n, hn⟩ : ∃ n, n = p.ramSize.toNat / f.capSize := ⟨_, rfl⟩
  rw [← hn, Nat.mul_comm] at hdiv
  have hle : n * f.capSize ≤ p.ramSize.toNat := by omega
  have hlt : p.ramSize.toNat < (n + 1) * f.capSize := by
    rw [Nat.succ_mul]
    omega
  have hlast : (granuleAt p.ramBase n).toNat = p.ramBase.toNat + n * f.capSize :=
    granuleAt_toNat (by omega)
  have hmn : m = n := by
    obtain hmn | rfl | hgt := lt_trichotomy m n
    · have hsucc := Nat.mul_le_mul_right f.capSize (Nat.succ_le_of_lt hmn)
      rw [Nat.succ_mul] at hsucc
      rw [granuleAt_toNat (by omega)] at hafter
      omega
    · rfl
    · have := hbefore n hgt
      rw [Nat.succ_mul] at hlt
      omega
  obtain ⟨hnodup, hmem⟩ := mem_granules_iff hbase hle hlt htop
  rw [hmn]
  refine ⟨htop, hnodup, hmem, fun a ha => ?_⟩
  obtain ⟨k, hk, rfl⟩ := List.mem_map.1 ((hmem a).2 ha)
  exact hpass k (by rw [hmn]; exact List.mem_range.1 hk)

/-- **A sweep of the memory ends and tests every granule once**, for one section
or for two, if and only if the memory ends below the top of the address space,
or some granule of the whole address space does not pass. -/
theorem sweepsAll_iff (p : Platform f) (hwalk : p.WalkReads) (hends : p.WalkEnds)
    (hbase : p.ramBase.toNat % f.capSize = 0) (hsize : p.ramSize.toNat % f.capSize = 0)
    (htop : p.ramBase.toNat + p.ramSize.toNat ≤ 2 ^ f.xlen) (test : SweepTest f) (s : State f) :
    SweepsAll p test s ↔ p.ramBase.toNat + p.ramSize.toNat < 2 ^ f.xlen
      ∨ ∃ a : BitVec f.xlen, a.toNat % f.capSize = 0 ∧ test.granule p a s ≠ .ok (false, s) := by
  have havoid : ∀ a, Avoids .outOfFuel (test.granule p a) :=
    fun a => SweepTest.avoids_granule hends a
  have hvisits : ∀ fuel s', test.loop p fuel s = .ok (false, s') →
      ∃ l : List (BitVec f.xlen),
        granuleTrace (test.granule p) p.ramEnd fuel p.ramBase s = .ok ((false, l), s')
          ∧ l.Nodup ∧ ∀ a, a ∈ l ↔ InRam p a := by
    intro fuel s' h
    rw [SweepTest.loop_eq, granuleLoop_eq_trace] at h
    obtain ⟨⟨b, l⟩, t, hl, hpure⟩ := Prog.bind_eq_ok.1 h
    obtain ⟨rfl, rfl⟩ := pure_eq_ok.1 hpure
    obtain ⟨-, hnodup, hmem, -⟩ := sweep_visits hwalk hbase hl
    exact ⟨l, hl, hnodup, hmem⟩
  constructor
  · intro hall
    by_contra hno
    rw [not_or, not_lt] at hno
    have hend : p.ramEnd = 2 ^ f.xlen := Nat.le_antisymm htop hno.1
    obtain ⟨fuel, hfuel⟩ := hall.ends
    refine hfuel ?_
    rw [SweepTest.loop_eq, hend]
    refine granuleLoop_endless (fun a ha => ?_) hbase
    by_contra hstop
    exact hno.2 ⟨a, ha, hstop⟩
  · rintro (hlt | ⟨a, ha, hstop⟩)
    · refine ⟨⟨p.ramSize.toNat / f.capSize + 1, ?_⟩, hvisits⟩
      have hdvd := Nat.div_add_mod p.ramSize.toNat f.capSize
      have hpos := f.capSize_pos
      have hal : p.ramEnd % f.capSize = 0 := by
        rw [Platform.ramEnd, Nat.add_mod, hbase, hsize]
        exact Nat.zero_mod _
      rw [SweepTest.loop_eq]
      refine granuleLoop_ends havoid (f.add_capSize_le hlt hal) ?_ s
      show p.ramBase.toNat + p.ramSize.toNat < _
      rw [Nat.succ_mul, Nat.mul_comm]
      omega
    · obtain ⟨k, rfl⟩ := exists_granuleAt hbase ha
      refine ⟨⟨k + 1, ?_⟩, hvisits⟩
      rw [SweepTest.loop_eq]
      exact granuleLoop_stops havoid (fun _ _ h => SweepTest.granule_silent hwalk h) hstop

/-- The sweep of the small machine tests its eight granules. -/
theorem smallState_sweepsAll :
    SweepsAll smallPlatform (.two (smallState.rC 1) (smallState.rC 2)) smallState :=
  (sweepsAll_iff smallPlatform smallPlatform_walkReads (fun _ _ _ _ => avoids_throw (by simp))
    (by decide) (by decide) (by decide) (.two (smallState.rC 1) (smallState.rC 2)) smallState).2
    (Or.inl (by decide))

/-- A platform whose eight granules of memory end at the top of the address
space. -/
def topPlatform : Platform .cheri64 :=
  { smallPlatform with ramBase := 0xffffffc0 }

/-- **A memory at the top of the address space is swept for ever**: no granule
is tagged, and neither loop ends. -/
theorem topPlatform_sweeps_for_ever (test : SweepTest .cheri64) (s : State .cheri64)
    (htags : ∀ g, s.tags g = false) (fuel : ℕ) :
    test.loop topPlatform fuel s = .error .outOfFuel := by
  have hend : topPlatform.ramEnd = 2 ^ CapFormat.xlen .cheri64 := by decide
  rw [SweepTest.loop_eq, hend]
  refine granuleLoop_endless (fun a _ => ?_) (by decide)
  cases test with
  | one cap =>
    show (if s.tags (tagAddr a) = true then _ else pure false : M _ Bool) s = _
    rw [if_neg (by rw [htags]; decide)]
    rfl
  | two capCode capData =>
    show (if s.tags (tagAddr a) = true then _ else pure false : M _ Bool) s = _
    rw [if_neg (by rw [htags]; decide)]
    rfl

/-- The small machine at the top of its address space, where nothing is
tagged. -/
def untaggedState : State .cheri64 := { smallState with tags := fun _ => false }

/-- **The sweep at the top of the address space** does not end, on a memory
whose base and size are multiples of a granule and which ends where the address
space does. -/
theorem untaggedState_not_sweepsAll :
    topPlatform.ramBase.toNat % CapFormat.capSize .cheri64 = 0
      ∧ topPlatform.ramSize.toNat % CapFormat.capSize .cheri64 = 0
      ∧ topPlatform.ramBase.toNat + topPlatform.ramSize.toNat = 2 ^ CapFormat.xlen .cheri64
      ∧ ¬ SweepsAll topPlatform (.one (smallState.rC 2)) untaggedState
      ∧ ¬ SweepsAll topPlatform (.two (smallState.rC 1) (smallState.rC 2)) untaggedState := by
  have hnever : ∀ test, ¬ SweepsAll topPlatform test untaggedState := by
    intro test hall
    obtain ⟨fuel, hfuel⟩ := hall.ends
    exact hfuel (topPlatform_sweeps_for_ever test untaggedState (fun _ => rfl) fuel)
  exact ⟨by decide, by decide, by decide, hnever _, hnever _⟩

end Sail
