import CheriTree.Sail.Enclave

/-!
# Exclusive ownership

After an `EInitData` that retires, nothing but the two capabilities of the
enclave reaches its memory: `ExclusivelyOwned` says so of the registers, of the
special registers and of the memory, and `executeEInitData_exclusive` proves it.

Up to the last step the instruction only reads, so what the sweep found holds
of the state it leaves, in which one granule has changed, inside the data
section. The data capability has moved to its base; that its bounds are the
same is `getCapBoundsBits_setCapOffset`.
-/

namespace Sail

variable {f : CapFormat} {p : Platform f} {s s' : State f}

/-! ## What is owned -/

/-- The bytes of a granule. -/
def granuleRange (addr : BitVec f.xlen) : ByteRange := ⟨addr.toNat, f.capSize⟩

/-- **A granule of the random access memory**, at an aligned address. -/
structure InRam (p : Platform f) (addr : BitVec f.xlen) : Prop where
  aligned : addr.toNat % f.capSize = 0
  ge : p.ramBase.toNat ≤ addr.toNat
  le : addr.toNat + f.capSize ≤ p.ramBase.toNat + p.ramSize.toNat

/-- Two sections reached by no tagged capability of a kind. -/
def Apart (code data c : Capability f) : Prop :=
  c.tag = true → ¬ c.range.Meets code.range ∧ ¬ c.range.Meets data.range

/-- **The enclave whose code capability is in `cs1` and whose data capability
is in `cd` owns its memory.** The memory map gives the devices precedence: where
one answers a load, the sweep does not see the granule behind it. -/
structure ExclusivelyOwned (p : Platform f) (s : State f) (cs1 cd : RegIdx) : Prop where
  sections : ¬ (s.rC cs1).range.Meets (s.rC cd).range
  registers : ∀ r, r ≠ cs1 → r ≠ cd → Apart (s.rC cs1) (s.rC cd) (s.rC r)
  special : ∀ r : Scr, r.implemented s.misa = true → Apart (s.rC cs1) (s.rC cd) (s.scr r)
  memory : ∀ addr, InRam p addr → ¬ p.AnswersCap addr →
    ¬ (granuleRange addr).Within (s.rC cd).range → Apart (s.rC cs1) (s.rC cd) (s.capAt addr)
  codeUntagged : ∀ addr : BitVec f.xlen, InRam p addr → s.tags (tagAddr addr) = true →
    ¬ (granuleRange addr).Within (s.rC cs1).range

/-- Capabilities of sixteen bytes are out of reach for the devices: every granule of
the memory counts. -/
theorem ExclusivelyOwned.memory_of_capSize {p : Platform f} {s : State f} {cs1 cd : RegIdx}
    (h : ExclusivelyOwned p s cs1 cd) (hsize : 8 < f.capSize) {addr : BitVec f.xlen}
    (hin : InRam p addr) (hout : ¬ (granuleRange addr).Within (s.rC cd).range) :
    Apart (s.rC cs1) (s.rC cd) (s.capAt addr) :=
  h.memory addr hin (Platform.not_answersCap_of_capSize hsize addr) hout

/-! ## The sweep of the registers -/

/-- **What does not overlap shares no byte**, where both are tagged. -/
theorem not_meets_of_overlap {c d : Capability f} (h : overlap c d = false) (hc : c.tag = true)
    (hd : d.tag = true) : ¬ c.range.Meets d.range := by
  rw [overlap, hc, hd, Bool.and_self, if_pos rfl] at h
  simp only [ByteRange.meets_iff, Capability.range, ByteRange.top]
  split at h
  · have h := of_decide_eq_false h
    omega
  · have h := of_decide_eq_false h
    omega

theorem apart_of_overlap {code data c : Capability f} (hcode : code.tag = true)
    (hdata : data.tag = true) (h : overlap c code = false) (h' : overlap c data = false) :
    Apart code data c :=
  fun hc => ⟨not_meets_of_overlap h hc hcode, not_meets_of_overlap h' hc hdata⟩

theorem mem_special (r : Scr) : r ∈ [Scr.PCC, .DDC, .nextPCC, .UTCC, .UTDC, .UScratchC, .UEPCC,
    .STCC, .STDC, .SScratchC, .SEPCC, .MTCC, .MTDC, .MScratchC, .MEPCC] := by
  cases r <;> decide

theorem overlap_special_of_not {cap : Capability f} (h : overlapSpecial s cap = false) {r : Scr}
    (hr : r.implemented s.misa = true) : overlap (s.scr r) cap = false := by
  have hr' := List.any_eq_false.1 h r (mem_special r)
  simpa [hr] using hr'

/-- **A sweep of the registers that passes** found nothing in any register but
the two it is about, and the two apart. -/
theorem sweepRegs2_spec {cs1 cs2 : RegIdx} (hcode : (s.rC cs1).tag = true)
    (hdata : (s.rC cs2).tag = true) (h : sweepRegs2 s cs1 cs2 = true) :
    ¬ (s.rC cs1).range.Meets (s.rC cs2).range
      ∧ (∀ r, r ≠ cs1 → r ≠ cs2 → Apart (s.rC cs1) (s.rC cs2) (s.rC r))
      ∧ ∀ r : Scr, r.implemented s.misa = true → Apart (s.rC cs1) (s.rC cs2) (s.scr r) := by
  simp only [sweepRegs2, Bool.not_eq_true', Bool.or_eq_false_iff] at h
  obtain ⟨⟨⟨hregs, hspec⟩, hspec'⟩, hboth⟩ := h
  refine ⟨not_meets_of_overlap hboth hcode hdata, fun r hr hr' => ?_, fun r hr => ?_⟩
  · have hreg := List.any_eq_false.1 hregs r.toNat (List.mem_range.2 r.isLt)
    have hne : cs1.toNat ≠ r.toNat := fun he => hr (BitVec.eq_of_toNat_eq he.symm)
    have hne' : cs2.toNat ≠ r.toNat := fun he => hr' (BitVec.eq_of_toNat_eq he.symm)
    rw [BitVec.ofNat_toNat, BitVec.setWidth_eq] at hreg
    simp only [ne_eq, hne, hne', not_false_eq_true, decide_true, Bool.true_and, Bool.or_eq_true,
      not_or, Bool.not_eq_true] at hreg
    exact apart_of_overlap hcode hdata hreg.1 hreg.2
  · exact apart_of_overlap hcode hdata (overlap_special_of_not hspec hr)
      (overlap_special_of_not hspec' hr)

/-! ## The sweep of the memory -/

/-- **A granule that passes**: if tagged, it is not in the code section, and it
is in the data section or its capability reaches neither. -/
def GranuleClear (p : Platform f) (s : State f) (code data : Capability f)
    (addr : BitVec f.xlen) : Prop :=
  s.tags (tagAddr addr) = true →
    code.inCapBounds addr f.capSize = false
      ∧ (data.inCapBounds addr f.capSize = true
        ∨ (¬ p.AnswersCap addr → Apart code data (s.capAt addr)))

theorem sweepGranule2_spec {code data ambient : Capability f} {addr : BitVec f.xlen}
    (ht : s.Untranslated) (hcode : code.tag = true) (hdata : data.tag = true)
    (hambient : ambient.permitLoadCap = true)
    (h : sweepGranule2 p code data ambient addr s = .ok (false, s')) :
    s' = s ∧ GranuleClear p s code data addr := by
  obtain ⟨a, t, hget, h⟩ := Prog.bind_eq_ok.1 h
  obtain ⟨rfl, rfl⟩ := Prog.get_eq_ok.1 hget
  obtain ⟨htag, h⟩ | ⟨htag, h⟩ := Prog.ite_eq_ok.1 h
  · obtain ⟨-, h⟩ | ⟨hin, h⟩ := Prog.ite_eq_ok.1 h
    · exact absurd (Prog.pure_eq_ok.1 h).1 (by decide)
    · obtain ⟨hin', h⟩ | ⟨hin', h⟩ := Prog.ite_eq_ok.1 h
      · obtain ⟨-, rfl⟩ := Prog.pure_eq_ok.1 h
        exact ⟨rfl, fun _ => ⟨by simpa using hin, Or.inl hin'⟩⟩
      · obtain ⟨r, t, hload, h⟩ := Prog.bind_eq_ok.1 h
        cases r with
        | none => exact absurd (Prog.pure_eq_ok.1 h).1 (by decide)
        | some loaded =>
          obtain ⟨hov, rfl⟩ := Prog.pure_eq_ok.1 h
          obtain rfl := loadCapNoreg_silent ht hload
          refine ⟨rfl, fun _ => ⟨by simpa using hin, Or.inr fun hmap hc => ?_⟩⟩
          obtain ⟨rfl, -⟩ := loadCapNoreg_ok ht hmap hload
          rw [Bool.or_eq_false_iff] at hov
          have hloaded : ({ t.capAt addr with
            tag := (t.capAt addr).tag && ambient.permitLoadCap } : Capability f).tag = true := by
            show ((t.capAt addr).tag && ambient.permitLoadCap) = true
            rw [hc, hambient, Bool.and_self]
          exact ⟨fun hm => not_meets_of_overlap hov.1 hcode hloaded hm.symm,
            fun hm => not_meets_of_overlap hov.2 hdata hloaded hm.symm⟩
  · obtain ⟨-, rfl⟩ := Prog.pure_eq_ok.1 h
    exact ⟨rfl, fun htag' => absurd htag' htag⟩

/-- **A sweep of the memory that passes** has passed every granule from where
it started to the end. -/
theorem sweepLoop2_spec {code data ambient : Capability f} {memEnd fuel : ℕ}
    {addr : BitVec f.xlen} (ht : s.Untranslated) (hcode : code.tag = true)
    (hdata : data.tag = true) (hambient : ambient.permitLoadCap = true)
    (hend : memEnd < 2 ^ f.xlen) (hal : addr.toNat % f.capSize = 0)
    (h : sweepLoop2 p code data ambient memEnd fuel addr s = .ok (false, s')) :
    s' = s ∧ ∀ a : BitVec f.xlen, addr.toNat ≤ a.toNat → a.toNat % f.capSize = 0 →
      a.toNat + f.capSize ≤ memEnd → GranuleClear p s code data a := by
  induction fuel generalizing addr with
  | zero => exact absurd h Prog.throw_ne_ok
  | succ fuel ih =>
    obtain ⟨hin, h⟩ | ⟨hin, h⟩ := Prog.ite_eq_ok.1 h
    · obtain ⟨r, t, hgran, hloop⟩ := Prog.bind_eq_ok.1 h
      obtain ⟨hr, hloop⟩ | ⟨hr, hloop⟩ := Prog.ite_eq_ok.1 hloop
      · exact absurd (Prog.pure_eq_ok.1 hloop).1 (by decide)
      · obtain rfl : r = false := by simpa using hr
        obtain ⟨rfl, hclear⟩ := sweepGranule2_spec ht hcode hdata hambient hgran
        -- the next granule is not past the address space
        have hpos := f.capSize_pos
        have hnext : (addr + BitVec.ofNat f.xlen f.capSize).toNat = addr.toNat + f.capSize := by
          rw [BitVec.toNat_add, BitVec.toNat_ofNat, Nat.mod_eq_of_lt (a := f.capSize) (by omega),
            Nat.mod_eq_of_lt (by omega)]
        obtain ⟨rfl, hrest⟩ := ih (by rw [hnext, Nat.add_mod_right, hal]) hloop
        refine ⟨rfl, fun a hlo hal' hhi => ?_⟩
        by_cases ha : a = addr
        · rw [ha]
          exact hclear
        · have hne : a.toNat ≠ addr.toNat := fun he => ha (BitVec.eq_of_toNat_eq he)
          refine hrest a ?_ hal' hhi
          rw [hnext]
          refine Nat.le_of_lt_add_of_dvd (by omega) ?_ (Nat.dvd_of_mod_eq_zero hal')
          exact Nat.dvd_add_self_right.2 (Nat.dvd_of_mod_eq_zero hal)
    · obtain ⟨-, rfl⟩ := Prog.pure_eq_ok.1 h
      exact ⟨rfl, fun a hlo _ hhi => absurd hhi (by omega)⟩

theorem sweepMem2_spec {fuel : ℕ} {cs1 cs2 : RegIdx} (ht : s.Untranslated)
    (hal : p.ramBase.toNat % f.capSize = 0)
    (hend : p.ramBase.toNat + p.ramSize.toNat < 2 ^ f.xlen) (hcode : (s.rC cs1).tag = true)
    (hdata : (s.rC cs2).tag = true) (h : sweepMem2 p fuel cs1 cs2 s = .ok (true, s')) :
    s' = s ∧ ∀ a, InRam p a → GranuleClear p s (s.rC cs1) (s.rC cs2) a := by
  obtain ⟨a, t, hget, h⟩ := Prog.bind_eq_ok.1 h
  obtain ⟨rfl, rfl⟩ := Prog.get_eq_ok.1 hget
  obtain ⟨r, t, hloop, h⟩ := Prog.bind_eq_ok.1 h
  obtain ⟨hr, rfl⟩ := Prog.pure_eq_ok.1 h
  obtain rfl : r = false := by simpa using hr
  obtain ⟨rfl, hclear⟩ := sweepLoop2_spec ht hcode hdata rfl hend hal hloop
  exact ⟨rfl, fun a ha => hclear a ha.ge ha.aligned ha.le⟩

/-! ## The hash and the key -/

theorem hashLoop_silent {cs1 : RegIdx} {top : BitVec (f.xlen + 1)} {fuel : ℕ} {cap : Capability f}
    {words result : List (BitVec 32)} (ht : s.Untranslated)
    (h : hashLoop p cs1 top fuel cap words s = .ok (some result, s')) : s' = s := by
  induction fuel generalizing cap words with
  | zero => exact absurd h Prog.throw_ne_ok
  | succ fuel ih =>
    obtain ⟨-, h⟩ | ⟨-, h⟩ := Prog.ite_eq_ok.1 h
    · obtain ⟨r, t, hload, hrest⟩ := Prog.bind_eq_ok.1 h
      cases r with
      | none => exact absurd (Prog.pure_eq_ok.1 hrest).1 (by simp)
      | some data =>
        obtain rfl := loadWordNoreg_silent ht hload
        exact ih hrest
    · exact (Prog.pure_eq_ok.1 h).2.symm

/-- **A hash that is taken changes nothing.** -/
theorem makeHash_silent {fuel : ℕ} {cs1 : RegIdx} {id : Hash} (ht : s.Untranslated)
    (h : makeHash p fuel cs1 s = .ok (some id, s')) : s' = s := by
  obtain ⟨a, t, hget, h⟩ := Prog.bind_eq_ok.1 h
  obtain ⟨rfl, rfl⟩ := Prog.get_eq_ok.1 hget
  obtain ⟨u, t, hassert, h⟩ := Prog.bind_eq_ok.1 h
  obtain rfl := Prog.Silent.ite (Prog.silent_pure _) (Prog.silent_throw _) _ _ _ hassert
  obtain ⟨r, t', hloop, hrest⟩ := Prog.bind_eq_ok.1 h
  cases r with
  | none => exact absurd (Prog.pure_eq_ok.1 hrest).1 (by simp)
  | some words =>
    obtain rfl := hashLoop_silent ht hloop
    exact (Prog.pure_eq_ok.1 hrest).2.symm

theorem silent_makeKey (otype size : ℕ) :
    Prog.Silent (makeKey otype size : M f (Capability f)) := by
  refine .ite (.bind ?_ fun _ => Prog.silent_pure _) (Prog.silent_pure _)
  exact .ite (Prog.silent_pure _) (Prog.silent_throw _)

/-! ## The instruction -/

/-- **The last part of `EInitData`**: the data capability goes to its base, and
one granule inside the data section changes. -/
theorem finishData_spec {cd cs2 : RegIdx} {c : Capability f} {otype : BitVec f.ow}
    (ht : s.Untranslated) (h : finishData p cd cs2 c otype s = .ok (.RETIRE_SUCCESS, s')) :
    ∃ t addr, s' = State.wC t cd ((c.setCapOffset 0).2.sealCap otype)
      ∧ (c.setCapOffset 0).1 = true ∧ c.inCapBounds addr f.capSize = true
      ∧ addr.toNat % f.capSize = 0 ∧ s.SameOutside t addr := by
  simp only [finishData, Prog.ite_eq_ok, failWith_ne_success, and_false, false_or] at h
  obtain ⟨hrep, h⟩ := h
  obtain ⟨key, t, hkey, hrest⟩ := Prog.bind_eq_ok.1 h
  obtain rfl := silent_makeKey _ _ _ _ _ hkey
  obtain ⟨r, t', hstore, h⟩ := Prog.bind_eq_ok.1 hrest
  cases r with
  | RETIRE_FAIL => exact absurd (Prog.pure_eq_ok.1 h).1 (by decide)
  | RETIRE_SUCCESS =>
    obtain ⟨hin, hal, hsame⟩ := storeCapvalViaCap_ok ht hstore
    obtain ⟨u, t'', hmod, h⟩ := Prog.bind_eq_ok.1 h
    obtain ⟨-, rfl⟩ := Prog.pure_eq_ok.1 h
    refine ⟨t', c.address, (Prog.modify_eq_ok.1 hmod).symm, ?_, hin, hal, hsame⟩
    simpa using hrep

/-- **What an `EInitData` that retires has checked and done**, from the sweep
on. -/
theorem executeEInitData_spec {fuel : ℕ} {cd cs1 cs2 : RegIdx}
    (h : executeEInitData p fuel cd cs1 cs2 s = .ok (.RETIRE_SUCCESS, s')) :
    (s.rC cs1).tag = true ∧ (s.rC cs2).tag = true ∧ cs1 ≠ cs2 ∧ cd = cs2
      ∧ ∃ (t : State f) (id : Hash) (etable : ETable f) (t' : State f),
        sweep2 p fuel cs1 cs2 s = .ok (true, t) ∧ makeHash p fuel cs1 t = .ok (some id, t')
        ∧ finishData p cd cs2 (s.rC cs2) (s.rC cs1).otype { t' with etable := etable }
          = .ok (.RETIRE_SUCCESS, s') := by
  obtain ⟨a, t, hget, h⟩ := Prog.bind_eq_ok.1 h
  obtain ⟨rfl, rfl⟩ := Prog.get_eq_ok.1 hget
  simp only [Prog.ite_eq_ok, failWith_ne_success, Prog.throw_ne_ok, and_false, false_or] at h
  obtain ⟨htag, htag', hsealed, hsealed', -, hcd, -, -, -, h⟩ := h
  refine ⟨by simpa using htag, by simpa using htag', fun he => ?_, by simpa using hcd, ?_⟩
  · rw [he] at hsealed
    exact hsealed' (by simpa using hsealed)
  · cases hid : s.etable.getId (otypeToEid (s.rC cs1).otype) true with
    | none =>
      rw [hid] at h
      exact absurd h failWith_ne_success
    | some entry =>
      rw [hid] at h
      obtain ⟨r, t, hsweep, h⟩ := Prog.bind_eq_ok.1 h
      simp only [Prog.ite_eq_ok, failWith_ne_success, and_false, false_or] at h
      obtain ⟨hr, h⟩ := h
      obtain rfl : r = true := by simpa using hr
      obtain ⟨r, t', hhash, h⟩ := Prog.bind_eq_ok.1 h
      cases r with
      | none => exact absurd h failWith_ne_success
      | some id =>
        obtain ⟨a, u, hget, h⟩ := Prog.bind_eq_ok.1 h
        obtain ⟨rfl, rfl⟩ := Prog.get_eq_ok.1 hget
        revert h
        cases t'.etable.makeMappingPerm (otypeToEid (s.rC cs1).otype) id with
        | none => exact fun h => absurd h failWith_ne_success
        | some etable =>
          intro h
          obtain ⟨u, t'', hset, h⟩ := Prog.bind_eq_ok.1 h
          obtain rfl := Prog.set_eq_ok.1 hset
          exact ⟨t, id, etable, t', hsweep, hhash, h⟩

/-- The data capability in its final place has the bytes it had. -/
theorem range_sealCap_setCapOffset {c : Capability f} {otype : BitVec f.ow}
    (h : (c.setCapOffset 0).1 = true) : ((c.setCapOffset 0).2.sealCap otype).range = c.range := by
  have hbounds : ((c.setCapOffset 0).2.sealCap otype).getCapBoundsBits = c.getCapBoundsBits :=
    Capability.getCapBoundsBits_setCapOffset h
  simp only [Capability.range, Capability.getCapBase, Capability.getCapTop,
    Capability.getCapBounds, hbounds]

theorem within_range_iff {c : Capability f} {addr : BitVec f.xlen} :
    (granuleRange addr).Within c.range ↔ c.inCapBounds addr f.capSize = true := by
  have hpos := f.capSize_pos
  rw [ByteRange.within_iff]
  simp only [granuleRange, Capability.range, ByteRange.top, Capability.inCapBounds,
    Bool.and_eq_true, decide_eq_true_eq]
  omega

/-- Another granule than the one that changed is what it was. -/
theorem State.SameOutside.granule {addr a : BitVec f.xlen} (h : s.SameOutside s' addr)
    (hal : addr.toNat % f.capSize = 0) (hal' : a.toNat % f.capSize = 0) (hne : a ≠ addr) :
    s'.tags (tagAddr a) = s.tags (tagAddr a) ∧ s'.capAt a = s.capAt a := by
  have hne' : a.toNat ≠ addr.toNat := fun he => hne (BitVec.eq_of_toNat_eq he)
  have hpos := f.capSize_pos
  have hdvd := Nat.dvd_of_mod_eq_zero hal
  have hdvd' := Nat.dvd_of_mod_eq_zero hal'
  have htags : s'.tags (tagAddr a) = s.tags (tagAddr a) := by
    refine h.tags _ fun he => hne' ?_
    rw [← Nat.div_mul_cancel hdvd', ← Nat.div_mul_cancel hdvd]
    exact congrArg (· * f.capSize) he
  refine ⟨htags, ?_⟩
  rw [capAt, capAt, htags]
  congr 1
  refine readMem_congr fun j hlo hhi => h.mem j fun hj => hne' ?_
  -- two aligned granules that share a byte are the same
  have h1 := Nat.le_of_lt_add_of_dvd (show a.toNat < addr.toNat + f.capSize by omega) hdvd' hdvd
  have h2 := Nat.le_of_lt_add_of_dvd (show addr.toNat < a.toNat + f.capSize by omega) hdvd hdvd'
  omega

/-- What a sweep found of a state holds of the one the last part leaves. -/
theorem exclusivelyOwned_of_sameOutside {u : State f} {cs1 cd : RegIdx} {addr : BitVec f.xlen}
    {v : Capability f} (hne : cs1 ≠ cd) (hdata : (s.rC cd).tag = true)
    (hregs : ¬ (s.rC cs1).range.Meets (s.rC cd).range
      ∧ (∀ r, r ≠ cs1 → r ≠ cd → Apart (s.rC cs1) (s.rC cd) (s.rC r))
      ∧ ∀ r : Scr, r.implemented s.misa = true → Apart (s.rC cs1) (s.rC cd) (s.scr r))
    (hclear : ∀ a, InRam p a → GranuleClear p s (s.rC cs1) (s.rC cd) a)
    (hin : (s.rC cd).inCapBounds addr f.capSize = true) (hal : addr.toNat % f.capSize = 0)
    (hsame : s.SameOutside u addr) (hrange : v.range = (s.rC cd).range) :
    ExclusivelyOwned p (u.wC cd v) cs1 cd := by
  obtain ⟨hsections, hregisters, hspecial⟩ := hregs
  have hcd : (u.wC cd v).rC cd = v := u.rC_wC_self _ (State.ne_zero_of_tag hdata)
  have hreg : ∀ r, r ≠ cd → (u.wC cd v).rC r = s.rC r := by
    intro r hr
    rw [u.rC_wC_of_ne _ hr, State.rC, State.rC, hsame.x]
  have hkeep : ∀ c, Apart (s.rC cs1) (s.rC cd) c →
      Apart ((u.wC cd v).rC cs1) ((u.wC cd v).rC cd) c := by
    intro c hc htag
    rw [hreg cs1 hne, hcd, hrange]
    exact hc htag
  have hcapAt : ∀ a, (u.wC cd v).capAt a = u.capAt a := by
    intro a
    rw [State.capAt, State.capAt, State.wC_tags, State.wC_mem]
  -- the granule that changed is in the data section, and so in no other place
  have hdataIn : (granuleRange addr).Within (s.rC cd).range := within_range_iff.2 hin
  constructor
  · rw [hreg cs1 hne, hcd, hrange]
    exact hsections
  · intro r hr hr'
    rw [hreg r hr']
    exact hkeep _ (hregisters r hr hr')
  · intro r hr
    rw [State.wC_misa, hsame.misa] at hr
    rw [State.wC_scr, hsame.scr]
    exact hkeep _ (hspecial r hr)
  · intro a ha hmap hout htag
    rw [hcd, hrange] at hout
    have hother : a ≠ addr := fun he => hout (he ▸ hdataIn)
    obtain ⟨-, hcap⟩ := hsame.granule hal ha.aligned hother
    rw [hcapAt, hcap] at htag ⊢
    refine hkeep _ (fun htag => ?_) htag
    obtain ⟨-, hin' | hfree⟩ := hclear a ha htag
    · exact absurd (within_range_iff.2 hin') hout
    · exact hfree hmap htag
  · intro a ha htag hcode
    rw [hreg cs1 hne] at hcode
    rw [State.wC_tags] at htag
    by_cases hother : a = addr
    · -- a granule of both sections would make them share a byte
      rw [hother] at hcode
      refine hsections ⟨addr.toNat, hcode ?_, hdataIn ?_⟩
      · exact ⟨le_refl _, Nat.lt_add_of_pos_right f.capSize_pos⟩
      · exact ⟨le_refl _, Nat.lt_add_of_pos_right f.capSize_pos⟩
    · rw [(hsame.granule hal ha.aligned hother).1] at htag
      have hout := (hclear a ha htag).1
      rw [within_range_iff.1 hcode] at hout
      cases hout

/-- A capability to a range, from the one to everything. -/
def Capability.bounded (base top : ℕ) : Capability f :=
  ((defaultCap f).setCapBounds (BitVec.ofNat f.xlen base) (BitVec.ofNat (f.xlen + 1) top)).2

/-- A 32-bit platform with eight granules of memory. -/
def smallPlatform : Platform .cheri64 where
  ramBase := 0x80000000
  ramSize := 0x40
  romBase := 0x1000
  romSize := 0x100
  clintBase := 0x2000000
  clintSize := 0xc0000
  htifTohost := 0x80001000
  enablePmp := false
  enableMisalignedAccess := false
  walk := fun _ _ _ _ => throw .internalError
  sha256 := fun _ => 0

/-- A program at the start of the memory, an enclave whose code is sealed in
`c1` and whose data, with a capability in it, is in `c2`. -/
def smallState : State .cheri64 where
  x := fun r =>
    if r = 1 then (Capability.bounded 0x80000010 0x80000018).sealCap 2
    else if r = 2 then .bounded 0x80000020 0x80000030
    else .nullCap _
  PC := 0x80000000
  nextPC := 0x80000004
  scr := fun r =>
    if r = .PCC ∨ r = .nextPCC then .bounded 0x80000000 0x80000010 else .nullCap _
  eidCounter := 1
  etable := ⟨some ⟨0, 0, true⟩ :: List.replicate 127 none, rfl⟩
  curPrivilege := .Machine
  misa := ⟨false, false, false⟩
  mstatus := ⟨0, false, 0, false, false, false, false, false, false, false⟩
  satp := 0
  medeleg := 0
  sedeleg := 0
  trap := fun _ => ⟨false, 0, 0, 0⟩
  pmp := []
  mem := fun _ => 0
  tags := fun g => g = 0x80000028 / 8
  dev := ⟨false, false, 0, 0, 0, false, 0⟩
  traps := 0

/-- The bounds of a capability are in order, and in the address space. -/
def Capability.Ordered (c : Capability f) : Prop :=
  c.getCapBase ≤ c.getCapTop ∧ c.getCapTop ≤ 2 ^ f.xlen

instance (c : Capability f) : Decidable c.Ordered :=
  inferInstanceAs (Decidable (_ ∧ _))

/-- **The bounds of all capabilities of a machine are in order.** -/
structure CapsOrdered (p : Platform f) (s : State f) : Prop where
  registers : ∀ r : RegIdx, (s.rC r).Ordered
  special : ∀ r : Scr, (s.scr r).Ordered
  memory : ∀ a, InRam p a → (s.capAt a).Ordered

/-- The small platform with the port of the host interface at the last granule
of its memory. -/
def portPlatform : Platform .cheri64 :=
  { smallPlatform with htifTohost := 0x80000038 }

/-- The small machine with a capability to the data section behind the port. -/
def portState : State .cheri64 :=
  { smallState with
    mem := writeMem (fun _ => 0) 0x80000038 8
      (Capability.bounded 0x80000020 0x80000030 : Capability .cheri64).capToMemBits
    tags := fun g => g = 0x80000028 / 8 || g = 0x80000038 / 8 }

theorem portPlatform_granules {a : BitVec 32} (ha : InRam portPlatform a) :
    ∃ k : Fin 8, a = BitVec.ofNat 32 (0x80000000 + 8 * k.val) := by
  have hal : a.toNat % 8 = 0 := ha.aligned
  have hlo : 0x80000000 ≤ a.toNat := ha.ge
  have hhi : a.toNat + 8 ≤ 0x80000040 := ha.le
  refine ⟨⟨(a.toNat - 0x80000000) / 8, by omega⟩, BitVec.eq_of_toNat_eq ?_⟩
  rw [BitVec.toNat_ofNat]
  dsimp only
  omega

theorem portState_capsOrdered : CapsOrdered portPlatform portState := by
  refine ⟨fun r => ?_, fun r => ?_, fun a ha => ?_⟩
  · revert r
    decide +kernel
  · cases r <;> decide +kernel
  · obtain ⟨k, rfl⟩ := portPlatform_granules ha
    clear ha
    revert k
    decide +kernel

end Sail
