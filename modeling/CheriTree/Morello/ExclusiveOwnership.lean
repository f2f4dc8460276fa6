import CheriTree.Morello.StoreInvariant

/-!
# What EL1 has left of an enclave

After a call of `EINIT_DATA` that gives a tagged capability, EL1 is to hold no
capability to the enclave but the two sealed ones: none in a register it gets
back, none in a system register it can read, none in its memory. The code
section is to hold no capability at all, and the two sections are to be apart.

The sweep is complete for the registers and for the memory, and for the
granules that lie inside the code section. It compares 64-bit sums, which wrap
at the end of the address space; it leaves out the system registers of EL0; it
does not compare the two sections with each other; and it sees no tag through a
code capability that may not load one. `Unshared` is what it leaves open.
-/

namespace Morello

variable {b : Build}

/-- **The state EL1 is in after a call.** -/
def afterCall (el1 : El1State) (clobbered : RegId → Capability) (r : Reply b) : El1State where
  c := restored clobbered (savedStack el1.c) r.result
  sysReg := el1.sysReg
  pccEL2 := el1.pccEL2
  mem := r.mem

/-- The bytes of a granule. -/
def granule (g : ℕ) : ByteRange := ⟨CAP_LEN * g, CAP_LEN⟩

/-- A capability that shares no byte with the sections. -/
def Apart (c code data : Capability) : Prop :=
  ¬ c.range.Meets code.range ∧ ¬ c.range.Meets data.range

/-- **EL1 owns nothing of the enclave**: no register but `c0` and `c1`, no
system register and no granule of its memory overlaps a section; no granule of
the code section holds a tag; and the sections are apart. -/
structure Exclusive (code data : Capability) (s : El1State) : Prop where
  regs : ∀ r : RegId, 1 < r.val → (s.c r).tag = true → Apart (s.c r) code data
  sysRegs : ∀ r, (s.sysReg r).tag = true → Apart (s.sysReg r) code data
  mem : ∀ g, El1Granule g → (s.mem.cap g).tag = true → Apart (s.mem.cap g) code data
  codeTags : ∀ g, (granule g).Meets code.range → (s.mem.cap g).tag = false
  apart : ¬ code.range.Meets data.range

/-- Apart as far as the test is not sound: where a sum wraps. -/
def ApartIfWraps (c code data : Capability) : Prop :=
  (Wraps c ∨ Wraps code → ¬ c.range.Meets code.range)
    ∧ (Wraps c ∨ Wraps data → ¬ c.range.Meets data.range)

/-- **What the sweep leaves open**, of the state a call is made in and the id
of the enclave. -/
structure Unshared (id : IdType) (s : El1State) : Prop where
  apart : ¬ (s.c 0).range.Meets (s.c 1).range
  unswept : ∀ r, r.swept = false → (s.sysReg r).tag = true → Apart (s.sysReg r) (s.c 0) (s.c 1)
  regs : ∀ r : RegId, 1 < r.val → (s.c r).tag = true → ApartIfWraps (s.c r) (s.c 0) (s.c 1)
  swept : ∀ r, r.swept = true → (s.sysReg r).tag = true →
    ApartIfWraps (s.sysReg r) (s.c 0) (s.c 1)
  mem : ∀ g, El1Granule g → g ≠ (s.c 1).address.toNat / CAP_LEN → (s.mem.cap g).tag = true →
    ApartIfWraps (s.mem.cap g) (s.c 0) (s.c 1)
  seals : El1Granule ((s.c 1).address.toNat / CAP_LEN) → (signEncSeal rootCap id).tag = true →
    Apart (signEncSeal rootCap id) (s.c 0) (s.c 1)
  codeTags : ∀ g, (granule g).Meets (s.c 0).range →
    ¬ (granule g).Within (s.c 0).range ∨ (s.c 0).perms.loadCap = false →
      (s.mem.cap g).tag = false

/-! ## A call that succeeds -/

section

variable {p : Platform b} {s : IdentityStore b} {call : Call} {r : Reply b}

/-- The seals are stored in the granule the data capability points at, inside
the data section. -/
theorem storeCap_some {m m' : Memory} {fmt : CapFormat} {c v : Capability} {a : Word}
    (h : m.storeCap fmt c a v = some m') :
    c.InBounds a CAP_LEN ∧ a.toNat % CAP_LEN = 0
      ∧ m' = m.writeCap fmt (a.toNat / CAP_LEN) v := by
  unfold Memory.storeCap at h
  split at h
  · rename_i hc
    exact ⟨hc.2.2.2.1, hc.2.2.2.2.1, (Option.some.inj h).symm⟩
  · cases h

/-- **A call that gives a tagged capability** was accepted, and has stored the
seals. -/
theorem einitData_tagged
    (h : einitData p s call.hash (call.el1.c 0) (call.el1.c 1) (savedStack call.el1.c) call.el1
      = some r) (htag : r.result.tag = true) :
    Accepted s call ∧ (call.el1.c 1).InBounds (call.el1.c 1).address CAP_LEN
      ∧ (call.el1.c 1).address.toNat % CAP_LEN = 0
      ∧ r.mem = call.el1.mem.writeCap p.fmt ((call.el1.c 1).address.toNat / CAP_LEN)
        (signEncSeal rootCap (s.getUnfinishedEntryID (cheriTypeGet (call.el1.c 0)))) := by
  unfold einitData at h
  simp only at h
  split at h
  · rw [← Option.some.inj h] at htag
    cases htag
  · rename_i hid
    split at h
    · cases h
    · rename_i resultSweep hsweep
      split at h
      · rw [← Option.some.inj h] at htag
        cases htag
      · rename_i hres
        have h0 := sweep_eq hsweep hres
        subst h0
        split at h
        · cases h
        · split at h
          · rw [← Option.some.inj h] at htag
            cases htag
          · rw [finishData, Option.map_eq_some_iff] at h
            obtain ⟨m', hstore, rfl⟩ := h
            obtain ⟨hin, hal, hm⟩ := storeCap_some hstore
            exact ⟨⟨hid, hsweep⟩, hin, hal, hm⟩

end

/-! ## What a sweep that passes leaves open -/

section

variable {code data c : Capability}

/-- What passes the test is apart, if it is so where a sum wraps. -/
theorem apart_of_check
    (h : boundsNonoverlapCheckTwocap code.base (limit code) data.base (limit data) c = 0)
    (hw : ApartIfWraps c code data) : Apart c code data := by
  by_cases hc : Wraps c
  · exact ⟨hw.1 (Or.inl hc), hw.2 (Or.inl hc)⟩
  · obtain ⟨h1, h2⟩ := disjoint_of_check hc h
    refine ⟨?_, ?_⟩
    · by_cases hcode : Wraps code
      · exact hw.1 (Or.inr hcode)
      · exact h1 hcode
    · by_cases hdata : Wraps data
      · exact hw.2 (Or.inr hdata)
      · exact h2 hdata

/-- What a capability points at, inside its bounds, is in no granule of a
section it is apart from. -/
theorem granule_ne_of_apart (hin : data.InBounds data.address CAP_LEN)
    (hal : data.address.toNat % CAP_LEN = 0)
    (hapart : ¬ code.range.Meets data.range) {g : ℕ} (hg : (granule g).Meets code.range) :
    g ≠ data.address.toNat / CAP_LEN := by
  rintro rfl
  have hg' : CAP_LEN * (data.address.toNat / CAP_LEN) < code.base.toNat + code.length
      ∧ code.base.toNat < CAP_LEN * (data.address.toNat / CAP_LEN) + CAP_LEN ∧ 0 < CAP_LEN
      ∧ 0 < code.length := ByteRange.meets_iff.1 hg
  obtain ⟨hlo, hhi⟩ := hin
  refine hapart (ByteRange.meets_iff.2 ?_)
  show code.base.toNat < data.base.toNat + data.length
    ∧ data.base.toNat < code.base.toNat + code.length ∧ 0 < code.length ∧ 0 < data.length
  rw [CAP_LEN] at *
  omega

theorem Apart.ifWraps (h : Apart c code data) : ApartIfWraps c code data :=
  ⟨fun _ => h.1, fun _ => h.2⟩

/-- A code section that is swept at all is tagged. -/
theorem tag_of_codeCapSweep_long {m : Memory} (h : codeCapSweep m code = some 0)
    (hlen : CAP_LEN ≤ code.length) : code.tag = true := by
  have hget : CAP_LEN ≤ (cheriLengthGet code).toNat := by
    rw [cheriLengthGet, BitVec.toNat_ofNat]
    rw [CAP_LEN] at *
    omega
  unfold codeCapSweep at h
  rw [if_pos hget] at h
  have hhit := sweepLoop_eq_zero (j := 0) hget h (Nat.le_refl 0) (by omega)
  rw [Option.map_eq_some_iff] at hhit
  obtain ⟨cap, hload, -⟩ := hhit
  unfold Memory.loadCap at hload
  split at hload
  · rename_i hc
    exact hc.1
  · cases hload

/-- A code section apart from something is not the whole address space. -/
theorem length_lt_of_apart {m : Memory} (h : codeCapSweep m code = some 0)
    (hdata : 0 < data.length) (hapart : ¬ code.range.Meets data.range) :
    code.length < 2 ^ 64 := by
  by_contra hge
  have htag := tag_of_codeCapSweep_long h (by rw [CAP_LEN]; omega)
  have hfits := code.fits htag
  have hd := data.base.isLt
  refine hapart (ByteRange.meets_iff.2 ?_)
  show code.base.toNat < data.base.toNat + data.length
    ∧ data.base.toNat < code.base.toNat + code.length ∧ 0 < code.length ∧ 0 < data.length
  omega

end

/-- The sections `EINIT_DATA` sweeps against are those of `c0` and `c1`. -/
theorem unsealedCode_base (s : IdentityStore b) (c : Capability) :
    (unsealedCode s c).base = c.base := Capability.tagIf_base _ _

theorem unsealedCode_length (s : IdentityStore b) (c : Capability) :
    (unsealedCode s c).length = c.length := Capability.tagIf_length _ _

theorem unsealedCode_range (s : IdentityStore b) (c : Capability) :
    (unsealedCode s c).range = c.range := range_cheriUnseal _ _

theorem unsealedCode_loadCap (s : IdentityStore b) (c : Capability) :
    (unsealedCode s c).perms.loadCap = c.perms.loadCap := by
  unfold unsealedCode cheriUnseal Capability.tagIf
  split
  · rfl
  · rfl

theorem apart_unsealedCode {s : IdentityStore b} {c code data : Capability} :
    Apart c (unsealedCode s code) data ↔ Apart c code data := by
  unfold Apart
  rw [unsealedCode_range]

theorem apartIfWraps_unsealedCode {s : IdentityStore b} {c code data : Capability} :
    ApartIfWraps c (unsealedCode s code) data ↔ ApartIfWraps c code data := by
  unfold ApartIfWraps Wraps
  rw [unsealedCode_range, unsealedCode_base, unsealedCode_length]

/-- **Exclusive ownership, and what it takes.** After a call of `EINIT_DATA`
that gives a tagged capability, EL1 owns nothing of the enclave if and only if
what the sweep leaves open was not shared. -/
theorem exclusive_iff_unshared (p : Platform b) (s : IdentityStore b) (call : Call)
    (clobbered : RegId → Capability) (r : Reply b)
    (h : einitData p s call.hash (call.el1.c 0) (call.el1.c 1) (savedStack call.el1.c) call.el1
      = some r) (htag : r.result.tag = true) :
    Exclusive (call.el1.c 0) (call.el1.c 1) (afterCall call.el1 clobbered r)
      ↔ Unshared (s.getUnfinishedEntryID (cheriTypeGet (call.el1.c 0))) call.el1 := by
  obtain ⟨hacc, hin, hal, hmem⟩ := einitData_tagged h htag
  obtain ⟨hgp, hscr, hms, hcs⟩ := sweep_eq_zero hacc.2
  have hregs : ∀ q : RegId, 1 < q.val → (afterCall call.el1 clobbered r).c q = call.el1.c q := by
    intro q hq
    show restored clobbered (savedStack call.el1.c) r.result q = _
    rw [restored_eq, if_neg (fun he => by rw [he] at hq; exact absurd hq (by decide)),
      if_neg (fun he => by rw [he] at hq; exact absurd hq (by decide))]
  have hself : r.mem.cap ((call.el1.c 1).address.toNat / CAP_LEN)
      = signEncSeal rootCap (s.getUnfinishedEntryID (cheriTypeGet (call.el1.c 0))) := by
    rw [hmem, Memory.cap_writeCap_self]
  have hother : ∀ g, g ≠ (call.el1.c 1).address.toNat / CAP_LEN →
      r.mem.cap g = call.el1.mem.cap g := by
    intro g hg
    rw [hmem, Memory.cap_writeCap_of_ne _ _ hg]
  constructor
  · intro he
    refine ⟨he.apart, fun q _ => he.sysRegs q, ?_, ?_, ?_, ?_, ?_⟩
    · intro q hq ht
      have := he.regs q hq
      rw [hregs q hq] at this
      exact (this ht).ifWraps
    · intro q _ ht
      exact (he.sysRegs q ht).ifWraps
    · intro g hg hne ht
      have := he.mem g hg
      rw [show (afterCall call.el1 clobbered r).mem.cap g = call.el1.mem.cap g from hother g hne]
        at this
      exact (this ht).ifWraps
    · intro hg ht
      have := he.mem _ hg
      rw [show (afterCall call.el1 clobbered r).mem.cap _ = _ from hself] at this
      exact this ht
    · intro g hg _
      have := he.codeTags g hg
      rw [show (afterCall call.el1 clobbered r).mem.cap g = _ from
        hother g (granule_ne_of_apart hin hal he.apart hg)] at this
      exact this
  · intro hu
    have hlen : 0 < (call.el1.c 1).length := by
      obtain ⟨hlo, hhi⟩ := hin
      rw [CAP_LEN] at hhi
      omega
    refine ⟨?_, ?_, ?_, ?_, hu.apart⟩
    · intro q hq
      rw [hregs q hq]
      intro ht
      exact apart_unsealedCode.1 (apart_of_check (check_of_gpregSweep hgp hq ht)
        (apartIfWraps_unsealedCode.2 (hu.regs q hq ht)))
    · intro q ht
      by_cases hq : q.swept = true
      · exact apart_unsealedCode.1 (apart_of_check (check_of_scrsSweep hscr hq ht)
          (apartIfWraps_unsealedCode.2 (hu.swept q hq ht)))
      · exact hu.unswept q (Bool.eq_false_iff.2 hq) ht
    · intro g hg
      by_cases hne : g = (call.el1.c 1).address.toNat / CAP_LEN
      · subst hne
        rw [show (afterCall call.el1 clobbered r).mem.cap _ = _ from hself]
        exact hu.seals hg
      · rw [show (afterCall call.el1 clobbered r).mem.cap g = _ from hother g hne]
        intro ht
        exact apart_unsealedCode.1 (apart_of_check (check_of_memSweep hms hg ht)
          (apartIfWraps_unsealedCode.2 (hu.mem g hg hne ht)))
    · intro g hg
      rw [show (afterCall call.el1 clobbered r).mem.cap g = _ from
        hother g (granule_ne_of_apart hin hal hu.apart hg)]
      by_cases hwithin : (granule g).Within (call.el1.c 0).range
      · by_cases hperm : (call.el1.c 0).perms.loadCap = true
        · have hlt := length_lt_of_apart hcs hlen (by rw [unsealedCode_range]; exact hu.apart)
          exact tag_of_codeCapSweep hcs hlt (by rw [unsealedCode_loadCap]; exact hperm)
            (by rw [unsealedCode_range]; exact hwithin)
        · exact hu.codeTags g hg (Or.inr (Bool.eq_false_iff.2 hperm))
      · exact hu.codeTags g hg (Or.inl hwithin)

/-! ### A register that is not swept -/

/-- The sweep of the system registers reads those that are swept. -/
theorem scrsSweep_congr {code data : Capability} {s s' : El1State}
    (hswept : ∀ r, r.swept = true → s.sysReg r = s'.sysReg r) (hpcc : s.pccEL2 = s'.pccEL2) :
    scrsSweep code data s = scrsSweep code data s' := by
  unfold scrsSweep
  rw [hswept .ddcEL1 rfl, hswept .celrEL2 rfl, hswept .cspEL1 rfl, hswept .celrEL1 rfl,
    hswept .ctpidrEL1 rfl, hswept .cvbarEL1 rfl, hpcc]

/-- The call of a small enclave, with a capability in the thread register of
EL0. -/
def callLeaving (cap : Capability) : Call :=
  { dataCall 4 with
    el1 := { (dataCall 4).el1 with
      sysReg := fun r => if r = .ctpidrEL0 then cap else invalidCap } }

theorem accepted_callLeaving (cap : Capability) : Accepted oneTaken (callLeaving cap) := by
  obtain ⟨hid, -⟩ := accepted_dataCall 4
  refine ⟨hid, ?_⟩
  have hscrs : ∀ code data, scrsSweep code data (callLeaving cap).el1
      = scrsSweep code data (dataCall 4).el1 := by
    intro code data
    refine scrsSweep_congr (fun r hr => if_neg ?_) rfl
    rintro rfl
    cases hr
  have hreg := regSweep_dataCall 4
  have hc0 : (callLeaving cap).el1.c 0 = sealedCodeOf 4 := rfl
  have hc1 : (callLeaving cap).el1.c 1 = dataSection := rfl
  rw [hc0, hc1]
  refine sweep_of_parts ?_ (memSweep_dataCall 4 _ _) (codeCapSweep_dataCall _ 4)
  unfold regSweep at hreg ⊢
  rw [hscrs]
  exact hreg

/-- What such a call gives. -/
def leavingReply : Reply .release where
  result := cheriSeal dataSection (identSeal rootCap 1)
  store := oneTaken.set firstSlot ((oneTaken.entries firstSlot).finish digestOfFour)
  mem := (dataCall 4).el1.mem.writeCap smallPlatform.fmt 0xC000001 (signEncSeal rootCap 1)

theorem einitData_callLeaving (cap : Capability) :
    einitData smallPlatform oneTaken (callLeaving cap).hash ((callLeaving cap).el1.c 0)
      ((callLeaving cap).el1.c 1) (savedStack (callLeaving cap).el1.c) (callLeaving cap).el1
        = some leavingReply := by
  have hc0 : (callLeaving cap).el1.c 0 = sealedCodeOf 4 := rfl
  have hc1 : (callLeaving cap).el1.c 1 = dataSection := rfl
  have hmem : (callLeaving cap).el1.mem = (dataCall 4).el1.mem := rfl
  have hfin := finishEntry_oneTaken 4 ⟨true, digestOfFour⟩
  rw [einitData_of_accepted (accepted_callLeaving cap) ⟨true, digestOfFour⟩
    (by rw [hc0]; exact generateHash_four)
    (by rw [hc0, hfin]; exact (by decide : (0 : ℤ) ≠ -1)), hc0, hc1, hfin,
    unfinished_oneTaken, finishData, storeCap_dataSection, Option.map_some, Platform.afterWrite,
    if_neg (by decide)]
  rfl

theorem leavingReply_tag : leavingReply.result.tag = true := by decide

/-- **With nothing in that register**, the enclave is EL1's no more. -/
theorem exclusive_of_empty_thread_register :
    Exclusive (sealedCodeOf 4) dataSection
      (afterCall (callLeaving invalidCap).el1 (fun _ => invalidCap) leavingReply) := by
  refine (exclusive_iff_unshared smallPlatform oneTaken (callLeaving invalidCap) _ leavingReply
    (einitData_callLeaving invalidCap) leavingReply_tag).2 ?_
  have hregs : ∀ r : RegId, 1 < r.val → ((callLeaving invalidCap).el1.c r).tag = false := by decide
  have hsys : ∀ r, ((callLeaving invalidCap).el1.sysReg r).tag = false := by
    intro r
    show (if r = .ctpidrEL0 then invalidCap else invalidCap).tag = false
    rw [ite_self]
    rfl
  have hid : oneTaken.getUnfinishedEntryID (cheriTypeGet ((callLeaving invalidCap).el1.c 0)) = 1 :=
    unfinished_oneTaken 4
  rw [hid]
  refine ⟨?_, ?_, ?_, ?_, ?_, ?_, ?_⟩
  · show ¬ (sealedCodeOf 4).range.Meets dataSection.range
    decide
  · intro r _ ht
    rw [hsys r] at ht
    cases ht
  · intro r hr ht
    rw [hregs r hr] at ht
    cases ht
  · intro r _ ht
    rw [hsys r] at ht
    cases ht
  · intro g _ _ ht
    cases ht
  · intro _ _
    show ¬ (signEncSeal rootCap 1).range.Meets (sealedCodeOf 4).range
      ∧ ¬ (signEncSeal rootCap 1).range.Meets dataSection.range
    decide
  · intro g _ _
    rfl

/-- **A copy of the code capability in the thread register of EL0** stays
there: the call succeeds, and EL1 keeps the code section. -/
theorem code_kept_in_thread_register :
    einitData smallPlatform oneTaken (callLeaving (codeOf 4)).hash
        ((callLeaving (codeOf 4)).el1.c 0) ((callLeaving (codeOf 4)).el1.c 1)
        (savedStack (callLeaving (codeOf 4)).el1.c) (callLeaving (codeOf 4)).el1
        = some leavingReply
      ∧ leavingReply.result.tag = true
      ∧ ¬ Exclusive ((callLeaving (codeOf 4)).el1.c 0) ((callLeaving (codeOf 4)).el1.c 1)
        (afterCall (callLeaving (codeOf 4)).el1 (fun _ => invalidCap) leavingReply) := by
  refine ⟨einitData_callLeaving (codeOf 4), leavingReply_tag, fun h => ?_⟩
  refine (h.sysRegs .ctpidrEL0 rfl).1 ?_
  show (codeOf 4).range.Meets (sealedCodeOf 4).range
  decide

end Morello
