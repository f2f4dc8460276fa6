import CheriTree.Sail.BaseInstructions
import CheriTree.Sail.IdentityTable
import CheriTree.Sail.InBounds
import CheriTree.Sail.OwnKey
import Mathlib.Tactic.IntervalCases

/-!
# Authorities

What a program may make of the capabilities it has is those that are *at most*
one of them: bounds inside its bounds, permissions among its permissions, sealed
or not. An *authority* says of capabilities whether they are granted, with every
narrower one, and the laws below are those of the operations on a capability:
each keeps to an authority, under the conditions the instructions check. It may
also say something of the machine, its *frame*, that a store through a granted
capability keeps.

A machine holds the tagged capabilities of its registers and of its memory. In
memory a capability is only there while its tag is, and what a write of data
touches has lost it (`State.capAt_writeRam_data`).
-/

namespace Sail

open Prog

variable {f : CapFormat}

namespace Capability

variable {c d v : Capability f}

/-! ## Narrower capabilities -/

/-- **One capability has at most the bounds and permissions of another**, sealed
or not. -/
structure AtMost (c d : Capability f) : Prop where
  base : d.getCapBase ≤ c.getCapBase
  top : c.getCapTop ≤ d.getCapTop
  perms : ∀ i, c.getCapPerms.getLsbD i = true → d.getCapPerms.getLsbD i = true

theorem AtMost.refl (c : Capability f) : c.AtMost c := ⟨le_rfl, le_rfl, fun _ h => h⟩

theorem AtMost.trans (h : c.AtMost d) {e : Capability f} (h' : d.AtMost e) : c.AtMost e :=
  ⟨h'.base.trans h.base, h.top.trans h'.top, fun i hi => h'.perms i (h.perms i hi)⟩

/-- The permissions, from the lowest on. -/
def permBits (c : Capability f) : List Bool :=
  [c.global, c.permitExecute, c.permitLoad, c.permitStore, c.permitLoadCap, c.permitStoreCap,
    c.permitStoreLocalCap, c.permitSeal, c.permitCInvoke, c.permitUnseal, c.accessSystemRegs,
    c.permitSetCID]

theorem getLsbD_getCapPerms (c : Capability f) (i : ℕ) :
    c.getCapPerms.getLsbD i
      = if i < 15 then c.permBits.getD i false else c.uperms.getLsbD (i - 15) := by
  rw [getCapPerms, BitVec.getLsbD_append]
  split
  · rename_i hi
    rw [BitVec.getLsbD_setWidth, getCapHardPerms, BitVec.getLsbD_ofBoolListBE, decide_eq_true hi,
      Bool.true_and]
    interval_cases i <;> rfl
  · rfl

/-- What is left of the permissions that are written. -/
theorem getLsbD_getCapPerms_setCapPerms {perms : BitVec (f.uw + 15)} {i : ℕ}
    (h : (c.setCapPerms perms).getCapPerms.getLsbD i = true) : perms.getLsbD i = true := by
  rw [getLsbD_getCapPerms] at h
  split at h
  · rename_i hi
    interval_cases i
    all_goals first | exact h | cases h
  · rename_i hi
    have hupper : ((perms >>> 15).setWidth f.uw).getLsbD (i - 15) = true := h
    rw [BitVec.getLsbD_setWidth, BitVec.getLsbD_ushiftRight, Nat.add_sub_cancel' (not_lt.1 hi)]
      at hupper
    exact (Bool.and_eq_true_iff.1 hupper).2

/-- A capability that was moved is well formed if its bounds are what they
were. -/
theorem WellFormed.withAddress (h : c.WellFormed) {a : BitVec f.xlen}
    (hbounds : (c.withAddress a).getCapBounds = c.getCapBounds) : (c.withAddress a).WellFormed := by
  refine ⟨⟨h.short, h.low, h.long⟩, ?_, ?_⟩
  · rw [getCapBase, getCapTop, hbounds]
    exact h.le
  · rw [getCapTop, hbounds]
    exact h.top_le

theorem atMost_withAddress {a : BitVec f.xlen}
    (hbounds : (c.withAddress a).getCapBounds = c.getCapBounds) :
    (c.withAddress a).AtMost c := by
  refine ⟨?_, ?_, fun _ h => h⟩
  · rw [getCapBase, getCapBase, hbounds]
  · rw [getCapTop, getCapTop, hbounds]

theorem getCapBounds_setCapAddr {a : BitVec f.xlen} (h : (c.setCapAddr a).1 = true) :
    (c.withAddress a).getCapBounds = c.getCapBounds :=
  (of_decide_eq_true h).symm

theorem getCapBounds_setCapOffset {offset : BitVec f.xlen}
    (h : (c.setCapOffset offset).1 = true) :
    (c.setCapOffset offset).2.getCapBounds = c.getCapBounds := by
  rw [getCapBounds, getCapBounds, getCapBoundsBits_setCapOffset h]

theorem getCapBounds_incCapOffset {delta : BitVec f.xlen}
    (h : (c.incCapOffset delta).1 = true) :
    (c.incCapOffset delta).2.getCapBounds = c.getCapBounds := by
  refine getCapBounds_of_fastRepCheck (a := c.address + delta) ?_
  rwa [BitVec.add_comm, BitVec.add_sub_cancel]

/-- What still has its tag has passed the test. -/
theorem tag_orInvalid {r : Bool × Capability f} (h : (orInvalid r).tag = true) :
    r.1 = true ∧ orInvalid r = r.2 := by
  unfold orInvalid at h ⊢
  split at h
  · rename_i hr
    exact ⟨hr, if_pos hr⟩
  · cases h

end Capability

open Capability

/-! ## Authorities -/

/-- **An authority** grants well formed capabilities, and with each of them those
that are narrower. Its frame is about memory and the root of the page table
only, and translations and stores that are granted keep it. -/
structure Authority (p : Platform f) where
  grants : Capability f → Prop
  wellFormed : ∀ {c}, grants c → c.WellFormed
  narrow : ∀ {c v}, grants c → v.WellFormed → v.AtMost c → grants v
  frame : State f → Prop
  congr : ∀ {s t}, t.mem = s.mem → t.satp = s.satp → frame s → frame t
  translate : ∀ {s t vaddr ac r}, frame s → translateAddr p vaddr ac s = .ok (r, t) → frame t
  store : ∀ {s t auth vaddr n ac addr ptw}, frame s → grants auth → auth.permitStore = true →
    auth.inCapBounds vaddr n = true → translateAddr p vaddr ac s = .ok (.TR_Address addr ptw, t) →
      ∀ {u : State f} (data : BitVec (8 * n)) (tag : Bool), frame u →
        frame (u.writeRam addr n data tag)

namespace Authority

variable {p : Platform f} {A : Authority p} {c d v : Capability f}

theorem withAddress (h : A.grants c) {a : BitVec f.xlen}
    (hbounds : (c.withAddress a).getCapBounds = c.getCapBounds) : A.grants (c.withAddress a) :=
  A.narrow h ((A.wellFormed h).withAddress hbounds) (atMost_withAddress hbounds)

/-- Whether a capability is sealed makes no difference. -/
theorem sealCap (h : A.grants c) (otype : BitVec f.ow) : A.grants (c.sealCap otype) := by
  have hw := A.wellFormed h
  exact A.narrow h ⟨⟨hw.short, hw.low, hw.long⟩, hw.le, hw.top_le⟩ ⟨le_rfl, le_rfl, fun _ h => h⟩

theorem setCapFlags (h : A.grants c) (flags : BitVec 1) : A.grants (c.setCapFlags flags) := by
  have hw := A.wellFormed h
  exact A.narrow h ⟨⟨hw.short, hw.low, hw.long⟩, hw.le, hw.top_le⟩ ⟨le_rfl, le_rfl, fun _ h => h⟩

theorem setCapPerms (h : A.grants c) {perms : BitVec (f.uw + 15)}
    (hp : ∀ i, perms.getLsbD i = true → c.getCapPerms.getLsbD i = true) :
    A.grants (c.setCapPerms perms) := by
  have hw := A.wellFormed h
  exact A.narrow h ⟨⟨hw.short, hw.low, hw.long⟩, hw.le, hw.top_le⟩
    ⟨le_rfl, le_rfl, fun i hi => hp i (getLsbD_getCapPerms_setCapPerms hi)⟩

/-- A capability that loses its seal, and perhaps `Global` with it. -/
theorem unsealCap (h : A.grants c) (global : Bool) :
    A.grants { c.unsealCap with global := c.global && global } := by
  have hw := A.wellFormed h
  refine A.narrow h ⟨⟨hw.short, hw.low, hw.long⟩, hw.le, hw.top_le⟩ ⟨le_rfl, le_rfl, ?_⟩
  intro i hi
  rw [getLsbD_getCapPerms] at hi ⊢
  split at hi
  · rename_i hlt
    rw [if_pos hlt]
    cases i with
    | zero => exact (Bool.and_eq_true_iff.1 hi).1
    | succ i => exact hi
  · rename_i hlt
    rw [if_neg hlt]
    exact hi

/-- **Bounds that are asked for within those of a capability** stay within them,
rounded as they are. -/
theorem boundsFrom (hE : f.capMaxE < 64) (h : A.grants c) {length : ℕ}
    (hb : c.inCapBounds c.address length = true) : A.grants (boundsFrom c length).2 := by
  have hw := A.wellFormed h
  obtain ⟨hlo, hhi⟩ := Bool.and_eq_true_iff.1 hb
  have hlo := of_decide_eq_true hlo
  have hhi := of_decide_eq_true hhi
  have hspace : 2 ^ (f.xlen + 1) = 2 * 2 ^ f.xlen := Nat.pow_succ'
  have htop := hw.top_le
  have haddr := c.address.isLt
  have hnat : (c.address.setWidth (f.xlen + 1) + BitVec.ofNat (f.xlen + 1) length).toNat
      = c.address.toNat + length := by
    have hmod : c.address.toNat % 2 ^ (f.xlen + 1) = c.address.toNat :=
      Nat.mod_eq_of_lt (by omega)
    have hmod' : length % 2 ^ (f.xlen + 1) = length := Nat.mod_eq_of_lt (by omega)
    rw [BitVec.toNat_add, BitVec.toNat_setWidth, BitVec.toNat_ofNat, hmod, hmod',
      Nat.mod_eq_of_lt (by omega)]
  have hle : c.address.toNat
      ≤ (c.address.setWidth (f.xlen + 1) + BitVec.ofNat (f.xlen + 1) length).toNat := by omega
  obtain ⟨hwell, -, -, hleast, -⟩ := setCapBounds_least c hE hle (by omega)
  obtain ⟨hbase, htop⟩ := hleast c hw hlo (by omega)
  refine A.narrow h hwell ⟨hbase, htop, fun i hi => ?_⟩
  rw [Sail.boundsFrom, setCapBounds_eq c hle] at hi
  exact hi

/-- **What `CBuildCap` makes** is granted: its fields are those that were asked
for, and they have been looked at. -/
theorem rebuild (h : A.grants c) (hbase : c.getCapBase ≤ d.getCapBase)
    (htop : d.getCapTop ≤ c.getCapTop) (hle : d.getCapBase ≤ d.getCapTop)
    (hperms : permsSubset d.getCapPerms c.getCapPerms = true)
    (hr : (rebuild c d).2 = { d.unsealCap with tag := true }) : A.grants (rebuild c d).2 := by
  have hb : (BitVec.ofNat f.xlen d.getCapBase).toNat = d.getCapBase :=
    (BitVec.toNat_ofNat _ _).trans (Nat.mod_eq_of_lt d.getCapBoundsBits.1.isLt)
  have ht : (BitVec.ofNat (f.xlen + 1) d.getCapTop).toNat = d.getCapTop :=
    (BitVec.toNat_ofNat _ _).trans (Nat.mod_eq_of_lt d.getCapBoundsBits.2.isLt)
  have hcanonical : (c.setCapBounds (BitVec.ofNat f.xlen d.getCapBase)
      (BitVec.ofNat (f.xlen + 1) d.getCapTop)).2.Canonical :=
    canonical_setCapBounds c (by rw [hb, ht]; exact hle)
  obtain ⟨cd1, hcd1⟩ : ∃ r, c.setCapBounds (BitVec.ofNat f.xlen d.getCapBase)
      (BitVec.ofNat (f.xlen + 1) d.getCapTop) = r := ⟨_, rfl⟩
  have hform : (Sail.rebuild c d).2 = ((cd1.2.setCapOffset d.getCapOffsetBits).2.setCapPerms
      d.getCapPerms).setCapFlags d.getCapFlags := by
    rw [Sail.rebuild, hcd1]
  rw [hcd1] at hcanonical
  have hfields : (Sail.rebuild c d).2.Canonical := by
    rw [hform]
    exact ⟨hcanonical.short, hcanonical.low, hcanonical.long⟩
  have hbounds : (Sail.rebuild c d).2.getCapBounds = d.getCapBounds := by
    rw [hr]
    rfl
  have hsame : (Sail.rebuild c d).2.getCapPerms = d.getCapPerms := by
    rw [hr]
    rfl
  have hsubset : d.getCapPerms &&& c.getCapPerms = d.getCapPerms := of_decide_eq_true hperms
  refine A.narrow h ⟨hfields, ?_, ?_⟩ ⟨?_, ?_, ?_⟩
  · rw [getCapBase, getCapTop, hbounds]
    exact hle
  · rw [getCapTop, hbounds]
    exact htop.trans (A.wellFormed h).top_le
  · show c.getCapBase ≤ (Sail.rebuild c d).2.getCapBounds.1
    rw [hbounds]
    exact hbase
  · show (Sail.rebuild c d).2.getCapBounds.2 ≤ c.getCapTop
    rw [hbounds]
    exact htop
  · intro i hi
    rw [hsame, ← hsubset, BitVec.getLsbD_and] at hi
    exact (Bool.and_eq_true_iff.1 hi).2

end Authority

/-! ## What a machine holds -/

/-- A capability with its tag, in a register or in a granule of memory. -/
def State.Holds (s : State f) (c : Capability f) : Prop :=
  c.tag = true ∧ ((∃ r, s.rC r = c) ∨ (∃ r, s.scr r = c)
    ∨ ∃ addr : BitVec f.xlen, addr.toNat % f.capSize = 0 ∧ s.capAt addr = c)

/-- **What a machine holds is granted**, and the frame holds of it. -/
structure Authority.Bounds {p : Platform f} (A : Authority p) (s : State f) : Prop where
  held : ∀ c, s.Holds c → A.grants c
  frame : A.frame s

section Steps

variable {p : Platform f} {A : Authority p} {s : State f} {v : Capability f}

theorem Authority.Bounds.rC (h : A.Bounds s) {r : RegIdx} (ht : (s.rC r).tag = true) :
    A.grants (s.rC r) := h.held _ ⟨ht, Or.inl ⟨r, rfl⟩⟩

theorem Authority.Bounds.scr (h : A.Bounds s) {r : Scr} (ht : (s.scr r).tag = true) :
    A.grants (s.scr r) := h.held _ ⟨ht, Or.inr (Or.inl ⟨r, rfl⟩)⟩

theorem Authority.Bounds.capAt (h : A.Bounds s) {addr : BitVec f.xlen}
    (hal : addr.toNat % f.capSize = 0) (ht : (s.capAt addr).tag = true) : A.grants (s.capAt addr) :=
  h.held _ ⟨ht, Or.inr (Or.inr ⟨addr, hal, rfl⟩)⟩

/-- A step that changes neither registers nor memory. -/
theorem Authority.Bounds.same (h : A.Bounds s) {t : State f} (hx : t.x = s.x)
    (hscr : t.scr = s.scr) (hmem : t.mem = s.mem) (htags : t.tags = s.tags)
    (hsatp : t.satp = s.satp) : A.Bounds t := by
  refine ⟨fun c hc => h.held c ?_, A.congr hmem hsatp h.frame⟩
  unfold State.Holds State.rC State.capAt at hc ⊢
  rwa [hx, hscr, hmem, htags] at hc

theorem Authority.Bounds.rCOrDdc (h : A.Bounds s) {r : RegIdx}
    (ht : (s.rCOrDdc r).tag = true) : A.grants (s.rCOrDdc r) := by
  by_cases hr : r.toNat = 0
  · rw [State.rCOrDdc, if_pos hr] at ht ⊢
    exact h.scr ht
  · rw [State.rCOrDdc, if_neg hr] at ht ⊢
    exact h.rC ht

theorem State.wC_satp (s : State f) (r : RegIdx) (v : Capability f) :
    (s.wC r v).satp = s.satp := by
  rw [State.wC, apply_ite State.satp, ite_self]

theorem Authority.Bounds.wC (h : A.Bounds s) (r : RegIdx) (hv : v.tag = true → A.grants v) :
    A.Bounds (s.wC r v) := by
  refine ⟨?_, A.congr (s.wC_mem r v) (s.wC_satp r v) h.frame⟩
  rintro c ⟨ht, ⟨r', rfl⟩ | ⟨r', rfl⟩ | ⟨addr, hal, rfl⟩⟩
  · by_cases hr : r' = r
    · subst hr
      by_cases h0 : r'.toNat = 0
      · rw [State.wC, if_pos h0] at ht ⊢
        exact h.rC ht
      · rw [s.rC_wC_self v h0] at ht ⊢
        exact hv ht
    · rw [s.rC_wC_of_ne v hr] at ht ⊢
      exact h.rC ht
  · rw [State.wC_scr] at ht ⊢
    exact h.scr ht
  · have hmem : (s.wC r v).capAt addr = s.capAt addr := by
      rw [State.capAt, State.capAt, State.wC_tags, State.wC_mem]
    rw [hmem] at ht ⊢
    exact h.capAt hal ht

theorem Authority.Bounds.setScr (h : A.Bounds s) (r : Scr) (hv : v.tag = true → A.grants v) :
    A.Bounds (s.setScr r v) := by
  refine ⟨?_, A.congr (s := s) rfl rfl h.frame⟩
  rintro c ⟨ht, ⟨r', rfl⟩ | ⟨r', rfl⟩ | ⟨addr, hal, rfl⟩⟩
  · exact h.rC ht
  · by_cases hr : r' = r
    · subst hr
      have hself : (s.setScr r' v).scr r' = v := Function.update_self _ _ _
      rw [hself] at ht ⊢
      exact hv ht
    · have hne : (s.setScr r v).scr r' = s.scr r' := Function.update_of_ne hr _ _
      rw [hne] at ht ⊢
      exact h.scr ht
  · exact h.capAt hal ht

/-- What comes after an assertion may rely on it. -/
theorem preserves_assert_bind {α : Type} {P : State f → Prop} {b : Bool} {x : M f α}
    (h : b = true → Preserves P x) : Preserves P (do assert b; x) := by
  cases b with
  | true => exact (silent_assert true).preserves.bind fun _ => h rfl
  | false =>
    intro s a s' _ hx
    obtain ⟨_, _, hfalse, -⟩ := Prog.bind_eq_ok.1 hx
    exact absurd hfalse throw_ne_ok

variable (A)

/-- **A trap** saves the program counter capability, and goes on with the one of
the handler. -/
theorem preserves_exceptionAt (num : ℕ) (info : BitVec f.xlen) :
    Preserves A.Bounds (exceptionAt num info : M f Unit) := by
  refine preserves_get_bind fun s hs => Preserves.bind ?_ fun pc => ?_
  · refine preserves_get_bind fun s hs => ?_
    refine (silent_trapStatus s _).preserves.bind fun mstatus => ?_
    refine Preserves.bind (preserves_set ?_) fun _ => Preserves.bind ?_ fun _ => ?_
    · exact hs.same rfl rfl rfl rfl rfl
    · refine preserves_get_bind fun t ht => preserves_assert_bind fun hrep => ?_
      refine preserves_modify fun u hu => hu.setScr _ fun htag => ?_
      exact Authority.withAddress (ht.scr htag) (getCapBounds_setCapAddr hrep)
    · refine preserves_get_bind fun t ht => ?_
      have hgo : ∀ r, Preserves A.Bounds
          (modify fun s => s.setScr .nextPCC (t.scr r) : M f Unit) := fun r =>
        preserves_modify fun u hu => hu.setScr _ fun htag => ht.scr htag
      refine Preserves.ite ?_ (Preserves.ite ?_ (preserves_throw _))
      · exact (hgo _).bind fun _ => preserves_pure _
      · exact (hgo _).bind fun _ => preserves_pure _
  · exact preserves_modify fun _ h => h.same rfl rfl rfl rfl rfl

theorem preserves_failAt (e : TrapCause) (info : BitVec f.xlen) :
    Preserves A.Bounds (failAt e info : M f Retired) :=
  (preserves_exceptionAt A _ _).bind fun _ => preserves_pure _

/-- **A check** of an instruction. -/
theorem preserves_check {p : Prop} [Decidable p] {e : CapViolation} {r : RegIdx}
    {x : M f Retired} (h : ¬ p → Preserves A.Bounds x) :
    Preserves A.Bounds (if p then failReg e r else x) := by
  by_cases hp : p
  · rw [if_pos hp]
    exact preserves_failAt A _ _
  · rw [if_neg hp]
    exact h hp

variable {A}

theorem preserves_writeCap {cd : RegIdx} (hv : v.tag = true → A.grants v) :
    Preserves A.Bounds (writeCap cd v) :=
  (preserves_modify fun _ h => h.wC cd hv).bind fun _ => preserves_pure _

end Steps

/-! ## Memory -/

section Memory

variable {p : Platform f} {A : Authority p} {s s' : State f} {addr : BitVec f.xlen}

/-- A granule that is touched from an address on is the one of the address, or
the last byte is in it. -/
theorem granule_of_touched {size q a n j : ℕ} (hn : n ≤ size) (hlo : q * size ≤ j)
    (hhi : j < q * size + size) (hj : a ≤ j) (hj' : j < a + n) :
    a / size = q ∨ q * size ≤ a + (n - 1) ∧ a + (n - 1) < q * size + size := by
  by_cases ha : q * size ≤ a
  · exact Or.inl (Nat.div_eq_of_lt_le ha (by rw [Nat.succ_mul]; omega))
  · exact Or.inr (by omega)

/-- **A write of data** leaves no tag on a granule it touches. -/
theorem State.capAt_writeRam_data {n : ℕ} {data : BitVec (8 * n)} (hn : n ≤ f.capSize)
    {a : BitVec f.xlen} (hal : a.toNat % f.capSize = 0)
    (ht : ((s.writeRam addr n data false).capAt a).tag = true) :
    (s.writeRam addr n data false).capAt a = s.capAt a := by
  have htag : writeTags s.tags addr n false (tagAddr a) = true := ht
  have hlast : tagAddr a ≠ tagAddr (addr + BitVec.ofNat f.xlen (n - 1)) := by
    intro he
    rw [writeTags, he, Function.update_self] at htag
    cases htag
  have hfirst : tagAddr a ≠ tagAddr addr := by
    intro he
    rw [writeTags, Function.update_of_ne hlast, he, Function.update_self] at htag
    cases htag
  have hsame : writeTags s.tags addr n false (tagAddr a) = s.tags (tagAddr a) := by
    rw [writeTags, Function.update_of_ne hlast, Function.update_of_ne hfirst]
  have hq : tagAddr a * f.capSize = a.toNat := Nat.div_mul_cancel (Nat.dvd_of_mod_eq_zero hal)
  have hfit := f.add_capSize_le a.isLt hal
  have hmem : readMem (writeMem s.mem addr.toNat n data) a.toNat f.capSize
      = readMem s.mem a.toNat f.capSize := by
    refine readMem_congr fun j hlo hhi => if_neg ?_
    rintro ⟨hj, hj'⟩
    obtain hin | ⟨hlo', hhi'⟩ := granule_of_touched hn (q := tagAddr a) (by omega) (by omega) hj hj'
    · exact hfirst hin.symm
    · have hnat : (addr + BitVec.ofNat f.xlen (n - 1)).toNat = addr.toNat + (n - 1) := by
        rw [BitVec.toNat_add, BitVec.toNat_ofNat, Nat.mod_eq_of_lt (a := n - 1) (by omega),
          Nat.mod_eq_of_lt (by omega)]
      refine hlast ?_
      show tagAddr a = (addr + BitVec.ofNat f.xlen (n - 1)).toNat / f.capSize
      rw [hnat]
      exact (Nat.div_eq_of_lt_le hlo' (by rw [Nat.succ_mul]; omega)).symm
  show Capability.memBitsToCapability _ (readMem (writeMem _ _ _ _) _ _) = _
  rw [hmem]
  exact congrArg (Capability.memBitsToCapability · _) hsame

theorem Authority.Bounds.writeRam_data (h : A.Bounds s) {n : ℕ} {data : BitVec (8 * n)}
    (hn : n ≤ f.capSize) (hframe : A.frame (s.writeRam addr n data false)) :
    A.Bounds (s.writeRam addr n data false) := by
  refine ⟨?_, hframe⟩
  rintro c ⟨ht, ⟨r, rfl⟩ | ⟨r, rfl⟩ | ⟨a, hal, rfl⟩⟩
  · exact h.rC ht
  · exact h.scr ht
  · have hsame := State.capAt_writeRam_data hn hal ht
    rw [hsame] at ht ⊢
    exact h.capAt hal ht

/-- **A write of a capability** that survives its encoding. -/
theorem Authority.Bounds.writeRam_cap (h : A.Bounds s) {v : Capability f}
    (hal : addr.toNat % f.capSize = 0)
    (hround : Capability.memBitsToCapability v.tag v.capToMemBits = v)
    (hv : v.tag = true → A.grants v)
    (hframe : A.frame (s.writeRam addr f.capSize v.capToMemBits v.tag)) :
    A.Bounds (s.writeRam addr f.capSize v.capToMemBits v.tag) := by
  refine ⟨?_, hframe⟩
  rintro c ⟨ht, ⟨r, rfl⟩ | ⟨r, rfl⟩ | ⟨a, hal', rfl⟩⟩
  · exact h.rC ht
  · exact h.scr ht
  · by_cases ha : a = addr
    · subst ha
      rw [State.capAt_writeRam hal hround] at ht ⊢
      exact hv ht
    · have hgranule : tagAddr a ≠ tagAddr addr := fun he => ha <| BitVec.eq_of_toNat_eq <| by
        rw [← Nat.div_mul_cancel (Nat.dvd_of_mod_eq_zero hal'),
          ← Nat.div_mul_cancel (Nat.dvd_of_mod_eq_zero hal)]
        exact congrArg (· * f.capSize) he
      have hother : (s.writeRam addr f.capSize v.capToMemBits v.tag).capAt a = s.capAt a := by
        have htags : writeTags s.tags addr f.capSize v.tag (tagAddr a) = s.tags (tagAddr a) := by
          rw [writeTags, tagAddr_last hal, Function.update_of_ne hgranule,
            Function.update_of_ne hgranule]
        have hmem : readMem (writeMem s.mem addr.toNat f.capSize v.capToMemBits) a.toNat f.capSize
            = readMem s.mem a.toNat f.capSize := by
          refine readMem_congr fun j hlo hhi => if_neg ?_
          rintro ⟨hj, hj'⟩
          refine hgranule ?_
          have hq : tagAddr a * f.capSize = a.toNat :=
            Nat.div_mul_cancel (Nat.dvd_of_mod_eq_zero hal')
          have hq' : tagAddr addr * f.capSize = addr.toNat :=
            Nat.div_mul_cancel (Nat.dvd_of_mod_eq_zero hal)
          have hja : j / f.capSize = tagAddr a :=
            Nat.div_eq_of_lt_le (by omega) (by rw [Nat.succ_mul]; omega)
          have hjb : j / f.capSize = tagAddr addr :=
            Nat.div_eq_of_lt_le (by omega) (by rw [Nat.succ_mul]; omega)
          exact hja.symm.trans hjb
        show Capability.memBitsToCapability _ (readMem (writeMem _ _ _ _) _ _) = _
        rw [hmem]
        exact congrArg (Capability.memBitsToCapability · _) htags
      rw [hother] at ht ⊢
      exact h.capAt hal' ht

theorem preserves_memWriteValueMeta {n : ℕ} {data : BitVec (8 * n)} {extAcc : ExtAccessType}
    {tag : Bool} (hram : ∀ s, A.Bounds s → A.Bounds (s.writeRam addr n data tag)) :
    Preserves A.Bounds (memWriteValueMeta p addr n data extAcc tag) := by
  refine Preserves.bind (silent_pmpGuard _ _ _).preserves fun check => ?_
  cases check with
  | some e => exact preserves_pure _
  | none =>
    refine preserves_get_bind fun s hs => ?_
    have hwrite : ∀ s', checkedMemWrite p s addr n data tag = .ok s' → A.Bounds s' := by
      intro s' h
      unfold checkedMemWrite at h
      split at h
      · cases hdev : p.mmioWrite s.dev addr n data with
        | error e =>
          rw [hdev] at h
          cases h
        | ok dev =>
          rw [hdev] at h
          obtain rfl := Except.ok.inj h
          exact hs.same rfl rfl rfl rfl rfl
      · split at h
        · obtain rfl := Except.ok.inj h
          exact hram s hs
        · cases h
    split
    · rename_i s' hok
      exact (preserves_set (hwrite s' hok)).bind fun _ => preserves_pure _
    · exact preserves_pure _

theorem preserves_memWriteCap {v : Capability f} (hal : addr.toNat % f.capSize = 0)
    (hv : v.tag = true → A.grants v)
    (hframe : ∀ {s : State f}, A.frame s →
      A.frame (s.writeRam addr f.capSize v.capToMemBits v.tag)) :
    Preserves A.Bounds (memWriteCap p addr v) :=
  preserves_assert_bind fun hround => preserves_memWriteValueMeta fun _ hs =>
    hs.writeRam_cap hal (of_decide_eq_true hround) hv (hframe hs.frame)

theorem silent_memReadCap (addr : BitVec f.xlen) : Silent (memReadCap p addr) :=
  (silent_memReadMeta _ _ _ _).bind fun _ => silent_pure _

/-- A capability that is read with its tag is the one of the granule: a device
has none. -/
theorem memReadCap_tagged {v : Capability f} (h : memReadCap p addr s = .ok (.ok v, s'))
    (ht : v.tag = true) : v = s.capAt addr := by
  by_cases hmap : p.withinMmioReadable addr f.capSize = false
  · exact (memReadCap_ok (Platform.not_answersCap_of_map hmap) h).1
  · obtain ⟨result, u, hread, h⟩ := Prog.bind_eq_ok.1 h
    obtain ⟨hv, -⟩ := pure_eq_ok.1 h
    cases result with
    | error e => cases hv
    | ok w =>
      have hw := memReadMeta_ok hread
      rw [checkedMemRead, if_pos (Bool.eq_true_of_not_eq_false hmap)] at hw
      cases hdev : p.mmioRead s.dev (.Read .Data) addr f.capSize with
      | error e =>
        rw [hdev] at hw
        cases hw
      | ok data =>
        rw [hdev] at hw
        obtain rfl := Except.ok.inj hw
        obtain rfl := Except.ok.inj hv
        cases ht

end Memory

/-! ## Translation -/

/-- **What is asked of a page table walk**: it makes no capability, and it keeps
the offset in the page. -/
structure Platform.WalkKeeps (p : Platform f) : Prop where
  held : ∀ {mode vAddr ac priv} {s s' : State f} {r},
    p.walk mode vAddr ac priv s = .ok (r, s') → ∀ c, s'.Holds c → s.Holds c
  offset : ∀ {mode vAddr ac priv} {s s' : State f} {addr ptw},
    p.walk mode vAddr ac priv s = .ok (.TR_Address addr ptw, s') →
      addr.toNat % 2 ^ 12 = vAddr.toNat % 2 ^ 12

/-- **The sizes that the formats of the model have**: a capability is a double
word at least and a page at most, and an exponent fits its field. -/
structure CapFormat.Sized (f : CapFormat) : Prop where
  maxE : f.capMaxE < 64
  word : 3 ≤ f.logCapSize
  page : f.logCapSize ≤ 12

section Access

variable {p : Platform f} {A : Authority p} {s s' : State f}

theorem preserves_translateAddr (hwalk : p.WalkKeeps) (vaddr : BitVec f.xlen) (ac : AccessType) :
    Preserves A.Bounds (translateAddr p vaddr ac) := by
  have hheld : Preserves (fun s => ∀ c, s.Holds c → A.grants c) (translateAddr p vaddr ac) := by
    refine preserves_get_bind fun _ _ => (silent_lift _).preserves.bind fun _ =>
      (silent_lift _).preserves.bind fun _ => Preserves.ite (preserves_pure _) ?_
    exact fun s r s' hs h c hc => hs c (hwalk.held h c hc)
  exact fun s r s' hs h => ⟨hheld s r s' hs.held h, A.translate hs.frame h⟩

/-- An aligned address is translated to an aligned one. -/
theorem translateAddr_aligned (hf : f.Sized) (hwalk : p.WalkKeeps) {vaddr addr : BitVec f.xlen}
    {ac : AccessType} {ptw : ExtPtw} (hal : vaddr.toNat % f.capSize = 0)
    (h : translateAddr p vaddr ac s = .ok (.TR_Address addr ptw, s')) :
    addr.toNat % f.capSize = 0 := by
  obtain ⟨a, t, -, h⟩ := Prog.bind_eq_ok.1 h
  obtain ⟨priv, t, -, h⟩ := Prog.bind_eq_ok.1 h
  obtain ⟨mode, t, -, h⟩ := Prog.bind_eq_ok.1 h
  obtain ⟨-, h⟩ | ⟨-, h⟩ := ite_eq_ok.1 h
  · cases (pure_eq_ok.1 h).1
    exact hal
  · have hdvd : f.capSize ∣ 2 ^ 12 := Nat.pow_dvd_pow 2 hf.page
    rw [← Nat.mod_mod_of_dvd _ hdvd, hwalk.offset h, Nat.mod_mod_of_dvd _ hdvd]
    exact hal

end Access

end Sail
