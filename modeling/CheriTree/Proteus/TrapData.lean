import CheriTree.Proteus.TrapHandler

/-!
# The trap data, and walks through it

The trap data is a stretch of slots: a capability each sixteen bytes, then a
word each four. A walk of the handler stores one value after the other, or
loads them one after the other, with `c31` as its cursor. What a walk leaves is
said here for every list of registers, by induction on the list: what was
stored is in its slot, the slots outside the walk are as they were, and what is
loaded is what the slots hold.
-/

namespace Proteus

namespace TaggedMemory

variable {cfg : MemConfig} {a : Word} {n f g : ℕ}

/-! ## Slots -/

/-- The capability at an offset. -/
def capSlot (cfg : MemConfig) (m : TaggedMemory) (a : Word) (f : ℕ) : Capability :=
  m.loadCap cfg (fun _ => 0) (a + BitVec.ofNat 32 f)

/-- The word at an offset. -/
def wordSlot (cfg : MemConfig) (m : TaggedMemory) (a : Word) (f : ℕ) : Word :=
  m.readWord cfg (fun _ => 0) (a + BitVec.ofNat 32 f)

theorem Holds.toNat_offset (h : Holds cfg a n) (hf : f < n) :
    (a + BitVec.ofNat 32 f).toNat = a.toNat + f := by
  have hfits := cfg.fits
  have hhi := h.2
  rw [BitVec.toNat_add, BitVec.toNat_ofNat]
  omega

/-- A stretch inside a stretch that is in memory. -/
theorem Holds.offset (h : Holds cfg a n) {k : ℕ} (hk : 0 < k) (hf : f + k ≤ n) :
    Holds cfg (a + BitVec.ofNat 32 f) k := by
  have hlo := h.1
  have hhi := h.2
  rw [Holds, h.toNat_offset (by omega)]
  omega

theorem Holds.inMemory_offset (h : Holds cfg a n) (hf : f < n) :
    cfg.InMemory (a + BitVec.ofNat 32 f) := by
  have hlo := h.1
  have hhi := h.2
  rw [MemConfig.InMemory, h.toNat_offset hf]
  omega

/-- No device answers for a slot. -/
theorem Holds.loadCap_offset (h : Holds cfg a n) (hf : f + 16 ≤ n) (m : TaggedMemory)
    (device : Word → Word) :
    m.loadCap cfg device (a + BitVec.ofNat 32 f) = m.capSlot cfg a f := by
  have hs := h.offset (k := 16) (by decide) hf
  rw [capSlot, hs.loadCap_eq, hs.loadCap_eq]

theorem Holds.readWord_offset (h : Holds cfg a n) (hf : f + 4 ≤ n) (m : TaggedMemory)
    (device : Word → Word) :
    m.readWord cfg device (a + BitVec.ofNat 32 f) = m.wordSlot cfg a f := by
  have hin := h.inMemory_offset (f := f) (by omega)
  rw [wordSlot, readWord, readWord, if_pos hin, if_pos hin]

theorem Holds.capSlot_storeCap_self (h : Holds cfg a n) (hf : f + 16 ≤ n) (m : TaggedMemory)
    (cap : Capability) :
    (m.storeCap cfg (a + BitVec.ofNat 32 f) cap).capSlot cfg a f = cap :=
  (h.offset (by decide) hf).loadCap_storeCap_self _ _ _

theorem Holds.capSlot_storeCap_of_apart (h : Holds cfg a n) (hf : f + 16 ≤ n) (hg : g + 16 ≤ n)
    (hfg : f + 16 ≤ g ∨ g + 16 ≤ f) (m : TaggedMemory) (cap : Capability) :
    (m.storeCap cfg (a + BitVec.ofNat 32 f) cap).capSlot cfg a g = m.capSlot cfg a g := by
  refine (h.offset (by decide) hf).loadCap_storeCap_of_apart (h.offset (by decide) hg) ?_ _ _ _
  rw [h.toNat_offset (by omega), h.toNat_offset (by omega)]
  omega

theorem Holds.wordSlot_storeCap (h : Holds cfg a n) (hf : f + 16 ≤ n) (hg : g + 4 ≤ n)
    (hfg : f + 16 ≤ g) (m : TaggedMemory) (cap : Capability) :
    (m.storeCap cfg (a + BitVec.ofNat 32 f) cap).wordSlot cfg a g = m.wordSlot cfg a g := by
  have hin := h.inMemory_offset (f := g) (by omega)
  rw [wordSlot, wordSlot, readWord, readWord, if_pos hin, if_pos hin,
    (h.offset (by decide) hf).storeCap_ram, h.toNat_offset (by omega), h.toNat_offset (by omega)]
  exact if_neg (by omega)

/-- What a data store leaves in the memory. -/
theorem Holds.storeWord_ram (h : Holds cfg a n) (hf : f < n) (m : TaggedMemory) (v : Word) :
    (m.storeWord cfg (a + BitVec.ofNat 32 f) v).ram
      = Function.update m.ram ((a.toNat + f) / 4) v := by
  show MemBus.writeWord cfg m.ram _ = _
  rw [MemBus.writeWord, if_pos ⟨rfl, h.inMemory_offset hf⟩]
  show Function.update m.ram ((a + BitVec.ofNat 32 f).toNat / 4) (maskWrite _ _ _) = _
  rw [h.toNat_offset hf, maskWrite_all]

theorem Holds.capSlot_storeWord (h : Holds cfg a n) (hf : f + 16 ≤ n) (hg : g + 4 ≤ n)
    (hfg : f + 16 ≤ g) (m : TaggedMemory) (v : Word) :
    (m.storeWord cfg (a + BitVec.ofNat 32 g) v).capSlot cfg a f = m.capSlot cfg a f := by
  have hs := h.offset (k := 16) (by decide) hf
  have htag : (m.storeWord cfg (a + BitVec.ofNat 32 g) v).tags
        (cfg.granule (a + BitVec.ofNat 32 f))
      = m.tags (cfg.granule (a + BitVec.ofNat 32 f)) := by
    show m.setTag cfg _ _ _ = _
    rw [setTag_eq]
    refine if_neg (fun ht => ?_)
    refine granule_ne hs.1 (h.inMemory_offset (f := g) (by omega)).1 (Or.inl ?_) ht.2
    rw [h.toNat_offset (by omega), h.toNat_offset (by omega)]
    omega
  rw [capSlot, capSlot, hs.loadCap_eq, hs.loadCap_eq, htag]
  refine Capability.ofMemWords_congr (fun k hk => ?_)
  rw [h.storeWord_ram (by omega), h.toNat_offset (by omega)]
  exact Function.update_of_ne (by omega) _ _

theorem Holds.wordSlot_storeWord_self (h : Holds cfg a n) (hf : f < n) (m : TaggedMemory)
    (v : Word) : (m.storeWord cfg (a + BitVec.ofNat 32 f) v).wordSlot cfg a f = v := by
  rw [wordSlot, readWord, if_pos (h.inMemory_offset hf), h.storeWord_ram hf, h.toNat_offset hf]
  exact Function.update_self _ _ _

theorem Holds.wordSlot_storeWord_of_apart (h : Holds cfg a n) (hf : f < n) (hg : g < n)
    (hfg : f + 4 ≤ g ∨ g + 4 ≤ f) (m : TaggedMemory) (v : Word) :
    (m.storeWord cfg (a + BitVec.ofNat 32 f) v).wordSlot cfg a g = m.wordSlot cfg a g := by
  have hin := h.inMemory_offset hg
  rw [wordSlot, wordSlot, readWord, readWord, if_pos hin, if_pos hin, h.storeWord_ram hf,
    h.toNat_offset hg]
  exact Function.update_of_ne (by omega) _ _

/-! ## Stores one after the other -/

/-- Capabilities stored one after the other, from an offset on. -/
def storeCaps (cfg : MemConfig) (a : Word) (m : TaggedMemory) (f : ℕ) :
    List Capability → TaggedMemory
  | [] => m
  | cap :: caps =>
    storeCaps cfg a (m.storeCap cfg (a + BitVec.ofNat 32 f) cap) (f + CAP_LEN) caps

/-- Words stored one after the other, from an offset on. -/
def storeWords (cfg : MemConfig) (a : Word) (m : TaggedMemory) (f : ℕ) :
    List Word → TaggedMemory
  | [] => m
  | v :: vs => storeWords cfg a (m.storeWord cfg (a + BitVec.ofNat 32 f) v) (f + WORD_SIZE) vs

/-- One more capability goes behind the last one. -/
theorem storeCaps_concat (caps : List Capability) (m : TaggedMemory) (cap : Capability) :
    storeCaps cfg a m f (caps ++ [cap])
      = (storeCaps cfg a m f caps).storeCap cfg
          (a + BitVec.ofNat 32 (f + CAP_LEN * caps.length)) cap := by
  induction caps generalizing m f with
  | nil => rfl
  | cons c caps ih =>
    rw [List.cons_append, storeCaps, ih, storeCaps, List.length_cons, Nat.mul_succ,
      Nat.add_comm (CAP_LEN * caps.length), ← Nat.add_assoc]

theorem storeWords_concat (vs : List Word) (m : TaggedMemory) (v : Word) :
    storeWords cfg a m f (vs ++ [v])
      = (storeWords cfg a m f vs).storeWord cfg
          (a + BitVec.ofNat 32 (f + WORD_SIZE * vs.length)) v := by
  induction vs generalizing m f with
  | nil => rfl
  | cons v' vs ih =>
    rw [List.cons_append, storeWords, ih, storeWords, List.length_cons, Nat.mul_succ,
      Nat.add_comm (WORD_SIZE * vs.length), ← Nat.add_assoc]

section

variable (h : Holds cfg a n)

include h

theorem Holds.capSlot_storeCaps_of_apart (caps : List Capability) (m : TaggedMemory)
    (hf : f + CAP_LEN * caps.length ≤ n) (hg : g + 16 ≤ n)
    (hfg : g + 16 ≤ f ∨ f + CAP_LEN * caps.length ≤ g) :
    (storeCaps cfg a m f caps).capSlot cfg a g = m.capSlot cfg a g := by
  induction caps generalizing m f with
  | nil => rfl
  | cons cap caps ih =>
    rw [List.length_cons, CAP_LEN] at hf hfg
    rw [storeCaps, ih _ (by rw [CAP_LEN]; omega) (by rw [CAP_LEN]; omega)]
    exact h.capSlot_storeCap_of_apart (by omega) hg (by omega) _ _

/-- **What was stored is in its slot.** -/
theorem Holds.capSlot_storeCaps (caps : List Capability) (m : TaggedMemory)
    (hf : f + CAP_LEN * caps.length ≤ n) {i : ℕ} {cap : Capability} (hi : caps[i]? = some cap) :
    (storeCaps cfg a m f caps).capSlot cfg a (f + CAP_LEN * i) = cap := by
  induction caps generalizing m f i with
  | nil => cases hi
  | cons c caps ih =>
    rw [List.length_cons, CAP_LEN] at hf
    cases i with
    | zero =>
      rw [List.getElem?_cons_zero, Option.some.injEq] at hi
      subst hi
      rw [Nat.mul_zero, Nat.add_zero, storeCaps,
        h.capSlot_storeCaps_of_apart caps _ (by rw [CAP_LEN]; omega) (by omega)
          (Or.inl (Nat.le_refl (f + CAP_LEN)))]
      exact h.capSlot_storeCap_self (by omega) _ _
    | succ i =>
      rw [List.getElem?_cons_succ] at hi
      rw [storeCaps, Nat.mul_succ, Nat.add_comm (CAP_LEN * i), ← Nat.add_assoc]
      exact ih _ (by rw [CAP_LEN]; omega) hi

theorem Holds.wordSlot_storeCaps (caps : List Capability) (m : TaggedMemory)
    (hfg : f + CAP_LEN * caps.length ≤ g) (hg : g + 4 ≤ n) :
    (storeCaps cfg a m f caps).wordSlot cfg a g = m.wordSlot cfg a g := by
  induction caps generalizing m f with
  | nil => rfl
  | cons cap caps ih =>
    rw [List.length_cons, CAP_LEN] at hfg
    rw [storeCaps, ih _ (by rw [CAP_LEN]; omega)]
    exact h.wordSlot_storeCap (by omega) hg (by omega) _ _

theorem Holds.capSlot_storeWords (vs : List Word) (m : TaggedMemory)
    (hf : f + WORD_SIZE * vs.length ≤ n) (hg : g + 16 ≤ f) :
    (storeWords cfg a m f vs).capSlot cfg a g = m.capSlot cfg a g := by
  induction vs generalizing m f with
  | nil => rfl
  | cons v vs ih =>
    rw [List.length_cons, WORD_SIZE] at hf
    rw [storeWords, ih _ (by rw [WORD_SIZE]; omega) (by rw [WORD_SIZE]; omega)]
    exact h.capSlot_storeWord (by omega) (by omega) hg _ _

theorem Holds.wordSlot_storeWords_of_before (vs : List Word) (m : TaggedMemory)
    (hf : f + WORD_SIZE * vs.length ≤ n) (hg : g + 4 ≤ f) :
    (storeWords cfg a m f vs).wordSlot cfg a g = m.wordSlot cfg a g := by
  induction vs generalizing m f with
  | nil => rfl
  | cons v vs ih =>
    rw [List.length_cons, WORD_SIZE] at hf
    rw [storeWords, ih _ (by rw [WORD_SIZE]; omega) (by rw [WORD_SIZE]; omega)]
    exact h.wordSlot_storeWord_of_apart (by omega) (by omega) (Or.inr hg) _ _

/-- **The same for words.** -/
theorem Holds.wordSlot_storeWords (vs : List Word) (m : TaggedMemory)
    (hf : f + WORD_SIZE * vs.length ≤ n) {i : ℕ} {v : Word} (hi : vs[i]? = some v) :
    (storeWords cfg a m f vs).wordSlot cfg a (f + WORD_SIZE * i) = v := by
  induction vs generalizing m f i with
  | nil => cases hi
  | cons v' vs ih =>
    rw [List.length_cons, WORD_SIZE] at hf
    cases i with
    | zero =>
      rw [List.getElem?_cons_zero, Option.some.injEq] at hi
      subst hi
      rw [Nat.mul_zero, Nat.add_zero, storeWords,
        h.wordSlot_storeWords_of_before vs _ (by rw [WORD_SIZE]; omega)
          (Nat.le_refl (f + WORD_SIZE))]
      exact h.wordSlot_storeWord_self (by omega) _ _
    | succ i =>
      rw [List.getElem?_cons_succ] at hi
      rw [storeWords, Nat.mul_succ, Nat.add_comm (WORD_SIZE * i), ← Nat.add_assoc]
      exact ih _ (by rw [WORD_SIZE]; omega) hi

end

end TaggedMemory

/-! ## What the instructions do

A rule for each instruction, from its check to the state it leaves. -/

theorem TrapState.readC_of_ne {s : TrapState} {r : RegId} (h : r ≠ 0) : s.readC r = s.c r :=
  if_neg h

theorem TrapState.readX_of_ne {s : TrapState} {r : RegId} (h : r ≠ 0) : s.readX r = s.x r :=
  if_neg h

theorem TrapState.setC_self (s : TrapState) (cd : RegId) (v : Capability) :
    (s.setC cd v).c cd = v := by
  show Function.update s.c cd v cd = v
  rw [Function.update_self]

theorem TrapState.readC_zero (s : TrapState) : s.readC 0 = .null := rfl

theorem TrapState.readX_zero (s : TrapState) : s.readX 0 = 0 := rfl

namespace TrapText

open Trapping (wp)

variable {t : TrapText} {s : TrapState} {Q : Unit → TrapState → Prop} {E : TrapState → Prop}

theorem wp_branch {p : TrapState → Prop} [DecidablePred p] {x y : TrapProg} :
    wp (branch p x y) Q E s ↔ if p s then wp x Q E s else wp y Q E s := by
  unfold wp Trapping.exec branch
  by_cases hp : p s
  · rw [if_pos hp, if_pos hp]
  · rw [if_neg hp, if_neg hp]

theorem wp_trapIf {p : TrapState → Prop} [DecidablePred p] :
    wp (trapIf p) Q E s ↔ if p s then E s else Q () s := by
  unfold wp Trapping.exec trapIf
  by_cases hp : p s
  · rw [if_pos hp, if_pos hp]
  · rw [if_neg hp, if_neg hp]

theorem wp_setOrTrap {ε : Type} {cd : RegId} {v : TrapState → Except ε Capability}
    {cap : Capability} (hv : v s = .ok cap) (hQ : Q () (s.setC cd cap)) :
    wp (setOrTrap cd v) Q E s := by
  unfold wp Trapping.exec setOrTrap
  rw [hv]
  exact hQ

theorem wp_li {rd : RegId} {imm : Word} :
    wp (li rd imm) Q E s ↔ Q () (s.setX rd imm) := Iff.rfl

theorem wp_cSetOffset {cd cs1 rs2 : RegId} :
    wp (cSetOffset cd cs1 rs2) Q E s
      ↔ Q () (s.setC cd (UserEnclave.cSetOffset (s.readC cs1) (s.readX rs2))) := Iff.rfl

theorem wp_cIncOffsetImm {cd cs1 : RegId} {imm : ℕ} :
    wp (cIncOffsetImm cd cs1 imm) Q E s
      ↔ Q () (s.setC cd (UserEnclave.cIncOffset (s.readC cs1) (BitVec.ofNat 32 imm))) := Iff.rfl

theorem wp_lcCap {cd cs1 : RegId} :
    wp (t.lcCap cd cs1) Q E s ↔
      if accessTraps cs1 .load capByteWidth s then E s
      else Q () (s.setC cd (s.mem.loadCap t.cfg t.device (s.readC cs1).address)) := by
  unfold lcCap
  rw [Trapping.wp_bind, wp_trapIf]
  rfl

theorem wp_scCap {cs2 cs1 : RegId} :
    wp (t.scCap cs2 cs1) Q E s ↔
      if accessTraps cs1 .store capByteWidth s then E s
      else Q () (s.setMem (s.mem.storeCap t.cfg (s.readC cs1).address (s.readC cs2))) := by
  unfold scCap
  rw [Trapping.wp_bind, wp_trapIf]
  rfl

theorem wp_lwCap {rd cs1 : RegId} :
    wp (t.lwCap rd cs1) Q E s ↔
      if accessTraps cs1 .load LsuAccessWidth.W.byteWidth s then E s
      else if (s.readC cs1).address.toNat % 4 ≠ 0 then E s
      else Q () (s.setX rd (s.mem.readWord t.cfg t.device (s.readC cs1).address)) := by
  unfold lwCap
  rw [Trapping.wp_bind, wp_trapIf]
  simp only [Trapping.wp_bind, wp_trapIf]
  rfl

theorem wp_swCap {rs2 cs1 : RegId} :
    wp (t.swCap rs2 cs1) Q E s ↔
      if accessTraps cs1 .store LsuAccessWidth.W.byteWidth s then E s
      else if (s.readC cs1).address.toNat % 4 ≠ 0 then E s
      else Q () (s.setMem (s.mem.storeWord t.cfg (s.readC cs1).address (s.readX rs2))) := by
  unfold swCap
  rw [Trapping.wp_bind, wp_trapIf]
  simp only [Trapping.wp_bind, wp_trapIf]
  rfl

/-- Clearing the tags of a list of registers. -/
theorem wp_each_cClearTag (rs : List RegId) (h0 : (0 : RegId) ∉ rs) :
    wp (each (fun r => cClearTag r r) rs) Q E s
      ↔ Q () { s with c := fun r => if r ∈ rs then { s.c r with tag := false } else s.c r } := by
  induction rs generalizing s with
  | nil => simp [each]
  | cons r rs ih =>
    have hr : r ≠ 0 := fun h => h0 (h ▸ List.mem_cons_self)
    rw [each, Trapping.wp_bind]
    show wp (each _ rs) Q E (s.setC r { s.readC r with tag := false }) ↔ _
    rw [TrapState.readC_of_ne hr, ih (fun h => h0 (List.mem_cons_of_mem _ h))]
    have hc : (fun q => if q ∈ rs
          then { (s.setC r { s.c r with tag := false }).c q with tag := false }
          else (s.setC r { s.c r with tag := false }).c q)
        = fun q => if q ∈ r :: rs then { s.c q with tag := false } else s.c q := by
      funext q
      by_cases hq : q = r
      · subst hq
        by_cases hm : q ∈ rs
        · simp [TrapState.setC, hm]
        · simp [TrapState.setC, hm]
      · simp [TrapState.setC, hq]
    show Q () { (s.setC r _) with c := _ } ↔ _
    rw [hc]
    rfl

/-- Clearing a list of registers. -/
theorem wp_each_li_zero (rs : List RegId) :
    wp (each (fun r => li r 0) rs) Q E s
      ↔ Q () { s with x := fun r => if r ∈ rs then 0 else s.x r } := by
  induction rs generalizing s with
  | nil => simp [each]
  | cons r rs ih =>
    rw [each, Trapping.wp_bind, wp_li, ih]
    have hx : (fun q => if q ∈ rs then 0 else (s.setX r 0).x q)
        = fun q => if q ∈ r :: rs then 0 else s.x q := by
      funext q
      by_cases hq : q = r
      · subst hq
        simp [TrapState.setX]
      · simp [TrapState.setX, hq]
    show Q () { (s.setX r 0) with x := _ } ↔ _
    rw [hx]
    rfl

/-! ## Walks -/

/-- **A data section that holds trap data**: a usable capability to it, long
enough, with the trap data in memory. -/
structure DataSection (cfg : MemConfig) (d : Capability) : Prop where
  tag : d.tag = true
  notSealed : d.isSealed = false
  load : d.perms.load = true
  store : d.perms.store = true
  len : TRAP_DATA_LEN ≤ d.length.toNat
  top : d.base.toNat + d.length.toNat < 2 ^ 32
  holds : TaggedMemory.Holds cfg d.base TRAP_DATA_LEN

/-- The data capability at an offset. -/
def pointAt (d : Capability) (f : ℕ) : Capability :=
  UserEnclave.cSetOffset d (BitVec.ofNat 32 f)

section

variable {d : Capability} {f : ℕ}

theorem address_pointAt (d : Capability) (f : ℕ) :
    (pointAt d f).address = d.base + BitVec.ofNat 32 f := rfl

theorem cIncOffset_pointAt (d : Capability) (f g : ℕ) :
    UserEnclave.cIncOffset (pointAt d f) (BitVec.ofNat 32 g) = pointAt d (f + g) := by
  unfold UserEnclave.cIncOffset pointAt UserEnclave.cSetOffset
  rw [BitVec.ofNat_add]

/-- **Accesses to the trap data raise nothing.** -/
theorem DataSection.not_accessTraps (h : DataSection t.cfg d) {operation : LsuOperationType}
    (hop : operation ≠ .none) {n : Word} (hf : f + n.toNat ≤ TRAP_DATA_LEN)
    (hc : s.c 31 = pointAt d f) : ¬ accessTraps 31 operation n s := by
  have hlen := h.len
  have htop := h.top
  have hsize : TRAP_DATA_LEN < 2 ^ 32 := by decide
  rw [accessTraps, TrapState.readC_of_ne (by decide), hc, not_not, CapCheck.check_eq_none_iff hop]
  refine ⟨h.tag, h.notSealed, ?_, ?_⟩
  · cases operation with
    | none => exact absurd rfl hop
    | load => exact h.load
    | store => exact h.store
  · rw [Capability.inBounds_iff, address_pointAt, BitVec.toNat_add, BitVec.toNat_ofNat]
    show d.base.toNat ≤ _ ∧ _ ≤ (d.base.toNat + d.length.toNat) % 2 ^ 32
    omega

/-- **The rule of a walk**: what each access keeps, with the cursor where the
access is, holds at the end. -/
theorem wp_strides {stride : ℕ} {op : RegId → TrapProg} (rs : List RegId)
    (P : ℕ → TrapState → Prop)
    (step : ∀ j r s, rs[j]? = some r → s.c 31 = pointAt d (f + stride * j) → P j s →
      wp (op r) (fun _ s' => s'.c 31 = pointAt d (f + stride * j) ∧ P (j + 1) s') E s)
    (keep : ∀ j s cap, P j s → P j (s.setC 31 cap)) (hc : s.c 31 = pointAt d f) (h0 : P 0 s) :
    wp (strides stride op rs)
      (fun _ s' => (∃ o, s'.c 31 = UserEnclave.cSetOffset d o) ∧ P rs.length s') E s := by
  induction rs generalizing s f P with
  | nil => exact ⟨⟨_, hc⟩, h0⟩
  | cons r rs ih =>
    have hop := step 0 r s rfl (by rw [Nat.mul_zero, Nat.add_zero]; exact hc) h0
    cases rs with
    | nil => exact Trapping.wp_mono hop (fun _ s' h => ⟨⟨_, h.1⟩, h.2⟩) (fun _ h => h)
    | cons r' rs =>
      rw [strides, Trapping.wp_bind]
      · refine Trapping.wp_mono hop (fun _ s' h => ?_) (fun _ h => h)
        rw [Trapping.wp_bind, wp_cIncOffsetImm]
        refine ih (f := f + stride) (fun j => P (j + 1)) (fun j q s hq hcq hP => ?_)
          (fun j s cap => keep (j + 1) s cap) ?_ (keep 1 s' _ h.2)
        · have := step (j + 1) q s (by rw [List.getElem?_cons_succ]; exact hq)
          rw [Nat.mul_succ, Nat.add_comm (stride * j), ← Nat.add_assoc] at this
          exact this hcq hP
        · show Function.update s'.c 31 _ 31 = _
          rw [Function.update_self, TrapState.readC_of_ne (by decide), h.1, Nat.mul_zero,
            Nat.add_zero]
          exact cIncOffset_pointAt d f stride
      · simp

/-- `c31` goes back to the start, and to an offset from there. -/
theorem wp_rewind {offset : ℕ} {x : TrapProg} {o : Word}
    (hc : s.c 31 = UserEnclave.cSetOffset d o) :
    wp (do
      cSetOffset 31 31 0
      cIncOffsetImm 31 31 offset
      x) Q E s ↔ wp x Q E (s.setC 31 (pointAt d offset)) := by
  rw [Trapping.wp_bind, wp_cSetOffset, Trapping.wp_bind, wp_cIncOffsetImm]
  have hcap : UserEnclave.cIncOffset ((s.setC 31 (UserEnclave.cSetOffset (s.readC 31)
      (s.readX 0))).readC 31) (BitVec.ofNat 32 offset) = pointAt d offset := by
    rw [TrapState.readC_of_ne (by decide), TrapState.readC_of_ne (by decide), hc]
    show UserEnclave.cIncOffset (Function.update s.c 31 _ 31) _ = _
    rw [Function.update_self, TrapState.readX_zero]
    exact (cIncOffset_pointAt d 0 offset).trans (by rw [Nat.zero_add])
  rw [hcap]
  unfold TrapState.setC
  rw [Function.update_idem]

/-- The cursor is set, and the walk follows. -/
theorem wp_walk {offset stride : ℕ} {op : RegId → TrapProg} {rs : List RegId} {o : Word}
    (hc : s.c 31 = UserEnclave.cSetOffset d o) :
    wp (walk offset stride op rs) Q E s
      ↔ wp (strides stride op rs) Q E (s.setC 31 (pointAt d offset)) :=
  wp_rewind hc

/-- A walk whose first access traps. -/
theorem wp_strides_of_trap {stride : ℕ} {op : RegId → TrapProg} {rs : List RegId}
    (hrs : rs ≠ []) (hop : ∀ r R, wp (op r) R E s) : wp (strides stride op rs) Q E s := by
  match rs, hrs with
  | [r], _ => exact hop r Q
  | r :: r' :: rs, _ =>
    rw [strides, Trapping.wp_bind]
    · exact hop r _
    · simp

/-- The list up to an element of it. -/
theorem take_succ_of_getElem? {rs : List RegId} {j : ℕ} {r : RegId} (hr : rs[j]? = some r) :
    rs.take (j + 1) = rs.take j ++ [r] ∧ (rs.take j).length = j := by
  obtain ⟨hlt, rfl⟩ := List.getElem?_eq_some_iff.1 hr
  exact ⟨(List.take_append_getElem hlt).symm, List.length_take_of_le (Nat.le_of_lt hlt)⟩

theorem readC_setC_of_ne {r cd : RegId} (h : r ≠ cd) (v : Capability) (m : TaggedMemory) :
    ((s.setC cd v).setMem m).readC r = s.readC r := by
  show (if r = 0 then _ else Function.update s.c cd v r) = _
  rw [Function.update_of_ne h]
  rfl

/-- **The rule of a walk that stores**: only the memory changes, and the
cursor. -/
theorem wp_walk_store {stride : ℕ} {op : RegId → TrapProg} {rs : List RegId} {o : Word}
    (mems : ℕ → TaggedMemory) (h0 : mems 0 = s.mem) (hc : s.c 31 = UserEnclave.cSetOffset d o)
    (step : ∀ j r, rs[j]? = some r → ∀ R : Unit → TrapState → Prop,
      R () ((s.setC 31 (pointAt d (f + stride * j))).setMem (mems (j + 1))) →
      wp (op r) R E ((s.setC 31 (pointAt d (f + stride * j))).setMem (mems j)))
    (hQ : ∀ o', Q () ((s.setC 31 (UserEnclave.cSetOffset d o')).setMem (mems rs.length))) :
    wp (walk f stride op rs) Q E s := by
  have hset : ∀ cap m, ((s.setC 31 cap).setMem m).c 31 = cap :=
    fun cap _ => s.setC_self 31 cap
  rw [wp_walk hc]
  refine Trapping.wp_mono (wp_strides (d := d) (f := f) rs
    (fun j s' => ∃ cap, s' = (s.setC 31 cap).setMem (mems j)) ?_ ?_ (hset _ _)
    ⟨pointAt d f, by rw [h0]; rfl⟩) ?_ (fun _ h => h)
  · rintro j r s' hr hcur ⟨cap, rfl⟩
    rw [hset] at hcur
    subst hcur
    exact step j r hr _ ⟨hset _ _, _, rfl⟩
  · rintro j s' cap ⟨cap', rfl⟩
    refine ⟨cap, ?_⟩
    unfold TrapState.setC TrapState.setMem
    simp only [Function.update_idem]
  · rintro _ s' ⟨⟨o', ho'⟩, cap, rfl⟩
    rw [hset] at ho'
    rw [ho']
    exact hQ o'

/-- **A walk that stores capabilities.** -/
theorem wp_walk_scCap (h : DataSection t.cfg d) (src : RegId → RegId) {rs : List RegId}
    (hsrc : ∀ r ∈ rs, src r ≠ 31) (hf : f + CAP_LEN * rs.length ≤ TRAP_DATA_LEN) {o : Word}
    (hc : s.c 31 = UserEnclave.cSetOffset d o)
    (hQ : ∀ o', Q () ((s.setC 31 (UserEnclave.cSetOffset d o')).setMem
      (TaggedMemory.storeCaps t.cfg d.base s.mem f (rs.map (fun r => s.readC (src r)))))) :
    wp (walk f CAP_LEN (fun r => t.scCap (src r) 31) rs) Q E s := by
  refine wp_walk_store (fun j => TaggedMemory.storeCaps t.cfg d.base s.mem f
    ((rs.take j).map (fun r => s.readC (src r)))) rfl hc ?_ ?_
  · intro j r hr R hR
    obtain ⟨htake, hlen⟩ := take_succ_of_getElem? hr
    have hj : j < rs.length := (List.getElem?_eq_some_iff.1 hr).1
    have hroom : f + CAP_LEN * j + capByteWidth.toNat ≤ TRAP_DATA_LEN := by
      show f + CAP_LEN * j + 16 ≤ _
      rw [CAP_LEN] at hf ⊢
      omega
    have hcur : (s.setC 31 (pointAt d (f + CAP_LEN * j))).c 31 = pointAt d (f + CAP_LEN * j) :=
      s.setC_self 31 _
    rw [wp_scCap, if_neg (h.not_accessTraps (by decide) hroom (by exact hcur))]
    rw [TrapState.readC_of_ne (by decide)]
    rw [htake, List.map_append, List.map_singleton, TaggedMemory.storeCaps_concat,
      List.length_map, hlen] at hR
    rw [readC_setC_of_ne (hsrc r (List.mem_of_getElem? hr))]
    show R () ((s.setC 31 _).setMem (TaggedMemory.storeCap _ _
      ((s.setC 31 (pointAt d (f + CAP_LEN * j))).c 31).address _))
    rw [hcur]
    exact hR
  · intro o'
    rw [List.take_length]
    exact hQ o'

/-- **A walk that stores registers.** Each of its accesses is aligned as the
section is. -/
theorem wp_walk_swCap (h : DataSection t.cfg d) (hal : d.base.toNat % 4 = 0) {rs : List RegId}
    (hf : f + WORD_SIZE * rs.length ≤ TRAP_DATA_LEN) (hf4 : f % 4 = 0) {o : Word}
    (hc : s.c 31 = UserEnclave.cSetOffset d o)
    (hQ : ∀ o', Q () ((s.setC 31 (UserEnclave.cSetOffset d o')).setMem
      (TaggedMemory.storeWords t.cfg d.base s.mem f (rs.map s.readX)))) :
    wp (walk f WORD_SIZE (fun r => t.swCap r 31) rs) Q E s := by
  refine wp_walk_store (fun j => TaggedMemory.storeWords t.cfg d.base s.mem f
    ((rs.take j).map s.readX)) rfl hc ?_ ?_
  · intro j r hr R hR
    obtain ⟨htake, hlen⟩ := take_succ_of_getElem? hr
    have hj : j < rs.length := (List.getElem?_eq_some_iff.1 hr).1
    have hroom : f + WORD_SIZE * j + LsuAccessWidth.W.byteWidth.toNat ≤ TRAP_DATA_LEN := by
      show f + WORD_SIZE * j + 4 ≤ _
      rw [WORD_SIZE] at hf ⊢
      omega
    have haddr : (d.base + BitVec.ofNat 32 (f + WORD_SIZE * j)).toNat % 4 = 0 := by
      rw [h.holds.toNat_offset (by rw [WORD_SIZE] at hf ⊢; omega), WORD_SIZE]
      omega
    have hcur : (s.setC 31 (pointAt d (f + WORD_SIZE * j))).c 31 = pointAt d (f + WORD_SIZE * j) :=
      s.setC_self 31 _
    rw [wp_swCap, if_neg (h.not_accessTraps (by decide) hroom (by exact hcur))]
    rw [TrapState.readC_of_ne (by decide)]
    rw [htake, List.map_append, List.map_singleton, TaggedMemory.storeWords_concat,
      List.length_map, hlen] at hR
    show if ((s.setC 31 (pointAt d (f + WORD_SIZE * j))).c 31).address.toNat % 4 ≠ 0 then _ else
      R () ((s.setC 31 _).setMem (TaggedMemory.storeWord _ _
        ((s.setC 31 (pointAt d (f + WORD_SIZE * j))).c 31).address _))
    rw [hcur, address_pointAt, if_neg (not_not.2 haddr)]
    exact hR
  · intro o'
    rw [List.take_length]
    exact hQ o'

/-- **The registers of a list hold what was loaded**, the others what they
held. -/
structure Loaded {α : Type} (rs : List RegId) (val : ℕ → α) (old new : RegId → α) : Prop where
  loaded : ∀ i r, rs[i]? = some r → new r = val i
  others : ∀ r, r ∉ rs → new r = old r

theorem Loaded.nil {α : Type} (val : ℕ → α) (old : RegId → α) : Loaded [] val old old :=
  ⟨fun _ _ h => (by cases h), fun _ _ => rfl⟩

/-- One more register. -/
theorem Loaded.succ {α : Type} {rs : List RegId} {val : ℕ → α} {old new : RegId → α} {j : ℕ}
    {r : RegId} (h : Loaded (rs.take j) val old new) (hnd : rs.Nodup) (hr : rs[j]? = some r) :
    Loaded (rs.take (j + 1)) val old (Function.update new r (val j)) := by
  obtain ⟨htake, hlen⟩ := take_succ_of_getElem? hr
  have hnot : r ∉ rs.take j := by
    have hnd' : (rs.take (j + 1)).Nodup := hnd.take
    rw [htake, List.nodup_append] at hnd'
    exact fun hm => hnd'.2.2 r hm r (List.mem_singleton.2 rfl) rfl
  rw [htake]
  constructor
  · intro i q hq
    rcases Nat.lt_trichotomy i j with hlt | rfl | hgt
    · rw [List.getElem?_append_left (by omega)] at hq
      have hqr : q ≠ r := fun he => hnot (he ▸ List.mem_of_getElem? hq)
      rw [Function.update_of_ne hqr]
      exact h.loaded i q hq
    · rw [List.getElem?_append_right (by omega), hlen, Nat.sub_self, List.getElem?_cons_zero,
        Option.some.injEq] at hq
      rw [hq, Function.update_self]
    · rw [List.getElem?_eq_none (by rw [List.length_append, hlen, List.length_singleton]; omega)]
        at hq
      cases hq
  · intro q hq
    rw [List.mem_append, not_or, List.mem_singleton] at hq
    rw [Function.update_of_ne hq.2]
    exact h.others q hq.1

/-- **A walk that loads capabilities.** -/
theorem wp_walk_lcCap (h : DataSection t.cfg d) {rs : List RegId} (hnd : rs.Nodup)
    (h31 : (31 : RegId) ∉ rs) (hf : f + CAP_LEN * rs.length ≤ TRAP_DATA_LEN) {o : Word}
    (hc : s.c 31 = UserEnclave.cSetOffset d o)
    (hQ : ∀ o' c', Loaded rs (fun i => s.mem.capSlot t.cfg d.base (f + CAP_LEN * i)) s.c c' →
      Q () ({ s with c := c' }.setC 31 (UserEnclave.cSetOffset d o'))) :
    wp (walk f CAP_LEN (fun r => t.lcCap r 31) rs) Q E s := by
  have hset : ∀ cap c', (({ s with c := c' } : TrapState).setC 31 cap).c 31 = cap :=
    fun cap _ => TrapState.setC_self _ 31 cap
  rw [wp_walk hc]
  refine Trapping.wp_mono (wp_strides (d := d) (f := f) rs
    (fun j s' => ∃ cap c', s' = ({ s with c := c' } : TrapState).setC 31 cap
      ∧ Loaded (rs.take j) (fun i => s.mem.capSlot t.cfg d.base (f + CAP_LEN * i)) s.c c') ?_ ?_
    (s.setC_self 31 _) ⟨pointAt d f, s.c, rfl, .nil _ _⟩) ?_ (fun _ h => h)
  · rintro j r s' hr hcur ⟨cap, c', rfl, hl⟩
    have hj : j < rs.length := (List.getElem?_eq_some_iff.1 hr).1
    have hroom : f + CAP_LEN * j + capByteWidth.toNat ≤ TRAP_DATA_LEN := by
      show f + CAP_LEN * j + 16 ≤ _
      rw [CAP_LEN] at hf ⊢
      omega
    have hr31 : r ≠ 31 := fun he => h31 (he ▸ List.mem_of_getElem? hr)
    rw [wp_lcCap, if_neg (h.not_accessTraps (by decide) hroom hcur),
      TrapState.readC_of_ne (by decide), hcur, address_pointAt]
    refine ⟨?_, cap, _, ?_, hl.succ hnd hr⟩
    · show Function.update _ r _ 31 = _
      rw [Function.update_of_ne hr31.symm]
      exact hcur
    · rw [show (({ s with c := c' } : TrapState).setC 31 cap).mem = s.mem from rfl,
        h.holds.loadCap_offset hroom]
      unfold TrapState.setC
      simp only
      rw [Function.update_comm hr31]
  · rintro j s' cap ⟨cap', c', rfl, hl⟩
    refine ⟨cap, c', ?_, hl⟩
    unfold TrapState.setC
    simp only [Function.update_idem]
  · rintro _ s' ⟨⟨o', ho'⟩, cap, c', rfl, hl⟩
    rw [hset] at ho'
    rw [ho']
    rw [List.take_length] at hl
    exact hQ o' c' hl

/-- **A walk that loads registers.** -/
theorem wp_walk_lwCap (h : DataSection t.cfg d) (hal : d.base.toNat % 4 = 0) {rs : List RegId}
    (hnd : rs.Nodup) (hf : f + WORD_SIZE * rs.length ≤ TRAP_DATA_LEN) (hf4 : f % 4 = 0) {o : Word}
    (hc : s.c 31 = UserEnclave.cSetOffset d o)
    (hQ : ∀ o' x', Loaded rs (fun i => s.mem.wordSlot t.cfg d.base (f + WORD_SIZE * i)) s.x x' →
      Q () ({ s with x := x' }.setC 31 (UserEnclave.cSetOffset d o'))) :
    wp (walk f WORD_SIZE (fun r => t.lwCap r 31) rs) Q E s := by
  have hset : ∀ cap x', (({ s with x := x' } : TrapState).setC 31 cap).c 31 = cap :=
    fun cap _ => TrapState.setC_self _ 31 cap
  rw [wp_walk hc]
  refine Trapping.wp_mono (wp_strides (d := d) (f := f) rs
    (fun j s' => ∃ cap x', s' = ({ s with x := x' } : TrapState).setC 31 cap
      ∧ Loaded (rs.take j) (fun i => s.mem.wordSlot t.cfg d.base (f + WORD_SIZE * i)) s.x x') ?_ ?_
    (s.setC_self 31 _) ⟨pointAt d f, s.x, rfl, .nil _ _⟩) ?_ (fun _ h => h)
  · rintro j r s' hr hcur ⟨cap, x', rfl, hl⟩
    have hj : j < rs.length := (List.getElem?_eq_some_iff.1 hr).1
    have hroom : f + WORD_SIZE * j + LsuAccessWidth.W.byteWidth.toNat ≤ TRAP_DATA_LEN := by
      show f + WORD_SIZE * j + 4 ≤ _
      rw [WORD_SIZE] at hf ⊢
      omega
    have haddr : (d.base + BitVec.ofNat 32 (f + WORD_SIZE * j)).toNat % 4 = 0 := by
      rw [h.holds.toNat_offset (by rw [WORD_SIZE] at hf ⊢; omega), WORD_SIZE]
      omega
    rw [wp_lwCap, if_neg (h.not_accessTraps (by decide) hroom hcur),
      TrapState.readC_of_ne (by decide), hcur, address_pointAt, if_neg (not_not.2 haddr)]
    refine ⟨hcur, cap, _, ?_, hl.succ hnd hr⟩
    rw [show (({ s with x := x' } : TrapState).setC 31 cap).mem = s.mem from rfl,
      h.holds.readWord_offset hroom]
    rfl
  · rintro j s' cap ⟨cap', x', rfl, hl⟩
    refine ⟨cap, x', ?_, hl⟩
    unfold TrapState.setC
    simp only [Function.update_idem]
  · rintro _ s' ⟨⟨o', ho'⟩, cap, x', rfl, hl⟩
    rw [hset] at ho'
    rw [ho']
    rw [List.take_length] at hl
    exact hQ o' x' hl

end

end TrapText

end Proteus
