import CheriTree.Carving
import CheriTree.Trapping
import CheriTree.Proteus.SealingLaws

/-!
# The allocator of unique memory

`unique_alloc` cuts pieces off the front of one capability, `heap_cap`. The
text is short: the size is rounded up to whole granules, a copy of `heap_cap`
gets the rounded size as its length, and `heap_cap` itself is moved to the end
of the copy, in two steps, first its offset and then its bounds.

The instructions are taken to trap rather than to give bounds outside those of
their source (`derive`). Two things are left to go wrong. The rounding is done
in the width of a register, so that a size in the last granule of the address
space becomes zero and the caller gets nothing. And where the piece ends at
the top of the address space, the address of what is left is zero: the first
of the two steps has been made when the second one traps. A heap that does not
start at its base is cut at one place and continued at another; `offset` zero
is what `unique_alloc_init` gives where it aligns, and what it leaves alone
where it does not.
-/

namespace Proteus

/-! ## The text -/

/-- The capability variables of a call: the heap, and what the caller gets. -/
inductive AllocVar where
  | heapCap
  | dst
deriving DecidableEq, Repr

/-- The variables with what they hold. -/
structure AllocVars where
  heapCap : Capability
  dst : Capability
deriving DecidableEq, Repr

namespace AllocVars

def get (v : AllocVars) : AllocVar → Capability
  | .heapCap => v.heapCap
  | .dst => v.dst

def set (v : AllocVars) (x : AllocVar) (c : Capability) : AllocVars :=
  match x with
  | .heapCap => { v with heapCap := c }
  | .dst => { v with dst := c }

end AllocVars

/-- A piece of the allocator. -/
abbrev Alloc (α : Type) := Trapping AllocVars ExceptionCause α

/-- **A derivation that traps instead of leaving the bounds of its source.** -/
def derive (op : ModifyOp) (c : Capability) (val : Word) : Except ExceptionCause Capability := do
  let c' ← op.modification.apply c val
  if c'.range.Within c.range then return c' else .error .lengthViolation

namespace Alloc

/-- `cheri_move`, of a value. -/
def cheriMove (x : AllocVar) (c : Capability) : Alloc Unit :=
  Trapping.update (fun v => v.set x c)

/-- The helpers `CHERI_SETTER` makes. -/
def cheriSetter (op : ModifyOp) (cap : AllocVar) (val : Word) : Alloc Unit := do
  let c ← Trapping.read (fun v => v.get cap)
  let c' ← Trapping.lift (derive op c val)
  Trapping.update (fun v => v.set cap c')

def cheriSetAddr (cap : AllocVar) (val : Word) : Alloc Unit := cheriSetter .CSetAddr cap val

def cheriSetOffset (cap : AllocVar) (val : Word) : Alloc Unit := cheriSetter .CSetOffset cap val

def cheriSetBoundsExact (cap : AllocVar) (val : Word) : Alloc Unit :=
  cheriSetter .CSetBoundsExact cap val

/-- The helpers `CHERI_GETTER` makes. -/
def cheriGetter (field : FieldSelect) (cap : AllocVar) : Alloc Word :=
  Trapping.read (fun v => (v.get cap).get field)

def cheriGetAddr (cap : AllocVar) : Alloc Word := cheriGetter .addr cap

def cheriGetLen (cap : AllocVar) : Alloc Word := cheriGetter .len cap

end Alloc

/-- Rounded up to a multiple of `CAP_LEN`. -/
def roundUp (x : Word) : Word := (x + 16 - 1) &&& ~~~(16 - 1)

open Alloc in
/-- **`unique_alloc_init`**: the heap starts at a multiple of `CAP_LEN`. -/
def uniqueAllocInit (heap : Capability) : Alloc Unit := do
  cheriMove .heapCap heap
  let address ← cheriGetAddr .heapCap
  let alignedAddress := roundUp address
  if alignedAddress ≠ address then do
    cheriSetAddr .heapCap alignedAddress
    let diff := alignedAddress - address
    let len ← cheriGetLen .heapCap
    cheriSetBoundsExact .heapCap (len - diff)

open Alloc in
/-- **`unique_alloc`.** -/
def uniqueAlloc (size : Word) : Alloc Unit := do
  let size := roundUp size
  -- allocate from the beginning of the heap
  let heap ← Trapping.read (fun v => v.heapCap)
  cheriMove .dst heap
  cheriSetBoundsExact .dst size
  -- shrink the heap
  cheriSetOffset .heapCap size
  let len ← cheriGetLen .heapCap
  cheriSetBoundsExact .heapCap (len - size)

/-! ## The calls -/

/-- **A call**: the size asked for, `heap_cap` before and after, and what the
caller gets, if it does not trap. -/
structure AllocCall where
  size : Word
  before : Capability
  after : Capability
  region : Option Capability
deriving DecidableEq, Repr

/-- The allocator, call after call. -/
def uniqueAllocator : SyncMachine AllocVars Word AllocCall where
  step v size :=
    match (uniqueAlloc size).exec v with
    | (.ok (), v') => (v', ⟨size, v.heapCap, v'.heapCap, some v'.dst⟩)
    | (.error _, v') => (v', ⟨size, v.heapCap, v'.heapCap, none⟩)

/-- The heap from its first granule on. -/
def alignedHeap (heap : Capability) : Set ℕ :=
  Set.Ico ((heap.address.toNat + 15) / 16 * 16) (heap.base.toNat + heap.length.toNat)

/-- **A call as it should be**: a region of at least the size asked for, at a
granule, inside the heap; or the heap left alone. -/
structure AllocCall.Good (heap : Capability) (call : AllocCall) : Prop where
  large : ∀ c, call.region = some c → call.size.toNat ≤ c.length.toNat
  aligned : ∀ c, call.region = some c → c.base.toNat % 16 = 0
  inside : ∀ c, call.region = some c → c.range.Within heap.range
  kept : call.region = none → call.after = call.before

/-- What a run has given. -/
def regions (calls : List AllocCall) : List ByteRange :=
  calls.filterMap fun call => call.region.map Capability.range

/-- **The allocator hands out disjoint memory**, from the heap it was given
on: every call is as it should be, and the regions and what is left make up
the heap, no byte twice. -/
structure Allocates (heap : Capability) (v : AllocVars) (sizes : List Word) : Prop where
  calls : ∀ call ∈ uniqueAllocator.observe v sizes, call.Good heap
  carved : ∀ n, Carved (alignedHeap heap) (uniqueAllocator.run v (sizes.take n)).heapCap.range
    (regions (uniqueAllocator.observe v (sizes.take n)))

/-- The size rounded up over the integers. -/
def granules (size : Word) : ℕ := (size.toNat + 15) / 16 * 16

/-- **A size the allocator gets wrong**, of a heap that points at its base: one
whose rounding passes the width of a register, where the heap does not, and one
that fits and ends at the top of the address space or past it. -/
def SizeFails (heap : Capability) (size : Word) : Prop :=
  heap.tag = true ∧ heap.offset = 0
    ∧ if 2 ^ 32 ≤ size.toNat + 15 then heap.base.toNat + heap.length.toNat < 2 ^ 32
      else granules size ≤ heap.length.toNat ∧ 2 ^ 32 ≤ heap.base.toNat + granules size

instance (heap : Capability) (size : Word) : Decidable (SizeFails heap size) :=
  inferInstanceAs (Decidable (_ ∧ _ ∧ ite _ _ _))

/-- **A heap the allocator starts well on**: one that points at its base, or one
that is no longer than what is to be skipped from its address to a granule. -/
def HeapFits (heap : Capability) : Prop :=
  heap.offset = 0
    ∨ heap.base.toNat ≤ heap.address.toNat
      ∧ heap.address.toNat + heap.length.toNat = (heap.address.toNat + 15) / 16 * 16

instance (heap : Capability) : Decidable (HeapFits heap) := inferInstanceAs (Decidable (_ ∨ _))

/-! ## What a derivation gives -/

theorem toNat_roundUp (x : Word) : (roundUp x).toNat = (x.toNat + 15) % 2 ^ 32 / 16 * 16 := by
  rw [roundUp, show (~~~(16 - 1) : Word) = BitVec.allOnes 32 <<< 4 by decide]
  exact Masks.toNat_add_sub_one_and_high x rfl

/-- New bounds, at the address and inside the old ones. -/
theorem derive_setBounds_eq_ok_iff {c c' : Capability} {val : Word} :
    derive .CSetBoundsExact c val = .ok c' ↔
      (c.tag = true ∧ c.InBounds c.address val
        ∧ (ByteRange.mk c.address.toNat val.toNat).Within c.range)
      ∧ { c with base := c.address, length := val, offset := 0 } = c' := by
  unfold derive
  rw [bind_eq_ok]
  constructor
  · rintro ⟨d, hd, hc⟩
    obtain ⟨htag, hin, rfl⟩ := setBounds_ok hd
    split at hc
    · rename_i hw
      exact ⟨⟨htag, hin, hw⟩, Except.ok.inj hc⟩
    · cases hc
  · rintro ⟨⟨htag, hin, hw⟩, rfl⟩
    exact ⟨_, setBounds_of_inBounds htag hin, if_pos hw⟩

/-- A new offset. -/
theorem derive_setOffset (c : Capability) (val : Word) :
    derive .CSetOffset c val = .ok { c with offset := val } :=
  if_pos (ByteRange.Within.refl _)

/-! ## What a call does -/

namespace Alloc

variable {v : AllocVars} {Q : Unit → AllocVars → Prop} {E : AllocVars → Prop}

/-- A helper that derives leaves the variable alone when it traps. -/
theorem wp_cheriSetter {op : ModifyOp} {x : AllocVar} {val : Word} :
    Trapping.wp (cheriSetter op x val) Q E v ↔
      (∀ c, derive op (v.get x) val = .ok c → Q () (v.set x c))
        ∧ ∀ e, derive op (v.get x) val = .error e → E v := by
  unfold cheriSetter
  rw [Trapping.wp_bind, Trapping.wp_read, Trapping.wp_bind, Trapping.wp_lift]
  exact Iff.rfl

/-- **What a call does**: it gives a piece and shrinks the heap, or traps before
the heap is touched, or between the two steps. -/
theorem wp_uniqueAlloc {size : Word} :
    Trapping.wp (uniqueAlloc size) Q E v ↔
      (∀ region, derive .CSetBoundsExact v.heapCap (roundUp size) = .ok region →
        (∀ rest, derive .CSetBoundsExact { v.heapCap with offset := roundUp size }
            (v.heapCap.length - roundUp size) = .ok rest → Q () ⟨rest, region⟩)
          ∧ ∀ e, derive .CSetBoundsExact { v.heapCap with offset := roundUp size }
            (v.heapCap.length - roundUp size) = .error e →
              E ⟨{ v.heapCap with offset := roundUp size }, region⟩)
      ∧ ∀ e, derive .CSetBoundsExact v.heapCap (roundUp size) = .error e →
          E ⟨v.heapCap, v.heapCap⟩ := by
  unfold uniqueAlloc
  simp only [Trapping.wp_bind, Trapping.wp_read, cheriMove, Trapping.wp_update,
    cheriSetBoundsExact, cheriSetOffset, cheriGetLen, cheriGetter, wp_cheriSetter,
    AllocVars.get, AllocVars.set, derive_setOffset, Capability.get, Except.ok.injEq,
    reduceCtorEq, false_imp_iff, implies_true, and_true, forall_eq']

variable {heap : Capability} {size : Word}

/-- The piece a call cuts, of a heap that starts at its base. -/
theorem derive_region_iff (hoff : heap.offset = 0) {region : Capability} :
    derive .CSetBoundsExact heap (roundUp size) = .ok region ↔
      (heap.tag = true
        ∧ (heap.base.toNat + (roundUp size).toNat) % 2 ^ 32
            ≤ (heap.base.toNat + heap.length.toNat) % 2 ^ 32
        ∧ ((roundUp size).toNat = 0 ∨ (roundUp size).toNat ≤ heap.length.toNat))
      ∧ { heap with length := roundUp size } = region := by
  have haddr : heap.address = heap.base := by
    rw [Capability.address, hoff]
    exact BitVec.add_zero _
  have hresult : { heap with base := heap.base, length := roundUp size, offset := 0 }
      = { heap with length := roundUp size } := by
    rw [← hoff]
  rw [derive_setBounds_eq_ok_iff, haddr, hresult, Capability.inBounds_iff, ByteRange.within_iff]
  refine and_congr_left fun _ => and_congr_right fun _ => ?_
  simp only [ByteRange.top, Capability.range_base, Capability.range_length]
  omega

/-- What is left of it, behind the piece: nothing, where its address wraps. -/
theorem derive_rest_iff {rest : Capability} (hle : (roundUp size).toNat ≤ heap.length.toNat) :
    derive .CSetBoundsExact { heap with offset := roundUp size }
        (heap.length - roundUp size) = .ok rest ↔
      (heap.tag = true ∧ heap.base.toNat + (roundUp size).toNat < 2 ^ 32)
      ∧ { heap with
          base := heap.base + roundUp size
          length := heap.length - roundUp size
          offset := 0 } = rest := by
  have hs := (roundUp size).isLt
  have hb := heap.base.isLt
  have hlen : (heap.length - roundUp size).toNat = heap.length.toNat - (roundUp size).toNat :=
    BitVec.toNat_sub_of_le (BitVec.le_def.2 hle)
  have haddr : (heap.base + roundUp size).toNat
      = (heap.base.toNat + (roundUp size).toNat) % 2 ^ 32 := BitVec.toNat_add _ _
  rw [derive_setBounds_eq_ok_iff]
  show (heap.tag = true ∧ Capability.InBounds { heap with offset := roundUp size }
      (heap.base + roundUp size) (heap.length - roundUp size)
      ∧ (ByteRange.mk (heap.base + roundUp size).toNat _).Within heap.range) ∧ _ ↔ _
  rw [Capability.inBounds_iff, ByteRange.within_iff, haddr, hlen]
  refine and_congr_left fun _ => and_congr_right fun _ => ?_
  simp only [ByteRange.top, Capability.range_base, Capability.range_length]
  omega

/-- **A call on a size that does not fail** cuts the granules asked for off the
heap, or leaves it alone. -/
theorem wp_uniqueAlloc_of_fits (hoff : v.heapCap.offset = 0) (hfits : ¬ SizeFails v.heapCap size) :
    Trapping.wp (uniqueAlloc size)
      (fun _ v' => size.toNat ≤ granules size ∧ granules size ≤ v.heapCap.length.toNat
        ∧ v'.dst.range = v.heapCap.range.take (granules size)
        ∧ v'.heapCap.range = v.heapCap.range.drop (granules size) ∧ v'.heapCap.offset = 0)
      (fun v' => v'.heapCap = v.heapCap) v := by
  have hb := v.heapCap.base.isLt
  have hl := v.heapCap.length.isLt
  have hround := toNat_roundUp size
  rw [wp_uniqueAlloc]
  refine ⟨fun region hregion => ?_, fun e _ => rfl⟩
  obtain ⟨⟨htag, hin, hle⟩, rfl⟩ := (derive_region_iff hoff).1 hregion
  -- a piece is given, so the rounding has not wrapped and the piece ends below the top
  unfold SizeFails granules at hfits
  have hsize : size.toNat + 15 < 2 ^ 32 := by
    by_contra hwrap
    rw [if_pos (Nat.le_of_not_lt hwrap)] at hfits
    refine hfits ⟨htag, hoff, ?_⟩
    omega
  rw [if_neg (Nat.not_le.2 hsize)] at hfits
  rw [Nat.mod_eq_of_lt hsize] at hround
  have hle : (roundUp size).toNat ≤ v.heapCap.length.toNat := by omega
  have hend : v.heapCap.base.toNat + (roundUp size).toNat < 2 ^ 32 := by
    by_contra hwrap
    exact hfits ⟨htag, hoff, hround ▸ hle, hround ▸ Nat.le_of_not_lt hwrap⟩
  refine ⟨fun rest hrest => ?_, fun e he => ?_⟩
  · obtain ⟨-, rfl⟩ := (derive_rest_iff hle).1 hrest
    refine ⟨?_, ?_, ?_, ?_, rfl⟩
    · unfold granules
      omega
    · rw [granules, ← hround]
      exact hle
    · exact ByteRange.ext rfl hround
    · refine ByteRange.ext ?_ ?_
      · show (v.heapCap.base + roundUp size).toNat = v.heapCap.base.toNat + granules size
        rw [BitVec.toNat_add, Nat.mod_eq_of_lt hend, hround]
        rfl
      · show (v.heapCap.length - roundUp size).toNat = v.heapCap.length.toNat - granules size
        rw [BitVec.toNat_sub_of_le (BitVec.le_def.2 hle), hround]
        rfl
  · have hok := (@derive_rest_iff v.heapCap size _ hle).2 ⟨⟨htag, hend⟩, rfl⟩
    rw [he] at hok
    cases hok

/-- **A call on a size that fails** gives too little, or changes the heap and
traps. -/
theorem wp_uniqueAlloc_of_fails (hfails : SizeFails v.heapCap size) :
    Trapping.wp (uniqueAlloc size) (fun _ v' => v'.dst.length.toNat < size.toNat)
      (fun v' => v'.heapCap ≠ v.heapCap) v := by
  have hb := v.heapCap.base.isLt
  have hl := v.heapCap.length.isLt
  have hround := toNat_roundUp size
  obtain ⟨htag, hoff, hfails⟩ := hfails
  unfold granules at hfails
  -- the piece is given in both cases
  have hgiven : (v.heapCap.base.toNat + (roundUp size).toNat) % 2 ^ 32
        ≤ (v.heapCap.base.toNat + v.heapCap.length.toNat) % 2 ^ 32
      ∧ (roundUp size).toNat ≤ v.heapCap.length.toNat
      ∧ ((roundUp size).toNat < size.toNat
        ∨ 2 ^ 32 ≤ v.heapCap.base.toNat + (roundUp size).toNat) := by
    have hs := size.isLt
    split at hfails
    · omega
    · omega
  obtain ⟨hin, hle, hwrong⟩ := hgiven
  rw [wp_uniqueAlloc]
  refine ⟨fun region hregion => ⟨fun rest hrest => ?_, fun e he heq => ?_⟩, fun e he => ?_⟩
  · obtain ⟨-, rfl⟩ := (derive_region_iff hoff).1 hregion
    obtain ⟨⟨-, hend⟩, -⟩ := (derive_rest_iff hle).1 hrest
    exact hwrong.resolve_right (Nat.not_le.2 hend)
  · -- the offset that is left behind is not zero
    have hzero : roundUp size = 0 := (congrArg Capability.offset heq).trans hoff
    have hok := (@derive_rest_iff v.heapCap size _ hle).2
      ⟨⟨htag, by rw [hzero]; exact hb⟩, rfl⟩
    rw [he] at hok
    cases hok
  · have hok := (derive_region_iff hoff).2 ⟨⟨htag, hin, Or.inr hle⟩, rfl⟩
    rw [he] at hok
    cases hok

/-! ### The start -/

/-- A new address that keeps the tag is in bounds. -/
theorem derive_setAddr_ok {c c' : Capability} {val : Word} (h : derive .CSetAddr c val = .ok c')
    (htag : c'.tag = true) :
    c.base.toNat ≤ val.toNat ∧ val.toNat - c.base.toNat < c.length.toNat
      ∧ c' = { c with offset := val - c.base } := by
  unfold derive at h
  obtain ⟨d, hd, hc⟩ := bind_eq_ok.1 h
  have hdc : d = c' := by
    split at hc
    · exact Except.ok.inj hc
    · cases hc
  subst hdc
  obtain ⟨-, hd⟩ := ite_error_eq_ok.1 hd
  split at hd
  · obtain rfl := Except.ok.inj hd
    cases htag
  · rename_i hbase
    obtain rfl := Except.ok.inj hd
    obtain ⟨hold, hlt⟩ := Bool.and_eq_true_iff.1 htag
    have hle : c.base ≤ val := BitVec.not_lt.1 hbase
    have hlt := BitVec.lt_def.1 (of_decide_eq_true hlt)
    rw [BitVec.toNat_sub_of_le hle] at hlt
    exact ⟨BitVec.le_def.1 hle, hlt, congrArg
      (fun t => ({ c with tag := t, offset := val - c.base } : Capability)) (htag.trans hold.symm)⟩

/-- **The start**: `heap_cap` is the heap where it points at a granule, and
otherwise what is behind the next one. -/
theorem wp_uniqueAllocInit :
    Trapping.wp (uniqueAllocInit heap)
      (fun _ v' => (heap.address.toNat % 16 = 0 ∧ v'.heapCap = heap)
        ∨ (heap.address.toNat % 16 ≠ 0
          ∧ heap.base.toNat ≤ (roundUp heap.address).toNat
          ∧ (roundUp heap.address).toNat - heap.base.toNat < heap.length.toNat
          ∧ v'.heapCap.offset = 0 ∧ v'.heapCap.base = roundUp heap.address
          ∧ v'.heapCap.length = heap.length - (roundUp heap.address - heap.address)
          ∧ v'.heapCap.range.Within heap.range))
      (fun _ => True) v := by
  have hround := toNat_roundUp heap.address
  have ha := heap.address.isLt
  unfold uniqueAllocInit
  simp only [Trapping.wp_bind, Trapping.wp_read, cheriMove, Trapping.wp_update, cheriGetAddr,
    cheriGetter, Trapping.wp_ite, Trapping.wp_pure, cheriSetAddr, cheriSetBoundsExact, cheriGetLen,
    wp_cheriSetter, AllocVars.get, AllocVars.set, Capability.get]
  rw [show heap.base + heap.offset = heap.address from rfl]
  refine ⟨fun hne => ⟨fun c hc => ⟨fun c' hc' => Or.inr ⟨?_, ?_⟩, fun _ _ => trivial⟩,
    fun _ _ => trivial⟩, fun hsame => Or.inl ⟨?_, trivial⟩⟩
  · -- an address at a granule is rounded up to itself
    intro hmod
    refine hne (BitVec.eq_of_toNat_eq ?_)
    rw [hround]
    omega
  · obtain ⟨⟨htag, -, hwithin⟩, rfl⟩ := derive_setBounds_eq_ok_iff.1 hc'
    obtain ⟨hle, hlt, rfl⟩ := derive_setAddr_ok hc htag
    have hnew : heap.base + (roundUp heap.address - heap.base) = roundUp heap.address := by
      rw [BitVec.add_comm, BitVec.sub_add_cancel]
    exact ⟨hle, hlt, rfl, hnew, rfl, hwithin⟩
  · have hval := congrArg BitVec.toNat (not_not.1 hsame)
    rw [hround] at hval
    omega

end Alloc

/-! ## Runs -/

/-- **Between two calls**: the heap starts at its base, at a granule, and the
pieces given and what is left are the whole. -/
structure Ready (whole : Set ℕ) (pieces : List ByteRange) (v : AllocVars) : Prop where
  offset : v.heapCap.offset = 0
  aligned : v.heapCap.base.toNat % 16 = 0
  carved : Carved whole v.heapCap.range pieces

section

variable {heap : Capability} {whole : Set ℕ} {pieces : List ByteRange} {v : AllocVars}
  {size : Word}

/-- What a call is known to do, in the words of the machine. -/
theorem uniqueAllocator_step_cases {Q : Unit → AllocVars → Prop} {E : AllocVars → Prop}
    (h : Trapping.wp (uniqueAlloc size) Q E v) :
    ∃ v', uniqueAllocator.next v size = v'
      ∧ (uniqueAllocator.obs v size = ⟨size, v.heapCap, v'.heapCap, some v'.dst⟩ ∧ Q () v'
        ∨ uniqueAllocator.obs v size = ⟨size, v.heapCap, v'.heapCap, none⟩ ∧ E v') := by
  unfold Trapping.wp at h
  unfold SyncMachine.next SyncMachine.obs uniqueAllocator
  rcases hx : (uniqueAlloc size).exec v with ⟨e | _, v'⟩
  · rw [hx] at h
    exact ⟨v', by simp only [hx], Or.inr ⟨by simp only [hx], h⟩⟩
  · rw [hx] at h
    exact ⟨v', by simp only [hx], Or.inl ⟨by simp only [hx], h⟩⟩

/-- A call that gives nothing and keeps the heap is as it should be. -/
theorem AllocCall.good_of_none {call : AllocCall} (hnone : call.region = none)
    (hkept : call.after = call.before) : call.Good heap := by
  have hsome : ∀ c, call.region ≠ some c := by
    intro c hc
    rw [hnone] at hc
    cases hc
  exact ⟨fun c hc => absurd hc (hsome c), fun c hc => absurd hc (hsome c),
    fun c hc => absurd hc (hsome c), fun _ => hkept⟩

/-- **One call** on a size that does not fail. -/
theorem Ready.step (h : Ready whole pieces v) (hwhole : whole ⊆ heap.range.bytes)
    (hfits : ¬ SizeFails v.heapCap size) :
    (uniqueAllocator.obs v size).Good heap
      ∧ Ready whole (pieces ++ regions [uniqueAllocator.obs v size])
          (uniqueAllocator.next v size) := by
  obtain ⟨v', hnext, ⟨hobs, hsize, hle, hregion, hrest, hoff⟩ | ⟨hobs, hkept⟩⟩ :=
    uniqueAllocator_step_cases (Alloc.wp_uniqueAlloc_of_fits h.offset hfits)
  · rw [hnext, hobs]
    have hcut := h.carved.cut hle
    rw [← hregion, ← hrest] at hcut
    have hbase : v'.dst.base.toNat = v.heapCap.base.toNat := congrArg ByteRange.base hregion
    have hlen : v'.dst.length.toNat = granules size := congrArg ByteRange.length hregion
    have hnext : v'.heapCap.base.toNat = v.heapCap.base.toNat + granules size :=
      congrArg ByteRange.base hrest
    refine ⟨⟨?_, ?_, ?_, fun hc => by cases hc⟩, hoff, ?_, hcut⟩
    · rintro c ⟨⟩
      exact hlen ▸ hsize
    · rintro c ⟨⟩
      exact hbase ▸ h.aligned
    · rintro c ⟨⟩
      exact (hcut.piece_subset (List.mem_append_right _ (List.mem_singleton_self _))).trans hwhole
    · have := h.aligned
      show v'.heapCap.base.toNat % 16 = 0
      rw [hnext, granules]
      omega
  · rw [hnext, hobs]
    refine ⟨AllocCall.good_of_none rfl hkept, ?_⟩
    show Ready whole (pieces ++ []) v'
    rw [List.append_nil]
    exact ⟨hkept ▸ h.offset, hkept ▸ h.aligned, hkept ▸ h.carved⟩

/-- A size that fails is not answered as it should be. -/
theorem SizeFails.not_good (hfails : SizeFails v.heapCap size) :
    ¬ (uniqueAllocator.obs v size).Good heap := by
  obtain ⟨v', -, ⟨hobs, hsmall⟩ | ⟨hobs, hchanged⟩⟩ :=
    uniqueAllocator_step_cases (Alloc.wp_uniqueAlloc_of_fails hfails)
  · rw [hobs]
    exact fun hgood => absurd (hgood.large _ rfl) (Nat.not_le.2 hsmall)
  · rw [hobs]
    exact fun hgood => hchanged (hgood.kept rfl)

/-- **A run on sizes that do not fail.** -/
theorem Ready.run (h : Ready whole pieces v) (hwhole : whole ⊆ heap.range.bytes)
    {sizes : List Word}
    (hfits : uniqueAllocator.Along (fun v size => ¬ SizeFails v.heapCap size) v sizes) :
    (∀ call ∈ uniqueAllocator.observe v sizes, call.Good heap)
      ∧ Ready whole (pieces ++ regions (uniqueAllocator.observe v sizes))
          (uniqueAllocator.run v sizes) := by
  induction sizes generalizing v pieces with
  | nil =>
    refine ⟨fun call hcall => absurd hcall List.not_mem_nil, ?_⟩
    show Ready whole (pieces ++ []) v
    rw [List.append_nil]
    exact h
  | cons size sizes ih =>
    obtain ⟨hgood, hnext⟩ := h.step hwhole hfits.1
    obtain ⟨hcalls, hready⟩ := ih hnext hfits.2
    refine ⟨?_, ?_⟩
    · rw [SyncMachine.observe_cons]
      exact List.forall_mem_cons.2 ⟨hgood, hcalls⟩
    · rw [SyncMachine.observe_cons, SyncMachine.run_cons]
      have hsplit : regions (uniqueAllocator.obs v size
            :: uniqueAllocator.observe (uniqueAllocator.next v size) sizes)
          = regions [uniqueAllocator.obs v size]
            ++ regions (uniqueAllocator.observe (uniqueAllocator.next v size) sizes) :=
        List.filterMap_append (l := [_])
      rw [hsplit, ← List.append_assoc]
      exact hready

/-- A run whose calls are as they should be is one on sizes that do not
fail. -/
theorem Ready.along_of_good (h : Ready whole pieces v) (hwhole : whole ⊆ heap.range.bytes)
    {sizes : List Word} (hgood : ∀ call ∈ uniqueAllocator.observe v sizes, call.Good heap) :
    uniqueAllocator.Along (fun v size => ¬ SizeFails v.heapCap size) v sizes := by
  induction sizes generalizing v pieces with
  | nil => trivial
  | cons size sizes ih =>
    rw [SyncMachine.observe_cons, List.forall_mem_cons] at hgood
    have hfits : ¬ SizeFails v.heapCap size := fun hfails => hfails.not_good hgood.1
    exact ⟨hfits, ih (h.step hwhole hfits).2 hgood.2⟩

end

/-! ### The start of a run -/

section

variable {heap : Capability} {v₀ v : AllocVars}

theorem address_of_offset_zero (hoff : heap.offset = 0) : heap.address = heap.base := by
  rw [Capability.address, hoff]
  exact BitVec.add_zero _

theorem offset_zero_of_address (h : heap.address.toNat = heap.base.toNat) : heap.offset = 0 := by
  have h' : heap.base + heap.offset = heap.base + 0 :=
    (BitVec.eq_of_toNat_eq h).trans (BitVec.add_zero _).symm
  exact (BitVec.add_right_inj _).1 h'

/-- What is left of the length behind what is skipped. The start of the next
granule may wrap; what is skipped does not. -/
theorem toNat_length_sub_skipped (heap : Capability) :
    (heap.length - (roundUp heap.address - heap.address)).toNat
      = (2 ^ 32 - ((heap.address.toNat + 15) / 16 * 16 - heap.address.toNat)
          + heap.length.toNat) % 2 ^ 32 := by
  have ha := heap.address.isLt
  have hdiff : (roundUp heap.address - heap.address).toNat
      = (heap.address.toNat + 15) / 16 * 16 - heap.address.toNat := by
    rw [BitVec.toNat_sub, toNat_roundUp]
    omega
  rw [BitVec.toNat_sub, hdiff]

/-- **A run starts well only on a heap that fits.** -/
theorem heapFits_of_carved (hinit : (uniqueAllocInit heap).exec v₀ = (.ok (), v))
    (h : Carved (alignedHeap heap) v.heapCap.range []) : HeapFits heap := by
  have hstart := @Alloc.wp_uniqueAllocInit v₀ heap
  unfold Trapping.wp at hstart
  rw [hinit] at hstart
  have hb := heap.base.isLt
  have hl := heap.length.isLt
  have ha := heap.address.isLt
  have hround := toNat_roundUp heap.address
  -- what is left is the heap from its first granule on, and nothing else
  have hcov : ∀ x, ((heap.address.toNat + 15) / 16 * 16 ≤ x
        ∧ x < heap.base.toNat + heap.length.toNat)
      ↔ v.heapCap.base.toNat ≤ x ∧ x < v.heapCap.base.toNat + v.heapCap.length.toNat := by
    intro x
    have := h.covers x
    simp only [List.not_mem_nil, false_and, exists_false, or_false] at this
    exact this
  by_contra hfits
  obtain ⟨hoff, hskip⟩ := not_or.1 hfits
  have hne : heap.address.toNat ≠ heap.base.toNat := fun he => hoff (offset_zero_of_address he)
  rcases hstart with ⟨hmod, hv⟩ | ⟨hmod, hle, hlt, hvoff, hvbase, hvlen, hwithin⟩
  · rw [hv] at hcov
    have h1 := hcov heap.base.toNat
    have h2 := hcov heap.address.toNat
    omega
  · have hlen := (congrArg BitVec.toNat hvlen).trans (toNat_length_sub_skipped heap)
    rw [hvbase, hlen, hround] at hcov
    rw [hround] at hle hlt
    unfold Capability.range at hwithin
    rw [ByteRange.within_iff, hvbase, hlen, hround] at hwithin
    simp only [ByteRange.top] at hwithin
    have h1 := hcov ((heap.address.toNat + 15) % 2 ^ 32 / 16 * 16)
    have h2 := hcov ((heap.address.toNat + 15) / 16 * 16)
    have h3 := hcov (heap.base.toNat + heap.length.toNat - 1)
    by_cases hwrap : 2 ^ 32 ≤ heap.address.toNat + 15
    · omega
    · rw [Nat.mod_eq_of_lt (Nat.lt_of_not_le hwrap)] at *
      omega

/-- A heap that fits is started well: it is ready, from its first granule on,
or there is nothing in it. -/
theorem ready_of_heapFits (hinit : (uniqueAllocInit heap).exec v₀ = (.ok (), v))
    (hfits : HeapFits heap) :
    Ready (alignedHeap heap) [] v
      ∨ v.heapCap = heap ∧ heap.offset ≠ 0 ∧ heap.length.toNat = 0
        ∧ heap.base.toNat ≤ heap.address.toNat := by
  have hstart := @Alloc.wp_uniqueAllocInit v₀ heap
  unfold Trapping.wp at hstart
  rw [hinit] at hstart
  have ha := heap.address.isLt
  have hl := heap.length.isLt
  have hb := heap.base.isLt
  have hround := toNat_roundUp heap.address
  rcases hstart with ⟨hmod, hv⟩ | ⟨hmod, hle, hlt, hvoff, hvbase, hvlen, -⟩
  · by_cases hoff : heap.offset = 0
    · have hbase := congrArg BitVec.toNat (address_of_offset_zero hoff)
      have hbytes : heap.range.bytes = alignedHeap heap := by
        show Set.Ico _ _ = Set.Ico _ _
        congr 1
        rw [Capability.range_base]
        omega
      left
      refine ⟨hv ▸ hoff, ?_, ?_⟩
      · rw [hv, ← hbase]
        exact hmod
      · rw [hv, ← hbytes]
        exact Carved.start _
    · obtain ⟨hle, hskip⟩ := hfits.resolve_left hoff
      exact Or.inr ⟨hv, hoff, by omega, hle⟩
  · left
    have hlen := (congrArg BitVec.toNat hvlen).trans (toNat_length_sub_skipped heap)
    rw [hround] at hle hlt
    have hbase : v.heapCap.base.toNat = (heap.address.toNat + 15) % 2 ^ 32 / 16 * 16 := by
      rw [hvbase, hround]
    have hfits' : heap.address.toNat = heap.base.toNat
        ∨ heap.base.toNat ≤ heap.address.toNat
          ∧ heap.address.toNat + heap.length.toNat = (heap.address.toNat + 15) / 16 * 16 :=
      hfits.imp_left fun hoff => congrArg BitVec.toNat (address_of_offset_zero hoff)
    have hbytes : v.heapCap.range.bytes = alignedHeap heap := by
      ext x
      rw [ByteRange.mem_bytes, Capability.range_base, Capability.range_length, hbase, hlen]
      show _ ↔ (heap.address.toNat + 15) / 16 * 16 ≤ x ∧ x < _
      omega
    exact ⟨hvoff, by rw [hbase]; omega, hbytes ▸ Carved.start _⟩

/-- Nothing is cut off a heap with nothing in it. -/
theorem spent_step {size : Word} (hoff : v.heapCap.offset ≠ 0) (hlen : v.heapCap.length.toNat = 0)
    (hle : v.heapCap.base.toNat ≤ v.heapCap.address.toNat) :
    (uniqueAllocator.next v size).heapCap = v.heapCap
      ∧ uniqueAllocator.obs v size = ⟨size, v.heapCap, v.heapCap, none⟩ := by
  have hwp : Trapping.wp (uniqueAlloc size) (fun _ _ => False)
      (fun v' => v'.heapCap = v.heapCap) v := by
    rw [Alloc.wp_uniqueAlloc]
    refine ⟨fun region hregion => ?_, fun _ _ => rfl⟩
    obtain ⟨⟨-, hin, hwithin⟩, -⟩ := derive_setBounds_eq_ok_iff.1 hregion
    rw [Capability.inBounds_iff] at hin
    rw [ByteRange.within_iff] at hwithin
    simp only [ByteRange.top, Capability.range_base, Capability.range_length] at hwithin
    have ha := v.heapCap.address.isLt
    have hne : v.heapCap.address.toNat ≠ v.heapCap.base.toNat :=
      fun he => hoff (offset_zero_of_address he)
    omega
  obtain ⟨v', hnext, ⟨-, hgiven⟩ | ⟨hobs, hkept⟩⟩ := uniqueAllocator_step_cases hwp
  · exact hgiven.elim
  · rw [hnext, hobs, hkept]
    exact ⟨rfl, rfl⟩

/-- A run from a heap with nothing in it. -/
theorem spent_run {c : Capability} {sizes : List Word} (hv : v.heapCap = c) (hoff : c.offset ≠ 0)
    (hlen : c.length.toNat = 0) (hle : c.base.toNat ≤ c.address.toNat) :
    (uniqueAllocator.run v sizes).heapCap = c
      ∧ (∀ call ∈ uniqueAllocator.observe v sizes, call.region = none ∧ call.after = call.before)
      ∧ uniqueAllocator.Along (fun v size => ¬ SizeFails v.heapCap size) v sizes := by
  induction sizes generalizing v with
  | nil => exact ⟨hv, fun call hcall => absurd hcall List.not_mem_nil, trivial⟩
  | cons size sizes ih =>
    subst hv
    obtain ⟨hnext, hobs⟩ := @spent_step v size hoff hlen hle
    obtain ⟨hrun, hcalls, halong⟩ := ih hnext
    refine ⟨hrun, ?_, fun hfails => hoff hfails.2.1, halong⟩
    rw [SyncMachine.observe_cons, List.forall_mem_cons, hobs]
    exact ⟨⟨rfl, rfl⟩, hcalls⟩

theorem regions_eq_nil {calls : List AllocCall} (h : ∀ call ∈ calls, call.region = none) :
    regions calls = [] :=
  List.filterMap_eq_nil_iff.2 fun call hcall => by rw [h call hcall]; rfl

end

/-- **The allocator hands out disjoint memory exactly from a heap that fits, and
as long as no size fails.** -/
theorem uniqueAlloc_allocates_iff (heap : Capability) (v₀ v : AllocVars) (sizes : List Word)
    (hinit : (uniqueAllocInit heap).exec v₀ = (.ok (), v)) :
    Allocates heap v sizes ↔
      HeapFits heap
        ∧ uniqueAllocator.Along (fun v size => ¬ SizeFails v.heapCap size) v sizes := by
  have hwhole : HeapFits heap → alignedHeap heap ⊆ heap.range.bytes := by
    intro hfits
    have hle : heap.base.toNat ≤ heap.address.toNat := by
      rcases hfits with hoff | ⟨hle, -⟩
      · exact (congrArg BitVec.toNat (address_of_offset_zero hoff)).ge
      · exact hle
    refine Set.Ico_subset_Ico_left ?_
    rw [Capability.range_base]
    omega
  constructor
  · intro h
    have hfits := heapFits_of_carved hinit (h.carved 0)
    refine ⟨hfits, ?_⟩
    rcases ready_of_heapFits hinit hfits with hready | ⟨hv, hoff, hlen, hle⟩
    · exact hready.along_of_good (hwhole hfits) h.calls
    · exact (spent_run hv hoff hlen hle).2.2
  · rintro ⟨hfits, halong⟩
    rcases ready_of_heapFits hinit hfits with hready | ⟨hv, hoff, hlen, hle⟩
    · refine ⟨(hready.run (hwhole hfits) halong).1, fun n => ?_⟩
      rw [← List.take_append_drop n sizes, SyncMachine.along_append] at halong
      exact (hready.run (hwhole hfits) halong.1).2.carved
    · have hrun := fun sizes => @spent_run v heap sizes hv hoff hlen hle
      have hempty : alignedHeap heap = heap.range.bytes := by
        show Set.Ico _ _ = Set.Ico _ _
        rw [Capability.range_base, Capability.range_top, Set.Ico_eq_empty (by omega),
          Set.Ico_eq_empty (by omega)]
      refine ⟨fun call hcall => ?_, fun n => ?_⟩
      · obtain ⟨hnone, hkept⟩ := (hrun sizes).2.1 call hcall
        exact AllocCall.good_of_none hnone hkept
      · rw [(hrun _).1, regions_eq_nil fun call hcall => ((hrun _).2.1 call hcall).1, hempty]
        exact Carved.start _

/-- A heap of 256 bytes, half a granule off. -/
def smallHeap : Capability :=
  { Capability.root with
    base := 0x1008
    length := 0x100 }

/-- What `unique_alloc_init` makes of it. -/
def smallHeapVars : AllocVars where
  heapCap :=
    { Capability.root with
      base := 0x1010
      length := 0xf8 }
  dst := .null

/-- Two calls on it. -/
theorem smallHeap_allocates : Allocates smallHeap smallHeapVars [5, 0x20] :=
  (uniqueAlloc_allocates_iff smallHeap ⟨.null, .null⟩ smallHeapVars [5, 0x20] rfl).2
    (by decide +kernel)

/-- **A size in the last granule of the address space is rounded up to
nothing**, and the call returns. -/
theorem smallHeap_not_allocates_huge :
    (uniqueAllocInit smallHeap).exec ⟨.null, .null⟩ = (.ok (), smallHeapVars)
      ∧ (uniqueAllocator.obs smallHeapVars 0xfffffff8).region
        = some { smallHeapVars.heapCap with length := 0 }
      ∧ ¬ Allocates smallHeap smallHeapVars [0xfffffff8] := by
  refine ⟨rfl, by decide +kernel, fun h => ?_⟩
  have hfails : SizeFails smallHeapVars.heapCap 0xfffffff8 := by decide
  exact hfails.not_good (h.calls _ List.mem_cons_self)

end Proteus
