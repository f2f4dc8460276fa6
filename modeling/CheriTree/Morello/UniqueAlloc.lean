import CheriTree.Carving
import CheriTree.Masks
import CheriTree.SyncMachine
import CheriTree.Morello.Capability

/-!
# The allocator of unique memory at EL1

The port of `unique_alloc` has no traps to rely on. Each of the two bounds it
sets may come back without its tag, and the call tests both; where one of them
has none it returns `-1`. Between the two tests stands the assignment of
`heap_cap`.

So a call is all or nothing unless the first of the two succeeds and the
second does not. Bounds of a large length are exact only at multiples of a
power of two that grows with it: of a heap that is itself exact, what is left
behind a small piece need not be. The piece is then the caller's, `heap_cap`
has lost its tag, and the caller is told that there was nothing to give. The
other way to go wrong is in the rounding, as on the core: a size in the last
granule of the address space is rounded up to nothing.

Which bounds are exact, and to which addresses a capability may be moved, is
not in the sources; `CapEncoding` is a parameter, of which nothing is assumed.
-/

namespace Morello

/-! ## The encoding -/

/-- **What the compressed form of a capability can hold**: which bounds are
exact, and which addresses a capability can be moved to. -/
structure CapEncoding where
  exactBounds : Word → ℕ → Bool
  inReach : Capability → Word → Bool

namespace CapEncoding

variable (enc : CapEncoding)

/-- `cheri_bounds_set_exact`. -/
def cheriBoundsSetExact (c : Capability) (n : Word) : Capability :=
  (Morello.cheriBoundsSetExact c n.toNat).tagIf (enc.exactBounds c.address n.toNat)

/-- `cheri_address_set`. -/
def cheriAddressSet (c : Capability) (a : Word) : Capability :=
  (Morello.cheriAddressSet c a).tagIf (enc.inReach c a)

/-- The bounds `[a, a + n)` can be set on a capability. -/
def CanBound (c : Capability) (a : Word) (n : ℕ) : Prop :=
  c.tag = true ∧ c.isSealed = false ∧ c.InBounds a n ∧ enc.exactBounds a n = true

instance (c : Capability) (a : Word) (n : ℕ) : Decidable (enc.CanBound c a n) :=
  inferInstanceAs (Decidable (_ ∧ _))

theorem cheriBoundsSetExact_tag_iff {c : Capability} {n : Word} :
    (enc.cheriBoundsSetExact c n).tag = true ↔ enc.CanBound c c.address n.toNat := by
  unfold cheriBoundsSetExact CanBound
  rw [Capability.tagIf_tag, Bool.and_eq_true]
  show _ ∧ (c.tag && !c.isSealed && decide (c.InBounds c.address n.toNat)) = true ↔ _
  rw [Bool.and_eq_true, Bool.and_eq_true, decide_eq_true_iff, Bool.not_eq_true']
  tauto

theorem range_cheriBoundsSetExact (c : Capability) (n : Word) :
    (enc.cheriBoundsSetExact c n).range = ⟨c.address.toNat, n.toNat⟩ :=
  Capability.tagIf_range _ _

end CapEncoding

/-! ## The text -/

/-- Rounded up to a multiple of `CAP_LEN`. -/
def roundUp (size : Word) : Word := (size + 16 - 1) &&& ~~~(16 - 1)

/-- **A call**: the size asked for, `heap_cap` before and after, `*dst` and what
is returned. -/
structure AllocCall where
  size : Word
  before : Capability
  after : Capability
  dst : Capability
  ret : ℤ
deriving DecidableEq

/-- **`unique_alloc`.** -/
def uniqueAlloc (enc : CapEncoding) (heapCap : Capability) (size₀ : Word) : AllocCall :=
  let size := roundUp size₀
  let dst := enc.cheriBoundsSetExact heapCap size
  if dst.tag = false then ⟨size₀, heapCap, heapCap, dst, -1⟩
  else
    let heapEnd := heapCap.address + size
    let heapCapLen := cheriLengthGet heapCap - size
    let heapCap' := enc.cheriBoundsSetExact (enc.cheriAddressSet heapCap heapEnd) heapCapLen
    if heapCap'.tag = false then ⟨size₀, heapCap, heapCap', dst, -1⟩
    else ⟨size₀, heapCap, heapCap', dst, 0⟩

/-- The allocator, call after call. -/
def uniqueAllocator (enc : CapEncoding) : SyncMachine Capability Word AllocCall where
  step heapCap size := ((uniqueAlloc enc heapCap size).after, uniqueAlloc enc heapCap size)

/-! ## All or nothing -/

/-- **A call that is all or nothing**: a tagged region of at least the size
asked for, and a heap that still has its tag; or the heap as it was, and
nothing for the caller. -/
structure AllocCall.AllOrNothing (call : AllocCall) : Prop where
  all : call.ret = 0 → call.dst.tag = true ∧ call.size.toNat ≤ call.dst.length
    ∧ call.after.tag = true
  nothing : call.ret = -1 → call.after = call.before ∧ call.dst.tag = false

/-- What a run has given. -/
def regions (calls : List AllocCall) : List ByteRange :=
  (calls.filter fun call => decide (call.ret = 0)).map fun call => call.dst.range

theorem regions_append (xs ys : List AllocCall) :
    regions (xs ++ ys) = regions xs ++ regions ys := by
  rw [regions, List.filter_append, List.map_append]
  rfl

/-- **The allocator is all or nothing** on a run: so is every call, and the
regions given are apart from each other and from the heap. -/
structure AllOrNothing (enc : CapEncoding) (heapCap : Capability) (sizes : List Word) : Prop where
  calls : ∀ call ∈ (uniqueAllocator enc).observe heapCap sizes, call.AllOrNothing
  apart : ∀ n, Separate ((uniqueAllocator enc).run heapCap (sizes.take n)).range
    (regions ((uniqueAllocator enc).observe heapCap (sizes.take n)))

/-- The heap can be shrunk behind a piece of `size` bytes. -/
def CapEncoding.CanShrink (enc : CapEncoding) (heapCap : Capability) (size : Word) : Prop :=
  enc.inReach heapCap (heapCap.address + size) = true
    ∧ enc.CanBound heapCap (heapCap.address + size) (cheriLengthGet heapCap - size).toNat

instance (enc : CapEncoding) (heapCap : Capability) (size : Word) :
    Decidable (enc.CanShrink heapCap size) :=
  inferInstanceAs (Decidable (_ ∧ _))

/-- **A size the allocator gets wrong**: a piece of it can be given, but its
rounding has wrapped, or the heap cannot be shrunk behind it. -/
def SizeFails (enc : CapEncoding) (heapCap : Capability) (size : Word) : Prop :=
  enc.CanBound heapCap heapCap.address (roundUp size).toNat
    ∧ (2 ^ 64 ≤ size.toNat + 15 ∨ ¬ enc.CanShrink heapCap (roundUp size))

instance (enc : CapEncoding) (heapCap : Capability) (size : Word) :
    Decidable (SizeFails enc heapCap size) :=
  inferInstanceAs (Decidable (_ ∧ _))

/-! ## What a call does -/

section

variable {enc : CapEncoding} {heapCap : Capability} {size : Word}

theorem toNat_roundUp (x : Word) : (roundUp x).toNat = (x.toNat + 15) % 2 ^ 64 / 16 * 16 := by
  rw [roundUp, show (~~~(16 - 1) : Word) = BitVec.allOnes 64 <<< 4 by decide]
  exact Masks.toNat_add_sub_one_and_high x rfl

theorem cheriAddressSet_address (c : Capability) (a : Word) :
    (enc.cheriAddressSet c a).address = a := by
  unfold CapEncoding.cheriAddressSet Morello.cheriAddressSet Capability.tagIf
  split <;> split <;> rfl

theorem cheriAddressSet_isSealed (c : Capability) (a : Word) :
    (enc.cheriAddressSet c a).isSealed = c.isSealed := by
  unfold CapEncoding.cheriAddressSet Morello.cheriAddressSet Capability.tagIf
  split <;> split <;> rfl

/-- The heap shrunk has its tag where it can be shrunk. -/
theorem shrunk_tag_iff :
    (enc.cheriBoundsSetExact (enc.cheriAddressSet heapCap (heapCap.address + size))
      (cheriLengthGet heapCap - size)).tag = true ↔ enc.CanShrink heapCap size := by
  rw [enc.cheriBoundsSetExact_tag_iff, cheriAddressSet_address]
  unfold CapEncoding.CanBound CapEncoding.CanShrink CapEncoding.CanBound Capability.InBounds
  rw [cheriAddressSet_isSealed, CapEncoding.cheriAddressSet, Capability.tagIf_tag,
    Capability.tagIf_base, Capability.tagIf_length, Morello.cheriAddressSet, Capability.tagIf_tag,
    Capability.tagIf_base, Capability.tagIf_length]
  simp only [Bool.and_eq_true, Bool.not_eq_true']
  tauto

theorem uniqueAlloc_size : (uniqueAlloc enc heapCap size).size = size := by
  unfold uniqueAlloc
  simp only
  split
  · rfl
  · split <;> rfl

theorem uniqueAlloc_before : (uniqueAlloc enc heapCap size).before = heapCap := by
  unfold uniqueAlloc
  simp only
  split
  · rfl
  · split <;> rfl

/-- **A call that gives nothing** leaves the heap as it was. -/
theorem uniqueAlloc_of_not_canBound
    (h : ¬ enc.CanBound heapCap heapCap.address (roundUp size).toNat) :
    (uniqueAlloc enc heapCap size).ret = -1
      ∧ (uniqueAlloc enc heapCap size).after = heapCap
      ∧ (uniqueAlloc enc heapCap size).dst.tag = false := by
  have htag : (enc.cheriBoundsSetExact heapCap (roundUp size)).tag = false := by
    rw [← Bool.not_eq_true, enc.cheriBoundsSetExact_tag_iff]
    exact h
  unfold uniqueAlloc
  simp only
  rw [if_pos htag]
  exact ⟨rfl, rfl, htag⟩

/-- **A call whose piece can be given**, and whether the heap can be shrunk
behind it. -/
theorem uniqueAlloc_of_canBound
    (h : enc.CanBound heapCap heapCap.address (roundUp size).toNat) :
    (uniqueAlloc enc heapCap size).dst.tag = true
      ∧ (uniqueAlloc enc heapCap size).dst.range = ⟨heapCap.address.toNat, (roundUp size).toNat⟩
      ∧ (uniqueAlloc enc heapCap size).after.range = ⟨(heapCap.address + roundUp size).toNat,
          (cheriLengthGet heapCap - roundUp size).toNat⟩
      ∧ if enc.CanShrink heapCap (roundUp size) then
          (uniqueAlloc enc heapCap size).ret = 0
            ∧ (uniqueAlloc enc heapCap size).after.tag = true
        else (uniqueAlloc enc heapCap size).ret = -1 := by
  have htag : (enc.cheriBoundsSetExact heapCap (roundUp size)).tag = true :=
    enc.cheriBoundsSetExact_tag_iff.2 h
  have hrange := enc.range_cheriBoundsSetExact
    (enc.cheriAddressSet heapCap (heapCap.address + roundUp size))
    (cheriLengthGet heapCap - roundUp size)
  rw [cheriAddressSet_address] at hrange
  unfold uniqueAlloc
  simp only
  rw [if_neg (by rw [htag]; exact Bool.true_eq_false_eq_False)]
  by_cases hshrink : enc.CanShrink heapCap (roundUp size)
  · have hshrunk := shrunk_tag_iff.2 hshrink
    rw [if_neg (by rw [hshrunk]; exact Bool.true_eq_false_eq_False), if_pos hshrink]
    exact ⟨htag, enc.range_cheriBoundsSetExact _ _, hrange, rfl, hshrunk⟩
  · have hshrunk := Bool.not_eq_true _ ▸ mt shrunk_tag_iff.1 hshrink
    rw [if_pos hshrunk, if_neg hshrink]
    exact ⟨htag, enc.range_cheriBoundsSetExact _ _, hrange, rfl⟩

/-- The piece and what is left behind it are in the heap, and apart. -/
theorem CapEncoding.CanBound.apart (hpiece : enc.CanBound heapCap heapCap.address size.toNat)
    (hrest : enc.CanShrink heapCap size) :
    (ByteRange.mk heapCap.address.toNat size.toNat).Within heapCap.range
      ∧ (ByteRange.mk (heapCap.address + size).toNat (cheriLengthGet heapCap - size).toNat).Within
          heapCap.range
      ∧ Disjoint (ByteRange.mk heapCap.address.toNat size.toNat).bytes
          (ByteRange.mk (heapCap.address + size).toNat
            (cheriLengthGet heapCap - size).toNat).bytes := by
  obtain ⟨htag, -, ⟨hlow, hhigh⟩, -⟩ := hpiece
  obtain ⟨-, -, -, ⟨hlow', hhigh'⟩, -⟩ := hrest
  have hfits := heapCap.fits htag
  have hs := size.isLt
  refine ⟨?_, ?_, ?_⟩
  · exact Set.Ico_subset_Ico hlow hhigh
  · exact Set.Ico_subset_Ico hlow' hhigh'
  · -- at the top of the address space what is left starts at zero again
    have haddr : (heapCap.address + size).toNat
        = (heapCap.address.toNat + size.toNat) % 2 ^ 64 := BitVec.toNat_add _ _
    have hget : (cheriLengthGet heapCap).toNat = min heapCap.length (2 ^ 64 - 1) := by
      rw [cheriLengthGet, BitVec.toNat_ofNat, Nat.mod_eq_of_lt (by omega)]
    have hlen : (cheriLengthGet heapCap - size).toNat
        = (2 ^ 64 - size.toNat + min heapCap.length (2 ^ 64 - 1)) % 2 ^ 64 := by
      rw [BitVec.toNat_sub, hget]
    rw [Set.disjoint_left]
    intro b hb hb'
    rw [ByteRange.mem_bytes] at hb hb'
    simp only [haddr, hlen] at hb hb'
    omega

/-- **One call** on a size that does not fail. -/
theorem step_of_fits {pieces : List ByteRange} (h : Separate heapCap.range pieces)
    (hfits : ¬ SizeFails enc heapCap size) :
    ((uniqueAllocator enc).obs heapCap size).AllOrNothing
      ∧ Separate ((uniqueAllocator enc).next heapCap size).range
          (pieces ++ regions [(uniqueAllocator enc).obs heapCap size]) := by
  show (uniqueAlloc enc heapCap size).AllOrNothing
    ∧ Separate (uniqueAlloc enc heapCap size).after.range
        (pieces ++ regions [uniqueAlloc enc heapCap size])
  by_cases hpiece : enc.CanBound heapCap heapCap.address (roundUp size).toNat
  · obtain ⟨hdst, hrange, hrest, hshrunk⟩ := uniqueAlloc_of_canBound hpiece
    -- a piece can be given, so the size has not wrapped and the heap can be shrunk
    have hsize : size.toNat + 15 < 2 ^ 64 :=
      Nat.lt_of_not_le fun hwrap => hfits ⟨hpiece, Or.inl hwrap⟩
    have hcan : enc.CanShrink heapCap (roundUp size) :=
      not_not.1 fun hnot => hfits ⟨hpiece, Or.inr hnot⟩
    rw [if_pos hcan] at hshrunk
    obtain ⟨hret, hafter⟩ := hshrunk
    have hlen : (uniqueAlloc enc heapCap size).dst.length = (roundUp size).toNat :=
      congrArg ByteRange.length hrange
    refine ⟨⟨fun _ => ⟨hdst, ?_, hafter⟩, fun hfailed => ?_⟩, ?_⟩
    · rw [uniqueAlloc_size, hlen, toNat_roundUp, Nat.mod_eq_of_lt hsize]
      omega
    · rw [hret] at hfailed
      cases hfailed
    · rw [show regions [uniqueAlloc enc heapCap size] = [(uniqueAlloc enc heapCap size).dst.range]
        by simp [regions, hret], hrange, hrest]
      obtain ⟨hin, hleft, hdisj⟩ := hpiece.apart hcan
      exact h.give hin hleft hdisj
  · obtain ⟨hret, hafter, hdst⟩ := uniqueAlloc_of_not_canBound hpiece
    refine ⟨⟨fun hgiven => ?_, fun _ => ⟨?_, hdst⟩⟩, ?_⟩
    · rw [hret] at hgiven
      cases hgiven
    · rw [hafter, uniqueAlloc_before]
    · rw [show regions [uniqueAlloc enc heapCap size] = [] by simp [regions, hret], hafter,
        List.append_nil]
      exact h

/-- **A size that fails**: the caller is given less than it asked for, or is
told that there is nothing and holds the piece. -/
theorem SizeFails.not_allOrNothing (hfails : SizeFails enc heapCap size) :
    ¬ ((uniqueAllocator enc).obs heapCap size).AllOrNothing := by
  show ¬ (uniqueAlloc enc heapCap size).AllOrNothing
  intro hcall
  obtain ⟨hpiece, hwrong⟩ := hfails
  obtain ⟨hdst, hrange, -, hshrunk⟩ := uniqueAlloc_of_canBound hpiece
  by_cases hcan : enc.CanShrink heapCap (roundUp size)
  · rw [if_pos hcan] at hshrunk
    have hwrap := hwrong.resolve_right (not_not.2 hcan)
    have hlen : (uniqueAlloc enc heapCap size).dst.length = (roundUp size).toNat :=
      congrArg ByteRange.length hrange
    have hle := (hcall.all hshrunk.1).2.1
    have hs := size.isLt
    rw [uniqueAlloc_size, hlen, toNat_roundUp] at hle
    omega
  · rw [if_neg hcan] at hshrunk
    exact absurd hdst (Bool.not_eq_true _ ▸ (hcall.nothing hshrunk).2)

/-- **A run on sizes that do not fail.** -/
theorem run_of_fits {pieces : List ByteRange} {sizes : List Word}
    (h : Separate heapCap.range pieces)
    (hfits : (uniqueAllocator enc).Along (fun h size => ¬ SizeFails enc h size) heapCap sizes) :
    (∀ call ∈ (uniqueAllocator enc).observe heapCap sizes, call.AllOrNothing)
      ∧ Separate ((uniqueAllocator enc).run heapCap sizes).range
          (pieces ++ regions ((uniqueAllocator enc).observe heapCap sizes)) := by
  induction sizes generalizing heapCap pieces with
  | nil =>
    refine ⟨fun call hcall => absurd hcall List.not_mem_nil, ?_⟩
    show Separate heapCap.range (pieces ++ [])
    rw [List.append_nil]
    exact h
  | cons size sizes ih =>
    obtain ⟨hcall, hnext⟩ := step_of_fits h hfits.1
    obtain ⟨hcalls, hapart⟩ := ih hnext hfits.2
    rw [SyncMachine.observe_cons, SyncMachine.run_cons]
    refine ⟨List.forall_mem_cons.2 ⟨hcall, hcalls⟩, ?_⟩
    have hsplit := regions_append [(uniqueAllocator enc).obs heapCap size]
      ((uniqueAllocator enc).observe ((uniqueAllocator enc).next heapCap size) sizes)
    rw [List.singleton_append] at hsplit
    rw [hsplit, ← List.append_assoc]
    exact hapart

/-- A run whose calls are all or nothing is one on sizes that do not fail. -/
theorem along_of_allOrNothing {sizes : List Word}
    (h : ∀ call ∈ (uniqueAllocator enc).observe heapCap sizes, call.AllOrNothing) :
    (uniqueAllocator enc).Along (fun h size => ¬ SizeFails enc h size) heapCap sizes := by
  induction sizes generalizing heapCap with
  | nil => trivial
  | cons size sizes ih =>
    rw [SyncMachine.observe_cons, List.forall_mem_cons] at h
    exact ⟨fun hfails => hfails.not_allOrNothing h.1, ih h.2⟩

end

/-- **The allocator is all or nothing exactly as long as no size fails.** -/
theorem uniqueAlloc_allOrNothing_iff (enc : CapEncoding) (heapCap : Capability)
    (sizes : List Word) :
    AllOrNothing enc heapCap sizes ↔
      (uniqueAllocator enc).Along (fun h size => ¬ SizeFails enc h size) heapCap sizes := by
  constructor
  · intro h
    exact along_of_allOrNothing h.calls
  · intro hfits
    refine ⟨(run_of_fits (Separate.start _) hfits).1, fun n => ?_⟩
    rw [← List.take_append_drop n sizes, SyncMachine.along_append] at hfits
    exact (run_of_fits (Separate.start _) hfits.1).2

/-- Lengths below `2 ^ 14` are exact everywhere. Above, a length keeps twelve
leading bits, and the bounds are multiples of what is below them. -/
def smallEncoding : CapEncoding where
  exactBounds a n :=
    decide (n < 2 ^ 14)
      || decide (a.toNat % 2 ^ (Nat.log2 n - 11) = 0) && decide (n % 2 ^ (Nat.log2 n - 11) = 0)
  inReach _ _ := true

/-- A heap of one megabyte. -/
def smallHeap : Capability where
  tag := true
  base := 0x100000
  length := 0x100000
  address := 0x100000
  perms := ⟨true, true, true, true, true, false, false, true⟩
  otype := 0
  fits := fun _ => by decide

/-- **A granule of it can be given, and what is left is not exact**: the caller
is told `-1` with a tagged piece in hand, and the heap has lost its tag. -/
theorem smallHeap_not_allOrNothing :
    smallEncoding.exactBounds smallHeap.base smallHeap.length = true
      ∧ (uniqueAlloc smallEncoding smallHeap 16).ret = -1
      ∧ (uniqueAlloc smallEncoding smallHeap 16).dst.tag = true
      ∧ (uniqueAlloc smallEncoding smallHeap 16).after.tag = false
      ∧ ¬ AllOrNothing smallEncoding smallHeap [16] := by
  have hret : (uniqueAlloc smallEncoding smallHeap 16).ret = -1 := by decide +kernel
  have hdst : (uniqueAlloc smallEncoding smallHeap 16).dst.tag = true := by decide +kernel
  refine ⟨by decide +kernel, hret, hdst, by decide +kernel, fun h => ?_⟩
  have hnothing := ((h.calls _ List.mem_cons_self).nothing hret).2
  exact absurd hdst (Bool.not_eq_true _ ▸ hnothing)

end Morello
