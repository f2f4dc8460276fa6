import CheriTree.Morello.CallsReturn

/-!
# Calls that fail

A call that hands back a capability without its tag should have left everything
as it was. `EINIT_DATA` does: past the sweep and the digest nothing can fail any
more, since the id it seals with was found under an object type, and is small
enough to seal with. `EINIT_CODE` takes an entry and counts an id first, and
only then finds out that there was no id, or that what it got cannot be sealed.
-/

namespace Morello

variable {b : Build}

/-- `EINIT_CODE` gets an id and can seal what it is given: the object type fits,
and the capability is one that is not sealed yet. -/
structure CanSealCode (s : IdentityStore b) (code : Capability) : Prop where
  id : s.idCounter < b.numEnclaveIds + 1
  fits : (getOtype (BitVec.ofInt 64 s.idCounter) + 2).toNat ≤ maxOtype
  tag : code.tag = true
  unsealed : code.isSealed = false

/-- **A call is atomic on failure**: where it hands back a capability without its
tag, the store, the counter and the memory are what they were. -/
def AtomicOnFailure (p : Platform b) (s : IdentityStore b) (call : Call) : Prop :=
  match call.hvc with
  | .einitCode => (einitCode s (call.el1.c 0)).1.tag = false → (einitCode s (call.el1.c 0)).2 = s
  | .einitData => ∀ r, einitData p s call.hash (call.el1.c 0) (call.el1.c 1)
      (savedStack call.el1.c) call.el1 = some r → r.result.tag = false →
        r.store = s ∧ r.mem = call.el1.mem
  | .estoreId => True

/-! ## Sealing -/

/-- **What can be sealed** with the identity seal of an id. -/
theorem cheriSeal_identSeal_tag {id : IdType} (c : Capability) :
    (cheriSeal c (identSeal rootCap id)).tag
      = (c.tag && !c.isSealed && decide ((getOtype id + 2).toNat ≤ maxOtype)) := by
  have hin : (getOtype id + 2).toNat ≤ maxOtype →
      Capability.InBounds { rootCap with address := getOtype id + 2 } (getOtype id + 2) 1 := by
    intro h
    refine ⟨Nat.zero_le _, ?_⟩
    show (getOtype id + 2).toNat + 1 ≤ 0 + 2 ^ 64
    have := (getOtype id + 2).isLt
    omega
  unfold cheriSeal
  rw [Capability.tagIf_tag]
  by_cases h : (getOtype id + 2).toNat ≤ maxOtype
  · have htag : (identSeal rootCap id).tag = true := by
      have htag := tag_cheriBoundsSetExact (cheriAddressSet rootCap (getOtype id + 2)) 1
      rw [cheriAddressSet_rootCap, decide_eq_true (hin h)] at htag
      exact htag
    have hself : (identSeal rootCap id).InBounds (identSeal rootCap id).address 1 :=
      ⟨le_refl _, le_refl _⟩
    have haddr : (identSeal rootCap id).address = getOtype id + 2 := rfl
    rw [htag, decide_eq_true hself, haddr, decide_eq_true h]
    show (true && !c.isSealed && !false && true && true && true && c.tag) = _
    cases c.isSealed <;> cases c.tag <;> rfl
  · have haddr : (identSeal rootCap id).address = getOtype id + 2 := rfl
    rw [haddr, decide_eq_false h, Bool.and_false, Bool.and_false, Bool.false_and]

/-- An object type holds an id that can be sealed with. -/
theorem otype_of_assignIDFromOtype (c : Capability) :
    (getOtype (assignIDFromOtype (cheriTypeGet c)) + 2).toNat ≤ maxOtype := by
  have hlt := c.otype.isLt
  have htype : (cheriTypeGet c).toNat = c.otype.toNat := by
    rw [cheriTypeGet, BitVec.toNat_setWidth]
    omega
  rw [BitVec.toNat_add, getOtype, BitVec.toNat_shiftLeft, assignIDFromOtype,
    BitVec.toNat_ushiftRight,
    htype, Nat.shiftRight_eq_div_pow, Nat.shiftLeft_eq]
  show (c.otype.toNat / 2 ^ 2 * 2 ^ 2 % 2 ^ 64 + 2) % 2 ^ 64 ≤ 2 ^ 15 - 1
  omega

/-- An id that is found under an object type is the one of that type. -/
theorem id_of_getUnfinishedEntryID {s : IdentityStore b} {otypeVal : IdType}
    (h : s.getUnfinishedEntryID otypeVal ≠ setInvalidEnclaveID) :
    s.getUnfinishedEntryID otypeVal = assignIDFromOtype otypeVal := by
  unfold IdentityStore.getUnfinishedEntryID at h ⊢
  split at h
  · exact absurd rfl h
  · rename_i i hfirst
    exact (IdentityStore.unfinished_iff.1 (IdentityStore.firstEntry_some hfirst)).2.2

/-! ## The two calls -/

/-- **`EINIT_DATA` changes nothing when it fails.** What it hands back at its end
is tagged: the data capability was stored through. -/
theorem einitData_atomic {p : Platform b} {s : IdentityStore b} {call : Call} {r : Reply b}
    (h : einitData p s call.hash (call.el1.c 0) (call.el1.c 1) (savedStack call.el1.c) call.el1
      = some r) (htag : r.result.tag = false) : r.store = s ∧ r.mem = call.el1.mem := by
  unfold einitData at h
  simp only at h
  split at h
  · rw [← Option.some.inj h]
    exact ⟨rfl, rfl⟩
  · rename_i hid
    split at h
    · cases h
    · split at h
      · rw [← Option.some.inj h]
        exact ⟨rfl, rfl⟩
      · split at h
        · cases h
        · rename_i hash _
          rcases s.finishEntry_cases (cheriTypeGet (call.el1.c 0)) hash with heq | ⟨i, -, -, -, heq⟩
          · rw [heq, if_pos rfl] at h
            rw [← Option.some.inj h]
            exact ⟨rfl, rfl⟩
          · rw [if_neg (by rw [heq]; exact (by decide : ¬ (0 : ℤ) = -1))] at h
            have hfit : SealsFit (call.el1.c 1) := finishData_isSome_iff.1 (by rw [h]; rfl)
            unfold finishData at h
            obtain ⟨m, -, rfl⟩ := Option.map_eq_some_iff.1 h
            have hres : (cheriSeal (call.el1.c 1) (identSeal rootCap (s.getUnfinishedEntryID
                (cheriTypeGet (call.el1.c 0))))).tag = true := by
              rw [cheriSeal_identSeal_tag, id_of_getUnfinishedEntryID hid, hfit.tag, hfit.unsealed,
                decide_eq_true (otype_of_assignIDFromOtype _)]
              rfl
            rw [hres] at htag
            cases htag

/-- **`EINIT_CODE` hands back a tagged capability** exactly if there is an entry
and it can seal. -/
theorem einitCode_tag_iff {s : IdentityStore b} {code : Capability} :
    (einitCode s code).1.tag = true
      ↔ (∃ i, (s.entries i).used = false) ∧ CanSealCode s code := by
  unfold einitCode
  rcases s.initEntry_cases with ⟨hall, heq⟩ | ⟨i, hused, hc, heq⟩ | ⟨i, hused, hc, heq⟩
  · rw [heq, if_pos rfl]
    refine ⟨fun h => absurd h Bool.false_ne_true, ?_⟩
    rintro ⟨⟨i, hi⟩, -⟩
    rw [hall i] at hi
    cases hi
  · rw [heq]
    by_cases hid : BitVec.ofInt 64 s.idCounter = setInvalidEnclaveID
    · simp only [if_pos hid]
      refine ⟨fun h => absurd h (by decide), ?_⟩
      rintro ⟨-, hseal⟩
      have hfits := hseal.fits
      rw [hid] at hfits
      exact absurd hfits (by decide)
    · simp only [if_neg hid]
      rw [cheriSeal_identSeal_tag, Bool.and_eq_true, Bool.and_eq_true, Bool.not_eq_true',
        decide_eq_true_iff]
      exact ⟨fun h => ⟨⟨i, hused⟩, hc, h.2, h.1.1, h.1.2⟩,
        fun h => ⟨⟨h.2.tag, h.2.unsealed⟩, h.2.fits⟩⟩
  · rw [heq, if_pos rfl]
    refine ⟨fun h => absurd h Bool.false_ne_true, ?_⟩
    rintro ⟨-, hseal⟩
    exact absurd hseal.id hc

/-- A call of `EINIT_CODE` that finds an entry takes it. -/
theorem einitCode_changes {s : IdentityStore b} {code : Capability} {i : Fin b.maxEntries}
    (hi : (s.entries i).used = false) : (einitCode s code).2 ≠ s := by
  rw [einitCode_store]
  intro heq
  rcases s.initEntry_cases with ⟨hall, -⟩ | ⟨j, hused, -, hnext⟩ | ⟨j, hused, -, hnext⟩
  · rw [hall i] at hi
    cases hi
  · have hj := congrArg (fun t : IdentityStore b => (t.entries j).used) heq
    rw [hnext] at hj
    simp only [IdentityStore.set_entries_self] at hj
    rw [hused] at hj
    cases hj
  · have hj := congrArg (fun t : IdentityStore b => (t.entries j).used) heq
    rw [hnext] at hj
    simp only [IdentityStore.set_entries_self] at hj
    rw [hused] at hj
    cases hj

/-- **A call is atomic on failure** unless it is an `EINIT_CODE` that finds an
entry and cannot seal. -/
theorem atomicOnFailure_iff (p : Platform b) (s : IdentityStore b) (call : Call) :
    AtomicOnFailure p s call
      ↔ (call.hvc = .einitCode →
        (∀ i, (s.entries i).used = true) ∨ CanSealCode s (call.el1.c 0)) := by
  unfold AtomicOnFailure
  cases hop : call.hvc with
  | einitCode =>
    simp only [forall_const]
    constructor
    · intro h
      by_cases hall : ∀ i, (s.entries i).used = true
      · exact Or.inl hall
      · rw [not_forall] at hall
        obtain ⟨i, hi⟩ := hall
        have hi' : (s.entries i).used = false := Bool.not_eq_true _ ▸ hi
        cases htag : (einitCode s (call.el1.c 0)).1.tag with
        | true => exact Or.inr (einitCode_tag_iff.1 htag).2
        | false => exact absurd (h htag) (einitCode_changes hi')
    · intro h htag
      by_cases hall : ∀ i, (s.entries i).used = true
      · rw [einitCode_store]
        rcases s.initEntry_cases with ⟨-, heq⟩ | ⟨i, hused, -, -⟩ | ⟨i, hused, -, -⟩
        · rw [heq]
        · rw [hall i] at hused
          cases hused
        · rw [hall i] at hused
          cases hused
      · rw [not_forall] at hall
        obtain ⟨i, hi⟩ := hall
        have htag' : (einitCode s (call.el1.c 0)).1.tag = true :=
          einitCode_tag_iff.2
            ⟨⟨i, Bool.not_eq_true _ ▸ hi⟩, h.resolve_left (fun hall => hi (hall i))⟩
        rw [htag] at htag'
        cases htag'
  | einitData => exact ⟨fun _ hno => (by cases hno), fun _ r h htag => einitData_atomic h htag⟩
  | estoreId => exact ⟨fun _ hno => (by cases hno), fun _ => trivial⟩

/-- **An entry and an id go to a capability without a tag**, at the start. -/
theorem untagged_code_not_atomic :
    ¬ AtomicOnFailure smallPlatform (.reset .release)
      (callWith .einitCode invalidCap invalidCap) := by
  intro h
  exact absurd (h (by decide)) (einitCode_changes (i := firstSlot) rfl)

end Morello
