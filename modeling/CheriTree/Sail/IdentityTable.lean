import CheriTree.FreshTable
import CheriTree.Sail.EnclaveLife
import CheriTree.Sail.Ownership

/-!
# The identities over a run

The table of identities is searched from its first slot, and each search stops
at the first entry of the enclave it is about. That is right as long as no
enclave has two entries, and nothing in the instructions says so: it follows
from the numbers, which are issued by a counter that is one bit wider than they
are, and stops while there is still a number left.

The identities of a state are a table whose keys are issued (`freshTable`), and
each of `EInitCode`, `EInitData` and `EDeinit`, retired or not, is a step of it
(`Step.idStep`). The laws of such a table give those of the identities, in
every state of every run (`identityLaws_of_run`).
-/

namespace Sail

open Prog

variable {f : CapFormat}

/-! ## What leaves the identities alone -/

/-- **The identities of a state**: the numbers issued and the table. -/
def State.identities (s : State f) : BitVec (f.ow - 1) × ETable f := (s.eidCounter, s.etable)

/-- What an exception does not write. -/
def State.untrapped (s : State f) :
    (BitVec (f.ow - 1) × ETable f) × (ℕ → Capability f) × (ℕ → BitVec 8) × (ℕ → Bool) :=
  (s.identities, s.x, s.mem, s.tags)

@[simp] theorem State.wC_identities (s : State f) (r : RegIdx) (v : Capability f) :
    (s.wC r v).identities = s.identities := by
  rw [wC, apply_ite State.identities]
  exact ite_self _

theorem silent_assert (b : Bool) : Silent (assert b : M f Unit) :=
  Silent.ite (silent_pure _) (silent_throw _)

theorem silent_trapStatus (s : State f) (priv : Privilege) : Silent (trapStatus s priv) := by
  unfold trapStatus
  split
  · exact silent_pure _
  · refine (silent_assert _).bind (fun _ => ?_)
    split
    · exact silent_pure _
    · exact silent_pure _
    · exact silent_throw _
  · exact (silent_assert _).bind (fun _ => silent_pure _)

/-- **A trap keeps** what does not depend on the registers it writes. -/
theorem keeps_trapHandler {γ : Type} {g : State f → γ}
    (hset : ∀ (s : State f) mstatus trap priv,
      g { s with mstatus := mstatus, trap := trap, curPrivilege := priv } = g s)
    (hscr : ∀ (s : State f) r v, g (s.setScr r v) = g s) (delPriv : Privilege) (e : ExceptionType)
    (pc info : BitVec f.xlen) : Keeps g (trapHandler delPriv e pc info : M f (BitVec f.xlen)) := by
  intro c
  refine preserves_get_bind (fun s hs => ?_)
  refine (silent_trapStatus s _).preserves.bind (fun mstatus => ?_)
  refine Preserves.bind (preserves_set ((hset _ _ _ _).trans hs)) (fun _ => ?_)
  have hmove : ∀ r v, Preserves (fun s => g s = c) (modify fun s => s.setScr r v : M f Unit) :=
    fun r v => preserves_modify (fun s hs => (hscr s r v).trans hs)
  refine Preserves.bind ?_ (fun _ => ?_)
  · refine preserves_get_bind (fun s _ => ?_)
    exact (silent_assert _).preserves.bind (fun _ => hmove _ _)
  · refine preserves_get_bind (fun s _ => ?_)
    refine Preserves.ite ?_ (Preserves.ite ?_ (preserves_throw _))
    · exact (hmove _ _).bind (fun _ => preserves_pure _)
    · exact (hmove _ _).bind (fun _ => preserves_pure _)

theorem keeps_handleException (e : ExceptionType) (info : BitVec f.xlen) :
    Keeps State.untrapped (handleException e info : M f Unit) := by
  intro c
  refine preserves_get_bind (fun s _ => ?_)
  refine Preserves.bind ?_ (fun _ => preserves_modify (fun s hs => hs))
  exact keeps_trapHandler (fun _ _ _ _ => rfl) (fun _ _ _ => rfl) _ _ _ _ c

theorem keeps_failWith (e : CapEx) (reg : RegIdx) :
    Keeps State.untrapped (failWith e reg : M f Retired) :=
  (keeps_handleException _ _).bind (fun _ => (silent_pure _).keeps)

/-- **The page table walk leaves the identities alone**: it writes page table
entries and the cache of translations. -/
def Platform.WalkKeepsIdentities (p : Platform f) : Prop :=
  ∀ mode vAddr ac priv, Keeps State.identities (p.walk mode vAddr ac priv)

section Frame

theorem keeps_exception (e : ExceptionType) (info : BitVec f.xlen) :
    Keeps State.identities (handleException e info : M f Unit) :=
  (keeps_handleException e info).comp Prod.fst

theorem keeps_fail (e : CapEx) (reg : RegIdx) :
    Keeps State.identities (failWith e reg : M f Retired) :=
  (keeps_failWith e reg).comp Prod.fst

/-- A program that ends by an exception. -/
theorem keeps_exception_pure {α : Type} (e : ExceptionType) (info : BitVec f.xlen) (a : α) :
    Keeps State.identities (do handleException e info; pure a : M f α) :=
  (keeps_exception e info).bind (fun _ => (silent_pure a).keeps)

variable {p : Platform f} (hwalk : p.WalkKeepsIdentities)

include hwalk

theorem keeps_translateAddr (vAddr : BitVec f.xlen) (ac : AccessType) :
    Keeps State.identities (translateAddr p vAddr ac) := by
  unfold translateAddr
  refine silent_get.keeps.bind (fun s => ?_)
  refine (silent_lift _).keeps.bind (fun effPriv => ?_)
  refine (silent_lift _).keeps.bind (fun mode => ?_)
  exact Keeps.ite (silent_pure _).keeps (hwalk _ _ _ _)

omit hwalk in
theorem keeps_memWriteValueMeta (addr : BitVec f.xlen) (n : ℕ) (data : BitVec (8 * n))
    (ext : ExtAccessType) (tag : Bool) :
    Keeps State.identities (memWriteValueMeta p addr n data ext tag) := by
  intro c
  unfold memWriteValueMeta
  refine (silent_pmpGuard _ _ _).preserves.bind (fun e => ?_)
  cases e with
  | some e => exact preserves_pure _
  | none =>
    refine preserves_get_bind (fun s hs => ?_)
    cases hw : checkedMemWrite p s addr n data tag with
    | error e => exact preserves_pure _
    | ok s' =>
      refine Preserves.bind (preserves_set ?_) (fun _ => preserves_pure _)
      unfold checkedMemWrite at hw
      split at hw
      · cases hdev : p.mmioWrite s.dev addr n data with
        | error e =>
          rw [hdev] at hw
          cases hw
        | ok dev =>
          rw [hdev] at hw
          obtain rfl := Except.ok.inj hw
          exact hs
      · split at hw
        · obtain rfl := Except.ok.inj hw
          exact hs
        · cases hw

theorem keeps_loadCapNoreg (auth : Capability f) (vaddr : BitVec f.xlen) :
    Keeps State.identities (loadCapNoreg p auth vaddr) := by
  unfold loadCapNoreg
  refine (keeps_translateAddr hwalk _ _).bind (fun tr => ?_)
  split
  · exact (silent_throw _).keeps
  · exact keeps_exception_pure _ _ _
  · refine Keeps.bind ?_ (fun r => ?_)
    · exact ((silent_memReadMeta _ _ _ _).bind (fun _ => silent_pure _)).keeps
    · split
      · exact (silent_pure _).keeps
      · exact keeps_exception_pure _ _ _

theorem keeps_loadWordNoreg (authIdx : BitVec 6) (auth : Capability f) (vaddr : BitVec f.xlen) :
    Keeps State.identities (loadWordNoreg p authIdx auth vaddr) := by
  unfold loadWordNoreg
  refine Keeps.ite (keeps_exception_pure _ _ _) (Keeps.ite (keeps_exception_pure _ _ _)
    (Keeps.ite (keeps_exception_pure _ _ _) (Keeps.ite (keeps_exception_pure _ _ _)
    (Keeps.ite (keeps_exception_pure _ _ _) ?_))))
  refine (keeps_translateAddr hwalk _ _).bind (fun tr => ?_)
  split
  · exact (silent_throw _).keeps
  · exact keeps_exception_pure _ _ _
  · refine (silent_memReadMeta _ _ _ _).keeps.bind (fun r => ?_)
    split
    · exact (silent_pure _).keeps
    · exact keeps_exception_pure _ _ _

theorem keeps_storeCapvalViaCap (cap : Capability f) (authIdx : BitVec 6) (auth : Capability f)
    (vaddr : BitVec f.xlen) :
    Keeps State.identities (storeCapvalViaCap p cap authIdx auth vaddr) := by
  unfold storeCapvalViaCap
  refine Keeps.ite (keeps_exception_pure _ _ _) (Keeps.ite (keeps_exception_pure _ _ _)
    (Keeps.ite (keeps_exception_pure _ _ _) (Keeps.ite (keeps_exception_pure _ _ _)
    (Keeps.ite (keeps_exception_pure _ _ _) (Keeps.ite (keeps_exception_pure _ _ _)
    (Keeps.ite (keeps_exception_pure _ _ _) ?_))))))
  refine (keeps_translateAddr hwalk _ _).bind (fun tr => ?_)
  split
  · exact keeps_exception_pure _ _ _
  · refine Keeps.ite (keeps_exception_pure _ _ _) ?_
    refine Keeps.bind ?_ (fun r => ?_)
    · exact (silent_assert _).keeps.bind (fun _ => keeps_memWriteValueMeta _ _ _ _ _)
    · split
      · exact (silent_pure _).keeps
      · exact keeps_exception_pure _ _ _

theorem keeps_sweep2 (fuel : ℕ) (regCode regData : RegIdx) :
    Keeps State.identities (sweep2 p fuel regCode regData) := by
  have hgranule : ∀ code data ambient addr,
      Keeps State.identities (sweepGranule2 p code data ambient addr) := by
    intro code data ambient addr
    refine silent_get.keeps.bind (fun s => ?_)
    refine Keeps.ite (Keeps.ite (silent_pure _).keeps (Keeps.ite (silent_pure _).keeps ?_))
      (silent_pure _).keeps
    refine (keeps_loadCapNoreg hwalk _ _).bind (fun c => ?_)
    split
    · exact (silent_pure _).keeps
    · exact (silent_pure _).keeps
  have hloop : ∀ code data ambient memEnd addr fuel,
      Keeps State.identities (sweepLoop2 p code data ambient memEnd fuel addr) := by
    intro code data ambient memEnd addr fuel
    induction fuel generalizing addr with
    | zero => exact (silent_throw _).keeps
    | succ fuel ih =>
      refine Keeps.ite ?_ (silent_pure _).keeps
      refine (hgranule _ _ _ _).bind (fun o => ?_)
      exact Keeps.ite (silent_pure _).keeps (ih _)
  refine silent_get.keeps.bind (fun s => Keeps.ite ?_ (silent_pure _).keeps)
  refine silent_get.keeps.bind (fun s => ?_)
  exact (hloop _ _ _ _ _ _).bind (fun _ => (silent_pure _).keeps)

theorem keeps_makeHash (fuel : ℕ) (cs1 : RegIdx) :
    Keeps State.identities (makeHash p fuel cs1) := by
  have hloop : ∀ top cap words fuel,
      Keeps State.identities (hashLoop p cs1 top fuel cap words) := by
    intro top cap words fuel
    induction fuel generalizing cap words with
    | zero => exact (silent_throw _).keeps
    | succ fuel ih =>
      refine Keeps.ite ?_ (silent_pure _).keeps
      refine (keeps_loadWordNoreg hwalk _ _ _).bind (fun data => ?_)
      split
      · exact (silent_pure _).keeps
      · exact ih _ _
  refine silent_get.keeps.bind (fun s => ?_)
  refine (silent_assert _).keeps.bind (fun _ => ?_)
  refine (hloop _ _ _ _).bind (fun words => ?_)
  split
  · exact (silent_pure _).keeps
  · exact (silent_pure _).keeps

theorem keeps_finishData (cd cs2 : RegIdx) (cs2Val : Capability f) (otype : BitVec f.ow) :
    Keeps State.identities (finishData p cd cs2 cs2Val otype) := by
  unfold finishData
  refine Keeps.ite (keeps_fail _ _) ?_
  refine (silent_makeKey _ _).keeps.bind (fun key => ?_)
  refine (keeps_storeCapvalViaCap hwalk _ _ _ _).bind (fun r => ?_)
  split
  · exact (silent_pure _).keeps
  · refine Keeps.bind (fun c => preserves_modify (fun s hs => ?_)) (fun _ => (silent_pure _).keeps)
    rw [← hs]
    exact State.wC_identities _ _ _

end Frame

/-! ## The table -/

namespace ETable

/-- The entry in a slot. -/
def slot (t : ETable f) (i : ℕ) : Option (EMapping f) := t.slots[i]?.join

theorem slot_eq_some {t : ETable f} {i : ℕ} {e : EMapping f} :
    t.slot i = some e ↔ t.slots[i]? = some (some e) := by
  unfold slot
  cases t.slots[i]? with
  | none => simp
  | some o => simp

theorem slot_set (t : ETable f) {i : ℕ} (hi : i < tableSize) (o : Option (EMapping f)) :
    (t.set i o).slot = Function.update t.slot i o := by
  funext j
  have hlen : i < t.slots.length := by
    rw [t.length_eq]
    exact hi
  show ((t.slots.set i o)[j]?).join = _
  by_cases hij : j = i
  · subst hij
    rw [List.getElem?_set_self hlen, Function.update_self]
    rfl
  · rw [List.getElem?_set_ne (Ne.symm hij), Function.update_of_ne hij]
    rfl

theorem lt_tableSize {t : ETable f} {i : ℕ} {o : Option (EMapping f)} (h : t.slots[i]? = some o) :
    i < tableSize := by
  rw [← t.length_eq]
  exact (List.getElem?_eq_some_iff.1 h).1

theorem findFreeIdxH_eq_some {slots : List (Option (EMapping f))} {idx i : ℕ}
    (h : findFreeIdxH idx slots = some i) : ∃ j, i = idx + j ∧ slots[j]? = some none := by
  induction slots generalizing idx with
  | nil => cases h
  | cons o rest ih =>
    cases o with
    | none => exact ⟨0, (Option.some.inj h).symm, rfl⟩
    | some e =>
      obtain ⟨j, rfl, hj⟩ := ih h
      exact ⟨j + 1, by omega, hj⟩

/-- The free slot that is found is free. -/
theorem slot_findFreeIdx {t : ETable f} {i : ℕ} (h : t.findFreeIdx = some i) :
    i < tableSize ∧ t.slot i = none := by
  obtain ⟨j, rfl, hj⟩ := findFreeIdxH_eq_some h
  rw [Nat.zero_add]
  refine ⟨lt_tableSize hj, ?_⟩
  rw [slot, hj]
  rfl

theorem makeMappingPerm_eq_some {t t' : ETable f} {eid : BitVec (f.ow - 2)} {id : Hash}
    (h : t.makeMappingPerm eid id = some t') :
    ∃ i e, t.slot i = some e ∧ e.eid = eid ∧ e.isTemp = true
      ∧ t'.slot = Function.update t.slot i (some { e with
          isTemp := false
          id := id }) := by
  unfold makeMappingPerm at h
  split at h
  · obtain rfl := Option.some.inj h
    obtain ⟨i, e, hi, he, htemp, hset⟩ := makeMappingPermH_eq_some ‹_›
    refine ⟨i, e, slot_eq_some.2 hi, he, htemp, ?_⟩
    rw [← t.slot_set (lt_tableSize hi)]
    simp only [hset]
    rfl
  · cases h

theorem removeMapping_eq_some {t t' : ETable f} {eid : BitVec (f.ow - 2)}
    (h : t.removeMapping eid = some t') :
    ∃ i e, t.slot i = some e ∧ e.eid = eid ∧ t'.slot = Function.update t.slot i none := by
  unfold removeMapping at h
  split at h
  · obtain rfl := Option.some.inj h
    obtain ⟨i, e, hi, he, hset⟩ := removeMappingH_eq_some ‹_›
    refine ⟨i, e, slot_eq_some.2 hi, he, ?_⟩
    rw [← t.slot_set (lt_tableSize hi)]
    simp only [hset]
    rfl
  · cases h

/-! ### The searches stop at the first entry of an enclave -/

/-- **No two slots belong to one enclave.** -/
def Unique (t : ETable f) : Prop :=
  ∀ i j e e', t.slot i = some e → t.slot j = some e' → e.eid = e'.eid → i = j

/-- No slot belongs to the enclave. -/
def Absent (t : ETable f) (eid : BitVec (f.ow - 2)) : Prop :=
  ∀ i e, t.slot i = some e → e.eid ≠ eid

/-- **A search that stops at the first slot of an enclave finds what a search
of all slots does.** -/
structure SearchesRight (t : ETable f) : Prop where
  getId : ∀ eid isTemp e, t.getId eid isTemp = some e ↔
    (∃ i, t.slot i = some e) ∧ e.eid = eid ∧ e.isTemp = isTemp
  remove_some : ∀ eid t', t.removeMapping eid = some t' →
    ∀ i, t'.slot i = (t.slot i).filter fun e => e.eid ≠ eid
  remove_none : ∀ eid, t.removeMapping eid = none ↔ t.Absent eid
  perm_some : ∀ eid id t', t.makeMappingPerm eid id = some t' →
    ∀ i, t'.slot i = (t.slot i).map fun e => if e.eid = eid then { e with
      isTemp := false
      id := id } else e
  perm_none : ∀ eid id, t.makeMappingPerm eid id = none ↔
    ∀ i e, t.slot i = some e → e.eid = eid → e.isTemp = false

theorem getIdH_eq_some {eid : BitVec (f.ow - 2)} {isTemp : Bool} {e : EMapping f}
    {slots : List (Option (EMapping f))} (h : getIdH eid isTemp slots = some e) :
    (∃ i : ℕ, slots[i]? = some (some e)) ∧ e.eid = eid ∧ e.isTemp = isTemp := by
  induction slots with
  | nil => cases h
  | cons o rest ih =>
    have hrest : getIdH eid isTemp rest = some e →
        (∃ i : ℕ, (o :: rest)[i]? = some (some e)) ∧ e.eid = eid ∧ e.isTemp = isTemp := by
      intro h
      obtain ⟨⟨i, hi⟩, he⟩ := ih h
      exact ⟨⟨i + 1, hi⟩, he⟩
    cases o with
    | none => exact hrest h
    | some entry =>
      rw [getIdH] at h
      by_cases heid : entry.eid = eid
      · rw [if_pos heid] at h
        have hfound : entry.isTemp = isTemp ∧ entry = e := by
          cases isTemp <;> cases htemp : entry.isTemp <;> simp [htemp] at h ⊢
          · exact h
          · exact h
        obtain ⟨htemp, rfl⟩ := hfound
        exact ⟨⟨0, rfl⟩, heid, htemp⟩
      · rw [if_neg heid] at h
        exact hrest h

/-- The slots of a list belong to different enclaves. -/
def UniqueSlots (slots : List (Option (EMapping f))) : Prop :=
  ∀ (i j : ℕ) (e e' : EMapping f), slots[i]? = some (some e) → slots[j]? = some (some e') →
    e.eid = e'.eid → i = j

theorem UniqueSlots.tail {o : Option (EMapping f)} {slots : List (Option (EMapping f))}
    (h : UniqueSlots (o :: slots)) : UniqueSlots slots := by
  intro i j e e' hi hj he
  exact Nat.succ_injective (h (i + 1) (j + 1) e e' hi hj he)

/-- The first entry of an enclave is the one asked for, where there is one. -/
theorem getIdH_of_mem {e : EMapping f} {slots : List (Option (EMapping f))} {i : ℕ}
    (hu : UniqueSlots slots) (hi : slots[i]? = some (some e)) :
    getIdH e.eid e.isTemp slots = some e := by
  induction slots generalizing i with
  | nil => cases hi
  | cons o rest ih =>
    cases i with
    | zero =>
      obtain rfl := Option.some.inj hi
      rw [getIdH, if_pos rfl]
      cases e.isTemp <;> rfl
    | succ i =>
      cases o with
      | none => exact ih hu.tail hi
      | some entry =>
        have hne : entry.eid ≠ e.eid := by
          intro he
          have h0 := hu 0 (i + 1) entry e rfl hi he
          omega
        rw [getIdH, if_neg hne]
        exact ih hu.tail hi

theorem removeMappingH_eq_none {eid : BitVec (f.ow - 2)} {slots : List (Option (EMapping f))} :
    removeMappingH eid slots = none ↔
      ∀ (i : ℕ) (e : EMapping f), slots[i]? = some (some e) → e.eid ≠ eid := by
  induction slots with
  | nil => simp [removeMappingH]
  | cons o rest ih =>
    have hcons : (∀ (i : ℕ) (e : EMapping f), (o :: rest)[i]? = some (some e) → e.eid ≠ eid) ↔
        (∀ e, o = some e → e.eid ≠ eid) ∧ removeMappingH eid rest = none := by
      rw [ih]
      constructor
      · intro h
        exact ⟨fun e he => h 0 e (congrArg some he), fun i e hi => h (i + 1) e hi⟩
      · rintro ⟨h0, h⟩ i e hi
        cases i with
        | zero => exact h0 e (Option.some.inj hi)
        | succ i => exact h i e hi
    rw [hcons]
    cases o with
    | none => simp [removeMappingH]
    | some entry =>
      rw [removeMappingH]
      by_cases he : entry.eid = eid
      · simp [he]
      · simp [he]

theorem makeMappingPermH_eq_none {eid : BitVec (f.ow - 2)} {id : Hash}
    {slots : List (Option (EMapping f))} (hu : UniqueSlots slots) :
    makeMappingPermH eid id slots = none ↔
      ∀ (i : ℕ) (e : EMapping f), slots[i]? = some (some e) → e.eid = eid → e.isTemp = false := by
  induction slots with
  | nil => simp [makeMappingPermH]
  | cons o rest ih =>
    have hcons : (∀ (i : ℕ) (e : EMapping f), (o :: rest)[i]? = some (some e) → e.eid = eid →
        e.isTemp = false) ↔
        (∀ e, o = some e → e.eid = eid → e.isTemp = false)
          ∧ makeMappingPermH eid id rest = none := by
      rw [ih hu.tail]
      constructor
      · intro h
        exact ⟨fun e he => h 0 e (congrArg some he), fun i e hi => h (i + 1) e hi⟩
      · rintro ⟨h0, h⟩ i e hi
        cases i with
        | zero => exact h0 e (Option.some.inj hi)
        | succ i => exact h i e hi
    rw [hcons]
    cases o with
    | none => simp [makeMappingPermH]
    | some entry =>
      rw [makeMappingPermH]
      by_cases he : entry.eid = eid
      · -- no later slot belongs to the enclave: nothing else is temporary
        have hrest : makeMappingPermH eid id rest = none := by
          refine (ih hu.tail).2 (fun i e hi hei => ?_)
          have h0 := hu 0 (i + 1) entry e rfl hi (he.trans hei.symm)
          omega
        rw [if_pos he]
        cases htemp : entry.isTemp with
        | true => simp [he, htemp]
        | false => simp [htemp, hrest]
      · simp [he]

theorem Unique.slots {t : ETable f} (h : t.Unique) : UniqueSlots t.slots :=
  fun i j e e' hi hj => h i j e e' (slot_eq_some.2 hi) (slot_eq_some.2 hj)

theorem removeMapping_eq_none {t : ETable f} {eid : BitVec (f.ow - 2)} :
    t.removeMapping eid = none ↔ removeMappingH eid t.slots = none := by
  unfold removeMapping
  split
  · simp_all
  · simp_all

theorem makeMappingPerm_eq_none {t : ETable f} {eid : BitVec (f.ow - 2)} {id : Hash} :
    t.makeMappingPerm eid id = none ↔ makeMappingPermH eid id t.slots = none := by
  unfold makeMappingPerm
  split
  · simp_all
  · simp_all

/-- **In a table where no two slots belong to one enclave, the searches are
right.** -/
theorem Unique.searchesRight {t : ETable f} (h : t.Unique) : t.SearchesRight where
  getId eid isTemp e := by
    constructor
    · intro hget
      obtain ⟨⟨i, hi⟩, he⟩ := getIdH_eq_some hget
      exact ⟨⟨i, slot_eq_some.2 hi⟩, he⟩
    · rintro ⟨⟨i, hi⟩, rfl, rfl⟩
      exact getIdH_of_mem h.slots (slot_eq_some.1 hi)
  remove_some eid t' hrem i := by
    obtain ⟨j, e, hj, rfl, hslot⟩ := removeMapping_eq_some hrem
    rw [hslot]
    by_cases hij : i = j
    · subst hij
      rw [Function.update_self, hj]
      simp [Option.filter]
    · rw [Function.update_of_ne hij]
      cases hi : t.slot i with
      | none => rfl
      | some e' =>
        have hne : e'.eid ≠ e.eid := fun he => hij (h i j e' e hi hj he)
        simp [Option.filter, hne]
  remove_none eid := by
    rw [removeMapping_eq_none, removeMappingH_eq_none]
    exact forall_congr' (fun i => forall_congr' (fun e => by rw [slot_eq_some]))
  perm_some eid id t' hperm i := by
    obtain ⟨j, e, hj, rfl, -, hslot⟩ := makeMappingPerm_eq_some hperm
    rw [hslot]
    by_cases hij : i = j
    · subst hij
      rw [Function.update_self, hj]
      simp
    · rw [Function.update_of_ne hij]
      cases hi : t.slot i with
      | none => rfl
      | some e' =>
        have hne : e'.eid ≠ e.eid := fun he => hij (h i j e' e hi hj he)
        simp [hne]
  perm_none eid id := by
    rw [makeMappingPerm_eq_none, makeMappingPermH_eq_none h.slots]
    exact forall_congr' (fun i => forall_congr' (fun e => by rw [slot_eq_some]))

end ETable

/-! ## The numbers -/

/-- The table and its counter, as a table whose keys are issued. -/
def freshTable (c : BitVec (f.ow - 1) × ETable f) : FreshTable ℕ (EMapping f) :=
  ⟨c.1.toNat, c.2.slot⟩

/-- The key of an entry is the number of its enclave. -/
def EMapping.key (e : EMapping f) : ℕ := e.eid.toNat

/-- A temporary entry may be changed. -/
def EMapping.Changeable (e _ : EMapping f) : Prop := e.isTemp = true

/-- **What one instruction does to the identities**: a step of the table, and
the counter is moved by one at most, while there are object types left. -/
structure IdStep (c c' : BitVec (f.ow - 1) × ETable f) : Prop where
  step : FreshTable.Step EMapping.key EMapping.Changeable (freshTable c) (freshTable c')
  counts : c'.1.toNat = c.1.toNat ∨
    c'.1.toNat = c.1.toNat + 1 ∧ 4 * c.1.toNat + 3 ≤ f.capMaxOtype

theorem IdStep.refl (c : BitVec (f.ow - 1) × ETable f) : IdStep c c :=
  ⟨.stay _, .inl rfl⟩

/-- The enclave of the low bits of a register. -/
theorem toNat_otypeToEid (v : BitVec f.xlen) :
    (otypeToEid (v.setWidth f.ow)).toNat = v.toNat % 2 ^ f.ow / 4 := by
  have how := f.ow_ge
  have hsplit : 2 ^ f.ow = 4 * 2 ^ (f.ow - 2) := by
    rw [show (4 : ℕ) = 2 ^ 2 from rfl, ← pow_add]
    congr 1
    omega
  have hlt := Nat.mod_lt v.toNat (Nat.two_pow_pos f.ow)
  rw [otypeToEid, BitVec.toNat_setWidth, BitVec.toNat_ushiftRight, BitVec.toNat_setWidth,
    Nat.shiftRight_eq_div_pow, Nat.mod_eq_of_lt (b := 2 ^ (f.ow - 2))]
  exact Nat.div_lt_of_lt_mul (by omega)

/-- While there are object types left, the counter does not wrap, and its value
is a number of an enclave. -/
theorem counter_lt {n : ℕ} (h : 4 * n + 3 ≤ f.capMaxOtype) :
    n < 2 ^ (f.ow - 2) ∧ n + 1 < 2 ^ (f.ow - 1) := by
  have how := f.ow_ge
  have hpow : 2 ^ f.ow = 4 * 2 ^ (f.ow - 2) := by
    rw [show (4 : ℕ) = 2 ^ 2 from rfl, ← pow_add]
    congr 1
    omega
  have hpow' : 2 ^ (f.ow - 1) = 2 * 2 ^ (f.ow - 2) := by
    rw [← pow_succ']
    congr 1
    omega
  unfold CapFormat.capMaxOtype at h
  omega

/-- The next number. -/
def State.nextEid (s : State f) : BitVec (f.ow - 2) := s.eidCounter.setWidth (f.ow - 2)

/-- What `gen_eid` gives. -/
theorem genEid_eq_ok {eid : Option (BitVec (f.ow - 2))} {s s' : State f} :
    genEid s = .ok (eid, s') ↔
      if 4 * s.eidCounter.toNat + 3 ≤ f.capMaxOtype then
        eid = some s.nextEid ∧ s' = { s with eidCounter := s.eidCounter + 1 }
      else eid = none ∧ s' = s := by
  unfold genEid
  rw [Prog.bind_eq_ok]
  simp only [get_eq_ok, ite_eq_ok, pure_eq_ok, Prog.bind_eq_ok, set_eq_ok]
  by_cases hle : 4 * s.eidCounter.toNat + 3 ≤ f.capMaxOtype
  · rw [if_pos hle]
    constructor
    · rintro ⟨a, t, ⟨rfl, rfl⟩, ⟨hlt, -⟩ | ⟨-, u, v, rfl, rfl, rfl⟩⟩
      · omega
      · exact ⟨rfl, rfl⟩
    · rintro ⟨rfl, rfl⟩
      exact ⟨s, s, ⟨rfl, rfl⟩, Or.inr ⟨by omega, ⟨⟩, _, rfl, rfl, rfl⟩⟩
  · rw [if_neg hle]
    constructor
    · rintro ⟨a, t, ⟨rfl, rfl⟩, ⟨-, rfl, rfl⟩ | ⟨hno, -⟩⟩
      · exact ⟨rfl, rfl⟩
      · omega
    · rintro ⟨rfl, rfl⟩
      exact ⟨s', s', ⟨rfl, rfl⟩, Or.inl ⟨by omega, rfl, rfl⟩⟩

/-- A number that is issued is the value of the counter. -/
theorem genEid_some {s s' : State f} {eid : BitVec (f.ow - 2)}
    (h : genEid s = .ok (some eid, s')) :
    4 * s.eidCounter.toNat + 3 ≤ f.capMaxOtype ∧ eid.toNat = s.eidCounter.toNat
      ∧ s'.eidCounter.toNat = s.eidCounter.toNat + 1 ∧ s'.etable = s.etable := by
  have hgen := genEid_eq_ok.1 h
  split at hgen
  · rename_i hle
    obtain ⟨heid, rfl⟩ := hgen
    obtain ⟨hlt, hlt'⟩ := counter_lt hle
    refine ⟨hle, ?_, ?_, rfl⟩
    · rw [Option.some.inj heid, State.nextEid, BitVec.toNat_setWidth, Nat.mod_eq_of_lt hlt]
    · have hone : (1#(f.ow - 1)).toNat = 1 := by
        rw [BitVec.toNat_ofNat, Nat.mod_eq_of_lt (by omega)]
      show (s.eidCounter + 1#(f.ow - 1)).toNat = _
      rw [BitVec.toNat_add, hone, Nat.mod_eq_of_lt hlt']
  · cases hgen.1

theorem genEid_none {s s' : State f} (h : genEid s = .ok (none, s')) : s' = s := by
  have hgen := genEid_eq_ok.1 h
  split at hgen
  · cases hgen.1
  · exact hgen.2

/-! ## The instructions -/

theorem idStep_of_eq {c c' : BitVec (f.ow - 1) × ETable f} (h : c' = c) : IdStep c c' := by
  rw [h]
  exact .refl c

theorem idStep_of_fail {e : CapEx} {reg : RegIdx} {r : Retired} {s s' : State f}
    (h : (failWith e reg : M f Retired) s = .ok (r, s')) : IdStep s.identities s'.identities :=
  idStep_of_eq ((keeps_fail e reg).eq h)

theorem executeEInitCode_idStep {cd cs1 : RegIdx} {r : Retired} {s s' : State f}
    (h : executeEInitCode cd cs1 s = .ok (r, s')) : IdStep s.identities s'.identities := by
  obtain ⟨a, t, hget, h⟩ := Prog.bind_eq_ok.1 h
  obtain ⟨rfl, rfl⟩ := get_eq_ok.1 hget
  simp only [ite_eq_ok] at h
  rcases h with ⟨-, h⟩ | ⟨-, ⟨-, h⟩ | ⟨-, ⟨-, h⟩ | ⟨-, ⟨-, h⟩ | ⟨-, h⟩⟩⟩⟩
  · exact idStep_of_fail h
  · exact idStep_of_fail h
  · exact idStep_of_fail h
  · exact idStep_of_fail h
  · cases hidx : s.etable.findFreeIdx with
    | none =>
      rw [hidx] at h
      exact idStep_of_fail h
    | some idx =>
      rw [hidx] at h
      obtain ⟨hlt, hfree⟩ := ETable.slot_findFreeIdx hidx
      obtain ⟨oeid, t, hgen, h⟩ := Prog.bind_eq_ok.1 h
      cases oeid with
      | none =>
        obtain rfl := genEid_none hgen
        exact idStep_of_fail h
      | some eid =>
        obtain ⟨hle, heid, hcount, htable⟩ := genEid_some hgen
        obtain ⟨-, h⟩ | ⟨-, h⟩ := ite_eq_ok.1 h
        · -- the number is lost, and the table is what it was
          have hid : s'.identities = (t.eidCounter, s.etable) := by
            rw [(keeps_fail _ _).eq h, State.identities, htable]
          rw [hid]
          refine ⟨?_, .inr ⟨hcount, hle⟩⟩
          show FreshTable.Step _ _ _ ⟨t.eidCounter.toNat, s.etable.slot⟩
          refine .skip ?_
          show s.eidCounter.toNat ≤ t.eidCounter.toNat
          omega
        · obtain ⟨u, t', hadd, h⟩ := Prog.bind_eq_ok.1 h
          obtain ⟨u', t'', hmod, h⟩ := Prog.bind_eq_ok.1 h
          obtain ⟨-, rfl⟩ := pure_eq_ok.1 h
          obtain ⟨v, t₁, hassert, hset⟩ := Prog.bind_eq_ok.1 hadd
          obtain rfl := silent_assert _ _ _ _ hassert
          obtain rfl := modify_eq_ok.1 hset
          obtain rfl := modify_eq_ok.1 hmod
          rw [State.wC_identities]
          refine ⟨?_, .inr ⟨hcount, hle⟩⟩
          have hto : freshTable (State.identities { t₁ with
              etable := t₁.etable.set idx (some ⟨0, eid, true⟩) })
              = ⟨s.eidCounter.toNat + 1,
                Function.update s.etable.slot idx (some ⟨0, eid, true⟩)⟩ := by
            show FreshTable.mk t₁.eidCounter.toNat
              (t₁.etable.set idx (some ⟨0, eid, true⟩)).slot = _
            rw [hcount, htable, ETable.slot_set _ hlt]
          rw [hto]
          exact .issue hfree heid

theorem executeEDeinit_idStep {rd cs1 : RegIdx} {r : Retired} {s s' : State f}
    (h : executeEDeinit rd cs1 s = .ok (r, s')) : IdStep s.identities s'.identities := by
  obtain ⟨a, t, hget, h⟩ := Prog.bind_eq_ok.1 h
  obtain ⟨rfl, rfl⟩ := get_eq_ok.1 hget
  simp only [ite_eq_ok] at h
  rcases h with ⟨-, h⟩ | ⟨-, ⟨-, h⟩ | ⟨-, ⟨-, h⟩ | ⟨-, ⟨-, h⟩ | ⟨-, ⟨-, h⟩ | ⟨-, h⟩⟩⟩⟩⟩
  · exact idStep_of_fail h
  · exact idStep_of_fail h
  · exact idStep_of_fail h
  · exact idStep_of_fail h
  · exact idStep_of_fail h
  · cases hrem : s.etable.removeMapping (otypeToEid ((s.rC cs1).address.setWidth f.ow)) with
    | none =>
      rw [hrem] at h
      obtain ⟨u, t, hset, h⟩ := Prog.bind_eq_ok.1 h
      obtain ⟨-, rfl⟩ := pure_eq_ok.1 h
      obtain rfl := set_eq_ok.1 hset
      exact idStep_of_eq (State.wC_identities _ _ _)
    | some etable =>
      rw [hrem] at h
      obtain ⟨u, t, hset, h⟩ := Prog.bind_eq_ok.1 h
      obtain ⟨-, rfl⟩ := pure_eq_ok.1 h
      obtain rfl := set_eq_ok.1 hset
      obtain ⟨i, e, -, -, hslot⟩ := ETable.removeMapping_eq_some hrem
      rw [State.wX, State.wC_identities]
      refine ⟨?_, .inl rfl⟩
      show FreshTable.Step _ _ _ ⟨s.eidCounter.toNat, etable.slot⟩
      rw [hslot]
      exact .remove i

/-- What precedes the change of the table leaves the identities alone, and so
does what follows it. -/
theorem executeEInitData_idStep {p : Platform f} (hwalk : p.WalkKeepsIdentities) {fuel : ℕ}
    {cd cs1 cs2 : RegIdx} {r : Retired} {s s' : State f}
    (h : executeEInitData p fuel cd cs1 cs2 s = .ok (r, s')) :
    IdStep s.identities s'.identities := by
  obtain ⟨a, t, hget, h⟩ := Prog.bind_eq_ok.1 h
  obtain ⟨rfl, rfl⟩ := get_eq_ok.1 hget
  simp only [ite_eq_ok, throw_ne_ok, and_false, false_or] at h
  rcases h with ⟨-, h⟩ | ⟨-, ⟨-, h⟩ | ⟨-, ⟨-, h⟩ | ⟨-, ⟨-, h⟩ | ⟨-, ⟨-, h⟩ | ⟨-, ⟨-, h⟩ |
    ⟨-, -, ⟨-, h⟩ | ⟨-, ⟨-, h⟩ | ⟨-, h⟩⟩⟩⟩⟩⟩⟩⟩
  · exact idStep_of_fail h
  · exact idStep_of_fail h
  · exact idStep_of_fail h
  · exact idStep_of_fail h
  · exact idStep_of_fail h
  · exact idStep_of_fail h
  · exact idStep_of_fail h
  · exact idStep_of_fail h
  · revert h
    cases s.etable.getId (otypeToEid (s.rC cs1).otype) true with
    | none => exact idStep_of_fail
    | some entry =>
      intro h
      obtain ⟨swept, t, hsweep, h⟩ := Prog.bind_eq_ok.1 h
      rw [← (keeps_sweep2 hwalk _ _ _).eq hsweep]
      obtain ⟨-, h⟩ | ⟨-, h⟩ := ite_eq_ok.1 h
      · exact idStep_of_fail h
      · obtain ⟨oid, t', hhash, h⟩ := Prog.bind_eq_ok.1 h
        rw [← (keeps_makeHash hwalk _ _).eq hhash]
        cases oid with
        | none => exact idStep_of_fail h
        | some id =>
          obtain ⟨a, u, hget, h⟩ := Prog.bind_eq_ok.1 h
          obtain ⟨rfl, rfl⟩ := get_eq_ok.1 hget
          revert h
          cases hperm : t'.etable.makeMappingPerm (otypeToEid (s.rC cs1).otype) id with
          | none => exact idStep_of_fail
          | some etable =>
            intro h
            obtain ⟨u, t'', hset, h⟩ := Prog.bind_eq_ok.1 h
            obtain rfl := set_eq_ok.1 hset
            obtain ⟨i, e, hslot, -, htemp, hupd⟩ := ETable.makeMappingPerm_eq_some hperm
            rw [(keeps_finishData hwalk _ _ _ _).eq h]
            refine ⟨?_, .inl rfl⟩
            show FreshTable.Step _ _ _ ⟨t'.eidCounter.toNat, etable.slot⟩
            rw [hupd]
            exact .change hslot rfl htemp

/-- **An `EStoreId` for an enclave that is not in the table** stores nothing,
and where it retires it says so. -/
theorem executeEStoreId_of_absent {p : Platform f} {rd rs1 cs2 : RegIdx} {r : Retired}
    {s s' : State f} (habs : s.etable.Absent (otypeToEid ((s.rX rs1).setWidth f.ow)))
    (h : executeEStoreId p rd rs1 cs2 s = .ok (r, s')) :
    s'.mem = s.mem ∧ s'.tags = s.tags ∧ (r = .RETIRE_SUCCESS → s' = s.wX rd 0) := by
  obtain ⟨a, t, hget, h⟩ := Prog.bind_eq_ok.1 h
  obtain ⟨rfl, rfl⟩ := get_eq_ok.1 hget
  have hfail : ∀ {e : CapEx} {reg : RegIdx}, (failWith e reg : M f Retired) s = .ok (r, s') →
      s'.mem = s.mem ∧ s'.tags = s.tags ∧ (r = .RETIRE_SUCCESS → s' = s.wX rd 0) := by
    intro e reg h
    have hkept := (keeps_failWith e reg).eq h
    refine ⟨congrArg (fun u => u.2.2.1) hkept, congrArg (fun u => u.2.2.2) hkept, ?_⟩
    rintro rfl
    exact absurd h failWith_ne_success
  simp only [ite_eq_ok] at h
  rcases h with ⟨-, h⟩ | ⟨-, ⟨-, h⟩ | ⟨-, ⟨-, h⟩ | ⟨-, h⟩⟩⟩
  · exact hfail h
  · exact hfail h
  · exact hfail h
  · cases hid : s.etable.getId (otypeToEid ((s.rX rs1).setWidth f.ow)) false with
    | some e =>
      obtain ⟨⟨i, hi⟩, he, -⟩ := ETable.getIdH_eq_some hid
      exact absurd he (habs i e (ETable.slot_eq_some.2 hi))
    | none =>
      rw [hid] at h
      obtain ⟨u, t, hset, h⟩ := Prog.bind_eq_ok.1 h
      obtain ⟨-, rfl⟩ := pure_eq_ok.1 h
      obtain rfl := set_eq_ok.1 hset
      exact ⟨State.wC_mem _ _ _, State.wC_tags _ _ _, fun _ => rfl⟩

/-! ## Runs -/

/-- The instructions that write the identities. -/
inductive EnclaveInstr where
  | EInitCode (cd cs1 : RegIdx)
  | EInitData (cd cs1 cs2 : RegIdx)
  | EDeinit (rd cs1 : RegIdx)
deriving DecidableEq, Repr

def EnclaveInstr.execute (p : Platform f) (fuel : ℕ) : EnclaveInstr → M f Retired
  | EInitCode cd cs1 => executeEInitCode cd cs1
  | EInitData cd cs1 cs2 => executeEInitData p fuel cd cs1 cs2
  | EDeinit rd cs1 => executeEDeinit rd cs1

/-- **A step of the machine**: one of these instructions is executed, retired
or not, or the rest of the machine does anything else. -/
inductive Step (p : Platform f) (s s' : State f) : Prop
  | execute (i : EnclaveInstr) (fuel : ℕ) (r : Retired) (h : i.execute p fuel s = .ok (r, s'))
  | other (h : s'.identities = s.identities)

theorem Step.idStep {p : Platform f} (hwalk : p.WalkKeepsIdentities) {s s' : State f}
    (h : Step p s s') : IdStep s.identities s'.identities := by
  cases h with
  | execute i fuel r h =>
    cases i with
    | EInitCode cd cs1 => exact executeEInitCode_idStep h
    | EInitData cd cs1 cs2 => exact executeEInitData_idStep hwalk h
    | EDeinit rd cs1 => exact executeEDeinit_idStep h
  | other h => exact idStep_of_eq h

/-- A run of the machine. -/
abbrev Steps (p : Platform f) : State f → State f → Prop := Relation.ReflTransGen (Step p)

theorem Steps.fresh {p : Platform f} (hwalk : p.WalkKeepsIdentities) {s s' : State f}
    (h : Steps p s s') :
    Relation.ReflTransGen (FreshTable.Step EMapping.key EMapping.Changeable)
      (freshTable s.identities) (freshTable s'.identities) := by
  induction h with
  | refl => exact .refl
  | tail _ h ih => exact ih.tail (h.idStep hwalk).step

/-- Every number issued had its four object types. -/
theorem Steps.counter_le {p : Platform f} (hwalk : p.WalkKeepsIdentities) {s s' : State f}
    (h : Steps p s s') (h0 : 4 * s.eidCounter.toNat ≤ f.capMaxOtype + 1) :
    4 * s'.eidCounter.toNat ≤ f.capMaxOtype + 1 := by
  induction h with
  | refl => exact h0
  | @tail t t' _ h ih =>
    have hcounts : t'.eidCounter.toNat = t.eidCounter.toNat ∨
        t'.eidCounter.toNat = t.eidCounter.toNat + 1
          ∧ 4 * t.eidCounter.toNat + 3 ≤ f.capMaxOtype := (h.idStep hwalk).counts
    omega

/-- **The invariant of the table** holds in every state a run reaches from the
initial one. -/
theorem Steps.inv {p : Platform f} (hwalk : p.WalkKeepsIdentities) {s₀ s : State f}
    (htable : s₀.etable = initETable) (hrun : Steps p s₀ s) :
    FreshTable.Inv EMapping.key (freshTable s.identities) := by
  have hinv₀ : FreshTable.Inv EMapping.key (freshTable s₀.identities) := by
    refine FreshTable.inv_of_forall_none (fun i => ?_)
    show s₀.etable.slot i = none
    rw [htable]
    cases hi : (initETable : ETable f).slot i with
    | none => rfl
    | some e =>
      have hmem := List.mem_of_getElem? (ETable.slot_eq_some.1 hi)
      cases List.eq_of_mem_replicate hmem
  exact hinv₀.steps (Steps.fresh hwalk hrun)

/-- No two slots belong to one enclave. -/
theorem ETable.unique_of_inv {s : State f}
    (h : FreshTable.Inv EMapping.key (freshTable s.identities)) : s.etable.Unique :=
  fun _ _ _ _ hi hj he => h.unique hi hj (congrArg BitVec.toNat he)

/-- The object types of an entry are not reserved. -/
theorem Steps.issued {p : Platform f} (hwalk : p.WalkKeepsIdentities) {s₀ s : State f}
    (hcounter : s₀.eidCounter = 0) (htable : s₀.etable = initETable) (hrun : Steps p s₀ s) {i : ℕ}
    {e : EMapping f} (hi : s.etable.slot i = some e) : 4 * e.eid.toNat + 3 ≤ f.capMaxOtype := by
  have hlt : e.eid.toNat < s.eidCounter.toNat := (Steps.inv hwalk htable hrun).issued hi
  have hbound : 4 * s.eidCounter.toNat ≤ f.capMaxOtype + 1 := by
    refine Steps.counter_le hwalk hrun ?_
    rw [hcounter]
    exact Nat.zero_le _
  omega

/-- **The laws of the identities in a state**, for the runs that go on from
it. -/
structure IdentityLaws (p : Platform f) (s : State f) : Prop where
  unique : s.etable.Unique
  searches : s.etable.SearchesRight
  issued : ∀ i e, s.etable.slot i = some e →
    e.eid.toNat < s.eidCounter.toNat ∧ 4 * e.eid.toNat + 3 ≤ f.capMaxOtype
  /-- The counter is moved by one at most, as a number: it does not wrap. -/
  counts : ∀ s', Step p s s' →
    s'.eidCounter.toNat = s.eidCounter.toNat ∨ s'.eidCounter.toNat = s.eidCounter.toNat + 1
  monotone : ∀ s', Steps p s s' → s.eidCounter.toNat ≤ s'.eidCounter.toNat
  /-- A permanent entry is what it was, wherever its enclave is found again. -/
  permanent : ∀ s', Steps p s s' → ∀ i e, s.etable.slot i = some e → e.isTemp = false →
    ∀ j e', s'.etable.slot j = some e' → e'.eid = e.eid → j = i ∧ e' = e
  /-- An enclave that was taken out does not come back, and its object types
  name nothing. -/
  removed : ∀ s', Steps p s s' → ∀ i e, s.etable.slot i = some e → s'.etable.Absent e.eid →
    ∀ s'', Steps p s' s'' → s''.etable.Absent e.eid
      ∧ ∀ rd rs1 cs2 r t, otypeToEid ((s''.rX rs1).setWidth f.ow) = e.eid →
        executeEStoreId p rd rs1 cs2 s'' = .ok (r, t) →
        t.mem = s''.mem ∧ t.tags = s''.tags ∧ (r = .RETIRE_SUCCESS → t = s''.wX rd 0)

/-- **The laws hold in every state a run reaches from the initial one.** -/
theorem identityLaws_of_run (p : Platform f) (hwalk : p.WalkKeepsIdentities) (s₀ s : State f)
    (hcounter : s₀.eidCounter = 0) (htable : s₀.etable = initETable) (hrun : Steps p s₀ s) :
    IdentityLaws p s := by
  have hinv := Steps.inv hwalk htable hrun
  have hunique := ETable.unique_of_inv hinv
  have hissued : ∀ {i e}, s.etable.slot i = some e → e.eid.toNat < s.eidCounter.toNat :=
    fun h => hinv.issued h
  refine ⟨hunique, hunique.searchesRight, ?_, ?_, ?_, ?_, ?_⟩
  · intro i e hi
    exact ⟨hissued hi, Steps.issued hwalk hcounter htable hrun hi⟩
  · intro s' hstep
    exact (hstep.idStep hwalk).counts.imp id And.left
  · intro s' hrun'
    exact FreshTable.Steps.counter_le (Steps.fresh hwalk hrun')
  · intro s' hrun' i e hi hperm j e' hj he
    obtain ⟨rfl, hchange⟩ := FreshTable.Steps.related hinv (Steps.fresh hwalk hrun') hi hj
      (congrArg BitVec.toNat he)
    refine ⟨rfl, ?_⟩
    -- a permanent entry is not changed any more
    cases hchange.cases_head with
    | inl h => exact h.symm
    | inr h =>
      obtain ⟨c, hc, -⟩ := h
      exact absurd (hperm.symm.trans hc) Bool.false_ne_true
  · intro s' hrun' i e hi habs s'' hrun''
    have hlt : e.key < (freshTable s'.identities).counter :=
      lt_of_lt_of_le (hissued hi) (FreshTable.Steps.counter_le (Steps.fresh hwalk hrun'))
    have habs' : FreshTable.Absent EMapping.key (freshTable s'.identities) e.key :=
      fun j e' hj hkey => habs j e' hj (BitVec.eq_of_toNat_eq hkey)
    have habs'' := FreshTable.Steps.absent hlt habs' (Steps.fresh hwalk hrun'')
    have hgone : s''.etable.Absent e.eid :=
      fun j e' hj he => habs'' j e' hj (congrArg BitVec.toNat he)
    refine ⟨hgone, fun rd rs1 cs2 r t heid h => ?_⟩
    rw [← heid] at hgone
    exact executeEStoreId_of_absent hgone h

/-- The small machine before any enclave, with a code section in `c1`. -/
def bootState : State .cheri64 :=
  { smallState with
    x := fun r => if r = 1 then .bounded 0x80000010 0x80000018 else .nullCap _
    eidCounter := 0
    etable := initETable }

/-- The first enclave of the machine is entered, and the laws hold. -/
theorem bootState_identityLaws :
    ∃ s', executeEInitCode 1 1 bootState = .ok (.RETIRE_SUCCESS, s')
      ∧ IdentityLaws smallPlatform s' := by
  obtain ⟨s', hrun⟩ := exists_ok_of_map_fst (a := .RETIRE_SUCCESS)
    (show (executeEInitCode 1 1 bootState).toOption.map Prod.fst = _ by decide +kernel)
  refine ⟨s', hrun, identityLaws_of_run smallPlatform ?_ bootState s' rfl rfl
    (.single (.execute (.EInitCode 1 1) 0 .RETIRE_SUCCESS hrun))⟩
  exact fun _ _ _ _ => (silent_throw _).keeps

end Sail
