import CheriTree.FreshTable
import CheriTree.Proteus.StoreAnswers

/-!
# The identity store as a table with a counter

The entries in use are a table whose keys the counter of the ids issues: no two
of them are under one id, whatever requests were served since reset. A search
that stops at the first entry of an id therefore finds what a search of all the
entries does.
-/

namespace Proteus

namespace IdentityStore

variable {w : ℕ} {st st' : IdentityStore w}

/-- **What a request may do to the store.** -/
inductive Update : IdentityStore w → IdentityStore w → Prop
  | initEntry (st : IdentityStore w) : Update st st.initEntry.2
  | finishEntry (st : IdentityStore w) (otype : ObjectType) (hash : Digest) :
      Update st (st.finishEntry otype hash).2

/-- **A store that requests lead to from reset.** -/
def Reachable (st : IdentityStore w) : Prop :=
  ∃ numEnclaveIds numEntries, numEnclaveIds ≤ 2 ^ w
    ∧ Relation.ReflTransGen Update (reset numEnclaveIds numEntries) st

/-- The key of an entry. -/
def key (e : Entry w) : ℕ := e.id.id.toNat

/-- What may happen to an entry in use: it is finished. -/
def Finishes (_ e' : Entry w) : Prop := e'.ready = true

/-- The entries in use, and the counter. -/
def toTable (st : IdentityStore w) : FreshTable ℕ (Entry w) where
  counter := st.nextId
  slots := fun i => st.entries[i]?.filter (·.used)

/-- **The invariant**: the ids in use were issued, once each, and are valid; the
others are not. -/
structure Inv (st : IdentityStore w) : Prop where
  table : FreshTable.Inv key st.toTable
  valid : ∀ e ∈ st.entries, e.id.valid = e.used
  counter : st.nextId ≤ st.numEnclaveIds
  fits : st.numEnclaveIds ≤ 2 ^ w

theorem toTable_slot {i : ℕ} {e : Entry w} :
    st.toTable.slots i = some e ↔ st.entries[i]? = some e ∧ e.used = true :=
  Option.filter_eq_some_iff

/-- Writing an entry in use is writing a slot. -/
theorem slots_set {l : List (Entry w)} {n : ℕ} {e new : Entry w} (hn : l[n]? = some e)
    (hnew : new.used = true) :
    (fun i => (l.set n new)[i]?.filter (·.used))
      = Function.update (fun i => l[i]?.filter (·.used)) n (some new) := by
  funext i
  obtain ⟨hlt, -⟩ := List.getElem?_eq_some_iff.1 hn
  by_cases hi : i = n
  · subst hi
    rw [Function.update_self, List.getElem?_set_self hlt]
    exact Option.filter_eq_some_iff.2 ⟨rfl, hnew⟩
  · rw [Function.update_of_ne hi, List.getElem?_set_ne (Ne.symm hi)]

/-- The store of reset. -/
theorem inv_reset {numEnclaveIds : ℕ} (numEntries : ℕ) (h : numEnclaveIds ≤ 2 ^ w) :
    (reset numEnclaveIds numEntries : IdentityStore w).Inv where
  table := by
    refine FreshTable.inv_of_forall_none fun i => ?_
    cases hi : (reset numEnclaveIds numEntries : IdentityStore w).toTable.slots i with
    | none => rfl
    | some e =>
      obtain ⟨he, hused⟩ := toTable_slot.1 hi
      rw [List.eq_of_mem_replicate (List.mem_of_getElem? he)] at hused
      cases hused
  valid e he := by
    rw [List.eq_of_mem_replicate he]
    rfl
  counter := Nat.zero_le _
  fits := h

/-- An entry written keeps valid what is in use. -/
theorem valid_set {l : List (Entry w)} {n : ℕ} {new : Entry w}
    (h : ∀ e ∈ l, e.id.valid = e.used) (hnew : new.id.valid = new.used) :
    ∀ e ∈ l.set n new, e.id.valid = e.used := by
  intro e he
  obtain he | rfl := List.mem_or_eq_of_mem_set he
  · exact h e he
  · exact hnew

/-- **Allocating an entry** is a step of the table. -/
theorem Inv.initEntry (h : st.Inv) : st.initEntry.2.Inv := by
  have hcounter := h.counter
  have hfits := h.fits
  unfold IdentityStore.initEntry
  split
  · rename_i havail
    have hlt : st.nextId < st.numEnclaveIds := by
      have hne : st.nextId ≠ st.numEnclaveIds := by simpa [idAvailable] using havail
      omega
    simp only
    split
    · rename_i entries hwalk
      obtain ⟨n, e, hn, hused, rfl⟩ := initWalk_eq_some hwalk
      refine ⟨?_, valid_set h.valid rfl, hlt, hfits⟩
      have hfree : st.toTable.slots n = none := by
        show st.entries[n]?.filter _ = none
        rw [hn]
        simp [Option.filter, hused]
      have hkey : key (w := w) { (Entry.empty : Entry w) with
          used := true
          id := ⟨true, BitVec.ofNat w st.nextId⟩ } = st.nextId := by
        show (BitVec.ofNat w st.nextId).toNat = _
        rw [BitVec.toNat_ofNat, Nat.mod_eq_of_lt (by omega)]
      have hstep := h.table.step (.issue (R := Finishes) hfree hkey)
      rw [show st.toTable.slots = fun i => st.entries[i]?.filter (·.used) from rfl,
        ← slots_set hn rfl] at hstep
      exact hstep
    · exact h
  · exact h

/-- **Recording a digest** is a step of the table. -/
theorem Inv.finishEntry (h : st.Inv) (otype : ObjectType) (hash : Digest) :
    (st.finishEntry otype hash).2.Inv := by
  unfold IdentityStore.finishEntry
  simp only
  split
  · split
    · rename_i entries hwalk
      obtain ⟨n, e, hn, hused, rfl⟩ := finishWalk_eq_some hwalk
      refine ⟨?_, valid_set h.valid (h.valid e (List.mem_of_getElem? hn)), h.counter, h.fits⟩
      have hstep := h.table.step (.change (R := Finishes) (b := { e with
        hash := hash
        ready := true }) (toTable_slot.2 ⟨hn, hused⟩) rfl rfl)
      rw [show st.toTable.slots = fun i => st.entries[i]?.filter (·.used) from rfl,
        ← slots_set hn (show { e with
          hash := hash
          ready := true }.used = true from hused)] at hstep
      exact hstep
    · exact h
  · exact h

/-- **The invariant holds of every store that is reached.** -/
theorem Reachable.inv (h : st.Reachable) : st.Inv := by
  obtain ⟨numEnclaveIds, numEntries, hfits, hrun⟩ := h
  induction hrun with
  | refl => exact inv_reset numEntries hfits
  | tail _ hupdate ih =>
    cases hupdate with
    | initEntry => exact ih.initEntry
    | finishEntry otype hash => exact ih.finishEntry otype hash

/-! ## What is allocated -/

/-- There is an id left, and an entry. -/
def CanAllocate (st : IdentityStore w) : Prop :=
  st.idAvailable = true ∧ ∃ e ∈ st.entries, e.used = false

/-- **Exactly one unfinished entry is added**, under the next id. -/
def Adds (st st' : IdentityStore w) : Prop :=
  ∃ n e, st.entries[n]? = some e ∧ e.used = false ∧ st' = { st with
    nextId := st.nextId + 1
    entries := st.entries.set n ⟨true, false, ⟨true, BitVec.ofNat w st.nextId⟩, 0⟩ }

/-- A free entry is found. -/
theorem initWalk_isSome (new : Entry w) {l : List (Entry w)} (h : ∃ e ∈ l, e.used = false) :
    ∃ l', initWalk new l = some l' := by
  cases hw : initWalk new l with
  | some l' => exact ⟨l', rfl⟩
  | none =>
    obtain ⟨e, he, hfree⟩ := h
    exfalso
    induction l with
    | nil => cases he
    | cons b l ih =>
      unfold initWalk at hw
      split at hw
      · cases hw
      · rename_i hused
        rw [Option.map_eq_none_iff] at hw
        rcases List.mem_cons.1 he with rfl | he
        · rw [hfree] at hused
          exact hused rfl
        · exact ih hw he

/-- **An allocation that can be made is made.** -/
theorem CanAllocate.initEntry (h : st.CanAllocate) :
    st.initEntry.1 = ⟨true, BitVec.ofNat w st.nextId⟩ ∧ st.Adds st.initEntry.2 := by
  obtain ⟨l', hl'⟩ := initWalk_isSome
    { (Entry.empty : Entry w) with used := true, id := ⟨true, BitVec.ofNat w st.nextId⟩ } h.2
  obtain ⟨n, e, hn, hfree, rfl⟩ := initWalk_eq_some hl'
  unfold IdentityStore.initEntry
  rw [if_pos h.1]
  simp only
  rw [hl']
  exact ⟨rfl, n, e, hn, hfree, rfl⟩

/-- One that cannot be made leaves the store as it is. -/
theorem initEntry_of_not (h : ¬ st.CanAllocate) : st.initEntry = (.setInvalid, st) := by
  unfold IdentityStore.initEntry
  split
  · rename_i havail
    have hall : ∀ e ∈ st.entries, e.used = true := by
      intro e he
      by_contra hfree
      exact h ⟨havail, e, he, Bool.not_eq_true _ ▸ hfree⟩
    simp only
    rw [initWalk_of_forall _ hall]
  · rfl

theorem Adds.ne (h : st.Adds st') : st' ≠ st := by
  rintro rfl
  obtain ⟨n, e, -, -, heq⟩ := h
  have := congrArg IdentityStore.nextId heq
  simp at this

theorem CanAllocate.ne_nextId (h : st.CanAllocate) : st.nextId ≠ st.numEnclaveIds :=
  of_decide_eq_true h.1

/-! ## What is finished -/

/-- **A digest is recorded** for an entry that waits for it. -/
def Records (st st' : IdentityStore w) (n : ℕ) (e : Entry w) (hash : Digest) : Prop :=
  st.entries[n]? = some e ∧ e.used = true ∧ e.ready = false
    ∧ st' = { st with entries := st.entries.set n { e with hash := hash, ready := true } }

/-- The id of an object type is under one entry at most. -/
theorem Inv.id_unique (h : st.Inv) {eid : EnclaveId w} (hvalid : eid.valid = true) {i j : ℕ}
    {e e' : Entry w} (hi : st.entries[i]? = some e) (hj : st.entries[j]? = some e')
    (he : e.id = eid) (he' : e'.id = eid) : i = j := by
  have hused : e.used = true := by
    rw [← h.valid e (List.mem_of_getElem? hi), he, hvalid]
  have hused' : e'.used = true := by
    rw [← h.valid e' (List.mem_of_getElem? hj), he', hvalid]
  refine h.table.unique (toTable_slot.2 ⟨hi, hused⟩) (toTable_slot.2 ⟨hj, hused'⟩) ?_
  show e.id.id.toNat = e'.id.id.toNat
  rw [he, he']

/-- **A digest is recorded for the entry that is found unfinished**, or there is
none and neither request does anything. -/
theorem Inv.finish_cases (h : st.Inv) (otype : ObjectType) (hash : Digest) :
    (∃ n e, st.Records (st.finishEntry otype hash).2 n e hash
        ∧ e.id = (.assignFromOtype otype : EnclaveId w) ∧ e.id.valid = true
        ∧ st.getUnfinishedEntry otype = e.id ∧ (st.finishEntry otype hash).1 = e.id)
      ∨ (st.getUnfinishedEntry otype = .setInvalid
        ∧ st.finishEntry otype hash = (.setInvalid, st)) := by
  unfold IdentityStore.finishEntry IdentityStore.getUnfinishedEntry
  cases hvalid : (EnclaveId.assignFromOtype otype : EnclaveId w).valid with
  | false =>
    right
    simp [hvalid]
  | true =>
    simp only [hvalid, if_true]
    by_cases hex : ∃ e ∈ st.entries, e.id = (EnclaveId.assignFromOtype otype : EnclaveId w)
    · obtain ⟨e, hmem, hid⟩ := hex
      obtain ⟨n, hn⟩ := List.getElem?_of_mem hmem
      have hused : e.used = true := by
        rw [← h.valid e hmem, hid, hvalid]
      -- the entries before it are under other ids
      have hbefore : Before st.entries n
          (fun e => e.id ≠ (EnclaveId.assignFromOtype otype : EnclaveId w)) := by
        intro k hk e' hk' he'
        exact absurd (h.id_unique hvalid hk' hn he' hid) (Nat.ne_of_lt hk)
      rw [finishWalk_of_before hash hbefore hn hid]
      cases hready : e.ready with
      | false =>
        have hfind : st.entries.find? (fun e => e.used && !e.ready
            && decide (e.id = EnclaveId.assignFromOtype otype)) = some e := by
          refine find?_of_before (n := n) (fun k hk e' hk' => ?_) hn ?_
          · show (e'.used && !e'.ready && decide (e'.id = EnclaveId.assignFromOtype otype)) = false
            rw [decide_eq_false (hbefore k hk e' hk'), Bool.and_false]
          · rw [hused, hready, decide_eq_true hid]
            rfl
        left
        rw [hfind, if_pos (by rw [hused]; rfl)]
        exact ⟨n, e, ⟨hn, hused, hready, rfl⟩, hid, by rw [hid, hvalid], rfl, hid.symm⟩
      | true =>
        have hfind : st.entries.find? (fun e => e.used && !e.ready
            && decide (e.id = EnclaveId.assignFromOtype otype)) = none := by
          refine List.find?_eq_none.2 (fun e' hmem' => ?_)
          obtain ⟨k, hk⟩ := List.getElem?_of_mem hmem'
          by_cases he' : e'.id = EnclaveId.assignFromOtype otype
          · obtain rfl := h.id_unique hvalid hk hn he' hid
            rw [hn] at hk
            rw [← Option.some.inj hk, hready]
            simp
          · rw [decide_eq_false he']
            simp
        right
        rw [hfind, if_neg (by rw [hused]; decide)]
        exact ⟨rfl, rfl⟩
    · right
      have hno : ∀ e ∈ st.entries, e.id ≠ (EnclaveId.assignFromOtype otype : EnclaveId w) :=
        fun e he hid => hex ⟨e, he, hid⟩
      have hfind : st.entries.find? (fun e => e.used && !e.ready
          && decide (e.id = EnclaveId.assignFromOtype otype)) = none := by
        refine List.find?_eq_none.2 (fun e he => ?_)
        rw [decide_eq_false (hno e he)]
        simp
      rw [finishWalk_of_forall hash hno, hfind]
      exact ⟨rfl, rfl⟩

/-! ## The lookup -/

/-- **A finished enclave**: an entry in use under its id, with a digest. -/
def Finished (st : IdentityStore w) (id : ℕ) : Prop :=
  ∃ e ∈ st.entries, e.used = true ∧ e.ready = true ∧ e.id.id.toNat = id

/-- An object type past the largest id, as an integer, is not answered. -/
theorem getHash_of_lt (st : IdentityStore w) {otype : Word} (h : 2 ^ w - 1 < otype.toNat) :
    st.getHash otype = none := by
  have hinvalid : (EnclaveId.assignFromOtype otype : EnclaveId w).valid = false :=
    decide_eq_false (by omega)
  unfold getHash
  simp only
  rw [hinvalid, if_neg Bool.false_ne_true]

/-- **What `getHash` answers** to the others: whether the enclave is finished. -/
theorem Inv.getHash_answers (h : st.Inv) (otype : Word) (hle : otype.toNat ≤ 2 ^ w - 1) :
    ∃ answer, st.getHash otype = some answer
      ∧ (answer.isSome = true ↔ st.Finished (otype.toNat / 4)) := by
  have hpos := Nat.two_pow_pos w
  have hvalid : (EnclaveId.assignFromOtype otype : EnclaveId w).valid = true :=
    decide_eq_true hle
  have hid : (EnclaveId.assignFromOtype otype : EnclaveId w).id.toNat = otype.toNat / 4 :=
    EnclaveId.toNat_assignFromOtype (by omega)
  -- an entry of the id is in use, and is the only one
  have hmatch : ∀ e ∈ st.entries, (e.id = (EnclaveId.assignFromOtype otype : EnclaveId w)) ↔
      e.used = true ∧ e.id.id.toNat = otype.toNat / 4 := by
    intro e he
    rw [EnclaveId.ext_iff, hvalid, h.valid e he, ← hid]
    exact and_congr_right fun _ => ⟨congrArg _, BitVec.eq_of_toNat_eq⟩
  unfold getHash
  simp only
  rw [hvalid, if_pos rfl]
  split
  · rename_i e hfind
    refine ⟨_, rfl, ?_⟩
    have hmem := List.mem_of_find?_eq_some hfind
    have hthis : e.id = (EnclaveId.assignFromOtype otype : EnclaveId w) := by
      simpa using List.find?_some hfind
    obtain ⟨hused, hnum⟩ := (hmatch e hmem).1 hthis
    have hsome : (if e.used && e.ready then some e.hash else none).isSome = true
        ↔ e.ready = true := by
      rw [hused, Bool.true_and]
      split <;> simp_all
    rw [hsome]
    constructor
    · exact fun hready => ⟨e, hmem, hused, hready, hnum⟩
    · rintro ⟨e', hmem', hused', hready', hnum'⟩
      obtain ⟨i, hi⟩ := List.getElem?_of_mem hmem
      obtain ⟨j, hj⟩ := List.getElem?_of_mem hmem'
      have hij := h.id_unique hvalid hi hj hthis ((hmatch e' hmem').2 ⟨hused', hnum'⟩)
      rw [hij, hj] at hi
      rw [← Option.some.inj hi]
      exact hready'
  · rename_i hfind
    refine ⟨_, rfl, fun hsome => absurd hsome (by simp), ?_⟩
    rintro ⟨e, hmem, hused, -, hnum⟩
    have hno := List.find?_eq_none.1 hfind e hmem
    exact absurd ((hmatch e hmem).2 ⟨hused, hnum⟩) (by simpa using hno)

end IdentityStore

end Proteus
