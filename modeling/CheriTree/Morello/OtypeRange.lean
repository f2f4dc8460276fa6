import CheriTree.Morello.StoreInvariant
import CheriTree.SyncMachine

/-!
# The object types of the generated ids

An id stands for four object types, and its seals are for the first three of
them. The ids start at one, since an object type has to be above three, and as
many are given out as the range has room for: so the last one is past the end of
the range, and where the range starts does not matter at all. It goes well where
the table is too small for the last id to be reached.
-/

namespace Morello

variable {b : Build}

/-! ## What the calls generate -/

namespace IdentityStore

/-- `initEntry` asks for an id: what `generateEnclaveID` gives, where there is an
entry for it. -/
def requestedID (s : IdentityStore b) : Option ℤ :=
  if (s.firstEntry (fun e => !e.used)).isSome then some s.generateEnclaveID.1 else none

/-- **Calls of `EINIT_CODE`**, seen by what `generateEnclaveID` gives. -/
def codeMachine (b : Build) : SyncMachine (IdentityStore b) Capability (Option ℤ) where
  step := fun s code => ((einitCode s code).2, s.requestedID)

/-- The ids that are generated in some calls of `EINIT_CODE`: what is not
negative. -/
def generated (s : IdentityStore b) (codes : List Capability) : List ℤ :=
  ((codeMachine b).observe s codes).reduceOption.filter (fun id => decide (0 ≤ id))

/-- The number of entries in use. -/
def numUsed (s : IdentityStore b) : ℕ :=
  (Finset.univ.filter (fun i => (s.entries i).used = true)).card

end IdentityStore

/-- The ids there are: as many as the range has room for, and the table. -/
def Build.numIds (b : Build) : ℤ := min b.maxEntries b.numEnclaveIds

/-- An object type that a seal is for. -/
def Capability.Seals (c : Capability) (otype : ℕ) : Prop := otype ∈ c.range.bytes

/-- The seals of an id. -/
def sealsOf (id : ℤ) : List Capability :=
  [signSeal, encSeal, identSeal, signEncSeal].map (fun f => f rootCap (BitVec.ofInt 64 id))

/-- **The object types of the generated ids are in order**: those of their seals
are in the range, two ids have none in common, and no id is generated twice. -/
structure OtypesInOrder (b : Build) : Prop where
  inRange : ∀ codes, ∀ id ∈ IdentityStore.generated (.reset b) codes, ∀ c ∈ sealsOf id,
    ∀ o : ℕ, c.Seals o → b.otypeRangeStart ≤ o ∧ o < b.otypeRangeEnd
  disjoint : ∀ codes, ∀ id ∈ IdentityStore.generated (.reset b) codes,
    ∀ id' ∈ IdentityStore.generated (.reset b) codes, id ≠ id' →
      ∀ c ∈ sealsOf id, ∀ c' ∈ sealsOf id', ∀ o, ¬ (c.Seals o ∧ c'.Seals o)
  once : ∀ codes, (IdentityStore.generated (.reset b) codes).Nodup

/-! ## One call -/

namespace IdentityStore

variable {s : IdentityStore b}

theorem numUsed_set {i : Fin b.maxEntries} (hi : (s.entries i).used = false) {e : Entry}
    (he : e.used = true) : (s.set i e).numUsed = s.numUsed + 1 := by
  have hfilter : Finset.univ.filter (fun j => ((s.set i e).entries j).used = true)
      = insert i (Finset.univ.filter (fun j => (s.entries j).used = true)) := by
    ext j
    rw [Finset.mem_insert, Finset.mem_filter, Finset.mem_filter]
    by_cases hj : j = i
    · subst hj
      rw [set_entries_self]
      exact ⟨fun _ => Or.inl rfl, fun _ => ⟨Finset.mem_univ _, he⟩⟩
    · rw [set_entries_of_ne _ hj]
      exact ⟨Or.inr, fun h => h.resolve_left hj⟩
  unfold numUsed
  rw [hfilter, Finset.card_insert_of_notMem]
  rw [Finset.mem_filter]
  rintro ⟨-, hused⟩
  rw [hi] at hused
  cases hused

theorem numUsed_lt {i : Fin b.maxEntries} (hi : (s.entries i).used = false) :
    s.numUsed < b.maxEntries := by
  have hlt : s.numUsed < (Finset.univ : Finset (Fin b.maxEntries)).card := by
    refine Finset.card_lt_card (Finset.filter_ssubset.2 ⟨i, Finset.mem_univ _, ?_⟩)
    rw [hi]
    decide
  rwa [Finset.card_univ, Fintype.card_fin] at hlt

theorem numUsed_of_forall (h : ∀ i, (s.entries i).used = true) : s.numUsed = b.maxEntries := by
  unfold numUsed
  rw [Finset.filter_true_of_mem (fun i _ => h i), Finset.card_univ, Fintype.card_fin]

/-- **What a call of `EINIT_CODE` asks for**: nothing, with all entries in use;
the value of the counter, which goes up; or an id that there is none of. -/
theorem requestedID_cases (s : IdentityStore b) :
    (s.numUsed = b.maxEntries ∧ s.requestedID = none ∧ s.initEntry.2 = s)
      ∨ (s.numUsed < b.maxEntries ∧ s.initEntry.2.numUsed = s.numUsed + 1
        ∧ ((s.idCounter < b.numEnclaveIds + 1 ∧ s.requestedID = some s.idCounter
            ∧ s.initEntry.2.idCounter = s.idCounter + 1)
          ∨ (¬ s.idCounter < b.numEnclaveIds + 1 ∧ s.requestedID = some (-1)
            ∧ s.initEntry.2.idCounter = s.idCounter))) := by
  have hsome : ∀ i, (s.entries i).used = false →
      s.requestedID = some s.generateEnclaveID.1 := by
    intro i hi
    unfold requestedID
    rw [if_pos]
    rw [Option.isSome_iff_ne_none]
    intro hnone
    have := firstEntry_none hnone i
    rw [hi] at this
    cases this
  rcases s.initEntry_cases with ⟨hall, heq⟩ | ⟨i, hused, hc, heq⟩ | ⟨i, hused, hc, heq⟩
  · refine Or.inl ⟨numUsed_of_forall hall, ?_, by rw [heq]⟩
    unfold requestedID
    rw [if_neg]
    intro hsome
    obtain ⟨i, hi⟩ := Option.isSome_iff_exists.1 hsome
    have := firstEntry_some hi
    rw [hall i] at this
    cases this
  · refine Or.inr ⟨numUsed_lt hused, ?_, Or.inl ⟨hc, ?_, by rw [heq]; rfl⟩⟩
    · rw [heq]
      exact numUsed_set (s := { s with idCounter := s.idCounter + 1 }) hused rfl
    · rw [hsome i hused, generateEnclaveID, if_pos hc]
  · refine Or.inr ⟨numUsed_lt hused, ?_, Or.inr ⟨hc, ?_, by rw [heq]; rfl⟩⟩
    · rw [heq]
      exact numUsed_set hused rfl
    · rw [hsome i hused, generateEnclaveID, if_neg hc]

theorem codeMachine_next (s : IdentityStore b) (code : Capability) :
    (codeMachine b).next s code = s.initEntry.2 := einitCode_store s code

/-! ## Every run of calls -/

theorem generated_cons (s : IdentityStore b) (code : Capability) (codes : List Capability) :
    generated s (code :: codes)
      = (s.requestedID.toList.filter (fun id => decide (0 ≤ id)))
        ++ generated s.initEntry.2 codes := by
  unfold generated
  rw [SyncMachine.observe_cons, codeMachine_next]
  show ((s.requestedID :: _).reduceOption).filter _ = _
  cases s.requestedID with
  | none => rfl
  | some id =>
    show (id :: _).filter _ = _
    rw [← List.singleton_append, List.filter_append]
    rfl

/-- A call generates the value of the counter, or nothing. -/
theorem generated_cons_cases (s : IdentityStore b) (code : Capability)
    (codes : List Capability) (h1 : 1 ≤ s.idCounter) :
    (s.numUsed < b.maxEntries ∧ s.idCounter < b.numEnclaveIds + 1
        ∧ generated s (code :: codes) = s.idCounter :: generated s.initEntry.2 codes
        ∧ s.initEntry.2.idCounter = s.idCounter + 1
        ∧ s.initEntry.2.numUsed = s.numUsed + 1)
      ∨ (generated s (code :: codes) = generated s.initEntry.2 codes
        ∧ s.initEntry.2.idCounter = s.idCounter ∧ s.numUsed ≤ s.initEntry.2.numUsed) := by
  rw [generated_cons]
  rcases s.requestedID_cases with ⟨-, hnone, hsame⟩ |
    ⟨hlt, hused, ⟨hc, hid, hnext⟩ | ⟨hc, hid, hnext⟩⟩
  · rw [hnone, hsame]
    exact Or.inr ⟨rfl, rfl, le_refl _⟩
  · refine Or.inl ⟨hlt, hc, ?_, hnext, hused⟩
    rw [hid, Option.toList_some, List.filter_cons, if_pos (by rw [decide_eq_true_iff]; omega)]
    rfl
  · rw [hid]
    exact Or.inr ⟨rfl, hnext, by omega⟩

/-- **The generated ids go up from the counter**, and stay within what the range
and the table have room for. -/
theorem generated_bounds (codes : List Capability) (s : IdentityStore b) (h1 : 1 ≤ s.idCounter)
    (hle : s.idCounter ≤ s.numUsed + 1) :
    (generated s codes).Pairwise (· < ·)
      ∧ ∀ id ∈ generated s codes, s.idCounter ≤ id ∧ id ≤ b.numIds := by
  induction codes generalizing s with
  | nil => exact ⟨List.Pairwise.nil, fun id hid => absurd hid List.not_mem_nil⟩
  | cons code codes ih =>
    rcases s.generated_cons_cases code codes h1 with
      ⟨hlt, hc, heq, hcount, hused⟩ | ⟨heq, hcount, hused⟩
    · obtain ⟨hpair, hbounds⟩ := ih s.initEntry.2 (by omega) (by omega)
      rw [heq]
      refine ⟨List.pairwise_cons.2 ⟨fun id hid => ?_, hpair⟩, fun id hid => ?_⟩
      · have := (hbounds id hid).1
        omega
      · rcases List.mem_cons.1 hid with rfl | hid
        · unfold Build.numIds
          omega
        · have := hbounds id hid
          omega
    · obtain ⟨hpair, hbounds⟩ := ih s.initEntry.2 (by omega) (by omega)
      rw [heq]
      refine ⟨hpair, fun id hid => ?_⟩
      have := hbounds id hid
      omega

theorem numUsed_reset (b : Build) : (reset b).numUsed = 0 := by
  unfold numUsed
  rw [Finset.card_eq_zero, Finset.filter_eq_empty_iff]
  intro i _ hused
  cases hused

theorem idCounter_reset (hv : b.validRange = true) : (reset b).idCounter = 1 := if_pos hv

/-- **The ids are generated one after the other.** -/
theorem mem_generated (code : Capability) (n : ℕ) (s : IdentityStore b) (h1 : 1 ≤ s.idCounter)
    (hle : s.idCounter = s.numUsed + 1) (hn : s.idCounter + n ≤ b.numIds) :
    s.idCounter + n ∈ generated s (List.replicate (n + 1) code) := by
  unfold Build.numIds at hn
  induction n generalizing s with
  | zero =>
    rw [List.replicate_succ]
    rcases s.requestedID_cases with ⟨hfull, -, -⟩ | ⟨-, -, ⟨-, hid, -⟩ | ⟨hc, -, -⟩⟩
    · omega
    · rw [generated_cons, hid, Option.toList_some, List.filter_cons,
        if_pos (by rw [decide_eq_true_iff]; exact le_trans Int.one_nonneg h1)]
      exact List.mem_append_left _ (by rw [Nat.cast_zero, add_zero]; exact List.mem_cons_self)
    · omega
  | succ n ih =>
    rw [List.replicate_succ]
    rcases s.requestedID_cases with ⟨hfull, -, -⟩ | ⟨-, hused, ⟨-, -, hnext⟩ | ⟨hc, -, -⟩⟩
    · omega
    · have := ih s.initEntry.2 (by omega) (by omega) (by omega)
      rw [hnext] at this
      rw [generated_cons]
      refine List.mem_append_right _ ?_
      rw [show s.idCounter + ((n + 1 : ℕ) : ℤ) = s.idCounter + 1 + n by omega]
      exact this
    · omega

end IdentityStore

/-! ## The seals -/

theorem numIds_lt (b : Build) : b.numIds < 2 ^ 30 := by
  have h := b.range_int
  have hid : b.numEnclaveIds < 2 ^ 30 := by
    unfold Build.numEnclaveIds
    rw [Int.tdiv_eq_ediv]
    split
    · omega
    · show _ / 4 + (1 : ℤ) < _
      omega
  unfold Build.numIds
  omega

theorem toNat_getOtype {id : ℤ} (h0 : 0 ≤ id) (h : id < 2 ^ 30) :
    (getOtype (BitVec.ofInt 64 id)).toNat = 4 * id.toNat := by
  rw [getOtype, BitVec.toNat_shiftLeft, Nat.shiftLeft_eq, BitVec.toNat_ofInt]
  omega

theorem range_createSealingCapability (w : Word) (n : ℕ) :
    (createSealingCapability rootCap w n).range = ⟨w.toNat, n⟩ := rfl

/-- **The object types of an id's seals** are the first three of its four. -/
theorem exists_seals_iff {id : ℤ} (h0 : 0 ≤ id) (h : id < 2 ^ 30) (o : ℕ) :
    (∃ c ∈ sealsOf id, c.Seals o) ↔ 4 * id ≤ o ∧ (o : ℤ) ≤ 4 * id + 2 := by
  have hbase := toNat_getOtype h0 h
  have h1 : (getOtype (BitVec.ofInt 64 id) + 1).toNat = 4 * id.toNat + 1 := by
    rw [BitVec.toNat_add, hbase]
    show (_ + 1) % _ = _
    omega
  have h2 : (getOtype (BitVec.ofInt 64 id) + 2).toNat = 4 * id.toNat + 2 := by
    rw [BitVec.toNat_add, hbase]
    show (_ + 2) % _ = _
    omega
  unfold sealsOf Capability.Seals
  simp only [List.map_cons, List.map_nil, List.mem_cons, List.not_mem_nil, or_false,
    exists_eq_or_imp, exists_eq_left, signSeal, encSeal, identSeal, signEncSeal,
    range_createSealingCapability, ByteRange.mem_bytes, hbase, h1, h2]
  omega

/-- An id that is generated is at least one and no more than there are. -/
theorem generated_reset (hv : b.validRange = true) (codes : List Capability) :
    (IdentityStore.generated (.reset b) codes).Pairwise (· < ·)
      ∧ ∀ id ∈ IdentityStore.generated (.reset b) codes, 1 ≤ id ∧ id ≤ b.numIds := by
  have h1 := IdentityStore.idCounter_reset hv
  have h0 := IdentityStore.numUsed_reset b
  have hbounds := IdentityStore.generated_bounds codes (.reset b) (by omega) (by omega)
  rw [h1] at hbounds
  exact hbounds

/-- Each id from one on is generated, as long as there are. -/
theorem exists_generated (hv : b.validRange = true) {id : ℤ} (h1 : 1 ≤ id) (h : id ≤ b.numIds) :
    ∃ codes, id ∈ IdentityStore.generated (.reset b) codes := by
  have hcount := IdentityStore.idCounter_reset hv
  have h0 := IdentityStore.numUsed_reset b
  refine ⟨List.replicate ((id - 1).toNat + 1) rootCap, ?_⟩
  have hmem := IdentityStore.mem_generated rootCap (id - 1).toNat (.reset b) (by omega) (by omega)
    (by omega)
  rwa [hcount, show (1 : ℤ) + ((id - 1).toNat : ℤ) = id by omega] at hmem

/-- **The first and the last id** are in the range, if the object types are in
order. -/
theorem OtypesInOrder.bounds (hv : b.validRange = true) (h : OtypesInOrder b)
    (hids : 1 ≤ b.numIds) : b.otypeRangeStart ≤ 4 ∧ 4 * b.numIds + 2 < b.otypeRangeEnd := by
  have hlt := numIds_lt b
  have hin : ∀ id : ℤ, 1 ≤ id → id ≤ b.numIds → ∀ o : ℕ, 4 * id ≤ o → (o : ℤ) ≤ 4 * id + 2 →
      b.otypeRangeStart ≤ o ∧ (o : ℤ) < b.otypeRangeEnd := by
    intro id h1 hle o ho ho'
    obtain ⟨codes, hmem⟩ := exists_generated hv h1 hle
    obtain ⟨c, hc, hseals⟩ := (exists_seals_iff (by omega) (by omega) o).2 ⟨ho, ho'⟩
    exact h.inRange codes id hmem c hc o hseals
  have hfirst := hin 1 (le_refl 1) hids 4 (by omega) (by omega)
  have hlast := hin b.numIds hids (le_refl _) (4 * b.numIds + 2).toNat (by omega) (by omega)
  omega

/-- **The object types are in order in exactly the builds** that give out no id,
or whose range starts no later than at the object types of the first one and ends
after those of the last. -/
theorem otypesInOrder_iff (b : Build) (hv : b.validRange = true) :
    OtypesInOrder b
      ↔ b.numIds ≤ 0 ∨ (b.otypeRangeStart ≤ 4 ∧ 4 * b.numIds + 2 < b.otypeRangeEnd) := by
  have hlt := numIds_lt b
  constructor
  · intro h
    by_cases hids : 1 ≤ b.numIds
    · exact Or.inr (h.bounds hv hids)
    · exact Or.inl (by omega)
  · intro hrange
    have hseals : ∀ codes, ∀ id ∈ IdentityStore.generated (.reset b) codes, ∀ c ∈ sealsOf id,
        ∀ o : ℕ, c.Seals o → (1 ≤ id ∧ id ≤ b.numIds) ∧ 4 * id ≤ o ∧ (o : ℤ) ≤ 4 * id + 2 := by
      intro codes id hid c hc o ho
      have hbounds := (generated_reset hv codes).2 id hid
      exact ⟨hbounds, (exists_seals_iff (by omega) (by omega) o).1 ⟨c, hc, ho⟩⟩
    refine ⟨fun codes id hid c hc o ho => ?_, fun codes id hid id' hid' hne c hc c' hc' o => ?_,
      fun codes => ?_⟩
    · have := hseals codes id hid c hc o ho
      omega
    · rintro ⟨ho, ho'⟩
      have h := hseals codes id hid c hc o ho
      have h' := hseals codes id' hid' c' hc' o ho'
      omega
    · exact (generated_reset hv codes).1.imp (fun hlt => ne_of_lt hlt)

/-- With thirty-two entries the object types are in order. -/
theorem release_otypesInOrder : OtypesInOrder .release :=
  (otypesInOrder_iff .release (by decide)).2 (Or.inr (by decide))

/-- **With 1024 entries the last id is 256**, whose object types are past the end
of the range. -/
theorem benchmark_not_otypesInOrder : ¬ OtypesInOrder .benchmark := by
  intro h
  exact absurd (h.bounds (by decide) (by decide)).2 (by decide)

end Morello
