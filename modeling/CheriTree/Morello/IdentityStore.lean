import CheriTree.FreshTable
import CheriTree.Morello.Capability
import Mathlib.Data.List.FinRange

/-!
# Enclave ids and the identity store of the hypervisor

`enclaveIDManager.c`, `enclaveid.c` and `identityStore.c`. The store is an
array of entries; the counter of the ids is an `int` next to it. An entry is
used from `initEntry` on, and ready once `finishEntry` has stored a digest in
it; none is ever freed.

The number of entries and the range of object types are constants of the
build: thirty-two entries, or 1024 in a benchmark build, and 256 ids in both.

As long as `initEntry` does not take an entry after the last id was given out,
the store is a table whose keys a counter issues (`IdentityStore.step_initEntry`,
`IdentityStore.step_finishEntry`).
-/

namespace Morello

/-- `idType`. -/
abbrev IdType := BitVec 64

/-- Bytes of a digest. -/
def hashByteWidth : ℕ := 32

/-- `hashValType`. -/
abbrev HashVal := Fin hashByteWidth → Byte

/-! ## Ids and seals -/

/-- The id that names no enclave: all ones. -/
def setInvalidEnclaveID : IdType := BitVec.allOnes 64

def assignIDFromOtype (otype : IdType) : IdType := otype >>> 2

def getOtype (id : IdType) : IdType := id <<< 2

/-- A capability to seal and unseal with `numSeals` object types. -/
def createSealingCapability (rootCap : Capability) (s : Word) (numSeals : ℕ) : Capability :=
  cheriPermsAndSeals (cheriBoundsSetExact (cheriAddressSet rootCap s) numSeals)

def signSeal (rootCap : Capability) (id : IdType) : Capability :=
  createSealingCapability rootCap (getOtype id) 1

def encSeal (rootCap : Capability) (id : IdType) : Capability :=
  createSealingCapability rootCap (getOtype id + 1) 1

def identSeal (rootCap : Capability) (id : IdType) : Capability :=
  createSealingCapability rootCap (getOtype id + 2) 1

/-- The sign seal and the encryption seal in one. -/
def signEncSeal (rootCap : Capability) (id : IdType) : Capability :=
  createSealingCapability rootCap (getOtype id) 2

/-! ## The build -/

/-- **The constants of a build.** The number of object types is an `int`. -/
structure Build where
  maxEntries : ℕ
  otypeRangeStart : ℤ
  otypeRangeEnd : ℤ
  range_int : otypeRangeEnd - otypeRangeStart < 2 ^ 31

namespace Build

/-- The build that is not a benchmark. -/
def release : Build := ⟨32, 0, 1024, by decide⟩

/-- The build with `BENCHMARK1` or `BENCHMARK2`. -/
def benchmark : Build := ⟨1024, 0, 1024, by decide⟩

def numEnclaveIds (b : Build) : ℤ := (b.otypeRangeEnd - b.otypeRangeStart).tdiv 4

def validRange (b : Build) : Bool :=
  decide (b.otypeRangeStart ≥ 0) && decide (b.otypeRangeEnd ≥ 0)
    && decide ((b.otypeRangeEnd - b.otypeRangeStart).tmod 4 = 0)

theorem numEnclaveIds_lt (b : Build) : b.numEnclaveIds < 2 ^ 31 := by
  have h := b.range_int
  unfold numEnclaveIds
  rw [Int.tdiv_eq_ediv]
  split
  · omega
  · show _ / 4 + (1 : ℤ) < _
    omega

end Build

/-! ## The store -/

/-- **An entry of the store.** -/
structure Entry where
  index : ℕ
  used : Bool
  ready : Bool
  id : IdType
  hash : HashVal

/-- The entry, taken under an id. -/
def Entry.take (e : Entry) (id : IdType) : Entry :=
  { e with
    used := true
    id := id }

/-- The entry, with its digest. -/
def Entry.finish (e : Entry) (hash : HashVal) : Entry :=
  { e with
    hash := hash
    ready := true }

/-- **The store, and the counter of the ids.** -/
structure IdentityStore (b : Build) where
  entries : Fin b.maxEntries → Entry
  idCounter : ℤ

/-- A digest, and whether it is one. -/
structure HashType where
  valid : Bool
  hash : HashVal

namespace IdentityStore

variable {b : Build}

/-- `initTable`. -/
def initTable (b : Build) : Fin b.maxEntries → Entry := fun i =>
  ⟨i.val, false, false, setInvalidEnclaveID, fun _ => 0⟩

/-- `initIDCounter`. -/
def initIDCounter (b : Build) : ℤ := if b.validRange then 1 else b.numEnclaveIds + 1

/-- The store when the hypervisor starts. -/
def reset (b : Build) : IdentityStore b := ⟨initTable b, initIDCounter b⟩

/-- `generateEnclaveID`. -/
def generateEnclaveID (s : IdentityStore b) : ℤ × IdentityStore b :=
  if s.idCounter < b.numEnclaveIds + 1 then
    (s.idCounter, { s with idCounter := s.idCounter + 1 })
  else
    (-1, s)

/-- The first entry that meets a condition: where each of the searches
stops. -/
def firstEntry (s : IdentityStore b) (p : Entry → Bool) : Option (Fin b.maxEntries) :=
  (List.finRange b.maxEntries).find? (fun i => p (s.entries i))

/-- An entry is written. -/
def set (s : IdentityStore b) (i : Fin b.maxEntries) (e : Entry) : IdentityStore b :=
  { s with entries := Function.update s.entries i e }

/-- **`initEntry`.** The entry is marked as used before it is known that there
is an id for it. -/
def initEntry (s : IdentityStore b) : IdType × IdentityStore b :=
  match s.firstEntry (fun e => !e.used) with
  | none => (setInvalidEnclaveID, s)
  | some i =>
    let id : IdType := BitVec.ofInt 64 s.generateEnclaveID.1
    (id, s.generateEnclaveID.2.set i ((s.entries i).take id))

/-- The entry of an object type that is not finished. -/
def unfinished (otypeVal : IdType) (e : Entry) : Bool :=
  e.used && !e.ready && decide (e.id = assignIDFromOtype otypeVal)

/-- `getUnfinishedEntryID`. -/
def getUnfinishedEntryID (s : IdentityStore b) (otypeVal : IdType) : IdType :=
  match s.firstEntry (unfinished otypeVal) with
  | none => setInvalidEnclaveID
  | some i => (s.entries i).id

/-- **`finishEntry`**: its result, and the store. Whether the digest is one is
not looked at. -/
def finishEntry (s : IdentityStore b) (otypeVal : IdType) (hash : HashType) :
    ℤ × IdentityStore b :=
  match s.firstEntry (unfinished otypeVal) with
  | none => (-1, s)
  | some i =>
    (0, s.set i ((s.entries i).finish hash.hash))

/-- `getHashEntry`: the digest, where there is one. -/
def getHashEntry (s : IdentityStore b) (otypeVal : IdType) : Option HashVal :=
  (s.firstEntry (fun e => e.used && e.ready && decide (e.id = assignIDFromOtype otypeVal))).map
    (fun i => (s.entries i).hash)

/-! ## The searches -/

theorem firstEntry_some {s : IdentityStore b} {p : Entry → Bool} {i : Fin b.maxEntries}
    (h : s.firstEntry p = some i) : p (s.entries i) = true := by
  unfold firstEntry at h
  have := List.find?_some h
  exact this

theorem firstEntry_none {s : IdentityStore b} {p : Entry → Bool} (h : s.firstEntry p = none)
    (i : Fin b.maxEntries) : p (s.entries i) = false := by
  have := List.find?_eq_none.1 h i (List.mem_finRange i)
  exact Bool.eq_false_iff.2 this

theorem unfinished_iff {otypeVal : IdType} {e : Entry} :
    unfinished otypeVal e = true
      ↔ e.used = true ∧ e.ready = false ∧ e.id = assignIDFromOtype otypeVal := by
  unfold unfinished
  rw [Bool.and_eq_true, Bool.and_eq_true, Bool.not_eq_true', decide_eq_true_iff, and_assoc]

@[simp] theorem set_entries_self (s : IdentityStore b) (i : Fin b.maxEntries) (e : Entry) :
    (s.set i e).entries i = e := Function.update_self _ _ _

theorem set_entries_of_ne (s : IdentityStore b) {i j : Fin b.maxEntries} (h : j ≠ i) (e : Entry) :
    (s.set i e).entries j = s.entries j := Function.update_of_ne h _ _

/-- **What `initEntry` can do**: nothing, for there is no entry left; take an
entry under the value of the counter; or take an entry under the invalid id. -/
theorem initEntry_cases (s : IdentityStore b) :
    ((∀ i, (s.entries i).used = true) ∧ s.initEntry = (setInvalidEnclaveID, s))
      ∨ (∃ i, (s.entries i).used = false ∧ s.idCounter < b.numEnclaveIds + 1
        ∧ s.initEntry = (BitVec.ofInt 64 s.idCounter,
          IdentityStore.set { s with idCounter := s.idCounter + 1 } i
            ((s.entries i).take (BitVec.ofInt 64 s.idCounter))))
      ∨ ∃ i, (s.entries i).used = false ∧ ¬ s.idCounter < b.numEnclaveIds + 1
        ∧ s.initEntry = (setInvalidEnclaveID,
          s.set i ((s.entries i).take setInvalidEnclaveID)) := by
  unfold initEntry
  rcases hf : s.firstEntry (fun e => !e.used) with _ | i
  · refine Or.inl ⟨fun i => ?_, rfl⟩
    have := firstEntry_none hf i
    rwa [Bool.not_eq_false'] at this
  · have hused : (s.entries i).used = false := by
      have := firstEntry_some hf
      rwa [Bool.not_eq_true'] at this
    by_cases hc : s.idCounter < b.numEnclaveIds + 1
    · have hgen : s.generateEnclaveID = (s.idCounter, { s with idCounter := s.idCounter + 1 }) :=
        if_pos hc
      refine Or.inr (Or.inl ⟨i, hused, hc, ?_⟩)
      show (BitVec.ofInt 64 s.generateEnclaveID.1, s.generateEnclaveID.2.set i _) = _
      rw [hgen]
    · have hgen : s.generateEnclaveID = (-1, s) := if_neg hc
      refine Or.inr (Or.inr ⟨i, hused, hc, ?_⟩)
      show (BitVec.ofInt 64 s.generateEnclaveID.1, s.generateEnclaveID.2.set i _) = _
      rw [hgen]
      rfl

/-- **What `finishEntry` can do**: nothing, or finish an entry of the id. -/
theorem finishEntry_cases (s : IdentityStore b) (otypeVal : IdType) (hash : HashType) :
    s.finishEntry otypeVal hash = (-1, s)
      ∨ ∃ i, (s.entries i).used = true ∧ (s.entries i).ready = false
        ∧ (s.entries i).id = assignIDFromOtype otypeVal
        ∧ s.finishEntry otypeVal hash = (0, s.set i ((s.entries i).finish hash.hash)) := by
  unfold finishEntry
  rcases hf : s.firstEntry (unfinished otypeVal) with _ | i
  · exact Or.inl rfl
  · obtain ⟨hu, hr, hid⟩ := unfinished_iff.1 (firstEntry_some hf)
    exact Or.inr ⟨i, hu, hr, hid, rfl⟩

/-! ## The store as a table with a counter -/

/-- The key of an entry. -/
def key (e : Entry) : ℕ := e.id.toNat

/-- What may happen to an entry in use: it is finished, once. -/
def Finishes (e e' : Entry) : Prop := e.ready = false ∧ e'.ready = true ∧ e'.used = true

/-- The entries in use, and the counter. -/
def toTable (s : IdentityStore b) : FreshTable (Fin b.maxEntries) Entry where
  counter := s.idCounter.toNat
  slots := fun i => if (s.entries i).used then some (s.entries i) else none

/-- **The invariant**: the ids in use were issued, once each; what is ready is
in use; and the counter is not behind its start. -/
structure Inv (s : IdentityStore b) : Prop where
  table : FreshTable.Inv key s.toTable
  ready_used : ∀ i, (s.entries i).ready = true → (s.entries i).used = true
  counter : s.idCounter < b.numEnclaveIds + 1 → 1 ≤ s.idCounter
  bound : s.idCounter ≤ max 1 (b.numEnclaveIds + 1)

theorem toTable_slot {s : IdentityStore b} {i : Fin b.maxEntries} (h : (s.entries i).used = true) :
    s.toTable.slots i = some (s.entries i) := if_pos h

theorem toTable_none {s : IdentityStore b} {i : Fin b.maxEntries}
    (h : (s.entries i).used = false) : s.toTable.slots i = none :=
  if_neg (fun he => Bool.false_ne_true (h.symm.trans he))

/-- Writing an entry in use is writing a slot. -/
theorem toTable_set (s : IdentityStore b) (i : Fin b.maxEntries) {e : Entry} (h : e.used = true) :
    (s.set i e).toTable.slots = Function.update s.toTable.slots i (some e) := by
  funext j
  by_cases hj : j = i
  · subst hj
    rw [Function.update_self]
    show (if ((s.set j e).entries j).used then some ((s.set j e).entries j) else none) = _
    rw [set_entries_self, if_pos h]
  · rw [Function.update_of_ne hj]
    show (if ((s.set i e).entries j).used then some ((s.set i e).entries j) else none) = _
    rw [set_entries_of_ne _ hj]
    rfl

theorem toNat_ofInt_counter {c : ℤ} (h1 : 1 ≤ c) (h2 : c < 2 ^ 32) :
    (BitVec.ofInt 64 c).toNat = c.toNat := by
  rw [BitVec.toNat_ofInt]
  omega

/-- **Taking an entry while there are ids** is a step of the table. -/
theorem step_initEntry {s : IdentityStore b} (h : s.Inv)
    (hid : s.idCounter < b.numEnclaveIds + 1 ∨ ∀ i, (s.entries i).used = true) :
    FreshTable.Step key Finishes s.toTable s.initEntry.2.toTable := by
  rcases s.initEntry_cases with ⟨-, heq⟩ | ⟨i, hused, hc, heq⟩ | ⟨i, hused, hc, -⟩
  · rw [heq]
    exact .stay _
  · have h1 := h.counter hc
    have hlt := b.numEnclaveIds_lt
    rw [heq]
    have hstep : FreshTable.Step key Finishes s.toTable _ :=
      .issue (i := i) (a := (s.entries i).take (BitVec.ofInt 64 s.idCounter)) (toTable_none hused)
        (toNat_ofInt_counter h1 (by omega))
    rw [← toTable_set s i (e := (s.entries i).take (BitVec.ofInt 64 s.idCounter)) rfl] at hstep
    have hcount : s.toTable.counter + 1 = (s.idCounter + 1).toNat := by
      show s.idCounter.toNat + 1 = _
      omega
    rw [hcount] at hstep
    exact hstep
  · rcases hid with hid | hid
    · exact absurd hid hc
    · rw [hid i] at hused
      cases hused

/-- **Finishing an entry** is a step of the table. -/
theorem step_finishEntry (s : IdentityStore b) (otypeVal : IdType) (hash : HashType) :
    FreshTable.Step key Finishes s.toTable (s.finishEntry otypeVal hash).2.toTable := by
  rcases s.finishEntry_cases otypeVal hash with heq | ⟨i, hu, hr, -, heq⟩
  · rw [heq]
    exact .stay _
  · rw [heq]
    have hstep : FreshTable.Step key Finishes s.toTable _ :=
      .change (i := i) (b := (s.entries i).finish hash.hash) (toTable_slot hu) rfl ⟨hr, rfl, hu⟩
    rw [← toTable_set s i (e := (s.entries i).finish hash.hash) hu] at hstep
    exact hstep

/-- The store of the start. -/
theorem inv_reset (b : Build) : (reset b).Inv where
  table := FreshTable.inv_of_forall_none (fun _ => rfl)
  ready_used := fun _ h => h
  counter := by
    show initIDCounter b < _ → 1 ≤ initIDCounter b
    unfold initIDCounter
    split
    · exact fun _ => le_refl 1
    · exact fun h => absurd h (lt_irrefl _)
  bound := by
    show initIDCounter b ≤ _
    unfold initIDCounter
    split
    · exact le_max_left _ _
    · exact le_max_right _ _

/-- An entry that is written in use keeps what is ready in use. -/
theorem ready_used_set {s : IdentityStore b} (h : ∀ i, (s.entries i).ready = true →
    (s.entries i).used = true) (i : Fin b.maxEntries) {e : Entry} (he : e.used = true)
    (j : Fin b.maxEntries) (hj : ((s.set i e).entries j).ready = true) :
    ((s.set i e).entries j).used = true := by
  by_cases hji : j = i
  · subst hji
    rw [set_entries_self]
    exact he
  · rw [set_entries_of_ne _ hji] at hj ⊢
    exact h j hj

theorem Inv.initEntry {s : IdentityStore b} (h : s.Inv)
    (hid : s.idCounter < b.numEnclaveIds + 1 ∨ ∀ i, (s.entries i).used = true) :
    s.initEntry.2.Inv := by
  have htable := h.table.step (step_initEntry h hid)
  rcases s.initEntry_cases with ⟨-, heq⟩ | ⟨i, hused, hc, heq⟩ | ⟨i, hused, hc, -⟩
  · rw [heq]
    exact h
  · rw [heq] at htable ⊢
    have h1 := h.counter hc
    refine ⟨htable,
      ready_used_set (s := { s with idCounter := s.idCounter + 1 }) h.ready_used i rfl,
      fun _ => ?_, ?_⟩
    · show 1 ≤ s.idCounter + 1
      omega
    · show s.idCounter + 1 ≤ _
      omega
  · rcases hid with hid | hid
    · exact absurd hid hc
    · rw [hid i] at hused
      cases hused

theorem Inv.finishEntry {s : IdentityStore b} (h : s.Inv) (otypeVal : IdType) (hash : HashType) :
    (s.finishEntry otypeVal hash).2.Inv := by
  have htable := h.table.step (s.step_finishEntry otypeVal hash)
  rcases s.finishEntry_cases otypeVal hash with heq | ⟨i, hu, -, -, heq⟩
  · rw [heq]
    exact h
  · rw [heq] at htable ⊢
    exact ⟨htable, ready_used_set h.ready_used i hu, h.counter, h.bound⟩

/-- **No two entries in use have the same id.** -/
theorem Inv.unique {s : IdentityStore b} (h : s.Inv) {i j : Fin b.maxEntries}
    (hi : (s.entries i).used = true) (hj : (s.entries j).used = true)
    (hij : (s.entries i).id = (s.entries j).id) : i = j :=
  h.table.unique (toTable_slot hi) (toTable_slot hj) (congrArg BitVec.toNat hij)

/-- **No entry in use has the invalid id.** -/
theorem Inv.id_ne_invalid {s : IdentityStore b} (h : s.Inv) {i : Fin b.maxEntries}
    (hi : (s.entries i).used = true) : (s.entries i).id ≠ setInvalidEnclaveID := by
  intro hid
  have hlt : (s.entries i).id.toNat < s.idCounter.toNat := h.table.issued (toTable_slot hi)
  have hb := h.bound
  have hn := b.numEnclaveIds_lt
  rw [hid, setInvalidEnclaveID, BitVec.toNat_allOnes] at hlt
  omega

end IdentityStore

end Morello
