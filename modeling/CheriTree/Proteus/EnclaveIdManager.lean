import CheriTree.SyncMachine
import CheriTree.Proteus.IdentityStore
import Mathlib.Data.Nat.Log

/-!
# The enclave ids and the object types they stand for

The manager of the enclave ids is configured with a range of object types, and
has one id for every four of them. It counts the ids from zero, and an id
stands for the object types from four times its number on: the start of the
range is in none of this, so a range that starts higher is left below
(`inside_iff`).

The way back takes an object type to a quarter of it, and to an id that is
valid if the object type itself is not past the largest id. Only the first
quarter of the ids comes back (`assignFromOtype_eq_iff`), and what comes back
of the fourth object type of an id, with which nothing is ever sealed, is the
id (`refuses_iff`). Every range with an id has a last one, whose identity seal
is not among those that come back.
-/

namespace Proteus

/-! ## The object types of an id -/

namespace EnclaveId

variable {w : ℕ} {e e' : EnclaveId w}

/-- **What the seals of an id seal with**: to sign, to encrypt, and the
identity. -/
def otypes (e : EnclaveId w) : List ObjectType := [e.otype, e.otype + 1, e.identSeal]

/-- The capabilities of the seals are based there. -/
theorem map_base_seals (e : EnclaveId w) :
    [e.signSeal, e.encSeal, createSeal e.identSeal 1].map Capability.base
      = e.otypes.map (BitVec.setWidth 32) :=
  rfl

theorem mem_otypes_iff (hw : w + 2 ≤ otypeLen) {t : ObjectType} :
    t ∈ e.otypes ↔ ∃ k < 3, t.toNat = 4 * e.id.toNat + k := by
  have hlt := toNat_id_lt hw e
  have hot := toNat_otype hw e
  have hone : (e.otype + 1).toNat = 4 * e.id.toNat + 1 := by
    rw [BitVec.toNat_add, hot, show (1 : ObjectType).toNat = 1 from rfl]
    simp only [otypeLen] at hlt ⊢
    omega
  rw [otypes, List.mem_cons, List.mem_cons, List.mem_singleton, ← BitVec.toNat_inj,
    ← BitVec.toNat_inj, ← BitVec.toNat_inj, hot, hone, toNat_identSeal hw]
  constructor
  · rintro (h | h | h)
    · exact ⟨0, by decide, h⟩
    · exact ⟨1, by decide, h⟩
    · exact ⟨2, by decide, h⟩
  · rintro ⟨k, hk, h⟩
    omega

/-- **An object type of an id comes back to it** if it is not past the largest
id itself. -/
theorem assignFromOtype_eq_iff (hw : w + 2 ≤ otypeLen) (hvalid : e.valid = true)
    {t : ObjectType} (ht : t ∈ e.otypes) : assignFromOtype t = e ↔ t.toNat ≤ 2 ^ w - 1 := by
  obtain ⟨k, hk, hnum⟩ := (mem_otypes_iff hw).1 ht
  have hquarter : t.toNat / 4 = e.id.toNat := by omega
  have hid : (assignFromOtype t : EnclaveId w).id = e.id := by
    refine BitVec.eq_of_toNat_eq ?_
    rw [toNat_assignFromOtype (by rw [hquarter]; exact e.id.isLt), hquarter]
  rw [← assignFromOtype_valid_iff, EnclaveId.ext_iff, hvalid]
  exact and_iff_left hid

/-- Two ids with an object type in common are one. -/
theorem id_eq_of_mem_otypes (hw : w + 2 ≤ otypeLen) {t : ObjectType} (h : t ∈ e.otypes)
    (h' : t ∈ e'.otypes) : e.id = e'.id := by
  obtain ⟨k, hk, hnum⟩ := (mem_otypes_iff hw).1 h
  obtain ⟨k', hk', hnum'⟩ := (mem_otypes_iff hw).1 h'
  refine BitVec.eq_of_toNat_eq ?_
  omega

end EnclaveId

/-! ## The manager of the ids -/

/-- **A range of object types.** `to` gives one with its end, `until` one
without. -/
structure OtypeRange where
  start : ℤ
  stop : ℤ
  step : ℤ
  isInclusive : Bool
deriving DecidableEq, Repr

namespace OtypeRange

/-- What a range has to be for the core to be built. -/
def Accepted (r : OtypeRange) : Prop :=
  r.start ≥ 0 ∧ r.start < maxOtype ∧ r.stop ≥ 0 ∧ r.stop < maxOtype ∧ r.stop > r.start
    ∧ r.step = 1 ∧ r.start % 4 = 0

instance (r : OtypeRange) : Decidable r.Accepted := by
  unfold Accepted
  infer_instance

/-- The members of a range whose step is one. -/
def Contains (r : OtypeRange) (n : ℤ) : Prop :=
  r.start ≤ n ∧ (n < r.stop ∨ r.isInclusive = true ∧ n = r.stop)

end OtypeRange

/-- The number of bits that tell `value` numbers from each other. -/
def log2Up (value : ℕ) : ℕ := Nat.clog 2 value

/-- **The manager of the enclave ids**, as it is configured. -/
structure EnclaveIdManager where
  otypes : OtypeRange
  accepted : otypes.Accepted

namespace EnclaveIdManager

variable (m : EnclaveIdManager)

def numEnclaveIds : ℕ := ((m.otypes.stop - m.otypes.start) / 4).toNat

def enclaveIdWidth : ℕ := log2Up m.numEnclaveIds

/-- The ids of the core. -/
abbrev Id : Type := EnclaveId m.enclaveIdWidth

/-- An id is left. The counter has one value more than there are ids. -/
def available (nextId : Fin (m.numEnclaveIds + 1)) : Bool := nextId ≠ Fin.last _

/-- **The counter of the ids**, and the id it gives when one is asked for. -/
def machine : SyncMachine (Fin (m.numEnclaveIds + 1)) Bool (Option m.Id) where
  step nextId generate :=
    if generate && m.available nextId then
      (nextId + 1, some ⟨true, BitVec.ofNat m.enclaveIdWidth nextId⟩)
    else (nextId, none)

/-- **An id the manager generates** in some run from reset. -/
def Generates (e : m.Id) : Prop := ∃ gs, some e ∈ m.machine.observe 0 gs

/-- An object type of an id that may be generated. -/
def IsOtype (v : Word) : Prop :=
  ∃ e : m.Id, m.Generates e ∧ ∃ t ∈ e.otypes, t.toNat = v.toNat

/-! ### The width of an id -/

/-- The ids fit. -/
theorem numEnclaveIds_le : m.numEnclaveIds ≤ 2 ^ m.enclaveIdWidth :=
  Nat.le_pow_clog Nat.one_lt_two _

/-- They fit narrowly. -/
theorem two_pow_lt (hpos : 0 < m.numEnclaveIds) : 2 ^ m.enclaveIdWidth < 2 * m.numEnclaveIds := by
  by_cases hone : 1 < m.numEnclaveIds
  · have hlog : 0 < Nat.clog 2 m.numEnclaveIds := Nat.clog_pos Nat.one_lt_two hone
    have hlt := Nat.pow_pred_clog_lt_self Nat.one_lt_two hone
    have hsucc : (Nat.clog 2 m.numEnclaveIds).pred + 1 = m.enclaveIdWidth :=
      Nat.succ_pred_eq_of_pos hlog
    rw [← hsucc, pow_succ]
    omega
  · have hn : m.numEnclaveIds = 1 := by omega
    rw [enclaveIdWidth, hn]
    decide

/-- The object types of an id fit an object type. -/
theorem enclaveIdWidth_add_two_le : m.enclaveIdWidth + 2 ≤ otypeLen := by
  obtain ⟨hstart, -, hstop, hmax, -⟩ := m.accepted
  have hn : m.numEnclaveIds ≤ 2 ^ 10 := by
    have hmax' : m.otypes.stop < 4079 := hmax
    unfold numEnclaveIds
    omega
  have hlog : m.enclaveIdWidth ≤ 10 := Nat.clog_le_of_le_pow hn
  show m.enclaveIdWidth + 2 ≤ 12
  omega

/-! ### What is generated -/

variable {m}

/-- An id is generated from the counter, short of its last value. -/
theorem obs_eq_some {nextId : Fin (m.numEnclaveIds + 1)} {generate : Bool} {e : m.Id}
    (h : m.machine.obs nextId generate = some e) :
    e.valid = true ∧ e.id.toNat = nextId ∧ (nextId : ℕ) < m.numEnclaveIds := by
  unfold SyncMachine.obs machine at h
  simp only at h
  split at h
  · rename_i hgen
    have hne : nextId ≠ Fin.last _ := of_decide_eq_true (Bool.and_eq_true_iff.1 hgen).2
    have hlt : (nextId : ℕ) < m.numEnclaveIds := Fin.val_lt_last hne
    have hfits := m.numEnclaveIds_le
    rw [← Option.some.inj h]
    refine ⟨rfl, ?_, hlt⟩
    show (BitVec.ofNat _ _).toNat = _
    rw [BitVec.toNat_ofNat]
    exact Nat.mod_eq_of_lt (by omega)
  · cases h

/-- The counter moves on by one, and does not come round. -/
theorem next_of_lt {k : Fin (m.numEnclaveIds + 1)} (h : (k : ℕ) < m.numEnclaveIds) :
    m.machine.step k true
        = (k + 1, some ⟨true, BitVec.ofNat m.enclaveIdWidth k⟩)
      ∧ ((k + 1 : Fin (m.numEnclaveIds + 1)) : ℕ) = k + 1 := by
  have hne : k ≠ Fin.last _ := by
    rintro rfl
    exact absurd h (lt_irrefl _)
  constructor
  · show (if true && m.available k then _ else _) = _
    rw [available, decide_eq_true hne]
    rfl
  · exact Fin.val_add_one_of_lt (Fin.lt_def.2 h)

/-- The counter after as many requests as there are ids before one. -/
theorem run_replicate {n : ℕ} (h : n ≤ m.numEnclaveIds) :
    (m.machine.run 0 (List.replicate n true) : ℕ) = n := by
  induction n with
  | zero => rfl
  | succ n ih =>
    have hn := ih (by omega)
    obtain ⟨hstep, hval⟩ := next_of_lt (k := m.machine.run 0 (List.replicate n true))
      (by omega)
    rw [List.replicate_succ', SyncMachine.run_append, SyncMachine.run_cons, SyncMachine.run_nil,
      SyncMachine.next, hstep, hval, hn]

/-- **The ids that are generated**: the valid ones below the number of ids. -/
theorem generates_iff {e : m.Id} :
    m.Generates e ↔ e.valid = true ∧ e.id.toNat < m.numEnclaveIds := by
  constructor
  · rintro ⟨gs, h⟩
    -- whatever the counter is at
    generalize (0 : Fin (m.numEnclaveIds + 1)) = nextId at h
    induction gs generalizing nextId with
    | nil => cases h
    | cons g gs ih =>
      rcases List.mem_cons.1 h with hobs | hrest
      · obtain ⟨hvalid, hid, hlt⟩ := obs_eq_some hobs.symm
        exact ⟨hvalid, by omega⟩
      · exact ih _ hrest
  · rintro ⟨hvalid, hlt⟩
    refine ⟨List.replicate e.id.toNat true ++ [true], ?_⟩
    have hrun := run_replicate hlt.le
    obtain ⟨hstep, -⟩ := next_of_lt (k := m.machine.run 0 (List.replicate e.id.toNat true))
      (by omega)
    rw [SyncMachine.observe_append, SyncMachine.observe_cons, SyncMachine.obs, hstep, hrun,
      BitVec.ofNat_toNat, BitVec.setWidth_eq]
    refine List.mem_append_right _ (List.mem_singleton.2 (congrArg some ?_))
    exact EnclaveId.ext hvalid rfl

/-- Every number below the number of ids is one of an id. -/
theorem generates_ofNat {n : ℕ} (h : n < m.numEnclaveIds) :
    m.Generates ⟨true, BitVec.ofNat _ n⟩ := by
  have hfits := m.numEnclaveIds_le
  refine generates_iff.2 ⟨rfl, ?_⟩
  rw [BitVec.toNat_ofNat, Nat.mod_eq_of_lt (by omega)]
  exact h

/-- **The object types of the ids**: the fourth of every four is none. -/
theorem isOtype_iff {v : Word} :
    m.IsOtype v ↔ v.toNat / 4 < m.numEnclaveIds ∧ v.toNat % 4 ≠ 3 := by
  have hw := m.enclaveIdWidth_add_two_le
  have hfits := m.numEnclaveIds_le
  constructor
  · rintro ⟨e, hgen, t, ht, heq⟩
    obtain ⟨-, hlt⟩ := generates_iff.1 hgen
    obtain ⟨k, hk, hnum⟩ := (EnclaveId.mem_otypes_iff hw).1 ht
    omega
  · rintro ⟨hlt, hthree⟩
    have hpow : 4 * 2 ^ m.enclaveIdWidth ≤ 2 ^ otypeLen := by
      rw [show (4 : ℕ) = 2 ^ 2 from rfl, ← pow_add]
      exact Nat.pow_le_pow_right (by decide) (by omega)
    have hid : (BitVec.ofNat m.enclaveIdWidth (v.toNat / 4)).toNat = v.toNat / 4 := by
      rw [BitVec.toNat_ofNat]
      exact Nat.mod_eq_of_lt (by omega)
    have htype : (BitVec.ofNat otypeLen v.toNat).toNat = v.toNat := by
      rw [BitVec.toNat_ofNat]
      exact Nat.mod_eq_of_lt (by omega)
    refine ⟨_, generates_ofNat hlt, BitVec.ofNat otypeLen v.toNat, ?_, htype⟩
    refine (EnclaveId.mem_otypes_iff hw).2 ⟨v.toNat % 4, by omega, ?_⟩
    rw [htype]
    show _ = 4 * (BitVec.ofNat m.enclaveIdWidth (v.toNat / 4)).toNat + _
    rw [hid]
    omega

/-! ## There and back -/

/-- **A value that is no object type of an id** is refused if it is past the
largest id. -/
theorem refuses_iff (v : Word) :
    (EnclaveId.assignFromOtype v : m.Id).valid = false ↔ 2 ^ m.enclaveIdWidth - 1 < v.toNat := by
  rw [← Bool.not_eq_true, EnclaveId.assignFromOtype_valid_iff]
  omega

/-- **An object type of an id lies in the range** if it is not below its
start. -/
theorem inside_iff {e : m.Id} (he : m.Generates e) {t : ObjectType} (ht : t ∈ e.otypes) :
    m.otypes.Contains t.toNat ↔ m.otypes.start ≤ t.toNat := by
  obtain ⟨k, hk, hnum⟩ := (EnclaveId.mem_otypes_iff m.enclaveIdWidth_add_two_le).1 ht
  have hlt := (generates_iff.1 he).2
  have hstart : m.otypes.start ≥ 0 := m.accepted.1
  unfold numEnclaveIds at hlt
  refine and_iff_left_of_imp fun _ => Or.inl ?_
  omega

variable (m) in
/-- **The ids and their object types correspond**: there and back is the
identity, nothing else comes back, the object types lie in the range, and no
two ids share one. -/
structure RoundTrips : Prop where
  inverse : ∀ e : m.Id, m.Generates e → ∀ t ∈ e.otypes, EnclaveId.assignFromOtype t = e
  refuses : ∀ v : Word, ¬ m.IsOtype v → (EnclaveId.assignFromOtype v : m.Id).valid = false
  inside : ∀ e : m.Id, m.Generates e → ∀ t ∈ e.otypes, m.otypes.Contains t.toNat
  disjoint : ∀ e e' : m.Id, m.Generates e → m.Generates e' → e ≠ e' →
    e.otypes.Disjoint e'.otypes

/-- No two ids share an object type. -/
theorem disjoint_otypes {e e' : m.Id} (he : m.Generates e) (he' : m.Generates e') (hne : e ≠ e') :
    e.otypes.Disjoint e'.otypes := by
  intro t ht ht'
  have hid := EnclaveId.id_eq_of_mem_otypes m.enclaveIdWidth_add_two_le ht ht'
  have hvalid := (generates_iff.1 he).1.trans (generates_iff.1 he').1.symm
  exact hne (EnclaveId.ext hvalid hid)

/-- **The identity seal of the last id does not come back**; without ids, an
object type that is none does. -/
theorem not_roundTrips : ¬ m.RoundTrips := by
  intro h
  have hw := m.enclaveIdWidth_add_two_le
  rcases Nat.eq_zero_or_pos m.numEnclaveIds with hzero | hpos
  · have hno : ¬ m.IsOtype 0 := by
      rw [isOtype_iff, hzero]
      exact fun h => absurd h.1 (Nat.not_lt_zero _)
    have hrefused := (refuses_iff _).1 (h.refuses 0 hno)
    exact absurd hrefused (Nat.not_lt_zero _)
  · have hfits := m.numEnclaveIds_le
    have hlt := m.two_pow_lt hpos
    have hgen : m.Generates ⟨true, BitVec.ofNat _ (m.numEnclaveIds - 1)⟩ :=
      generates_ofNat (by omega)
    have hmem : ∀ e : m.Id, e.identSeal ∈ e.otypes := fun e => by simp [EnclaveId.otypes]
    have hback := h.inverse _ hgen _ (hmem _)
    rw [EnclaveId.assignFromOtype_eq_iff hw rfl (hmem _), EnclaveId.toNat_identSeal hw] at hback
    have hlast : (BitVec.ofNat m.enclaveIdWidth (m.numEnclaveIds - 1)).toNat
        = m.numEnclaveIds - 1 := by
      rw [BitVec.toNat_ofNat]
      exact Nat.mod_eq_of_lt (by omega)
    rw [hlast] at hback
    omega

end EnclaveIdManager

/-- **Which object types go there and back**, for every range the core can be
built with: those of an id that are not past the largest id; a value that is
none of an id comes back as nothing if it is past it; the object types of an id
lie in the range if they are not below its start; and no two ids share one. No
range makes all of that the identity. -/
theorem enclaveId_roundTrips_iff (m : EnclaveIdManager) :
    (∀ e : m.Id, m.Generates e → ∀ t ∈ e.otypes,
        (EnclaveId.assignFromOtype t = e ↔ t.toNat ≤ 2 ^ m.enclaveIdWidth - 1))
      ∧ (∀ v : Word, ¬ m.IsOtype v →
        ((EnclaveId.assignFromOtype v : m.Id).valid = false
          ↔ 2 ^ m.enclaveIdWidth - 1 < v.toNat))
      ∧ (∀ e : m.Id, m.Generates e → ∀ t ∈ e.otypes,
        (m.otypes.Contains t.toNat ↔ m.otypes.start ≤ t.toNat))
      ∧ (∀ e e' : m.Id, m.Generates e → m.Generates e' → e ≠ e' →
        e.otypes.Disjoint e'.otypes)
      ∧ ¬ m.RoundTrips := by
  refine ⟨?_, ?_, ?_, ?_, EnclaveIdManager.not_roundTrips⟩
  · intro e he t ht
    have hvalid := (EnclaveIdManager.generates_iff.1 he).1
    exact EnclaveId.assignFromOtype_eq_iff m.enclaveIdWidth_add_two_le hvalid ht
  · exact fun v _ => EnclaveIdManager.refuses_iff v
  · exact fun e he t ht => EnclaveIdManager.inside_iff he ht
  · exact fun e e' he he' hne => EnclaveIdManager.disjoint_otypes he he' hne

/-! ### The ids of the core -/

/-- The manager of the core: `0 to 1024`. -/
def coreIds : EnclaveIdManager := ⟨⟨0, 1024, 1, true⟩, by decide⟩

/-- The seals of the core's id 2 come back to it. -/
theorem coreIds_two_roundTrips :
    (EnclaveId.assignFromOtype (10 : ObjectType) : coreIds.Id) = ⟨true, 2⟩ :=
  ((enclaveId_roundTrips_iff coreIds).1 ⟨true, 2⟩
    (EnclaveIdManager.generates_iff.2 ⟨rfl, by decide⟩) 10 (by decide)).2 (by decide)

/-- A range that leaves the first four object types to others. -/
def upperIds : EnclaveIdManager := ⟨⟨4, 1024, 1, true⟩, by decide⟩

/-- **The signing seal of the core's id 64 comes back as no id**; the fourth
object type of its id 0 comes back as that; and with four object types left
free below the range, id 0 stands for the first of them. -/
theorem coreIds_not_roundTrips :
    (coreIds.Generates ⟨true, 64⟩ ∧ 256 ∈ (⟨true, 64⟩ : coreIds.Id).otypes
        ∧ (EnclaveId.assignFromOtype (256 : ObjectType) : coreIds.Id).valid = false)
      ∧ (¬ coreIds.IsOtype 3
        ∧ (EnclaveId.assignFromOtype (3 : Word) : coreIds.Id) = ⟨true, 0⟩)
      ∧ (upperIds.Generates ⟨true, 0⟩ ∧ 0 ∈ (⟨true, 0⟩ : upperIds.Id).otypes
        ∧ ¬ upperIds.otypes.Contains 0)
      ∧ ¬ coreIds.RoundTrips := by
  refine ⟨⟨EnclaveIdManager.generates_iff.2 ⟨rfl, ?_⟩, ?_, ?_⟩, ⟨?_, ?_⟩,
    ⟨EnclaveIdManager.generates_iff.2 ⟨rfl, ?_⟩, ?_, ?_⟩, EnclaveIdManager.not_roundTrips⟩
  · decide
  · decide
  · decide
  · rw [EnclaveIdManager.isOtype_iff]
    decide
  · decide
  · decide
  · decide
  · unfold OtypeRange.Contains
    decide

end Proteus
