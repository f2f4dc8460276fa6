import CheriTree.Proteus.Capability

/-!
# Enclave ids and the identity store

An enclave id is a number of `w` bits with a validity bit. Its object types
are four consecutive ones, `4 * id` and up: a signing seal, an encryption
seal, and the identity seal the enclave's own capabilities are sealed with.

The identity store is a table of entries searched from its first index, next
to the counter the ids come from. A request walks the table one entry per
cycle; what it answers is what the functions below compute, each of which
stops where the walk stops.
-/

namespace Proteus

/-- The digest of a code section. -/
abbrev Digest := BitVec 256

/-! ## Enclave ids -/

/-- **An enclave id.** -/
@[ext] structure EnclaveId (w : ℕ) where
  valid : Bool
  id : BitVec w
deriving DecidableEq, Repr

namespace EnclaveId

variable {w : ℕ}

/-- The id that names no enclave; its number is all ones. -/
def setInvalid : EnclaveId w := ⟨false, BitVec.allOnes w⟩

/-- The first object type of an id. -/
def otype (e : EnclaveId w) : ObjectType := e.id.setWidth otypeLen <<< 2

/-- An id of at most ten bits. -/
theorem toNat_id_lt (hw : w + 2 ≤ otypeLen) (e : EnclaveId w) :
    e.id.toNat < 2 ^ (otypeLen - 2) :=
  lt_of_lt_of_le e.id.isLt (Nat.pow_le_pow_right (by decide) (by omega))

/-- Its object types do not wrap. -/
theorem toNat_otype (hw : w + 2 ≤ otypeLen) (e : EnclaveId w) :
    e.otype.toNat = 4 * e.id.toNat := by
  have hid := toNat_id_lt hw e
  rw [otype, BitVec.toNat_shiftLeft, BitVec.toNat_setWidth, Nat.shiftLeft_eq]
  simp only [otypeLen] at hid ⊢
  omega

/-- A capability to seal and unseal with `numSeals` object types. -/
def createSeal (seal₀ : ObjectType) (numSeals : ℕ) : Capability where
  tag := true
  base := seal₀.setWidth 32
  length := BitVec.ofNat 32 numSeals
  offset := 0
  perms := { Permissions.allowNone with permitSeal := true, permitUnseal := true }
  otype := .unsealed

def signSeal (e : EnclaveId w) : Capability := createSeal e.otype 1

def encSeal (e : EnclaveId w) : Capability := createSeal (e.otype + 1) 1

def signEncSeal (e : EnclaveId w) : Capability := createSeal e.otype 2

/-- The object type of the identity seal. -/
def identSeal (e : EnclaveId w) : ObjectType := e.otype + 2

/-- Nor does the one of its identity seal. -/
theorem toNat_identSeal (hw : w + 2 ≤ otypeLen) (e : EnclaveId w) :
    e.identSeal.toNat = 4 * e.id.toNat + 2 := by
  have hlt := toNat_id_lt hw e
  rw [identSeal, BitVec.toNat_add, toNat_otype hw, show (2 : ObjectType).toNat = 2 from rfl]
  simp only [otypeLen] at hlt ⊢
  omega

/-- The id an object type belongs to. The bound that makes it valid is on the
object type itself, not on its upper bits. -/
def assignFromOtype {n : ℕ} (otype : BitVec n) : EnclaveId w where
  valid := decide (otype.toNat ≤ 2 ^ w - 1)
  id := (otype >>> 2).setWidth w

theorem assignFromOtype_valid_iff {n : ℕ} (t : BitVec n) :
    (assignFromOtype t : EnclaveId w).valid = true ↔ t.toNat ≤ 2 ^ w - 1 :=
  decide_eq_true_iff

/-- A quarter of an object type that fits the ids is not cut off. -/
theorem toNat_assignFromOtype {n : ℕ} {t : BitVec n} (h : t.toNat / 4 < 2 ^ w) :
    (assignFromOtype t : EnclaveId w).id.toNat = t.toNat / 4 := by
  show ((t >>> 2).setWidth w).toNat = _
  rw [BitVec.toNat_setWidth, BitVec.toNat_ushiftRight, Nat.shiftRight_eq_div_pow]
  exact Nat.mod_eq_of_lt h

end EnclaveId

/-! ## The table -/

/-- **An entry of the identity store.** It is used from its allocation on, and
ready once its digest is known. -/
structure Entry (w : ℕ) where
  used : Bool
  ready : Bool
  id : EnclaveId w
  hash : Digest
deriving DecidableEq, Repr

/-- The entry of reset. -/
def Entry.empty {w : ℕ} : Entry w := ⟨false, false, .setInvalid, 0⟩

/-- **The identity store**, with the counter of the ids given out. -/
structure IdentityStore (w : ℕ) where
  numEnclaveIds : ℕ
  nextId : ℕ
  entries : List (Entry w)
deriving DecidableEq, Repr

namespace IdentityStore

variable {w : ℕ}

/-- The store of reset. -/
def reset (numEnclaveIds numEntries : ℕ) : IdentityStore w :=
  ⟨numEnclaveIds, 0, List.replicate numEntries .empty⟩

/-- The counter has an id left. -/
def idAvailable (s : IdentityStore w) : Bool := s.nextId ≠ s.numEnclaveIds

/-- The walk of `initEntry`: the first entry that is not used becomes `new`. -/
def initWalk (new : Entry w) : List (Entry w) → Option (List (Entry w))
  | [] => none
  | e :: es => if !e.used then some (new :: es) else (initWalk new es).map (e :: ·)

/-- **Allocating an entry**, under a fresh id. -/
def initEntry (s : IdentityStore w) : EnclaveId w × IdentityStore w :=
  if s.idAvailable then
    let id : EnclaveId w := ⟨true, BitVec.ofNat w s.nextId⟩
    match initWalk { (Entry.empty : Entry w) with used := true, id := id } s.entries with
    | some entries => (id, { s with entries := entries, nextId := s.nextId + 1 })
    | none => (.setInvalid, s)
  else
    (.setInvalid, s)

/-- **Finding the entry of an enclave whose digest is not known yet.** -/
def getUnfinishedEntry (s : IdentityStore w) (identOtype : ObjectType) : EnclaveId w :=
  let eid : EnclaveId w := .assignFromOtype identOtype
  if eid.valid then
    match s.entries.find? (fun e => e.used && !e.ready && e.id = eid) with
    | some e => e.id
    | none => .setInvalid
  else
    .setInvalid

/-- The walk of `finishEntry`: it stops at the first entry of the id. -/
def finishWalk (eid : EnclaveId w) (hash : Digest) :
    List (Entry w) → Option (List (Entry w))
  | [] => none
  | e :: es =>
    if e.id = eid then
      if e.used && !e.ready then some ({ e with hash := hash, ready := true } :: es)
      else none
    else
      (finishWalk eid hash es).map (e :: ·)

/-- **Recording the digest of an enclave.** -/
def finishEntry (s : IdentityStore w) (identOtype : ObjectType) (hash : Digest) :
    EnclaveId w × IdentityStore w :=
  let eid : EnclaveId w := .assignFromOtype identOtype
  if eid.valid then
    match finishWalk eid hash s.entries with
    | some entries => (eid, { s with entries := entries })
    | none => (.setInvalid, s)
  else
    (.setInvalid, s)

/-- **Reading the digest of an enclave.** The outer `none` is a request that
is never answered: an object type of no id fails on the other channel, where
nobody listens. -/
def getHash (s : IdentityStore w) (otype : Word) : Option (Option Digest) :=
  let eid : EnclaveId w := .assignFromOtype otype
  if eid.valid then
    match s.entries.find? (fun e => e.id = eid) with
    | some e => some (if e.used && e.ready then some e.hash else none)
    | none => some none
  else
    none

end IdentityStore

end Proteus
