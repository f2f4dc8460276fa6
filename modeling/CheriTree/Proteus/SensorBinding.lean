import CheriTree.ByteOrder
import CheriTree.GuardedStore
import CheriTree.Proteus.ReturnIntegrity

/-!
# What the user enclave keeps of the sensor

`set_sensor_enclave` is handed four capabilities that are said to be those of
the sensor enclave: its code and its data, and its two seals. It asks the
identity store for the digest that belongs to the base of the encryption seal,
compares it with the id of the sensor, and compares the bases of the two
seals. Then it stores all four.

What a call has to be given to get to the stores is `Passes`. What `use_sensor`
does with them later goes by other fields: `CSeal` and `CUnseal` take the object
type from the cursor and ask for a permission, `CInvoke` looks at two object
types. None of these is checked. So what is stored is bound to the sensor where
they happen to be what they should be (`Vouched`), and a caller is free to
choose them.
-/

namespace Proteus

/-- **The four capabilities of a `struct enclave`.** -/
structure SensorCaps where
  code : Capability
  data : Capability
  enc : Capability
  sign : Capability
deriving DecidableEq, Repr

/-- **A capability to seal with one object type**: the one its cursor is at. -/
structure Capability.SealsAt (c : Capability) (k : Word) : Prop where
  tag : c.tag = true
  unsealed : c.isSealed = false
  permit : c.perms.permitSeal = true
  cursor : c.address = k
  bounds : ¬ k < c.base ∧ k < c.top
  le_maxOtype : k.toNat ≤ maxOtype

/-- **A capability to unseal one object type.** -/
structure Capability.UnsealsAt (c : Capability) (k : Word) : Prop where
  tag : c.tag = true
  unsealed : c.isSealed = false
  permit : c.perms.permitUnseal = true
  cursor : c.address = k
  bounds : ¬ k < c.base ∧ k < c.top

/-- What seals with an object type does, with `CSeal`. -/
theorem Capability.SealsAt.cSeal {c cs1 : Capability} {k : Word} (h : c.SealsAt k)
    (htag : cs1.tag = true) (hunsealed : cs1.isSealed = false) (rs1 rs2 : RegId) :
    Proteus.cSeal cs1 c rs1 rs2 = .ok (cs1.sealWith (k.setWidth otypeLen)) := by
  unfold Proteus.cSeal
  rw [if_neg (by simp [htag]), if_neg (by simp [h.tag]), if_neg (by simp [hunsealed]),
    if_neg (by simp [h.unsealed]), if_neg (by simp [h.permit]), h.cursor, if_neg h.bounds.1,
    if_neg (by simpa using h.bounds.2), if_neg (Nat.not_lt.2 h.le_maxOtype)]

/-- What unseals an object type does, with `CUnseal`. -/
theorem Capability.UnsealsAt.cUnseal {c cs1 : Capability} {k : Word} (h : c.UnsealsAt k)
    (htag : cs1.tag = true) (hsealed : cs1.isSealed = true) (hk : cs1.otype.setWidth 32 = k)
    (rs1 rs2 : RegId) : Proteus.cUnseal cs1 c rs1 rs2 = .ok cs1.unsealed :=
  cUnseal_of_authority rs1 rs2 htag hsealed h.tag h.unsealed (h.cursor.trans hk.symm) h.permit
    (h.cursor ▸ h.bounds.1) (by rw [h.cursor]; simpa using h.bounds.2)

/-- **A capability sealed with an object type.** -/
structure Capability.SealedWith (c : Capability) (k : Word) : Prop where
  isSealed : c.isSealed = true
  otype : c.otype.setWidth 32 = k

namespace SensorCaps

/-- **Four capabilities of the enclave whose object types start at `k`.** -/
structure BoundTo (caps : SensorCaps) (k : Word) : Prop where
  enc : caps.enc.SealsAt k
  sign : caps.sign.UnsealsAt (k + 1)
  code : caps.code.SealedWith (k + 2)
  data : caps.data.SealedWith (k + 2)

/-- **The fields of four capabilities that nothing looks at**, as they should be
for the cursor of the first seal. Where the second seal starts is compared. -/
structure Trusted (caps : SensorCaps) : Prop where
  enc_unsealed : caps.enc.isSealed = false
  enc_permitSeal : caps.enc.perms.permitSeal = true
  enc_bounds : ¬ caps.enc.address < caps.enc.base ∧ caps.enc.address < caps.enc.top
  enc_le_maxOtype : caps.enc.address.toNat ≤ maxOtype
  sign_tag : caps.sign.tag = true
  sign_unsealed : caps.sign.isSealed = false
  sign_permitUnseal : caps.sign.perms.permitUnseal = true
  sign_cursor : caps.sign.address = caps.enc.address + 1
  sign_top : caps.sign.address < caps.sign.top
  code : caps.code.SealedWith (caps.enc.address + 2)
  data : caps.data.SealedWith (caps.enc.address + 2)

/-- A cursor past one that is not below its base is not below the next base. -/
theorem not_lt_add_one {a base : Word} (h : ¬ a < base) (hmax : a.toNat ≤ maxOtype) :
    ¬ a + 1 < base + 1 := by
  have hsmall : maxOtype < 2 ^ 31 := by decide
  rw [BitVec.lt_def, Nat.not_lt] at h
  rw [BitVec.lt_def, BitVec.toNat_add, BitVec.toNat_add, show (1 : Word).toNat = 1 from rfl,
    Nat.mod_eq_of_lt (by omega), Nat.mod_eq_of_lt (by omega)]
  omega

/-- **Where the first seal is tagged and the second starts past it**, nothing else
is missing. -/
theorem boundTo_iff {caps : SensorCaps} {k : Word} (htag : caps.enc.tag = true)
    (hbases : caps.enc.base = caps.sign.base - 1) :
    caps.BoundTo k ↔ caps.enc.address = k ∧ caps.Trusted := by
  have hsign : caps.sign.base = caps.enc.base + 1 := by rw [hbases, BitVec.sub_add_cancel]
  constructor
  · intro h
    obtain rfl := h.enc.cursor
    refine ⟨rfl, h.enc.unsealed, h.enc.permit, h.enc.bounds, h.enc.le_maxOtype, h.sign.tag,
      h.sign.unsealed, h.sign.permit, h.sign.cursor, ?_, h.code, h.data⟩
    rw [h.sign.cursor]
    exact h.sign.bounds.2
  · rintro ⟨rfl, h⟩
    refine ⟨⟨htag, h.enc_unsealed, h.enc_permitSeal, rfl, h.enc_bounds, h.enc_le_maxOtype⟩,
      ⟨h.sign_tag, h.sign_unsealed, h.sign_permitUnseal, h.sign_cursor, ?_⟩, h.code, h.data⟩
    rw [hsign, ← h.sign_cursor]
    exact ⟨h.sign_cursor ▸ not_lt_add_one h.enc_bounds.1 h.enc_le_maxOtype, h.sign_top⟩

end SensorCaps

namespace UserEnclave

variable {w : ℕ} (x : UserEnclave) (i : EntryInput w)

/-! ## The text, in parts -/

/-- The data of the enclave, as an entry finds it in `ct1`. -/
def dataCap : Capability := cSetOffset x.c31 (BitVec.ofNat 32 DATA_OFFSET_ENCLAVE)

/-- All that `set_sensor_enclave` checks, with the two seals it has loaded by
then. -/
def sensorChecks : Runtime (Option (Capability × Capability)) := do
  let ct2 ← x.lcCap i (cIncOffset i.ca0 (BitVec.ofNat 32 (2 * CAP_LEN)))
  if !ct2.tag then pure none
  else do
    let t0 := ct2.base
    let ct3 ← modify .setBounds (cIncOffset x.dataCap (BitVec.ofNat 32 DATA_OFFSET_BUF)) 32
    let t1 ← x.eStoreId i t0 ct3
    if t1 = 0 then pure none
    else do
      let same ← x.compareId i ct3 (cSetOffset x.pcc x.sensorIdStart) 8
      if !same then pure none
      else do
        let ct3 ← x.lcCap i (cIncOffset i.ca0 (BitVec.ofNat 32 (3 * CAP_LEN)))
        if t0 ≠ ct3.base - 1 then pure none else pure (some (ct2, ct3))

/-- **`set_sensor_enclave` as checks and stores.** -/
def sensorStore : GuardedStore RuntimeState EntryStop (Capability × Capability) where
  checks := x.sensorChecks i
  first := fun _ => do
    let ct4 ← x.lcCap i i.ca0
    x.scCap ct4 (cIncOffset x.dataCap (BitVec.ofNat 32 DATA_OFFSET_SENSOR_CODE))
  rest := fun (ct2, ct3) => do
    let ct4 ← x.lcCap i (cIncOffset i.ca0 (BitVec.ofNat 32 CAP_LEN))
    x.scCap ct4 (cIncOffset x.dataCap (BitVec.ofNat 32 DATA_OFFSET_SENSOR_DATA))
    x.scCap ct2 (cIncOffset x.dataCap (BitVec.ofNat 32 DATA_OFFSET_SENSOR_ENC))
    x.scCap ct3 (cIncOffset x.dataCap (BitVec.ofNat 32 DATA_OFFSET_SENSOR_SIGN))

/-- The call is the program in parts, and an exit. -/
theorem setSensorEnclave_eq :
    x.setSensorEnclave i x.dataCap = (x.sensorStore i).run >>= fun stored =>
      enclaveExit
        (if stored then cIncOffset i.ca0 (BitVec.ofNat 32 CAP_LEN) else { i.ca0 with tag := false })
        i.ca1 i.cra := by
  unfold GuardedStore.run sensorStore setSensorEnclave sensorChecks storeSensor
  rw [bind_assoc, bind_assoc]
  congr 1
  funext ct2
  by_cases htag : ct2.tag = true
  · rw [htag, Bool.not_true, if_neg Bool.false_ne_true, if_neg Bool.false_ne_true]
    simp only [bind_assoc]
    congr 1
    funext ct3
    congr 1
    funext t1
    by_cases ht1 : t1 = 0
    · rw [if_pos ht1, if_pos ht1]
      rfl
    · rw [if_neg ht1, if_neg ht1]
      simp only [bind_assoc]
      congr 1
      funext same
      cases same with
      | false => rfl
      | true =>
        simp only [Bool.not_true, Bool.false_eq_true, if_false, bind_assoc]
        congr 1
        funext ct3
        by_cases hbase : ct2.base ≠ ct3.base - 1
        · rw [if_pos hbase, if_pos hbase]
          rfl
        · rw [if_neg hbase, if_neg hbase]
          simp only [pure_bind, bind_assoc]
          rfl
  · rw [Bool.not_eq_true] at htag
    rw [htag, Bool.not_false, if_pos rfl, if_pos rfl]
    rfl

/-- The memory with a digest in the buffer. -/
def idStored (hash : Digest) (m : TaggedMemory) : TaggedMemory :=
  (List.range 8).foldl (fun m k =>
    m.storeWord x.cfg (x.addr (DATA_OFFSET_ENCLAVE + DATA_OFFSET_BUF + 4 * k))
      (endiannessSwap (digestWord hash k))) m

/-- The words of the sensor's id in the code section. -/
def idWord (m : TaggedMemory) (k : ℕ) : Word :=
  m.readWord x.cfg i.device (x.pcc.base + (x.sensorIdStart + BitVec.ofNat 32 (4 * k)))

/-- The four capabilities that are stored. -/
def sensorSlots (s : RuntimeState) : SensorCaps where
  code := x.slot s.mem (DATA_OFFSET_ENCLAVE + DATA_OFFSET_SENSOR_CODE)
  data := x.slot s.mem (DATA_OFFSET_ENCLAVE + DATA_OFFSET_SENSOR_DATA)
  enc := x.slot s.mem (DATA_OFFSET_ENCLAVE + DATA_OFFSET_SENSOR_ENC)
  sign := x.slot s.mem (DATA_OFFSET_ENCLAVE + DATA_OFFSET_SENSOR_SIGN)

/-- A capability of the argument. -/
def argument (m : TaggedMemory) (f : ℕ) : Capability :=
  m.loadCap x.cfg i.device (i.ca0.address + BitVec.ofNat 32 f)

/-- **The four capabilities that are passed**, as the call loads them: the
first of the seals, and once a digest is in the buffer the other and the code,
and once the code is stored the data. -/
def sensorFound (hash : Digest) (m : TaggedMemory) : SensorCaps :=
  let m₁ := x.idStored hash m
  let code := x.argument i m₁ 0
  { code := code
    data := x.argument i (m₁.storeCap x.cfg
      (x.addr (DATA_OFFSET_ENCLAVE + DATA_OFFSET_SENSOR_CODE)) code) CAP_LEN
    enc := x.argument i m (2 * CAP_LEN)
    sign := x.argument i m₁ (3 * CAP_LEN) }

/-- **The id of the sensor**, as it is compared. -/
def comparedId (s : RuntimeState) (k : ℕ) : Word := x.idWord i ((x.sensorChecks i).exec s).2.mem k

/-- **What should be stored is bound to the sensor**: to a finished enclave
with its id, and the object types of that. -/
def Bound (s : RuntimeState) (caps : SensorCaps) : Prop :=
  ∃ e ∈ i.store.entries, e.used = true ∧ e.ready = true
    ∧ (∀ k < 8, x.comparedId i s k = endiannessSwap (digestWord e.hash k))
    ∧ caps.BoundTo (e.id.otype.setWidth 32)

/-- **The call binds what it stores to the sensor, or stores nothing.** -/
structure BindsSensor (s : RuntimeState) : Prop where
  stored : (x.sensorStore i).Completes s →
    x.Bound i s (x.sensorSlots ((x.setSensorEnclave i x.dataCap).exec s).2)
  failed : ¬ (x.sensorStore i).Completes s → ¬ (x.sensorStore i).Begins s
    ∧ x.sensorSlots ((x.setSensorEnclave i x.dataCap).exec s).2 = x.sensorSlots s

/-! ### What the call goes by -/

/-- **Bytes can be loaded** through a capability, at an address. -/
def CanLoad (c : Capability) (a n : Word) : Prop :=
  c.tag = true ∧ c.isSealed = false ∧ c.perms.load = true ∧ c.InBounds a n

/-- A word can be. -/
def CanLoadWord (c : Capability) (a : Word) : Prop := CanLoad c a 4 ∧ a.toNat % 4 = 0

/-- A capability of the argument can be. -/
def ArgReadable (f : ℕ) : Prop := CanLoad i.ca0 (i.ca0.address + BitVec.ofNat 32 f) capByteWidth

/-- **The data section takes what the call stores**, and gives back the digest in
its buffer. -/
structure DataSectionOpen : Prop where
  tag : x.c31.tag = true
  unsealed : x.c31.isSealed = false
  load : x.c31.perms.load = true
  store : x.c31.perms.store = true
  room : DATA_OFFSET_ENCLAVE + DATA_OFFSET_BUF + 32 ≤ x.len
  aligned : x.c31.base.toNat % 4 = 0

/-- **What a call goes by**, with the digest it finds: both sections, three of the
capabilities that are passed, the store, the words of the id, and the bases of
the two seals. -/
structure Passes (s : RuntimeState) (hash : Digest) : Prop where
  readable : ∀ f ∈ [0, 2 * CAP_LEN, 3 * CAP_LEN], ArgReadable i f
  tag : (x.sensorFound i hash s.mem).enc.tag = true
  dataSection : x.DataSectionOpen
  found : i.store.getHash (x.sensorFound i hash s.mem).enc.base = some (some hash)
  idReadable : ∀ k < 8,
    CanLoadWord x.pcc (x.pcc.base + (x.sensorIdStart + BitVec.ofNat 32 (4 * k)))
  id : ∀ k < 8, x.idWord i (x.idStored hash s.mem) k = endiannessSwap (digestWord hash k)
  bases : (x.sensorFound i hash s.mem).enc.base = (x.sensorFound i hash s.mem).sign.base - 1

/-- **What the call takes on trust.** The cursor of the first seal is at the
first object type of a finished enclave with the digest that was found for its
base, and the other fields are as they should be for that cursor. -/
structure Vouched (s : RuntimeState) (hash : Digest) : Prop where
  cursor : ∃ e ∈ i.store.entries, e.used = true ∧ e.ready = true ∧ e.hash = hash
    ∧ (x.sensorFound i hash s.mem).enc.address = e.id.otype.setWidth 32
  trusted : (x.sensorFound i hash s.mem).Trusted

section

variable {x} {i} {s : RuntimeState}

/-- The exit changes nothing. -/
theorem exec_enclaveExit_snd (ca0 ca1 cra : Capability) (s : RuntimeState) :
    ((enclaveExit ca0 ca1 cra).exec s).2 = s :=
  Trapping.wp_state (E := fun s' => s' = s) (wp_enclaveExit rfl)

/-- What the call leaves is what the program in parts does. -/
theorem exec_setSensorEnclave_snd :
    ((x.setSensorEnclave i x.dataCap).exec s).2 = (x.sensorStore i).after s := by
  rw [setSensorEnclave_eq, GuardedStore.after]
  rcases hrun : (x.sensorStore i).run.exec s with ⟨e | stored, s'⟩
  · rw [Trapping.exec_bind_error hrun]
  · rw [Trapping.exec_bind_ok hrun, exec_enclaveExit_snd]

/-! ## The buffer -/

/-- A word stored in the buffer is read there. -/
theorem readWord_storeWord {a : Word} (ha : x.cfg.InMemory a) (m : TaggedMemory)
    (device : Word → Word) (v : Word) (b : Word) :
    (m.storeWord x.cfg a v).readWord x.cfg device b
      = if x.cfg.InMemory b ∧ b.toNat / 4 = a.toNat / 4 then v else m.readWord x.cfg device b := by
  unfold TaggedMemory.readWord TaggedMemory.storeWord MemBus.writeWord
  simp only [true_and, if_pos ha, maskWrite_all, Function.update_apply]
  by_cases hb : x.cfg.InMemory b
  · simp only [hb, if_true, true_and]
  · simp only [hb, if_false, false_and]

/-- A word stored behind a slot leaves it. -/
theorem slot_storeWord {f : ℕ} (hf : f + 16 ≤ x.len) {a : Word}
    (ha : x.c31.base.toNat + f + 16 ≤ a.toNat) (m : TaggedMemory) (v : Word) :
    x.slot (m.storeWord x.cfg a v) f = x.slot m f := by
  have hb := holds_addr hf
  have hnat := toNat_addr (x := x) (f := f) (by omega)
  have hstart := hb.1
  unfold slot
  rw [hb.loadCap_eq, hb.loadCap_eq]
  have htags : (m.storeWord x.cfg a v).tags (x.cfg.granule (x.addr f))
      = m.tags (x.cfg.granule (x.addr f)) := by
    show m.setTag x.cfg a false _ = _
    rw [TaggedMemory.setTag_eq, if_neg]
    rintro ⟨hin, hg⟩
    exact TaggedMemory.granule_ne hb.1 hin.1 (Or.inl (by omega)) hg
  rw [htags]
  refine Capability.ofMemWords_congr (fun k hk => ?_)
  show MemBus.writeWord x.cfg m.ram _ _ = _
  unfold MemBus.writeWord
  split
  · exact Function.update_of_ne (by
      show (x.addr f).toNat / 4 + k ≠ a.toNat / 4
      omega) _ _
  · rfl

/-- **The digest in the buffer** leaves the slots before it. -/
theorem slot_idStored {f : ℕ} (hf : f + 16 ≤ DATA_OFFSET_ENCLAVE + DATA_OFFSET_BUF)
    (hlen : DATA_OFFSET_ENCLAVE + DATA_OFFSET_BUF + 32 ≤ x.len) (hash : Digest)
    (m : TaggedMemory) : x.slot (x.idStored hash m) f = x.slot m f := by
  suffices h : ∀ n ≤ 8, x.slot ((List.range n).foldl (fun m k =>
      m.storeWord x.cfg (x.addr (DATA_OFFSET_ENCLAVE + DATA_OFFSET_BUF + 4 * k))
        (endiannessSwap (digestWord hash k))) m) f = x.slot m f from h 8 (le_refl _)
  intro n hn
  induction n with
  | zero => rfl
  | succ n ih =>
    have hnat := toNat_addr (x := x) (f := DATA_OFFSET_ENCLAVE + DATA_OFFSET_BUF + 4 * n)
      (by omega)
    rw [List.range_succ, List.foldl_append, List.foldl_cons, List.foldl_nil,
      slot_storeWord (by omega) (by rw [hnat]; omega), ih (by omega)]

/-- **The words of the digest are in the buffer**, where it starts at a word. -/
theorem readWord_idStored (hlen : DATA_OFFSET_ENCLAVE + DATA_OFFSET_BUF + 32 ≤ x.len)
    (hash : Digest) (m : TaggedMemory) (device : Word → Word) {k : ℕ} (hk : k < 8) :
    (x.idStored hash m).readWord x.cfg device
        (x.addr (DATA_OFFSET_ENCLAVE + DATA_OFFSET_BUF + 4 * k))
      = endiannessSwap (digestWord hash k) := by
  have hin : ∀ j < 8, x.cfg.InMemory (x.addr (DATA_OFFSET_ENCLAVE + DATA_OFFSET_BUF + 4 * j))
      ∧ (x.addr (DATA_OFFSET_ENCLAVE + DATA_OFFSET_BUF + 4 * j)).toNat
        = x.c31.base.toNat + (DATA_OFFSET_ENCLAVE + DATA_OFFSET_BUF) + 4 * j := by
    intro j hj
    have hlo := x.memoryStart_le
    have hhi := x.le_memoryEnd
    have hnat := toNat_addr (x := x) (f := DATA_OFFSET_ENCLAVE + DATA_OFFSET_BUF + 4 * j)
      (by omega)
    unfold len at hlen
    rw [MemConfig.InMemory]
    omega
  suffices h : ∀ n ≤ 8, k < n → ((List.range n).foldl (fun m j =>
      m.storeWord x.cfg (x.addr (DATA_OFFSET_ENCLAVE + DATA_OFFSET_BUF + 4 * j))
        (endiannessSwap (digestWord hash j))) m).readWord x.cfg device
          (x.addr (DATA_OFFSET_ENCLAVE + DATA_OFFSET_BUF + 4 * k))
      = endiannessSwap (digestWord hash k) from h 8 (le_refl _) hk
  intro n hn hkn
  induction n with
  | zero => exact absurd hkn (Nat.not_lt_zero _)
  | succ n ih =>
    rw [List.range_succ, List.foldl_append, List.foldl_cons, List.foldl_nil,
      readWord_storeWord (hin n (by omega)).1]
    by_cases hlast : k = n
    · rw [hlast, if_pos ⟨(hin n (by omega)).1, rfl⟩]
    · rw [if_neg, ih (by omega) (by omega)]
      rintro ⟨-, hsame⟩
      rw [(hin k hk).2, (hin n (by omega)).2] at hsame
      omega

/-! ## Instructions -/

open Trapping (wp)

theorem address_cIncOffset (c : Capability) (imm : Word) :
    (cIncOffset c imm).address = c.address + imm :=
  (BitVec.add_assoc _ _ _).symm

theorem check_load_eq_none_iff {c : Capability} {a n : Word} :
    CapCheck.check c a .load n = none ↔ CanLoad c a n :=
  CapCheck.check_eq_none_iff (by decide)

theorem exec_orTrap_eq_ok {ε α : Type} {v : Except ε α} {a : α} {s' : RuntimeState} :
    (orTrap v).exec s = (.ok a, s') ↔ v = .ok a ∧ s = s' := by
  cases v with
  | error e => exact ⟨fun h => (by cases h), fun h => (by cases h.1)⟩
  | ok b =>
    show ((.ok b, s) : Except EntryStop α × RuntimeState) = _ ↔ _
    rw [Prod.mk.injEq, Except.ok.injEq, Except.ok.injEq]

/-- **A load of a capability.** -/
theorem exec_lcCap_eq_ok {cs1 v : Capability} {s' : RuntimeState} :
    (x.lcCap i cs1).exec s = (.ok v, s') ↔ CanLoad cs1 cs1.address capByteWidth
      ∧ v = s.mem.loadCap x.cfg i.device cs1.address ∧ s = s' := by
  unfold lcCap trapIf
  rw [← check_load_eq_none_iff]
  by_cases hc : CapCheck.check cs1 cs1.address .load capByteWidth = none
  · rw [if_neg (not_not.2 hc), and_iff_right hc]
    show ((.ok _, s) : Except EntryStop Capability × RuntimeState) = _ ↔ _
    rw [Prod.mk.injEq, Except.ok.injEq]
    exact and_congr_left fun _ => eq_comm
  · rw [if_pos hc]
    exact ⟨fun h => (by cases h), fun h => absurd h.1 hc⟩

/-- **A load of a word.** -/
theorem exec_lwCap_eq_ok {cs1 : Capability} {v : Word} {s' : RuntimeState} :
    (x.lwCap i cs1).exec s = (.ok v, s') ↔ CanLoadWord cs1 cs1.address
      ∧ v = s.mem.readWord x.cfg i.device cs1.address ∧ s = s' := by
  unfold lwCap trapIf CanLoadWord
  rw [← check_load_eq_none_iff]
  by_cases hc : CapCheck.check cs1 cs1.address .load LsuAccessWidth.W.byteWidth = none
  · by_cases hal : cs1.address.toNat % 4 = 0
    · rw [if_neg (not_not.2 hc), if_neg (not_not.2 hal), and_iff_right ⟨hc, hal⟩]
      show ((.ok _, s) : Except EntryStop Word × RuntimeState) = _ ↔ _
      rw [Prod.mk.injEq, Except.ok.injEq]
      exact and_congr_left fun _ => eq_comm
    · rw [if_neg (not_not.2 hc), if_pos hal]
      exact ⟨fun h => (by cases h), fun h => absurd h.1.2 hal⟩
  · rw [if_pos hc]
    exact ⟨fun h => (by cases h), fun h => absurd h.1.1 hc⟩

/-- What a store that does not trap does. -/
theorem exec_scCap_ok {cs2 cs1 : Capability}
    (h : CapCheck.check cs1 cs1.address .store capByteWidth = none) :
    (x.scCap cs2 cs1).exec s
      = (.ok (), { s with mem := s.mem.storeCap x.cfg cs1.address cs2 }) := by
  unfold scCap trapIf
  rw [if_neg (not_not.2 h)]
  rfl

/-- **A store in the data section does not trap.** -/
theorem exec_scCap_static {f : ℕ} (hf : f + 16 ≤ x.len) (hopen : x.DataSectionOpen)
    (cs2 : Capability) :
    (x.scCap cs2 (cSetOffset x.c31 (BitVec.ofNat 32 f))).exec s
      = (.ok (), { s with mem := s.mem.storeCap x.cfg (x.addr f) cs2 }) := by
  refine exec_scCap_ok ((CapCheck.check_eq_none_iff (by decide)).2
    ⟨hopen.tag, hopen.unsealed, hopen.store, ?_⟩)
  have hnat := toNat_addr (x := x) (f := f) (by omega)
  have htop := x.top_lt
  unfold len at hf
  show x.c31.InBounds (x.addr f) capByteWidth
  rw [Capability.inBounds_iff, hnat, show capByteWidth.toNat = 16 from rfl]
  rw [capBytes] at htop
  omega

/-- **A comparison finds no difference** where the words can be read, and are the
same. -/
theorem exec_compareId_eq_true {s' : RuntimeState} (n : ℕ) {ct3 ct4 : Capability} :
    (x.compareId i ct3 ct4 n).exec s = (.ok true, s') ↔ s = s' ∧ ∀ k < n,
      CanLoadWord ct3 (ct3.address + BitVec.ofNat 32 (4 * k))
        ∧ CanLoadWord ct4 (ct4.address + BitVec.ofNat 32 (4 * k))
        ∧ s.mem.readWord x.cfg i.device (ct3.address + BitVec.ofNat 32 (4 * k))
          = s.mem.readWord x.cfg i.device (ct4.address + BitVec.ofNat 32 (4 * k)) := by
  induction n generalizing ct3 ct4 with
  | zero =>
    unfold compareId
    rw [Trapping.exec_pure_eq_ok]
    exact ⟨fun h => ⟨h.2, fun k hk => absurd hk (Nat.not_lt_zero k)⟩, fun h => ⟨rfl, h.1⟩⟩
  | succ n ih =>
    have hfour : ∀ (c : Capability) (k : ℕ), (cIncOffset c 4).address + BitVec.ofNat 32 (4 * k)
        = c.address + BitVec.ofNat 32 (4 * (k + 1)) := by
      intro c k
      rw [address_cIncOffset, BitVec.add_assoc, Nat.mul_succ, Nat.add_comm (4 * k) 4,
        BitVec.ofNat_add]
      rfl
    have hzero : ∀ c : Capability, c.address + BitVec.ofNat 32 (4 * 0) = c.address :=
      fun c => BitVec.add_zero _
    unfold compareId
    simp only [Trapping.exec_bind_eq_ok, exec_lwCap_eq_ok]
    constructor
    · rintro ⟨_, _, ⟨hread, rfl, rfl⟩, _, _, ⟨hread', rfl, rfl⟩, hrest⟩
      split at hrest
      · exact absurd (Trapping.exec_pure_eq_ok.1 hrest).1 (by decide)
      · rename_i hsame
        obtain ⟨hs, hall⟩ := ih.1 hrest
        refine ⟨hs, fun k hk => ?_⟩
        cases k with
        | zero =>
          rw [hzero, hzero]
          exact ⟨hread, hread', not_not.1 hsame⟩
        | succ k =>
          have hk := hall k (Nat.lt_of_succ_lt_succ hk)
          rw [hfour, hfour] at hk
          exact hk
    · rintro ⟨rfl, hall⟩
      have hfirst := hall 0 (Nat.succ_pos n)
      rw [hzero, hzero] at hfirst
      refine ⟨_, _, ⟨hfirst.1, rfl, rfl⟩, _, _, ⟨hfirst.2.1, rfl, rfl⟩, ?_⟩
      rw [if_neg (not_not.2 hfirst.2.2)]
      refine ih.2 ⟨rfl, fun k hk => ?_⟩
      rw [hfour, hfour]
      exact hall (k + 1) (Nat.succ_lt_succ hk)

/-! ## The checks -/

/-- The buffer the digest is stored in. -/
def bufferCap (x : UserEnclave) : Capability :=
  { x.c31 with
    base := x.addr (DATA_OFFSET_ENCLAVE + DATA_OFFSET_BUF)
    length := 32
    offset := 0 }

theorem isSealed_bufferCap : x.bufferCap.isSealed = x.c31.isSealed := by
  rw [bufferCap, Capability.isSealed, Capability.isSealed]

theorem perms_bufferCap : x.bufferCap.perms = x.c31.perms := by
  rw [bufferCap]

theorem address_bufferCap : x.bufferCap.address = x.addr (DATA_OFFSET_ENCLAVE + DATA_OFFSET_BUF) :=
  BitVec.add_zero _

/-- **The bounds of the buffer can be set** where the data section has room. -/
theorem setBounds_buffer_iff {cd : Capability} :
    Modification.setBounds.apply (cIncOffset x.dataCap (BitVec.ofNat 32 DATA_OFFSET_BUF)) 32
        = .ok cd
      ↔ x.c31.tag = true ∧ DATA_OFFSET_ENCLAVE + DATA_OFFSET_BUF + 32 ≤ x.len
        ∧ cd = x.bufferCap := by
  rw [dataCap, cIncOffset_cSetOffset]
  constructor
  · intro h
    obtain ⟨hroom, hcd⟩ := setBounds_c31 (n := 32) (by decide) h
    exact ⟨(setBounds_ok h).1, hroom, hcd⟩
  · rintro ⟨htag, hroom, rfl⟩
    refine setBounds_of_inBounds htag ?_
    have hnat := toNat_addr (x := x) (f := DATA_OFFSET_ENCLAVE + DATA_OFFSET_BUF) (by omega)
    have htop := x.top_lt
    unfold len at hroom
    show x.c31.InBounds (x.addr (DATA_OFFSET_ENCLAVE + DATA_OFFSET_BUF)) 32
    rw [Capability.inBounds_iff, hnat, show (32 : Word).toNat = 32 from rfl]
    rw [capBytes] at htop
    omega

/-- The words of a digest, stored in the buffer. -/
theorem foldl_storeWord_buffer {a : Word} (ha : a = x.addr (DATA_OFFSET_ENCLAVE + DATA_OFFSET_BUF))
    (hash : Digest) (m : TaggedMemory) :
    (List.range 8).foldl (fun m k => m.storeWord x.cfg (a + BitVec.ofNat 32 (4 * k))
      (endiannessSwap (digestWord hash k))) m = x.idStored hash m := by
  unfold idStored
  congr 1
  funext m k
  rw [ha, addr_add]

/-- **`EStoreId` into the buffer** stores a digest where it finds one. -/
theorem exec_eStoreId_eq_ok {rs1 t1 : Word} {s' : RuntimeState} (ht1 : t1 ≠ 0) :
    (x.eStoreId i rs1 x.bufferCap).exec s = (.ok t1, s') ↔
      x.c31.isSealed = false ∧ x.c31.perms.store = true ∧ t1 = 1
        ∧ ∃ hash, i.store.getHash rs1 = some (some hash)
          ∧ s' = { s with mem := x.idStored hash s.mem } := by
  have hlen : decide (32 ≤ (x.bufferCap.length - x.bufferCap.offset).toNat) = true := by
    show decide (32 ≤ ((32 : Word) - 0).toNat) = true
    decide
  unfold eStoreId
  rw [hlen, Bool.and_true, isSealed_bufferCap, perms_bufferCap]
  by_cases hbuf : (!x.c31.isSealed && x.c31.perms.store) = true
  · have hopen : x.c31.isSealed = false ∧ x.c31.perms.store = true := by simpa using hbuf
    rw [if_pos hbuf, and_iff_right hopen.1, and_iff_right hopen.2]
    cases hget : i.store.getHash rs1 with
    | none => exact ⟨fun h => (by cases h), fun ⟨_, _, h, _⟩ => (by cases h)⟩
    | some found =>
      cases found with
      | none =>
        refine ⟨fun h => ?_, fun ⟨_, _, h, _⟩ => (by cases h)⟩
        exact absurd (Trapping.exec_pure_eq_ok.1 h).1.symm ht1
      | some hash =>
        rw [Trapping.exec_update_bind, foldl_storeWord_buffer address_bufferCap,
          Trapping.exec_pure_eq_ok]
        constructor
        · rintro ⟨ht, hs⟩
          exact ⟨ht.symm, hash, rfl, hs.symm⟩
        · rintro ⟨ht, hash', hhash, hs⟩
          rw [← Option.some.inj (Option.some.inj hhash)] at hs
          exact ⟨ht.symm, hs.symm⟩
  · rw [if_neg hbuf]
    constructor
    · exact fun h => absurd (Trapping.exec_pure_eq_ok.1 h).1.symm ht1
    · rintro ⟨hunsealed, hstore, -⟩
      exact absurd (by rw [hunsealed, hstore]; rfl) hbuf

/-- The words of the buffer can be read where the data section is open, and only
there. -/
theorem canLoadWord_bufferCap_iff (htag : x.c31.tag = true) (hunsealed : x.c31.isSealed = false)
    (hroom : DATA_OFFSET_ENCLAVE + DATA_OFFSET_BUF + 32 ≤ x.len) {k : ℕ} (hk : k < 8) :
    CanLoadWord x.bufferCap (x.bufferCap.address + BitVec.ofNat 32 (4 * k))
      ↔ x.c31.perms.load = true ∧ x.c31.base.toNat % 4 = 0 := by
  have hbase := toNat_addr (x := x) (f := DATA_OFFSET_ENCLAVE + DATA_OFFSET_BUF) (by omega)
  have hnat := toNat_addr (x := x) (f := DATA_OFFSET_ENCLAVE + DATA_OFFSET_BUF + 4 * k) (by omega)
  have htop := x.top_lt
  have hmul : (DATA_OFFSET_ENCLAVE + DATA_OFFSET_BUF) % 4 = 0 := by decide
  unfold CanLoadWord CanLoad
  rw [address_bufferCap, addr_add, isSealed_bufferCap, perms_bufferCap, Capability.inBounds_iff,
    bufferCap, hnat, hbase, show (32 : Word).toNat = 32 from rfl,
    show (4 : Word).toNat = 4 from rfl]
  unfold len at hroom
  rw [capBytes] at htop
  constructor
  · rintro ⟨⟨-, -, hload, -⟩, hal⟩
    exact ⟨hload, by omega⟩
  · rintro ⟨hload, hal⟩
    exact ⟨⟨htag, hunsealed, hload, by omega, by omega⟩, by omega⟩

/-- A store or a load through a capability asks for the same at any offset. -/
theorem canLoad_cSetOffset {c : Capability} {offset a n : Word} :
    CanLoad (cSetOffset c offset) a n ↔ CanLoad c a n := by
  rw [CanLoad, CanLoad, Capability.isSealed, Capability.isSealed]
  exact Iff.rfl

theorem canLoad_ca0_iff {f : ℕ} :
    CanLoad (cIncOffset i.ca0 (BitVec.ofNat 32 f)) (cIncOffset i.ca0 (BitVec.ofNat 32 f)).address
      capByteWidth ↔ ArgReadable i f := by
  rw [address_cIncOffset]
  exact canLoad_cSetOffset

theorem canLoad_ca0_zero : CanLoad i.ca0 i.ca0.address capByteWidth ↔ ArgReadable i 0 := by
  rw [ArgReadable, show BitVec.ofNat 32 0 = 0#32 from rfl, BitVec.add_zero]

theorem argument_zero (m : TaggedMemory) :
    x.argument i m 0 = m.loadCap x.cfg i.device i.ca0.address := by
  rw [argument]
  congr 1
  exact BitVec.add_zero _

/-- The words of the id are read through PCC. -/
theorem address_sensorId (k : ℕ) :
    (cSetOffset x.pcc x.sensorIdStart).address + BitVec.ofNat 32 (4 * k)
      = x.pcc.base + (x.sensorIdStart + BitVec.ofNat 32 (4 * k)) :=
  BitVec.add_assoc _ _ _

theorem canLoadWord_sensorId_iff {k : ℕ} :
    CanLoadWord (cSetOffset x.pcc x.sensorIdStart)
        ((cSetOffset x.pcc x.sensorIdStart).address + BitVec.ofNat 32 (4 * k))
      ↔ CanLoadWord x.pcc (x.pcc.base + (x.sensorIdStart + BitVec.ofNat 32 (4 * k))) := by
  rw [address_sensorId]
  exact and_congr_left fun _ => canLoad_cSetOffset

/-- The words of the buffer, once a digest is in it. -/
theorem readWord_bufferCap (hroom : DATA_OFFSET_ENCLAVE + DATA_OFFSET_BUF + 32 ≤ x.len)
    (hash : Digest) (m : TaggedMemory) {k : ℕ} (hk : k < 8) :
    (x.idStored hash m).readWord x.cfg i.device (x.bufferCap.address + BitVec.ofNat 32 (4 * k))
      = endiannessSwap (digestWord hash k) := by
  rw [address_bufferCap, addr_add]
  exact readWord_idStored hroom hash m i.device hk

/-- The state with a digest in the buffer. -/
def checkedState (x : UserEnclave) (s : RuntimeState) (hash : Digest) : RuntimeState :=
  { s with mem := x.idStored hash s.mem }

/-- **A call that gets to its first store** has passed. -/
theorem passes_of_begins (h : (x.sensorStore i).Begins s) : ∃ hash, x.Passes i s hash := by
  obtain ⟨c, s₁, s₂, hchecks, hfirst⟩ := h
  have hchecks : (x.sensorChecks i).exec s = (.ok (some c), s₁) := hchecks
  unfold sensorChecks at hchecks
  obtain ⟨ct2, _, hload, hchecks⟩ := Trapping.exec_bind_eq_ok.1 hchecks
  obtain ⟨hread, rfl, rfl⟩ := exec_lcCap_eq_ok.1 hload
  split at hchecks
  · cases (Trapping.exec_pure_eq_ok.1 hchecks).1
  rename_i htag
  obtain ⟨ct3, _, hbounds, hchecks⟩ := Trapping.exec_bind_eq_ok.1 hchecks
  obtain ⟨happly, rfl⟩ := exec_orTrap_eq_ok.1 hbounds
  obtain ⟨hc31, hroom, rfl⟩ := setBounds_buffer_iff.1 happly
  obtain ⟨t1, _, hid, hchecks⟩ := Trapping.exec_bind_eq_ok.1 hchecks
  split at hchecks
  · cases (Trapping.exec_pure_eq_ok.1 hchecks).1
  rename_i ht1
  obtain ⟨hunsealed, hstore, rfl, hash, hget, rfl⟩ := (exec_eStoreId_eq_ok ht1).1 hid
  obtain ⟨same, _, hsame, hchecks⟩ := Trapping.exec_bind_eq_ok.1 hchecks
  cases same with
  | false => cases (Trapping.exec_pure_eq_ok.1 hchecks).1
  | true =>
    obtain ⟨rfl, hwords⟩ := (exec_compareId_eq_true 8).1 hsame
    rw [Bool.not_true, if_neg Bool.false_ne_true] at hchecks
    obtain ⟨ct3, _, hload', hchecks⟩ := Trapping.exec_bind_eq_ok.1 hchecks
    obtain ⟨hread', rfl, rfl⟩ := exec_lcCap_eq_ok.1 hload'
    split at hchecks
    · cases (Trapping.exec_pure_eq_ok.1 hchecks).1
    rename_i hbase
    obtain ⟨-, rfl⟩ := Trapping.exec_pure_eq_ok.1 hchecks
    obtain ⟨ct4, _, hload'', -⟩ := Trapping.exec_bind_eq_ok.1 hfirst
    obtain ⟨hread'', -⟩ := exec_lcCap_eq_ok.1 hload''
    rw [address_cIncOffset] at htag hget hbase
    rw [address_cIncOffset] at hbase
    have hopen := (canLoadWord_bufferCap_iff hc31 hunsealed hroom (by decide)).1
      (hwords 0 (by decide)).1
    rw [Bool.not_eq_true', Bool.not_eq_false] at htag
    refine ⟨hash, ?_, htag, ⟨hc31, hunsealed, hopen.1, hstore, hroom, hopen.2⟩, hget,
      fun k hk => canLoadWord_sensorId_iff.1 (hwords k hk).2.1, fun k hk => ?_, not_not.1 hbase⟩
    · intro f hf
      simp only [List.mem_cons, List.not_mem_nil, or_false] at hf
      obtain rfl | rfl | rfl := hf
      · exact canLoad_ca0_zero.1 hread''
      · exact canLoad_ca0_iff.1 hread
      · exact canLoad_ca0_iff.1 hread'
    · have hword := (hwords k hk).2.2
      rw [readWord_bufferCap hroom hash s.mem hk, address_sensorId] at hword
      exact hword.symm

namespace Passes

variable {hash : Digest}

/-- **The checks of a call that passes.** -/
theorem exec_sensorChecks (h : x.Passes i s hash) : (x.sensorChecks i).exec s
    = (.ok (some ((x.sensorFound i hash s.mem).enc, (x.sensorFound i hash s.mem).sign)),
      x.checkedState s hash) := by
  have hread : ∀ f ∈ [0, 2 * CAP_LEN, 3 * CAP_LEN], ∀ s : RuntimeState,
      (x.lcCap i (cIncOffset i.ca0 (BitVec.ofNat 32 f))).exec s
        = (.ok (x.argument i s.mem f), s) := by
    intro f hf s
    refine exec_lcCap_eq_ok.2 ⟨canLoad_ca0_iff.2 (h.readable f hf), ?_, rfl⟩
    rw [address_cIncOffset]
    rfl
  have htag : (x.argument i s.mem (2 * CAP_LEN)).tag = true := h.tag
  have hbounds : (modify .setBounds (cIncOffset x.dataCap (BitVec.ofNat 32 DATA_OFFSET_BUF))
      32).exec s = (.ok x.bufferCap, s) := by
    refine exec_orTrap_eq_ok.2 ⟨setBounds_buffer_iff.2 ?_, rfl⟩
    exact ⟨h.dataSection.tag, h.dataSection.room, rfl⟩
  have hid : (x.eStoreId i (x.argument i s.mem (2 * CAP_LEN)).base x.bufferCap).exec s
      = (.ok 1, x.checkedState s hash) :=
    (exec_eStoreId_eq_ok (by decide)).2
      ⟨h.dataSection.unsealed, h.dataSection.store, rfl, hash, h.found, rfl⟩
  have hsame : (x.compareId i x.bufferCap (cSetOffset x.pcc x.sensorIdStart) 8).exec
      (x.checkedState s hash) = (.ok true, x.checkedState s hash) := by
    refine (exec_compareId_eq_true 8).2 ⟨rfl, fun k hk => ⟨?_, ?_, ?_⟩⟩
    · exact (canLoadWord_bufferCap_iff h.dataSection.tag h.dataSection.unsealed h.dataSection.room
        hk).2 ⟨h.dataSection.load, h.dataSection.aligned⟩
    · exact canLoadWord_sensorId_iff.2 (h.idReadable k hk)
    · rw [checkedState, readWord_bufferCap h.dataSection.room hash s.mem hk, address_sensorId]
      exact (h.id k hk).symm
  have hbases : ¬ (x.argument i s.mem (2 * CAP_LEN)).base
      ≠ (x.argument i (x.checkedState s hash).mem (3 * CAP_LEN)).base - 1 := not_not.2 h.bases
  unfold sensorChecks
  rw [Trapping.exec_bind_ok (hread _ (by simp) s), htag, Bool.not_true, if_neg Bool.false_ne_true,
    Trapping.exec_bind_ok hbounds, Trapping.exec_bind_ok hid, if_neg (by decide),
    Trapping.exec_bind_ok hsame, Bool.not_true, if_neg Bool.false_ne_true,
    Trapping.exec_bind_ok (hread _ (by simp) _), if_neg hbases]
  rfl

end Passes

/-! ## What is stored -/

/-- A capability stored in another slot leaves a slot. -/
theorem slot_storeCap_of_apart {f g : ℕ} (hf : f + 16 ≤ x.len) (hg : g + 16 ≤ x.len)
    (happart : f + 16 ≤ g ∨ g + 16 ≤ f) (m : TaggedMemory) (cap : Capability) :
    x.slot (m.storeCap x.cfg (x.addr g) cap) f = x.slot m f := by
  refine (holds_addr hg).loadCap_storeCap_of_apart (holds_addr hf) ?_ _ _ _
  rw [toNat_addr (by omega), toNat_addr (by omega)]
  omega

/-- The state with the code stored. -/
def codeStored (x : UserEnclave) (i : EntryInput w) (s₁ : RuntimeState) : RuntimeState :=
  { s₁ with
    mem := s₁.mem.storeCap x.cfg (x.addr (DATA_OFFSET_ENCLAVE + DATA_OFFSET_SENSOR_CODE))
      (x.argument i s₁.mem 0) }

/-- The state with the rest stored. -/
def restStored (x : UserEnclave) (i : EntryInput w) (c : Capability × Capability)
    (s₂ : RuntimeState) : RuntimeState :=
  let data := x.argument i s₂.mem CAP_LEN
  let m := s₂.mem.storeCap x.cfg (x.addr (DATA_OFFSET_ENCLAVE + DATA_OFFSET_SENSOR_DATA)) data
  let m := m.storeCap x.cfg (x.addr (DATA_OFFSET_ENCLAVE + DATA_OFFSET_SENSOR_ENC)) c.1
  { s₂ with mem := m.storeCap x.cfg (x.addr (DATA_OFFSET_ENCLAVE + DATA_OFFSET_SENSOR_SIGN)) c.2 }

/-- The slots fit, where the buffer behind them does. -/
theorem slot_fits (hroom : DATA_OFFSET_ENCLAVE + DATA_OFFSET_BUF + 32 ≤ x.len) {f : ℕ}
    (hf : f ≤ DATA_OFFSET_SENSOR_SIGN) : DATA_OFFSET_ENCLAVE + f + 16 ≤ x.len := by
  have hbuf : DATA_OFFSET_SENSOR_SIGN + 16 ≤ DATA_OFFSET_BUF + 32 := by decide
  omega

/-- **The first store**, after the checks. -/
theorem Passes.exec_first {hash : Digest} (h : x.Passes i s hash) (c : Capability × Capability)
    (s₁ : RuntimeState) :
    ((x.sensorStore i).first c).exec s₁ = (.ok (), x.codeStored i s₁) := by
  have hload : (x.lcCap i i.ca0).exec s₁ = (.ok (x.argument i s₁.mem 0), s₁) :=
    exec_lcCap_eq_ok.2 ⟨canLoad_ca0_zero.2 (h.readable 0 (by simp)), argument_zero _, rfl⟩
  show (x.lcCap i i.ca0 >>= _).exec s₁ = _
  rw [Trapping.exec_bind_ok hload, dataCap, cIncOffset_cSetOffset, codeStored]
  exact exec_scCap_static (slot_fits h.dataSection.room (by decide)) h.dataSection _

/-- **The rest of them**, which are made where the data can be loaded. -/
theorem Passes.exec_rest_eq_ok {hash : Digest} (h : x.Passes i s hash) {c : Capability × Capability}
    {s₂ s₃ : RuntimeState} : ((x.sensorStore i).rest c).exec s₂ = (.ok (), s₃)
      ↔ ArgReadable i CAP_LEN ∧ s₃ = x.restStored i c s₂ := by
  have hroom := h.dataSection.room
  have hrun : ArgReadable i CAP_LEN →
      ((x.sensorStore i).rest c).exec s₂ = (.ok (), x.restStored i c s₂) := by
    intro hdata
    have hload : (x.lcCap i (cIncOffset i.ca0 (BitVec.ofNat 32 CAP_LEN))).exec s₂ = _ :=
      exec_lcCap_eq_ok.2 ⟨canLoad_ca0_iff.2 hdata, rfl, rfl⟩
    show (x.lcCap i _ >>= _).exec s₂ = _
    rw [Trapping.exec_bind_ok hload, address_cIncOffset, dataCap]
    simp only [cIncOffset_cSetOffset]
    rw [Trapping.exec_bind_ok (exec_scCap_static (slot_fits hroom (by decide)) h.dataSection _),
      Trapping.exec_bind_ok (exec_scCap_static (slot_fits hroom (by decide)) h.dataSection _),
      exec_scCap_static (slot_fits hroom (le_refl _)) h.dataSection _]
    rfl
  constructor
  · intro hrest
    obtain ⟨data, _, hload, -⟩ := Trapping.exec_bind_eq_ok.1 hrest
    have hdata := canLoad_ca0_iff.1 (exec_lcCap_eq_ok.1 hload).1
    exact ⟨hdata, ((Prod.mk.inj (hrest.symm.trans (hrun hdata))).2)⟩
  · rintro ⟨hdata, rfl⟩
    exact hrun hdata

/-- **What is in the slots** after all four stores. -/
theorem sensorSlots_restStored {c : Capability × Capability} {s₁ : RuntimeState}
    (hroom : DATA_OFFSET_ENCLAVE + DATA_OFFSET_BUF + 32 ≤ x.len) :
    x.sensorSlots (x.restStored i c (x.codeStored i s₁))
      = ⟨x.argument i s₁.mem 0, x.argument i (x.codeStored i s₁).mem CAP_LEN, c.1, c.2⟩ := by
  have hcode := slot_fits hroom (f := DATA_OFFSET_SENSOR_CODE) (by decide)
  have hdata := slot_fits hroom (f := DATA_OFFSET_SENSOR_DATA) (by decide)
  have henc := slot_fits hroom (f := DATA_OFFSET_SENSOR_ENC) (by decide)
  have hsign := slot_fits hroom (f := DATA_OFFSET_SENSOR_SIGN) (by decide)
  unfold sensorSlots restStored
  rw [SensorCaps.mk.injEq]
  refine ⟨?_, ?_, ?_, slot_storeCap hsign⟩
  · rw [slot_storeCap_of_apart hcode hsign (by decide),
      slot_storeCap_of_apart hcode henc (by decide), slot_storeCap_of_apart hcode hdata (by decide)]
    exact slot_storeCap hcode
  · rw [slot_storeCap_of_apart hdata hsign (by decide),
      slot_storeCap_of_apart hdata henc (by decide)]
    exact slot_storeCap hdata
  · rw [slot_storeCap_of_apart henc hsign (by decide)]
    exact slot_storeCap henc

namespace Passes

variable {hash : Digest}

/-- **A call that passes gets to its first store.** -/
theorem begins (h : x.Passes i s hash) : (x.sensorStore i).Begins s :=
  ⟨_, _, _, h.exec_sensorChecks, h.exec_first _ _⟩

/-- It makes the rest where the data can be loaded. -/
theorem completes_iff (h : x.Passes i s hash) :
    (x.sensorStore i).Completes s ↔ ArgReadable i CAP_LEN := by
  rw [GuardedStore.completes_iff_rest h.exec_sensorChecks (h.exec_first _ _)]
  constructor
  · rintro ⟨s₃, hrest⟩
    exact (h.exec_rest_eq_ok.1 hrest).1
  · exact fun hdata => ⟨_, h.exec_rest_eq_ok.2 ⟨hdata, rfl⟩⟩

/-- What it leaves in the slots is what was passed. -/
theorem sensorSlots_after (h : x.Passes i s hash) (hdata : ArgReadable i CAP_LEN) :
    x.sensorSlots ((x.sensorStore i).after s) = x.sensorFound i hash s.mem := by
  rw [GuardedStore.after_eq h.exec_sensorChecks (h.exec_first _ _)
    (h.exec_rest_eq_ok.2 ⟨hdata, rfl⟩)]
  exact sensorSlots_restStored h.dataSection.room

end Passes

/-! ## A call that stops before the first store -/

/-- `EStoreId` into the buffer: it is not answered, it fails, or the digest is
in the buffer. -/
theorem wp_eStoreId_idStored {rs1 : Word} {cs2 : Capability} {R : Word → RuntimeState → Prop}
    {E : RuntimeState → Prop} (haddr : cs2.address = x.addr (DATA_OFFSET_ENCLAVE + DATA_OFFSET_BUF))
    (hfail : R 0 s) (hhang : E s) (hstored : ∀ hash, R 1 (x.checkedState s hash)) :
    wp (x.eStoreId i rs1 cs2) R E s := by
  unfold eStoreId
  rw [Trapping.wp_ite]
  refine ⟨fun _ => ?_, fun _ => hfail⟩
  cases i.store.getHash rs1 with
  | none => exact hhang
  | some found =>
    cases found with
    | none => exact hfail
    | some hash =>
      rw [Trapping.wp_bind, Trapping.wp_update, Trapping.wp_pure, foldl_storeWord_buffer haddr]
      exact hstored hash

/-- A comparison changes nothing. -/
theorem wp_compareId_same {ct3 ct4 : Capability} (n : ℕ) :
    wp (x.compareId i ct3 ct4 n) (fun _ s' => s' = s) (fun s' => s' = s) s := by
  induction n generalizing ct3 ct4 with
  | zero => exact rfl
  | succ n ih =>
    unfold compareId
    rw [Trapping.wp_bind]
    refine wp_lwCap (fun _ => ?_) rfl
    rw [Trapping.wp_bind]
    refine wp_lwCap (fun _ => ?_) rfl
    rw [Trapping.wp_ite]
    exact ⟨fun _ => rfl, fun _ => ih⟩

/-- **The checks leave the slots alone**, however they end. -/
theorem wp_sensorChecks :
    wp (x.sensorChecks i) (fun _ s₁ => x.sensorSlots s₁ = x.sensorSlots s)
      (fun s₁ => x.sensorSlots s₁ = x.sensorSlots s) s := by
  unfold sensorChecks
  rw [Trapping.wp_bind]
  refine wp_lcCap (fun _ => ?_) rfl
  rw [Trapping.wp_ite]
  refine ⟨fun _ => rfl, fun _ => ?_⟩
  rw [Trapping.wp_bind]
  refine wp_orTrap (fun ct3 hct3 => ?_) rfl
  obtain ⟨-, hroom, rfl⟩ := setBounds_buffer_iff.1 hct3
  rw [Trapping.wp_bind]
  refine wp_eStoreId_idStored address_bufferCap ?_ rfl (fun hash => ?_)
  · rw [Trapping.wp_ite]
    exact ⟨fun _ => rfl, fun h => (h rfl).elim⟩
  have hslots : x.sensorSlots (x.checkedState s hash) = x.sensorSlots s := by
    unfold sensorSlots checkedState
    rw [slot_idStored (by decide) hroom, slot_idStored (by decide) hroom,
      slot_idStored (by decide) hroom, slot_idStored (by decide) hroom]
  rw [Trapping.wp_ite]
  refine ⟨fun _ => hslots, fun _ => ?_⟩
  rw [Trapping.wp_bind]
  refine Trapping.wp_mono (wp_compareId_same 8) (fun same s₁ h => ?_) (fun s₁ h => h ▸ hslots)
  obtain rfl := h
  rw [Trapping.wp_ite]
  refine ⟨fun _ => hslots, fun _ => ?_⟩
  rw [Trapping.wp_bind]
  refine wp_lcCap (fun _ => ?_) hslots
  rw [Trapping.wp_ite]
  exact ⟨fun _ => hslots, fun _ => hslots⟩

/-- A first store that traps changes nothing. -/
theorem wp_first (c : Capability × Capability) :
    wp ((x.sensorStore i).first c) (fun _ _ => True) (fun s' => s' = s) s := by
  show wp (x.lcCap i i.ca0 >>= _) _ _ s
  rw [Trapping.wp_bind]
  exact wp_lcCap (fun _ => wp_scCap (fun _ => trivial) rfl) rfl

/-- **A call that does not get to the stores** leaves the slots. -/
theorem sensorSlots_of_not_begins (h : ¬ (x.sensorStore i).Begins s) :
    x.sensorSlots ((x.sensorStore i).after s) = x.sensorSlots s := by
  refine GuardedStore.view_after_of_not_begins (fun r s₁ hchecks => ?_)
    (fun c s₁ e s₂ _ hfirst => ?_) h
  · rcases r with e | r
    · have hkept := Trapping.wp_error wp_sensorChecks hchecks
      exact hkept
    · have hkept := Trapping.wp_ok wp_sensorChecks hchecks
      exact hkept
  · rw [Trapping.wp_error (wp_first c) hfirst]

/-! ## What the call binds -/

/-- **A digest is known from its words** in the order of the buffer. -/
theorem digest_eq_of_words {h h' : Digest}
    (hw : ∀ k < 8, endiannessSwap (digestWord h k) = endiannessSwap (digestWord h' k)) :
    h = h' := by
  refine ByteOrder.eq_of_swapBytes (fun k hk => ?_)
  have hk' : 224 - 32 * k = 32 * (7 - k) := by omega
  rw [hk']
  exact hw k hk

/-- **What is stored is bound to the sensor where it was vouched for.** -/
theorem Passes.bound_iff {hash : Digest} (h : x.Passes i s hash) :
    x.Bound i s (x.sensorFound i hash s.mem) ↔ x.Vouched i s hash := by
  have hid : ∀ k < 8, x.comparedId i s k = endiannessSwap (digestWord hash k) := by
    intro k hk
    rw [comparedId, h.exec_sensorChecks]
    exact h.id k hk
  constructor
  · rintro ⟨e, he, hused, hready, hwords, hbound⟩
    obtain ⟨hcursor, htrusted⟩ := (SensorCaps.boundTo_iff h.tag h.bases).1 hbound
    have hsame : e.hash = hash :=
      digest_eq_of_words (fun k hk => (hwords k hk).symm.trans (hid k hk))
    exact ⟨⟨e, he, hused, hready, hsame, hcursor⟩, htrusted⟩
  · rintro ⟨⟨e, he, hused, hready, rfl, hcursor⟩, htrusted⟩
    exact ⟨e, he, hused, hready, hid, (SensorCaps.boundTo_iff h.tag h.bases).2 ⟨hcursor, htrusted⟩⟩

end

/-- The call is the program in parts. -/
theorem bindsSensor_iff_allOrNothing (s : RuntimeState) :
    x.BindsSensor i s ↔ (x.sensorStore i).AllOrNothing s x.sensorSlots (x.Bound i s) := by
  have hafter := exec_setSensorEnclave_snd (x := x) (i := i) (s := s)
  constructor
  · intro h
    refine ⟨fun hcomplete => ?_, fun hnot => ?_⟩
    · rw [← hafter]
      exact h.stored hcomplete
    · rw [← hafter]
      exact h.failed hnot
  · intro h
    refine ⟨fun hcomplete => ?_, fun hnot => ?_⟩
    · rw [hafter]
      exact h.all hcomplete
    · rw [hafter]
      exact h.nothing hnot

/-- **`set_sensor_enclave` binds what it stores, or stores nothing**, where a
call that passes can load the data and was given capabilities that are what they
are trusted to be. -/
theorem bindsSensor_iff (s : RuntimeState) : x.BindsSensor i s
    ↔ ∀ hash, x.Passes i s hash → ArgReadable i CAP_LEN ∧ x.Vouched i s hash := by
  rw [bindsSensor_iff_allOrNothing]
  refine GuardedStore.allOrNothing_iff_of_passes sensorSlots_of_not_begins
    ⟨passes_of_begins, fun ⟨_, h⟩ => h.begins⟩ (fun hash h => ?_)
  rw [h.completes_iff]
  refine and_congr_right (fun hdata => ?_)
  rw [h.sensorSlots_after hdata]
  exact h.bound_iff

end UserEnclave

end Proteus
