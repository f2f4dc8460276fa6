import CheriTree.Morello.SensorChecks

/-!
# What the user enclave keeps of the sensor at EL1

What a call has to be given to get to the stores is `Passes`. What
`set_sensor_enclave` does not check is the same as on the core: the addresses of
the seals, their permissions, and the object types of the entry capabilities.
Besides, a store of a capability asks for more here. A tagged one needs a
permission, and a local one another, so that a call may stop at the second store
or a later one with the first one made (`Storable`).
-/

namespace Morello

/-! ## Seals -/

/-- **The four capabilities of a `struct enclave`.** -/
structure SensorCaps where
  code : Capability
  data : Capability
  enc : Capability
  sign : Capability
deriving DecidableEq

/-- **A capability to seal with one object type**: the one its address is at. -/
structure Capability.SealsAt (c : Capability) (k : Word) : Prop where
  tag : c.tag = true
  unsealed : c.isSealed = false
  permit : c.perms.permitSeal = true
  cursor : c.address = k
  bounds : c.InBounds k 1
  le_maxOtype : k.toNat ≤ maxOtype

/-- **A capability to unseal one object type.** -/
structure Capability.UnsealsAt (c : Capability) (k : Word) : Prop where
  tag : c.tag = true
  unsealed : c.isSealed = false
  permit : c.perms.permitUnseal = true
  cursor : c.address = k
  bounds : c.InBounds k 1

/-- **A capability sealed with an object type.** -/
structure Capability.SealedWith (c : Capability) (k : Word) : Prop where
  isSealed : c.isSealed = true
  otype : cheriTypeGet c = k

/-- What seals with an object type does, with `CSEAL`. -/
theorem Capability.SealsAt.cheriSeal {c s : Capability} {k : Word} (h : s.SealsAt k)
    (hunsealed : c.isSealed = false) :
    Morello.cheriSeal c s = { c with otype := k.setWidth 15 } := by
  unfold Morello.cheriSeal
  rw [h.tag, hunsealed, h.unsealed, h.permit, h.cursor, decide_eq_true h.bounds,
    decide_eq_true h.le_maxOtype]
  rfl

/-- What unseals an object type does, with `UNSEAL`. -/
theorem Capability.UnsealsAt.cheriUnseal_tag {c s : Capability} {k : Word} (h : s.UnsealsAt k)
    (hc : c.SealedWith k) : (cheriUnseal c s).tag = c.tag := by
  unfold cheriUnseal
  rw [h.tag, hc.isSealed, h.unsealed, h.permit, h.cursor, hc.otype, decide_eq_true h.bounds,
    decide_eq_true rfl, Capability.tagIf_tag]
  exact Bool.true_and _

namespace SensorCaps

/-- **Four capabilities of the enclave whose object types start at `k`.** -/
structure BoundTo (caps : SensorCaps) (k : Word) : Prop where
  enc : caps.enc.SealsAt k
  sign : caps.sign.UnsealsAt (k + 1)
  code : caps.code.SealedWith (k + 2)
  data : caps.data.SealedWith (k + 2)

/-- **The fields of four capabilities that nothing looks at**, as they should be
for the address of the first seal. Where the second seal starts is compared. -/
structure Trusted (caps : SensorCaps) : Prop where
  enc_unsealed : caps.enc.isSealed = false
  enc_permitSeal : caps.enc.perms.permitSeal = true
  enc_bounds : caps.enc.InBounds caps.enc.address 1
  enc_le_maxOtype : caps.enc.address.toNat ≤ maxOtype
  sign_tag : caps.sign.tag = true
  sign_unsealed : caps.sign.isSealed = false
  sign_permitUnseal : caps.sign.perms.permitUnseal = true
  sign_address : caps.sign.address = caps.enc.address + 1
  sign_top : caps.sign.address.toNat < caps.sign.base.toNat + caps.sign.length
  code : caps.code.SealedWith (caps.enc.address + 2)
  data : caps.data.SealedWith (caps.enc.address + 2)

/-- An address past one that is not below its base is not below the next base. -/
theorem add_one_le_add_one {a base : Word} (h : base.toNat ≤ a.toNat)
    (hmax : a.toNat ≤ maxOtype) : (base + 1).toNat ≤ (a + 1).toNat := by
  have hsmall : maxOtype < 2 ^ 63 := by decide
  rw [BitVec.toNat_add, BitVec.toNat_add, show (1 : Word).toNat = 1 from rfl,
    Nat.mod_eq_of_lt (by omega), Nat.mod_eq_of_lt (by omega)]
  omega

/-- **Where the first seal is tagged and the second starts past it**, nothing else
is missing. -/
theorem boundTo_iff {caps : SensorCaps} {k : Word} (htag : caps.enc.tag = true)
    (hbases : caps.enc.base = caps.sign.base + -1) :
    caps.BoundTo k ↔ caps.enc.address = k ∧ caps.Trusted := by
  have hsign : caps.sign.base = caps.enc.base + 1 := by
    rw [hbases, BitVec.add_assoc]
    exact (BitVec.add_zero _).symm
  constructor
  · intro h
    obtain rfl := h.enc.cursor
    refine ⟨rfl, h.enc.unsealed, h.enc.permit, h.enc.bounds, h.enc.le_maxOtype, h.sign.tag,
      h.sign.unsealed, h.sign.permit, h.sign.cursor, ?_, h.code, h.data⟩
    rw [h.sign.cursor]
    exact h.sign.bounds.2
  · rintro ⟨rfl, h⟩
    refine ⟨⟨htag, h.enc_unsealed, h.enc_permitSeal, rfl, h.enc_bounds, h.enc_le_maxOtype⟩,
      ⟨h.sign_tag, h.sign_unsealed, h.sign_permitUnseal, h.sign_address, ?_⟩, h.code, h.data⟩
    refine ⟨?_, h.sign_address ▸ h.sign_top⟩
    rw [hsign]
    exact add_one_le_add_one h.enc_bounds.1 h.enc_le_maxOtype

end SensorCaps

namespace UserEnclave

variable {b : Build} (x : UserEnclave b)

/-! ## What is asked of a call -/

/-- The four capabilities that are stored. -/
def sensorSlots (s : SensorState b) : SensorCaps where
  code := x.slot s.mem DATA_OFFSET_SENSOR_CODE
  data := x.slot s.mem DATA_OFFSET_SENSOR_DATA
  enc := x.slot s.mem DATA_OFFSET_SENSOR_ENC
  sign := x.slot s.mem DATA_OFFSET_SENSOR_SIGN

/-- **The id of the sensor**, as it is compared. -/
def comparedId (c0 c1 : Capability) (s : SensorState b) (k : Fin 8) : BitVec 32 :=
  x.idWord ((x.sensorChecks c0 c1).exec s).2.mem k

/-- **What should be stored is bound to the sensor**: to a finished enclave
with its id, and the object types of that. -/
def Bound (c0 c1 : Capability) (s : SensorState b) (caps : SensorCaps) : Prop :=
  ∃ i, (s.store.entries i).used = true ∧ (s.store.entries i).ready = true
    ∧ (∀ k, x.comparedId c0 c1 s k = hashWord (s.store.entries i).hash k)
    ∧ caps.BoundTo (getOtype (s.store.entries i).id)

/-- **The call binds what it stores to the sensor, or stores nothing.** -/
structure BindsSensor (c0 c1 : Capability) (s : SensorState b) : Prop where
  stored : (x.sensorStore c0 c1).Completes s →
    x.Bound c0 c1 s (x.sensorSlots ((x.setSensorEnclave c0 c1).exec s).2)
  failed : ¬ (x.sensorStore c0 c1).Completes s → ¬ (x.sensorStore c0 c1).Begins s
    ∧ x.sensorSlots ((x.setSensorEnclave c0 c1).exec s).2 = x.sensorSlots s

/-! ### What is passed -/

/-- The memory with the code stored. -/
def codeStored (c0 : Capability) (m : Memory) : Memory :=
  m.writeCap x.plat.fmt
    ((x.c10.address + BitVec.ofNat 64 DATA_OFFSET_SENSOR_CODE).toNat / CAP_LEN) (argument c0 m 0)

/-- **The four capabilities that are passed**, as the call loads them: the
first of the seals, and once a digest is in the buffer the other and the code,
and once the code is stored the data. -/
def sensorFound (c0 c1 : Capability) (hash : HashVal) (m : Memory) : SensorCaps where
  code := argument c0 (x.idStored c0 c1 hash m) 0
  data := argument c0 (x.codeStored c0 (x.idStored c0 c1 hash m)) CAP_LEN
  enc := argument c0 m (2 * CAP_LEN)
  sign := argument c0 (x.idStored c0 c1 hash m) (3 * CAP_LEN)

/-! ### What the call goes by -/

/-- A capability of the argument can be loaded. -/
def ArgReadable (c0 : Capability) (f : ℕ) : Prop := CanLoad c0 (c0.address + BitVec.ofNat 64 f)

/-- **No byte of the digest is over the first argument** on the stack. -/
def DigestApart : Prop := ∀ i : Fin hashByteWidth, x.pushedTo.toNat / CAP_LEN
  ≠ (x.buffer.address + BitVec.ofNat 64 i.val).toNat / CAP_LEN

/-- **The stack takes the two arguments and gives them back**, the first of them
with its tag. -/
structure StackOpen (c0 c1 : Capability) : Prop where
  push : CanStore x.csp x.pushedTo c0
  push' : CanStore x.csp (x.pushedTo + BitVec.ofNat 64 CAP_LEN) c1
  pop : CanLoad x.pushedSp x.pushedTo
  pop' : CanLoad x.pushedSp (x.pushedTo + BitVec.ofNat 64 CAP_LEN)
  loadCap : x.csp.perms.loadCap = true
  apart : x.DigestApart

/-- **What a call goes by**, with the digest it finds: both sections, the stack,
three of the capabilities that are passed, the store, the words of the id, and
the bases of the two seals. -/
structure Passes (c0 c1 : Capability) (s : SensorState b) (hash : HashVal) : Prop where
  readable : ArgReadable c0 0 ∧ ArgReadable c0 (2 * CAP_LEN)
    ∧ ArgReadable (x.incOffset c0 (3 * CAP_LEN)) 0
  tag : (x.sensorFound c0 c1 hash s.mem).enc.tag = true
  stack : x.StackOpen c0 c1
  buffer : bufferPasses x.buffer = true ∧ DigestFits x.buffer
  found : s.store.getHashEntry (x.sensorFound c0 c1 hash s.mem).enc.base = some hash
  idReadable : ∀ k < 8, CanLoadWord (x.along x.buffer k)
    ∧ CanLoadWord (x.along (x.enc.cheriAddressSet x.pcc x.sensorIdStart) k)
  id : ∀ k, x.idWord (x.idStored c0 c1 hash s.mem) k = hashWord hash k
  bases : (x.sensorFound c0 c1 hash s.mem).enc.base
    = (x.sensorFound c0 c1 hash s.mem).sign.base + -1
  codeSlot : CanStore x.c10 (x.c10.address + BitVec.ofNat 64 DATA_OFFSET_SENSOR_CODE)
    (x.sensorFound c0 c1 hash s.mem).code

/-- **What the data section takes**: a tagged capability asks for a permission,
and a local one for another. -/
def Takes (v : Capability) : Prop :=
  (v.tag = true → x.c29.perms.storeCap = true)
    ∧ (v.tag = true → v.perms.isGlobal = false → x.c29.perms.storeLocalCap = true)

/-- **The stores after the first go through**: the data that is passed can be
loaded, as the others could, and the data section takes what is stored. -/
structure Storable (c0 c1 : Capability) (s : SensorState b) (hash : HashVal) : Prop where
  readable : ArgReadable c0 CAP_LEN
  data : x.Takes (x.sensorFound c0 c1 hash s.mem).data
  enc : x.Takes (x.sensorFound c0 c1 hash s.mem).enc
  sign : x.Takes (x.sensorFound c0 c1 hash s.mem).sign

/-- **What the call takes on trust.** The address of the first seal is the
first object type of a finished enclave with the digest that was found for its
base, and the other fields are as they should be for that address. -/
structure Vouched (c0 c1 : Capability) (s : SensorState b) (hash : HashVal) : Prop where
  address : ∃ i, (s.store.entries i).used = true ∧ (s.store.entries i).ready = true
    ∧ (s.store.entries i).hash = hash
    ∧ (x.sensorFound c0 c1 hash s.mem).enc.address = getOtype (s.store.entries i).id
  trusted : (x.sensorFound c0 c1 hash s.mem).Trusted

section

open Trapping (wp)

variable {x} {c c0 c1 : Capability} {s : SensorState b} {m m' : Memory} {hash : HashVal}

/-! ## The checks -/

theorem perms_pushedSp : x.pushedSp.perms = x.csp.perms := (cheriAddressSet_fields _ _ _).2.2

theorem add_zero_pushedSp : x.pushedSp.address + BitVec.ofNat 64 0 = x.pushedTo :=
  (BitVec.add_zero _).trans address_pushedSp

/-- What is popped, where no byte of the digest is over it. -/
theorem argument_pushedSp (halign : x.pushedTo.toNat % CAP_LEN = 0) (hapart : x.DigestApart) :
    argument x.pushedSp (x.idStored c0 c1 hash m) 0 = c0.tagIf x.csp.perms.loadCap := by
  rw [argument, add_zero_pushedSp, perms_pushedSp, idStored, cap_writeDigest_of_apart _ _ hapart,
    cap_pushed halign]

/-- **What is popped has its tag** where the stack lets it be loaded and no byte
of the digest is over it. -/
theorem of_argument_pushedSp_tag
    (h : (argument x.pushedSp (x.idStored c0 c1 hash m) 0).tag = true) :
    x.csp.perms.loadCap = true ∧ x.DigestApart := by
  rw [argument, add_zero_pushedSp, perms_pushedSp, Capability.tagIf_tag, Bool.and_eq_true] at h
  exact ⟨h.1, of_cap_writeDigest_tag h.2⟩

/-- The state the checks leave. -/
def checkedState (x : UserEnclave b) (c0 c1 : Capability) (s : SensorState b) (hash : HashVal) :
    SensorState b :=
  x.digestStored hash { s with mem := x.pushed c0 c1 s.mem }

theorem argReadable_zero : ArgReadable c 0 ↔ CanLoad c c.address := by
  rw [ArgReadable, show BitVec.ofNat 64 0 = 0#64 from rfl, BitVec.add_zero]

/-- **The comparison of the id with the digest in the buffer.** -/
theorem exec_compareId_checkedState (hbuf : bufferPasses x.buffer = true ∧ DigestFits x.buffer)
    {s' : SensorState b} :
    (x.compareId x.sensorIdEnd x.buffer (x.enc.cheriAddressSet x.pcc x.sensorIdStart)
        (sensorIdLen / 4)).exec (x.checkedState c0 c1 s hash) = (.ok true, s') ↔
      x.checkedState c0 c1 s hash = s'
        ∧ (∀ k < 8, CanLoadWord (x.along x.buffer k)
          ∧ CanLoadWord (x.along (x.enc.cheriAddressSet x.pcc x.sensorIdStart) k))
        ∧ ∀ k, x.idWord (x.idStored c0 c1 hash s.mem) k = hashWord hash k := by
  have hstart : (x.enc.cheriAddressSet x.pcc x.sensorIdStart).address = x.sensorIdStart :=
    cheriAddressSet_address _ _
  have hword : ∀ k, (x.checkedState c0 c1 s hash).mem.wordAt
      (x.along (x.enc.cheriAddressSet x.pcc x.sensorIdStart) k).address
        = (x.idStored c0 c1 hash s.mem).wordAt (x.sensorIdStart + BitVec.ofNat 64 (4 * k)) := by
    intro k
    rw [address_along, hstart]
    rfl
  have hdigest : ∀ k : Fin 8, (x.checkedState c0 c1 s hash).mem.wordAt
      (x.along x.buffer k).address = hashWord hash k := by
    intro k
    rw [address_along]
    exact wordAt_idStored hbuf.1 hbuf.2 k
  refine (exec_compareId_eq_true 7 (j := 0) rfl (hstart.trans (BitVec.add_zero _).symm)
    (EntryCode.cheriAddressSet_base _ _ _)).trans (and_congr_right fun _ => ?_)
  constructor
  · refine fun h => ⟨fun k hk => ⟨(h k hk).1, (h k hk).2.1⟩, fun k => ?_⟩
    rw [← hdigest k, (h k k.isLt).2.2, hword]
    rfl
  · rintro ⟨hread, hid⟩ k hk
    refine ⟨(hread k hk).1, (hread k hk).2, ?_⟩
    rw [hdigest ⟨k, hk⟩, hword, ← hid ⟨k, hk⟩]
    rfl

/-- **A call that gets to its first store** has passed. -/
theorem passes_of_begins (h : (x.sensorStore c0 c1).Begins s) :
    ∃ hash, x.Passes c0 c1 s hash := by
  obtain ⟨c, s₁, s₂, hchecks, hfirst⟩ := h
  have hchecks : (x.sensorChecks c0 c1).exec s = (.ok (some c), s₁) := hchecks
  unfold sensorChecks at hchecks
  obtain ⟨c11, _, hload, hchecks⟩ := Trapping.exec_bind_eq_ok.1 hchecks
  obtain ⟨hread, rfl, rfl⟩ := exec_ldr_eq_ok.1 hload
  split at hchecks
  · cases (Trapping.exec_pure_eq_ok.1 hchecks).1
  rename_i htag
  obtain ⟨csp, _, hstp, hchecks⟩ := Trapping.exec_bind_eq_ok.1 hchecks
  obtain ⟨hpush, hpush', rfl, rfl⟩ := exec_stpPush_eq_ok.1 hstp
  obtain ⟨x14, _, hhvc, hchecks⟩ := Trapping.exec_bind_eq_ok.1 hchecks
  obtain ⟨c0p, _, hpop, hchecks⟩ := Trapping.exec_bind_eq_ok.1 hchecks
  obtain ⟨hread0, rfl, rfl⟩ := exec_ldr_eq_ok.1 hpop
  obtain ⟨_, _, hpop', hchecks⟩ := Trapping.exec_bind_eq_ok.1 hchecks
  obtain ⟨hread1, -, rfl⟩ := exec_ldr_eq_ok.1 hpop'
  cases x14 with
  | false => cases (Trapping.exec_pure_eq_ok.1 hchecks).1
  | true =>
    obtain ⟨hbuf, hash, hget, rfl⟩ := exec_hvcEstoreid_eq_true.1 hhvc
    obtain ⟨same, _, hsame, hchecks⟩ := Trapping.exec_bind_eq_ok.1 hchecks
    cases same with
    | false => cases (Trapping.exec_pure_eq_ok.1 hchecks).1
    | true =>
      obtain ⟨rfl, hidRead, hid⟩ := (exec_compareId_checkedState hbuf).1 hsame
      obtain ⟨c12, _, hload', hchecks⟩ := Trapping.exec_bind_eq_ok.1 hchecks
      obtain ⟨hread', rfl, rfl⟩ := exec_ldr_eq_ok.1 hload'
      split at hchecks
      · cases (Trapping.exec_pure_eq_ok.1 hchecks).1
      rename_i hbase
      obtain ⟨hc, rfl⟩ := Trapping.exec_pure_eq_ok.1 hchecks
      obtain rfl := Option.some.inj hc
      obtain ⟨code, _, hload'', hstr⟩ := Trapping.exec_bind_eq_ok.1 hfirst
      obtain ⟨hread'', rfl, rfl⟩ := exec_ldr_eq_ok.1 hload''
      obtain ⟨hstore, -⟩ := exec_str_eq_ok.1 hstr
      -- what the second seal is loaded through has its tag, and so is the argument
      obtain ⟨hloadCap, hapart⟩ := of_argument_pushedSp_tag (of_cheriAddressSet_tag hread'.1).1
      have hpopped : argument x.pushedSp (x.idStored c0 c1 hash s.mem) 0 = c0 := by
        rw [argument_pushedSp hpush.2.2.2.2.1 hapart, hloadCap, Capability.tagIf_true]
      change ArgReadable (x.incOffset (argument x.pushedSp (x.idStored c0 c1 hash s.mem) 0) _) 0
        at hread'
      change ArgReadable (argument x.pushedSp (x.idStored c0 c1 hash s.mem) 0) 0 at hread''
      change CanStore x.c10 _
        (argument (argument x.pushedSp (x.idStored c0 c1 hash s.mem) 0) _ 0) at hstore
      change ¬ (argument c0 s.mem (2 * CAP_LEN)).base ≠ (argument (x.incOffset
        (argument x.pushedSp (x.idStored c0 c1 hash s.mem) 0) (3 * CAP_LEN)) _ 0).base + -1 at hbase
      rw [hpopped] at hread' hread'' hstore hbase
      rw [argument_incOffset] at hbase
      rw [Bool.not_eq_true', Bool.not_eq_false] at htag
      refine ⟨hash, ⟨hread'', hread, hread'⟩, htag, ⟨hpush, hpush', ?_, ?_, hloadCap, hapart⟩, hbuf,
        hget, hidRead, hid, not_not.1 hbase, hstore⟩
      · exact address_pushedSp (x := x) ▸ argReadable_zero.1 hread0
      · exact address_pushedSp (x := x) ▸ hread1

namespace Passes

/-- What is popped is what was pushed. -/
theorem popped (h : x.Passes c0 c1 s hash) :
    argument x.pushedSp (x.idStored c0 c1 hash s.mem) 0 = c0 := by
  rw [argument_pushedSp h.stack.push.2.2.2.2.1 h.stack.apart, h.stack.loadCap,
    Capability.tagIf_true]

/-- **The checks of a call that passes.** -/
theorem exec_sensorChecks (h : x.Passes c0 c1 s hash) : (x.sensorChecks c0 c1).exec s
    = (.ok (some (c0, (x.sensorFound c0 c1 hash s.mem).enc,
        (x.sensorFound c0 c1 hash s.mem).sign)), x.checkedState c0 c1 s hash) := by
  have henc : (ldr c0 (2 * CAP_LEN)).exec s = (.ok (argument c0 s.mem (2 * CAP_LEN)), s) :=
    exec_ldr_eq_ok.2 ⟨h.readable.2.1, rfl, rfl⟩
  have htag : (argument c0 s.mem (2 * CAP_LEN)).tag = true := h.tag
  have hpush : (x.stpPush c0 c1).exec s
      = (.ok x.pushedSp, { s with mem := x.pushed c0 c1 s.mem }) :=
    exec_stpPush_eq_ok.2 ⟨h.stack.push, h.stack.push', rfl, rfl⟩
  have hid : (x.hvcEstoreid (argument c0 s.mem (2 * CAP_LEN)).base x.buffer).exec
      { s with mem := x.pushed c0 c1 s.mem } = (.ok true, x.checkedState c0 c1 s hash) :=
    exec_hvcEstoreid_eq_true.2 ⟨h.buffer, hash, h.found, rfl⟩
  have hpop : (ldr x.pushedSp 0).exec (x.checkedState c0 c1 s hash)
      = (.ok c0, x.checkedState c0 c1 s hash) := by
    refine exec_ldr_eq_ok.2 ⟨?_, h.popped.symm, rfl⟩
    exact argReadable_zero.2 (address_pushedSp (x := x) ▸ h.stack.pop)
  have hpop' : (ldr x.pushedSp CAP_LEN).exec (x.checkedState c0 c1 s hash) = _ :=
    exec_ldr_eq_ok.2 ⟨address_pushedSp (x := x) ▸ h.stack.pop', rfl, rfl⟩
  have hsame : (x.compareId x.sensorIdEnd x.buffer (x.enc.cheriAddressSet x.pcc x.sensorIdStart)
      (sensorIdLen / 4)).exec (x.checkedState c0 c1 s hash)
        = (.ok true, x.checkedState c0 c1 s hash) :=
    (exec_compareId_checkedState h.buffer).2 ⟨rfl, h.idReadable, h.id⟩
  have hsign : (ldr (x.incOffset c0 (3 * CAP_LEN)) 0).exec (x.checkedState c0 c1 s hash)
      = (.ok (x.sensorFound c0 c1 hash s.mem).sign, x.checkedState c0 c1 s hash) := by
    refine exec_ldr_eq_ok.2 ⟨h.readable.2.2, ?_, rfl⟩
    rw [argument_incOffset]
    rfl
  have hbases : ¬ (argument c0 s.mem (2 * CAP_LEN)).base
      ≠ (x.sensorFound c0 c1 hash s.mem).sign.base + -1 := not_not.2 h.bases
  unfold sensorChecks
  rw [Trapping.exec_bind_ok henc, htag, Bool.not_true, if_neg Bool.false_ne_true,
    Trapping.exec_bind_ok hpush, Trapping.exec_bind_ok hid, Trapping.exec_bind_ok hpop,
    Trapping.exec_bind_ok hpop', Bool.not_true, if_neg Bool.false_ne_true,
    Trapping.exec_bind_ok hsame, Bool.not_true, if_neg Bool.false_ne_true,
    Trapping.exec_bind_ok hsign, if_neg hbases]
  rfl

end Passes

/-! ## What is stored -/

theorem Kept.sensorSlots_eq {s' : SensorState b} (h : x.Kept s.mem s'.mem) :
    x.sensorSlots s' = x.sensorSlots s := by
  unfold sensorSlots
  rw [h.slot_eq (by decide), h.slot_eq (by decide), h.slot_eq (by decide), h.slot_eq (le_refl _)]

/-- **The first slot can be stored to.** -/
structure SlotsOpen (x : UserEnclave b) : Prop where
  buffer : Buffer x
  bounds : x.c10.base.toNat ≤ x.c29.address.toNat + DATA_OFFSET_ENCLAVE
  aligned : x.c29.address.toNat % CAP_LEN = 0

/-- The granule of a slot. -/
def slotGranule (x : UserEnclave b) (f : ℕ) : ℕ :=
  (x.c10.address + BitVec.ofNat 64 f).toNat / CAP_LEN

/-- **A store to a slot** goes through where the data section takes what is
stored. -/
theorem exec_str_slot (h : SlotsOpen x) {f : ℕ} (hf : f ≤ DATA_OFFSET_SENSOR_SIGN)
    (h16 : f % CAP_LEN = 0) {v : Capability} {u : Unit} {s' : SensorState b} :
    (x.str v x.c10 (x.c10.address + BitVec.ofNat 64 f)).exec s = (.ok u, s') ↔
      x.Takes v ∧ s' = { s with mem := s.mem.writeCap x.plat.fmt (x.slotGranule f) v } := by
  have hsmall : DATA_OFFSET_SENSOR_SIGN < ENCLAVE_DATA_SIZE := by decide
  have hnat := toNat_c10_add (x := x) (f := f) (by omega)
  have hroom := h.buffer.room.2
  rw [toNat_c10_add (by decide)] at hroom
  have hin : x.c10.InBounds (x.c10.address + BitVec.ofNat 64 f) CAP_LEN := by
    have hlow := h.bounds
    rw [DATA_OFFSET_SENSOR_SIGN] at hf
    rw [DATA_OFFSET_BUF] at hroom
    rw [Capability.InBounds, hnat]
    rw [CAP_LEN] at *
    omega
  have halign : (x.c10.address + BitVec.ofNat 64 f).toNat % CAP_LEN = 0 := by
    have hbase := h.aligned
    rw [hnat, DATA_OFFSET_ENCLAVE]
    rw [CAP_LEN] at *
    omega
  rw [exec_str_eq_ok]
  refine and_congr_left fun _ => ?_
  unfold CanStore
  rw [perms_c10]
  constructor
  · rintro ⟨-, -, -, -, -, hcap, hlocal⟩
    exact ⟨hcap, hlocal⟩
  · rintro ⟨hcap, hlocal⟩
    exact ⟨h.buffer.tag, h.buffer.unsealed, perms_c10 ▸ h.buffer.store, hin, halign, hcap, hlocal⟩

/-- The slots are apart. -/
theorem slot_writeCap_of_apart {f g : ℕ} (hf : f < ENCLAVE_DATA_SIZE) (hg : g < ENCLAVE_DATA_SIZE)
    (happart : f + CAP_LEN ≤ g ∨ g + CAP_LEN ≤ f) (v : Capability) :
    x.slot (m.writeCap x.plat.fmt (x.slotGranule g) v) f = x.slot m f := by
  refine m.cap_writeCap_of_ne _ ?_ v
  rw [slotGranule, toNat_c10_add hf, toNat_c10_add hg]
  rw [CAP_LEN] at *
  omega

theorem slot_writeCap_self (f : ℕ) (v : Capability) :
    x.slot (m.writeCap x.plat.fmt (x.slotGranule f) v) f = v :=
  m.cap_writeCap_self _ _ v

/-- The state with the code stored. -/
def afterFirst (x : UserEnclave b) (c0 : Capability) (s₁ : SensorState b) : SensorState b :=
  { s₁ with mem := x.codeStored c0 s₁.mem }

/-- The state with the rest stored. -/
def afterRest (x : UserEnclave b) (c : Capability × Capability × Capability)
    (s₂ : SensorState b) : SensorState b :=
  let data := argument c.1 s₂.mem CAP_LEN
  let m := s₂.mem.writeCap x.plat.fmt (x.slotGranule DATA_OFFSET_SENSOR_DATA) data
  let m := m.writeCap x.plat.fmt (x.slotGranule DATA_OFFSET_SENSOR_ENC) c.2.1
  { s₂ with mem := m.writeCap x.plat.fmt (x.slotGranule DATA_OFFSET_SENSOR_SIGN) c.2.2 }

/-- **The rest of the stores** goes through where the data can be loaded and the
three are taken. -/
theorem exec_rest_eq_ok {c : Capability × Capability × Capability} {s₂ s₃ : SensorState b}
    (hopen : SlotsOpen x) : ((x.sensorStore c0 c1).rest c).exec s₂ = (.ok (), s₃) ↔
      (ArgReadable c.1 CAP_LEN ∧ x.Takes (argument c.1 s₂.mem CAP_LEN) ∧ x.Takes c.2.1
        ∧ x.Takes c.2.2) ∧ s₃ = x.afterRest c s₂ := by
  show (ldr c.1 CAP_LEN >>= _).exec s₂ = _ ↔ _
  simp only [Trapping.exec_bind_eq_ok, exec_ldr_eq_ok]
  constructor
  · rintro ⟨_, _, ⟨hdata, rfl, rfl⟩, _, _, hstr, _, _, hstr', hstr''⟩
    obtain ⟨hd, rfl⟩ := (exec_str_slot hopen (by decide) (by decide)).1 hstr
    obtain ⟨he, rfl⟩ := (exec_str_slot hopen (by decide) (by decide)).1 hstr'
    obtain ⟨hs, rfl⟩ := (exec_str_slot hopen (le_refl _) (by decide)).1 hstr''
    exact ⟨⟨hdata, hd, he, hs⟩, rfl⟩
  · rintro ⟨⟨hdata, hd, he, hs⟩, rfl⟩
    exact ⟨_, _, ⟨hdata, rfl, rfl⟩,
      (), _, (exec_str_slot hopen (by decide) (by decide)).2 ⟨hd, rfl⟩,
      (), _, (exec_str_slot hopen (by decide) (by decide)).2 ⟨he, rfl⟩,
      (exec_str_slot hopen (le_refl _) (by decide)).2 ⟨hs, rfl⟩⟩

/-- **What is in the slots** after all four stores. -/
theorem sensorSlots_afterRest {c : Capability × Capability × Capability} {s₁ : SensorState b} :
    x.sensorSlots (x.afterRest c (x.afterFirst c0 s₁)) = ⟨argument c0 s₁.mem 0,
      argument c.1 (x.codeStored c0 s₁.mem) CAP_LEN, c.2.1, c.2.2⟩ := by
  unfold sensorSlots afterRest
  rw [SensorCaps.mk.injEq]
  refine ⟨?_, ?_, ?_, slot_writeCap_self _ _⟩
  · rw [slot_writeCap_of_apart (by decide) (by decide) (by decide),
      slot_writeCap_of_apart (by decide) (by decide) (by decide),
      slot_writeCap_of_apart (by decide) (by decide) (by decide)]
    exact slot_writeCap_self _ _
  · rw [slot_writeCap_of_apart (by decide) (by decide) (by decide),
      slot_writeCap_of_apart (by decide) (by decide) (by decide)]
    exact slot_writeCap_self _ _
  · rw [slot_writeCap_of_apart (by decide) (by decide) (by decide)]
    exact slot_writeCap_self _ _

namespace Passes

/-- The slots are open to a call that passes. -/
theorem slotsOpen (h : x.Passes c0 c1 s hash) : SlotsOpen x := by
  have hnat := toNat_c10_add (x := x) (f := DATA_OFFSET_SENSOR_CODE) (by decide)
  obtain ⟨-, -, -, hin, halign, -⟩ := h.codeSlot
  refine ⟨buffer_of_passes h.buffer.1 h.buffer.2, ?_, ?_⟩
  · have hlow := hin.1
    rw [hnat] at hlow
    exact hlow
  · rw [hnat, DATA_OFFSET_ENCLAVE, DATA_OFFSET_SENSOR_CODE] at halign
    rw [CAP_LEN] at *
    omega

/-- **The first store** of a call that passes. -/
theorem exec_first (h : x.Passes c0 c1 s hash) (c11 c12 : Capability) :
    ((x.sensorStore c0 c1).first (c0, c11, c12)).exec (x.checkedState c0 c1 s hash)
      = (.ok (), x.afterFirst c0 (x.checkedState c0 c1 s hash)) := by
  have hload : (ldr c0 0).exec (x.checkedState c0 c1 s hash)
      = (.ok (x.sensorFound c0 c1 hash s.mem).code, x.checkedState c0 c1 s hash) :=
    exec_ldr_eq_ok.2 ⟨h.readable.1, rfl, rfl⟩
  show (ldr c0 0 >>= _).exec _ = _
  rw [Trapping.exec_bind_ok hload]
  exact exec_str_eq_ok.2 ⟨h.codeSlot, rfl⟩

/-- **A call that passes gets to its first store.** -/
theorem begins (h : x.Passes c0 c1 s hash) : (x.sensorStore c0 c1).Begins s :=
  ⟨_, _, _, h.exec_sensorChecks, h.exec_first _ _⟩

/-- **The rest of them**, which are made where they can be. -/
theorem exec_rest_eq_ok (h : x.Passes c0 c1 s hash) {s₃ : SensorState b} :
    ((x.sensorStore c0 c1).rest (c0, (x.sensorFound c0 c1 hash s.mem).enc,
        (x.sensorFound c0 c1 hash s.mem).sign)).exec
          (x.afterFirst c0 (x.checkedState c0 c1 s hash)) = (.ok (), s₃) ↔
      x.Storable c0 c1 s hash ∧ s₃ = x.afterRest (c0, (x.sensorFound c0 c1 hash s.mem).enc,
        (x.sensorFound c0 c1 hash s.mem).sign) (x.afterFirst c0 (x.checkedState c0 c1 s hash)) := by
  rw [UserEnclave.exec_rest_eq_ok h.slotsOpen]
  refine and_congr_left fun _ => ⟨?_, fun hs => ⟨hs.readable, hs.data, hs.enc, hs.sign⟩⟩
  rintro ⟨hread, hdata, henc, hsign⟩
  exact ⟨hread, hdata, henc, hsign⟩

/-- It makes the rest where it can. -/
theorem completes_iff (h : x.Passes c0 c1 s hash) :
    (x.sensorStore c0 c1).Completes s ↔ x.Storable c0 c1 s hash := by
  rw [GuardedStore.completes_iff_rest h.exec_sensorChecks (h.exec_first _ _)]
  constructor
  · rintro ⟨s₃, hrest⟩
    exact (h.exec_rest_eq_ok.1 hrest).1
  · exact fun hs => ⟨_, h.exec_rest_eq_ok.2 ⟨hs, rfl⟩⟩

/-- What it leaves in the slots is what was passed. -/
theorem sensorSlots_after (h : x.Passes c0 c1 s hash) (hs : x.Storable c0 c1 s hash) :
    x.sensorSlots ((x.sensorStore c0 c1).after s) = x.sensorFound c0 c1 hash s.mem := by
  rw [GuardedStore.after_eq h.exec_sensorChecks (h.exec_first _ _)
    (h.exec_rest_eq_ok.2 ⟨hs, rfl⟩)]
  exact sensorSlots_afterRest

end Passes

/-! ## A call that stops before the first store -/

/-- A first store that traps changes nothing. -/
theorem wp_first (c : Capability × Capability × Capability) :
    wp ((x.sensorStore c0 c1).first c) (fun _ _ => True) (fun s' => s' = s) s := by
  show wp (ldr c.1 0 >>= _) _ _ s
  rw [Trapping.wp_bind]
  exact wp_orTrap (fun _ _ => wp_str (fun _ => trivial) rfl) rfl

/-- **A call that does not get to the stores** leaves the slots. -/
theorem sensorSlots_of_not_begins (h : ¬ (x.sensorStore c0 c1).Begins s) :
    x.sensorSlots ((x.sensorStore c0 c1).after s) = x.sensorSlots s := by
  refine GuardedStore.view_after_of_not_begins (fun r s₁ hchecks => ?_)
    (fun c s₁ e s₂ _ hfirst => ?_) h
  · rcases r with e | r
    · have hkept := Trapping.wp_error wp_sensorChecks hchecks
      exact hkept.sensorSlots_eq
    · have hkept := Trapping.wp_ok wp_sensorChecks hchecks
      exact hkept.sensorSlots_eq
  · rw [Trapping.wp_error (wp_first c) hfirst]

/-! ## What the call binds -/

/-- **A digest is known from its words.** -/
theorem eq_of_hashWord {h h' : HashVal} (hw : ∀ k, hashWord h k = hashWord h' k) : h = h' := by
  funext i
  have hi : i.val < 32 := i.isLt
  have hlen : hashByteWidth = 32 := rfl
  have hword := hw ⟨i.val / 4, by omega⟩
  unfold hashWord at hword
  obtain ⟨h₃₂₁, h₀⟩ := ByteOrder.append_inj hword
  obtain ⟨h₃₂, h₁⟩ := ByteOrder.append_inj h₃₂₁
  obtain ⟨h₃, h₂⟩ := ByteOrder.append_inj h₃₂
  simp only at h₀ h₁ h₂ h₃
  obtain hr | hr | hr | hr : i.val % 4 = 0 ∨ i.val % 4 = 1 ∨ i.val % 4 = 2 ∨ i.val % 4 = 3 := by
    omega
  · rwa [show i = ⟨4 * (i.val / 4), by omega⟩ from Fin.ext (by simp only; omega)]
  · rwa [show i = ⟨4 * (i.val / 4) + 1, by omega⟩ from Fin.ext (by simp only; omega)]
  · rwa [show i = ⟨4 * (i.val / 4) + 2, by omega⟩ from Fin.ext (by simp only; omega)]
  · rwa [show i = ⟨4 * (i.val / 4) + 3, by omega⟩ from Fin.ext (by simp only; omega)]

/-- **What is stored is bound to the sensor where it was vouched for.** -/
theorem Passes.bound_iff (h : x.Passes c0 c1 s hash) :
    x.Bound c0 c1 s (x.sensorFound c0 c1 hash s.mem) ↔ x.Vouched c0 c1 s hash := by
  have hid : ∀ k, x.comparedId c0 c1 s k = hashWord hash k := by
    intro k
    rw [comparedId, h.exec_sensorChecks]
    exact h.id k
  constructor
  · rintro ⟨i, hused, hready, hwords, hbound⟩
    obtain ⟨haddress, htrusted⟩ := (SensorCaps.boundTo_iff h.tag h.bases).1 hbound
    have hsame : (s.store.entries i).hash = hash :=
      eq_of_hashWord (fun k => (hwords k).symm.trans (hid k))
    exact ⟨⟨i, hused, hready, hsame, haddress⟩, htrusted⟩
  · rintro ⟨⟨i, hused, hready, rfl, haddress⟩, htrusted⟩
    exact ⟨i, hused, hready, hid, (SensorCaps.boundTo_iff h.tag h.bases).2 ⟨haddress, htrusted⟩⟩

end

/-- The call is the program in parts. -/
theorem bindsSensor_iff_allOrNothing (c0 c1 : Capability) (s : SensorState b) :
    x.BindsSensor c0 c1 s
      ↔ (x.sensorStore c0 c1).AllOrNothing s x.sensorSlots (x.Bound c0 c1 s) := by
  have hafter := x.exec_setSensorEnclave_snd c0 c1 s
  constructor
  · intro h
    refine ⟨fun hcomplete => ?_, fun hnot => ?_⟩
    · rw [← hafter]
      exact h.stored hcomplete
    · rw [← hafter]
      exact h.failed hnot
  · intro h
    refine ⟨fun hcomplete => ?_, fun hnot => ?_⟩
    · rw [hafter]
      exact h.all hcomplete
    · rw [hafter]
      exact h.nothing hnot

/-- **`set_sensor_enclave` binds what it stores, or stores nothing**, where a
call that passes can make all of the stores and was given capabilities that are
what they are trusted to be. -/
theorem bindsSensor_iff (c0 c1 : Capability) (s : SensorState b) : x.BindsSensor c0 c1 s
    ↔ ∀ hash, x.Passes c0 c1 s hash →
      x.Storable c0 c1 s hash ∧ x.Vouched c0 c1 s hash := by
  rw [bindsSensor_iff_allOrNothing]
  refine GuardedStore.allOrNothing_iff_of_passes sensorSlots_of_not_begins
    ⟨passes_of_begins, fun ⟨_, h⟩ => h.begins⟩ (fun hash h => ?_)
  rw [h.completes_iff]
  refine and_congr_right (fun hs => ?_)
  rw [h.sensorSlots_after hs]
  exact h.bound_iff

end UserEnclave

end Morello
