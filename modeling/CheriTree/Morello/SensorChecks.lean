import CheriTree.GuardedStore
import CheriTree.Morello.EntryDispatch
import CheriTree.Morello.SectionHash

/-!
# How the user enclave looks at a sensor at EL1

The port of `set_sensor_enclave`, and its checks. They are made in the order of
the core: the digest of the enclave that the base of the encryption seal names,
then the bases of the two seals. Between them the call pushes its arguments,
asks the hypervisor, and pops them again.

The buffer of the digest ends past the static data, over the last granule of
the stack. So what is popped need not be what was pushed. But a digest over a
capability takes its tag (`of_cap_writeDigest_tag`), and the call goes on
through the capability popped.
-/

namespace Morello

theorem Capability.tagIf_true (c : Capability) : c.tagIf true = c := rfl

/-! ## Moving a capability -/

theorem address_scoff (enc : CapEncoding) (c : Capability) (offset : Word) :
    (enc.scoff c offset).address = c.base + offset :=
  cheriAddressSet_address _ _

theorem cheriAddressSet_fields (enc : CapEncoding) (c : Capability) (a : Word) :
    (enc.cheriAddressSet c a).base = c.base ∧ (enc.cheriAddressSet c a).length = c.length
      ∧ (enc.cheriAddressSet c a).perms = c.perms := by
  unfold CapEncoding.cheriAddressSet Morello.cheriAddressSet Capability.tagIf
  split <;> split <;> exact ⟨rfl, rfl, rfl⟩

/-- What is still tagged when it has moved was tagged and not sealed. -/
theorem of_cheriAddressSet_tag {enc : CapEncoding} {c : Capability} {a : Word}
    (h : (enc.cheriAddressSet c a).tag = true) : c.tag = true ∧ c.isSealed = false := by
  unfold CapEncoding.cheriAddressSet Morello.cheriAddressSet at h
  rw [Capability.tagIf_tag, Capability.tagIf_tag] at h
  simp only [Bool.and_eq_true, Bool.not_eq_true'] at h
  exact ⟨h.2.2, h.2.1⟩

/-- A digest is written, byte by byte. -/
def Memory.writeDigest (m : Memory) (a : Word) (hash : HashVal) : Memory :=
  (List.finRange hashByteWidth).foldl (fun m i =>
    m.writeByte (a + BitVec.ofNat 64 i.val).toNat (hash i)) m

/-! ## The user enclave -/

/-- The offset of the enclave's own data. -/
def DATA_OFFSET_ENCLAVE : ℕ := 4 * CAP_LEN

def ENCLAVE_DATA_SIZE : ℕ := 5 * CAP_LEN + 32

def DATA_OFFSET_SENSOR_CODE : ℕ := 0 * CAP_LEN

def DATA_OFFSET_SENSOR_DATA : ℕ := 1 * CAP_LEN

def DATA_OFFSET_SENSOR_ENC : ℕ := 2 * CAP_LEN

def DATA_OFFSET_SENSOR_SIGN : ℕ := 3 * CAP_LEN

def DATA_OFFSET_BUF : ℕ := 6 * CAP_LEN

/-- What `enclave_init` keeps off the stack. -/
def STATIC_LEN : ℕ := 4 * CAP_LEN + ENCLAVE_DATA_SIZE

/-- The bytes of the sensor's id, up to `sensor_id_end`. -/
def sensorIdLen : ℕ := 32

/-- **The user enclave, entered**: its two sections, its stack pointer, and
where the linker put the id of the sensor. `enclave_init` has put the stack
behind the static data. -/
structure UserEnclave (b : Build) where
  plat : Platform b
  enc : CapEncoding
  pcc : Capability
  c29 : Capability
  csp : Capability
  sensorIdStart : Word
  fits : c29.address.toNat + STATIC_LEN ≤ 2 ^ 64
  stack : c29.address.toNat + STATIC_LEN ≤ csp.base.toNat

/-- **The stack of `enclave_init`**: what the data section has left behind the
static data, with the stack pointer at the top. -/
def initCsp (enc : CapEncoding) (c29 : Capability) : Capability :=
  let x15 := cheriLengthGet c29 - BitVec.ofNat 64 STATIC_LEN
  let csp := enc.cheriAddressSet c29 (c29.address + BitVec.ofNat 64 STATIC_LEN)
  let csp := enc.cheriBoundsSetExact csp x15
  enc.cheriAddressSet csp (csp.address + x15)

/-- **A stack that has its tag is behind the static data**, in a data section
that is pointed at its start and long enough. -/
theorem static_le_initCsp {enc : CapEncoding} {c29 : Capability} (hstart : c29.address = c29.base)
    (hlen : STATIC_LEN ≤ c29.length) (htag : (initCsp enc c29).tag = true) :
    c29.address.toNat + STATIC_LEN ≤ 2 ^ 64
      ∧ c29.address.toNat + STATIC_LEN ≤ (initCsp enc c29).base.toNat := by
  obtain ⟨hcsp, -⟩ := of_cheriAddressSet_tag htag
  obtain ⟨hmoved, -, hin, -⟩ := enc.cheriBoundsSetExact_tag_iff.1 hcsp
  have hfits := c29.fits (of_cheriAddressSet_tag hmoved).1
  have hbase : (initCsp enc c29).base = c29.address + BitVec.ofNat 64 STATIC_LEN := by
    unfold initCsp
    rw [(cheriAddressSet_fields _ _ _).1]
    show ((Morello.cheriBoundsSetExact _ _).tagIf _).base = _
    rw [Capability.tagIf_base]
    exact cheriAddressSet_address _ _
  have hlow := hin.1
  rw [(cheriAddressSet_fields _ _ _).1, cheriAddressSet_address, ← hstart, BitVec.toNat_add,
    BitVec.toNat_ofNat] at hlow
  rw [hbase, BitVec.toNat_add, BitVec.toNat_ofNat]
  rw [← hstart] at hfits
  rw [STATIC_LEN, ENCLAVE_DATA_SIZE, CAP_LEN] at *
  omega

/-- What an enclave works on: its memory, and the store of the hypervisor. -/
structure SensorState (b : Build) where
  mem : Memory
  store : IdentityStore b

/-- How an entry stops on its way: by a fault of its own, or by one of the
hypervisor's, which does not return. -/
inductive El1Stop where
  | trap
  | hang
deriving DecidableEq, Repr

/-- A piece of the program. -/
abbrev El1 (b : Build) := Trapping (SensorState b) El1Stop

namespace UserEnclave

variable {b : Build} (x : UserEnclave b)

/-! ## Instructions -/

/-- What may trap, on the state. -/
def orTrap {α : Type} (f : SensorState b → Option α) : El1 b α := fun s =>
  match f s with
  | some a => (.ok a, s)
  | none => (.error .trap, s)

/-- `LDR`, of a capability. -/
def ldr (c : Capability) (imm : ℕ) : El1 b Capability :=
  orTrap (fun s => s.mem.loadCap c (c.address + BitVec.ofNat 64 imm))

/-- `LDR`, of a word. -/
def ldrWord (c : Capability) : El1 b (BitVec 32) :=
  orTrap (fun s => s.mem.loadWord c)

/-- `STR`, to an address. -/
def str (v c : Capability) (a : Word) : El1 b Unit := do
  let m ← orTrap (fun s => s.mem.storeCap x.plat.fmt c a v)
  Trapping.update (fun s => { s with mem := m })

/-- `SCOFF` from the offset there is. -/
def incOffset (c : Capability) (n : ℕ) : Capability :=
  x.enc.scoff c (cheriOffsetGet c + BitVec.ofNat 64 n)

/-- `HVC #HVC_ESTOREID`. -/
def hvcEstoreid (x0 : Word) (c1 : Capability) : El1 b Bool := fun s =>
  match estoreId x.plat s.store x0 c1 s.mem with
  | none => (.error .hang, s)
  | some (x0, store, mem) => (.ok x0, ⟨mem, store⟩)

/-- The address a pair of capabilities is pushed to. -/
def pushedTo : Word := x.csp.address + -32

/-- `STP c0, c1, [csp, #-32]!`, and the stack pointer after it. -/
def stpPush (c0 c1 : Capability) : El1 b Capability := do
  x.str c0 x.csp x.pushedTo
  x.str c1 x.csp (x.pushedTo + BitVec.ofNat 64 CAP_LEN)
  pure (x.enc.cheriAddressSet x.csp x.pushedTo)

/-! ## The text -/

/-- The data of the enclave, as an entry finds it in `c10`. -/
def c10 : Capability := x.incOffset x.c29 DATA_OFFSET_ENCLAVE

/-- The buffer for a digest. -/
def buffer : Capability :=
  x.enc.cheriBoundsSetExact (x.incOffset x.c10 DATA_OFFSET_BUF) 32

/-- The comparison of the id at `c12` with the one at `c4`, for at most `n`
words. It goes on as long as the offset is short of the one in `x15` (`B.MI`). -/
def compareId (x15 : Word) (c12 c4 : Capability) : ℕ → El1 b Bool
  | 0 => pure false
  | n + 1 => do
    let w6 ← ldrWord c12
    let w3 ← ldrWord c4
    if w6 ≠ w3 then pure false
    else
      let c12 := x.incOffset c12 4
      let c4 := x.incOffset c4 4
      if (cheriOffsetGet c4 - x15).msb then compareId x15 c12 c4 n else pure true

/-- The offset of `sensor_id_end`. -/
def sensorIdEnd : Word :=
  cheriOffsetGet (x.enc.cheriAddressSet x.pcc (x.sensorIdStart + BitVec.ofNat 64 sensorIdLen))

/-- **`set_sensor_enclave`**, up to `enclave_exit`, with the `c0` it leaves. -/
def setSensorEnclave (c0 c1 : Capability) : El1 b Capability := do
  let c11 ← ldr c0 (2 * CAP_LEN)
  if !c11.tag then pure c0.clearTag
  else do
    let x13 := c11.base
    let csp ← x.stpPush c0 c1
    let x14 ← x.hvcEstoreid x13 x.buffer
    let c0 ← ldr csp 0
    let _c1 ← ldr csp CAP_LEN
    if !x14 then pure c0.clearTag
    else do
      let c4 := x.enc.cheriAddressSet x.pcc x.sensorIdStart
      let same ← x.compareId x.sensorIdEnd x.buffer c4 (sensorIdLen / 4)
      if !same then pure c0.clearTag
      else do
        let c12 ← ldr (x.incOffset c0 (3 * CAP_LEN)) 0
        if x13 ≠ c12.base + -1 then pure c0.clearTag
        else do
          let c4 ← ldr c0 0
          x.str c4 x.c10 (x.c10.address + BitVec.ofNat 64 DATA_OFFSET_SENSOR_CODE)
          let c4 ← ldr c0 CAP_LEN
          x.str c4 x.c10 (x.c10.address + BitVec.ofNat 64 DATA_OFFSET_SENSOR_DATA)
          x.str c11 x.c10 (x.c10.address + BitVec.ofNat 64 DATA_OFFSET_SENSOR_ENC)
          x.str c12 x.c10 (x.c10.address + BitVec.ofNat 64 DATA_OFFSET_SENSOR_SIGN)
          pure c0

/-! ## The text, in parts -/

/-- All that is checked, with the argument as it is popped, and the two
seals. -/
def sensorChecks (c0 c1 : Capability) : El1 b (Option (Capability × Capability × Capability)) := do
  let c11 ← ldr c0 (2 * CAP_LEN)
  if !c11.tag then pure none
  else do
    let x13 := c11.base
    let csp ← x.stpPush c0 c1
    let x14 ← x.hvcEstoreid x13 x.buffer
    let c0 ← ldr csp 0
    let _c1 ← ldr csp CAP_LEN
    if !x14 then pure none
    else do
      let c4 := x.enc.cheriAddressSet x.pcc x.sensorIdStart
      let same ← x.compareId x.sensorIdEnd x.buffer c4 (sensorIdLen / 4)
      if !same then pure none
      else do
        let c12 ← ldr (x.incOffset c0 (3 * CAP_LEN)) 0
        if x13 ≠ c12.base + -1 then pure none else pure (some (c0, c11, c12))

/-- **`set_sensor_enclave` as checks and stores.** -/
def sensorStore (c0 c1 : Capability) :
    GuardedStore (SensorState b) El1Stop (Capability × Capability × Capability) where
  checks := x.sensorChecks c0 c1
  first := fun (c0, _, _) => do
    let c4 ← ldr c0 0
    x.str c4 x.c10 (x.c10.address + BitVec.ofNat 64 DATA_OFFSET_SENSOR_CODE)
  rest := fun (c0, c11, c12) => do
    let c4 ← ldr c0 CAP_LEN
    x.str c4 x.c10 (x.c10.address + BitVec.ofNat 64 DATA_OFFSET_SENSOR_DATA)
    x.str c11 x.c10 (x.c10.address + BitVec.ofNat 64 DATA_OFFSET_SENSOR_ENC)
    x.str c12 x.c10 (x.c10.address + BitVec.ofNat 64 DATA_OFFSET_SENSOR_SIGN)

/-- But for the `c0` that is left, the call is the program in parts. -/
theorem setSensorEnclave_discard (c0 c1 : Capability) :
    (x.setSensorEnclave c0 c1 >>= fun _ => pure ())
      = (x.sensorStore c0 c1).run >>= fun _ => pure () := by
  unfold GuardedStore.run sensorStore setSensorEnclave sensorChecks
  simp only [bind_assoc]
  congr 1
  funext c11
  by_cases htag : c11.tag = true
  · rw [htag, Bool.not_true, if_neg Bool.false_ne_true, if_neg Bool.false_ne_true]
    simp only [bind_assoc]
    congr 1
    funext csp
    congr 1
    funext x14
    congr 1
    funext c0
    congr 1
    funext _c1
    cases x14 with
    | false => rfl
    | true =>
      simp only [Bool.not_true, Bool.false_eq_true, if_false, bind_assoc]
      congr 1
      funext same
      cases same with
      | false => rfl
      | true =>
        simp only [Bool.not_true, Bool.false_eq_true, if_false, bind_assoc]
        congr 1
        funext c12
        by_cases hbase : c11.base ≠ c12.base + -1
        · rw [if_pos hbase, if_pos hbase]
          rfl
        · rw [if_neg hbase, if_neg hbase]
          simp only [pure_bind, bind_assoc]
  · rw [Bool.not_eq_true] at htag
    rw [htag, Bool.not_false, if_pos rfl, if_pos rfl]
    rfl

/-- What the call leaves is what the program in parts does. -/
theorem exec_setSensorEnclave_snd (c0 c1 : Capability) (s : SensorState b) :
    ((x.setSensorEnclave c0 c1).exec s).2 = (x.sensorStore c0 c1).after s := by
  have h := congrArg (fun y => (y.exec s).2) (x.setSensorEnclave_discard c0 c1)
  simp only [Trapping.exec_discard_snd] at h
  exact h

/-! ## What a call works on -/

/-- The capability in a slot of the enclave's data. -/
def slot (m : Memory) (f : ℕ) : Capability :=
  m.cap ((x.c10.address + BitVec.ofNat 64 f).toNat / CAP_LEN)

/-- The words of a digest. -/
def hashWord (hash : HashVal) (k : Fin 8) : BitVec 32 :=
  hash ⟨4 * k + 3, by rw [hashByteWidth]; omega⟩ ++ hash ⟨4 * k + 2, by rw [hashByteWidth]; omega⟩
    ++ hash ⟨4 * k + 1, by rw [hashByteWidth]; omega⟩ ++ hash ⟨4 * k, by rw [hashByteWidth]; omega⟩

/-- The words of the sensor's id in the code section. -/
def idWord (m : Memory) (k : Fin 8) : BitVec 32 :=
  m.wordAt (x.sensorIdStart + BitVec.ofNat 64 (4 * k))

/-- The memory with the arguments pushed. -/
def pushed (c0 c1 : Capability) (m : Memory) : Memory :=
  (m.writeCap x.plat.fmt (x.pushedTo.toNat / CAP_LEN) c0).writeCap x.plat.fmt
    ((x.pushedTo + BitVec.ofNat 64 CAP_LEN).toNat / CAP_LEN) c1

/-- The memory with the arguments pushed and a digest in the buffer. -/
def idStored (c0 c1 : Capability) (hash : HashVal) (m : Memory) : Memory :=
  (x.pushed c0 c1 m).writeDigest x.buffer.address hash

/-- A capability of the argument. -/
def argument (c0 : Capability) (m : Memory) (f : ℕ) : Capability :=
  (m.cap ((c0.address + BitVec.ofNat 64 f).toNat / CAP_LEN)).tagIf c0.perms.loadCap

section

variable {x} {c c0 c1 : Capability} {s : SensorState b} {m m' : Memory}

/-! ## The data section -/

@[simp] theorem address_incOffset (c : Capability) (n : ℕ) :
    (x.incOffset c n).address = c.address + BitVec.ofNat 64 n := by
  rw [incOffset, address_scoff, cheriOffsetGet, ← BitVec.add_assoc, BitVec.add_comm c.base,
    BitVec.sub_add_cancel]

/-- What is loaded through a capability that has been moved. -/
theorem argument_incOffset (c : Capability) (m : Memory) (f : ℕ) :
    argument (x.incOffset c f) m 0 = argument c m f := by
  unfold argument
  rw [address_incOffset, show (x.incOffset c f).perms = c.perms from
    (cheriAddressSet_fields _ _ _).2.2, show BitVec.ofNat 64 0 = 0#64 from rfl, BitVec.add_zero]

/-- The data capability, where it points. -/
theorem address_c10 : x.c10.address = x.c29.address + BitVec.ofNat 64 DATA_OFFSET_ENCLAVE :=
  address_incOffset _ _

theorem perms_c10 : x.c10.perms = x.c29.perms := (cheriAddressSet_fields _ _ _).2.2

/-- An address in the static data. -/
theorem toNat_c10_add {f : ℕ} (hf : f < ENCLAVE_DATA_SIZE) :
    (x.c10.address + BitVec.ofNat 64 f).toNat
      = x.c29.address.toNat + (DATA_OFFSET_ENCLAVE + f) := by
  have hfits := x.fits
  rw [ENCLAVE_DATA_SIZE, CAP_LEN] at hf
  rw [STATIC_LEN, ENCLAVE_DATA_SIZE, CAP_LEN] at hfits
  rw [address_c10, BitVec.add_assoc, ← BitVec.ofNat_add, BitVec.toNat_add, BitVec.toNat_ofNat,
    DATA_OFFSET_ENCLAVE, CAP_LEN, Nat.mod_eq_of_lt (a := 4 * 16 + f) (by omega),
    Nat.mod_eq_of_lt (by omega)]

/-! ## The granules of the four slots -/

/-- **What is up to the last slot is kept**, capabilities and all. -/
def Kept (x : UserEnclave b) (m m' : Memory) : Prop :=
  ∀ g, CAP_LEN * g ≤ x.c29.address.toNat + (DATA_OFFSET_ENCLAVE + DATA_OFFSET_SENSOR_SIGN) →
    m'.cap g = m.cap g

theorem Kept.refl (m : Memory) : x.Kept m m := fun _ _ => rfl

theorem Kept.trans {m'' : Memory} (h : x.Kept m m') (h' : x.Kept m' m'') : x.Kept m m'' :=
  fun g hg => (h' g hg).trans (h g hg)

/-- The slots are up to the last slot. -/
theorem Kept.slot_eq (h : x.Kept m m') {f : ℕ} (hf : f ≤ DATA_OFFSET_SENSOR_SIGN) :
    x.slot m' f = x.slot m f := by
  have hsmall : DATA_OFFSET_SENSOR_SIGN < ENCLAVE_DATA_SIZE := by decide
  refine h _ ?_
  rw [toNat_c10_add (by omega)]
  have hdiv := Nat.mul_div_le (x.c29.address.toNat + (DATA_OFFSET_ENCLAVE + f)) CAP_LEN
  omega

/-- A capability stored on the stack. -/
theorem kept_writeCap {a : Word} {n : ℕ} (hin : x.csp.InBounds a n) (halign : a.toNat % CAP_LEN = 0)
    (v : Capability) : x.Kept m (m.writeCap x.plat.fmt (a.toNat / CAP_LEN) v) := by
  intro g hg
  refine m.cap_writeCap_of_ne _ ?_ v
  have hstack := x.stack
  have hlow := hin.1
  rw [STATIC_LEN, ENCLAVE_DATA_SIZE, CAP_LEN] at hstack
  rw [DATA_OFFSET_ENCLAVE, DATA_OFFSET_SENSOR_SIGN] at hg
  rw [CAP_LEN] at hg halign ⊢
  omega

/-- A byte stored in the buffer. -/
theorem kept_writeByte {a : ℕ}
    (ha : x.c29.address.toNat + (DATA_OFFSET_ENCLAVE + DATA_OFFSET_BUF) ≤ a) (v : Byte) :
    x.Kept m (m.writeByte a v) := by
  intro g hg
  refine Function.update_of_ne ?_ _ _
  rw [DATA_OFFSET_ENCLAVE, DATA_OFFSET_BUF] at ha
  rw [DATA_OFFSET_ENCLAVE, DATA_OFFSET_SENSOR_SIGN] at hg
  rw [CAP_LEN] at *
  omega

/-! ## Instructions -/

open Trapping (wp)

/-- A load through a capability at an address is allowed. -/
def CanLoad (c : Capability) (a : Word) : Prop :=
  c.tag = true ∧ c.isSealed = false ∧ c.perms.load = true ∧ c.InBounds a CAP_LEN
    ∧ a.toNat % CAP_LEN = 0

/-- A load of the word a capability points at. -/
def CanLoadWord (c : Capability) : Prop :=
  c.tag = true ∧ c.isSealed = false ∧ c.perms.load = true ∧ c.InBounds c.address 4

/-- **A store through a capability.** A tagged capability asks for a permission,
and a local one for another. -/
def CanStore (c : Capability) (a : Word) (v : Capability) : Prop :=
  c.tag = true ∧ c.isSealed = false ∧ c.perms.store = true ∧ c.InBounds a CAP_LEN
    ∧ a.toNat % CAP_LEN = 0 ∧ (v.tag = true → c.perms.storeCap = true)
    ∧ (v.tag = true → v.perms.isGlobal = false → c.perms.storeLocalCap = true)

theorem loadCap_eq_some_iff {a : Word} {v : Capability} : m.loadCap c a = some v ↔
    CanLoad c a ∧ (m.cap (a.toNat / CAP_LEN)).tagIf c.perms.loadCap = v := by
  unfold Memory.loadCap CanLoad
  split
  · rename_i h
    rw [Option.some.injEq]
    exact (and_iff_right h).symm
  · rename_i h
    exact ⟨fun hno => (by cases hno), fun hload => absurd hload.1 h⟩

theorem loadWord_eq_some_iff {v : BitVec 32} :
    m.loadWord c = some v ↔ CanLoadWord c ∧ m.wordAt c.address = v := by
  unfold Memory.loadWord CanLoadWord
  split
  · rename_i h
    rw [Option.some.injEq]
    exact (and_iff_right h).symm
  · rename_i h
    exact ⟨fun hno => (by cases hno), fun hload => absurd hload.1 h⟩

theorem storeCap_eq_some_iff {fmt : CapFormat} {a : Word} {v : Capability} :
    m.storeCap fmt c a v = some m' ↔
      CanStore c a v ∧ m.writeCap fmt (a.toNat / CAP_LEN) v = m' := by
  unfold Memory.storeCap CanStore
  split
  · rename_i h
    rw [Option.some.injEq]
    exact (and_iff_right h).symm
  · rename_i h
    exact ⟨fun hno => (by cases hno), fun hstore => absurd hstore.1 h⟩

theorem exec_orTrap_eq_ok {α : Type} {f : SensorState b → Option α} {v : α} {s' : SensorState b} :
    (orTrap f).exec s = (.ok v, s') ↔ f s = some v ∧ s = s' := by
  unfold Trapping.exec orTrap
  cases f s with
  | none => exact ⟨fun h => (by cases h), fun h => (by cases h.1)⟩
  | some a =>
    show ((.ok a, s) : Except El1Stop α × SensorState b) = _ ↔ _
    rw [Prod.mk.injEq, Except.ok.injEq, Option.some.injEq]

/-- **A load of a capability.** -/
theorem exec_ldr_eq_ok {imm : ℕ} {v : Capability} {s' : SensorState b} :
    (ldr c imm).exec s = (.ok v, s') ↔ CanLoad c (c.address + BitVec.ofNat 64 imm)
      ∧ v = argument c s.mem imm ∧ s = s' := by
  unfold ldr
  rw [exec_orTrap_eq_ok, loadCap_eq_some_iff, and_assoc]
  exact and_congr_right fun _ => and_congr_left fun _ => eq_comm

/-- **A load of a word.** -/
theorem exec_ldrWord_eq_ok {v : BitVec 32} {s' : SensorState b} :
    (ldrWord c).exec s = (.ok v, s') ↔
      CanLoadWord c ∧ v = s.mem.wordAt c.address ∧ s = s' := by
  unfold ldrWord
  rw [exec_orTrap_eq_ok, loadWord_eq_some_iff, and_assoc]
  exact and_congr_right fun _ => and_congr_left fun _ => eq_comm

/-- **A store of a capability.** -/
theorem exec_str_eq_ok {v : Capability} {a : Word} {u : Unit} {s' : SensorState b} :
    (x.str v c a).exec s = (.ok u, s') ↔ CanStore c a v
      ∧ s' = { s with mem := s.mem.writeCap x.plat.fmt (a.toNat / CAP_LEN) v } := by
  unfold str
  simp only [Trapping.exec_bind_eq_ok, exec_orTrap_eq_ok, storeCap_eq_some_iff]
  constructor
  · rintro ⟨_, _, ⟨⟨hstore, rfl⟩, rfl⟩, hupdate⟩
    exact ⟨hstore, (Prod.mk.inj hupdate).2.symm⟩
  · rintro ⟨hstore, rfl⟩
    exact ⟨_, s, ⟨⟨hstore, rfl⟩, rfl⟩, rfl⟩

/-! ### Instructions that may trap -/

variable {α : Type} {Q : α → SensorState b → Prop} {E : SensorState b → Prop}

theorem wp_orTrap {f : SensorState b → Option α} (hQ : ∀ v, f s = some v → Q v s) (hE : E s) :
    wp (orTrap f) Q E s := by
  unfold wp Trapping.exec orTrap
  cases hf : f s with
  | none => exact hE
  | some v => exact hQ v hf

/-- A store, or a trap. -/
theorem wp_str {v : Capability} {a : Word} {R : Unit → SensorState b → Prop}
    (hQ : CanStore c a v →
      R () { s with mem := s.mem.writeCap x.plat.fmt (a.toNat / CAP_LEN) v }) (hE : E s) :
    wp (x.str v c a) R E s := by
  unfold str
  rw [Trapping.wp_bind]
  refine wp_orTrap (fun m hm => ?_) hE
  obtain ⟨hstore, rfl⟩ := storeCap_eq_some_iff.1 hm
  exact hQ hstore

/-! ## The push -/

/-- The stack pointer when the arguments are pushed. -/
def pushedSp (x : UserEnclave b) : Capability := x.enc.cheriAddressSet x.csp x.pushedTo

theorem address_pushedSp : x.pushedSp.address = x.pushedTo := cheriAddressSet_address _ _

/-- **The push**, where the stack takes both arguments. -/
theorem exec_stpPush_eq_ok {csp : Capability} {s' : SensorState b} :
    (x.stpPush c0 c1).exec s = (.ok csp, s') ↔ CanStore x.csp x.pushedTo c0
      ∧ CanStore x.csp (x.pushedTo + BitVec.ofNat 64 CAP_LEN) c1
      ∧ csp = x.pushedSp ∧ s' = { s with mem := x.pushed c0 c1 s.mem } := by
  unfold stpPush
  simp only [Trapping.exec_bind_eq_ok, exec_str_eq_ok, Trapping.exec_pure_eq_ok]
  constructor
  · rintro ⟨_, _, ⟨hstore, rfl⟩, _, _, ⟨hstore', rfl⟩, rfl, rfl⟩
    exact ⟨hstore, hstore', rfl, rfl⟩
  · rintro ⟨hstore, hstore', rfl, rfl⟩
    exact ⟨(), _, ⟨hstore, rfl⟩, (), _, ⟨hstore', rfl⟩, rfl, rfl⟩

/-- **The arguments are pushed**, or the stack does not take them: the slots are
left alone. -/
theorem wp_stpPush {R : Capability → SensorState b → Prop}
    (hQ : x.Kept s.mem (x.pushed c0 c1 s.mem) →
      R x.pushedSp { s with mem := x.pushed c0 c1 s.mem })
    (hE : ∀ s', x.Kept s.mem s'.mem → E s') : wp (x.stpPush c0 c1) R E s := by
  unfold stpPush
  rw [Trapping.wp_bind]
  refine wp_str (fun hstore => ?_) (hE s (.refl _))
  have hfirst := kept_writeCap (m := s.mem) hstore.2.2.2.1 hstore.2.2.2.2.1 c0
  rw [Trapping.wp_bind]
  refine wp_str (fun hstore' => ?_) (hE _ hfirst)
  exact hQ (hfirst.trans (kept_writeCap hstore'.2.2.2.1 hstore'.2.2.2.2.1 c1))

/-- The first of them is in its granule. -/
theorem cap_pushed (halign : x.pushedTo.toNat % CAP_LEN = 0) :
    (x.pushed c0 c1 m).cap (x.pushedTo.toNat / CAP_LEN) = c0 := by
  unfold pushed
  rw [Memory.cap_writeCap_of_ne, Memory.cap_writeCap_self]
  have hlt := x.pushedTo.isLt
  rw [BitVec.toNat_add, BitVec.toNat_ofNat]
  rw [CAP_LEN] at halign ⊢
  omega

/-! ## The digest -/

/-- The stores of a digest are writes of its bytes. -/
theorem storeHash_eq_some {memHash : Capability} {hash : HashVal}
    (h : storeHash memHash hash m = some m') : m' = m.writeDigest memHash.address hash := by
  have hfold : ∀ (l : List (Fin hashByteWidth)) (m : Memory), l.foldlM (fun (m : Memory) i =>
      m.storeByte memHash (memHash.address + BitVec.ofNat 64 i.val) (hash i)) m = some m' →
      m' = l.foldl (fun m i =>
        m.writeByte (memHash.address + BitVec.ofNat 64 i.val).toNat (hash i)) m := by
    intro l
    induction l with
    | nil => exact fun m h => (Option.some.inj h).symm
    | cons i l ih =>
      intro m h
      rw [List.foldlM_cons] at h
      unfold Memory.storeByte at h
      split at h
      · exact ih _ h
      · cases h
  exact hfold _ _ h

/-- A granule that the bytes of a digest are not in has what it had. -/
theorem cap_writeDigest_of_apart (m : Memory) {a : Word} (hash : HashVal) {g : ℕ}
    (hapart : ∀ i : Fin hashByteWidth, g ≠ (a + BitVec.ofNat 64 i.val).toNat / CAP_LEN) :
    (m.writeDigest a hash).cap g = m.cap g := by
  unfold Memory.writeDigest
  induction List.finRange hashByteWidth generalizing m with
  | nil => rfl
  | cons i l ih =>
    rw [List.foldl_cons, ih]
    exact Function.update_of_ne (hapart i) _ _

/-- **A granule that has its tag after the writes of a digest** has none of the
bytes in it. -/
theorem of_cap_writeDigest_tag {m : Memory} {a : Word} {hash : HashVal} {g : ℕ}
    (h : ((m.writeDigest a hash).cap g).tag = true) (i : Fin hashByteWidth) :
    g ≠ (a + BitVec.ofNat 64 i.val).toNat / CAP_LEN := by
  have hkeeps : ∀ (l : List (Fin hashByteWidth)) (m : Memory), ((l.foldl (fun m i =>
      m.writeByte (a + BitVec.ofNat 64 i.val).toNat (hash i)) m).cap g).tag = true →
      (m.cap g).tag = true ∧ ∀ i ∈ l, g ≠ (a + BitVec.ofNat 64 i.val).toNat / CAP_LEN := by
    intro l
    induction l with
    | nil => exact fun m h => ⟨h, fun i hi => absurd hi List.not_mem_nil⟩
    | cons i l ih =>
      intro m h
      obtain ⟨htag, hrest⟩ := ih _ h
      -- a byte takes the tag of its granule
      have hne : g ≠ (a + BitVec.ofNat 64 i.val).toNat / CAP_LEN := by
        rintro rfl
        simp only [Memory.writeByte, Function.update_self] at htag
        exact absurd htag Bool.false_ne_true
      simp only [Memory.writeByte, Function.update_of_ne hne] at htag
      exact ⟨htag, List.forall_mem_cons.2 ⟨hne, hrest⟩⟩
  exact (hkeeps _ m h).2 i (List.mem_finRange i)

/-- A digest written in the buffer. -/
theorem kept_writeDigest (m : Memory) {a : Word} (hash : HashVal)
    (ha : ∀ i : Fin hashByteWidth, x.c29.address.toNat + (DATA_OFFSET_ENCLAVE + DATA_OFFSET_BUF)
      ≤ (a + BitVec.ofNat 64 i.val).toNat) :
    x.Kept m (m.writeDigest a hash) := by
  unfold Memory.writeDigest
  induction List.finRange hashByteWidth generalizing m with
  | nil => exact .refl _
  | cons i l ih =>
    rw [List.foldl_cons]
    exact (kept_writeByte (ha i) _).trans (ih _)

/-- **What is known of a buffer that takes a digest.** -/
structure Buffer (x : UserEnclave b) : Prop where
  tag : x.c10.tag = true
  unsealed : x.c10.isSealed = false
  store : x.c10.perms.store = true
  room : x.c10.InBounds (x.c10.address + BitVec.ofNat 64 DATA_OFFSET_BUF) 32
  noWrap : x.buffer.address.toNat + 32 ≤ 2 ^ 64

theorem address_buffer : x.buffer.address = x.c10.address + BitVec.ofNat 64 DATA_OFFSET_BUF := by
  unfold buffer CapEncoding.cheriBoundsSetExact Morello.cheriBoundsSetExact Capability.tagIf
  split <;> exact address_incOffset _ _

theorem buffer_of_passes (hpass : bufferPasses x.buffer = true) (hfits : DigestFits x.buffer) :
    Buffer x := by
  simp only [bufferPasses, Bool.and_eq_true] at hpass
  have hstore := hpass.1.2
  have htag := hfits.1
  obtain ⟨hmoved, -, hin, -⟩ := x.enc.cheriBoundsSetExact_tag_iff.1 htag
  obtain ⟨hc10, hunsealed⟩ := of_cheriAddressSet_tag hmoved
  obtain ⟨hbase, hlen, hperms⟩ := cheriAddressSet_fields x.enc x.c10
    (x.c10.base + (cheriOffsetGet x.c10 + BitVec.ofNat 64 DATA_OFFSET_BUF))
  have hfits := x.c10.fits hc10
  have hroom : x.c10.InBounds (x.c10.address + BitVec.ofNat 64 DATA_OFFSET_BUF) 32 := by
    rw [address_incOffset] at hin
    unfold Capability.InBounds at hin ⊢
    rw [← hbase, ← hlen]
    exact hin
  refine ⟨hc10, hunsealed, ?_, hroom, ?_⟩
  · rw [← hperms]
    have hsame : x.buffer.perms = (x.incOffset x.c10 DATA_OFFSET_BUF).perms := by
      unfold buffer CapEncoding.cheriBoundsSetExact Morello.cheriBoundsSetExact Capability.tagIf
      split <;> rfl
    rw [hsame] at hstore
    exact hstore
  · rw [address_buffer]
    exact le_trans hroom.2 hfits

/-- Where its bytes are. -/
theorem Buffer.toNat_byte (h : Buffer x) (i : Fin hashByteWidth) :
    (x.buffer.address + BitVec.ofNat 64 i.val).toNat
      = x.c29.address.toNat + (DATA_OFFSET_ENCLAVE + DATA_OFFSET_BUF) + i.val := by
  have hi : i.val < 32 := i.isLt
  have hwrap := h.noWrap
  have hbase := toNat_c10_add (x := x) (f := DATA_OFFSET_BUF) (by decide)
  rw [← address_buffer] at hbase
  rw [BitVec.toNat_add, BitVec.toNat_ofNat, Nat.mod_eq_of_lt (a := i.val) (by omega),
    Nat.mod_eq_of_lt (by omega), hbase]

/-- The state with a digest in the buffer. -/
def digestStored (x : UserEnclave b) (hash : HashVal) (s : SensorState b) : SensorState b :=
  let mem := s.mem.writeDigest x.buffer.address hash
  ⟨mem, x.plat.afterWrite ⟨x.buffer.address.toNat, hashByteWidth⟩ mem s.store⟩

/-- **The hypervisor stores a digest** where it finds one and the buffer takes
it. -/
theorem exec_hvcEstoreid_eq_true {x0 : Word} {s' : SensorState b} :
    (x.hvcEstoreid x0 x.buffer).exec s = (.ok true, s') ↔
      (bufferPasses x.buffer = true ∧ DigestFits x.buffer)
        ∧ ∃ hash, s.store.getHashEntry x0 = some hash ∧ s' = x.digestStored hash s := by
  unfold Trapping.exec hvcEstoreid estoreId
  by_cases hpass : bufferPasses x.buffer = true
  · rw [if_pos hpass, and_iff_right hpass]
    cases hget : s.store.getHashEntry x0 with
    | none => exact ⟨fun h => (by cases h), fun ⟨_, _, h, _⟩ => (by cases h)⟩
    | some hash =>
      have hfits : (storeHash x.buffer hash s.mem).isSome = true ↔ DigestFits x.buffer :=
        storeHash_isSome_iff hpass
      simp only [← hfits]
      cases hstore : storeHash x.buffer hash s.mem with
      | none => exact ⟨fun h => (by cases h), fun h => absurd h.1 Bool.false_ne_true⟩
      | some m =>
        obtain rfl := storeHash_eq_some hstore
        constructor
        · intro h
          exact ⟨rfl, hash, rfl, (Prod.mk.inj h).2.symm⟩
        · rintro ⟨-, hash', hhash, rfl⟩
          rw [← Option.some.inj hhash]
          rfl
  · rw [if_neg hpass]
    exact ⟨fun h => (by cases h), fun h => absurd h.1.1 hpass⟩

/-- **The call to the hypervisor**: it does not return, there is no digest, or
the digest is in the buffer. -/
theorem wp_hvcEstoreid {x0 : Word} {R : Bool → SensorState b → Prop} (hhang : E s)
    (hfail : R false s) (hstored : ∀ hash, Buffer x → R true (x.digestStored hash s)) :
    wp (x.hvcEstoreid x0 x.buffer) R E s := by
  unfold wp Trapping.exec hvcEstoreid estoreId
  by_cases hpass : bufferPasses x.buffer = true
  · rw [if_pos hpass]
    cases s.store.getHashEntry x0 with
    | none => exact hfail
    | some hash =>
      simp only
      cases hstore : storeHash x.buffer hash s.mem with
      | none => exact hhang
      | some m =>
        obtain rfl := storeHash_eq_some hstore
        have hfits := (storeHash_isSome_iff hpass).1 (Option.isSome_of_eq_some hstore)
        exact hstored hash (buffer_of_passes hpass hfits)
  · rw [if_neg hpass]
    exact hfail

/-! ## The comparison -/

/-- The next word of the id is at the next address. -/
theorem address_next {c : Capability} {p : Word} {j : ℕ}
    (h : c.address = p + BitVec.ofNat 64 (4 * j)) :
    (x.incOffset c 4).address = p + BitVec.ofNat 64 (4 * (j + 1)) := by
  rw [address_incOffset, h, BitVec.add_assoc, ← BitVec.ofNat_add, Nat.mul_succ]

/-- The offset of the next word of the id, against that of its end. -/
theorem msb_next_sub_end {c4 : Capability} {j : ℕ} (hj : j < 8) (hbase : c4.base = x.pcc.base)
    (h4 : c4.address = x.sensorIdStart + BitVec.ofNat 64 (4 * j)) :
    (cheriOffsetGet (x.incOffset c4 4) - x.sensorIdEnd).msb = decide (j + 1 < 8) := by
  have hend : x.sensorIdEnd
      = x.sensorIdStart + BitVec.ofNat 64 sensorIdLen - x.pcc.base := by
    rw [sensorIdEnd, cheriOffsetGet, cheriAddressSet_address, EntryCode.cheriAddressSet_base]
  have hdiff : cheriOffsetGet (x.incOffset c4 4) - x.sensorIdEnd
      = BitVec.ofNat 64 (4 * (j + 1)) - BitVec.ofNat 64 sensorIdLen := by
    rw [hend, cheriOffsetGet, address_next h4,
      show (x.incOffset c4 4).base = c4.base from EntryCode.cheriAddressSet_base _ _ _, hbase]
    ring
  rw [hdiff]
  have hall : ∀ j < 8, (BitVec.ofNat 64 (4 * (j + 1)) - BitVec.ofNat 64 sensorIdLen).msb
      = decide (j + 1 < 8) := by decide
  exact hall j hj

/-- A capability moved along, word by word. -/
def along (x : UserEnclave b) (c : Capability) (k : ℕ) : Capability :=
  (fun c => x.incOffset c 4)^[k] c

theorem address_along (c : Capability) (k : ℕ) :
    (x.along c k).address = c.address + BitVec.ofNat 64 (4 * k) := by
  induction k generalizing c with
  | zero => exact (BitVec.add_zero _).symm
  | succ k ih =>
    show (x.along (x.incOffset c 4) k).address = _
    rw [ih, address_incOffset, BitVec.add_assoc, ← BitVec.ofNat_add, Nat.mul_succ, Nat.add_comm 4]

/-- **A comparison of one word more.** -/
theorem exec_compareId_succ {x15 : Word} {c12 c4 : Capability} {n : ℕ} {s' : SensorState b} :
    (x.compareId x15 c12 c4 (n + 1)).exec s = (.ok true, s') ↔
      (CanLoadWord c12 ∧ CanLoadWord c4 ∧ s.mem.wordAt c12.address = s.mem.wordAt c4.address)
        ∧ (if (cheriOffsetGet (x.incOffset c4 4) - x15).msb then
            x.compareId x15 (x.incOffset c12 4) (x.incOffset c4 4) n
          else pure true).exec s = (.ok true, s') := by
  rw [compareId]
  simp only [Trapping.exec_bind_eq_ok, exec_ldrWord_eq_ok]
  constructor
  · rintro ⟨_, _, ⟨hread, rfl, rfl⟩, _, _, ⟨hread', rfl, rfl⟩, hrest⟩
    split at hrest
    · exact absurd (Trapping.exec_pure_eq_ok.1 hrest).1 (by decide)
    · rename_i hsame
      exact ⟨⟨hread, hread', not_not.1 hsame⟩, hrest⟩
  · rintro ⟨⟨hread, hread', hsame⟩, hrest⟩
    refine ⟨_, _, ⟨hread, rfl, rfl⟩, _, _, ⟨hread', rfl, rfl⟩, ?_⟩
    rw [if_neg (not_not.2 hsame)]
    exact hrest

/-- **A comparison finds no difference** where the words can be read, and are the
same. With `n + 1` words to go it is at word `7 - n`. -/
theorem exec_compareId_eq_true {s' : SensorState b} (n : ℕ) {j : ℕ} (hn : j + n = 7)
    {c12 c4 : Capability} (h4 : c4.address = x.sensorIdStart + BitVec.ofNat 64 (4 * j))
    (hbase : c4.base = x.pcc.base) :
    (x.compareId x.sensorIdEnd c12 c4 (n + 1)).exec s = (.ok true, s') ↔ s = s' ∧ ∀ k < n + 1,
      CanLoadWord (x.along c12 k) ∧ CanLoadWord (x.along c4 k)
        ∧ s.mem.wordAt (x.along c12 k).address = s.mem.wordAt (x.along c4 k).address := by
  induction n generalizing j c12 c4 with
  | zero =>
    rw [exec_compareId_succ, msb_next_sub_end (by omega) hbase h4, if_neg (by simp; omega),
      Trapping.exec_pure_eq_ok, and_iff_right rfl, and_comm]
    refine and_congr_right fun _ => ⟨fun h k hk => ?_, fun h => h 0 (Nat.succ_pos 0)⟩
    obtain rfl : k = 0 := by omega
    exact h
  | succ n ih =>
    rw [exec_compareId_succ, msb_next_sub_end (by omega) hbase h4, if_pos (by simp; omega),
      ih (by omega) (address_next h4) ((EntryCode.cheriAddressSet_base _ _ _).trans hbase),
      and_left_comm]
    refine and_congr_right fun _ => ⟨fun ⟨hfirst, hrest⟩ k hk => ?_, fun h => ⟨?_, fun k hk => ?_⟩⟩
    · cases k with
      | zero => exact hfirst
      | succ k => exact hrest k (Nat.lt_of_succ_lt_succ hk)
    · exact h 0 (Nat.succ_pos _)
    · exact h (k + 1) (Nat.succ_lt_succ hk)

/-- A comparison changes nothing. -/
theorem wp_compareId_same {x15 : Word} {c12 c4 : Capability} (n : ℕ) :
    wp (x.compareId x15 c12 c4 n) (fun _ s' => s' = s) (fun s' => s' = s) s := by
  induction n generalizing c12 c4 with
  | zero => exact rfl
  | succ n ih =>
    unfold compareId
    rw [Trapping.wp_bind]
    refine wp_orTrap (fun _ _ => ?_) rfl
    rw [Trapping.wp_bind]
    refine wp_orTrap (fun _ _ => ?_) rfl
    rw [Trapping.wp_ite]
    refine ⟨fun _ => rfl, fun _ => ?_⟩
    simp only
    rw [Trapping.wp_ite]
    exact ⟨fun _ => ih, fun _ => rfl⟩

/-- **The words of the digest are in the buffer.** -/
theorem wordAt_idStored (hpass : bufferPasses x.buffer = true) (hfits : DigestFits x.buffer)
    {hash : HashVal} (k : Fin 8) :
    (x.idStored c0 c1 hash m).wordAt (x.buffer.address + BitVec.ofNat 64 (4 * k))
      = hashWord hash k := by
  have hsome : (storeHash x.buffer hash (x.pushed c0 c1 m)).isSome = true :=
    (storeHash_isSome_iff hpass).2 hfits
  obtain ⟨m', hstore⟩ := Option.isSome_iff_exists.1 hsome
  obtain rfl := storeHash_eq_some hstore
  have hwrap := (buffer_of_passes hpass hfits).noWrap
  have hlt := k.isLt
  have hlen : hashByteWidth = 32 := rfl
  have hnat : ∀ n < 32, (x.buffer.address + BitVec.ofNat 64 n).toNat
      = x.buffer.address.toNat + n := by
    intro n hn
    rw [BitVec.toNat_add, BitVec.toNat_ofNat, Nat.mod_eq_of_lt (a := n) (by omega),
      Nat.mod_eq_of_lt (by omega)]
  have hbyte : ∀ (n j : ℕ) (hn : n + j < hashByteWidth), (x.idStored c0 c1 hash m).byte
      (x.buffer.address.toNat + n + j) = hash ⟨n + j, hn⟩ := by
    intro n j hn
    rw [← byte_of_storeHash hstore ⟨n + j, hn⟩, hnat (n + j) (by omega), Nat.add_assoc]
    rfl
  unfold Memory.wordAt hashWord
  rw [hnat (4 * k) (by omega), hbyte (4 * k) 3 (by omega), hbyte (4 * k) 2 (by omega),
    hbyte (4 * k) 1 (by omega)]
  congr 1
  exact hbyte (4 * k) 0 (by omega)

/-! ## The checks leave the slots -/

/-- The digest is behind the slots. -/
theorem kept_idStored (h : Buffer x) (hpush : x.Kept m (x.pushed c0 c1 m)) (hash : HashVal) :
    x.Kept m (x.idStored c0 c1 hash m) := by
  refine hpush.trans (kept_writeDigest _ hash (fun i => ?_))
  rw [h.toNat_byte]
  exact Nat.le_add_right _ _

/-- **The checks leave the slots alone**, however they end. -/
theorem wp_sensorChecks :
    wp (x.sensorChecks c0 c1) (fun _ s₁ => x.Kept s.mem s₁.mem)
      (fun s₁ => x.Kept s.mem s₁.mem) s := by
  unfold sensorChecks
  rw [Trapping.wp_bind]
  refine wp_orTrap (fun _ _ => ?_) (.refl _)
  rw [Trapping.wp_ite]
  refine ⟨fun _ => .refl _, fun _ => ?_⟩
  rw [Trapping.wp_bind]
  refine wp_stpPush (fun hpush => ?_) (fun _ h => h)
  rw [Trapping.wp_bind]
  -- the arguments are popped with a digest and without
  refine wp_hvcEstoreid hpush ?_ (fun hash hbuf => ?_)
  · rw [Trapping.wp_bind]
    refine wp_orTrap (fun _ _ => ?_) hpush
    rw [Trapping.wp_bind]
    exact wp_orTrap (fun _ _ => hpush) hpush
  have hkept : x.Kept s.mem (x.idStored c0 c1 hash s.mem) := kept_idStored hbuf hpush hash
  rw [Trapping.wp_bind]
  refine wp_orTrap (fun _ _ => ?_) hkept
  rw [Trapping.wp_bind]
  refine wp_orTrap (fun _ _ => ?_) hkept
  rw [Trapping.wp_ite]
  refine ⟨fun _ => hkept, fun _ => ?_⟩
  rw [Trapping.wp_bind]
  refine Trapping.wp_mono (wp_compareId_same _) (fun same s₁ h => ?_) (fun s₁ h => h ▸ hkept)
  obtain rfl := h
  rw [Trapping.wp_ite]
  refine ⟨fun _ => hkept, fun _ => ?_⟩
  rw [Trapping.wp_bind]
  refine wp_orTrap (fun _ _ => ?_) hkept
  rw [Trapping.wp_ite]
  exact ⟨fun _ => hkept, fun _ => hkept⟩

end

end UserEnclave

end Morello
