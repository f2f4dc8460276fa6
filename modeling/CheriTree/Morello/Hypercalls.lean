import CheriTree.Morello.Sweep

/-!
# The calls of the hypervisor

`EINIT_CODE.c`, `EINIT_DATA.c`, `ESTORE_ID.c` and `hash.c`. What lies outside
the sources is a parameter: the format of a capability in memory, the digest of
libtomcrypt with its law, and the place of the hypervisor's own data.

The hypervisor follows the capabilities that EL1 hands it, with its own rights
to memory. A write through one that lands in the hypervisor's data changes the
store to whatever the bytes there then say, which is for the layout of the
image to decide.
-/

namespace Morello

/-- **The digest of libtomcrypt**: fed piece by piece, it is the digest of the
pieces one after the other. -/
structure Sha256Lib where
  State : Type
  init : State
  process : State → List Byte → State
  done : State → HashVal
  sha256 : List Byte → HashVal
  computes : ∀ chunks : List (List Byte), done (chunks.foldl process init) = sha256 chunks.flatten

/-- **What the sources are built on.** -/
structure Platform (b : Build) where
  fmt : CapFormat
  lib : Sha256Lib
  /-- Where the hypervisor keeps the store and the counter. -/
  trusted : ByteRange
  /-- What a write there makes of them. -/
  smash : Memory → IdentityStore b → IdentityStore b

variable {b : Build}

/-- The store after a write to a range of memory. -/
def Platform.afterWrite (p : Platform b) (r : ByteRange) (m : Memory) (s : IdentityStore b) :
    IdentityStore b :=
  if r.Meets p.trusted then p.smash m s else s

/-- `(void*)-1`. -/
def invalidCap : Capability where
  tag := false
  base := 0
  length := 2 ^ 64
  address := BitVec.allOnes 64
  perms := ⟨false, false, false, false, false, false, false, false⟩
  otype := 0
  fits := fun h => absurd h Bool.false_ne_true

/-! ## The digest -/

/-- Bytes hashed at a time. -/
def numBytes : ℕ := 4

/-- The bytes of the structure a digest is returned in, with its flag. -/
def sizeofHashStruct : Word := 33

/-- Four bytes loaded one after the other. -/
def loadBytes (m : Memory) (code : Capability) (a : Word) : Option (List Byte) :=
  (List.range numBytes).mapM (fun k => m.loadByte code (a + BitVec.ofNat 64 k))

/-- **The loop of `generateHash`.** The index is an `int`, and it is compared
as a `size_t`. Where it comes back to zero the loop starts over and never
ends. -/
def hashLoop (lib : Sha256Lib) (m : Memory) (code : Capability) (i : BitVec 32)
    (md : lib.State) : Option lib.State :=
  if i.signExtend 64 < cheriLengthGet code - BitVec.ofNat 64 numBytes + 1 then
    match loadBytes m code (code.address + i.signExtend 64) with
    | none => none
    | some bytes =>
      if (i + BitVec.ofNat 32 numBytes).toNat ≤ i.toNat then none
      else hashLoop lib m code (i + BitVec.ofNat 32 numBytes) (lib.process md bytes)
  else some md
termination_by 2 ^ 32 - i.toNat
decreasing_by
  have := i.isLt
  omega

/-- **`generateHash`.** A section whose length is not a multiple of four is not
hashed, and what was in the structure stays there. -/
def generateHash (lib : Sha256Lib) (m : Memory) (hashStruct : HashType) (code : Capability) :
    Option HashType :=
  let lengthCode := cheriLengthGet code
  let lengthhash := sizeofHashStruct - 1
  if ¬ (lengthCode.toNat % numBytes = 0 ∧ lengthhash.toNat = hashByteWidth) then
    some { hashStruct with valid := false }
  else
    (hashLoop lib m code 0 lib.init).map (fun md => ⟨true, lib.done md⟩)

/-! ## The calls -/

/-- **`EINIT_CODE`.** -/
def einitCode (s : IdentityStore b) (code : Capability) : Capability × IdentityStore b :=
  let id := s.initEntry.1
  if id = setInvalidEnclaveID then (invalidCap, s.initEntry.2)
  else (cheriSeal code (identSeal rootCap id), s.initEntry.2)

/-- The code capability `EINIT_DATA` works with. -/
def unsealedCode (s : IdentityStore b) (sealedCode : Capability) : Capability :=
  cheriUnseal sealedCode (identSeal rootCap (s.getUnfinishedEntryID (cheriTypeGet sealedCode)))

/-- What a call leaves. -/
structure Reply (b : Build) where
  result : Capability
  store : IdentityStore b
  mem : Memory

/-- The end of `EINIT_DATA`: the seals are stored where the data capability
points, and it is sealed. -/
def finishData (p : Platform b) (s : IdentityStore b) (id : IdType) (data : Capability)
    (m : Memory) : Option (Reply b) :=
  (m.storeCap p.fmt data data.address (signEncSeal rootCap id)).map (fun m' =>
    { result := cheriSeal data (identSeal rootCap id)
      store := p.afterWrite ⟨data.address.toNat, CAP_LEN⟩ m' s
      mem := m' })

/-- **`EINIT_DATA`.** `hash` is what the stack holds where the digest is to
go. -/
def einitData (p : Platform b) (s : IdentityStore b) (hash : HashType)
    (sealedCode data : Capability) (cspReg : List Capability) (el1 : El1State) :
    Option (Reply b) :=
  let otypeVal := cheriTypeGet sealedCode
  let id := s.getUnfinishedEntryID otypeVal
  if id = setInvalidEnclaveID then some ⟨invalidCap, s, el1.mem⟩
  else
    match sweep (unsealedCode s sealedCode) data cspReg memEL1NAtEL2N el1 with
    | none => none
    | some resultSweep =>
      if resultSweep = -1 then some ⟨invalidCap, s, el1.mem⟩
      else
        match generateHash p.lib el1.mem hash (unsealedCode s sealedCode) with
        | none => none
        | some hash =>
          if (s.finishEntry otypeVal hash).1 = -1 then
            some ⟨invalidCap, (s.finishEntry otypeVal hash).2, el1.mem⟩
          else finishData p (s.finishEntry otypeVal hash).2 id data el1.mem

/-- The check of the buffer. The tag is not part of it, and the room is a
difference of two words. -/
def bufferPasses (memHash : Capability) : Bool :=
  !memHash.isSealed && memHash.perms.store
    && decide (hashByteWidth ≤ (cheriLengthGet memHash - cheriOffsetGet memHash).toNat)

/-- The digest goes out byte by byte. -/
def storeHash (memHash : Capability) (hash : HashVal) (m : Memory) : Option Memory :=
  (List.finRange hashByteWidth).foldlM (fun m i =>
    m.storeByte memHash (memHash.address + BitVec.ofNat 64 i.val) (hash i)) m

/-- **`ESTORE_ID`**: whether there is a digest, the store and the memory. -/
def estoreId (p : Platform b) (s : IdentityStore b) (anyOtype : Word) (memHash : Capability)
    (m : Memory) : Option (Bool × IdentityStore b × Memory) :=
  if bufferPasses memHash then
    match s.getHashEntry anyOtype with
    | none => some (false, s, m)
    | some hash =>
      (storeHash memHash hash m).map (fun m' =>
        (true, p.afterWrite ⟨memHash.address.toNat, hashByteWidth⟩ m' s, m'))
  else some (false, s, m)

end Morello
