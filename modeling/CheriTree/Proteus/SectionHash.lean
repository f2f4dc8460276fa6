import CheriTree.ByteOrder
import CheriTree.Proteus.EnclaveInit
import CheriTree.Proteus.StoreHandshake

/-!
# The identity of a section

`hashFsm` reads the code section word by word and hands each word to the hash
engine with its bytes swapped; `storeIdFsm` writes the digest word by word,
highest first, again with the bytes swapped. The engine takes the bytes of a
word highest first, so that it sees the bytes of the section in the order they
have in memory, and the digest goes to memory in its own order.

Both machines move on by four bytes and use the address as it is, while a
memory is made of whole words. So a section that does not start at a word is
hashed from the start of its first word on, without its last bytes, and a
digest that does not go to a word goes to the start of its first word.
-/

namespace Proteus

open ByteOrder

namespace TaggedMemory

/-- The byte at an address of the memory. -/
def byteAt (m : TaggedMemory) (a : ℕ) : BitVec 8 := (m.ram (a / 4)).extractLsb' (8 * (a % 4)) 8

/-- The `n` bytes from an address on. -/
def bytes (m : TaggedMemory) (base n : ℕ) : List (BitVec 8) :=
  (List.range n).map (fun i => m.byteAt (base + i))

end TaggedMemory

/-! ## Reading the section -/

/-- The first `k` words that `hashFsm` hands to the engine. -/
def hashedWords (m : TaggedMemory) (base k : ℕ) : List Word :=
  (List.range k).map (fun j => endiannessSwap (m.ram (base / 4 + j)))

theorem hashedWords_succ (m : TaggedMemory) (base k : ℕ) :
    hashedWords m base (k + 1)
      = hashedWords m base k ++ [endiannessSwap (m.ram (base / 4 + k))] := by
  unfold hashedWords
  rw [List.range_succ, List.map_append]
  rfl

/-- **The engine sees the bytes from the first word on**, in their order. -/
theorem flatMap_hashedWords (m : TaggedMemory) (base k : ℕ) :
    (hashedWords m base k).flatMap beBytes = m.bytes (4 * (base / 4)) (4 * k) := by
  induction k with
  | zero => rfl
  | succ k ih =>
    rw [hashedWords_succ, List.flatMap_append, ih, List.flatMap_singleton]
    show _ ++ beBytes (swapBytes _) = _
    rw [beBytes_swapBytes]
    unfold TaggedMemory.bytes leBytes
    rw [Nat.mul_succ, List.range_add, List.map_append, List.map_map]
    congr 1
    refine List.map_congr_left fun j hj => ?_
    have hlt := List.mem_range.1 hj
    show _ = TaggedMemory.byteAt m (4 * (base / 4) + (4 * k + j))
    unfold TaggedMemory.byteAt
    rw [show (4 * (base / 4) + (4 * k + j)) / 4 = base / 4 + k by omega,
      show (4 * (base / 4) + (4 * k + j)) % 4 = j by omega]

namespace InitData

variable {w : ℕ} {cfg : MemConfig} {digest : List Word → Digest} {b s : InitData w}

/-- The core is as it was when the hash was started. -/
structure Still (b s : InitData w) : Prop where
  cs1 : s.cs1 = b.cs1
  mem : s.mem = b.mem
  wb : s.wb = none

/-- **What holds in each state of `hashFsm`** and after it, of a run that
started as `b`. -/
def Hashing (b s : InitData w) : Prop :=
  match s.fsm with
  | .HASH_START => b.Still s
  | .LOAD_WORD =>
    b.Still s ∧ ∃ k, 4 * k < b.cs1.length.toNat
      ∧ s.hashed = hashedWords b.mem b.cs1.base.toNat k
      ∧ s.currentAddress = b.cs1.base + BitVec.ofNat 32 (4 * k)
  | .HASH_WORD =>
    b.Still s ∧ ∃ k, 4 * k < b.cs1.length.toNat
      ∧ s.hashed ++ [endiannessSwap s.currentWord] = hashedWords b.mem b.cs1.base.toNat (k + 1)
      ∧ s.currentAddress = b.cs1.base + BitVec.ofNat 32 (4 * (k + 1))
  | .STORE_HASH =>
    b.Still s ∧ s.hashed = hashedWords b.mem b.cs1.base.toNat (b.cs1.length.toNat / 4)
  | .STORE_SEAL => s.wb = none
  | .IDLE => s.valid = false
  | _ => False

/-- The address of the next word. -/
theorem address_next (a : Word) (k : ℕ) :
    a + BitVec.ofNat 32 (4 * k) + 4 = a + BitVec.ofNat 32 (4 * (k + 1)) := by
  rw [BitVec.add_assoc, Nat.mul_succ, BitVec.ofNat_add]
  rfl

/-- The word of a section at one of its addresses. -/
theorem readWord_section {c : Capability} {m : TaggedMemory} {device : Word → Word} {k : ℕ}
    (hheld : TaggedMemory.Holds cfg c.base c.length.toNat) (hk : 4 * k < c.length.toNat) :
    m.readWord cfg device (c.base + BitVec.ofNat 32 (4 * k)) = m.ram (c.base.toNat / 4 + k) := by
  have hfits := cfg.fits
  obtain ⟨hstart, hend⟩ := hheld
  have haddr : (c.base + BitVec.ofNat 32 (4 * k)).toNat = c.base.toNat + 4 * k := by
    rw [BitVec.toNat_add, BitVec.toNat_ofNat, Nat.mod_eq_of_lt (a := 4 * k) (by omega),
      Nat.mod_eq_of_lt (by omega)]
  rw [TaggedMemory.readWord, if_pos ⟨by omega, by omega⟩, haddr]
  congr 1
  omega

/-- The address of the last word is the one before the top. -/
theorem address_eq_top_iff {c : Capability} {k : ℕ} (hmod : c.length.toNat % 4 = 0)
    (hk : 4 * k < c.length.toNat) :
    c.base + BitVec.ofNat 32 (4 * (k + 1)) = c.top ↔ 4 * (k + 1) = c.length.toNat := by
  have hlen := c.length.isLt
  unfold Capability.top
  constructor
  · intro h
    have heq := congrArg BitVec.toNat ((BitVec.add_right_inj c.base).1 h)
    rw [BitVec.toNat_ofNat, Nat.mod_eq_of_lt (by omega)] at heq
    exact heq
  · intro h
    rw [h, BitVec.ofNat_toNat, BitVec.setWidth_eq]

/-- **One cycle keeps it**, where the section is in memory and is made of whole
words. -/
theorem Hashing.step (hheld : TaggedMemory.Holds cfg b.cs1.base b.cs1.length.toNat)
    (hpos : 0 < b.cs1.length.toNat) (hmod : b.cs1.length.toNat % 4 = 0) (h : b.Hashing s)
    (i : InitDataInput) : b.Hashing ((eInitData cfg digest).next s i) := by
  have hdrain : s.wb = none → s.drain = s := drain_eq_self
  rw [eInitData_next]
  unfold Hashing at h
  split at h
  · rename_i hf
    rw [hdrain h.wb, act, hf]
    refine ⟨⟨h.cs1, h.mem, h.wb⟩, 0, hpos, rfl, ?_⟩
    show s.cs1.base = _
    rw [h.cs1]
    exact (BitVec.add_zero _).symm
  · rename_i hf
    obtain ⟨hstill, k, hk, hhashed, haddr⟩ := h
    rw [hdrain hstill.wb, act, hf]
    show b.Hashing (s.loadWord cfg i)
    unfold loadWord
    split
    · refine ⟨⟨hstill.cs1, hstill.mem, hstill.wb⟩, k, hk, ?_, ?_⟩
      · show s.hashed ++ [endiannessSwap (s.mem.readWord cfg _ s.currentAddress)] = _
        rw [haddr, hstill.mem, readWord_section hheld hk, hhashed, hashedWords_succ]
      · show s.currentAddress + 4 = _
        rw [haddr, address_next]
    · unfold Hashing
      rw [hf]
      exact ⟨hstill, k, hk, hhashed, haddr⟩
  · rename_i hf
    obtain ⟨hstill, k, hk, hhashed, haddr⟩ := h
    rw [hdrain hstill.wb, act, hf]
    show b.Hashing (s.hashWord i)
    have htop : s.currentAddress = s.cs1.top ↔ 4 * (k + 1) = b.cs1.length.toNat := by
      rw [haddr, hstill.cs1]
      exact address_eq_top_iff hmod hk
    unfold hashWord
    split
    · by_cases hlast : s.currentAddress = s.cs1.top
      · rw [if_pos hlast]
        refine ⟨⟨hstill.cs1, hstill.mem, hstill.wb⟩, ?_⟩
        show s.hashed ++ _ = _
        rw [hhashed, show b.cs1.length.toNat / 4 = k + 1 by have := htop.1 hlast; omega]
      · rw [if_neg hlast]
        refine ⟨⟨hstill.cs1, hstill.mem, hstill.wb⟩, k + 1, ?_, hhashed, haddr⟩
        have := mt htop.2 hlast
        omega
    · unfold Hashing
      rw [hf]
      exact ⟨hstill, k, hk, hhashed, haddr⟩
  · rename_i hf
    obtain ⟨hstill, hhashed⟩ := h
    rw [hdrain hstill.wb, act, hf]
    show b.Hashing (s.storeHash digest i)
    unfold storeHash
    simp only
    split
    · split
      · exact hstill.wb
      · exact rfl
    · unfold Hashing
      rw [hf]
      exact ⟨hstill, hhashed⟩
  · rename_i hf
    rw [hdrain h, act, hf]
    show b.Hashing (s.storeSeal cfg i)
    unfold storeSeal
    split
    · exact rfl
    · unfold Hashing
      rw [hf]
      exact h
  · rename_i hf
    rw [act, drain_fsm, hf]
    show b.Hashing (if s.drain.valid then _ else s.drain)
    rw [drain_valid, h, if_neg Bool.false_ne_true]
    unfold Hashing
    rw [drain_fsm, hf]
    exact (drain_valid s).trans h
  · exact h.elim

/-- **What the engine has taken** when the digest is asked for, whatever the
cycles the bus and the engine let pass. -/
theorem hashed_of_run (hheld : TaggedMemory.Holds cfg b.cs1.base b.cs1.length.toNat)
    (hpos : 0 < b.cs1.length.toNat) (hmod : b.cs1.length.toNat % 4 = 0)
    (hstart : b.fsm = .HASH_START) (hwb : b.wb = none) {is : List InitDataInput}
    (hend : ((eInitData cfg digest).run b is).fsm = .STORE_HASH) :
    ((eInitData cfg digest).run b is).hashed
      = hashedWords b.mem b.cs1.base.toNat (b.cs1.length.toNat / 4) := by
  have hfirst : b.Hashing b := by
    unfold Hashing
    rw [hstart]
    exact ⟨rfl, rfl, hwb⟩
  have hstep : ∀ s i, b.Hashing s → b.Hashing ((eInitData cfg digest).next s i) :=
    fun s i h => h.step hheld hpos hmod i
  have hinv := SyncMachine.run_invariant_all _ hstep hfirst is
  unfold Hashing at hinv
  rw [hend] at hinv
  exact hinv.2

/-- Everything answers at once. -/
def promptInput : InitDataInput := ⟨false, true, true, true, true, 0⟩

/-- One word, with prompt answers. -/
theorem prompt_word (cfg : MemConfig) (digest : List Word → Digest) (hf : s.fsm = .LOAD_WORD)
    (hwb : s.wb = none) :
    (eInitData cfg digest).run s [promptInput, promptInput] = { s with
      currentWord := s.mem.readWord cfg (fun _ => 0) s.currentAddress
      currentAddress := s.currentAddress + 4
      hashed := s.hashed ++ [endiannessSwap (s.mem.readWord cfg (fun _ => 0) s.currentAddress)]
      fsm := if s.currentAddress + 4 = s.cs1.top then .STORE_HASH else .LOAD_WORD } := by
  cases s
  subst hf hwb
  rfl

/-- **The digest is asked for in the end**: with prompt answers, two cycles
after every word that is left. -/
theorem exists_run_of_load (cfg : MemConfig) (digest : List Word → Digest) (c : Capability)
    (hmod : c.length.toNat % 4 = 0) (r : ℕ) {k : ℕ} (hf : s.fsm = .LOAD_WORD) (hwb : s.wb = none)
    (hcs1 : s.cs1 = c) (haddr : s.currentAddress = c.base + BitVec.ofNat 32 (4 * k))
    (hr : 4 * (k + r + 1) = c.length.toNat) :
    ∃ is, ((eInitData cfg digest).run s is).fsm = .STORE_HASH := by
  induction r generalizing s k with
  | zero =>
    refine ⟨[promptInput, promptInput], ?_⟩
    rw [prompt_word cfg digest hf hwb]
    refine if_pos ?_
    rw [haddr, address_next, hcs1]
    exact (address_eq_top_iff hmod (by omega)).2 (by omega)
  | succ r ih =>
    have hnext : s.currentAddress + 4 = c.base + BitVec.ofNat 32 (4 * (k + 1)) := by
      rw [haddr, address_next]
    have hne : s.currentAddress + 4 ≠ s.cs1.top := by
      rw [hnext, hcs1]
      exact fun h => absurd ((address_eq_top_iff hmod (by omega)).1 h) (by omega)
    obtain ⟨is, his⟩ := ih (s := (eInitData cfg digest).run s [promptInput, promptInput])
      (k := k + 1) (by rw [prompt_word cfg digest hf hwb]; exact if_neg hne)
      (by rw [prompt_word cfg digest hf hwb]; exact hwb)
      (by rw [prompt_word cfg digest hf hwb]; exact hcs1)
      (by rw [prompt_word cfg digest hf hwb]; exact hnext) (by omega)
    exact ⟨[promptInput, promptInput] ++ is, by rw [SyncMachine.run_append]; exact his⟩

/-- **The digest of a section is asked for in the end.** -/
theorem exists_run (cfg : MemConfig) (digest : List Word → Digest) (hstart : s.fsm = .HASH_START)
    (hwb : s.wb = none)
    (hpos : 0 < s.cs1.length.toNat) (hmod : s.cs1.length.toNat % 4 = 0) :
    ∃ is, ((eInitData cfg digest).run s is).fsm = .STORE_HASH := by
  have hfirst : (eInitData cfg digest).next s promptInput = { s with
      currentAddress := s.cs1.base
      hashed := []
      fsm := .LOAD_WORD } := by
    rw [eInitData_next, drain_eq_self hwb, act, hstart]
  obtain ⟨is, his⟩ := exists_run_of_load cfg digest s.cs1 hmod
    (s.cs1.length.toNat / 4 - 1) (s := (eInitData cfg digest).next s promptInput) (k := 0)
    (by rw [hfirst]) (by rw [hfirst]; exact hwb) (by rw [hfirst]; rfl)
    (by rw [hfirst]; exact (BitVec.add_zero _).symm) (by omega)
  exact ⟨promptInput :: is, his⟩

end InitData

/-! ## Writing the digest -/

/-- **The core around an `EStoreId`** in its memory stage, with the memory it
writes to; the search of the identity store is one answer. `result` is what has
gone to `rd`, once it has. -/
structure StoreId (w : ℕ) where
  fsm : StoreIdFsm
  valid : Bool
  rs1Data : Word
  cs2 : Capability
  store : IdentityStore w
  mem : TaggedMemory
  hash : Digest
  hashIdx : ℕ
  currentAddress : Word
  result : Option Word

/-- What the units around the memory stage answer in a cycle. -/
structure StoreIdInput where
  isStalled : Bool
  idStore : Bool
  bus : Bool
deriving DecidableEq, Repr

namespace StoreId

variable {w : ℕ}

/-- The result goes to `rd`, and the instruction leaves the stage. -/
def finish (s : StoreId w) (result : Word) : StoreId w :=
  { s with
    fsm := .IDLE
    valid := false
    result := some result }

/-- `IDLE`: the buffer is checked. -/
def check (s : StoreId w) (i : StoreIdInput) : StoreId w :=
  if s.valid && !i.isStalled then
    if s.cs2.takesHash then
      { s with fsm := .GET_HASH }
    else s.finish 0
  else s

/-- `GET_HASH`: the digest is looked up. -/
def getHash (s : StoreId w) (i : StoreIdInput) : StoreId w :=
  if i.idStore then
    match s.store.getHash s.rs1Data with
    | some (some hash) =>
      { s with
        hash := hash
        hashIdx := 0
        currentAddress := s.cs2.address
        fsm := .STORE_HASH }
    | some none => s.finish 0
    | none => s
  else s

/-- `STORE_HASH`: one word of the digest. -/
def storeHash (cfg : MemConfig) (s : StoreId w) (i : StoreIdInput) : StoreId w :=
  if i.bus then
    let t := { s with mem := s.mem.storeWord cfg s.currentAddress (hashWord s.hash s.hashIdx) }
    if s.hashIdx = numHashWords - 1 then t.finish 1
    else
      { t with
        hashIdx := s.hashIdx + 1
        currentAddress := s.currentAddress + 4 }
  else s

end StoreId

/-- **The machine of `EStoreId`.** -/
def eStoreId {w : ℕ} (cfg : MemConfig) : SyncMachine (StoreId w) StoreIdInput Unit where
  step s i := (match s.fsm with
    | .IDLE => s.check i
    | .GET_HASH => s.getHash i
    | .STORE_HASH => s.storeHash cfg i, ())

/-- The memory after the first `k` words of a digest. -/
def storedWords (cfg : MemConfig) (m : TaggedMemory) (buffer : Word) (hash : Digest) :
    ℕ → TaggedMemory
  | 0 => m
  | k + 1 => (storedWords cfg m buffer hash k).storeWord cfg (buffer + BitVec.ofNat 32 (4 * k))
      (hashWord hash k)

namespace StoreId

variable {w : ℕ} {cfg : MemConfig} {b s : StoreId w}

/-- **What holds in each state of `storeIdFsm`**, of a run that started as
`b`. -/
def Storing (cfg : MemConfig) (b s : StoreId w) : Prop :=
  s.cs2 = b.cs2 ∧ s.store = b.store ∧ s.rs1Data = b.rs1Data
    ∧ match s.fsm with
      | .IDLE => (s.valid = true ∧ s.result = none ∧ s.mem = b.mem)
          ∨ s.valid = false ∧ (s.result = some 1 →
            ∃ hash, b.store.getHash b.rs1Data = some (some hash)
              ∧ s.mem = storedWords cfg b.mem b.cs2.address hash numHashWords)
      | .GET_HASH => s.result = none ∧ s.mem = b.mem
      | .STORE_HASH => s.result = none ∧ b.store.getHash b.rs1Data = some (some s.hash)
          ∧ s.hashIdx < numHashWords
          ∧ s.mem = storedWords cfg b.mem b.cs2.address s.hash s.hashIdx
          ∧ s.currentAddress = b.cs2.address + BitVec.ofNat 32 (4 * s.hashIdx)

/-- **One cycle keeps it.** -/
theorem Storing.step (h : b.Storing cfg s) (i : StoreIdInput) :
    b.Storing cfg ((eStoreId cfg).next s i) := by
  obtain ⟨hcs2, hstore, hrs1, h⟩ := h
  show b.Storing cfg (match s.fsm with
    | .IDLE => s.check i
    | .GET_HASH => s.getHash i
    | .STORE_HASH => s.storeHash cfg i)
  split at h
  · rename_i hf
    have hstay : b.Storing cfg s := ⟨hcs2, hstore, hrs1, by rw [hf]; exact h⟩
    unfold check
    split
    · rename_i hvalid
      obtain ⟨hv, hres, hmem⟩ | ⟨hv, -⟩ := h
      · split
        · exact ⟨hcs2, hstore, hrs1, hres, hmem⟩
        · exact ⟨hcs2, hstore, hrs1, Or.inr ⟨rfl, fun h => absurd (Option.some.inj h) (by decide)⟩⟩
      · rw [hv, Bool.false_and] at hvalid
        exact absurd hvalid Bool.false_ne_true
    · exact hstay
  · rename_i hf
    have hstay : b.Storing cfg s := ⟨hcs2, hstore, hrs1, by rw [hf]; exact h⟩
    unfold getHash
    split
    · split
      · rename_i hash hget
        rw [hstore, hrs1] at hget
        refine ⟨hcs2, hstore, hrs1, h.1, hget, Nat.zero_lt_succ 7, h.2, ?_⟩
        show s.cs2.address = _
        rw [hcs2]
        exact (BitVec.add_zero _).symm
      · exact ⟨hcs2, hstore, hrs1, Or.inr ⟨rfl, fun h => absurd (Option.some.inj h) (by decide)⟩⟩
      · exact hstay
    · exact hstay
  · rename_i hf
    have hstay : b.Storing cfg s := ⟨hcs2, hstore, hrs1, by rw [hf]; exact h⟩
    obtain ⟨hres, hget, hidx, hmem, haddr⟩ := h
    -- the word of this cycle
    have hword : s.mem.storeWord cfg s.currentAddress (hashWord s.hash s.hashIdx)
        = storedWords cfg b.mem b.cs2.address s.hash (s.hashIdx + 1) := by
      rw [hmem, haddr, storedWords]
    unfold storeHash
    split
    · simp only
      split
      · rename_i hlast
        refine ⟨hcs2, hstore, hrs1, Or.inr ⟨rfl, fun _ => ⟨s.hash, hget, ?_⟩⟩⟩
        show s.mem.storeWord cfg s.currentAddress (hashWord s.hash s.hashIdx) = _
        rw [hword, hlast]
        rfl
      · rename_i hne
        refine ⟨hcs2, hstore, hrs1, ?_⟩
        simp only [hf]
        refine ⟨hres, hget, by rw [numHashWords] at *; omega, hword, ?_⟩
        rw [haddr, InitData.address_next]
    · exact hstay

/-- **What is in memory when `EStoreId` has answered one**: the words of the
digest that the store gave, from the address of the buffer on. -/
theorem mem_of_run (hidle : b.fsm = .IDLE) (hvalid : b.valid = true) (hresult : b.result = none)
    {is : List StoreIdInput} (hend : ((eStoreId cfg).run b is).result = some 1) :
    ∃ hash, b.store.getHash b.rs1Data = some (some hash)
      ∧ ((eStoreId cfg).run b is).mem
        = storedWords cfg b.mem b.cs2.address hash numHashWords := by
  have hstep : ∀ s i, b.Storing cfg s → b.Storing cfg ((eStoreId cfg).next s i) :=
    fun s i h => h.step i
  have hfirst : b.Storing cfg b :=
    ⟨rfl, rfl, rfl, by rw [hidle]; exact Or.inl ⟨hvalid, hresult, rfl⟩⟩
  obtain ⟨-, -, -, h⟩ := SyncMachine.run_invariant_all _ hstep hfirst is
  split at h
  · obtain ⟨-, hnone, -⟩ | ⟨-, h⟩ := h
    · rw [hnone] at hend
      cases hend
    · exact h hend
  · rw [h.1] at hend
    cases hend
  · rw [h.1] at hend
    cases hend

end StoreId

/-! ### What is in memory -/

section Memory

variable {cfg : MemConfig} {m : TaggedMemory} {buffer : Word} {hash : Digest}

/-- The word a store of a word leaves. -/
theorem TaggedMemory.ram_storeWord (m : TaggedMemory) {a : Word} (hin : cfg.InMemory a)
    (data : Word) (n : ℕ) :
    (m.storeWord cfg a data).ram n = if n = a.toNat / 4 then data else m.ram n := by
  show MemBus.writeWord cfg m.ram ⟨a, true, data, 0b1111#4⟩ n = _
  unfold MemBus.writeWord
  rw [if_pos ⟨rfl, hin⟩, Function.update_apply, maskWrite_all]

/-- The words of a digest, from the word of the buffer on. -/
theorem ram_storedWords (hheld : TaggedMemory.Holds cfg buffer 32) {k : ℕ} (hk : k ≤ numHashWords)
    (n : ℕ) :
    (storedWords cfg m buffer hash k).ram n
      = if buffer.toNat / 4 ≤ n ∧ n < buffer.toNat / 4 + k then
          hashWord hash (n - buffer.toNat / 4)
        else m.ram n := by
  have hfits := cfg.fits
  obtain ⟨hstart, hend⟩ := hheld
  rw [numHashWords] at hk
  induction k with
  | zero => rw [if_neg (by omega), storedWords]
  | succ k ih =>
    have haddr : (buffer + BitVec.ofNat 32 (4 * k)).toNat = buffer.toNat + 4 * k := by
      rw [BitVec.toNat_add, BitVec.toNat_ofNat, Nat.mod_eq_of_lt (a := 4 * k) (by omega),
        Nat.mod_eq_of_lt (by omega)]
    rw [storedWords, TaggedMemory.ram_storeWord _ ⟨by omega, by omega⟩, haddr, ih (by omega)]
    by_cases hn : n = (buffer.toNat + 4 * k) / 4
    · rw [if_pos hn, if_pos (by omega), show n - buffer.toNat / 4 = k by omega]
    · rw [if_neg hn]
      by_cases hlt : buffer.toNat / 4 ≤ n ∧ n < buffer.toNat / 4 + k
      · rw [if_pos hlt, if_pos (by omega)]
      · rw [if_neg hlt, if_neg (by omega)]

/-- **The bytes of a digest, from the first byte of its first word on.** -/
theorem byteAt_storedWords (hheld : TaggedMemory.Holds cfg buffer 32) {i : ℕ} (hi : i < 32) :
    (storedWords cfg m buffer hash numHashWords).byteAt (4 * (buffer.toNat / 4) + i)
      = digestByte hash i := by
  unfold TaggedMemory.byteAt
  rw [ram_storedWords hheld (le_refl numHashWords), if_pos (by rw [numHashWords]; omega),
    show (4 * (buffer.toNat / 4) + i) / 4 - buffer.toNat / 4 = i / 4 by omega,
    show (4 * (buffer.toNat / 4) + i) % 4 = i % 4 by omega]
  have hword : hashWord hash (i / 4)
      = swapBytes (hash.extractLsb' (224 - 32 * (i / 4)) 32) := by
    show swapBytes (hash.extractLsb' (32 * (numHashWords - 1 - i / 4)) 32) = _
    rw [numHashWords, show 32 * (8 - 1 - i / 4) = 224 - 32 * (i / 4) by omega]
  rw [hword, extractLsb'_swapBytes_digest hash (by omega) (Nat.mod_lt i (by decide)),
    show 4 * (i / 4) + i % 4 = i by omega]

/-- A byte behind the words is what it was. -/
theorem byteAt_storedWords_of_ge (hheld : TaggedMemory.Holds cfg buffer 32) {a : ℕ}
    (ha : 4 * (buffer.toNat / 4) + 32 ≤ a) :
    (storedWords cfg m buffer hash numHashWords).byteAt a = m.byteAt a := by
  unfold TaggedMemory.byteAt
  rw [ram_storedWords hheld (le_refl numHashWords), if_neg (by rw [numHashWords]; omega)]

end Memory

namespace StoreId

variable {w : ℕ} {b : StoreId w}

/-- Everything answers at once. -/
def promptInput : StoreIdInput := ⟨false, true, true⟩

/-- **A digest that is there is written in the end.** -/
theorem exists_run (cfg : MemConfig) (hidle : b.fsm = .IDLE) (hvalid : b.valid = true)
    (htakes : b.cs2.takesHash = true) {hash : Digest}
    (hget : b.store.getHash b.rs1Data = some (some hash)) :
    ∃ is, ((eStoreId cfg).run b is).result = some 1 := by
  have hcheck : (eStoreId cfg).next b promptInput = { b with fsm := .GET_HASH } := by
    show (match b.fsm with
      | .IDLE => b.check promptInput
      | .GET_HASH => b.getHash promptInput
      | .STORE_HASH => b.storeHash cfg promptInput) = _
    rw [hidle]
    show b.check promptInput = _
    unfold check
    rw [hvalid, htakes]
    rfl
  have hlook : (eStoreId cfg).next { b with fsm := .GET_HASH } promptInput = { b with
      hash := hash
      hashIdx := 0
      currentAddress := b.cs2.address
      fsm := .STORE_HASH } := by
    show StoreId.getHash { b with fsm := .GET_HASH } promptInput = _
    simp only [getHash, promptInput, hget, if_true]
  refine ⟨promptInput :: promptInput :: List.replicate 8 promptInput, ?_⟩
  rw [SyncMachine.run_cons, hcheck, SyncMachine.run_cons, hlook]
  rfl

end StoreId

/-! ## The two together -/

/-- **A section is attested**: whatever its bytes and whatever the cycles the
units let pass, the bytes that `EStoreId` leaves in the buffer are those of the
digest of the section. The store is one that answers with the digest the engine
gave. -/
def AttestsSection (w : ℕ) (cfg : MemConfig) (digest : List Word → Digest)
    (sha256 : List (BitVec 8) → BitVec 256) (base length buffer : Word) : Prop :=
  ∀ (b : InitData w) (is : List InitDataInput) (u : StoreId w) (js : List StoreIdInput),
    b.fsm = .HASH_START → b.wb = none → b.cs1.base = base → b.cs1.length = length →
    ((eInitData cfg digest).run b is).fsm = .STORE_HASH →
    u.fsm = .IDLE → u.valid = true → u.result = none → u.cs2.address = buffer →
    u.store.getHash u.rs1Data
      = some (some (digest ((eInitData cfg digest).run b is).hashed)) →
    ((eStoreId cfg).run u js).result = some 1 →
      ∀ i < 32, ((eStoreId cfg).run u js).mem.byteAt (buffer.toNat + i)
        = digestByte (sha256 (b.mem.bytes base.toNat length.toNat)) i

section Attests

variable {w : ℕ} {cfg : MemConfig} {digest : List Word → Digest}
  {sha256 : List (BitVec 8) → BitVec 256} {base length buffer : Word}

/-- **A section of whole words is attested in a buffer of whole words.** -/
theorem attestsSection_of_aligned (hdigest : ∀ words, digest words = sha256 (words.flatMap beBytes))
    (hheld : TaggedMemory.Holds cfg base length.toNat) (hpos : 0 < length.toNat)
    (hmod : length.toNat % 4 = 0) (hbuf : TaggedMemory.Holds cfg buffer 32)
    (hbase : base.toNat % 4 = 0) (hword : buffer.toNat % 4 = 0) :
    AttestsSection w cfg digest sha256 base length buffer := by
  intro b is u js hstart hwb hb hl hend hidle hvalid hres haddr hget hone i hi
  subst hb hl haddr
  obtain ⟨hash, hget', hmem⟩ := StoreId.mem_of_run hidle hvalid hres hone
  have hhash := Option.some.inj (Option.some.inj (hget'.symm.trans hget))
  rw [hmem, show u.cs2.address.toNat + i = 4 * (u.cs2.address.toNat / 4) + i by omega,
    byteAt_storedWords hbuf hi, hhash, InitData.hashed_of_run hheld hpos hmod hstart hwb hend,
    hdigest, flatMap_hashedWords]
  rw [show 4 * (b.cs1.base.toNat / 4) = b.cs1.base.toNat by omega,
    show 4 * (b.cs1.length.toNat / 4) = b.cs1.length.toNat by omega]

/-! ### Sections and buffers that do not start at a word -/

/-- The memory with these bytes. -/
def memOfBytes (c : ℕ → BitVec 8) : TaggedMemory where
  tags := fun _ => false
  ram := fun k => c (4 * k + 3) ++ c (4 * k + 2) ++ c (4 * k + 1) ++ c (4 * k)

theorem byteAt_memOfBytes (c : ℕ → BitVec 8) (a : ℕ) : (memOfBytes c).byteAt a = c a := by
  have hbyte : ∀ (x₃ x₂ x₁ x₀ : BitVec 8) (j : ℕ), j < 4 →
      (x₃ ++ x₂ ++ x₁ ++ x₀).extractLsb' (8 * j) 8 = [x₀, x₁, x₂, x₃][j]?.getD 0 := by
    intro x₃ x₂ x₁ x₀ j hj
    apply BitVec.eq_of_getLsbD_eq
    intro k hk
    simp only [BitVec.getLsbD_extractLsb', BitVec.getLsbD_append]
    obtain rfl | rfl | rfl | rfl : j = 0 ∨ j = 1 ∨ j = 2 ∨ j = 3 := by omega
    · simp; grind
    · simp; grind
    · simp; grind
    · simp; grind
  show (c (4 * (a / 4) + 3) ++ c (4 * (a / 4) + 2) ++ c (4 * (a / 4) + 1)
    ++ c (4 * (a / 4))).extractLsb' (8 * (a % 4)) 8 = c a
  rw [hbyte _ _ _ _ _ (Nat.mod_lt a (by decide))]
  obtain h | h | h | h : a % 4 = 0 ∨ a % 4 = 1 ∨ a % 4 = 2 ∨ a % 4 = 3 := by omega
  · rw [h]
    exact congrArg c (by omega)
  · rw [h]
    exact congrArg c (by omega)
  · rw [h]
    exact congrArg c (by omega)
  · rw [h]
    exact congrArg c (by omega)

theorem bytes_memOfBytes (c : ℕ → BitVec 8) (base n : ℕ) :
    (memOfBytes c).bytes base n = (List.range n).map (fun i => c (base + i)) :=
  List.map_congr_left fun i _ => byteAt_memOfBytes c (base + i)

/-- A core that starts to hash a section in a memory. -/
def hashingCore (w : ℕ) (base length : Word) (m : TaggedMemory) : InitData w where
  fsm := .HASH_START
  valid := true
  rd := 1
  rs1 := 2
  rs2 := 3
  cap :=
    { regs := fun _ => { Capability.root with
        base := base
        length := length }
      scrs := fun _ => .null
      pcc := .root
      store := .reset 1 1 }
  mem := m
  wb := none
  scan := []
  currentReg := 0
  sweepAddress := 0
  currentAddress := 0
  currentWord := 0
  hashed := []
  currentEid := .setInvalid

/-- A core that starts to store a digest at a buffer. -/
def storingCore (w : ℕ) (buffer : Word) (hash : Digest) (m : TaggedMemory) : StoreId w where
  fsm := .IDLE
  valid := true
  rs1Data := 0
  cs2 :=
    { Capability.root with
      base := buffer
      length := 32 }
  store := ⟨1, 0, [⟨true, true, .assignFromOtype (0 : Word), hash⟩]⟩
  mem := m
  hash := 0
  hashIdx := 0
  currentAddress := 0
  result := none

theorem getHash_storingCore (w : ℕ) (buffer : Word) (hash : Digest) (m : TaggedMemory) :
    (storingCore w buffer hash m).store.getHash (storingCore w buffer hash m).rs1Data
      = some (some hash) := by
  have hvalid : (EnclaveId.assignFromOtype (0 : Word) : EnclaveId w).valid = true :=
    decide_eq_true (Nat.zero_le (2 ^ w - 1))
  show IdentityStore.getHash _ (0 : Word) = _
  simp only [IdentityStore.getHash, hvalid, storingCore, if_true, List.find?_cons, decide_true,
    Bool.and_self]

theorem takesHash_storingCore (w : ℕ) (buffer : Word) (hash : Digest) (m : TaggedMemory) :
    (storingCore w buffer hash m).cs2.takesHash = true := by
  show (!(ObjectType.isSealed .unsealed) && true && decide (32#32 ≤ 32#32 - 0#32)) = true
  decide

/-- **What a section and a buffer give, where they are attested**: the words of
the section's memory, stored in any memory, are its digest. -/
theorem AttestsSection.byteAt_eq (h : AttestsSection w cfg digest sha256 base length buffer)
    (hheld : TaggedMemory.Holds cfg base length.toNat) (hpos : 0 < length.toNat)
    (hmod : length.toNat % 4 = 0) (m m' : TaggedMemory) {i : ℕ} (hi : i < 32) :
    (storedWords cfg m' buffer
        (digest (hashedWords m base.toNat (length.toNat / 4))) numHashWords).byteAt
          (buffer.toNat + i)
      = digestByte (sha256 (m.bytes base.toNat length.toNat)) i := by
  obtain ⟨is, his⟩ := InitData.exists_run (s := hashingCore w base length m) cfg digest rfl rfl
    hpos hmod
  have hhashed := InitData.hashed_of_run (b := hashingCore w base length m) hheld hpos hmod rfl rfl
    his
  -- the store that answers with this digest
  let u := storingCore w buffer (digest (hashedWords m base.toNat (length.toNat / 4))) m'
  have hget := getHash_storingCore w buffer
    (digest (hashedWords m base.toNat (length.toNat / 4))) m'
  have haddr : u.cs2.address = buffer := BitVec.add_zero buffer
  obtain ⟨js, hjs⟩ := StoreId.exists_run (b := u) cfg rfl rfl (takesHash_storingCore _ _ _ _) hget
  obtain ⟨hash, hget', hmem⟩ := StoreId.mem_of_run (b := u) rfl rfl rfl hjs
  have hfin := h _ is u js rfl rfl rfl rfl his rfl rfl rfl haddr (by rw [hhashed]; exact hget) hjs
    i hi
  rw [hmem, ← Option.some.inj (Option.some.inj (hget.symm.trans hget')), haddr] at hfin
  exact hfin

/-- **When a section is attested**: exactly when it starts at a word and its
buffer does, if the digest depends on the last byte of a section. -/
theorem attestsSection_iff (hdigest : ∀ words, digest words = sha256 (words.flatMap beBytes))
    (hheld : TaggedMemory.Holds cfg base length.toNat) (hpos : 0 < length.toNat)
    (hmod : length.toNat % 4 = 0) (hbuf : TaggedMemory.Holds cfg buffer 32)
    (hlast : Counts sha256 length.toNat (length.toNat - 1)) :
    AttestsSection w cfg digest sha256 base length buffer
      ↔ base.toNat % 4 = 0 ∧ buffer.toNat % 4 = 0 := by
  constructor
  · intro h
    have hbyte := h.byteAt_eq hheld hpos hmod
    constructor
    · by_contra hbase
      obtain ⟨c, d, heq, hne⟩ := hlast
      -- two sections that differ in the last byte alone, which is not hashed
      have hsame :
          hashedWords (memOfBytes fun a => c (a - base.toNat)) base.toNat (length.toNat / 4)
          = hashedWords (memOfBytes fun a => d (a - base.toNat)) base.toNat (length.toNat / 4) := by
        refine List.map_congr_left fun j hj => ?_
        have hlt := List.mem_range.1 hj
        show endiannessSwap (c _ ++ c _ ++ c _ ++ c _) = endiannessSwap (d _ ++ d _ ++ d _ ++ d _)
        rw [heq _ (by omega), heq _ (by omega), heq _ (by omega), heq _ (by omega)]
      have hbytes : ∀ f : ℕ → BitVec 8, (memOfBytes fun a => f (a - base.toNat)).bytes base.toNat
          length.toNat = (List.range length.toNat).map f := by
        intro f
        rw [bytes_memOfBytes]
        exact List.map_congr_left fun i _ => by rw [Nat.add_sub_cancel_left]
      refine hne (eq_of_digestByte fun n hn => ?_)
      have hc := hbyte (memOfBytes fun a => c (a - base.toNat)) (memOfBytes fun _ => 0) hn
      have hd := hbyte (memOfBytes fun a => d (a - base.toNat)) (memOfBytes fun _ => 0) hn
      rw [hbytes] at hc hd
      rw [← hc, ← hd, hsame]
    · by_contra hword
      -- the last byte of the buffer is not written
      have hkeep : ∀ x : BitVec 8, x = digestByte (sha256
          ((memOfBytes fun _ => 0).bytes base.toNat length.toNat)) 31 := by
        intro x
        rw [← hbyte (memOfBytes fun _ => 0) (memOfBytes fun _ => x) (by decide : 31 < 32),
          byteAt_storedWords_of_ge hbuf (by omega), byteAt_memOfBytes]
      exact absurd ((hkeep 0).trans (hkeep 1).symm) (by decide)
  · rintro ⟨hbase, hword⟩
    exact attestsSection_of_aligned hdigest hheld hpos hmod hbuf hbase hword

end Attests

end Proteus
