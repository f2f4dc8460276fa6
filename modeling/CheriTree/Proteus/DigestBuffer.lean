import CheriTree.Proteus.SectionHash

/-!
# The buffer `EStoreId` writes to

`EStoreId` stores the eight words of a digest from the address of a capability
on. The capability is looked at once, before the digest is asked for: it is not
sealed, has the permission to store, and its length less its offset, as an
unsigned word, is 32 or more. That difference says little about where the
address is. An offset past the length or below zero makes it large; and neither
the tag nor the two low bits of the address take part.

So a write is issued wherever this test is passed and a digest is found, and
the writes are those of the buffer exactly where the capability is tagged and
the 32 bytes at its address are its own, whole words, and do not pass the end
of the address space. That the words are written all or not at all holds
whatever the capability.
-/

namespace Proteus

/-- **A capability authorises the store of a digest** at its address. -/
structure Capability.AuthorisesDigest (c : Capability) : Prop where
  tag : c.tag = true
  isSealed : c.isSealed = false
  store : c.perms.store = true
  within : ByteRange.Within ⟨c.address.toNat, 32⟩ c.range

/-- The test of `EStoreId`. -/
theorem Capability.takesHash_iff {c : Capability} :
    c.takesHash = true ↔ c.isSealed = false ∧ c.perms.store = true
      ∧ 32#32 ≤ c.length - c.offset := by
  unfold Capability.takesHash
  rw [Bool.and_eq_true, Bool.and_eq_true, Bool.not_eq_true', decide_eq_true_iff, and_assoc]

namespace StoreId

variable {w : ℕ} (cfg : MemConfig)

/-! ## The writes of a run -/

/-- `EStoreId` enters the memory stage. -/
structure Starts (b : StoreId w) : Prop where
  fsm : b.fsm = .IDLE
  valid : b.valid = true
  result : b.result = none

/-- The address of the bus write of a cycle, taken or not. -/
def issues (s : StoreId w) : Option Word :=
  if s.fsm = .STORE_HASH then some s.currentAddress else none

/-- The word the bus takes in a cycle, with its address. -/
def takes (s : StoreId w) (i : StoreIdInput) : Option (Word × Word) :=
  if s.fsm = .STORE_HASH ∧ i.bus = true then
    some (s.currentAddress, hashWord s.hash s.hashIdx)
  else none

/-- **The words a run writes**, in order. -/
def written (b : StoreId w) : List StoreIdInput → List (Word × Word)
  | [] => []
  | i :: is => (b.takes i).toList ++ written ((eStoreId cfg).next b i) is

/-- **`EStoreId` writes only inside its buffer**: whatever run it takes, a write
is issued for a whole word of the 32 bytes at the address, and with authority
over all of them; and the words are all written where the result is one, and
none of them where it is zero. -/
structure WritesInside (b : StoreId w) : Prop where
  aligned : ∀ is a, ((eStoreId cfg).run b is).issues = some a → a.toNat % 4 = 0
  inside : ∀ is a, ((eStoreId cfg).run b is).issues = some a →
    ByteRange.Within ⟨a.toNat, 4⟩ ⟨b.cs2.address.toNat, 32⟩
  authorised : ∀ is a, ((eStoreId cfg).run b is).issues = some a → b.cs2.AuthorisesDigest
  all : ∀ is, ((eStoreId cfg).run b is).result = some 1 →
    ∃ hash, b.store.getHash b.rs1Data = some (some hash)
      ∧ b.written cfg is = hashStores b.cs2.address hash
  none : ∀ is, ((eStoreId cfg).run b is).result = some 0 → b.written cfg is = []

/-- **The capability is a buffer for a digest**: besides what the test asks for
it is tagged, and the 32 bytes are its own, in whole words, and end in the
address space. -/
structure IsBuffer (c : Capability) : Prop where
  tag : c.tag = true
  within : ByteRange.Within ⟨c.address.toNat, 32⟩ c.range
  aligned : c.address.toNat % 4 = 0
  fits : c.address.toNat + 32 ≤ 2 ^ 32

/-! ## What has been written -/

/-- The first `k` words of a digest, with their addresses. -/
def firstStores (address : Word) (hash : Digest) (k : ℕ) : List (Word × Word) :=
  (List.range k).map fun idx => (address + 4 * BitVec.ofNat 32 idx, hashWord hash idx)

theorem firstStores_succ (address : Word) (hash : Digest) (k : ℕ) :
    firstStores address hash (k + 1) = firstStores address hash k
      ++ [(address + 4 * BitVec.ofNat 32 k, hashWord hash k)] := by
  rw [firstStores, List.range_succ, List.map_append]
  rfl

/-- **What has been written**, of a run that started as `b`. -/
structure Writing (b s : StoreId w) (ws : List (Word × Word)) : Prop where
  cs2 : s.cs2 = b.cs2
  store : s.store = b.store
  rs1Data : s.rs1Data = b.rs1Data
  written : match s.fsm with
    | .IDLE => s.valid = true ∧ s.result = none ∧ ws = []
        ∨ s.valid = false ∧ s.result = some 0 ∧ ws = []
        ∨ s.valid = false ∧ s.result = some 1 ∧ ∃ hash,
          b.store.getHash b.rs1Data = some (some hash) ∧ ws = hashStores b.cs2.address hash
    | .GET_HASH => b.cs2.takesHash = true ∧ s.result = none ∧ ws = []
    | .STORE_HASH => b.cs2.takesHash = true ∧ s.result = none
        ∧ b.store.getHash b.rs1Data = some (some s.hash) ∧ s.hashIdx < numHashWords
        ∧ ws = firstStores b.cs2.address s.hash s.hashIdx
        ∧ s.currentAddress = b.cs2.address + 4 * BitVec.ofNat 32 s.hashIdx

variable {cfg} {b s : StoreId w} {ws : List (Word × Word)}

/-- The next word is four bytes on. -/
theorem address_succ (address : Word) (k : ℕ) :
    address + 4 * BitVec.ofNat 32 k + 4 = address + 4 * BitVec.ofNat 32 (k + 1) := by
  rw [BitVec.add_assoc, BitVec.ofNat_add, BitVec.mul_add]
  rfl

/-- **One cycle**: what it writes is the next word. -/
theorem Writing.next (h : b.Writing s ws) (i : StoreIdInput) :
    b.Writing ((eStoreId cfg).next s i) (ws ++ (s.takes i).toList) := by
  obtain ⟨hcs2, hstore, hrs1, h⟩ := h
  show b.Writing (match s.fsm with
    | .IDLE => s.check i
    | .GET_HASH => s.getHash i
    | .STORE_HASH => s.storeHash cfg i) _
  split at h
  · rename_i hf
    have htakes : s.takes i = Option.none := by
      rw [takes, hf, if_neg (fun hno => by cases hno.1)]
    rw [htakes, Option.toList_none, List.append_nil]
    have hstay : b.Writing s ws := ⟨hcs2, hstore, hrs1, by rw [hf]; exact h⟩
    unfold check
    split
    · rename_i hvalid
      rw [Bool.and_eq_true] at hvalid
      rcases h with ⟨-, hres, hws⟩ | ⟨hv, -⟩ | ⟨hv, -⟩
      · split
        · rename_i htest
          rw [hcs2] at htest
          exact ⟨hcs2, hstore, hrs1, htest, hres, hws⟩
        · exact ⟨hcs2, hstore, hrs1, Or.inr (Or.inl ⟨rfl, rfl, hws⟩)⟩
      · rw [hv] at hvalid
        cases hvalid.1
      · rw [hv] at hvalid
        cases hvalid.1
    · exact hstay
  · rename_i hf
    have htakes : s.takes i = Option.none := by
      rw [takes, hf, if_neg (fun hno => by cases hno.1)]
    rw [htakes, Option.toList_none, List.append_nil]
    have hstay : b.Writing s ws := ⟨hcs2, hstore, hrs1, by rw [hf]; exact h⟩
    obtain ⟨htest, hres, hws⟩ := h
    unfold getHash
    split
    · split
      · rename_i hash hget
        rw [hstore, hrs1] at hget
        refine ⟨hcs2, hstore, hrs1, htest, hres, hget, Nat.zero_lt_succ 7, hws, ?_⟩
        show s.cs2.address = _
        rw [hcs2]
        exact (BitVec.add_zero _).symm
      · exact ⟨hcs2, hstore, hrs1, Or.inr (Or.inl ⟨rfl, rfl, hws⟩)⟩
      · exact hstay
    · exact hstay
  · rename_i hf
    have hstay : b.Writing s ws := ⟨hcs2, hstore, hrs1, by rw [hf]; exact h⟩
    obtain ⟨htest, hres, hget, hidx, hws, haddr⟩ := h
    have htakes : s.takes i
        = if i.bus = true then some (s.currentAddress, hashWord s.hash s.hashIdx)
          else Option.none := by
      rw [takes]
      simp only [hf, true_and]
    rw [htakes]
    unfold storeHash
    by_cases hbus : i.bus = true
    · have hws' : ws ++ [(s.currentAddress, hashWord s.hash s.hashIdx)]
          = firstStores b.cs2.address s.hash (s.hashIdx + 1) := by
        rw [firstStores_succ, hws, haddr]
      rw [if_pos hbus, if_pos hbus, Option.toList_some, hws']
      simp only
      split
      · rename_i hlast
        refine ⟨hcs2, hstore, hrs1, Or.inr (Or.inr ⟨rfl, rfl, s.hash, hget, ?_⟩)⟩
        rw [hlast]
        rfl
      · rename_i hne
        refine ⟨hcs2, hstore, hrs1, ?_⟩
        simp only [hf]
        refine ⟨htest, hres, hget, by rw [numHashWords] at *; omega, trivial, ?_⟩
        rw [haddr, address_succ]
    · rw [if_neg hbus, if_neg hbus, Option.toList_none, List.append_nil]
      exact hstay

/-- **A run**: what it writes is what has been written. -/
theorem Writing.run (h : b.Writing s ws) (is : List StoreIdInput) :
    b.Writing ((eStoreId cfg).run s is) (ws ++ s.written cfg is) := by
  induction is generalizing s ws with
  | nil =>
    rw [StoreId.written, List.append_nil]
    exact h
  | cons i is ih =>
    rw [SyncMachine.run_cons, StoreId.written, ← List.append_assoc]
    exact ih (h.next i)

theorem Starts.writing (hs : b.Starts) : b.Writing b [] where
  cs2 := rfl
  store := rfl
  rs1Data := rfl
  written := by
    rw [hs.fsm]
    exact Or.inl ⟨hs.valid, hs.result, rfl⟩

/-- What has been written when a write is issued. -/
theorem Writing.issued (h : b.Writing s ws) {a : Word} (ha : s.issues = some a) :
    b.cs2.takesHash = true ∧ (∃ hash, b.store.getHash b.rs1Data = some (some hash))
      ∧ ∃ k < numHashWords, a = b.cs2.address + 4 * BitVec.ofNat 32 k := by
  unfold issues at ha
  split at ha
  · rename_i hf
    have hw := h.written
    rw [hf] at hw
    obtain ⟨htest, -, hget, hidx, -, haddr⟩ := hw
    exact ⟨htest, ⟨s.hash, hget⟩, s.hashIdx, hidx, (Option.some.inj ha).symm.trans haddr⟩
  · cases ha

/-- What has been written once there is a result. -/
theorem Writing.ended (h : b.Writing s ws) {v : Word} (hv : s.result = some v) :
    v = 0 ∧ ws = [] ∨ v = 1 ∧ ∃ hash, b.store.getHash b.rs1Data = some (some hash)
      ∧ ws = hashStores b.cs2.address hash := by
  have hw := h.written
  split at hw
  · rcases hw with ⟨-, hres, -⟩ | ⟨-, hres, hws⟩ | ⟨-, hres, hws⟩
    · rw [hres] at hv
      cases hv
    · rw [hres] at hv
      exact Or.inl ⟨(Option.some.inj hv).symm, hws⟩
    · rw [hres] at hv
      exact Or.inr ⟨(Option.some.inj hv).symm, hws⟩
  · rw [hw.2.1] at hv
    cases hv
  · rw [hw.2.1] at hv
    cases hv

/-! ## Which writes are issued -/

/-- **Every word is issued** in the run in which all units answer at once. -/
theorem Starts.run_prompt (hs : b.Starts) (htest : b.cs2.takesHash = true) {hash : Digest}
    (hget : b.store.getHash b.rs1Data = some (some hash)) {k : ℕ} (hk : k < numHashWords) :
    ∃ is, ((eStoreId cfg).run b is).fsm = .STORE_HASH
      ∧ ((eStoreId cfg).run b is).hashIdx = k
      ∧ ((eStoreId cfg).run b is).currentAddress = b.cs2.address + 4 * BitVec.ofNat 32 k := by
  induction k with
  | zero =>
    have hcheck : (eStoreId cfg).next b promptInput = { b with fsm := .GET_HASH } := by
      show (match b.fsm with
        | .IDLE => b.check promptInput
        | .GET_HASH => b.getHash promptInput
        | .STORE_HASH => b.storeHash cfg promptInput) = _
      rw [hs.fsm]
      show b.check promptInput = _
      unfold check
      rw [hs.valid, htest]
      rfl
    have hlook : (eStoreId cfg).next { b with fsm := .GET_HASH } promptInput = { b with
        hash := hash
        hashIdx := 0
        currentAddress := b.cs2.address
        fsm := .STORE_HASH } := by
      show StoreId.getHash { b with fsm := .GET_HASH } promptInput = _
      simp only [getHash, promptInput, hget, if_true]
    refine ⟨[promptInput, promptInput], ?_⟩
    rw [SyncMachine.run_cons, SyncMachine.run_cons, SyncMachine.run_nil, hcheck, hlook]
    exact ⟨rfl, rfl, (BitVec.add_zero _).symm⟩
  | succ k ih =>
    obtain ⟨is, hf, hidx, haddr⟩ := ih (Nat.lt_of_succ_lt hk)
    refine ⟨is ++ [promptInput], ?_⟩
    have hlast : ((eStoreId cfg).run b is).hashIdx ≠ numHashWords - 1 := by
      rw [hidx, numHashWords]
      rw [numHashWords] at hk
      omega
    have hnext : (eStoreId cfg).next ((eStoreId cfg).run b is) promptInput
        = StoreId.storeHash cfg ((eStoreId cfg).run b is) promptInput := by
      show (match ((eStoreId cfg).run b is).fsm with
        | .IDLE => StoreId.check _ promptInput
        | .GET_HASH => StoreId.getHash _ promptInput
        | .STORE_HASH => StoreId.storeHash cfg _ promptInput) = _
      rw [hf]
    rw [SyncMachine.run_append, SyncMachine.run_cons, SyncMachine.run_nil, hnext, storeHash,
      if_pos (show promptInput.bus = true from rfl)]
    simp only
    rw [if_neg hlast]
    exact ⟨hf, by rw [hidx], by rw [haddr, address_succ]⟩

theorem Starts.issues_prompt (hs : b.Starts) (htest : b.cs2.takesHash = true) {hash : Digest}
    (hget : b.store.getHash b.rs1Data = some (some hash)) {k : ℕ} (hk : k < numHashWords) :
    ∃ is, ((eStoreId cfg).run b is).issues = some (b.cs2.address + 4 * BitVec.ofNat 32 k) := by
  obtain ⟨is, hf, -, haddr⟩ : ∃ is, ((eStoreId cfg).run b is).fsm = .STORE_HASH
      ∧ ((eStoreId cfg).run b is).hashIdx = k
      ∧ ((eStoreId cfg).run b is).currentAddress = b.cs2.address + 4 * BitVec.ofNat 32 k :=
    hs.run_prompt htest hget hk
  refine ⟨is, ?_⟩
  rw [issues, hf, if_pos rfl, haddr]

/-- The address of a word of a buffer. -/
theorem IsBuffer.toNat_word {c : Capability} (h : IsBuffer c) {k : ℕ} (hk : k < numHashWords) :
    (c.address + 4 * BitVec.ofNat 32 k).toNat = c.address.toNat + 4 * k := by
  have hfits := h.fits
  have hfour : (4 : Word).toNat = 4 := rfl
  rw [numHashWords] at hk
  rw [BitVec.toNat_add, BitVec.toNat_mul, BitVec.toNat_ofNat, hfour]
  omega

end StoreId

/-- **`EStoreId` writes only inside its buffer exactly when a capability that
passes its test is one**, wherever a digest is found. -/
theorem eStoreId_writesInside_iff {w : ℕ} (cfg : MemConfig) (b : StoreId w) (hs : b.Starts) :
    b.WritesInside cfg ↔ (b.cs2.takesHash = true →
      (∃ hash, b.store.getHash b.rs1Data = some (some hash)) → StoreId.IsBuffer b.cs2) := by
  constructor
  · rintro h htest ⟨hash, hget⟩
    have hissue : ∀ k, k < numHashWords → ∃ is, ((eStoreId cfg).run b is).issues
        = some (b.cs2.address + 4 * BitVec.ofNat 32 k) :=
      fun k hk => hs.issues_prompt htest hget hk
    obtain ⟨is, hfirst⟩ := hissue 0 (by decide)
    obtain ⟨js, hlast⟩ := hissue 7 (by decide)
    have hauth := h.authorised is _ hfirst
    have haligned := h.aligned is _ hfirst
    rw [show b.cs2.address + 4 * BitVec.ofNat 32 0 = b.cs2.address from BitVec.add_zero _]
      at haligned
    refine ⟨hauth.tag, hauth.within, haligned, ?_⟩
    -- the last word is not below the first, so the addresses have not wrapped
    have hinside := (ByteRange.within_iff.1 (h.inside js _ hlast)).resolve_left (Nat.succ_ne_zero 3)
    have hlt := b.cs2.address.isLt
    have height : (4 * BitVec.ofNat 32 7 : Word).toNat = 28 := rfl
    have hle := hinside.1
    rw [show (ByteRange.mk (b.cs2.address + 4 * BitVec.ofNat 32 7).toNat 4).base
      = (b.cs2.address + 4 * BitVec.ofNat 32 7).toNat from rfl, BitVec.toNat_add, height] at hle
    change b.cs2.address.toNat ≤ _ at hle
    omega
  · intro h
    have hwriting : ∀ is, b.Writing ((eStoreId cfg).run b is) (b.written cfg is) :=
      fun is => hs.writing.run is
    have hbuffer : ∀ is a, ((eStoreId cfg).run b is).issues = some a →
        b.cs2.takesHash = true ∧ StoreId.IsBuffer b.cs2
          ∧ ∃ k < numHashWords, a = b.cs2.address + 4 * BitVec.ofNat 32 k := by
      intro is a ha
      obtain ⟨htest, hfound, hk⟩ := (hwriting is).issued ha
      exact ⟨htest, h htest hfound, hk⟩
    refine ⟨?_, ?_, ?_, ?_, ?_⟩
    · intro is a ha
      obtain ⟨-, hb, k, hk, rfl⟩ := hbuffer is a ha
      rw [hb.toNat_word hk]
      have := hb.aligned
      omega
    · intro is a ha
      obtain ⟨-, hb, k, hk, rfl⟩ := hbuffer is a ha
      rw [numHashWords] at hk
      rw [hb.toNat_word (by rw [numHashWords]; exact hk)]
      refine ByteRange.within_iff.2 (Or.inr ⟨?_, ?_⟩)
      · exact Nat.le_add_right _ _
      · show b.cs2.address.toNat + 4 * k + 4 ≤ b.cs2.address.toNat + 32
        omega
    · intro is a ha
      obtain ⟨htest, hb, -⟩ := hbuffer is a ha
      obtain ⟨hseal, hstore, -⟩ := Capability.takesHash_iff.1 htest
      exact ⟨hb.tag, hseal, hstore, hb.within⟩
    · intro is hres
      rcases (hwriting is).ended hres with ⟨hv, -⟩ | ⟨-, hall⟩
      · exact absurd hv (by decide)
      · exact hall
    · intro is hres
      rcases (hwriting is).ended hres with ⟨-, hnone⟩ | ⟨hv, -⟩
      · exact hnone
      · exact absurd hv (by decide)

/-! ### A buffer, and a capability past its end -/

namespace StoreId

/-- A memory of eight granules. -/
def digestMemory : MemConfig := ⟨0x80000000, 8, by decide, MemConfig.aligned_ram, by decide⟩

/-- `EStoreId` enters the memory stage for the only enclave, a finished one,
with any capability. -/
def storing (c : Capability) : StoreId 4 where
  fsm := .IDLE
  valid := true
  rs1Data := 2
  cs2 := c
  store := ⟨4, 1, [⟨true, true, ⟨true, 0⟩, 0x5a⟩]⟩
  mem := ⟨fun _ => false, fun _ => 0⟩
  hash := 0
  hashIdx := 0
  currentAddress := 0
  result := none

theorem storing_starts (c : Capability) : (storing c).Starts := ⟨rfl, rfl, rfl⟩

/-- 32 bytes at a capability's base. -/
def wholeBuffer : Capability := ⟨true, 0x80000000, 32, 0, .allowAll, .unsealed⟩

/-- The same capability, moved past its end. -/
def pastBuffer : Capability :=
  { wholeBuffer with
    offset := 64 }

end StoreId

open StoreId in
/-- A digest is written inside the buffer it is given. -/
theorem storing_wholeBuffer : (storing wholeBuffer).WritesInside digestMemory :=
  (eStoreId_writesInside_iff digestMemory (storing wholeBuffer) (storing_starts _)).2
    (fun _ _ => ⟨rfl, by decide, by decide, by decide⟩)

open StoreId in
/-- **A digest is written past the end of the capability.** Its offset is above
its length, and the difference of the two is large. -/
theorem storing_pastBuffer :
    (storing pastBuffer).Starts
      ∧ (storing pastBuffer).written digestMemory (List.replicate 10 promptInput)
        = hashStores 0x80000040 0x5a
      ∧ ((eStoreId digestMemory).run (storing pastBuffer) (List.replicate 10 promptInput)).result
        = some 1
      ∧ ¬ (storing pastBuffer).WritesInside digestMemory := by
  refine ⟨storing_starts _, by decide +kernel, by decide +kernel, fun h => ?_⟩
  have hauth := h.authorised [promptInput, promptInput] 0x80000040 (by decide +kernel)
  exact absurd hauth.within (by decide)

end Proteus
