import CheriTree.ByteOrder
import CheriTree.Morello.CallsReturn

/-!
# The identity of a section

The hypervisor hashes a code section byte by byte and writes the digest byte by
byte, so that no order has to be kept. The index of its loop is an `int`
though: in a section of more than two gigabytes it becomes negative, is past
every length as a `size_t`, and the bytes from there on are not hashed.
-/

namespace Morello

open ByteOrder

variable {b : Build}

/-! ## The bytes that are written -/

/-- The bytes written at different addresses are there in the end, and no other
byte has changed. -/
theorem byte_of_stores {memHash : Capability} {hash : HashVal} (l : List (Fin hashByteWidth))
    (hnodup : l.Nodup) {m m' : Memory}
    (h : l.foldlM (fun (m : Memory) i =>
      m.storeByte memHash (memHash.address + BitVec.ofNat 64 i.val) (hash i)) m = some m') :
    (∀ i ∈ l, m'.byte (memHash.address + BitVec.ofNat 64 i.val).toNat = hash i)
      ∧ ∀ a, (∀ i ∈ l, a ≠ (memHash.address + BitVec.ofNat 64 i.val).toNat) →
        m'.byte a = m.byte a := by
  induction l generalizing m with
  | nil =>
    rw [List.foldlM_nil] at h
    obtain rfl := Option.some.inj h
    exact ⟨fun i hi => absurd hi List.not_mem_nil, fun _ _ => rfl⟩
  | cons i l ih =>
    rw [List.foldlM_cons] at h
    unfold Memory.storeByte at h
    split at h
    · obtain ⟨hwritten, hrest⟩ := ih (List.nodup_cons.1 hnodup).2 h
      have hne : ∀ j ∈ l, (memHash.address + BitVec.ofNat 64 i.val).toNat
          ≠ (memHash.address + BitVec.ofNat 64 j.val).toNat := by
        intro j hj heq
        have hij := (BitVec.add_right_inj _).1 (BitVec.eq_of_toNat_eq heq)
        have hval := congrArg BitVec.toNat hij
        have hi : i.val < 32 := i.isLt
        have hj' : j.val < 32 := j.isLt
        rw [BitVec.toNat_ofNat, BitVec.toNat_ofNat] at hval
        obtain rfl : i = j := Fin.ext (by omega)
        exact (List.nodup_cons.1 hnodup).1 hj
      refine ⟨fun j hj => ?_, fun a ha => ?_⟩
      · obtain rfl | hj := List.mem_cons.1 hj
        · rw [hrest _ hne]
          exact Function.update_self _ _ _
        · exact hwritten j hj
      · rw [hrest a fun j hj => ha j (List.mem_cons_of_mem _ hj)]
        exact Function.update_of_ne (ha i List.mem_cons_self) _ _
    · cases h

/-- **The buffer holds the digest, byte by byte.** -/
theorem byte_of_storeHash {memHash : Capability} {hash : HashVal} {m m' : Memory}
    (h : storeHash memHash hash m = some m') (i : Fin hashByteWidth) :
    m'.byte (memHash.address + BitVec.ofNat 64 i.val).toNat = hash i :=
  (byte_of_stores _ (List.nodup_finRange _) h).1 i (List.mem_finRange i)

/-! ## The bytes that are not read -/

/-- The offset of an index in steps of four is not in the four bytes from two
gigabytes on. -/
theorem signExtend_add_ne {i : BitVec 32} (hi : i.toNat % numBytes = 0) {t : ℕ}
    (ht : t < numBytes) : i.signExtend 64 + BitVec.ofNat 64 t ≠ BitVec.ofNat 64 (2 ^ 31) := by
  intro h
  have hlt := i.isLt
  have hsext := signExtend_eq_hashOffset hlt
  rw [BitVec.ofNat_toNat, BitVec.setWidth_eq] at hsext
  have hval := congrArg BitVec.toNat h
  rw [hsext, BitVec.toNat_add, BitVec.toNat_ofNat, BitVec.toNat_ofNat, BitVec.toNat_ofNat] at hval
  rw [numBytes] at hi ht
  unfold hashOffset at hval
  split at hval
  · omega
  · omega

/-- A piece that does not have a byte is loaded alike in two memories that
differ there. -/
theorem loadBytes_congr {code : Capability} {m m' : Memory} {x a : Word}
    (hbyte : ∀ a, a ≠ x.toNat → m'.byte a = m.byte a)
    (hne : ∀ t < numBytes, a + BitVec.ofNat 64 t ≠ x) :
    loadBytes m' code a = loadBytes m code a := by
  have hload : ∀ t < numBytes, m'.loadByte code (a + BitVec.ofNat 64 t)
      = m.loadByte code (a + BitVec.ofNat 64 t) := by
    intro t ht
    unfold Memory.loadByte
    rw [hbyte _ fun heq => hne t ht (BitVec.eq_of_toNat_eq heq)]
  have hall : ∀ ks : List ℕ, (∀ t ∈ ks, t < numBytes) →
      ks.mapM (fun t => m'.loadByte code (a + BitVec.ofNat 64 t))
        = ks.mapM (fun t => m.loadByte code (a + BitVec.ofNat 64 t)) := by
    intro ks
    induction ks with
    | nil => exact fun _ => rfl
    | cons t ks ih =>
      intro h
      rw [List.mapM_cons, List.mapM_cons, hload t (h t List.mem_cons_self),
        ih fun t ht => h t (List.mem_cons_of_mem _ ht)]
  exact hall _ fun t ht => List.mem_range.1 ht

/-- **The loop does not read the byte at two gigabytes.** -/
theorem hashLoop_congr {lib : Sha256Lib} {code : Capability} {m m' : Memory}
    (hbyte : ∀ a, a ≠ (code.address + BitVec.ofNat 64 (2 ^ 31)).toNat → m'.byte a = m.byte a)
    (i : BitVec 32) (hi : i.toNat % numBytes = 0) (md : lib.State) :
    hashLoop lib m' code i md = hashLoop lib m code i md := by
  have hload : loadBytes m' code (code.address + i.signExtend 64)
      = loadBytes m code (code.address + i.signExtend 64) := by
    refine loadBytes_congr hbyte fun t ht heq => signExtend_add_ne hi ht ?_
    rw [BitVec.add_assoc] at heq
    exact (BitVec.add_right_inj _).1 heq
  -- the index stays a multiple of four when it wraps
  have hnext : (i + BitVec.ofNat 32 numBytes).toNat % numBytes = 0 := by
    rw [BitVec.toNat_add, BitVec.toNat_ofNat]
    rw [numBytes] at *
    omega
  rw [hashLoop, hashLoop.eq_1 lib m, hload]
  split
  · split
    · rfl
    · split
      · rfl
      · exact hashLoop_congr hbyte _ hnext _
  · rfl
termination_by 2 ^ 32 - i.toNat
decreasing_by
  have := i.isLt
  omega

/-! ## A section and its identity -/

/-- **A section is attested**: whatever its bytes and whatever was on the stack,
the bytes that `ESTORE_ID` leaves in a buffer are those of the digest of the
section. The store is one that answers with the digest `generateHash` made. -/
def AttestsSection (p : Platform b) (sha256 : List Byte → BitVec 256) (code : Capability) : Prop :=
  ∀ (m : Memory) (hashStruct hash : HashType) (s s' : IdentityStore b) (anyOtype : Word)
      (memHash : Capability) (m₁ m' : Memory),
    generateHash p.lib m hashStruct code = some hash →
    s.getHashEntry anyOtype = some hash.hash →
    estoreId p s anyOtype memHash m₁ = some (true, s', m') →
      ∀ i < hashByteWidth, m'.byte (memHash.address + BitVec.ofNat 64 i).toNat
        = digestByte (sha256 (m.bytesOf code.range)) i

section Attests

variable {p : Platform b} {sha256 : List Byte → BitVec 256} {code : Capability}

/-- What `ESTORE_ID` leaves, where it found a digest. -/
theorem byte_of_estoreId {s s' : IdentityStore b} {anyOtype : Word} {memHash : Capability}
    {hash : HashVal} {m m' : Memory} (hget : s.getHashEntry anyOtype = some hash)
    (h : estoreId p s anyOtype memHash m = some (true, s', m')) {i : ℕ} (hi : i < hashByteWidth) :
    m'.byte (memHash.address + BitVec.ofNat 64 i).toNat = hash ⟨i, hi⟩ := by
  unfold estoreId at h
  split at h
  · rw [hget] at h
    obtain ⟨m'', hstore, heq⟩ := Option.map_eq_some_iff.1 h
    obtain rfl : m'' = m' := congrArg (fun r => r.2.2) heq
    exact byte_of_storeHash hstore ⟨i, hi⟩
  · have hfst := congrArg Prod.fst (Option.some.inj h)
    exact absurd hfst Bool.false_ne_true

/-- **A section of whole words, of at most two gigabytes, is attested.** -/
theorem attestsSection_of_length_le
    (hsha : ∀ bytes (i : Fin hashByteWidth), p.lib.sha256 bytes i = digestByte (sha256 bytes) i)
    (h4 : code.length % numBytes = 0) (hlen : code.length ≤ 2 ^ 31) :
    AttestsSection p sha256 code := by
  intro m hashStruct hash s s' anyOtype memHash m₁ m' hhash hget hstore i hi
  rw [byte_of_estoreId hget hstore hi, generateHash_eq hlen h4 hhash, hsha]

/-- The store whose entries all have a digest. -/
def filledStore (b : Build) (hash : HashVal) : IdentityStore b where
  entries := fun i => ⟨i.val, true, true, assignIDFromOtype 0, hash⟩
  idCounter := 1

theorem getHashEntry_filledStore (hb : 0 < b.maxEntries) (hash : HashVal) :
    (filledStore b hash).getHashEntry 0 = some hash := by
  unfold IdentityStore.getHashEntry
  rcases hf : (filledStore b hash).firstEntry
    (fun e => e.used && e.ready && decide (e.id = assignIDFromOtype 0)) with _ | i
  · have hno := IdentityStore.firstEntry_none hf ⟨0, hb⟩
    exact absurd hno.symm Bool.false_ne_true
  · rfl

/-- A buffer for a digest. -/
def digestBuffer : Capability where
  tag := true
  base := 0
  length := hashByteWidth
  address := 0
  perms := ⟨true, true, false, false, false, false, false, false⟩
  otype := 0
  fits := fun _ => by decide

/-- **What a section gives, where it is attested**: the digest that
`generateHash` makes of it. -/
theorem AttestsSection.hash_eq (h : AttestsSection p sha256 code) (hb : 0 < b.maxEntries)
    {m : Memory} {hashStruct hash : HashType}
    (hhash : generateHash p.lib m hashStruct code = some hash) {i : ℕ} (hi : i < hashByteWidth) :
    hash.hash ⟨i, hi⟩ = digestByte (sha256 (m.bytesOf code.range)) i := by
  have hpass : bufferPasses digestBuffer = true := by decide
  have hget := getHashEntry_filledStore hb hash.hash
  have hfits : (storeHash digestBuffer hash.hash m).isSome = true :=
    (storeHash_isSome_iff hpass).2 ⟨rfl, by decide⟩
  obtain ⟨m', hm'⟩ := Option.isSome_iff_exists.1 hfits
  have hstore : estoreId p (filledStore b hash.hash) 0 digestBuffer m
      = some (true, p.afterWrite ⟨digestBuffer.address.toNat, hashByteWidth⟩ m'
        (filledStore b hash.hash), m') := by
    unfold estoreId
    rw [if_pos hpass, hget]
    show Option.map _ (storeHash _ _ _) = _
    rw [hm']
    rfl
  rw [← h m hashStruct hash _ _ 0 digestBuffer m m' hhash hget hstore i hi,
    byte_of_estoreId hget hstore hi]

/-- The memory with these bytes from an address on. -/
def memFrom (base : ℕ) (c : ℕ → Byte) : Memory where
  byte := fun a => c (a - base)
  cap := fun _ => invalidCap

theorem bytesOf_memFrom (base n : ℕ) (c : ℕ → Byte) :
    (memFrom base c).bytesOf ⟨base, n⟩ = (List.range n).map c := by
  refine List.map_congr_left fun i _ => ?_
  show c (base + i - base) = c i
  rw [Nat.add_sub_cancel_left]

/-- A section of the whole address space is not hashed: its length is read as
one less. -/
theorem generateHash_of_whole {lib : Sha256Lib} {m : Memory} {hashStruct : HashType}
    (h : code.length = 2 ^ 64) :
    generateHash lib m hashStruct code = some { hashStruct with valid := false } := by
  unfold generateHash
  refine if_pos fun hno => ?_
  have h4 := hno.1
  rw [cheriLengthGet, h] at h4
  exact absurd h4 (by decide)

/-- The digest is made of a section whose capability points to its base. -/
theorem hashStays_of_base (htag : code.tag = true) (hseal : code.isSealed = false)
    (hload : code.perms.load = true) (hbase : code.address = code.base) (hpos : 0 < code.length) :
    HashStays code := by
  have hfits := code.fits htag
  have hlt := code.base.isLt
  have hget : (cheriLengthGet code).toNat = min code.length (2 ^ 64 - 1) := by
    rw [cheriLengthGet, BitVec.toNat_ofNat]
    omega
  refine Or.inr ⟨by omega, htag, hseal, hload, fun o ho _ => ?_⟩
  unfold Capability.InBounds
  rw [hbase, BitVec.toNat_add, BitVec.toNat_ofNat]
  omega

/-- **When a section is attested**: exactly when it has at most two gigabytes,
if the digest depends on the byte there of a longer one. -/
theorem attestsSection_iff_length_le (hb : 0 < b.maxEntries)
    (hsha : ∀ bytes (i : Fin hashByteWidth), p.lib.sha256 bytes i = digestByte (sha256 bytes) i)
    (htag : code.tag = true) (hseal : code.isSealed = false) (hload : code.perms.load = true)
    (hbase : code.address = code.base) (h4 : code.length % numBytes = 0)
    (hcounts : 2 ^ 31 < code.length → Counts sha256 code.length (2 ^ 31)) :
    AttestsSection p sha256 code ↔ code.length ≤ 2 ^ 31 := by
  refine ⟨fun h => ?_, attestsSection_of_length_le hsha h4⟩
  by_contra hgt
  rw [Nat.not_le] at hgt
  have hfits := code.fits htag
  rcases Nat.eq_or_lt_of_le (show code.length ≤ 2 ^ 64 by omega) with hwhole | hlt
  · -- what was on the stack is stored
    have hkeep : ∀ x : Byte,
        x = digestByte (sha256 ((memFrom 0 fun _ => 0).bytesOf code.range)) 0 := by
      intro x
      have hgen : generateHash p.lib (memFrom 0 fun _ => 0) ⟨true, fun _ => x⟩ code
          = some ⟨false, fun _ => x⟩ := generateHash_of_whole hwhole
      exact h.hash_eq hb hgen (by decide)
    exact absurd ((hkeep 0).trans (hkeep 1).symm) (by decide)
  · obtain ⟨c, d, heq, hne⟩ := hcounts hgt
    have hmade : (generateHash p.lib (memFrom code.base.toNat c) ⟨true, fun _ => 0⟩ code).isSome
        = true :=
      generateHash_isSome_iff.2 (hashStays_of_base htag hseal hload hbase (by omega))
    obtain ⟨hash, hc⟩ := Option.isSome_iff_exists.1 hmade
    -- two sections that differ in the one byte that is not read
    have hat : (code.address + BitVec.ofNat 64 (2 ^ 31)).toNat = code.base.toNat + 2 ^ 31 := by
      rw [hbase, BitVec.toNat_add, BitVec.toNat_ofNat]
      omega
    have hd : generateHash p.lib (memFrom code.base.toNat d) ⟨true, fun _ => 0⟩ code
        = some hash := by
      have hloop : hashLoop p.lib (memFrom code.base.toNat d) code 0 p.lib.init
          = hashLoop p.lib (memFrom code.base.toNat c) code 0 p.lib.init :=
        hashLoop_congr (fun a ha => (heq (a - code.base.toNat) (by omega)).symm) 0 rfl _
      rw [← hc]
      unfold generateHash
      rw [hloop]
    refine hne (eq_of_digestByte fun n hn => ?_)
    have hcn := h.hash_eq hb hc (show n < hashByteWidth from hn)
    have hdn := h.hash_eq hb hd (show n < hashByteWidth from hn)
    unfold Capability.range at hcn hdn
    rw [bytesOf_memFrom] at hcn hdn
    rw [← hcn, ← hdn]

end Attests

end Morello
