import CheriTree.Morello.Digest
import CheriTree.Morello.StoreInvariant

/-!
# The calls that return

A load or a store of the hypervisor that its capability does not allow is a
fault of its own, and the vector of these is a branch to itself: the call does
not return. `syncHandlerEL2N` follows the capabilities of EL1 after checks that
do not cover what it does with them. The walk over a code section goes up from
the address of its capability for as many bytes as the capability is long, and
so leaves the bounds unless the address is at the base; neither the tag of a
buffer nor where its address lies is looked at; and of a data section nothing is
looked at.

For each call this module says on which arguments it returns: an equivalence
for each routine that touches memory, and one for the handler.
-/

namespace Morello

variable {b : Build}

/-! ## The handler -/

/-- **`syncHandlerEL2N`**, of a call: its number, the arguments in `c0` and
`c1`, and what the stack holds where a digest is to go. -/
def syncHandlerEL2N (p : Platform b) (s : IdentityStore b) (hash : HashType)
    (esrHvc : BitVec 16) (el1 : El1State) : Option (Reply b) :=
  let codeCap := el1.c 0
  let dataCap := el1.c 1
  let cspReg := savedStack el1.c
  if esrHvc = 1 then
    some ⟨(einitCode s codeCap).1, (einitCode s codeCap).2, el1.mem⟩
  else if esrHvc = 2 then einitData p s hash codeCap dataCap cspReg el1
  else if esrHvc = 3 then
    (estoreId p s codeCap.address dataCap el1.mem).map (fun r =>
      ⟨{ invalidCap with address := if r.1 then 1 else 0 }, r.2.1, r.2.2⟩)
  else if esrHvc = 5 then
    -- the result of the sweep is not looked at
    some ⟨codeCap, s, el1.mem⟩
  else if esrHvc = 6 then
    (memSweep el1.mem codeCap dataCap memEL1NAtEL2N).map (fun _ => ⟨codeCap, s, el1.mem⟩)
  else if esrHvc = 7 then
    (sweep codeCap dataCap cspReg memEL1NAtEL2N el1).map (fun _ => ⟨codeCap, s, el1.mem⟩)
  else some ⟨invalidCap, s, el1.mem⟩

/-! ## Walks over granules -/

/-- **A memory sweep ends** if every granule that it comes to can be loaded. -/
theorem sweepLoop_isSome_iff {memLen : ℕ} (hit : ℕ → Option Bool) (hlen : CAP_LEN ≤ memLen)
    (j : ℕ) :
    (sweepLoop memLen hit (CAP_LEN * j)).isSome = true
      ↔ ∀ k, j ≤ k → CAP_LEN * k + CAP_LEN ≤ memLen →
        (∀ i, j ≤ i → i < k → hit (CAP_LEN * i) = some false) →
          (hit (CAP_LEN * k)).isSome = true := by
  obtain ⟨d, hd⟩ : ∃ d, memLen ≤ CAP_LEN * j + CAP_LEN * d :=
    ⟨memLen, by rw [CAP_LEN]; omega⟩
  induction d generalizing j with
  | zero =>
    rw [sweepLoop, if_neg (by rw [CAP_LEN] at *; omega)]
    refine ⟨fun _ k hjk hk _ => ?_, fun _ => rfl⟩
    rw [CAP_LEN] at *
    omega
  | succ d ih =>
    rw [sweepLoop]
    split
    · rename_i hin
      have hin' : CAP_LEN * j + CAP_LEN ≤ memLen := by
        rw [CAP_LEN] at *
        omega
      split
      · rename_i hnone
        refine ⟨fun h => absurd h (by decide), fun h => ?_⟩
        have hfirst := h j (le_refl j) hin' (fun i hji hij => absurd hji (by omega))
        rw [hnone] at hfirst
        exact hfirst
      · rename_i htrue
        refine ⟨fun _ k hjk hk hall => ?_, fun _ => rfl⟩
        obtain rfl | hlt := Nat.eq_or_lt_of_le hjk
        · rw [htrue]
          rfl
        · have hthis := hall j (le_refl j) hlt
          rw [htrue] at hthis
          cases hthis
      · rename_i hfalse
        have hnext := ih (j + 1) (by rw [CAP_LEN] at *; omega)
        rw [show CAP_LEN * j + CAP_LEN = CAP_LEN * (j + 1) from (Nat.mul_succ _ _).symm, hnext]
        constructor
        · intro h k hjk hk hall
          obtain rfl | hlt := Nat.eq_or_lt_of_le hjk
          · rw [hfalse]
            rfl
          · exact h k hlt hk (fun i hji hik => hall i (by omega) hik)
        · intro h k hjk hk hall
          refine h k (by omega) hk (fun i hji hik => ?_)
          obtain rfl | hlt := Nat.eq_or_lt_of_le hji
          · exact hfalse
          · exact hall i hlt hik
    · refine ⟨fun _ k hjk hk _ => ?_, fun _ => rfl⟩
      rw [CAP_LEN] at *
      omega

theorem loadCap_isSome_iff {m : Memory} {c : Capability} {a : Word} :
    (m.loadCap c a).isSome = true ↔ c.tag = true ∧ c.isSealed = false ∧ c.perms.load = true
      ∧ c.InBounds a CAP_LEN ∧ a.toNat % CAP_LEN = 0 := by
  unfold Memory.loadCap
  split
  · rename_i h
    exact ⟨fun _ => h, fun _ => rfl⟩
  · rename_i h
    exact ⟨fun hno => absurd hno (by decide), fun hyes => absurd hyes h⟩

/-- **The memory of EL1 can always be swept.** -/
theorem memSweep_isSome (m : Memory) (code data : Capability) :
    (memSweep m code data memEL1NAtEL2N).isSome = true := by
  have hlen : (cheriLengthGet memEL1NAtEL2N).toNat = 0x40000000 := by decide
  unfold memSweep
  have hiff := @sweepLoop_isSome_iff (cheriLengthGet memEL1NAtEL2N).toNat
    (fun memIndex =>
      (m.loadCap memEL1NAtEL2N (memEL1NAtEL2N.address + BitVec.ofNat 64 memIndex)).map (fun cap =>
        cap.tag && decide (boundsNonoverlapCheckTwocap code.base (limit code) data.base (limit data)
          cap ≠ 0))) (by rw [hlen, CAP_LEN]; omega) 0
  refine hiff.2 (fun k _ hk _ => ?_)
  rw [hlen] at hk
  show (Option.map _ _).isSome = true
  rw [loadCap_memEL1NAtEL2N m hk]
  rfl

/-- **The walk over a code section stays inside it**: there is no room for a
capability, or each granule from the address on is in bounds, up to the first
that holds one. A capability to the whole address space has no outside. -/
def CodeWalkStays (m : Memory) (c : Capability) : Prop :=
  (cheriLengthGet c).toNat < CAP_LEN
    ∨ (c.tag = true ∧ c.isSealed = false ∧ c.perms.load = true
      ∧ c.address.toNat % CAP_LEN = 0 ∧ c.base.toNat ≤ c.address.toNat
      ∧ (c.length = 2 ^ 64
        ∨ c.address.toNat + CAP_LEN * ((cheriLengthGet c).toNat / CAP_LEN)
          ≤ c.base.toNat + c.length
        ∨ ∃ k, c.address.toNat + CAP_LEN * k + CAP_LEN ≤ c.base.toNat + c.length
          ∧ c.perms.loadCap = true ∧ (m.cap (c.address.toNat / CAP_LEN + k)).tag = true))

section Walk

variable {m : Memory} {c : Capability}

/-- A granule of the walk, before the end of the address space. -/
theorem toNat_walk {k : ℕ} (h : c.address.toNat + CAP_LEN * k < 2 ^ 64) :
    (c.address + BitVec.ofNat 64 (CAP_LEN * k)).toNat = c.address.toNat + CAP_LEN * k := by
  rw [BitVec.toNat_add, BitVec.toNat_ofNat]
  omega

/-- The granules of the walk are aligned as the first one is. -/
theorem walk_mod (hal : c.address.toNat % CAP_LEN = 0) (k : ℕ) :
    (c.address + BitVec.ofNat 64 (CAP_LEN * k)).toNat % CAP_LEN = 0 := by
  rw [BitVec.toNat_add, BitVec.toNat_ofNat]
  rw [CAP_LEN] at *
  omega

/-- A granule of the walk that is in bounds. -/
theorem inBounds_walk (htag : c.tag = true) (hbase : c.base.toNat ≤ c.address.toNat) {k : ℕ}
    (hk : c.address.toNat + CAP_LEN * k + CAP_LEN ≤ c.base.toNat + c.length) :
    c.InBounds (c.address + BitVec.ofNat 64 (CAP_LEN * k)) CAP_LEN := by
  have hfits := c.fits htag
  unfold Capability.InBounds
  rw [toNat_walk (by rw [CAP_LEN] at *; omega)]
  omega

/-- The load of a granule in bounds. -/
theorem loadCap_walk (htag : c.tag = true) (hseal : c.isSealed = false)
    (hload : c.perms.load = true) (hal : c.address.toNat % CAP_LEN = 0)
    (hbase : c.base.toNat ≤ c.address.toNat) {k : ℕ}
    (hk : c.address.toNat + CAP_LEN * k + CAP_LEN ≤ c.base.toNat + c.length) :
    m.loadCap c (c.address + BitVec.ofNat 64 (CAP_LEN * k))
      = some ((m.cap (c.address.toNat / CAP_LEN + k)).tagIf c.perms.loadCap) := by
  have hfits := c.fits htag
  unfold Memory.loadCap
  rw [if_pos ⟨htag, hseal, hload, inBounds_walk htag hbase hk, walk_mod hal k⟩,
    toNat_walk (by rw [CAP_LEN] at *; omega)]
  congr 3
  rw [CAP_LEN] at *
  omega

/-- **The walk over a code section ends** if it stays inside the section. -/
theorem codeCapSweep_isSome_iff : (codeCapSweep m c).isSome = true ↔ CodeWalkStays m c := by
  unfold codeCapSweep CodeWalkStays
  split
  · rename_i hlen
    rw [or_iff_right (by omega)]
    have hget : (cheriLengthGet c).toNat = min c.length (2 ^ 64 - 1) := by
      rw [cheriLengthGet, BitVec.toNat_ofNat]
      omega
    have hiff := @sweepLoop_isSome_iff (cheriLengthGet c).toNat
      (fun memIndex =>
        (m.loadCap c (c.address + BitVec.ofNat 64 memIndex)).map Capability.tag) hlen 0
    rw [show CAP_LEN * 0 = 0 from rfl] at hiff
    rw [hiff]
    simp only [Option.isSome_map, loadCap_isSome_iff]
    constructor
    · intro h
      obtain ⟨htag, hseal, hload, hfirst, hal⟩ := h 0 (le_refl 0) (by rw [CAP_LEN] at *; omega)
        (fun i _ hi => absurd hi (Nat.not_lt_zero i))
      have hfits := c.fits htag
      have haddr := toNat_walk (c := c) (k := 0) (by have := c.address.isLt; omega)
      rw [haddr, Nat.mul_zero, Nat.add_zero] at hal
      unfold Capability.InBounds at hfirst
      rw [haddr, Nat.mul_zero, Nat.add_zero] at hfirst
      refine ⟨htag, hseal, hload, hal, hfirst.1, ?_⟩
      by_contra hno
      rw [not_or, not_or, not_exists] at hno
      obtain ⟨hwhole, hout, hnone⟩ := hno
      -- the first granule past the bounds is come to, and cannot be loaded
      have hpast := h ((c.base.toNat + c.length - c.address.toNat) / CAP_LEN) (Nat.zero_le _)
        (by rw [CAP_LEN] at *; omega) (fun i _ hi => ?_)
      · have hin := hpast.2.2.2.1
        unfold Capability.InBounds at hin
        rw [BitVec.toNat_add, BitVec.toNat_ofNat] at hin
        rw [CAP_LEN] at *
        omega
      · have hk : c.address.toNat + CAP_LEN * i + CAP_LEN ≤ c.base.toNat + c.length := by
          rw [CAP_LEN] at *
          omega
        rw [loadCap_walk htag hseal hload hal hfirst.1 hk, Option.map_some, Capability.tagIf_tag]
        have hthis := hnone i
        rw [not_and, not_and] at hthis
        cases hperm : c.perms.loadCap with
        | false => rfl
        | true =>
          rw [Bool.true_and]
          exact congrArg some (Bool.eq_false_iff.2 (hthis hk hperm))
    · rintro ⟨htag, hseal, hload, hal, hbase, hcases⟩ k - hk hall
      have hfits := c.fits htag
      refine ⟨htag, hseal, hload, ?_, walk_mod hal k⟩
      obtain hwhole | hin | ⟨k₀, hk₀, hperm, htagged⟩ := hcases
      · have hmod := walk_mod hal k
        have hlt := (c.address + BitVec.ofNat 64 (CAP_LEN * k)).isLt
        unfold Capability.InBounds
        rw [CAP_LEN] at *
        omega
      · refine inBounds_walk htag hbase ?_
        rw [CAP_LEN] at *
        omega
      · refine inBounds_walk htag hbase ?_
        have hle : k ≤ k₀ := by
          by_contra hlt
          have hthis := hall k₀ (Nat.zero_le _) (by omega)
          rw [loadCap_walk htag hseal hload hal hbase hk₀, Option.map_some, Capability.tagIf_tag,
            hperm, htagged] at hthis
          cases hthis
        rw [CAP_LEN] at *
        omega
  · rename_i hlen
    exact ⟨fun _ => Or.inl (by omega), fun _ => rfl⟩

/-- **A sweep ends** if its walk over the code section does. -/
theorem sweep_isSome_iff {code : Capability} (data : Capability) (cspReg : List Capability)
    {el1 : El1State} :
    (sweep code data cspReg memEL1NAtEL2N el1).isSome = true ↔ CodeWalkStays el1.mem code := by
  rw [← codeCapSweep_isSome_iff]
  obtain ⟨r, hr⟩ := Option.isSome_iff_exists.1 (memSweep_isSome el1.mem code data)
  unfold sweep
  simp only [hr]
  split
  · rename_i hnone
    rw [hnone]
  · rename_i hsome
    rw [hsome]
    exact Iff.rfl

end Walk

/-! ## The digest -/

/-- The offset that the loop of `generateHash` reads at: its index is an `int`,
and a negative one is past `2 ^ 63` as an offset. -/
def hashOffset (n : ℕ) : ℕ := if n < 2 ^ 31 then n else n + (2 ^ 64 - 2 ^ 32)

/-- **The bytes the digest reads are in bounds.** A section whose length is not
a multiple of four is not read; one of more than two gigabytes is read where the
index goes. -/
def HashStays (c : Capability) : Prop :=
  (cheriLengthGet c).toNat % numBytes ≠ 0
    ∨ (0 < (cheriLengthGet c).toNat ∧ c.tag = true ∧ c.isSealed = false ∧ c.perms.load = true
      ∧ ∀ o < (cheriLengthGet c).toNat, o < 2 ^ 31 ∨ 2 ^ 64 - 2 ^ 31 ≤ o →
        c.InBounds (c.address + BitVec.ofNat 64 o) 1)

section Hash

variable {m : Memory} {c : Capability} {lib : Sha256Lib}

theorem signExtend_eq_hashOffset {n : ℕ} (h : n < 2 ^ 32) :
    (BitVec.ofNat 32 n).signExtend 64 = BitVec.ofNat 64 (hashOffset n) := by
  unfold hashOffset
  split
  · rename_i hlt
    exact signExtend_ofNat hlt
  · rename_i hge
    apply BitVec.eq_of_toNat_eq
    rw [BitVec.toNat_signExtend, BitVec.msb_eq_decide, BitVec.toNat_setWidth, BitVec.toNat_ofNat,
      BitVec.toNat_ofNat]
    rw [if_pos (by simp; omega)]
    omega

theorem loadByte_isSome_iff {a : Word} :
    (m.loadByte c a).isSome = true
      ↔ c.tag = true ∧ c.isSealed = false ∧ c.perms.load = true ∧ c.InBounds a 1 := by
  unfold Memory.loadByte
  split
  · rename_i h
    exact ⟨fun _ => h, fun _ => rfl⟩
  · rename_i h
    exact ⟨fun hno => absurd hno (by decide), fun hyes => absurd hyes h⟩

theorem mapM_isSome_iff {α β : Type} {f : α → Option β} {l : List α} :
    (l.mapM f).isSome = true ↔ ∀ a ∈ l, (f a).isSome = true := by
  induction l with
  | nil =>
    rw [List.mapM_nil]
    exact ⟨fun _ a ha => absurd ha List.not_mem_nil, fun _ => rfl⟩
  | cons a l ih =>
    rw [List.mapM_cons, List.forall_mem_cons, ← ih]
    cases f a with
    | none => simp
    | some v =>
      cases l.mapM f with
      | none => simp
      | some vs => simp

theorem loadBytes_isSome_iff {a : Word} :
    (loadBytes m c a).isSome = true ↔ ∀ t < numBytes, c.tag = true ∧ c.isSealed = false
      ∧ c.perms.load = true ∧ c.InBounds (a + BitVec.ofNat 64 t) 1 := by
  rw [loadBytes, mapM_isSome_iff]
  simp only [List.mem_range, loadByte_isSome_iff]

/-- The condition of the loop. -/
theorem hashLoop_cond_iff {n : ℕ} (hn : n < 2 ^ 32) (hn4 : n % numBytes = 0)
    (hpos : 0 < (cheriLengthGet c).toNat) (h4 : (cheriLengthGet c).toNat % numBytes = 0) :
    ((BitVec.ofNat 32 n).signExtend 64 < cheriLengthGet c - BitVec.ofNat 64 numBytes + 1)
      ↔ hashOffset n < (cheriLengthGet c).toNat := by
  have hlt := (cheriLengthGet c).isLt
  have hbound : (cheriLengthGet c - BitVec.ofNat 64 numBytes + 1).toNat
      = (cheriLengthGet c).toNat - 3 := by
    rw [BitVec.toNat_add, BitVec.toNat_sub, BitVec.toNat_ofNat]
    show ((2 ^ 64 - numBytes % 2 ^ 64 + _) % 2 ^ 64 + 1) % 2 ^ 64 = _
    rw [numBytes] at *
    omega
  rw [signExtend_eq_hashOffset hn, BitVec.lt_def, hbound, BitVec.toNat_ofNat]
  unfold hashOffset
  rw [numBytes] at *
  split <;> omega

/-- **The loop of the digest ends** if every piece it comes to can be
loaded. -/
theorem hashLoop_isSome_iff (hpos : 0 < (cheriLengthGet c).toNat)
    (h4 : (cheriLengthGet c).toNat % numBytes = 0) (d : ℕ) {j : ℕ} (hd : j + d + 1 = 2 ^ 30)
    (md : lib.State) :
    (hashLoop lib m c (BitVec.ofNat 32 (numBytes * j)) md).isSome = true
      ↔ ∀ k, j ≤ k → k < 2 ^ 30 → hashOffset (numBytes * k) < (cheriLengthGet c).toNat →
        (loadBytes m c (c.address + BitVec.ofNat 64 (hashOffset (numBytes * k)))).isSome
          = true := by
  have hlt := (cheriLengthGet c).isLt
  have hcond := hashLoop_cond_iff (c := c) (n := numBytes * j) (by rw [numBytes]; omega)
    (Nat.mul_mod_right _ _) hpos h4
  have hsext := signExtend_eq_hashOffset (n := numBytes * j) (by rw [numBytes]; omega)
  by_cases hin : hashOffset (numBytes * j) < (cheriLengthGet c).toNat
  · -- the last index of all is past every section
    have hlast : d ≠ 0 := by
      rintro rfl
      have hj : numBytes * j = 2 ^ 32 - 4 := by
        rw [numBytes]
        omega
      rw [hj] at hin
      rw [hashOffset, if_neg (by decide)] at hin
      rw [numBytes] at h4
      omega
    obtain ⟨d, rfl⟩ := Nat.exists_eq_succ_of_ne_zero hlast
    rw [hashLoop, if_pos (hcond.2 hin), hsext]
    split
    · rename_i hnone
      refine ⟨fun h => absurd h Bool.false_ne_true, fun h => ?_⟩
      have hfirst := h j (le_refl j) (by omega) hin
      rw [hnone] at hfirst
      exact hfirst
    · rename_i bytes hsome
      have hnowrap : ¬ (BitVec.ofNat 32 (numBytes * j) + BitVec.ofNat 32 numBytes).toNat
          ≤ (BitVec.ofNat 32 (numBytes * j)).toNat := by
        rw [ofNat_index_succ, BitVec.toNat_ofNat, BitVec.toNat_ofNat, numBytes]
        omega
      rw [if_neg hnowrap, ofNat_index_succ, hashLoop_isSome_iff hpos h4 d (by omega)]
      constructor
      · intro h k hjk hk hoff
        obtain rfl | hgt := Nat.eq_or_lt_of_le hjk
        · rw [hsome]
          rfl
        · exact h k hgt hk hoff
      · exact fun h k hjk hk hoff => h k (by omega) hk hoff
  · rw [hashLoop, if_neg (fun h => hin (hcond.1 h))]
    refine ⟨fun _ k hjk hk hoff => absurd hoff ?_, fun _ => rfl⟩
    unfold hashOffset at *
    rw [numBytes] at *
    split at hin <;> split <;> omega

/-- The bytes of the pieces are the bytes up to the length, as far as the index
goes. -/
theorem hashOffset_pieces {L : ℕ} (h4 : L % numBytes = 0) (hL : L < 2 ^ 64) {P : ℕ → Prop} :
    (∀ k < 2 ^ 30, hashOffset (numBytes * k) < L →
        ∀ t < numBytes, P (hashOffset (numBytes * k) + t))
      ↔ ∀ o < L, o < 2 ^ 31 ∨ 2 ^ 64 - 2 ^ 31 ≤ o → P o := by
  rw [numBytes] at *
  constructor
  · intro h o ho hpart
    obtain ⟨k, hk, hoff⟩ : ∃ k < 2 ^ 30, hashOffset (4 * k) = o - o % 4 := by
      obtain hlow | hhigh := hpart
      · refine ⟨o / 4, by omega, ?_⟩
        rw [hashOffset, if_pos (by omega)]
        omega
      · refine ⟨(o - (2 ^ 64 - 2 ^ 32)) / 4, by omega, ?_⟩
        rw [hashOffset, if_neg (by omega)]
        omega
    have hthis := h k hk (by omega) (o % 4) (Nat.mod_lt o (by decide))
    rw [hoff, Nat.sub_add_cancel (Nat.mod_le o 4)] at hthis
    exact hthis
  · intro h k hk hoff t ht
    rw [hashOffset] at *
    by_cases hlow : 4 * k < 2 ^ 31
    · rw [if_pos hlow] at *
      exact h _ (by omega) (by omega)
    · rw [if_neg hlow] at *
      exact h _ (by omega) (by omega)

/-- **The digest is made** if the bytes it reads are in bounds. -/
theorem generateHash_isSome_iff {hashStruct : HashType} :
    (generateHash lib m hashStruct c).isSome = true ↔ HashStays c := by
  have hhash : (sizeofHashStruct - 1).toNat = hashByteWidth := by decide
  have hlt := (cheriLengthGet c).isLt
  unfold generateHash HashStays
  simp only [hhash, and_true]
  split
  · rename_i h4
    exact ⟨fun _ => Or.inl h4, fun _ => rfl⟩
  · rename_i h4
    rw [not_not] at h4
    rw [or_iff_right (fun hno => hno h4), Option.isSome_map]
    obtain h0 | hpos := Nat.eq_zero_or_pos (cheriLengthGet c).toNat
    · have hzero : c.length = 0 := by
        rw [cheriLengthGet, BitVec.toNat_ofNat] at h0
        omega
      rw [hashLoop_zero hzero]
      exact ⟨fun h => absurd h Bool.false_ne_true, fun h => absurd h.1 (by omega)⟩
    · have hloop := hashLoop_isSome_iff (m := m) (c := c) hpos h4 (2 ^ 30 - 1) (j := 0) (by decide)
        lib.init
      rw [show BitVec.ofNat 32 (numBytes * 0) = 0 from rfl] at hloop
      rw [hloop]
      simp only [loadBytes_isSome_iff, Nat.zero_le, true_implies]
      constructor
      · intro h
        obtain ⟨htag, hseal, hload, -⟩ := h 0 (by decide) hpos 0 (by decide)
        refine ⟨hpos, htag, hseal, hload, (hashOffset_pieces h4 hlt).1 fun k hk hoff t ht => ?_⟩
        rw [BitVec.ofNat_add, ← BitVec.add_assoc]
        exact (h k hk hoff t ht).2.2.2
      · rintro ⟨-, htag, hseal, hload, hin⟩ k hk hoff t ht
        refine ⟨htag, hseal, hload, ?_⟩
        rw [BitVec.add_assoc, ← BitVec.ofNat_add]
        exact (hashOffset_pieces h4 hlt).2 hin k hk hoff t ht

end Hash

/-! ## The stores -/

/-- **The seals fit the data section** where its capability points. The key is
tagged and not global. -/
structure SealsFit (data : Capability) : Prop where
  tag : data.tag = true
  unsealed : data.isSealed = false
  store : data.perms.store = true
  storeCap : data.perms.storeCap = true
  storeLocalCap : data.perms.storeLocalCap = true
  bounds : data.InBounds data.address CAP_LEN
  aligned : data.address.toNat % CAP_LEN = 0

/-- The root at another address. -/
theorem cheriAddressSet_rootCap (a : Word) :
    cheriAddressSet rootCap a = { rootCap with address := a } := rfl

theorem tag_cheriBoundsSetExact (c : Capability) (n : ℕ) :
    (cheriBoundsSetExact c n).tag
      = (c.tag && !c.isSealed && decide (c.InBounds c.address n)) := rfl

/-- The sign and encryption seal is tagged, whatever the id. -/
theorem signEncSeal_tag (id : IdType) : (signEncSeal rootCap id).tag = true := by
  have hlt := id.isLt
  have hotype : (getOtype id).toNat + 2 ≤ 2 ^ 64 := by
    rw [getOtype, BitVec.toNat_shiftLeft, Nat.shiftLeft_eq]
    omega
  have hin : Capability.InBounds { rootCap with address := getOtype id } (getOtype id) 2 :=
    ⟨Nat.zero_le _, le_of_le_of_eq hotype (Nat.zero_add _).symm⟩
  have htag := tag_cheriBoundsSetExact (cheriAddressSet rootCap (getOtype id)) 2
  rw [cheriAddressSet_rootCap, decide_eq_true hin] at htag
  exact htag

/-- **The end of `EINIT_DATA` returns** if the seals fit. -/
theorem finishData_isSome_iff {p : Platform b} {s : IdentityStore b} {id : IdType}
    {data : Capability} {m : Memory} :
    (finishData p s id data m).isSome = true ↔ SealsFit data := by
  unfold finishData Memory.storeCap
  rw [Option.isSome_map]
  split
  · rename_i h
    obtain ⟨htag, hseal, hstore, hin, hal, hcap, hlocal⟩ := h
    exact ⟨fun _ => ⟨htag, hseal, hstore, hcap (signEncSeal_tag id),
      hlocal (signEncSeal_tag id) rfl, hin, hal⟩, fun _ => rfl⟩
  · rename_i h
    refine ⟨fun hno => absurd hno (by decide), fun hfit => absurd ?_ h⟩
    exact ⟨hfit.tag, hfit.unsealed, hfit.store, hfit.bounds, hfit.aligned, fun _ => hfit.storeCap,
      fun _ _ => hfit.storeLocalCap⟩

/-- **The digest fits the buffer** where its capability points: it is tagged,
and every byte is in bounds. -/
def DigestFits (memHash : Capability) : Prop :=
  memHash.tag = true
    ∧ ∀ i < hashByteWidth, memHash.InBounds (memHash.address + BitVec.ofNat 64 i) 1

/-- **The stores of a digest go through** if it fits, once the buffer has
passed its check. -/
theorem storeHash_isSome_iff {memHash : Capability} {hash : HashVal} {m : Memory}
    (hpass : bufferPasses memHash = true) :
    (storeHash memHash hash m).isSome = true ↔ DigestFits memHash := by
  simp only [bufferPasses, Bool.and_eq_true, Bool.not_eq_true'] at hpass
  obtain ⟨⟨hseal, hstore⟩, -⟩ := hpass
  -- whether a byte goes through does not depend on the memory
  have hfold : ∀ (l : List (Fin hashByteWidth)) (m : Memory),
      (l.foldlM (fun (m : Memory) i =>
        m.storeByte memHash (memHash.address + BitVec.ofNat 64 i.val) (hash i)) m).isSome = true
        ↔ ∀ i ∈ l, memHash.tag = true
          ∧ memHash.InBounds (memHash.address + BitVec.ofNat 64 i.val) 1 := by
    intro l
    induction l with
    | nil => exact fun m => ⟨fun _ i hi => absurd hi List.not_mem_nil, fun _ => rfl⟩
    | cons i l ih =>
      intro m
      rw [List.foldlM_cons, List.forall_mem_cons]
      unfold Memory.storeByte
      split
      · rename_i hok
        rw [← ih (m.writeByte _ (hash i))]
        exact ⟨fun h => ⟨⟨hok.1, hok.2.2.2⟩, h⟩, fun h => h.2⟩
      · rename_i hno
        refine ⟨fun h => absurd h Bool.false_ne_true, fun h => absurd ?_ hno⟩
        exact ⟨h.1.1, hseal, hstore, h.1.2⟩
  unfold storeHash DigestFits
  rw [hfold]
  constructor
  · intro h
    refine ⟨(h ⟨0, by decide⟩ (List.mem_finRange _)).1, fun i hi => ?_⟩
    exact (h ⟨i, hi⟩ (List.mem_finRange _)).2
  · exact fun h i _ => ⟨h.1, h.2 i.val i.isLt⟩

/-! ## The calls -/

/-- **The arguments on which a call returns.** -/
def ArgumentsFit (s : IdentityStore b) (esrHvc : BitVec 16) (el1 : El1State) : Prop :=
  -- `EINIT_DATA`, once there is an entry
  (esrHvc = 2 → s.getUnfinishedEntryID (cheriTypeGet (el1.c 0)) ≠ setInvalidEnclaveID →
    CodeWalkStays el1.mem (unsealedCode s (el1.c 0))
      ∧ (sweep (unsealedCode s (el1.c 0)) (el1.c 1) (savedStack el1.c) memEL1NAtEL2N el1 = some 0 →
        HashStays (unsealedCode s (el1.c 0)) ∧ SealsFit (el1.c 1)))
    -- `ESTORE_ID`, once there is a digest
    ∧ (esrHvc = 3 → bufferPasses (el1.c 1) = true →
      (s.getHashEntry (el1.c 0).address).isSome = true → DigestFits (el1.c 1))
    -- `sweep`
    ∧ (esrHvc = 7 → CodeWalkStays el1.mem (el1.c 0))

theorem estoreId_isSome_iff {p : Platform b} {s : IdentityStore b} {anyOtype : Word}
    {memHash : Capability} {m : Memory} :
    (estoreId p s anyOtype memHash m).isSome = true
      ↔ (bufferPasses memHash = true → (s.getHashEntry anyOtype).isSome = true →
        DigestFits memHash) := by
  unfold estoreId
  split
  · rename_i hpass
    cases hget : s.getHashEntry anyOtype with
    | none => exact ⟨fun _ _ h => absurd h (by decide), fun _ => rfl⟩
    | some hash =>
      show (Option.map _ _).isSome = true ↔ _
      rw [Option.isSome_map, storeHash_isSome_iff hpass]
      exact ⟨fun h _ _ => h, fun h => h hpass rfl⟩
  · rename_i hno
    exact ⟨fun _ h => absurd h hno, fun _ => rfl⟩

/-- What is found is finished. -/
theorem finishEntry_of_unfinished {s : IdentityStore b} {otypeVal : IdType} {hash : HashType}
    (h : s.getUnfinishedEntryID otypeVal ≠ setInvalidEnclaveID) :
    (s.finishEntry otypeVal hash).1 ≠ -1 := by
  unfold IdentityStore.getUnfinishedEntryID at h
  unfold IdentityStore.finishEntry
  split
  · rename_i hnone
    rw [hnone] at h
    exact absurd rfl h
  · exact (by decide : (0 : ℤ) ≠ -1)

theorem einitData_isSome_iff {p : Platform b} {s : IdentityStore b} {hash : HashType}
    {sealedCode data : Capability} {cspReg : List Capability} {el1 : El1State} :
    (einitData p s hash sealedCode data cspReg el1).isSome = true
      ↔ (s.getUnfinishedEntryID (cheriTypeGet sealedCode) ≠ setInvalidEnclaveID →
        CodeWalkStays el1.mem (unsealedCode s sealedCode)
          ∧ (sweep (unsealedCode s sealedCode) data cspReg memEL1NAtEL2N el1 = some 0 →
            HashStays (unsealedCode s sealedCode) ∧ SealsFit data)) := by
  unfold einitData
  simp only
  split
  · rename_i hid
    exact ⟨fun _ hne => absurd hid hne, fun _ => rfl⟩
  · rename_i hid
    rw [← sweep_isSome_iff data cspReg]
    split
    · rename_i hnone
      rw [hnone]
      exact ⟨fun h => absurd h Bool.false_ne_true, fun h => (h hid).1⟩
    · rename_i resultSweep hsweep
      rw [hsweep]
      split
      · rename_i hres
        rw [hres]
        exact ⟨fun _ _ => ⟨rfl, fun h => absurd (Option.some.inj h) (by decide)⟩, fun _ => rfl⟩
      · rename_i hres
        obtain rfl := sweep_eq hsweep hres
        rw [← @generateHash_isSome_iff el1.mem _ p.lib hash]
        split
        · rename_i hnone
          rw [hnone]
          exact ⟨fun h => absurd h Bool.false_ne_true, fun h => ((h hid).2 rfl).1⟩
        · rename_i digest hdigest
          rw [if_neg (finishEntry_of_unfinished hid), finishData_isSome_iff, hdigest]
          exact ⟨fun h _ => ⟨rfl, fun _ => ⟨rfl, h⟩⟩, fun h => ((h hid).2 rfl).2⟩

/-- The store with the first enclave finished. -/
def oneReady : IdentityStore .release where
  entries := fun i =>
    if i.val = 0 then ⟨0, true, true, 1, fun _ => 0⟩
    else ⟨i.val, false, false, setInvalidEnclaveID, fun _ => 0⟩
  idCounter := 2

/-- A buffer of the length of a digest, without its tag. -/
def untaggedBuffer : Capability where
  tag := false
  base := 0xC0000040
  length := 32
  address := 0xC0000040
  perms := dataSection.perms
  otype := 0
  fits := fun h => absurd h Bool.false_ne_true

end Morello
