import CheriTree.Morello.CallsReturn

/-!
# What `generateHash` passes to the digest

The loop of `generateHash` should pass on the bytes of the code section, all of
them and in order, and read nothing else. Its bound is the length less three,
as a `size_t`, its index an `int`, and it reads from the address of the
capability on, not from its base.

A length that is no multiple of four is refused before the loop. Of those that
are accepted, the length zero makes the bound wrap, and the loop reads where
there is nothing; one of `2 ^ 31` or more takes the index past the largest
`int`; and an address behind the base takes the loop past the end of the
section. Everything else is read as it should be, by a capability that can be
loaded through (`hashesWhole_iff`).
-/

namespace Morello

/-- A digest that keeps what it is fed. -/
def feedRecorder : Sha256Lib where
  State := List Byte
  init := []
  process := fun fed bytes => fed ++ bytes
  done := fun _ _ => 0
  sha256 := fun _ _ => 0
  computes := fun _ => rfl

/-- The length and the structure are accepted. -/
def HashAccepts (code : Capability) : Prop :=
  (cheriLengthGet code).toNat % numBytes = 0 ∧ (sizeofHashStruct - 1).toNat = hashByteWidth

instance (code : Capability) : Decidable (HashAccepts code) :=
  inferInstanceAs (Decidable (_ ∧ _))

/-- **What is passed to `sha256_process`**, by a call that returns. -/
def hashFed (m : Memory) (code : Capability) : Option (List Byte) :=
  if HashAccepts code then hashLoop feedRecorder m code 0 [] else some []

/-- The loop goes on at an index. -/
def LoopGoesOn (code : Capability) (i : BitVec 32) : Prop :=
  i.signExtend 64 < cheriLengthGet code - BitVec.ofNat 64 numBytes + 1

/-- **The indices the loop comes to.** -/
inductive HashIndex (m : Memory) (code : Capability) : BitVec 32 → Prop
  | start (haccepts : HashAccepts code) : HashIndex m code 0
  | next {i : BitVec 32} (hi : HashIndex m code i) (hon : LoopGoesOn code i)
      (hload : (loadBytes m code (code.address + i.signExtend 64)).isSome = true) :
      HashIndex m code (i + BitVec.ofNat 32 numBytes)

/-- **The code section is hashed as a whole, or refused.** -/
structure HashesWhole (lib : Sha256Lib) (m : Memory) (hashStruct : HashType)
    (code : Capability) : Prop where
  returns : (generateHash lib m hashStruct code).isSome = true
  whole : ∀ hash, generateHash lib m hashStruct code = some hash → hash.valid = true →
    hashFed m code = some (m.bytesOf code.range)
  nothing : ∀ hash, generateHash lib m hashStruct code = some hash → hash.valid = false →
    hashFed m code = some []
  inside : ∀ i, HashIndex m code i → LoopGoesOn code i → ∀ t < numBytes,
    code.InBounds (code.address + i.signExtend 64 + BitVec.ofNat 64 t) 1
  noOverflow : ∀ i, HashIndex m code i → LoopGoesOn code i →
    (loadBytes m code (code.address + i.signExtend 64)).isSome = true →
      i.toInt + numBytes < 2 ^ 31

/-- **A code section that is hashed as a whole**: one of whole instructions and
less than two gigabytes, with the address at its base. -/
structure WholeFromBase (code : Capability) : Prop where
  tag : code.tag = true
  unsealed : code.isSealed = false
  load : code.perms.load = true
  address : code.address = code.base
  nonempty : 0 < code.length
  small : code.length < 2 ^ 31

section

variable {lib : Sha256Lib} {m : Memory} {hashStruct : HashType} {code : Capability}

/-- A digest is refused of a length that is not accepted. -/
theorem generateHash_of_not_accepts (h : ¬ HashAccepts code) :
    generateHash lib m hashStruct code = some { hashStruct with valid := false } := if_pos h

theorem hashFed_of_not_accepts (h : ¬ HashAccepts code) : hashFed m code = some [] := if_neg h

theorem generateHash_of_accepts (h : HashAccepts code) :
    generateHash lib m hashStruct code
      = (hashLoop lib m code 0 lib.init).map (fun md => ⟨true, lib.done md⟩) :=
  if_neg (not_not.2 h)

/-- The digest that is made of a length that is accepted is valid. -/
theorem valid_of_accepts (h : HashAccepts code) {hash : HashType}
    (hhash : generateHash lib m hashStruct code = some hash) : hash.valid = true := by
  rw [generateHash_of_accepts h, Option.map_eq_some_iff] at hhash
  obtain ⟨md, -, rfl⟩ := hhash
  rfl

/-- The whole address space has a length that is not accepted, so a length that
is accepted is the one the capability has. -/
theorem HashAccepts.toNat_length (h : HashAccepts code) :
    (cheriLengthGet code).toNat = code.length := by
  have h4 := h.1
  rw [cheriLengthGet, BitVec.toNat_ofNat, numBytes] at *
  omega

theorem feedRecorder_foldl (chunks : List (List Byte)) :
    chunks.foldl feedRecorder.process feedRecorder.init = chunks.flatten := by
  show chunks.foldl (fun fed bytes => fed ++ id bytes) [] = _
  rw [List.foldl_append_eq_append, List.nil_append, List.map_id]

/-! ## A section that is hashed as a whole -/

/-- Each byte of a section is in bounds, from the address on. -/
theorem WholeFromBase.inBounds (h : WholeFromBase code) {o : ℕ} (ho : o < code.length) :
    code.InBounds (code.address + BitVec.ofNat 64 o) 1 := by
  have hfits := code.fits h.tag
  have hsmall := h.small
  unfold Capability.InBounds
  rw [h.address, BitVec.toNat_add, BitVec.toNat_ofNat]
  omega

theorem WholeFromBase.hashStays (h : WholeFromBase code) (ha : HashAccepts code) :
    HashStays code := by
  refine Or.inr ⟨?_, h.tag, h.unsealed, h.load, fun o ho _ => ?_⟩
  · rw [ha.toNat_length]
    exact h.nonempty
  · rw [ha.toNat_length] at ho
    exact h.inBounds ho

/-- **The bytes of the section are passed on**, in order. -/
theorem WholeFromBase.hashFed_eq (h : WholeFromBase code) (ha : HashAccepts code) :
    hashFed m code = some (m.bytesOf code.range) := by
  have hget := ha.toNat_length
  have hsmall := h.small
  have hpos : 0 < (cheriLengthGet code).toNat := hget ▸ h.nonempty
  have hfits := code.fits h.tag
  obtain ⟨n, hn⟩ := Nat.dvd_of_mod_eq_zero ha.1
  have hfed : hashFed m code = hashLoop feedRecorder m code 0 [] := if_pos ha
  -- the loop ends for this digest as it does for each
  have hreturns : (generateHash feedRecorder m ⟨true, 0⟩ code).isSome = true :=
    generateHash_isSome_iff.2 (h.hashStays ha)
  rw [generateHash_of_accepts ha, Option.isSome_map] at hreturns
  obtain ⟨fed, hloop⟩ := Option.isSome_iff_exists.1 hreturns
  obtain ⟨-, rfl⟩ := hashLoop_some (j := 0) hpos (by omega) ha.1 n (by rw [Nat.zero_add, hn]) hloop
  rw [hfed, show ([] : feedRecorder.State) = feedRecorder.init from rfl, hloop, feedRecorder_foldl]
  simp only [Nat.zero_add]
  rw [flatten_chunks n (by rw [h.address]; omega), h.address, ← hn, hget]
  rfl

/-- **The indices of a section**: multiples of four up to its length. -/
theorem HashIndex.bounded (hsmall : code.length < 2 ^ 31) (hpos : 0 < code.length) {i : BitVec 32}
    (h : HashIndex m code i) :
    HashAccepts code ∧ ∃ j, i = BitVec.ofNat 32 (numBytes * j) ∧ numBytes * j ≤ code.length := by
  induction h with
  | start ha => exact ⟨ha, 0, rfl, Nat.zero_le _⟩
  | next hi hon hload ih =>
    obtain ⟨ha, j, rfl, hj⟩ := ih
    have hget := ha.toNat_length
    have h4 := ha.1
    have hlt := (hashLoop_cond (hget ▸ hpos) (by omega) ha.1 (hget ▸ hj)).1 hon
    refine ⟨ha, j + 1, ofNat_index_succ j, ?_⟩
    rw [numBytes] at *
    omega

/-- **Where the loop goes on**, there are four more bytes. -/
theorem HashIndex.room (hsmall : code.length < 2 ^ 31) (hpos : 0 < code.length) {i : BitVec 32}
    (h : HashIndex m code i) (hon : LoopGoesOn code i) :
    ∃ j, i = BitVec.ofNat 32 (numBytes * j) ∧ numBytes * j + numBytes ≤ code.length := by
  obtain ⟨ha, j, rfl, hj⟩ := h.bounded hsmall hpos
  have hget := ha.toNat_length
  have h4 := ha.1
  have hlt := (hashLoop_cond (hget ▸ hpos) (by omega) ha.1 (hget ▸ hj)).1 hon
  refine ⟨j, rfl, ?_⟩
  rw [numBytes] at *
  omega

/-- **A section that starts at its address, and is neither empty nor too long,
is hashed as a whole.** -/
theorem WholeFromBase.hashesWhole (h : WholeFromBase code) (ha : HashAccepts code) :
    HashesWhole lib m hashStruct code where
  returns := generateHash_isSome_iff.2 (h.hashStays ha)
  whole _ _ _ := h.hashFed_eq ha
  nothing hash hhash hinvalid := by
    rw [valid_of_accepts ha hhash] at hinvalid
    exact absurd hinvalid (by decide)
  inside i hi hon t ht := by
    have hsmall := h.small
    obtain ⟨j, rfl, hj⟩ := hi.room h.small h.nonempty hon
    rw [signExtend_ofNat (by omega), BitVec.add_assoc, ← BitVec.ofNat_add]
    exact h.inBounds (by omega)
  noOverflow i hi hon _ := by
    have hsmall := h.small
    obtain ⟨j, rfl, hj⟩ := hi.room h.small h.nonempty hon
    rw [BitVec.toInt_eq_toNat_of_lt (by rw [BitVec.toNat_ofNat]; omega), BitVec.toNat_ofNat]
    omega

/-! ## A section that is not -/

/-- **The index of a long section** comes to each multiple of four that an `int`
can hold. -/
theorem hashIndex_of_long (ha : HashAccepts code) (hstays : HashStays code)
    (hlong : 2 ^ 31 ≤ code.length) {j : ℕ} (hj : numBytes * j < 2 ^ 31) :
    HashIndex m code (BitVec.ofNat 32 (numBytes * j)) ∧ LoopGoesOn code
        (BitVec.ofNat 32 (numBytes * j))
      ∧ (loadBytes m code (code.address
        + (BitVec.ofNat 32 (numBytes * j)).signExtend 64)).isSome = true := by
  have hget := ha.toNat_length
  rcases hstays with hno | ⟨hpos, htag, hseal, hload, hin⟩
  · exact absurd ha.1 hno
  have hon : ∀ k, numBytes * k < 2 ^ 31 → LoopGoesOn code (BitVec.ofNat 32 (numBytes * k)) := by
    intro k hk
    refine (hashLoop_cond_iff (by omega) (Nat.mul_mod_right _ _) hpos ha.1).2 ?_
    rw [hashOffset, if_pos hk]
    omega
  have hloads : ∀ k, numBytes * k < 2 ^ 31 → (loadBytes m code (code.address
      + (BitVec.ofNat 32 (numBytes * k)).signExtend 64)).isSome = true := by
    intro k hk
    refine loadBytes_isSome_iff.2 fun t ht => ⟨htag, hseal, hload, ?_⟩
    rw [signExtend_ofNat hk, BitVec.add_assoc, ← BitVec.ofNat_add]
    rw [numBytes] at *
    exact hin _ (by omega) (Or.inl (by omega))
  refine ⟨?_, hon j hj, hloads j hj⟩
  induction j with
  | zero => exact HashIndex.start ha
  | succ j ih =>
    have hprev : numBytes * j < 2 ^ 31 := lt_of_le_of_lt (Nat.mul_le_mul_left _ (Nat.le_succ j)) hj
    rw [← ofNat_index_succ]
    exact HashIndex.next (ih hprev) (hon j hprev) (hloads j hprev)

/-- **What is hashed as a whole starts at its address**, is not empty, and not
too long. -/
theorem HashesWhole.wholeFromBase (h : HashesWhole lib m hashStruct code)
    (ha : HashAccepts code) : WholeFromBase code := by
  have hstays := generateHash_isSome_iff.1 h.returns
  have hget := ha.toNat_length
  have hsmall : code.length < 2 ^ 31 := by
    by_contra hlong
    have hlast : numBytes * (2 ^ 29 - 1) < 2 ^ 31 := by decide
    obtain ⟨hi, hon, hload⟩ := hashIndex_of_long (m := m) ha hstays (Nat.le_of_not_lt hlong) hlast
    exact absurd (h.noOverflow _ hi hon hload) (by decide)
  rcases hstays with hno | ⟨hpos, htag, hseal, hload, hin⟩
  · exact absurd ha.1 hno
  have hfits := code.fits htag
  -- the first byte and the last one hold the address at the base
  have hfirst := hin 0 hpos (Or.inl (by decide))
  have hlast := hin (code.length - 1) (by omega) (Or.inl (by omega))
  refine ⟨htag, hseal, hload, ?_, hget ▸ hpos, hsmall⟩
  apply BitVec.eq_of_toNat_eq
  have haddress := code.address.isLt
  unfold Capability.InBounds at hfirst hlast
  rw [BitVec.toNat_add, BitVec.toNat_ofNat] at hfirst hlast
  omega

end

/-- **The code section is hashed as a whole or refused exactly where its length
is no multiple of four, or it can be loaded through from its base on and has
between four bytes and two gigabytes.** -/
theorem hashesWhole_iff (lib : Sha256Lib) (m : Memory) (hashStruct : HashType)
    (code : Capability) :
    HashesWhole lib m hashStruct code
      ↔ (cheriLengthGet code).toNat % numBytes ≠ 0 ∨ WholeFromBase code := by
  by_cases ha : HashAccepts code
  · rw [or_iff_right (not_not.2 ha.1)]
    exact ⟨fun h => h.wholeFromBase ha, fun h => h.hashesWhole ha⟩
  · have h4 : (cheriLengthGet code).toNat % numBytes ≠ 0 := fun h4 => ha ⟨h4, by decide⟩
    have hhash : generateHash lib m hashStruct code = some { hashStruct with valid := false } :=
      generateHash_of_not_accepts ha
    have hnever : ∀ i, ¬ HashIndex m code i := by
      intro i hi
      induction hi with
      | start ha' => exact ha ha'
      | next _ _ _ ih => exact ih
    refine iff_of_true ⟨?_, fun hash hsome hvalid => ?_, fun _ _ _ => hashFed_of_not_accepts ha,
      fun i hi => absurd hi (hnever i), fun i hi => absurd hi (hnever i)⟩ (Or.inl h4)
    · rw [hhash]
      rfl
    · rw [hhash] at hsome
      obtain rfl := Option.some.inj hsome
      exact absurd hvalid Bool.false_ne_true

/-- A code section of sixteen bytes, with the address at its second
instruction. -/
def offsetCode : Capability where
  tag := true
  base := 0x1000
  length := 16
  address := 0x1004
  perms := ⟨true, false, true, true, false, false, false, true⟩
  otype := 0
  fits := fun _ => by decide

/-- **A section whose address is behind its base is read past its end.** -/
theorem offsetCode_not_hashesWhole :
    offsetCode.InBounds offsetCode.address 1
      ∧ ¬ HashesWhole feedRecorder ⟨fun _ => 0, fun _ => invalidCap⟩ ⟨false, 0⟩ offsetCode := by
  refine ⟨by decide, fun h => ?_⟩
  have hwhole := h.wholeFromBase ⟨by decide, by decide⟩
  exact absurd hwhole.address (by decide)

end Morello
