import CheriTree.Sail.StoreId

/-!
# The identity of a section

`make_hash` loads a code section word by word, from the base of its capability
to its top, and hands each word to the hash function with its bytes swapped.
The memory is little-endian and the hash function takes the highest byte of a
word first, so that it sees the bytes of the section in the order they have in
memory.

A word is loaded from the place its address translates to, and the bytes of
the section are those at these places. Where the last word ends at the end of
the address space the address wraps, and the loop never ends with a digest.
-/

namespace Sail

open Prog ByteOrder

variable {f : CapFormat} {p : Platform f} {s s' : State f}

/-- The bytes of a word in memory. -/
theorem leBytes_readMem (mem : ℕ → BitVec 8) (addr : ℕ) :
    leBytes (readMem mem addr 4) = (List.range 4).map (fun j => mem (addr + j)) := by
  refine List.map_congr_left fun j hj => ?_
  have hlt := List.mem_range.1 hj
  apply BitVec.eq_of_toNat_eq
  rw [BitVec.extractLsb'_toNat, readMem, BitVec.toNat_ofNat, Nat.shiftRight_eq_div_pow]
  simp only [bytesToNat]
  have h₀ := (mem addr).isLt
  have h₁ := (mem (addr + 1)).isLt
  have h₂ := (mem (addr + 1 + 1)).isLt
  have h₃ := (mem (addr + 1 + 1 + 1)).isLt
  obtain rfl | rfl | rfl | rfl : j = 0 ∨ j = 1 ∨ j = 2 ∨ j = 3 := by omega
  · simp only [Nat.reduceMul, Nat.reducePow, Nat.add_zero]
    omega
  · simp only [Nat.reduceMul, Nat.reducePow]
    omega
  · rw [show addr + 2 = addr + 1 + 1 from rfl]
    simp only [Nat.reduceMul, Nat.reducePow]
    omega
  · rw [show addr + 3 = addr + 1 + 1 + 1 from rfl]
    simp only [Nat.reduceMul, Nat.reducePow]
    omega

/-- **The `n` bytes of a section**: every word is at a place of the memory that
holds its four bytes. -/
def SectionHolds (p : Platform f) (s : State f) (base : BitVec f.xlen) (n : ℕ)
    (c : ℕ → BitVec 8) : Prop :=
  ∀ k, 4 * k < n → ∃ addr ptw,
    translateAddr p (wordAt base k) (.Read .Data) s = .ok (.TR_Address addr ptw, s)
      ∧ p.withinMmioReadable addr 4 = false ∧ ∀ j < 4, s.mem (addr.toNat + j) = c (4 * k + j)

/-- **A word that is loaded** has the bytes of its place. -/
theorem loadWordNoreg_bytes {authIdx : BitVec 6} {auth : Capability f}
    {vaddr addr : BitVec f.xlen} {ptw : ExtPtw} {v : BitVec 32}
    (htr : translateAddr p vaddr (.Read .Data) s = .ok (.TR_Address addr ptw, s))
    (hram : p.withinMmioReadable addr 4 = false)
    (h : loadWordNoreg p authIdx auth vaddr s = .ok (some v, s')) :
    s' = s ∧ leBytes v = (List.range 4).map (fun j => s.mem (addr.toNat + j)) := by
  unfold loadWordNoreg at h
  simp only [Prog.ite_eq_ok, noneWithCap_ne_some, noneWith_ne_some, and_false, false_or] at h
  obtain ⟨-, -, -, -, -, h⟩ := h
  obtain ⟨r, u, htr', h⟩ := Prog.bind_eq_ok.1 h
  obtain ⟨rfl, rfl⟩ := Prod.mk.inj (Except.ok.inj (htr.symm.trans htr'))
  obtain ⟨r, u, hread, h⟩ := Prog.bind_eq_ok.1 h
  cases r with
  | error e => exact absurd h noneWith_ne_some
  | ok v' =>
    obtain ⟨hv, rfl⟩ := Prog.pure_eq_ok.1 h
    obtain rfl := silent_memReadMeta _ _ _ _ _ _ _ hread
    refine ⟨rfl, ?_⟩
    have hchecked := memReadMeta_ok hread
    unfold checkedMemRead at hchecked
    rw [hram, if_neg Bool.false_ne_true] at hchecked
    split at hchecked
    · rw [← Option.some.inj hv, ← Except.ok.inj hchecked]
      exact leBytes_readMem _ _
    · cases hchecked

/-- The words of a section that the hash function gets, as bytes. -/
theorem flatMap_words {c : ℕ → BitVec 8} {words : List (BitVec 32)} {k : ℕ} {v : BitVec 32}
    (hwords : words.flatMap beBytes = (List.range (4 * k)).map c)
    (hv : leBytes v = (List.range 4).map (fun j => c (4 * k + j))) :
    (words ++ [wordLeBeSwap v]).flatMap beBytes = (List.range (4 * (k + 1))).map c := by
  rw [List.flatMap_append, hwords, List.flatMap_singleton]
  show _ ++ beBytes (swapBytes v) = _
  rw [beBytes_swapBytes, hv, Nat.mul_succ, List.range_add, List.map_append, List.map_map]
  rfl

/-- A loop up to the end of the address space never ends with a digest. -/
theorem hashLoop_ne_some {cs1 : RegIdx} {top : BitVec (f.xlen + 1)} (htop : 2 ^ f.xlen ≤ top.toNat)
    (fuel : ℕ) (cap : Capability f) (words result : List (BitVec 32)) (s s' : State f) :
    hashLoop p cs1 top fuel cap words s ≠ .ok (some result, s') := by
  induction fuel generalizing cap words s with
  | zero => exact throw_ne_ok
  | succ fuel ih =>
    intro h
    rw [hashLoop] at h
    obtain ⟨-, h⟩ | ⟨hge, -⟩ := ite_eq_ok.1 h
    · obtain ⟨r, t, -, h⟩ := Prog.bind_eq_ok.1 h
      cases r with
      | none => exact absurd (pure_eq_ok.1 h).1 (by simp)
      | some data => exact ih _ _ _ h
    · exact hge (lt_of_lt_of_le cap.address.isLt htop)

/-- **The loop**: what it hands to the hash function. -/
theorem hashLoop_bytes {cs1 : RegIdx} {top : BitVec (f.xlen + 1)}
    {base : BitVec f.xlen} {n : ℕ} {c : ℕ → BitVec 8} (hmod : n % 4 = 0)
    (htop : top.toNat = base.toNat + n) (hlt : top.toNat < 2 ^ f.xlen)
    (hholds : SectionHolds p s base n c) (fuel : ℕ) {cap : Capability f} {k : ℕ}
    {words result : List (BitVec 32)} (hk : 4 * k ≤ n) (haddr : cap.address = wordAt base k)
    (hwords : words.flatMap beBytes = (List.range (4 * k)).map c)
    (h : hashLoop p cs1 top fuel cap words s = .ok (some result, s')) :
    s' = s ∧ result.flatMap beBytes = (List.range n).map c := by
  induction fuel generalizing cap k words with
  | zero => exact absurd h throw_ne_ok
  | succ fuel ih =>
    have hnat : (wordAt base k).toNat = base.toNat + 4 * k := by
      rw [wordAt, BitVec.toNat_add, BitVec.toNat_ofNat, Nat.mod_eq_of_lt (a := 4 * k) (by omega),
        Nat.mod_eq_of_lt (by omega)]
    rw [hashLoop] at h
    obtain ⟨hin, h⟩ | ⟨hge, h⟩ := ite_eq_ok.1 h
    · rw [haddr, hnat] at hin
      obtain ⟨r, t, hload, hrest⟩ := Prog.bind_eq_ok.1 h
      cases r with
      | none => exact absurd (pure_eq_ok.1 hrest).1 (by simp)
      | some data =>
        obtain ⟨addr, ptw, htr, hram, hbytes⟩ := hholds k (by omega)
        rw [haddr] at hload
        obtain ⟨rfl, hv⟩ := loadWordNoreg_bytes htr hram hload
        refine ih (k := k + 1) (by omega) ?_ (flatMap_words hwords ?_) hrest
        · show cap.address + 4 = _
          rw [haddr, wordAt, wordAt, BitVec.add_assoc, Nat.mul_succ, BitVec.ofNat_add]
          rfl
        · rw [hv]
          exact List.map_congr_left fun j hj => hbytes j (List.mem_range.1 hj)
    · rw [haddr, hnat] at hge
      obtain ⟨hres, rfl⟩ := pure_eq_ok.1 h
      refine ⟨rfl, ?_⟩
      rw [← Option.some.inj hres, hwords, show 4 * k = n by omega]

/-- **The identity of a section is the digest of its bytes.** -/
theorem makeHash_bytes {cs1 : RegIdx} {fuel : ℕ} {id : Hash} {n : ℕ} {c : ℕ → BitVec 8}
    {sha256 : List (BitVec 8) → BitVec 256}
    (hsha : ∀ words, p.sha256 words = sha256 (words.flatMap beBytes)) (hmod : n % 4 = 0)
    (hn : (s.rC cs1).unsealCap.getCapBoundsBits.2.toNat
      = (s.rC cs1).unsealCap.getCapBaseBits.toNat + n)
    (hholds : SectionHolds p s (s.rC cs1).unsealCap.getCapBaseBits n c)
    (h : makeHash p fuel cs1 s = .ok (some id, s')) :
    id = sha256 ((List.range n).map c) := by
  obtain ⟨u, t, hget, h⟩ := Prog.bind_eq_ok.1 h
  obtain ⟨rfl, rfl⟩ := get_eq_ok.1 hget
  obtain ⟨u, t, hassert, hrest⟩ := Prog.bind_eq_ok.1 h
  have haddr : (s.rC cs1).unsealCap.address = (s.rC cs1).unsealCap.getCapBaseBits := by
    obtain ⟨hyes, -⟩ | ⟨-, hno⟩ := ite_eq_ok.1 hassert
    · exact of_decide_eq_true hyes
    · exact absurd hno throw_ne_ok
  obtain rfl := silent_assert _ _ _ _ hassert
  obtain ⟨r, t', hloop, hdone⟩ := Prog.bind_eq_ok.1 hrest
  cases r with
  | none => exact absurd (pure_eq_ok.1 hdone).1 (by simp)
  | some words =>
    have hlt : (t.rC cs1).unsealCap.getCapBoundsBits.2.toNat < 2 ^ f.xlen :=
      Nat.lt_of_not_ge fun htop => hashLoop_ne_some htop _ _ _ _ _ _ hloop
    obtain ⟨-, hbytes⟩ := hashLoop_bytes hmod hn hlt hholds fuel (k := 0) (Nat.zero_le _)
      (haddr.trans (wordAt_zero _).symm) rfl hloop
    rw [← Option.some.inj (pure_eq_ok.1 hdone).1, hsha, hbytes]

/-! ## In memory -/

/-- **A section is attested**: whatever its bytes, an `EStoreId` that retires
after it has found the identity of the section in the table, and that stores in
memory, leaves the bytes of the digest of the section at the places of the
buffer. -/
def AttestsSection (p : Platform f) (sha256 : List (BitVec 8) → BitVec 256) (n : ℕ) : Prop :=
  ∀ (s s' t t' : State f) (fuel : ℕ) (cs1 rd rs1 cs2 : RegIdx) (id : Hash) (entry : EMapping f)
      (c : ℕ → BitVec 8),
    (s.rC cs1).unsealCap.getCapBoundsBits.2.toNat
      = (s.rC cs1).unsealCap.getCapBaseBits.toNat + n →
    SectionHolds p s (s.rC cs1).unsealCap.getCapBaseBits n c →
    makeHash p fuel cs1 s = .ok (some id, s') →
    t.foundId rs1 = some entry → entry.id = id → cs2 ≠ 0 →
    executeEStoreId p rd rs1 cs2 t = .ok (.RETIRE_SUCCESS, t') →
      ∃ places, places.length = 8 ∧ BufferAt p (t.wX rd 1) (t.rC cs2) id places
        ∧ ((∀ addr ∈ places, p.withinMmioWritable addr 4 = false) →
          HoldsDigest p (t.wX rd 1) t' (sha256 ((List.range n).map c)) places)

/-- **Every section of whole words is attested.** -/
theorem attestsSection (hwalk : p.WalkReads) (hoff : p.WalkKeepsOffset)
    {sha256 : List (BitVec 8) → BitVec 256}
    (hsha : ∀ words, p.sha256 words = sha256 (words.flatMap beBytes)) {n : ℕ} (hmod : n % 4 = 0) :
    AttestsSection p sha256 n := by
  intro s s' t t' fuel cs1 rd rs1 cs2 id entry c hn hholds hhash hfound hid hcs2 hexec
  have hdigest := makeHash_bytes hsha hmod hn hholds hhash
  subst hid
  cases executeEStoreId_ends hwalk hexec with
  | absent _ hnone =>
    rw [hnone] at hfound
    cases hfound
  | unstored _ _ hzero => exact absurd hzero hcs2
  | stored _ hfound' _ hends hlen =>
    obtain rfl := Option.some.inj (hfound.symm.trans hfound')
    refine ⟨_, hlen, hends.1.bufferAt, fun hram => ?_⟩
    rw [← hdigest]
    exact hends.1.holdsDigest hoff (le_of_eq hlen) hram

end Sail
