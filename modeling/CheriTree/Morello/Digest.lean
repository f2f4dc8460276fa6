import CheriTree.Morello.Hypercalls

/-!
# What the hypervisor hashes

`generateHash` feeds the code section to the digest four bytes at a time, from
the address of the code capability on. Where the length is a multiple of four
and at most `2 ^ 31`, a digest that comes out is the digest of the section: the
loads keep the address at the base (`generateHash_eq`). Beyond `2 ^ 31` the
index wraps and the loop ends early.
-/

namespace Morello

variable {lib : Sha256Lib} {m : Memory} {code : Capability}

theorem loadByte_some {a : Word} {v : Byte} (h : m.loadByte code a = some v) :
    code.tag = true ∧ code.InBounds a 1 ∧ v = m.byte a.toNat := by
  unfold Memory.loadByte at h
  split at h
  · rename_i hc
    exact ⟨hc.1, hc.2.2.2, (Option.some.inj h).symm⟩
  · cases h

/-- The bytes at four addresses. -/
def chunkAt (m : Memory) (a : Word) : List Byte :=
  (List.range numBytes).map (fun k => m.byte (a + BitVec.ofNat 64 k).toNat)

theorem loadBytes_some {a : Word} {bytes : List Byte} (h : loadBytes m code a = some bytes) :
    code.tag = true ∧ (∀ k < numBytes, code.InBounds (a + BitVec.ofNat 64 k) 1)
      ∧ bytes = chunkAt m a := by
  have hall : ∀ (ks : List ℕ) (bytes : List Byte),
      ks.mapM (fun k => m.loadByte code (a + BitVec.ofNat 64 k)) = some bytes →
      (∀ k ∈ ks, code.tag = true ∧ code.InBounds (a + BitVec.ofNat 64 k) 1)
        ∧ bytes = ks.map (fun k => m.byte (a + BitVec.ofNat 64 k).toNat) := by
    intro ks
    induction ks with
    | nil =>
      intro bytes h
      rw [List.mapM_nil] at h
      exact ⟨fun k hk => (List.not_mem_nil hk).elim, (Option.some.inj h).symm⟩
    | cons k ks ih =>
      intro bytes h
      rw [List.mapM_cons, Option.bind_eq_bind, Option.bind_eq_some_iff] at h
      obtain ⟨v, hv, h⟩ := h
      rw [Option.bind_eq_bind, Option.bind_eq_some_iff] at h
      obtain ⟨vs, hvs, h⟩ := h
      obtain ⟨htag, hin, rfl⟩ := loadByte_some hv
      obtain ⟨hks, rfl⟩ := ih vs hvs
      refine ⟨fun q hq => ?_, (Option.some.inj h).symm⟩
      rcases List.mem_cons.1 hq with rfl | hq
      · exact ⟨htag, hin⟩
      · exact hks q hq
  obtain ⟨hin, hb⟩ := hall _ _ h
  exact ⟨(hin 0 (by decide)).1, fun k hk => (hin k (List.mem_range.2 hk)).2, hb⟩

theorem signExtend_ofNat {n : ℕ} (h : n < 2 ^ 31) :
    (BitVec.ofNat 32 n).signExtend 64 = BitVec.ofNat 64 n := by
  rw [BitVec.signExtend_eq_setWidth_of_msb_false]
  · apply BitVec.eq_of_toNat_eq
    simp [BitVec.toNat_setWidth]
    omega
  · rw [BitVec.msb_eq_decide, decide_eq_false_iff_not, BitVec.toNat_ofNat]
    omega

/-- The index of the loop, moved on. -/
theorem ofNat_index_succ (j : ℕ) :
    BitVec.ofNat 32 (numBytes * j) + BitVec.ofNat 32 numBytes
      = BitVec.ofNat 32 (numBytes * (j + 1)) := by
  rw [← BitVec.ofNat_add, Nat.mul_succ]

/-- The condition of the loop, for a length that is a multiple of four. -/
theorem hashLoop_cond {j : ℕ} (hpos : 0 < (cheriLengthGet code).toNat)
    (hlen : (cheriLengthGet code).toNat ≤ 2 ^ 31) (h4 : (cheriLengthGet code).toNat % numBytes = 0)
    (hj : numBytes * j ≤ (cheriLengthGet code).toNat) :
    ((BitVec.ofNat 32 (numBytes * j)).signExtend 64
        < cheriLengthGet code - BitVec.ofNat 64 numBytes + 1)
      ↔ numBytes * j < (cheriLengthGet code).toNat := by
  have hbound : (cheriLengthGet code - BitVec.ofNat 64 numBytes + 1).toNat
      = (cheriLengthGet code).toNat - 3 := by
    rw [BitVec.toNat_add, BitVec.toNat_sub, BitVec.toNat_ofNat]
    show ((2 ^ 64 - numBytes % 2 ^ 64 + _) % 2 ^ 64 + 1) % 2 ^ 64 = _
    rw [numBytes] at *
    omega
  rw [BitVec.lt_def, hbound]
  rcases Nat.lt_or_ge (numBytes * j) (2 ^ 31) with hlt | hge
  · rw [signExtend_ofNat hlt, BitVec.toNat_ofNat, numBytes] at *
    omega
  · -- the index is negative, and past every bound
    have hj' : numBytes * j = 2 ^ 31 := le_antisymm (le_trans hj hlen) hge
    have hlen' : (cheriLengthGet code).toNat = 2 ^ 31 := le_antisymm hlen (hj' ▸ hj)
    rw [hj', hlen']
    decide

/-- **The loop**: what it has consumed when it ends. -/
theorem hashLoop_some (hpos : 0 < (cheriLengthGet code).toNat)
    (hlen : (cheriLengthGet code).toNat ≤ 2 ^ 31) (h4 : (cheriLengthGet code).toNat % numBytes = 0)
    (n : ℕ) {j : ℕ} (hn : numBytes * (j + n) = (cheriLengthGet code).toNat) {md md' : lib.State}
    (h : hashLoop lib m code (BitVec.ofNat 32 (numBytes * j)) md = some md') :
    (∀ k < n, code.tag = true ∧ ∀ t < numBytes,
        code.InBounds (code.address + BitVec.ofNat 64 (numBytes * (j + k)) + BitVec.ofNat 64 t) 1)
      ∧ md' = ((List.range n).map (fun k =>
          chunkAt m (code.address + BitVec.ofNat 64 (numBytes * (j + k))))).foldl
            lib.process md := by
  induction n generalizing j md with
  | zero =>
    rw [Nat.add_zero] at hn
    rw [hashLoop, if_neg] at h
    · exact ⟨fun k hk => absurd hk (Nat.not_lt_zero k), (Option.some.inj h).symm⟩
    · rw [hashLoop_cond hpos hlen h4 (le_of_eq hn), ← hn]
      exact lt_irrefl _
  | succ n ih =>
    have hlt : numBytes * j < (cheriLengthGet code).toNat := by
      rw [← hn, numBytes]
      omega
    rw [hashLoop, if_pos ((hashLoop_cond hpos hlen h4 (le_of_lt hlt)).2 hlt),
      signExtend_ofNat (lt_of_lt_of_le hlt hlen)] at h
    split at h
    · cases h
    · rename_i bytes hload
      split at h
      · cases h
      · obtain ⟨htag, hin, rfl⟩ := loadBytes_some hload
        rw [ofNat_index_succ] at h
        obtain ⟨hrest, hmd⟩ := ih (j := j + 1) (by rw [← hn]; congr 1; omega) h
        constructor
        · intro k hk
          cases k with
          | zero => exact ⟨htag, hin⟩
          | succ k =>
            have := hrest k (by omega)
            rw [show j + 1 + k = j + (k + 1) by omega] at this
            exact this
        · rw [hmd, List.range_succ_eq_map, List.map_cons, List.foldl_cons, List.map_map,
            Nat.add_zero]
          congr 1
          refine List.map_congr_left (fun k _ => ?_)
          show _ = chunkAt m (code.address + BitVec.ofNat 64 (numBytes * (j + (k + 1))))
          rw [show j + 1 + k = j + (k + 1) by omega]

/-- The pieces of a range, one after the other. -/
theorem flatten_chunks {a : Word} (n : ℕ) (hfit : a.toNat + numBytes * n ≤ 2 ^ 64) :
    ((List.range n).map (fun k => chunkAt m (a + BitVec.ofNat 64 (numBytes * k)))).flatten
      = m.bytesOf ⟨a.toNat, numBytes * n⟩ := by
  induction n with
  | zero => rfl
  | succ n ih =>
    rw [numBytes] at hfit
    rw [List.range_succ, List.map_append, List.flatten_append, ih (by rw [numBytes]; omega)]
    unfold Memory.bytesOf chunkAt
    rw [Nat.mul_succ, List.range_add, List.map_append, List.map_map]
    congr 1
    simp only [List.map_cons, List.map_nil, List.flatten_cons, List.flatten_nil, List.append_nil]
    refine List.map_congr_left (fun t ht => ?_)
    have ht' := List.mem_range.1 ht
    rw [numBytes] at ht'
    show m.byte _ = m.byte (a.toNat + (numBytes * n + t))
    congr 1
    rw [BitVec.toNat_add, BitVec.toNat_add, BitVec.toNat_ofNat, BitVec.toNat_ofNat, numBytes]
    omega

/-- A digest is only made of a section that has bytes. -/
theorem hashLoop_zero (h0 : code.length = 0) (md : lib.State) :
    hashLoop lib m code 0 md = none := by
  rw [hashLoop, if_pos]
  · rcases hload : loadBytes m code (code.address + BitVec.signExtend 64 0) with _ | bytes
    · rfl
    · obtain ⟨-, hin, -⟩ := loadBytes_some hload
      have := hin 0 (by decide)
      unfold Capability.InBounds at this
      omega
  · rw [cheriLengthGet, h0]
    decide

/-- **The digest is that of the code section**, where its length is a multiple
of four of at most `2 ^ 31`. -/
theorem generateHash_eq {hashStruct hash : HashType} (hlen : code.length ≤ 2 ^ 31)
    (h4 : code.length % numBytes = 0) (h : generateHash lib m hashStruct code = some hash) :
    hash.hash = lib.sha256 (m.bytesOf code.range) := by
  have hget : (cheriLengthGet code).toNat = code.length := by
    rw [cheriLengthGet, BitVec.toNat_ofNat]
    omega
  unfold generateHash at h
  rw [if_neg (by
    rw [not_not, hget]
    exact ⟨h4, by decide⟩), Option.map_eq_some_iff] at h
  obtain ⟨md, hloop, rfl⟩ := h
  rcases Nat.eq_zero_or_pos code.length with h0 | hpos
  · rw [hashLoop_zero h0] at hloop
    cases hloop
  · obtain ⟨n, hn⟩ := Nat.dvd_of_mod_eq_zero h4
    obtain ⟨hin, hmd⟩ :=
      hashLoop_some (j := 0) (by rw [hget]; exact hpos) (by rw [hget]; exact hlen)
      (by rw [hget]; exact h4) n (by rw [hget, Nat.zero_add, hn]) hloop
    simp only [Nat.zero_add] at hin hmd
    rw [numBytes] at hn
    have hfits := code.fits (hin 0 (by omega)).1
    -- the first byte and the last one hold the address at the base
    have hfirst := (hin 0 (by omega)).2 0 (by decide)
    have hlast := (hin (n - 1) (by omega)).2 3 (by decide)
    have haddr : code.address = code.base := by
      apply BitVec.eq_of_toNat_eq
      have ha := code.address.isLt
      unfold Capability.InBounds at hfirst hlast
      rw [BitVec.toNat_add, BitVec.toNat_add, BitVec.toNat_ofNat, BitVec.toNat_ofNat, numBytes]
        at hfirst hlast
      omega
    show lib.done md = _
    rw [hmd, lib.computes, flatten_chunks n (by rw [haddr, numBytes]; omega), haddr,
      Capability.range, hn]
    rfl

end Morello
