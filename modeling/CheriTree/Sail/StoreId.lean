import CheriTree.ByteOrder
import CheriTree.Sail.KeyStore

/-!
# Storing an identity

`EStoreId` writes its result register and then stores the identity, word by
word, each through the checks of a store of its own. A store that fails ends the
instruction with the register and the words before it already written.

The words go to the places their addresses translate to (`Stored`). The
translation keeps the offset in a page, and so the places are apart; where all
eight are in memory, they hold the identity in the order of its bytes
(`HoldsDigest`).
-/

namespace Sail

open Prog

variable {f : CapFormat} {p : Platform f} {s s' : State f}

/-! ## One word -/

/-- **A word store goes through**, to the place that its address translates
to. -/
structure WordStoresAt (p : Platform f) (s : State f) (auth : Capability f) (value : BitVec 32)
    (vaddr addr : BitVec f.xlen) (s' : State f) : Prop where
  tag : auth.tag = true
  unsealed : auth.isCapSealed = false
  permitStore : auth.permitStore = true
  bounds : auth.inCapBounds vaddr 4 = true
  aligned : wordMisaligned p vaddr = false
  translates : ∃ ptw, translateAddr p vaddr (.Write .Data) s = .ok (.TR_Address addr ptw, s)
  guard : pmpGuard p (.Write .Data) addr 4 s = .ok (none, s)
  write : checkedMemWrite p s addr 4 value false = .ok s'

/-- **A word store** fails by one exception, or goes through. -/
theorem storeWordViaCap_cases (hwalk : p.WalkReads) {value : BitVec 32} {authIdx : BitVec 6}
    {auth : Capability f} {vaddr : BitVec f.xlen} {r : Retired}
    (h : storeWordViaCap p value authIdx auth vaddr s = .ok (r, s')) :
    (r = .RETIRE_FAIL ∧ s.Trapped s' ∧ ∀ addr t, ¬ WordStoresAt p s auth value vaddr addr t)
      ∨ (r = .RETIRE_SUCCESS ∧ ∃ addr, WordStoresAt p s auth value vaddr addr s') := by
  obtain ⟨h1, h⟩ | ⟨h1, h⟩ := ite_eq_ok.1 h
  · obtain ⟨rfl, htrap⟩ := trapped_of_exception h
    exact Or.inl ⟨rfl, htrap, fun _ _ hs => by simp [hs.tag] at h1⟩
  obtain ⟨h2, h⟩ | ⟨h2, h⟩ := ite_eq_ok.1 h
  · obtain ⟨rfl, htrap⟩ := trapped_of_exception h
    exact Or.inl ⟨rfl, htrap, fun _ _ hs => by simp [hs.unsealed] at h2⟩
  obtain ⟨h3, h⟩ | ⟨h3, h⟩ := ite_eq_ok.1 h
  · obtain ⟨rfl, htrap⟩ := trapped_of_exception h
    exact Or.inl ⟨rfl, htrap, fun _ _ hs => by simp [hs.permitStore] at h3⟩
  obtain ⟨h4, h⟩ | ⟨h4, h⟩ := ite_eq_ok.1 h
  · obtain ⟨rfl, htrap⟩ := trapped_of_exception h
    exact Or.inl ⟨rfl, htrap, fun _ _ hs => by simp [hs.bounds] at h4⟩
  obtain ⟨h5, h⟩ | ⟨h5, h⟩ := ite_eq_ok.1 h
  · obtain ⟨rfl, htrap⟩ := trapped_of_exception h
    exact Or.inl ⟨rfl, htrap, fun _ _ hs => by simp [hs.aligned] at h5⟩
  obtain ⟨tr, t, htr, hrest⟩ := Prog.bind_eq_ok.1 h
  obtain rfl := silent_translateAddr hwalk _ _ _ _ _ htr
  split at hrest
  · exact absurd hrest throw_ne_ok
  · obtain ⟨rfl, htrap⟩ := trapped_of_exception hrest
    refine Or.inl ⟨rfl, htrap, fun addr u hs => ?_⟩
    obtain ⟨ptw', htr'⟩ := hs.translates
    have := htr.symm.trans htr'
    simp at this
  · rename_i addr ptw
    obtain ⟨res, u, hwrite, hend⟩ := Prog.bind_eq_ok.1 hrest
    obtain ⟨rfl, hguard, hmem⟩ | ⟨e, rfl, rfl, hnone⟩ := memWriteValueMeta_cases hwrite
    · obtain ⟨rfl, rfl⟩ := pure_eq_ok.1 hend
      exact Or.inr ⟨rfl, addr, by simpa using h1, by simpa using h2, by simpa using h3,
        by simpa using h4, by simpa using h5, ⟨ptw, htr⟩, hguard, hmem⟩
    · obtain ⟨rfl, htrap⟩ := trapped_of_exception hend
      refine Or.inl ⟨rfl, htrap, fun addr' w hs => ?_⟩
      obtain ⟨ptw', htr'⟩ := hs.translates
      have heq := htr.symm.trans htr'
      simp only [Except.ok.injEq, Prod.mk.injEq, TRResult.TR_Address.injEq, and_true] at heq
      obtain ⟨rfl, -⟩ := heq
      exact hnone w ⟨hs.guard, hs.write⟩

/-! ## The words of an identity -/

/-- The word that is stored at step `i`. -/
def idWord (id : Hash) (i : ℕ) : BitVec 32 := wordLeBeSwap (id.extractLsb' (224 - 32 * i) 32)

/-- **The bytes of an identity**, in the order of the digest. -/
def digestByte (id : Hash) (n : ℕ) : BitVec 8 := id.extractLsb' (248 - 8 * n) 8

/-- The word in memory has the bytes of the identity in their order. -/
theorem extractLsb'_idWord (id : Hash) {i j : ℕ} (hi : i < 8) (hj : j < 4) :
    (idWord id i).extractLsb' (8 * j) 8 = digestByte id (4 * i + j) :=
  ByteOrder.extractLsb'_swapBytes_digest id hi hj

/-- **The words stored so far**, with the places they went to. -/
inductive Stored (p : Platform f) (auth : Capability f) (id : Hash) (s : State f) :
    List (BitVec f.xlen) → State f → Prop
  | nil : Stored p auth id s [] s
  | snoc {places : List (BitVec f.xlen)} {t u : State f} {addr : BitVec f.xlen}
      (h : Stored p auth id s places t)
      (hword : WordStoresAt p t auth (idWord id places.length) (wordAt auth.address places.length)
        addr u) :
      Stored p auth id s (places ++ [addr]) u

/-- **The stores end after these words**: there are eight of them, or the next
one does not go through. -/
def EndsAt (p : Platform f) (auth : Capability f) (id : Hash) (s : State f)
    (places : List (BitVec f.xlen)) (t : State f) : Prop :=
  Stored p auth id s places t ∧ places.length ≤ 8
    ∧ (places.length < 8 → ∀ addr u, ¬ WordStoresAt p t auth (idWord id places.length)
      (wordAt auth.address places.length) addr u)

section Stored

variable {auth : Capability f} {id : Hash}

theorem WordStoresAt.unique {value : BitVec 32} {vaddr addr addr' : BitVec f.xlen} {t t' : State f}
    (h : WordStoresAt p s auth value vaddr addr t)
    (h' : WordStoresAt p s auth value vaddr addr' t') :
    addr = addr' ∧ t = t' := by
  obtain ⟨ptw, htr⟩ := h.translates
  obtain ⟨ptw', htr'⟩ := h'.translates
  have heq := htr.symm.trans htr'
  simp only [Except.ok.injEq, Prod.mk.injEq, TRResult.TR_Address.injEq, and_true] at heq
  obtain ⟨rfl, -⟩ := heq
  exact ⟨rfl, Except.ok.inj (h.write.symm.trans h'.write)⟩

/-- The words before are stored too, and each goes to its place. -/
theorem Stored.before {places : List (BitVec f.xlen)} {t : State f}
    (h : Stored p auth id s places t) {k : ℕ} {addr : BitVec f.xlen}
    (hk : places[k]? = some addr) :
    ∃ places' t' u, places'.length = k ∧ Stored p auth id s places' t'
      ∧ WordStoresAt p t' auth (idWord id k) (wordAt auth.address k) addr u := by
  induction h with
  | nil => cases hk
  | @snoc places t u last h hword ih =>
    obtain hlt | hge := Nat.lt_or_ge k places.length
    · rw [List.getElem?_append_left hlt] at hk
      exact ih hk
    · rw [List.getElem?_append_right hge, List.getElem?_singleton] at hk
      split at hk
      · obtain rfl := Option.some.inj hk
        obtain rfl : k = places.length := by omega
        exact ⟨places, t, u, rfl, h, hword⟩
      · cases hk

/-- As many words go to the same places. -/
theorem Stored.unique {places places' : List (BitVec f.xlen)} {t t' : State f}
    (h : Stored p auth id s places t) (h' : Stored p auth id s places' t')
    (hlen : places.length = places'.length) : places = places' ∧ t = t' := by
  induction h generalizing places' t' with
  | nil =>
    generalize hp : places' = q at h' hlen
    cases h' with
    | nil => exact ⟨rfl, rfl⟩
    | snoc h hword => simp at hlen
  | @snoc places t u addr h hword ih =>
    generalize hp : places' = q at h' hlen
    cases h' with
    | nil => simp at hlen
    | @snoc places₁ t₁ u₁ addr₁ h₁ hword₁ =>
      rw [List.length_append, List.length_append, List.length_singleton, List.length_singleton]
        at hlen
      obtain ⟨rfl, rfl⟩ := ih h₁ (by omega)
      obtain ⟨rfl, rfl⟩ := hword.unique hword₁
      exact ⟨rfl, rfl⟩

/-- **The stores end in one way.** -/
theorem EndsAt.unique {places places' : List (BitVec f.xlen)} {t t' : State f}
    (h : EndsAt p auth id s places t) (h' : EndsAt p auth id s places' t') :
    places = places' ∧ t = t' := by
  have key : ∀ {places places' : List (BitVec f.xlen)} {t t' : State f},
      EndsAt p auth id s places t → EndsAt p auth id s places' t' →
        ¬ places.length < places'.length := by
    intro places places' t t' h h' hlt
    obtain ⟨q, u, v, hq, hstored, hword⟩ := h'.1.before (List.getElem?_eq_getElem hlt)
    obtain ⟨rfl, rfl⟩ := h.1.unique hstored hq.symm
    exact h.2.2 (by have := h'.2.1; omega) _ v hword
  refine h.1.unique h'.1 ?_
  have h1 := key h h'
  have h2 := key h' h
  omega

/-- **The loop stores words until it ends.** -/
theorem storeIdLoop_cases (hwalk : p.WalkReads) {cs2 : RegIdx} {k n : ℕ} {r : Retired}
    {places : List (BitVec f.xlen)} {t : State f} (hstored : Stored p auth id s places t)
    (hk : places.length = k) (hkn : k + n = 8)
    (h : storeIdLoop p cs2 auth id (List.range' k n) t = .ok (r, s')) :
    ∃ places' t', EndsAt p auth id s places' t'
      ∧ ((r = .RETIRE_SUCCESS ∧ places'.length = 8 ∧ s' = t')
        ∨ (r = .RETIRE_FAIL ∧ places'.length < 8 ∧ t'.Trapped s')) := by
  induction n generalizing k places t with
  | zero =>
    obtain ⟨rfl, rfl⟩ := pure_eq_ok.1 h
    exact ⟨places, t, ⟨hstored, by omega, fun hlt => by omega⟩, Or.inl ⟨rfl, by omega, rfl⟩⟩
  | succ n ih =>
    rw [List.range'_succ] at h
    obtain ⟨ret, u, hstore, hrest⟩ := Prog.bind_eq_ok.1 h
    subst hk
    obtain ⟨rfl, htrap, hnone⟩ | ⟨rfl, addr, hword⟩ := storeWordViaCap_cases hwalk hstore
    · obtain ⟨rfl, rfl⟩ := pure_eq_ok.1 hrest
      exact ⟨places, t, ⟨hstored, by omega, fun _ => hnone⟩, Or.inr ⟨rfl, by omega, htrap⟩⟩
    · exact ih (hstored.snoc hword) (by simp) (by omega) hrest

/-- A write changes memory and devices only. -/
theorem checkedMemWrite_rest {addr : BitVec f.xlen} {n : ℕ} {bits : BitVec (8 * n)} {tag : Bool}
    (h : checkedMemWrite p s addr n bits tag = .ok s') :
    s' = { s with
      mem := s'.mem
      tags := s'.tags
      dev := s'.dev } := by
  unfold checkedMemWrite at h
  split at h
  · cases hdev : p.mmioWrite s.dev addr n bits with
    | error e =>
      rw [hdev] at h
      cases h
    | ok dev =>
      rw [hdev] at h
      obtain rfl := Except.ok.inj h
      rfl
  · split at h
    · obtain rfl := Except.ok.inj h
      rfl
    · cases h

/-- A write that no device takes is one of the memory. -/
theorem checkedMemWrite_mem {addr : BitVec f.xlen} {n : ℕ} {bits : BitVec (8 * n)} {tag : Bool}
    (hmap : p.withinMmioWritable addr n = false)
    (h : checkedMemWrite p s addr n bits tag = .ok s') :
    s'.mem = writeMem s.mem addr.toNat n bits := by
  unfold checkedMemWrite at h
  rw [hmap, if_neg Bool.false_ne_true] at h
  split at h
  · obtain rfl := Except.ok.inj h
    rfl
  · cases h

theorem Stored.rest {places : List (BitVec f.xlen)} {t : State f}
    (h : Stored p auth id s places t) :
    t = { s with
      mem := t.mem
      tags := t.tags
      dev := t.dev } := by
  induction h with
  | nil => rfl
  | snoc h hword ih =>
    have hrest := checkedMemWrite_rest hword.write
    rw [hrest, ih]

end Stored

/-! ## The places -/

/-- **The translation keeps the offset** in a page, which is larger than an
identity. -/
def Platform.WalkKeepsOffset (p : Platform f) : Prop :=
  ∀ mode vAddr ac priv s addr ptw s',
    p.walk mode vAddr ac priv s = .ok (.TR_Address addr ptw, s') →
      addr.toNat % 64 = vAddr.toNat % 64

theorem Platform.WalkKeepsOffset.translateAddr (hoff : p.WalkKeepsOffset)
    {vAddr addr : BitVec f.xlen} {ac : AccessType} {ptw : ExtPtw}
    (h : Sail.translateAddr p vAddr ac s = .ok (.TR_Address addr ptw, s')) :
    addr.toNat % 64 = vAddr.toNat % 64 := by
  obtain ⟨u, v, hget, h⟩ := Prog.bind_eq_ok.1 h
  obtain ⟨priv, v, -, h⟩ := Prog.bind_eq_ok.1 h
  obtain ⟨mode, v, -, h⟩ := Prog.bind_eq_ok.1 h
  obtain ⟨-, h⟩ | ⟨-, h⟩ := ite_eq_ok.1 h
  · have heq := (pure_eq_ok.1 h).1
    simp only [TRResult.TR_Address.injEq] at heq
    rw [heq.1]
  · exact hoff _ _ _ _ _ _ _ _ h

/-- The offset of a word of the buffer. -/
theorem wordAt_mod (a : BitVec f.xlen) (i : ℕ) :
    (wordAt a i).toNat % 64 = (a.toNat + 4 * i) % 64 := by
  have hmw := f.mw_ge
  have hle := f.mw_le
  have hdvd : 64 ∣ 2 ^ f.xlen := by
    rw [show 64 = 2 ^ 6 from rfl]
    exact Nat.pow_dvd_pow 2 (by omega)
  rw [wordAt, BitVec.toNat_add, BitVec.toNat_ofNat, Nat.mod_mod_of_dvd _ hdvd, Nat.add_mod,
    Nat.mod_mod_of_dvd _ hdvd, ← Nat.add_mod]

/-- **The places hold the identity** in the order of its bytes: they are in
memory, and nothing else has changed. -/
structure HoldsDigest (p : Platform f) (s s' : State f) (id : Hash)
    (places : List (BitVec f.xlen)) : Prop where
  memory : ∀ addr ∈ places, p.withinMmioWritable addr 4 = false
  bytes : ∀ i addr, places[i]? = some addr → ∀ j < 4,
    s'.mem (addr.toNat + j) = digestByte id (4 * i + j)
  rest : ∀ m, (∀ addr ∈ places, m < addr.toNat ∨ addr.toNat + 4 ≤ m) → s'.mem m = s.mem m

section Places

variable {auth : Capability f} {id : Hash} {places : List (BitVec f.xlen)} {t : State f}

theorem Stored.offset (hoff : p.WalkKeepsOffset) (h : Stored p auth id s places t) {i : ℕ}
    {addr : BitVec f.xlen} (hi : places[i]? = some addr) :
    addr.toNat % 64 = (auth.address.toNat + 4 * i) % 64 := by
  obtain ⟨_, t', _, _, _, hword⟩ := h.before hi
  obtain ⟨ptw, htr⟩ := hword.translates
  rw [hoff.translateAddr htr, wordAt_mod]

/-- **Words that all go to memory hold the identity.** -/
theorem Stored.holdsDigest (hoff : p.WalkKeepsOffset) (h : Stored p auth id s places t)
    (hlen : places.length ≤ 8) (hram : ∀ addr ∈ places, p.withinMmioWritable addr 4 = false) :
    HoldsDigest p s t id places := by
  induction h with
  | nil => exact ⟨hram, fun _ _ hi => absurd hi (by simp), fun _ _ => rfl⟩
  | @snoc places t u last h hword ih =>
    rw [List.length_append, List.length_singleton] at hlen
    have hmem := checkedMemWrite_mem (hram last (by simp)) hword.write
    obtain ⟨-, hbytes, hrest⟩ := ih (by omega) (fun addr ha => hram addr (by simp [ha]))
    refine ⟨hram, fun i addr hi j hj => ?_, fun m hm => ?_⟩
    · rw [hmem, writeMem]
      obtain hlt | hge := Nat.lt_or_ge i places.length
      · rw [List.getElem?_append_left hlt] at hi
        -- the last word is at another offset
        have h1 := h.offset hoff hi
        have h2 : last.toNat % 64 = (auth.address.toNat + 4 * places.length) % 64 :=
          (h.snoc hword).offset hoff (by simp)
        rw [if_neg (by omega)]
        exact hbytes i addr hi j hj
      · rw [List.getElem?_append_right hge, List.getElem?_singleton] at hi
        split at hi
        · obtain rfl := Option.some.inj hi
          obtain rfl : i = places.length := by omega
          rw [if_pos (by omega), Nat.add_sub_cancel_left]
          exact extractLsb'_idWord id (by omega) hj
        · cases hi
    · have hlast := hm last (by simp)
      rw [hmem, writeMem, if_neg (by omega)]
      exact hrest m (fun addr ha => hm addr (by simp [ha]))

end Places

/-! ## `EStoreId` -/

/-- **The checks of `EStoreId`** on the buffer. -/
structure StoreIdChecks (s : State f) (cs2 : RegIdx) : Prop where
  tag : cs2 ≠ 0 → (s.rC cs2).tag = true
  unsealed : (s.rC cs2).isCapSealed = false
  bounds : (s.rC cs2).inCapBounds (s.rC cs2).address 32 = true

/-- The entry that `EStoreId` finds. -/
def State.foundId (s : State f) (rs1 : RegIdx) : Option (EMapping f) :=
  s.etable.getId (otypeToEid ((s.rX rs1).setWidth f.ow)) false

/-- **How `EStoreId` ends.** -/
inductive StoreIdEnds (p : Platform f) (rd rs1 cs2 : RegIdx) (s : State f) :
    Retired → State f → Prop
  | rejected {s' : State f} (hcheck : ¬ StoreIdChecks s cs2) (h : s.Trapped s') :
      StoreIdEnds p rd rs1 cs2 s .RETIRE_FAIL s'
  | absent (hcheck : StoreIdChecks s cs2) (hfound : s.foundId rs1 = none) :
      StoreIdEnds p rd rs1 cs2 s .RETIRE_SUCCESS (s.wX rd 0)
  | unstored {entry : EMapping f} (hcheck : StoreIdChecks s cs2)
      (hfound : s.foundId rs1 = some entry) (hcs2 : cs2 = 0) :
      StoreIdEnds p rd rs1 cs2 s .RETIRE_SUCCESS (s.wX rd 1)
  | stored {entry : EMapping f} {places : List (BitVec f.xlen)} {t : State f}
      (hcheck : StoreIdChecks s cs2) (hfound : s.foundId rs1 = some entry) (hcs2 : cs2 ≠ 0)
      (hends : EndsAt p (s.rC cs2) entry.id (s.wX rd 1) places t) (hlen : places.length = 8) :
      StoreIdEnds p rd rs1 cs2 s .RETIRE_SUCCESS t
  | stopped {entry : EMapping f} {places : List (BitVec f.xlen)} {t s' : State f}
      (hcheck : StoreIdChecks s cs2) (hfound : s.foundId rs1 = some entry) (hcs2 : cs2 ≠ 0)
      (hends : EndsAt p (s.rC cs2) entry.id (s.wX rd 1) places t) (hlen : places.length < 8)
      (h : t.Trapped s') :
      StoreIdEnds p rd rs1 cs2 s .RETIRE_FAIL s'

/-- **Every end of `EStoreId`.** -/
theorem executeEStoreId_ends (hwalk : p.WalkReads) {rd rs1 cs2 : RegIdx} {r : Retired}
    (h : executeEStoreId p rd rs1 cs2 s = .ok (r, s')) : StoreIdEnds p rd rs1 cs2 s r s' := by
  obtain ⟨u, t, hget, h⟩ := Prog.bind_eq_ok.1 h
  obtain ⟨rfl, rfl⟩ := get_eq_ok.1 hget
  obtain ⟨h1, h⟩ | ⟨h1, h⟩ := ite_eq_ok.1 h
  · obtain ⟨rfl, htrap⟩ := trapped_of_failWith h
    refine .rejected (fun hc => ?_) htrap
    simp only [Bool.and_eq_true, decide_eq_true_eq, Bool.not_eq_true'] at h1
    rw [hc.tag h1.1] at h1
    cases h1.2
  obtain ⟨h2, h⟩ | ⟨h2, h⟩ := ite_eq_ok.1 h
  · obtain ⟨rfl, htrap⟩ := trapped_of_failWith h
    exact .rejected (fun hc => by simp [hc.unsealed] at h2) htrap
  obtain ⟨h3, h⟩ | ⟨h3, h⟩ := ite_eq_ok.1 h
  · obtain ⟨rfl, htrap⟩ := trapped_of_failWith h
    exact .rejected (fun hc => by simp [hc.bounds] at h3) htrap
  have hcheck : StoreIdChecks s cs2 := by
    refine ⟨fun hne => ?_, by simpa using h2, by simpa using h3⟩
    by_contra htag
    refine h1 ?_
    rw [decide_eq_true hne, Bool.eq_false_iff.2 htag]
    rfl
  cases hfound : s.foundId rs1 with
  | none =>
    simp only [show s.etable.getId (otypeToEid ((s.rX rs1).setWidth f.ow)) false = none
      from hfound] at h
    obtain ⟨v, w, hset, hdone⟩ := Prog.bind_eq_ok.1 h
    obtain rfl := set_eq_ok.1 hset
    obtain ⟨rfl, rfl⟩ := pure_eq_ok.1 hdone
    exact .absent hcheck hfound
  | some entry =>
    simp only [show s.etable.getId (otypeToEid ((s.rX rs1).setWidth f.ow)) false = some entry
      from hfound] at h
    obtain ⟨v, w, hset, hrest⟩ := Prog.bind_eq_ok.1 h
    obtain rfl := set_eq_ok.1 hset
    obtain ⟨hcs2, hloop⟩ | ⟨hcs2, hdone⟩ := ite_eq_ok.1 hrest
    · rw [List.range_eq_range'] at hloop
      obtain ⟨places, t, hends, ⟨rfl, hlen, rfl⟩ | ⟨rfl, hlen, htrap⟩⟩ :=
        storeIdLoop_cases hwalk Stored.nil rfl rfl hloop
      · exact .stored hcheck hfound hcs2 hends hlen
      · exact .stopped hcheck hfound hcs2 hends hlen htrap
    · obtain ⟨rfl, rfl⟩ := pure_eq_ok.1 hdone
      exact .unstored hcheck hfound (by simpa using hcs2)

/-- **Where the words of the buffer are**: each address translates there, in the
state that the words before it leave. -/
def BufferAt (p : Platform f) (s : State f) (auth : Capability f) (id : Hash)
    (places : List (BitVec f.xlen)) : Prop :=
  ∀ i addr, places[i]? = some addr → ∃ before t ptw, Stored p auth id s before t
    ∧ before.length = i
    ∧ translateAddr p (wordAt auth.address i) (.Write .Data) t = .ok (.TR_Address addr ptw, t)

/-- **All or nothing**: where `EStoreId` fails, its register and the memory are
what they were; where it retires with a buffer, the register is zero and the
memory is what it was, or the register is one and the buffer holds the identity
of the entry. -/
def AllOrNothing (p : Platform f) (rd rs1 cs2 : RegIdx) (s : State f) : Retired → State f → Prop
  | .RETIRE_FAIL, s' => s'.rX rd = s.rX rd ∧ s'.mem = s.mem
  | .RETIRE_SUCCESS, s' => cs2 ≠ 0 →
    (s'.rX rd = 0 ∧ s'.mem = s.mem)
      ∨ (s'.rX rd = 1 ∧ ∃ entry places, s.foundId rs1 = some entry ∧ places.length = 8
        ∧ BufferAt p (s.wX rd 1) (s.rC cs2) entry.id places ∧ HoldsDigest p s s' entry.id places)

/-- **The identity is stored cleanly**, where it is stored at all: all eight
words go through, to memory, and the register is not register zero; or what was
written before the end was there before. -/
def StoresCleanly (p : Platform f) (rd rs1 cs2 : RegIdx) (s : State f) : Prop :=
  ∀ entry, StoreIdChecks s cs2 → cs2 ≠ 0 → s.foundId rs1 = some entry →
    ∃ places t, EndsAt p (s.rC cs2) entry.id (s.wX rd 1) places t
      ∧ (places.length = 8 ∧ rd ≠ 0 ∧ (∀ addr ∈ places, p.withinMmioWritable addr 4 = false)
        ∨ places.length = 8 ∧ rd = 0 ∧ t.mem = s.mem
        ∨ places.length < 8 ∧ (rd = 0 ∨ s.rX rd = 1) ∧ t.mem = s.mem)

/-- The register that was written. -/
theorem rX_wX (s : State f) (rd : RegIdx) (v : BitVec f.xlen) :
    (s.wX rd v).rX rd = if rd = 0 then 0 else v := by
  unfold State.rX State.wX
  by_cases hrd : rd = 0
  · subst hrd
    rfl
  · rw [if_neg hrd, State.rC_wC_self]
    · rfl
    · intro h0
      exact hrd (BitVec.eq_of_toNat_eq h0)

theorem one_ne_zero_xlen (f : CapFormat) : (1 : BitVec f.xlen) ≠ 0 := by
  intro h
  have hmw := f.mw_ge
  have hle := f.mw_le
  have hnat : (1#f.xlen).toNat = (0#f.xlen).toNat := congrArg BitVec.toNat h
  rw [BitVec.toNat_ofNat, BitVec.toNat_ofNat,
    Nat.mod_eq_of_lt (Nat.one_lt_two_pow (show f.xlen ≠ 0 by omega)), Nat.zero_mod] at hnat
  cases hnat

/-- Stores and traps leave the registers alone. -/
theorem Stored.rX {auth : Capability f} {id : Hash} {places : List (BitVec f.xlen)} {t : State f}
    (h : Stored p auth id s places t) (rd : RegIdx) : t.rX rd = s.rX rd := by
  rw [h.rest]
  rfl

theorem State.Trapped.rX (h : s.Trapped s') (rd : RegIdx) : s'.rX rd = s.rX rd := by
  have hx : s'.x = s.x := congrArg (fun u => u.2.1) h.untrapped
  unfold State.rX State.rC
  rw [hx]

theorem State.Trapped.mem (h : s.Trapped s') : s'.mem = s.mem :=
  congrArg (fun u => u.2.2.1) h.untrapped

/-- The register of an `EStoreId` that stores. -/
theorem EndsAt.rX {auth : Capability f} {id : Hash} {rd : RegIdx} {places : List (BitVec f.xlen)}
    {t : State f} (h : EndsAt p auth id (s.wX rd 1) places t) :
    t.rX rd = if rd = 0 then 0 else 1 := by
  rw [h.1.rX, rX_wX]

/-- The places of the words are those of the buffer. -/
theorem Stored.bufferAt {auth : Capability f} {id : Hash} {places : List (BitVec f.xlen)}
    {t : State f} (h : Stored p auth id s places t) : BufferAt p s auth id places := by
  intro i addr hi
  obtain ⟨before, t', u, hlen, hstored, hword⟩ := h.before hi
  obtain ⟨ptw, htr⟩ := hword.translates
  exact ⟨before, t', ptw, hstored, hlen, htr⟩

/-- There are no others. -/
theorem Stored.eq_of_bufferAt {auth : Capability f} {id : Hash}
    {places places' : List (BitVec f.xlen)} {t : State f} (h : Stored p auth id s places t)
    (h' : BufferAt p s auth id places') (hlen : places.length = places'.length) :
    places = places' := by
  refine List.ext_getElem hlen (fun i hi hi' => ?_)
  obtain ⟨before, t₁, ptw, hstored, hb, htr⟩ := h' i _ (List.getElem?_eq_getElem hi')
  obtain ⟨before', t₂, u, hb', hstored', hword⟩ := h.before (List.getElem?_eq_getElem hi)
  obtain ⟨rfl, rfl⟩ := hstored.unique hstored' (hb.trans hb'.symm)
  obtain ⟨ptw', htr'⟩ := hword.translates
  have heq := htr'.symm.trans htr
  simp only [Except.ok.injEq, Prod.mk.injEq, TRResult.TR_Address.injEq, and_true] at heq
  exact heq.1

/-- **`EStoreId` is all or nothing** if and only if what it stores is stored
cleanly. -/
theorem executeEStoreId_allOrNothing_iff (p : Platform f) (hwalk : p.WalkReads)
    (hoff : p.WalkKeepsOffset) (rd rs1 cs2 : RegIdx) (s s' : State f) (r : Retired)
    (h : executeEStoreId p rd rs1 cs2 s = .ok (r, s')) :
    AllOrNothing p rd rs1 cs2 s r s' ↔ StoresCleanly p rd rs1 cs2 s := by
  cases executeEStoreId_ends hwalk h with
  | rejected hcheck htrap =>
    exact ⟨fun _ _ hc => absurd hc hcheck, fun _ => ⟨htrap.rX rd, htrap.mem⟩⟩
  | absent hcheck hfound =>
    refine ⟨fun _ entry _ _ hf => ?_, fun _ _ => Or.inl ⟨?_, State.wC_mem _ _ _⟩⟩
    · rw [hfound] at hf
      cases hf
    · rw [rX_wX, ite_self]
  | unstored hcheck hfound hcs2 =>
    exact ⟨fun _ _ _ hne => absurd hcs2 hne, fun _ hne => absurd hcs2 hne⟩
  | @stored entry places _ hcheck hfound hcs2 hends hlen =>
    have hrd := hends.rX
    constructor
    · intro hall entry' _ _ hf
      obtain rfl : entry' = entry := Option.some.inj (hf.symm.trans hfound)
      refine ⟨places, _, hends, ?_⟩
      obtain ⟨hzero, hmem⟩ | ⟨hone, entry'', places', hf', hlen', hbuf, hholds⟩ := hall hcs2
      · refine Or.inr (Or.inl ⟨hlen, ?_, hmem⟩)
        by_contra hne
        rw [hrd, if_neg hne] at hzero
        exact one_ne_zero_xlen f hzero
      · obtain rfl : entry'' = entry' := Option.some.inj (hf'.symm.trans hfound)
        obtain rfl := hends.1.eq_of_bufferAt hbuf (hlen.trans hlen'.symm)
        refine Or.inl ⟨hlen, ?_, hholds.memory⟩
        rintro rfl
        rw [hrd] at hone
        exact one_ne_zero_xlen f hone.symm
    · intro hclean
      obtain ⟨places', t', hends', hc⟩ := hclean entry hcheck hcs2 hfound
      obtain ⟨rfl, rfl⟩ := hends'.unique hends
      intro _
      obtain ⟨-, hne, hram⟩ | ⟨-, rfl, hmem⟩ | ⟨hlt, -⟩ := hc
      · refine Or.inr ⟨?_, entry, places', hfound, hlen, hends.1.bufferAt, ?_⟩
        · rw [hrd, if_neg hne]
        · have := hends.1.holdsDigest hoff hends.2.1 hram
          exact ⟨this.memory, this.bytes, fun m hm => by
            rw [this.rest m hm]
            exact congrFun (State.wC_mem _ _ _) m⟩
      · exact Or.inl ⟨rfl, hmem⟩
      · omega
  | @stopped entry places t _ hcheck hfound hcs2 hends hlen htrap =>
    have hrd := hends.rX
    constructor
    · intro hall entry' _ _ hf
      obtain rfl : entry' = entry := Option.some.inj (hf.symm.trans hfound)
      refine ⟨places, t, hends, Or.inr (Or.inr ⟨hlen, ?_, ?_⟩)⟩
      · have hsame := hall.1
        rw [htrap.rX, hrd] at hsame
        by_cases hzero : rd = 0
        · exact Or.inl hzero
        · rw [if_neg hzero] at hsame
          exact Or.inr hsame.symm
      · rw [← htrap.mem]
        exact hall.2
    · intro hclean
      obtain ⟨places', t', hends', hc⟩ := hclean entry hcheck hcs2 hfound
      obtain ⟨rfl, rfl⟩ := hends'.unique hends
      obtain ⟨heq, -⟩ | ⟨heq, -⟩ | ⟨-, hreg, hmem⟩ := hc
      · omega
      · omega
      · refine ⟨?_, htrap.mem.trans hmem⟩
        rw [htrap.rX, hrd]
        obtain rfl | hone := hreg
        · rfl
        · by_cases hzero : rd = 0
          · rw [if_pos hzero, hzero]
            rfl
          · rw [if_neg hzero, hone]

/-- With no translation, the words are at their addresses. -/
theorem Stored.place_of_untranslated {auth : Capability f} {id : Hash}
    {places : List (BitVec f.xlen)} {t : State f} (h : Stored p auth id s places t)
    (hs : s.Untranslated) {i : ℕ} {addr : BitVec f.xlen} (hi : places[i]? = some addr) :
    addr = wordAt auth.address i := by
  obtain ⟨_, t', _, _, hstored, hword⟩ := h.before hi
  obtain ⟨ptw, htr⟩ := hword.translates
  have ht : t'.Untranslated := by
    rw [hstored.rest]
    exact hs
  have heq := (ht.eq_of_ok htr).1
  simp only [TRResult.TR_Address.injEq] at heq
  exact heq.1.symm

/-- A machine with a finished enclave, whose object type is in `x3`, and a
buffer for its identity in `c2`. -/
def attestState (buffer : Capability .cheri64) : State .cheri64 :=
  { smallState with
    x := fun r => if r = 2 then buffer else if r = 3 then .intToCap 2 else .nullCap _
    etable := ⟨some ⟨7, 0, false⟩ :: List.replicate 127 none, rfl⟩ }

/-- Half of the memory. -/
def wholeBuffer : Capability .cheri64 := .bounded 0x80000020 0x80000040

/-- **The identity is in the buffer.** -/
theorem executeEStoreId_stores :
    ∃ s', executeEStoreId smallPlatform 4 3 2 (attestState wholeBuffer)
        = .ok (.RETIRE_SUCCESS, s')
      ∧ s'.rX 4 = 1
      ∧ AllOrNothing smallPlatform 4 3 2 (attestState wholeBuffer) .RETIRE_SUCCESS s' := by
  obtain ⟨s', hrun⟩ := exists_ok_of_map_fst (a := .RETIRE_SUCCESS)
    (show (executeEStoreId smallPlatform 4 3 2 (attestState wholeBuffer)).toOption.map Prod.fst = _
      by decide +kernel)
  have hone : (executeEStoreId smallPlatform 4 3 2 (attestState wholeBuffer)).toOption.map
      (fun r => r.2.rX 4) = some 1 := by
    decide +kernel
  rw [hrun] at hone
  refine ⟨s', hrun, Option.some.inj hone, ?_⟩
  refine (executeEStoreId_allOrNothing_iff smallPlatform smallPlatform_walkReads
    (fun _ _ _ _ _ _ _ _ h => absurd h throw_ne_ok) 4 3 2 (attestState wholeBuffer) s'
    .RETIRE_SUCCESS hrun).2 ?_
  intro entry _ _ hfound
  cases executeEStoreId_ends smallPlatform_walkReads hrun with
  | absent _ hnone =>
    rw [hfound] at hnone
    cases hnone
  | unstored _ _ hcs2 => cases hcs2
  | stored _ hfound' _ hends hlen =>
    obtain rfl := Option.some.inj (hfound.symm.trans hfound')
    refine ⟨_, _, hends, Or.inl ⟨hlen, by decide, fun addr haddr => ?_⟩⟩
    obtain ⟨i, hi, rfl⟩ := List.getElem_of_mem haddr
    rw [hends.1.place_of_untranslated (untranslated_of_machine rfl rfl)
      (List.getElem?_eq_getElem hi)]
    have hwords : ∀ i : Fin 8, smallPlatform.withinMmioWritable
        (wordAt ((attestState wholeBuffer).rC 2).address i) 4 = false := by
      decide +kernel
    exact hwords ⟨i, by omega⟩

/-- A buffer that may not be written. -/
def readOnlyBuffer : Capability .cheri64 := { wholeBuffer with permitStore := false }

/-- **The result is written before the stores**: the instruction fails, and its
register has changed from zero to one. -/
theorem executeEStoreId_readOnly_writes_rd :
    ∃ s', executeEStoreId smallPlatform 4 3 2 (attestState readOnlyBuffer)
        = .ok (.RETIRE_FAIL, s')
      ∧ (attestState readOnlyBuffer).rX 4 = 0 ∧ s'.rX 4 = 1
      ∧ ¬ AllOrNothing smallPlatform 4 3 2 (attestState readOnlyBuffer) .RETIRE_FAIL s' := by
  obtain ⟨s', hrun⟩ := exists_ok_of_map_fst (a := .RETIRE_FAIL)
    (show (executeEStoreId smallPlatform 4 3 2 (attestState readOnlyBuffer)).toOption.map Prod.fst
      = _ by decide +kernel)
  have hone : (executeEStoreId smallPlatform 4 3 2 (attestState readOnlyBuffer)).toOption.map
      (fun r => r.2.rX 4) = some 1 := by
    decide +kernel
  rw [hrun] at hone
  have hone' : s'.rX 4 = 1 := Option.some.inj hone
  refine ⟨s', hrun, rfl, hone', fun hall => ?_⟩
  rw [hall.1] at hone'
  exact absurd hone' (by decide +kernel)

end Sail
