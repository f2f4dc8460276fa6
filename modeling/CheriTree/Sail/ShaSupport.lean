import Mathlib.Data.Nat.Digits.Lemmas
import CheriTree.Sail.SectionHash
import CheriTree.Sha256Chunks

/-!
# The streaming hash of the Sail model

`make_hash` hands the words of a code section to a C library, one after the
other, through an adapter. The library keeps a chunk, the position in it and the
number of all the bytes; complete chunks of the input are consumed where they
are, and the message schedule is kept in sixteen words that are used again. The
adapter takes a number of any whole number of bytes, and has to put back the
leading zeros that the number does not have.

What comes out is the SHA-256 of the bytes that were handed over since the
library was last told to start again, whatever was done before
(`sha256Finish_eq`).
-/

namespace Sail.ShaSupport

/-- `uint8_t`. -/
abbrev Byte := BitVec 8

/-- `uint32_t`. -/
abbrev Word := BitVec 32

/-! ## A chunk -/

/-- The word at a pointer, highest byte first. -/
def wordAt (p : List Byte) : Word :=
  (p.getD 0 0).setWidth 32 <<< 24 ||| (p.getD 1 0).setWidth 32 <<< 16
    ||| (p.getD 2 0).setWidth 32 <<< 8 ||| (p.getD 3 0).setWidth 32

/-- The locals of `consume_chunk` in its loops: the working variables, sixteen
words of the schedule, and the pointer into the chunk. -/
structure ChunkLoop where
  ah : Sha256.State
  w : List Word
  p : List Byte

/-- Word `j` of the schedule, made of four words that are kept. -/
def extendAt (w : List Word) (j : ℕ) : Word :=
  let w1 := w.getD ((j + 1) % 16) 0
  let w14 := w.getD ((j + 14) % 16) 0
  w.getD j 0 + (Sha256.rightRot w1 7 ^^^ Sha256.rightRot w1 18 ^^^ w1 >>> 3)
    + w.getD ((j + 9) % 16) 0
    + (Sha256.rightRot w14 17 ^^^ Sha256.rightRot w14 19 ^^^ w14 >>> 10)

/-- The body of the two loops. -/
def loopBody (i : ℕ) (s : ChunkLoop) (j : ℕ) : ChunkLoop :=
  let t : ChunkLoop :=
    if i = 0 then { s with w := s.w.set j (wordAt s.p), p := s.p.drop 4 }
    else { s with w := s.w.set j (extendAt s.w j) }
  { t with ah := Sha256.round t.ah (Sha256.k.getD (16 * i + j) 0) (t.w.getD j 0) }

/-- The inner loop. -/
def innerLoop (s : ChunkLoop) (i : ℕ) : ChunkLoop := (List.range 16).foldl (loopBody i) s

/-- **`consume_chunk`**. What is in `w` at first is not read. -/
def consumeChunk (h : Sha256.State) (p : List Byte) : Sha256.State :=
  h.add ((List.range 4).foldl innerLoop ⟨h, List.replicate 16 0, p⟩).ah

/-! ### What it computes -/

section

variable {h : Sha256.State} {p : List Byte} {t i j : ℕ} {s : ChunkLoop}

theorem wordAt_cons (a b c d : Byte) (p : List Byte) :
    wordAt (a :: b :: c :: d :: p) = a ++ b ++ c ++ d := by
  show a.setWidth 32 <<< 24 ||| b.setWidth 32 <<< 16 ||| c.setWidth 32 <<< 8 ||| d.setWidth 32 = _
  apply BitVec.eq_of_getLsbD_eq
  intro i hi
  simp only [BitVec.getLsbD_append, BitVec.getLsbD_or, BitVec.getLsbD_shiftLeft,
    BitVec.getLsbD_setWidth]
  grind

/-- **The word at a pointer into a chunk.** -/
theorem wordAt_drop {t : ℕ} (h : 4 * t + 4 ≤ p.length) :
    wordAt (p.drop (4 * t)) = (Sha256.words p).getD t 0 := by
  induction t generalizing p with
  | zero =>
    match p, h with
    | a :: b :: c :: d :: p, _ => exact wordAt_cons a b c d p
  | succ t ih =>
    match p, h with
    | a :: b :: c :: d :: p, h =>
      simp only [List.length_cons] at h
      exact ih (by omega)

/-- **After `t` rounds**: the working variables, and the sixteen words of the
schedule before `t`. -/
structure Rounds (h : Sha256.State) (p : List Byte) (t : ℕ) (s : ChunkLoop) : Prop where
  ah : s.ah = Sha256.roundsTo Sha256.k h (Sha256.words p) t
  length : s.w.length = 16
  window : ∀ m, m < t → t ≤ m + 16 → s.w.getD (m % 16) 0 = Sha256.schedule (Sha256.words p) m
  pointer : t ≤ 16 → s.p = p.drop (4 * t)

/-- A new word takes the place of the oldest. -/
theorem Rounds.window_set {x : Word} (hs : Rounds h p t s)
    (hx : x = Sha256.schedule (Sha256.words p) t) {m : ℕ} (hm : m < t + 1) (ht : t + 1 ≤ m + 16) :
    (s.w.set (t % 16) x).getD (m % 16) 0 = Sha256.schedule (Sha256.words p) m := by
  have hlt := Nat.mod_lt t (show 0 < 16 by decide)
  rw [List.getD_eq_getElem?_getD]
  by_cases heq : m = t
  · subst heq
    rw [List.getElem?_set_self (by rw [hs.length]; exact hlt), Option.getD_some, hx]
  · rw [List.getElem?_set_ne (by omega), ← List.getD_eq_getElem?_getD]
    exact hs.window m (by omega) (by omega)

/-- **The word of a round.** -/
theorem Rounds.extendAt_eq (hs : Rounds h p t s) (hp : p.length = 64) (ht : 16 ≤ t) :
    extendAt s.w (t % 16) = Sha256.schedule (Sha256.words p) t := by
  obtain ⟨u, rfl⟩ : ∃ u, t = u + 16 := ⟨t - 16, by omega⟩
  have hlen : (Sha256.words p).length = 16 := by
    rw [Sha256.length_words, hp]
  have hat : ∀ m, m < 16 → s.w.getD (((u + 16) % 16 + m) % 16) 0
      = Sha256.schedule (Sha256.words p) (u + m) := by
    intro m hm
    rw [← hs.window (u + m) (by omega) (by omega)]
    congr 1
    omega
  have hzero := hat 0 (by decide)
  rw [Nat.add_zero, Nat.add_zero u, Nat.mod_mod] at hzero
  rw [extendAt, hzero, hat 1 (by decide), hat 9 (by decide), hat 14 (by decide),
    Sha256.schedule_add_sixteen hlen]

/-- The variables after a round. -/
theorem Rounds.round_eq {x : Word} (hs : Rounds h p t s)
    (hx : x = Sha256.schedule (Sha256.words p) t) :
    Sha256.round s.ah (Sha256.k.getD t 0) ((s.w.set (t % 16) x).getD (t % 16) 0)
      = Sha256.roundsTo Sha256.k h (Sha256.words p) (t + 1) := by
  have hlt := Nat.mod_lt t (show 0 < 16 by decide)
  rw [hs.ah, hs.window_set hx (Nat.lt_succ_self t) (by omega)]
  rfl

/-- **A round.** -/
theorem Rounds.step (hs : Rounds h p (16 * i + j) s) (hp : p.length = 64) (hj : j < 16) :
    Rounds h p (16 * i + j + 1) (loopBody i s j) := by
  have hlen : (Sha256.words p).length = 16 := by
    rw [Sha256.length_words, hp]
  have hmod : (16 * i + j) % 16 = j := by omega
  by_cases hi : i = 0
  · subst hi
    have hptr := hs.pointer (by omega)
    have hx : wordAt s.p = Sha256.schedule (Sha256.words p) (16 * 0 + j) := by
      rw [hptr, wordAt_drop (by omega), Sha256.schedule_of_lt hlen (by omega)]
    have hround := hs.round_eq hx
    rw [hmod] at hround
    refine ⟨hround, List.length_set.trans hs.length, fun m hm hle => ?_, fun _ => ?_⟩
    · have hset := hs.window_set hx hm hle
      rw [hmod] at hset
      exact hset
    · show s.p.drop 4 = _
      rw [hptr, List.drop_drop]
      congr 1
  · have hx : extendAt s.w j = Sha256.schedule (Sha256.words p) (16 * i + j) := by
      have hext := hs.extendAt_eq hp (by omega)
      rwa [hmod] at hext
    have hround := hs.round_eq hx
    rw [hmod] at hround
    rw [loopBody, if_neg hi]
    refine ⟨hround, List.length_set.trans hs.length, fun m hm hle => ?_, fun hle => ?_⟩
    · have hset := hs.window_set hx hm hle
      rw [hmod] at hset
      exact hset
    · exact absurd hle (by omega)

/-- So many rounds of the inner loop. -/
theorem Rounds.foldl_loopBody (hs : Rounds h p (16 * i) s) (hp : p.length = 64) {n : ℕ}
    (hn : n ≤ 16) : Rounds h p (16 * i + n) ((List.range n).foldl (loopBody i) s) := by
  induction n with
  | zero => exact hs
  | succ n ih =>
    rw [List.range_succ, List.foldl_append]
    exact (ih (Nat.le_of_succ_le hn)).step hp hn

/-- Sixteen of them, again and again. -/
theorem Rounds.foldl_innerLoop (hs : Rounds h p 0 s) (hp : p.length = 64) (n : ℕ) :
    Rounds h p (16 * n) ((List.range n).foldl innerLoop s) := by
  induction n with
  | zero => exact hs
  | succ n ih =>
    rw [List.range_succ, List.foldl_append, List.foldl_cons, List.foldl_nil, Nat.mul_succ,
      innerLoop]
    exact ih.foldl_loopBody hp (Nat.le_refl 16)

/-- **The library consumes a chunk** as SHA-256 does. -/
theorem consumeChunk_eq (h : Sha256.State) (hp : p.length = 64) :
    consumeChunk h p = Sha256.consumeChunk h (Sha256.words p) := by
  have hfirst : Rounds h p 0 ⟨h, List.replicate 16 0, p⟩ :=
    ⟨rfl, rfl, fun m hm => absurd hm (Nat.not_lt_zero m), fun _ => rfl⟩
  rw [Sha256.consumeChunk_eq, consumeChunk, (hfirst.foldl_innerLoop hp 4).ah]

end

/-! ## The bytes of a message -/

/-- **`struct Sha_256`**, with the digest that `hash` points to. `chunkPos` is
the position in the chunk; `totalLen` is a `size_t`. -/
structure Sha256Data where
  hash : List Byte
  /-- Sixty-four bytes. -/
  chunk : List Byte
  chunkPos : ℕ
  spaceLeft : ℕ
  totalLen : BitVec 64
  h : Sha256.State

/-- `memcpy`, into a chunk. -/
def memcpy (chunk : List Byte) (pos : ℕ) (data : List Byte) : List Byte :=
  chunk.take pos ++ data ++ chunk.drop (pos + data.length)

/-- **`sha_256_init`**. -/
def sha256Init (s : Sha256Data) : Sha256Data :=
  { s with
    chunkPos := 0
    spaceLeft := 64
    totalLen := 0
    h := Sha256.init }

/-- The loop of `sha_256_write`: where the input has a chunk of its own, it is
consumed there. -/
def writeLoop (s : Sha256Data) (p : List Byte) : Sha256Data :=
  if 0 < p.length then
    if s.spaceLeft = 64 ∧ 64 ≤ p.length then
      writeLoop { s with h := consumeChunk s.h (p.take 64) } (p.drop 64)
    else
      let consumedLen := if p.length < s.spaceLeft then p.length else s.spaceLeft
      let chunk := memcpy s.chunk s.chunkPos (p.take consumedLen)
      if s.spaceLeft - consumedLen = 0 then
        writeLoop
          { s with
            chunk := chunk
            h := consumeChunk s.h chunk
            chunkPos := 0
            spaceLeft := 64 }
          (p.drop consumedLen)
      else
        writeLoop
          { s with
            chunk := chunk
            chunkPos := s.chunkPos + consumedLen
            spaceLeft := s.spaceLeft - consumedLen }
          (p.drop consumedLen)
  else s
termination_by 2 * p.length + (if s.spaceLeft = 0 then 1 else 0)
decreasing_by
  all_goals simp only [List.length_drop]
  · split <;> omega
  · grind
  · grind

/-- **`sha_256_write`**. -/
def sha256Write (s : Sha256Data) (data : List Byte) : Sha256Data :=
  writeLoop { s with totalLen := s.totalLen + BitVec.ofNat 64 data.length } data

/-- The number of bits, as `sha_256_close` writes it: the last byte is that of
`len << 3`, and the others those of `len >> 5`. -/
def lengthBytes (len : BitVec 64) : List Byte :=
  (List.range 7).map (fun i => (len >>> (5 + 8 * (6 - i))).setWidth 8)
    ++ [(len <<< 3).setWidth 8]

/-- The bytes of a hash, highest first. -/
def hashBytes (h : Sha256.State) : List Byte :=
  [h.a, h.b, h.c, h.d, h.e, h.f, h.g, h.h].flatMap fun (x : Word) =>
    [(x >>> 24).setWidth 8, (x >>> 16).setWidth 8, (x >>> 8).setWidth 8, x.setWidth 8]

/-- **`sha_256_close`**. -/
def sha256Close (s : Sha256Data) : Sha256Data :=
  let chunk := memcpy s.chunk s.chunkPos [0x80]
  let pos := s.chunkPos + 1
  let spaceLeft := s.spaceLeft - 1
  let t : Sha256Data × ℕ × ℕ :=
    if spaceLeft < 8 then
      let chunk := memcpy chunk pos (List.replicate spaceLeft 0)
      ({ s with chunk := chunk, h := consumeChunk s.h chunk }, 0, 64)
    else ({ s with chunk := chunk }, pos, spaceLeft)
  let left := t.2.2 - 8
  let chunk := memcpy t.1.chunk t.2.1 (List.replicate left 0)
  let chunk := memcpy chunk (t.2.1 + left) (lengthBytes s.totalLen)
  let h := consumeChunk t.1.h chunk
  { t.1 with chunk := chunk, h := h, hash := hashBytes h }

/-! ### What the chunk holds -/

section

variable {chunk l data bytes p : List Byte} {pos : ℕ} {s : Sha256Data}

/-- **The first bytes of a chunk.** Nothing was ever copied past its end. -/
structure Filled (chunk l : List Byte) : Prop where
  length : chunk.length = 64
  take : chunk.take l.length = l

/-- What is copied behind the first bytes. -/
theorem Filled.memcpy (h : Filled chunk l) (hpos : pos = l.length)
    (hroom : l.length + data.length ≤ 64) :
    Filled (ShaSupport.memcpy chunk pos data) (l ++ data) := by
  subst hpos
  unfold ShaSupport.memcpy
  rw [h.take]
  constructor
  · rw [List.length_append, List.length_append, List.length_drop, h.length]
    omega
  · rw [List.take_append_of_le_length (Nat.le_refl _), List.take_length]

/-- A chunk that is full. -/
theorem Filled.eq (h : Filled chunk l) (hl : l.length = 64) : chunk = l := by
  have htake := h.take
  rwa [hl, ← h.length, List.take_length] at htake

/-! ### Writing -/

/-- **The bytes so far** are hashed or in the chunk. -/
structure Holds (bytes : List Byte) (s : Sha256Data) : Prop where
  chunkPos : s.chunkPos = bytes.length % 64
  spaceLeft : s.spaceLeft = 64 - bytes.length % 64
  filled : Filled s.chunk (Sha256.pending bytes)
  h : s.h = Sha256.absorbed bytes

/-- **A chunk is complete.** -/
theorem Holds.complete (hs : Holds bytes s) (hp : bytes.length % 64 + p.length = 64) :
    consumeChunk s.h (Sha256.pending bytes ++ p) = Sha256.absorbed (bytes ++ p) := by
  rw [consumeChunk_eq _ (by rw [List.length_append, Sha256.length_pending, hp]),
    Sha256.absorbed_append_chunk hp, hs.h]

/-- Nothing is pending between two chunks. -/
theorem holds_of_complete {t : Sha256Data} (hlen : bytes.length % 64 = 0)
    (hpos : t.chunkPos = 0) (hspace : t.spaceLeft = 64) (hchunk : t.chunk.length = 64)
    (hh : t.h = Sha256.absorbed bytes) : Holds bytes t := by
  have hnil : Sha256.pending bytes = [] :=
    List.eq_nil_of_length_eq_zero (by rw [Sha256.length_pending, hlen])
  refine ⟨by rw [hpos, hlen], by rw [hspace, hlen], ⟨hchunk, ?_⟩, hh⟩
  rw [hnil]
  exact List.take_zero

theorem Holds.spaceLeft_pos (hs : Holds bytes s) : 0 < s.spaceLeft := by
  rw [hs.spaceLeft]
  exact Nat.sub_pos_of_lt (Nat.mod_lt _ (by decide))

/-- What is copied into the chunk. -/
theorem Holds.memcpy (hs : Holds bytes s) (hp : p.length ≤ s.spaceLeft) :
    Filled (ShaSupport.memcpy s.chunk s.chunkPos p) (Sha256.pending bytes ++ p) := by
  have hlt := Nat.mod_lt bytes.length (show 0 < 64 by decide)
  rw [hs.spaceLeft] at hp
  refine hs.filled.memcpy ?_ ?_
  · rw [Sha256.length_pending, hs.chunkPos]
  · rw [Sha256.length_pending]
    omega

/-- A chunk of the input. -/
theorem Holds.direct (hs : Holds bytes s) (hfree : s.spaceLeft = 64) (hp : p.length = 64) :
    Holds (bytes ++ p) { s with h := consumeChunk s.h p } := by
  have hspace := hs.spaceLeft
  have hpos := hs.chunkPos
  have hmod : bytes.length % 64 = 0 := by omega
  have hh := hs.complete (by omega : bytes.length % 64 + p.length = 64)
  have hnil : Sha256.pending bytes = [] :=
    List.eq_nil_of_length_eq_zero (by rw [Sha256.length_pending, hmod])
  rw [hnil, List.nil_append] at hh
  exact holds_of_complete (by rw [List.length_append]; omega) (hpos.trans hmod) hfree
    hs.filled.length hh

/-- The rest of a chunk. -/
theorem Holds.fill (hs : Holds bytes s) (hp : p.length = s.spaceLeft) :
    Holds (bytes ++ p)
      { s with
        chunk := ShaSupport.memcpy s.chunk s.chunkPos p
        h := consumeChunk s.h (ShaSupport.memcpy s.chunk s.chunkPos p)
        chunkPos := 0
        spaceLeft := 64 } := by
  have hspace := hs.spaceLeft
  have hall : bytes.length % 64 + p.length = 64 := by omega
  have hfilled := hs.memcpy (Nat.le_of_eq hp)
  have hh := hs.complete hall
  rw [← hfilled.eq (by rw [List.length_append, Sha256.length_pending, hall])] at hh
  exact holds_of_complete (by rw [List.length_append]; omega) rfl rfl hfilled.length hh

/-- Less than that. -/
theorem Holds.keep (hs : Holds bytes s) (hp : p.length < s.spaceLeft) :
    Holds (bytes ++ p)
      { s with
        chunk := ShaSupport.memcpy s.chunk s.chunkPos p
        chunkPos := s.chunkPos + p.length
        spaceLeft := s.spaceLeft - p.length } := by
  have hspace := hs.spaceLeft
  have hroom : bytes.length % 64 + p.length < 64 := by omega
  have hlen : (bytes ++ p).length % 64 = bytes.length % 64 + p.length := by
    rw [List.length_append]
    omega
  refine ⟨?_, ?_, ?_, ?_⟩
  · rw [hlen, ← hs.chunkPos]
  · show s.spaceLeft - p.length = _
    rw [hlen, hspace]
    omega
  · rw [Sha256.pending_append_lt hroom]
    exact hs.memcpy (Nat.le_of_lt hp)
  · rw [Sha256.absorbed_append_lt hroom]
    exact hs.h

/-- **The loop of `sha_256_write`** takes all of its input. -/
theorem Holds.writeLoop (hs : Holds bytes s) (p : List Byte) :
    Holds (bytes ++ p) (ShaSupport.writeLoop s p) := by
  induction hn : p.length using Nat.strong_induction_on generalizing bytes s p with
  | _ n ih =>
    subst hn
    have hpos := hs.spaceLeft_pos
    -- what one pass takes, and the loop the rest
    have hrest : ∀ (k : ℕ) (t : Sha256Data), 0 < k → 0 < p.length → Holds (bytes ++ p.take k) t →
        Holds (bytes ++ p) (ShaSupport.writeLoop t (p.drop k)) := by
      intro k t hk h0 ht
      have hnext := ih (p.drop k).length (by rw [List.length_drop]; omega) ht (p.drop k) rfl
      rwa [List.append_assoc, List.take_append_drop] at hnext
    rw [ShaSupport.writeLoop]
    split
    case isFalse hzero =>
      have hnil : p = [] := List.eq_nil_of_length_eq_zero (by omega)
      rw [hnil, List.append_nil]
      exact hs
    case isTrue h0 =>
      split
      case isTrue hdirect =>
        refine hrest 64 _ (by decide) h0 (hs.direct hdirect.1 ?_)
        rw [List.length_take, Nat.min_eq_left hdirect.2]
      case isFalse hdirect =>
        simp only
        split
        case isTrue hlt =>
          -- the input ends in this chunk
          have hall : p.take p.length = p := List.take_length
          rw [if_neg (Nat.sub_ne_zero_of_lt hlt)]
          refine hrest p.length _ h0 h0 ?_
          rw [hall]
          exact hs.keep hlt
        case isFalse hge =>
          have htake : (p.take s.spaceLeft).length = s.spaceLeft := by
            rw [List.length_take, Nat.min_eq_left (Nat.not_lt.1 hge)]
          rw [if_pos (Nat.sub_self _)]
          exact hrest s.spaceLeft _ hpos h0 (hs.fill htake)

theorem totalLen_writeLoop (s : Sha256Data) (p : List Byte) :
    (ShaSupport.writeLoop s p).totalLen = s.totalLen := by
  fun_induction ShaSupport.writeLoop s p with
  | case1 _ _ _ _ ih => exact ih
  | case2 _ _ _ _ _ _ _ ih => exact ih
  | case3 _ _ _ _ _ _ _ ih => exact ih
  | case4 => rfl

/-- **The bytes so far**, and their number. -/
structure Represents (bytes : List Byte) (s : Sha256Data) : Prop extends Holds bytes s where
  totalLen : s.totalLen = BitVec.ofNat 64 bytes.length

/-- One that is told to start again has no bytes. -/
theorem represents_sha256Init (hchunk : s.chunk.length = 64) : Represents [] (sha256Init s) :=
  ⟨holds_of_complete rfl rfl rfl hchunk rfl, rfl⟩

/-- **`sha_256_write`** puts its input behind the bytes so far. -/
theorem Represents.sha256Write (hs : Represents bytes s) (p : List Byte) :
    Represents (bytes ++ p) (ShaSupport.sha256Write s p) := by
  have hholds : Holds bytes { s with totalLen := s.totalLen + BitVec.ofNat 64 p.length } :=
    ⟨hs.chunkPos, hs.spaceLeft, hs.filled, hs.h⟩
  refine ⟨hholds.writeLoop p, ?_⟩
  rw [ShaSupport.sha256Write, totalLen_writeLoop, List.length_append, BitVec.ofNat_add,
    ← hs.totalLen]

/-! ### Closing -/

/-- **The length of a message**, in bits. -/
theorem lengthBytes_ofNat (n : ℕ) :
    lengthBytes (BitVec.ofNat 64 n)
      = (List.range 8).map (fun i => (BitVec.ofNat 64 (8 * n)).extractLsb' (56 - 8 * i) 8) := by
  have hbits : BitVec.ofNat 64 (8 * n) = BitVec.ofNat 64 n <<< 3 := by
    apply BitVec.eq_of_toNat_eq
    rw [BitVec.toNat_shiftLeft, BitVec.toNat_ofNat, BitVec.toNat_ofNat, Nat.shiftLeft_eq]
    omega
  rw [hbits, lengthBytes, List.range_succ (n := 7), List.map_append]
  congr 1
  refine List.map_congr_left fun i hi => ?_
  have hlt := List.mem_range.1 hi
  apply BitVec.eq_of_getLsbD_eq
  intro j hj
  simp only [BitVec.getLsbD_setWidth, BitVec.getLsbD_ushiftRight, BitVec.getLsbD_extractLsb',
    BitVec.getLsbD_shiftLeft]
  rw [show 56 - 8 * i + j - 3 = 5 + 8 * (6 - i) + j by omega]
  simp [hj, show ¬ 56 - 8 * i + j < 3 by omega, show 56 - 8 * i + j < 64 by omega]

theorem length_lengthBytes (len : BitVec 64) : (lengthBytes len).length = 8 := rfl

/-- The padding, cut in two behind some of its zeros. -/
theorem pad_eq_append {a b : ℕ} (hab : a + b = (119 - bytes.length % 64) % 64)
    (hs : s.totalLen = BitVec.ofNat 64 bytes.length) :
    Sha256.pad bytes = (bytes ++ 0x80 :: List.replicate a 0)
      ++ (List.replicate b 0 ++ lengthBytes s.totalLen) := by
  rw [hs, lengthBytes_ofNat, Sha256.pad, ← hab, List.replicate_add]
  simp only [List.append_assoc, List.cons_append]

/-- The end of the last chunk. -/
theorem Filled.memcpy_length {left : ℕ} (h : Filled chunk l) (hpos : pos = l.length)
    (hleft : l.length + left + 8 = 64) (len : BitVec 64) :
    ShaSupport.memcpy (ShaSupport.memcpy chunk pos (List.replicate left 0)) (pos + left)
        (lengthBytes len)
      = l ++ (List.replicate left 0 ++ lengthBytes len) := by
  have hzeros : Filled (ShaSupport.memcpy chunk pos (List.replicate left 0))
      (l ++ List.replicate left 0) := h.memcpy hpos (by rw [List.length_replicate]; omega)
  have hlen : (l ++ List.replicate left (0 : Byte)).length = l.length + left := by
    rw [List.length_append, List.length_replicate]
  have hall : Filled (ShaSupport.memcpy _ (pos + left) (lengthBytes len)) _ :=
    hzeros.memcpy (by rw [hlen, hpos]) (by rw [hlen, length_lengthBytes, hleft])
  rw [hall.eq (by rw [List.length_append, hlen, length_lengthBytes, hleft]), List.append_assoc]

/-- A chunk of nothing but padding. -/
theorem consumeChunk_absorbed (hbytes : bytes.length % 64 = 0) (hp : p.length = 64) :
    consumeChunk (Sha256.absorbed bytes) p = Sha256.absorbed (bytes ++ p) := by
  have hnil : Sha256.pending bytes = [] :=
    List.eq_nil_of_length_eq_zero (by rw [Sha256.length_pending, hbytes])
  rw [consumeChunk_eq _ hp, Sha256.absorbed_append_chunk (by omega), hnil, List.nil_append]

/-- **`sha_256_close`** makes the padding, in the chunk or in one more. -/
theorem Represents.sha256Close (hs : Represents bytes s) :
    (ShaSupport.sha256Close s).hash = hashBytes (Sha256.absorbed (Sha256.pad bytes))
      ∧ (ShaSupport.sha256Close s).chunk.length = 64 := by
  have hlt := Nat.mod_lt bytes.length (show 0 < 64 by decide)
  have hpending := Sha256.length_pending bytes
  have hspace := hs.spaceLeft
  have hmark : Filled (memcpy s.chunk s.chunkPos [0x80]) (Sha256.pending bytes ++ [0x80]) :=
    hs.toHolds.memcpy hs.spaceLeft_pos
  have hlenmark : (Sha256.pending bytes ++ [0x80]).length = bytes.length % 64 + 1 := by
    rw [List.length_append, hpending]
    rfl
  unfold ShaSupport.sha256Close
  simp only
  by_cases hroom : s.spaceLeft - 1 < 8
  · -- the zeros fill the chunk, and the length is in one more
    have hzeros : Filled (memcpy (memcpy s.chunk s.chunkPos [0x80]) (s.chunkPos + 1)
        (List.replicate (s.spaceLeft - 1) 0)) _ :=
      hmark.memcpy (by rw [hlenmark, hs.chunkPos])
        (by rw [hlenmark, List.length_replicate]; omega)
    have hlenfirst : (0x80 :: List.replicate (s.spaceLeft - 1) (0 : Byte)).length
        = s.spaceLeft := by
      rw [List.length_cons, List.length_replicate]
      omega
    have hchunk := hzeros.eq (by
      rw [List.length_append, hlenmark, List.length_replicate]
      omega)
    rw [List.append_assoc, List.singleton_append] at hchunk
    have hempty : Filled (Sha256.pending bytes ++ 0x80 :: List.replicate (s.spaceLeft - 1) 0) [] :=
      ⟨by rw [← hchunk]; exact hzeros.length, rfl⟩
    simp only [if_pos hroom, hchunk, hs.toHolds.complete (by omega :
      bytes.length % 64 + (0x80 :: List.replicate (s.spaceLeft - 1) (0 : Byte)).length = 64)]
    have hend : memcpy (memcpy _ 0 (List.replicate (64 - 8) 0)) (0 + (64 - 8)) _
        = List.replicate (64 - 8) 0 ++ lengthBytes s.totalLen := hempty.memcpy_length rfl rfl _
    rw [hend, consumeChunk_absorbed (by rw [List.length_append, hlenfirst]; omega) (by rfl),
      ← pad_eq_append (by omega) hs.totalLen]
    exact ⟨rfl, rfl⟩
  · -- there is room for the length
    simp only [if_neg hroom]
    rw [hmark.memcpy_length (by rw [hlenmark, hs.chunkPos]) (by omega), List.append_assoc]
    have hlast : bytes.length % 64 + ([0x80] ++ (List.replicate (s.spaceLeft - 1 - 8) 0
        ++ lengthBytes s.totalLen)).length = 64 := by
      rw [List.length_append, List.length_append, List.length_replicate, length_lengthBytes,
        List.length_singleton]
      omega
    have hpad : Sha256.pad bytes = bytes ++ ([0x80] ++ (List.replicate (s.spaceLeft - 1 - 8) 0
        ++ lengthBytes s.totalLen)) := by
      rw [pad_eq_append (a := 0) (b := s.spaceLeft - 1 - 8) (by omega) hs.totalLen]
      exact List.append_assoc _ _ _
    rw [hs.toHolds.complete hlast, hpad, List.length_append, hpending]
    exact ⟨rfl, hlast⟩

end

/-! ## The adapter -/

/-- **`mpz_export`**: the bytes of a number, highest first, from the first that
is not zero. -/
def mpzExport (n : ℕ) : List Byte := ((Nat.digits 256 n).map (BitVec.ofNat 8)).reverse

/-- **`mpz_import`**, of bytes that are highest first. -/
def mpzImport (bytes : List Byte) : ℕ := bytes.foldl (fun n b => 256 * n + b.toNat) 0

/-- **`SHA256_reset`**. -/
def sha256Reset (s : Sha256Data) : Sha256Data := sha256Init s

/-- **`SHA256_append`**, unless an assertion fails. -/
def sha256Append {n : ℕ} (s : Sha256Data) (op1 : BitVec n) : Option Sha256Data :=
  let nbBytes := (n + 8 - 1) / 8
  if nbBytes * 8 = n then
    let array := mpzExport op1.toNat
    let nbLeadingZero := nbBytes - array.length
    if array.length + nbLeadingZero = nbBytes then
      let t := if 0 < nbLeadingZero then sha256Write s (List.replicate nbLeadingZero 0) else s
      some (sha256Write t array)
    else none
  else none

/-- **`SHA256_finish`**. -/
def sha256Finish (s : Sha256Data) : Sha256Data × BitVec 256 :=
  let t := sha256Close s
  (t, BitVec.ofNat 256 (mpzImport t.hash))

/-- **The bytes of a number of whole bytes**, highest first. -/
def bytesOf {n : ℕ} (x : BitVec n) : List Byte :=
  ((List.range (n / 8)).map fun j => x.extractLsb' (8 * j) 8).reverse

section

variable {bytes : List Byte} {s : Sha256Data} {n : ℕ}

/-- A number has no more bytes than its width. -/
theorem length_mpzExport_le (x : BitVec n) (hn : n % 8 = 0) :
    (mpzExport x.toNat).length ≤ n / 8 := by
  rw [mpzExport, List.length_reverse, List.length_map, Nat.digits_length_le_iff (by decide)]
  calc x.toNat < 2 ^ n := x.isLt
    _ = 2 ^ (8 * (n / 8)) := by congr 1; omega
    _ = 256 ^ (n / 8) := by rw [Nat.pow_mul]

/-- A byte of a number, whether it has a digit there or not. -/
theorem getElem_digits_append_replicate (x : BitVec n) {k j : ℕ}
    (hj : j < ((Nat.digits 256 x.toNat).map (BitVec.ofNat 8) ++ List.replicate k 0).length) :
    ((Nat.digits 256 x.toNat).map (BitVec.ofNat 8) ++ List.replicate k 0)[j]
      = x.extractLsb' (8 * j) 8 := by
  have hdigit := Nat.getD_digits x.toNat j (show 2 ≤ 256 by decide)
  have hbyte : x.extractLsb' (8 * j) 8 = BitVec.ofNat 8 (x.toNat / 256 ^ j % 256) := by
    apply BitVec.eq_of_toNat_eq
    rw [BitVec.extractLsb'_toNat, BitVec.toNat_ofNat, Nat.shiftRight_eq_div_pow, Nat.pow_mul,
      Nat.mod_mod]
  rw [hbyte, ← hdigit]
  by_cases hlt : j < (Nat.digits 256 x.toNat).length
  · rw [List.getElem_append_left (by rw [List.length_map]; exact hlt), List.getElem_map,
      List.getD_eq_getElem _ _ hlt]
  · rw [List.getElem_append_right (by rw [List.length_map]; omega), List.getElem_replicate,
      List.getD_eq_default _ _ (Nat.not_lt.1 hlt)]
    rfl

/-- **The leading zeros are put back.** -/
theorem replicate_append_mpzExport (x : BitVec n) (hn : n % 8 = 0) :
    List.replicate (n / 8 - (mpzExport x.toNat).length) 0 ++ mpzExport x.toNat = bytesOf x := by
  have hle := length_mpzExport_le x hn
  rw [mpzExport, List.length_reverse, List.length_map] at *
  rw [bytesOf, ← List.reverse_replicate, ← List.reverse_append]
  congr 1
  refine List.ext_getElem ?_ fun j hj hj' => ?_
  · rw [List.length_append, List.length_map, List.length_replicate, List.length_map,
      List.length_range]
    omega
  · rw [getElem_digits_append_replicate x hj, List.getElem_map, List.getElem_range]

/-- **`SHA256_append`** puts the bytes of its argument behind those so far. -/
theorem Represents.sha256Append (hs : Represents bytes s) (x : BitVec n) (hn : n % 8 = 0) :
    ∃ t, ShaSupport.sha256Append s x = some t ∧ Represents (bytes ++ bytesOf x) t := by
  have hle := length_mpzExport_le x hn
  have hbytes : (n + 8 - 1) / 8 = n / 8 := by omega
  have hzeros := replicate_append_mpzExport x hn
  unfold ShaSupport.sha256Append
  simp only [hbytes]
  rw [if_pos (by omega), if_pos (by omega)]
  refine ⟨_, rfl, ?_⟩
  split
  · have hrep := (hs.sha256Write
      (List.replicate (n / 8 - (mpzExport x.toNat).length) 0)).sha256Write (mpzExport x.toNat)
    rwa [List.append_assoc, hzeros] at hrep
  · rename_i hnone
    rw [Nat.eq_zero_of_not_pos hnone, List.replicate_zero, List.nil_append] at hzeros
    rw [← hzeros]
    exact hs.sha256Write _

/-! ### The digest -/

/-- The bytes of a word, behind those of a number. -/
theorem foldl_wordBytes (m : ℕ) (x : Word) :
    [(x >>> 24).setWidth 8, (x >>> 16).setWidth 8, (x >>> 8).setWidth 8, x.setWidth 8].foldl
        (fun n (b : Byte) => 256 * n + b.toNat) m
      = 2 ^ 32 * m + x.toNat := by
  have hlt := x.isLt
  simp only [List.foldl_cons, List.foldl_nil, BitVec.toNat_setWidth, BitVec.toNat_ushiftRight,
    Nat.shiftRight_eq_div_pow]
  omega

/-- A word behind a number. -/
theorem toNat_append_word (x : BitVec n) (y : Word) :
    (x ++ y).toNat = 2 ^ 32 * x.toNat + y.toNat := by
  rw [BitVec.toNat_append, ← Nat.shiftLeft_add_eq_or_of_lt y.isLt, Nat.shiftLeft_eq, Nat.mul_comm]

/-- **The digest that is read back.** -/
theorem mpzImport_hashBytes (h : Sha256.State) :
    mpzImport (hashBytes h)
      = (h.a ++ h.b ++ h.c ++ h.d ++ h.e ++ h.f ++ h.g ++ h.h).toNat := by
  rw [mpzImport, hashBytes, List.foldl_flatMap]
  simp only [foldl_wordBytes]
  simp only [List.foldl_cons, List.foldl_nil, toNat_append_word, Nat.mul_zero, Nat.zero_add]

/-- **`SHA256_finish`** gives the digest of the bytes so far. -/
theorem Represents.sha256Finish (hs : Represents bytes s) :
    (ShaSupport.sha256Finish s).2 = Sha256.sha256 bytes := by
  rw [ShaSupport.sha256Finish, hs.sha256Close.1, mpzImport_hashBytes, BitVec.ofNat_toNat,
    BitVec.setWidth_eq, Sha256.sha256_eq]

end

/-! ## Any sequence of calls -/

/-- **A call of the adapter**, with a number of so many bytes. -/
inductive Call where
  | reset
  | append (k : ℕ) (op1 : BitVec (8 * k))
  | finish

/-- What a call makes of the library, and what it answers. -/
def Call.apply (s : Sha256Data) : Call → Option (Sha256Data × List (BitVec 256))
  | .reset => some (sha256Reset s, [])
  | .append _ op1 => (sha256Append s op1).map fun t => (t, [])
  | .finish => some ((sha256Finish s).1, [(sha256Finish s).2])

/-- The answers of a sequence of calls. -/
def answers (s : Sha256Data) : List Call → Option (List (BitVec 256))
  | [] => some []
  | c :: cs => (c.apply s).bind fun r => (answers r.1 cs).map (r.2 ++ ·)

/-- **What the answers are to be**, for a message that is open or none: a message
is opened by `reset`, which may give up another, and closed by `finish`. No
answer is owed to a call that is out of place. -/
def digests : Option (List Byte) → List Call → Option (List (BitVec 256))
  | _, [] => some []
  | _, .reset :: cs => digests (some []) cs
  | some bytes, .append _ op1 :: cs => digests (some (bytes ++ bytesOf op1)) cs
  | some bytes, .finish :: cs => (digests none cs).map (Sha256.sha256 bytes :: ·)
  | none, _ :: _ => none

/-- What the library holds of a message that is open or none. -/
def Open (s : Sha256Data) : Option (List Byte) → Prop
  | some bytes => Represents bytes s
  | none => s.chunk.length = 64

theorem Open.chunk_length {s : Sha256Data} {m : Option (List Byte)} (h : Open s m) :
    s.chunk.length = 64 := by
  cases m with
  | none => exact h
  | some bytes => exact h.filled.length

/-- **The streaming hash is SHA-256.** Every sequence of calls with no call out
of place is answered, and with the digests of its messages: no assertion of the
adapter fails, and nothing of a message that was given up, or of one before, is
in the digest. -/
theorem answers_eq_digests {s : Sha256Data} {m : Option (List Byte)} (hs : Open s m)
    (cs : List Call) {ds : List (BitVec 256)} (h : digests m cs = some ds) :
    answers s cs = some ds := by
  induction cs generalizing s m ds with
  | nil =>
    rw [digests] at h
    exact h
  | cons c cs ih =>
    cases c with
    | reset =>
      rw [digests] at h
      have hreset : Open (sha256Reset s) (some []) := represents_sha256Init hs.chunk_length
      rw [answers, Call.apply, Option.bind_some, ih hreset h]
      rfl
    | append k op1 =>
      cases m with
      | none => cases h
      | some bytes =>
        rw [digests] at h
        obtain ⟨t, happ, ht⟩ := Represents.sha256Append hs op1 (Nat.mul_mod_right 8 k)
        rw [answers, Call.apply, happ, Option.map_some, Option.bind_some,
          ih (m := some (bytes ++ bytesOf op1)) ht h]
        rfl
    | finish =>
      cases m with
      | none => cases h
      | some bytes =>
        rw [digests, Option.map_eq_some_iff] at h
        obtain ⟨rest, hrest, rfl⟩ := h
        have hclosed : Open (sha256Finish s).1 none := (Represents.sha256Close hs).2
        rw [answers, Call.apply, Option.bind_some, ih hclosed hrest, Represents.sha256Finish hs]
        rfl

/-- The library before any call: its statics are zero. -/
def staticData : Sha256Data :=
  ⟨List.replicate 32 0, List.replicate 64 0, 0, 0, 0, ⟨0, 0, 0, 0, 0, 0, 0, 0⟩⟩

/-- Two messages: one is given up, and the other handed over in two parts, of
which the first has a zero in front. -/
def twoMessages : List Call :=
  [.reset, .append 1 0x7f, .reset, .append 2 0x0061, .append 1 0x62, .finish]

theorem answers_twoMessages :
    answers staticData twoMessages = some [Sha256.sha256 [0, 0x61, 0x62]] := by
  have hbytes : [] ++ bytesOf (0x0061 : BitVec (8 * 2)) ++ bytesOf (0x62 : BitVec (8 * 1))
      = [0, 0x61, 0x62] := by decide
  have hopen : Open staticData none := rfl
  exact answers_eq_digests hopen twoMessages (by rw [← hbytes]; rfl)

/-- The calls of `make_hash` for the words of a section. -/
def makeHashCalls (words : List (BitVec 32)) : List Call :=
  .reset :: (words.map (Call.append 4) ++ [.finish])

/-- **The hash of a section**, as the library answers for its words. -/
theorem answers_makeHashCalls {s : Sha256Data} (hs : s.chunk.length = 64)
    (words : List (BitVec 32)) :
    answers s (makeHashCalls words)
      = some [Sha256.sha256 (words.flatMap ByteOrder.beBytes)] := by
  have hopen : Open s none := hs
  refine answers_eq_digests hopen _ ?_
  have hall : ∀ bytes, digests (some bytes) (words.map (Call.append 4) ++ [.finish])
      = some [Sha256.sha256 (bytes ++ words.flatMap ByteOrder.beBytes)] := by
    induction words with
    | nil =>
      intro bytes
      rw [List.flatMap_nil, List.append_nil]
      rfl
    | cons x words ih =>
      intro bytes
      rw [List.map_cons, List.cons_append, digests, ih, List.append_assoc]
      rfl
  exact hall []

/-- **A platform with this library** attests the SHA-256 of the bytes of a
section. -/
theorem attestsSection_of_library {f : CapFormat} {p : Platform f} (hwalk : p.WalkReads)
    (hoff : p.WalkKeepsOffset) {s : Sha256Data} (hs : s.chunk.length = 64)
    (hlib : ∀ words, answers s (makeHashCalls words) = some [p.sha256 words]) {n : ℕ}
    (hmod : n % 4 = 0) : AttestsSection p Sha256.sha256 n := by
  refine attestsSection hwalk hoff (fun words => ?_) hmod
  have hwords := (hlib words).symm.trans (answers_makeHashCalls hs words)
  exact List.head_eq_of_cons_eq (Option.some.inj hwords)

end Sail.ShaSupport
