import CheriTree.SpinalCrypto.Sha2Engine

/-!
# The padding of a message

`HashPadding_Std`, for big-endian words of 32 bits and blocks of sixteen. It
loads the words of a message into a block, from the highest on, and offers the
block when it is full. When the last word has come, it marks the end of the
message, fills the block with zeros and puts the length at its end; if that does
not fit it goes on with a block of its own.

The state machine is one of states whose entry has actions: the entry of
`sPadding` reads the registers as they are before the cycle and writes them
after everything else.
-/

namespace SpinalCrypto

/-- The states of the padding. -/
inductive PadState where
  | boot
  | sLoad
  | sPadding
  | sProcessing
deriving DecidableEq, Repr

/-- **The registers of the padding.** -/
structure HashPadding where
  state : PadState
  cntBit : BitVec 64
  /-- Sixteen words, the lowest one first. -/
  block : List Word
  indexWord : BitVec 4
  addPaddingNextWord : Bool
  isBiggerThan448 : Bool
  fillNewBlock : Bool

/-- What the padding is given in a cycle: a word of the message, whose size is
one less than the number of its bytes, and whether its block is taken. -/
structure PadInput where
  init : Bool
  valid : Bool
  data : Word
  last : Bool
  size : BitVec 2
  rspReady : Bool

/-- The bytes of a last word that are part of the message. -/
def maskMsg (size : BitVec 2) : Word :=
  match size with
  | 0 => 0xFF000000
  | 1 => 0xFFFF0000
  | 2 => 0xFFFFFF00
  | 3 => 0xFFFFFFFF

/-- The one behind them. -/
def maskSet1 (size : BitVec 2) : Word :=
  match size with
  | 0 => 0x00800000
  | 1 => 0x00008000
  | 2 => 0x00000080
  | 3 => 0x00000000

/-- The number of their bits. -/
def sizeBits (size : BitVec 2) : BitVec 64 :=
  match size with
  | 0 => 8
  | 1 => 16
  | 2 => 24
  | 3 => 32

namespace HashPadding

variable (s : HashPadding) (i : PadInput)

def isLastFullWordInBlock : Bool := s.indexWord == 0 && i.size == 3

/-- `sLoad`: load the block register. -/
def load : HashPadding × PadState :=
  let s₁ := { s with addPaddingNextWord := true, isBiggerThan448 := false, fillNewBlock := false }
  if i.valid then
    let s₂ := { s₁ with block := s.block.set s.indexWord.toNat i.data }
    if i.last then
      let s₃ := { s₂ with cntBit := s.cntBit + sizeBits i.size }
      if s.isLastFullWordInBlock i then (s₃, .sProcessing)
      else
        ({ s₃ with
          isBiggerThan448 := decide (s.indexWord < 2) || s.indexWord == 2 && i.size == 3 },
          .sPadding)
    else
      ({ s₂ with cntBit := s.cntBit + 32, indexWord := s.indexWord - 1 },
        if s.indexWord = 0 then .sProcessing else .sLoad)
  else (s₁, .sLoad)

/-- A word is added in `sPadding`: a one, if it is still to come, or zeros. -/
def putWord : HashPadding :=
  let s₁ := { s with indexWord := s.indexWord - 1 }
  if s.addPaddingNextWord then
    { s₁ with
      block := s.block.set s.indexWord.toNat 0x80000000
      addPaddingNextWord := false }
  else if s.indexWord ≠ 0 then { s₁ with block := s.block.set s.indexWord.toNat 0 }
  else s₁

/-- `sPadding`, once it is entered. -/
def pad : HashPadding × PadState :=
  if 1 < s.indexWord ∨ s.isBiggerThan448 then
    if s.indexWord = 0 then ({ s.putWord with fillNewBlock := true }, .sProcessing)
    else (s.putWord, .sPadding)
  else
    ({ s with
      block := (s.block.set 0 (s.cntBit.extractLsb' 0 32)).set 1 (s.cntBit.extractLsb' 32 32) },
      .sProcessing)

/-- `sProcessing`: run the hash engine. -/
def process : HashPadding × PadState :=
  if i.rspReady then
    let s₁ := { s with block := List.replicate 16 0 }
    if s.isBiggerThan448 || s.isLastFullWordInBlock i then
      ({ s₁ with isBiggerThan448 := false }, .sPadding)
    else (s₁, .sLoad)
  else (s, .sProcessing)

/-- What the state of the machine does: the registers and the next state. -/
def active : HashPadding × PadState :=
  match s.state with
  | .boot => (s, .sLoad)
  | .sLoad => s.load i
  | .sPadding => s.pad
  | .sProcessing => s.process i

/-- The entry of `sPadding`, on registers that are written already. -/
def enterPadding (r : HashPadding) : HashPadding :=
  if s.isLastFullWordInBlock i || s.fillNewBlock then
    { r with indexWord := 15, fillNewBlock := false }
  else
    { r with
      block :=
        r.block.set s.indexWord.toNat ((i.data &&& maskMsg i.size) ||| maskSet1 i.size)
      indexWord := if s.indexWord ≠ 0 then s.indexWord - 1 else r.indexWord
      addPaddingNextWord := if i.size ≠ 3 then false else r.addPaddingNextWord }

/-- **A cycle of the padding.** -/
def next : HashPadding :=
  let (r, st) := s.active i
  if i.init then
    { r with cntBit := 0, indexWord := 15, block := List.replicate 16 0, state := .sLoad }
  else if st = .sPadding ∧ s.state ≠ .sPadding then
    { s.enterPadding i r with state := .sPadding }
  else { r with state := st }

/-- `io.rsp.valid`: a block is offered. -/
def rspValid : Bool := s.state == .sProcessing

/-- `io.cmd.ready`: the word is taken. -/
def cmdReady : Bool :=
  match s.state with
  | .sLoad => i.valid && !i.last && s.indexWord != 0
  | .sProcessing => i.rspReady && !(s.isBiggerThan448 || s.isLastFullWordInBlock i)
  | _ => false

/-! ## The block as a list

The words of a block are in it from the highest place on, and zeros are below
them. -/

/-- A block with words loaded. -/
def full (l : List Word) : List Word := List.replicate (16 - l.length) 0 ++ l.reverse

/-- Where the next word goes. -/
def place (n : ℕ) : BitVec 4 := BitVec.ofNat 4 (31 - n)

theorem toNat_place {n : ℕ} (hn : n < 16) : (place n).toNat = 15 - n := by
  rw [place, BitVec.toNat_ofNat]
  show (31 - n) % 16 = _
  omega

theorem place_sub_one {n : ℕ} (hn : n < 16) : place n - 1 = place (n + 1) := by
  apply BitVec.eq_of_toNat_eq
  rw [BitVec.toNat_sub, toNat_place hn, place, BitVec.toNat_ofNat]
  show (16 - 1 + (15 - n)) % 16 = (31 - (n + 1)) % 16
  omega

theorem place_eq_zero_iff {n : ℕ} (hn : n < 16) : place n = 0 ↔ n = 15 := by
  rw [← BitVec.toNat_inj, toNat_place hn]
  show 15 - n = 0 ↔ _
  omega

theorem lt_place_iff {n k : ℕ} (hn : n < 16) (hk : k < 16) :
    BitVec.ofNat 4 k < place n ↔ n + k < 15 := by
  rw [BitVec.lt_def, toNat_place hn, BitVec.toNat_ofNat, Nat.mod_eq_of_lt (show k < 2 ^ 4 from hk)]
  omega

theorem full_nil : full [] = List.replicate 16 0 := List.append_nil _

theorem full_of_length {l : List Word} (hl : l.length = 16) : full l = l.reverse := by
  rw [full, hl]
  rfl

/-- **A word at the next place** is one more word. -/
theorem full_set {l : List Word} (hl : l.length < 16) (x : Word) :
    (full l).set (place l.length).toNat x = full (l ++ [x]) := by
  have hsplit : 16 - l.length = (15 - l.length) + 1 := by omega
  have hless : 16 - (l.length + 1) = 15 - l.length := by omega
  rw [toNat_place hl, full, full, List.reverse_append, List.length_append, List.length_singleton,
    hless, hsplit, List.replicate_succ', List.append_assoc, List.set_append_right _ _ (by simp),
    List.length_replicate, Nat.sub_self]
  rfl

/-- At the lowest place a zero is there already. -/
theorem full_concat_zero {l : List Word} (hl : l.length < 16) : full (l ++ [0]) = full l := by
  have hsplit : 16 - l.length = (15 - l.length) + 1 := by omega
  have hless : 16 - (l.length + 1) = 15 - l.length := by omega
  rw [full, full, List.reverse_append, List.length_append, List.length_singleton, hless, hsplit,
    List.replicate_succ', List.append_assoc]
  rfl

/-! ## What a cycle does -/

/-- **Loading**, with `n` words of the message taken and `l` of them in the
block. -/
structure Loading (n : ℕ) (l : List Word) (s : HashPadding) : Prop where
  state : s.state = .sLoad
  index : s.indexWord = place l.length
  block : s.block = full l
  lt : l.length < 16
  bits : s.cntBit = BitVec.ofNat 64 (32 * n)
  fill : s.fillNewBlock = false

/-- **Padding**, behind the words `l` of the block. -/
structure Padding (l : List Word) (add bigger : Bool) (bits : BitVec 64) (s : HashPadding) :
    Prop where
  state : s.state = .sPadding
  index : s.indexWord = place l.length
  block : s.block = full l
  lt : l.length < 16
  add : s.addPaddingNextWord = add
  bigger : s.isBiggerThan448 = bigger
  bits : s.cntBit = bits
  fill : s.fillNewBlock = false

/-- **A block is offered**, and the padding goes on at `index`. -/
structure Offering (l : List Word) (index : BitVec 4) (add bigger fill : Bool) (bits : BitVec 64)
    (s : HashPadding) : Prop where
  state : s.state = .sProcessing
  index : s.indexWord = index
  block : s.block = l.reverse
  length : l.length = 16
  add : s.addPaddingNextWord = add
  bigger : s.isBiggerThan448 = bigger
  bits : s.cntBit = bits
  fill : s.fillNewBlock = fill

variable {s i} {n : ℕ} {l : List Word} {add bigger fill : Bool} {bits : BitVec 64}
  {index : BitVec 4}

/-- A cycle that does not enter `sPadding`. -/
theorem next_eq (hi : i.init = false) {r : HashPadding} {st : PadState}
    (ha : s.active i = (r, st)) (hst : st = .sPadding → s.state = .sPadding) :
    s.next i = { r with state := st } := by
  have hno : ¬ (st = .sPadding ∧ s.state ≠ .sPadding) := fun h => h.2 (hst h.1)
  rw [HashPadding.next, ha]
  dsimp only
  rw [if_neg (by rw [hi]; exact Bool.false_ne_true), if_neg hno]

/-- A cycle that enters it. -/
theorem next_eq_enter (hi : i.init = false) {r : HashPadding}
    (ha : s.active i = (r, .sPadding)) (hst : s.state ≠ .sPadding) :
    s.next i = { s.enterPadding i r with state := .sPadding } := by
  rw [HashPadding.next, ha]
  dsimp only
  rw [if_neg (by rw [hi]; exact Bool.false_ne_true), if_pos ⟨rfl, hst⟩]

theorem Loading.active (hs : s.Loading n l) : s.active i = s.load i := by
  rw [HashPadding.active, hs.state]

/-- Without a word the padding waits for one. -/
theorem Loading.next_idle (hs : s.Loading n l) (hi : i.init = false) (hv : i.valid = false) :
    (s.next i).Loading n l := by
  have ha := hs.active (i := i)
  rw [load, if_neg (by rw [hv]; exact Bool.false_ne_true)] at ha
  rw [next_eq hi ha (fun h => by cases h)]
  exact ⟨rfl, hs.index, hs.block, hs.lt, hs.bits, rfl⟩

/-- **A word that does not end the block is taken.** -/
theorem Loading.next_word (hs : s.Loading n l) (hi : i.init = false) (hv : i.valid = true)
    (hlast : i.last = false) (hl : l.length + 1 < 16) :
    s.cmdReady i = true ∧ (s.next i).Loading (n + 1) (l ++ [i.data]) := by
  have hne : s.indexWord ≠ 0 := by
    rw [hs.index, Ne, place_eq_zero_iff hs.lt]
    omega
  have ha := hs.active (i := i)
  rw [load, if_pos hv, if_neg (by rw [hlast]; exact Bool.false_ne_true), if_neg hne] at ha
  constructor
  · rw [cmdReady, hs.state]
    show (i.valid && !i.last && s.indexWord != 0) = true
    rw [hv, hlast, bne_iff_ne.2 hne]
    rfl
  · rw [next_eq hi ha (fun h => by cases h)]
    refine ⟨rfl, ?_, ?_, ?_, ?_, rfl⟩
    · show s.indexWord - 1 = _
      rw [hs.index, place_sub_one hs.lt, List.length_append, List.length_singleton]
    · show s.block.set s.indexWord.toNat i.data = _
      rw [hs.block, hs.index, full_set hs.lt]
    · rw [List.length_append, List.length_singleton]
      exact hl
    · show s.cntBit + 32 = _
      rw [hs.bits, Nat.mul_succ, BitVec.ofNat_add]
      rfl

theorem Loading.cmdReady_eq (hs : s.Loading n l) :
    s.cmdReady i = (i.valid && !i.last && s.indexWord != 0) := by
  rw [cmdReady, hs.state]

/-- **The word that fills the block** is not taken yet; the block is offered. -/
theorem Loading.next_full (hs : s.Loading n l) (hi : i.init = false) (hv : i.valid = true)
    (hlast : i.last = false) (hl : l.length = 15) :
    s.cmdReady i = false ∧ (s.next i).Offering (l ++ [i.data]) 15 true false false
      (BitVec.ofNat 64 (32 * (n + 1))) := by
  have hzero : s.indexWord = 0 := by
    rw [hs.index, place_eq_zero_iff hs.lt]
    exact hl
  have hlen : (l ++ [i.data]).length = 16 := by
    rw [List.length_append, List.length_singleton, hl]
  have ha := hs.active (i := i)
  rw [load, if_pos hv, if_neg (by rw [hlast]; exact Bool.false_ne_true), if_pos hzero] at ha
  constructor
  · rw [hs.cmdReady_eq, hzero]
    exact Bool.and_false _
  · rw [next_eq hi ha (fun h => by cases h)]
    refine ⟨rfl, ?_, ?_, hlen, rfl, rfl, ?_, rfl⟩
    · show s.indexWord - 1 = _
      rw [hzero]
      rfl
    · show s.block.set s.indexWord.toNat i.data = _
      rw [hs.block, hs.index, full_set hs.lt, full_of_length hlen]
    · show s.cntBit + 32 = _
      rw [hs.bits, Nat.mul_succ, BitVec.ofNat_add]
      rfl

/-- The last word as it is put in the block. -/
def endOf (data : Word) (size : BitVec 2) : Word := (data &&& maskMsg size) ||| maskSet1 size

theorem endOf_three (data : Word) : endOf data 3 = data := by
  show data &&& BitVec.allOnes 32 ||| 0#32 = data
  rw [BitVec.and_allOnes, BitVec.or_zero]

/-- **A last word that fills the block** as it is. -/
theorem Loading.next_last_full (hs : s.Loading n l) (hi : i.init = false) (hv : i.valid = true)
    (hlast : i.last = true) (hl : l.length = 15) (hsize : i.size = 3) :
    s.cmdReady i = false ∧ (s.next i).Offering (l ++ [i.data]) 0 true false false
      (BitVec.ofNat 64 (32 * n) + sizeBits i.size) := by
  have hzero : s.indexWord = 0 := by
    rw [hs.index, place_eq_zero_iff hs.lt]
    exact hl
  have hfull : s.isLastFullWordInBlock i = true := by
    rw [isLastFullWordInBlock, hzero, hsize]
    rfl
  have hlen : (l ++ [i.data]).length = 16 := by
    rw [List.length_append, List.length_singleton, hl]
  have ha := hs.active (i := i)
  rw [load, if_pos hv, if_pos hlast, if_pos hfull] at ha
  constructor
  · rw [hs.cmdReady_eq, hzero]
    exact Bool.and_false _
  · rw [next_eq hi ha (fun h => by cases h)]
    refine ⟨rfl, hzero, ?_, hlen, rfl, rfl, ?_, rfl⟩
    · show s.block.set s.indexWord.toNat i.data = _
      rw [hs.block, hs.index, full_set hs.lt, full_of_length hlen]
    · show s.cntBit + sizeBits i.size = _
      rw [hs.bits]

/-- The registers when a last word does not fill the block as it is. -/
theorem Loading.next_last (hs : s.Loading n l) (hi : i.init = false) (hv : i.valid = true)
    (hlast : i.last = true) (hnot : ¬ (l.length = 15 ∧ i.size = 3)) :
    s.cmdReady i = false ∧ s.next i =
      { s with
        state := .sPadding
        addPaddingNextWord := if i.size ≠ 3 then false else true
        isBiggerThan448 := decide (s.indexWord < 2) || s.indexWord == 2 && i.size == 3
        cntBit := s.cntBit + sizeBits i.size
        block := full (l ++ [endOf i.data i.size])
        indexWord := if s.indexWord ≠ 0 then s.indexWord - 1 else s.indexWord } := by
  have hfull : s.isLastFullWordInBlock i = false := by
    refine Bool.eq_false_iff.2 fun h => hnot ?_
    rw [isLastFullWordInBlock, Bool.and_eq_true, beq_iff_eq, beq_iff_eq, hs.index,
      place_eq_zero_iff hs.lt] at h
    exact h
  have ha := hs.active (i := i)
  rw [load, if_pos hv, if_pos hlast, if_neg (by rw [hfull]; exact Bool.false_ne_true)] at ha
  constructor
  · rw [hs.cmdReady_eq, hlast, Bool.not_true, Bool.and_false]
    rfl
  · rw [next_eq_enter hi ha (fun h => by rw [hs.state] at h; cases h), enterPadding,
      if_neg (by rw [hfull, hs.fill]; exact Bool.false_ne_true)]
    dsimp only
    rw [List.set_set, hs.block, hs.index]
    have hset := full_set hs.lt (endOf i.data i.size)
    rw [← hset]
    rw [← hs.fill]
    rfl

/-- **A last word with room behind it** in the block. -/
theorem Loading.next_last_room (hs : s.Loading n l) (hi : i.init = false) (hv : i.valid = true)
    (hlast : i.last = true) (hl : l.length < 15) :
    s.cmdReady i = false ∧ (s.next i).Padding (l ++ [endOf i.data i.size])
      (decide (i.size = 3)) (decide (13 < l.length ∨ l.length = 13 ∧ i.size = 3))
      (BitVec.ofNat 64 (32 * n) + sizeBits i.size) := by
  have hne : s.indexWord ≠ 0 := by
    rw [hs.index, Ne, place_eq_zero_iff hs.lt]
    exact Nat.ne_of_lt hl
  have hsmall : s.indexWord < 2 ↔ 13 < l.length := by
    rw [hs.index, BitVec.lt_def, toNat_place hs.lt]
    show 15 - l.length < 2 ↔ _
    omega
  have htwo : s.indexWord = 2 ↔ l.length = 13 := by
    rw [hs.index, ← BitVec.toNat_inj, toNat_place hs.lt]
    show 15 - l.length = 2 ↔ _
    omega
  obtain ⟨hready, hnext⟩ := hs.next_last hi hv hlast (fun h => absurd h.1 (Nat.ne_of_lt hl))
  refine ⟨hready, ?_⟩
  rw [hnext, if_pos hne]
  refine ⟨rfl, ?_, rfl, ?_, ?_, ?_, ?_, hs.fill⟩
  · show s.indexWord - 1 = _
    rw [hs.index, place_sub_one hs.lt, List.length_append, List.length_singleton]
  · rw [List.length_append, List.length_singleton]
    exact Nat.succ_lt_succ hl
  · by_cases hsize : i.size = 3
    · exact (if_neg (not_not.2 hsize)).trans (decide_eq_true hsize).symm
    · exact (if_pos hsize).trans (decide_eq_false hsize).symm
  · refine Bool.eq_iff_iff.2 ?_
    rw [Bool.or_eq_true, Bool.and_eq_true, beq_iff_eq, beq_iff_eq, decide_eq_true_eq,
      decide_eq_true_eq, hsmall, htwo]
  · show s.cntBit + sizeBits i.size = _
    rw [hs.bits]

/-- **A last word at the end of the block**, with its mark. -/
theorem Loading.next_last_end (hs : s.Loading n l) (hi : i.init = false) (hv : i.valid = true)
    (hlast : i.last = true) (hl : l.length = 15) (hsize : i.size ≠ 3) :
    s.cmdReady i = false ∧ s.next i =
      { s with
        state := .sPadding
        addPaddingNextWord := false
        isBiggerThan448 := true
        cntBit := BitVec.ofNat 64 (32 * n) + sizeBits i.size
        block := (l ++ [endOf i.data i.size]).reverse
        indexWord := 0 } := by
  have hzero : s.indexWord = 0 := by
    rw [hs.index, place_eq_zero_iff hs.lt]
    exact hl
  have hlen : (l ++ [endOf i.data i.size]).length = 16 := by
    rw [List.length_append, List.length_singleton, hl]
  obtain ⟨hready, hnext⟩ := hs.next_last hi hv hlast (fun h => hsize h.2)
  refine ⟨hready, ?_⟩
  rw [hnext, if_pos hsize, if_neg (not_not.2 hzero), full_of_length hlen, hs.bits, hzero]
  rfl

theorem cmdReady_padding (hs : s.state = .sPadding) : s.cmdReady i = false := by
  rw [cmdReady, hs]

/-- Behind the last place of the block there is nothing to do but to offer it. -/
theorem next_padding_end (hs : s.state = .sPadding) (hi : i.init = false)
    (hzero : s.indexWord = 0) (hadd : s.addPaddingNextWord = false)
    (hbigger : s.isBiggerThan448 = true) :
    s.next i = { s with state := .sProcessing, indexWord := 15, fillNewBlock := true } := by
  have ha : s.active i = s.pad := by
    rw [active, hs]
  rw [pad, if_pos (Or.inr hbigger), if_pos hzero, putWord,
    if_neg (by rw [hadd]; exact Bool.false_ne_true), if_neg (not_not.2 hzero), hzero] at ha
  rw [next_eq hi ha (fun h => by cases h)]
  rfl

/-- The word that is put behind the message: a one, once. -/
def padWord (add : Bool) : Word := if add then 0x80000000 else 0

/-- What a word of padding does to the block, at any place. -/
theorem Padding.putWord_eq (hs : s.Padding l add bigger bits) :
    s.putWord = { s with
      indexWord := s.indexWord - 1
      block := full (l ++ [padWord add])
      addPaddingNextWord := false } := by
  have hset : ∀ x, s.block.set s.indexWord.toNat x = full (l ++ [x]) := by
    intro x
    rw [hs.block, hs.index]
    exact full_set hs.lt x
  cases hadd : add with
  | true =>
    rw [putWord, if_pos (hs.add.trans hadd), hset]
    rfl
  | false =>
    have hno : s.addPaddingNextWord = false := hs.add.trans hadd
    rw [putWord, if_neg (by rw [hno]; exact Bool.false_ne_true)]
    by_cases hzero : s.indexWord = 0
    · have hblock : full (l ++ [padWord false]) = s.block := by
        rw [hs.block]
        exact full_concat_zero hs.lt
      rw [if_neg (not_not.2 hzero), hblock]
      exact congrArg
        (fun b => { s with indexWord := s.indexWord - 1, addPaddingNextWord := b }) hno
    · rw [if_pos hzero, hset]
      exact congrArg
        (fun b => { s with
          indexWord := s.indexWord - 1
          block := full (l ++ [padWord false])
          addPaddingNextWord := b }) hno

/-- The padding goes on while there is room, or in a block of its own. -/
theorem Padding.goesOn (hs : s.Padding l add bigger bits)
    (hmore : l.length < 14 ∨ bigger = true) :
    1 < s.indexWord ∨ s.isBiggerThan448 = true := by
  refine hmore.imp (fun hl => ?_) (fun h => hs.bigger.trans h)
  rw [hs.index, show (1 : BitVec 4) = BitVec.ofNat 4 1 from rfl, lt_place_iff hs.lt (by decide)]
  omega

theorem Padding.active (hs : s.Padding l add bigger bits) : s.active i = s.pad := by
  rw [HashPadding.active, hs.state]

/-- **A word of padding.** -/
theorem Padding.next_word (hs : s.Padding l add bigger bits) (hi : i.init = false)
    (hl : l.length < 15) (hmore : l.length < 14 ∨ bigger = true) :
    (s.next i).Padding (l ++ [padWord add]) false bigger bits := by
  have hne : s.indexWord ≠ 0 := by
    rw [hs.index, Ne, place_eq_zero_iff hs.lt]
    exact Nat.ne_of_lt hl
  have ha := hs.active (i := i)
  rw [pad, if_pos (hs.goesOn hmore), if_neg hne, hs.putWord_eq] at ha
  rw [next_eq hi ha (fun _ => hs.state)]
  refine ⟨rfl, ?_, rfl, ?_, rfl, hs.bigger, hs.bits, hs.fill⟩
  · show s.indexWord - 1 = _
    rw [hs.index, place_sub_one hs.lt, List.length_append, List.length_singleton]
  · rw [List.length_append, List.length_singleton]
    exact Nat.succ_lt_succ hl

/-- **The last word of padding** of a block to which the length is not added. -/
theorem Padding.next_end (hs : s.Padding l add true bits) (hi : i.init = false)
    (hl : l.length = 15) :
    (s.next i).Offering (l ++ [padWord add]) 15 false true true bits := by
  have hzero : s.indexWord = 0 := by
    rw [hs.index, place_eq_zero_iff hs.lt]
    exact hl
  have hlen : (l ++ [padWord add]).length = 16 := by
    rw [List.length_append, List.length_singleton, hl]
  have ha := hs.active (i := i)
  rw [pad, if_pos (hs.goesOn (Or.inr rfl)), if_pos hzero, hs.putWord_eq, full_of_length hlen,
    hzero] at ha
  rw [next_eq hi ha (fun h => by cases h)]
  exact ⟨rfl, rfl, rfl, hlen, rfl, hs.bigger, hs.bits, rfl⟩

/-- The length of the message, as two words. -/
def lengthWords (bits : BitVec 64) : List Word := [bits.extractLsb' 32 32, bits.extractLsb' 0 32]

/-- **The length is added** to a block that has room for it and nothing else. -/
theorem Padding.next_length (hs : s.Padding l false false bits) (hi : i.init = false)
    (hl : l.length = 14) :
    (s.next i).Offering (l ++ lengthWords bits) 1 false false false bits := by
  have hone : s.indexWord = 1 := by
    rw [hs.index, hl]
    rfl
  have hnot : ¬ (1 < s.indexWord ∨ s.isBiggerThan448 = true) := by
    rw [hone, hs.bigger]
    decide
  have ha := hs.active (i := i)
  rw [pad, if_neg hnot] at ha
  have hlen : (l ++ lengthWords bits).length = 16 := by
    rw [List.length_append, hl]
    rfl
  rw [next_eq hi ha (fun h => by cases h)]
  refine ⟨rfl, hone, ?_, hlen, hs.add, hs.bigger, hs.bits, hs.fill⟩
  show (s.block.set 0 _).set 1 _ = _
  rw [hs.block, hs.bits, full, hl, List.reverse_append]
  rfl

theorem Offering.active (hs : s.Offering l index add bigger fill bits) :
    s.active i = s.process i := by
  rw [HashPadding.active, hs.state]

/-- A block that is offered stays until it is taken. -/
theorem Offering.next_wait (hs : s.Offering l index add bigger fill bits) (hi : i.init = false)
    (hr : i.rspReady = false) : s.cmdReady i = false ∧ s.next i = s := by
  have ha := hs.active (i := i)
  rw [process, if_neg (by rw [hr]; exact Bool.false_ne_true)] at ha
  constructor
  · rw [cmdReady, hs.state]
    show (i.rspReady && _) = false
    rw [hr, Bool.false_and]
  · rw [next_eq hi ha (fun h => by cases h), ← hs.state]

/-- **A block is taken, and the padding goes on** in a block of its own. -/
theorem Offering.next_more (hs : s.Offering l index add bigger fill bits) (hi : i.init = false)
    (hr : i.rspReady = true)
    (hmore : bigger = true ∧ fill = true ∨ index = 0 ∧ i.size = 3) :
    s.cmdReady i = false ∧ (s.next i).Padding [] add false bits := by
  have hgo : (s.isBiggerThan448 || s.isLastFullWordInBlock i) = true := by
    rw [hs.bigger, isLastFullWordInBlock, hs.index]
    obtain ⟨rfl, -⟩ | ⟨rfl, hsize⟩ := hmore
    · rfl
    · rw [hsize]
      exact Bool.or_true _
  have henter : (s.isLastFullWordInBlock i || s.fillNewBlock) = true := by
    rw [hs.fill, isLastFullWordInBlock, hs.index]
    obtain ⟨-, rfl⟩ | ⟨rfl, hsize⟩ := hmore
    · exact Bool.or_true _
    · rw [hsize]
      rfl
  have ha := hs.active (i := i)
  rw [process, if_pos hr, if_pos hgo] at ha
  constructor
  · rw [cmdReady, hs.state]
    show (i.rspReady && !(s.isBiggerThan448 || s.isLastFullWordInBlock i)) = false
    rw [hgo]
    exact Bool.and_false _
  · rw [next_eq_enter hi ha (fun h => by rw [hs.state] at h; cases h), enterPadding,
      if_pos henter]
    exact ⟨rfl, rfl, full_nil.symm, by decide, hs.add, rfl, hs.bits, rfl⟩

/-- **A block is taken, and the word with it.** -/
theorem Offering.next_taken (hs : s.Offering l index add false false bits) (hi : i.init = false)
    (hr : i.rspReady = true) (hno : ¬ (index = 0 ∧ i.size = 3)) :
    s.cmdReady i = true ∧ s.next i = { s with state := .sLoad, block := full [] } := by
  have hgo : (s.isBiggerThan448 || s.isLastFullWordInBlock i) = false := by
    rw [hs.bigger, isLastFullWordInBlock, hs.index, Bool.false_or, Bool.eq_false_iff]
    intro h
    rw [Bool.and_eq_true, beq_iff_eq, beq_iff_eq] at h
    exact hno h
  have ha := hs.active (i := i)
  rw [process, if_pos hr, if_neg (by rw [hgo]; exact Bool.false_ne_true)] at ha
  constructor
  · rw [cmdReady, hs.state]
    show (i.rspReady && !(s.isBiggerThan448 || s.isLastFullWordInBlock i)) = true
    rw [hgo, hr]
    rfl
  · rw [next_eq hi ha (fun h => by cases h), full_nil]

end HashPadding

end SpinalCrypto
