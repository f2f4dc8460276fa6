import CheriTree.Proteus.SectionHash
import CheriTree.Proteus.DataSection

/-!
# What the hash of a section covers

`hashFsm` is to hand every word of the code section to the hash engine, once
and in order, with the last one marked, and to read nothing else. It has no
counter: after each word it compares the address that comes next with the top
of the section, and it leaves only where the two are equal.

The comparison is made after the first word, so a section of no words is left
the next time the address comes round, 2^30 words later. It is made every four
bytes, so a top that is no whole number of words from the base is never met.
A section over the end of the address space is left at the right word, but the
words after the end are the first ones of the address space. And a memory of
words answers an address inside a word with that word, so that a section that
does not start at a word is not read at its own bytes.

In each of the four cases the run reads a word that is not in the section,
whatever the timing, and in no other: `hashesSection_iff`.
-/

namespace Proteus

/-- **What `hashFsm` does at its two ports**: a word read, with the address it
was asked for, and a word handed to the engine, with the mark of the last
one. -/
inductive HashEvent where
  | read (address word : Word)
  | cmd (msg : Word) (last : Bool)
deriving DecidableEq, Repr

namespace InitData

variable {w : ℕ}

/-- What `hashFsm` does in a cycle. -/
def hashEvent (cfg : MemConfig) (s : InitData w) (i : InitDataInput) : Option HashEvent :=
  match s.fsm with
  | .LOAD_WORD =>
    if i.bus then
      some (.read s.currentAddress (s.mem.readWord cfg (fun _ => i.device) s.currentAddress))
    else none
  | .HASH_WORD =>
    if i.hash then
      some (.cmd (endiannessSwap s.currentWord) (decide (s.currentAddress = s.cs1.top)))
    else none
  | _ => none

end InitData

/-- The machine of `EInitData`, seen at the ports of `hashFsm`. -/
def hashPort {w : ℕ} (cfg : MemConfig) (digest : List Word → Digest) :
    SyncMachine (InitData w) InitDataInput (Option HashEvent) where
  step s i := ((eInitData cfg digest).next s i, s.hashEvent cfg i)

@[simp] theorem hashPort_next {w : ℕ} (cfg : MemConfig) (digest : List Word → Digest)
    (s : InitData w) (i : InitDataInput) :
    (hashPort cfg digest).next s i = s.drain.act cfg digest i s.wb.isNone := rfl

@[simp] theorem hashPort_obs {w : ℕ} (cfg : MemConfig) (digest : List Word → Digest)
    (s : InitData w) (i : InitDataInput) :
    (hashPort cfg digest).obs s i = s.hashEvent cfg i := rfl

/-! ## The section, word by word -/

namespace Capability

/-- The address of word `k` of a section, as the core counts. -/
def wordAddress (c : Capability) (k : ℕ) : Word := c.base + BitVec.ofNat 32 (4 * k)

theorem wordAddress_zero (c : Capability) : c.wordAddress 0 = c.base := BitVec.add_zero _

theorem wordAddress_succ (c : Capability) (k : ℕ) :
    c.wordAddress k + 4 = c.wordAddress (k + 1) :=
  InitData.address_next c.base k

/-- **A section that the hash covers**: one or more whole words, from the start
of a word on, up to the end of the address space at most. -/
def WholeSection (c : Capability) : Prop :=
  0 < c.length.toNat ∧ c.length.toNat % 4 = 0 ∧ c.base.toNat % 4 = 0
    ∧ c.base.toNat + c.length.toNat ≤ 2 ^ 32

instance (c : Capability) : Decidable c.WholeSection := inferInstanceAs (Decidable (_ ∧ _))

end Capability

/-- **The ports over a whole section**, whose words are `words`: each word
read at its address and handed over with its bytes swapped, the last one
marked. -/
def sectionEvents (c : Capability) (words : List Word) : List HashEvent :=
  words.zipIdx.flatMap fun x =>
    [.read (c.wordAddress x.2) x.1, .cmd (endiannessSwap x.1) (decide (x.2 + 1 = words.length))]

/-- The ports over the first words, with the mark the core gives. -/
def walked (c : Capability) (words : List Word) : List HashEvent :=
  words.zipIdx.flatMap fun x =>
    [.read (c.wordAddress x.2) x.1,
      .cmd (endiannessSwap x.1) (decide (c.wordAddress (x.2 + 1) = c.top))]

theorem walked_concat (c : Capability) (words : List Word) (x : Word) :
    walked c (words ++ [x]) = walked c words ++ [.read (c.wordAddress words.length) x,
      .cmd (endiannessSwap x) (decide (c.wordAddress (words.length + 1) = c.top))] := by
  unfold walked
  rw [List.zipIdx_append, List.flatMap_append, Nat.zero_add]
  rfl

/-- A word read is one of the section, at its address. -/
theorem read_mem_walked {c : Capability} {words : List Word} {a x : Word}
    (h : HashEvent.read a x ∈ walked c words) : ∃ k < words.length, a = c.wordAddress k := by
  unfold walked at h
  obtain ⟨⟨y, k⟩, hk, hmem⟩ := List.mem_flatMap.1 h
  refine ⟨k, List.snd_lt_of_mem_zipIdx hk, ?_⟩
  have hread : a = c.wordAddress k ∧ x = y := by simpa using hmem
  exact hread.1

namespace InitData

variable {w : ℕ} (cfg : MemConfig) (digest : List Word → Digest)

/-- **The hash covers the section.** It comes to its end having handed over
every word of the section, once, in order and the last one marked; every word
is one the memory or a device gave; and no word is read that is not all in the
section. -/
structure HashesSection (s : InitData w) (env : ℕ → InitDataInput) : Prop where
  covers : ∃ n, ((hashPort cfg digest).stateAt s env n).fsm = .STORE_HASH
    ∧ ∃ words, words.length = s.drain.cs1.length.toNat / 4
      ∧ (hashPort cfg digest).told s env n = sectionEvents s.drain.cs1 words
  reads : ∀ n a x, .read a x ∈ (hashPort cfg digest).told s env n →
    ∃ device, x = s.mem.readWord cfg device a
  inside : ∀ n a x, .read a x ∈ (hashPort cfg digest).told s env n →
    (ByteRange.mk (4 * (a.toNat / 4)) 4).Within s.drain.cs1.range

/-! ## The walk -/

/-- **Between two words**: the words so far have been read and handed over, and
the next address is that of the word after them. -/
structure Walking (c : Capability) (m : TaggedMemory) (t : InitData w)
    (events : List HashEvent) (words : List Word) : Prop where
  fsm : t.fsm = .LOAD_WORD
  wb : t.wb = none
  cs1 : t.cs1 = c
  mem : t.mem = m
  address : t.currentAddress = c.wordAddress words.length
  events : events = walked c words

variable {cfg digest} {s : InitData w} {env : ℕ → InitDataInput} {c : Capability}
  {m : TaggedMemory} {n : ℕ} {words : List Word}

/-- **One word**, however long the bus and the engine take: it is read at its
address and handed over, and the walk goes on but at the top. -/
theorem Walking.word (henv : Answers env)
    (h : Walking c m ((hashPort cfg digest).stateAt s env n)
      ((hashPort cfg digest).told s env n) words) :
    ∃ n' x, (∃ device, x = m.readWord cfg device (c.wordAddress words.length))
      ∧ (hashPort cfg digest).told s env n' = walked c (words ++ [x])
      ∧ if c.wordAddress (words.length + 1) = c.top then
          ((hashPort cfg digest).stateAt s env n').fsm = .STORE_HASH
        else Walking c m ((hashPort cfg digest).stateAt s env n')
          ((hashPort cfg digest).told s env n') (words ++ [x]) := by
  -- the bus gives the word
  obtain ⟨n₁, -, hst₁, htold₁, hbus⟩ :=
    @SyncMachine.exists_stateAt_of_waits _ _ _ (hashPort cfg digest)
    s env _ n (by
      intro i hi
      rw [hashPort_next, drain_eq_self h.wb, hashPort_obs, act, hashEvent, h.fsm]
      exact ⟨if_neg hi, if_neg hi⟩) (henv .LOAD_WORD n)
  have hbus : (env n₁).bus = true := hbus
  rw [← hst₁, ← htold₁] at h
  set t := (hashPort cfg digest).stateAt s env n₁ with ht
  set x := m.readWord cfg (fun _ => (env n₁).device) (c.wordAddress words.length) with hx
  have hst₂ : (hashPort cfg digest).stateAt s env (n₁ + 1) =
      { t with
        currentWord := x
        currentAddress := c.wordAddress (words.length + 1)
        fsm := .HASH_WORD } := by
    rw [SyncMachine.stateAt_succ, ← ht, hashPort_next, drain_eq_self h.wb, act, h.fsm]
    show t.loadWord cfg (env n₁) = _
    rw [loadWord, if_pos hbus, h.mem, h.address, Capability.wordAddress_succ]
  have htold₂ : (hashPort cfg digest).told s env (n₁ + 1)
      = walked c words ++ [.read (c.wordAddress words.length) x] := by
    rw [SyncMachine.told_succ, h.events]
    show _ ++ (t.hashEvent cfg (env n₁)).toList = _
    rw [hashEvent, h.fsm]
    show _ ++ (if (env n₁).bus = true then _ else none).toList = _
    rw [if_pos hbus, h.mem, h.address]
    rfl
  have hwb₂ : ((hashPort cfg digest).stateAt s env (n₁ + 1)).wb = none := by
    rw [hst₂]
    exact h.wb
  -- the engine takes it
  obtain ⟨n₃, -, hst₃, htold₃, hhash⟩ :=
    @SyncMachine.exists_stateAt_of_waits _ _ _ (hashPort cfg digest)
    s env _ (n₁ + 1) (by
      intro i hi
      rw [hashPort_next, drain_eq_self hwb₂, hashPort_obs, act, hashEvent, hst₂]
      exact ⟨if_neg hi, if_neg hi⟩) (henv .HASH_WORD (n₁ + 1))
  have hhash : (env n₃).hash = true := hhash
  have hwb₃ := hst₃ ▸ hwb₂
  rw [hst₂] at hst₃
  rw [htold₂] at htold₃
  have htold₄ : (hashPort cfg digest).told s env (n₃ + 1) = walked c (words ++ [x]) := by
    rw [SyncMachine.told_succ, htold₃, SyncMachine.obsAt, hst₃, walked_concat, List.append_assoc]
    congr 1
    show _ :: (if (env n₃).hash = true then _ else none).toList = _
    rw [if_pos hhash]
    show _ :: [HashEvent.cmd _ (decide (_ = t.cs1.top))] = _
    rw [h.cs1]
  have hst₄ : (hashPort cfg digest).stateAt s env (n₃ + 1) =
      { t with
        currentWord := x
        currentAddress := c.wordAddress (words.length + 1)
        hashed := t.hashed ++ [endiannessSwap x]
        fsm := if c.wordAddress (words.length + 1) = c.top then .STORE_HASH else .LOAD_WORD } := by
    rw [SyncMachine.stateAt_succ, hashPort_next, drain_eq_self hwb₃, act, hst₃]
    show hashWord _ (env n₃) = _
    rw [hashWord, if_pos hhash]
    show InitData.mk (if _ = t.cs1.top then _ else _) _ _ _ _ _ _ _ _ _ _ _ _ _ _ = _
    rw [h.cs1]
  refine ⟨n₃ + 1, x, ⟨_, rfl⟩, htold₄, ?_⟩
  split
  · rename_i htop
    rw [hst₄]
    exact if_pos htop
  · rename_i htop
    refine ⟨by rw [hst₄]; exact if_neg htop, by rw [hst₄]; exact h.wb, by rw [hst₄]; exact h.cs1,
      by rw [hst₄]; exact h.mem, ?_, htold₄⟩
    rw [hst₄, List.length_append]
    rfl

/-- What has been read was given by the memory or a device. -/
def Given (cfg : MemConfig) (m : TaggedMemory) (events : List HashEvent) : Prop :=
  ∀ a x, .read a x ∈ events → ∃ device, x = m.readWord cfg device a

theorem Given.walked_concat {x : Word} (h : Given cfg m (walked c words))
    (hx : ∃ device, x = m.readWord cfg device (c.wordAddress words.length)) :
    Given cfg m (walked c (words ++ [x])) := by
  intro a y hmem
  rw [Proteus.walked_concat] at hmem
  rcases List.mem_append.1 hmem with hold | hnew
  · exact h a y hold
  · obtain ⟨rfl, rfl⟩ : a = c.wordAddress words.length ∧ y = x := by simpa using hnew
    exact hx

/-- The first cycle. -/
theorem walking_of_start (hstart : s.fsm = .HASH_START) :
    Walking s.drain.cs1 s.mem ((hashPort cfg digest).stateAt s env 1)
      ((hashPort cfg digest).told s env 1) [] := by
  have hfirst : (hashPort cfg digest).stateAt s env 1 = { s.drain with
      currentAddress := s.drain.cs1.base
      hashed := []
      fsm := .LOAD_WORD } := by
    rw [SyncMachine.stateAt_succ, SyncMachine.stateAt_zero, hashPort_next, act, drain_fsm, hstart]
  have htold : (hashPort cfg digest).told s env 1 = [] := by
    show List.filterMap _ [0] = []
    rw [List.filterMap_cons, SyncMachine.obsAt, SyncMachine.stateAt_zero, hashPort_obs, hashEvent,
      hstart]
    rfl
  refine ⟨by rw [hfirst], by rw [hfirst]; exact drain_wb s, by rw [hfirst]; rfl,
    by rw [hfirst]; exact drain_mem s, by rw [hfirst]; exact (s.drain.cs1.wordAddress_zero).symm,
    htold⟩

/-- **The walk** comes to every word that no top is met before. -/
theorem exists_walking (henv : Answers env) (hstart : s.fsm = .HASH_START) (k : ℕ)
    (hon : ∀ j, 0 < j → j ≤ k → s.drain.cs1.wordAddress j ≠ s.drain.cs1.top) :
    ∃ n words, words.length = k
      ∧ Walking s.drain.cs1 s.mem ((hashPort cfg digest).stateAt s env n)
          ((hashPort cfg digest).told s env n) words
      ∧ Given cfg s.mem (walked s.drain.cs1 words) := by
  induction k with
  | zero =>
    exact ⟨1, [], rfl, walking_of_start hstart, fun a x h => absurd h List.not_mem_nil⟩
  | succ k ih =>
    obtain ⟨n, words, hk, hwalk, hgiven⟩ := ih fun j h0 hj => hon j h0 (Nat.le_succ_of_le hj)
    obtain ⟨n', x, hx, -, hnext⟩ := hwalk.word henv
    rw [hk, if_neg (hon (k + 1) k.succ_pos (le_refl _))] at hnext
    refine ⟨n', words ++ [x], ?_, hnext, hgiven.walked_concat hx⟩
    rw [List.length_append, hk]
    rfl

/-! ## After the walk -/

/-- The hash is over. -/
def Hashed (t : InitData w) : Prop :=
  t.fsm = .STORE_HASH ∨ t.fsm = .STORE_SEAL ∨ t.fsm = .IDLE ∧ t.valid = false

theorem Hashed.next {t : InitData w} (h : t.Hashed) (i : InitDataInput) :
    ((hashPort cfg digest).next t i).Hashed := by
  rw [hashPort_next, act, drain_fsm]
  rcases h with hf | hf | ⟨hf, hv⟩
  · rw [hf]
    show (t.drain.storeHash digest i).Hashed
    unfold storeHash
    split
    · simp only
      split
      · exact Or.inr (Or.inl rfl)
      · exact Or.inr (Or.inr ⟨rfl, rfl⟩)
    · exact Or.inl ((drain_fsm t).trans hf)
  · rw [hf]
    show (t.drain.storeSeal cfg i).Hashed
    unfold storeSeal
    split
    · exact Or.inr (Or.inr ⟨rfl, rfl⟩)
    · exact Or.inr (Or.inl ((drain_fsm t).trans hf))
  · rw [hf]
    show (if t.drain.valid then _ else t.drain).Hashed
    rw [drain_valid, hv, if_neg Bool.false_ne_true]
    exact Or.inr (Or.inr ⟨(drain_fsm t).trans hf, (drain_valid t).trans hv⟩)

theorem Hashed.silent {t : InitData w} (h : t.Hashed) (i : InitDataInput) :
    t.hashEvent cfg i = none := by
  unfold hashEvent
  rcases h with hf | hf | ⟨hf, -⟩ <;> rw [hf]

/-- When the hash is over, the ports are silent. -/
theorem Hashed.told_eq {n : ℕ} (h : ((hashPort cfg digest).stateAt s env n).Hashed) (d : ℕ) :
    (hashPort cfg digest).told s env (n + d) = (hashPort cfg digest).told s env n
      ∧ ((hashPort cfg digest).stateAt s env (n + d)).Hashed := by
  induction d with
  | zero => exact ⟨rfl, h⟩
  | succ d ih =>
    refine ⟨?_, ih.2.next _⟩
    show (hashPort cfg digest).told s env (n + d + 1) = _
    rw [SyncMachine.told_succ, ih.1, SyncMachine.obsAt, hashPort_obs, ih.2.silent]
    exact List.append_nil _

/-- All that a run tells is told when the hash is over. -/
theorem Hashed.mem_told {n n' : ℕ} {e : HashEvent}
    (h : ((hashPort cfg digest).stateAt s env n).Hashed)
    (he : e ∈ (hashPort cfg digest).told s env n') : e ∈ (hashPort cfg digest).told s env n := by
  rcases Nat.le_total n' n with hle | hle
  · exact ((hashPort cfg digest).told_isPrefix_of_le hle).subset he
  · obtain ⟨d, rfl⟩ := Nat.exists_eq_add_of_le hle
    rwa [(h.told_eq d).1] at he

end InitData

/-! ## What the addresses are -/

namespace Capability

/-- The address of a word meets the top where the words make up the length,
once around the address space or more. -/
theorem wordAddress_eq_top_iff (c : Capability) (k : ℕ) :
    c.wordAddress k = c.top ↔ 4 * k % 2 ^ 32 = c.length.toNat := by
  unfold wordAddress top
  rw [BitVec.add_right_inj, ← BitVec.toNat_inj, BitVec.toNat_ofNat]

theorem toNat_wordAddress (c : Capability) (k : ℕ) :
    (c.wordAddress k).toNat = (c.base.toNat + 4 * k) % 2 ^ 32 := by
  rw [wordAddress, BitVec.toNat_add, BitVec.toNat_ofNat, Nat.add_mod_mod]

/-- The whole words of a section are in it. -/
theorem WholeSection.inside {c : Capability} (h : c.WholeSection) {k : ℕ}
    (hk : k < c.length.toNat / 4) :
    (ByteRange.mk (4 * ((c.wordAddress k).toNat / 4)) 4).Within c.range := by
  obtain ⟨-, hmod, hbase, hend⟩ := h
  rw [toNat_wordAddress, Nat.mod_eq_of_lt (by omega), ByteRange.within_iff]
  simp only [ByteRange.top, range_base, range_length]
  omega

/-- **Where all words that the walk comes to are inside**, the section is
whole. -/
theorem wholeSection_of_inside {c : Capability}
    (h : ∀ k, (∀ j, 0 < j → j ≤ k → c.wordAddress j ≠ c.top) →
      (ByteRange.mk (4 * ((c.wordAddress k).toNat / 4)) 4).Within c.range) : c.WholeSection := by
  have hlen := c.length.isLt
  have hb := c.base.isLt
  have hin : ∀ k, (∀ j, 0 < j → j ≤ k → 4 * j % 2 ^ 32 ≠ c.length.toNat) →
      c.base.toNat ≤ 4 * ((c.base.toNat + 4 * k) % 2 ^ 32 / 4)
        ∧ 4 * ((c.base.toNat + 4 * k) % 2 ^ 32 / 4) + 4 ≤ c.base.toNat + c.length.toNat := by
    intro k hon
    have hk := h k fun j h0 hj heq => hon j h0 hj ((c.wordAddress_eq_top_iff j).1 heq)
    rw [toNat_wordAddress, ByteRange.within_iff] at hk
    exact hk.resolve_left (Nat.succ_ne_zero 3)
  have hfirst := hin 0 (fun j h0 hj => absurd hj (by omega))
  have hbase : c.base.toNat % 4 = 0 := by omega
  -- a top between two words is never met, and the last word is not all inside
  have hmod : c.length.toNat % 4 = 0 := by
    by_contra hne
    have := hin (c.length.toNat / 4) (fun j _ _ => by omega)
    omega
  -- over the end of the address space the walk comes to address zero
  have hend : c.base.toNat + c.length.toNat ≤ 2 ^ 32 := by
    by_contra hne
    have := hin ((2 ^ 32 - c.base.toNat) / 4) (fun j _ _ => by omega)
    omega
  exact ⟨by omega, hmod, hbase, hend⟩

end Capability

/-! ## The coverage of the hash -/

/-- The marks the core gives are those of the last word. -/
theorem walked_eq_sectionEvents {c : Capability} (h : c.WholeSection) {words : List Word}
    (hwords : words.length = c.length.toNat / 4) : walked c words = sectionEvents c words := by
  have hlen := c.length.isLt
  obtain ⟨-, hmod, -, -⟩ := h
  unfold walked sectionEvents
  refine List.flatMap_congr fun x hx => ?_
  have hlt := List.snd_lt_of_mem_zipIdx hx
  have hlast : c.wordAddress (x.2 + 1) = c.top ↔ x.2 + 1 = words.length := by
    rw [c.wordAddress_eq_top_iff]
    omega
  rw [decide_eq_decide.2 hlast]

open InitData in
/-- **The hash covers the code section exactly when the section is whole**: one
or more whole words, from the start of a word on, up to the end of the address
space at most. -/
theorem hashesSection_iff {w : ℕ} (cfg : MemConfig) (digest : List Word → Digest)
    (s : InitData w) (env : ℕ → InitDataInput) (hstart : s.fsm = .HASH_START)
    (henv : InitData.Answers env) :
    s.HashesSection cfg digest env ↔ s.drain.cs1.WholeSection := by
  constructor
  · intro h
    refine Capability.wholeSection_of_inside fun k hon => ?_
    obtain ⟨n, words, hk, hwalk, -⟩ :=
      @exists_walking _ cfg digest _ _ henv hstart k hon
    obtain ⟨n', x, -, htold, -⟩ := hwalk.word henv
    refine h.inside n' _ x ?_
    rw [htold, walked_concat, hk]
    exact List.mem_append_right _ List.mem_cons_self
  · intro h
    obtain ⟨hpos, hmod, -, -⟩ := id h
    obtain ⟨n, words, hk, hwalk, hgiven⟩ := @exists_walking _ cfg digest _ _ henv
      hstart (s.drain.cs1.length.toNat / 4 - 1) (fun j h0 hj htop => by
        rw [Capability.wordAddress_eq_top_iff] at htop
        have := s.drain.cs1.length.isLt
        omega)
    obtain ⟨n', x, hx, htold, hnext⟩ := hwalk.word henv
    have hlen : (words ++ [x]).length = s.drain.cs1.length.toNat / 4 := by
      rw [List.length_append, List.length_singleton]
      omega
    have htop : s.drain.cs1.wordAddress (words.length + 1) = s.drain.cs1.top := by
      rw [Capability.wordAddress_eq_top_iff]
      have := s.drain.cs1.length.isLt
      omega
    rw [if_pos htop] at hnext
    have hover : ((hashPort cfg digest).stateAt s env n').Hashed := Or.inl hnext
    refine ⟨⟨n', hnext, words ++ [x], hlen, ?_⟩, fun k a y hmem => ?_, fun k a y hmem => ?_⟩
    · rw [htold, walked_eq_sectionEvents h hlen]
    · have hin := hover.mem_told hmem
      rw [htold] at hin
      exact hgiven.walked_concat hx a y hin
    · have hin := hover.mem_told hmem
      rw [htold] at hin
      obtain ⟨j, hj, rfl⟩ := read_mem_walked hin
      exact h.inside (hlen ▸ hj)

namespace InitData

/-- The small enclave with a code section of two words, at the start of its
hash. -/
def smallHashing : InitData 4 :=
  { small 2 with
    fsm := .HASH_START
    cap := { (small 2).cap with
      regs := fun r => if r = 1 then { smallCode with length := 8 } else .null }
    mem := { (small 2).mem with ram := fun a => if a = 0x20000001 then 1 else 0 } }

/-- The small enclave with a code section of one word and a half. -/
def smallRagged : InitData 4 :=
  { small 2 with
    cap := { (small 2).cap with
      regs := fun r => if r = 1 then { smallCode with length := 6 } else .null } }

end InitData

open InitData in
/-- The section of two words is covered, in their order. -/
theorem smallHashing_hashesSection :
    (hashPort smallMemory lastWords).told smallHashing promptRun 12
        = sectionEvents smallHashing.drain.cs1 [0, 1]
      ∧ smallHashing.HashesSection smallMemory lastWords promptRun :=
  ⟨by decide +kernel,
    (hashesSection_iff smallMemory lastWords smallHashing promptRun rfl answers_promptRun).2
      (by decide)⟩

open InitData in
/-- **A section of six bytes is read past its end**, after a sweep that has
passed. -/
theorem smallRagged_not_hashesSection :
    let s := (eInitData smallMemory lastWords).stateAt smallRagged promptRun 42
    smallRagged.Starts ∧ InitData.Answers promptRun ∧ s.fsm = .HASH_START
      ∧ HashEvent.read 0x80000004 0 ∈ (hashPort smallMemory lastWords).told s promptRun 5
      ∧ ¬ s.HashesSection smallMemory lastWords promptRun := by
  have hread : HashEvent.read 0x80000004 0 ∈ (hashPort smallMemory lastWords).told
      ((eInitData smallMemory lastWords).stateAt smallRagged promptRun 42) promptRun 5 := by
    decide +kernel
  refine ⟨⟨rfl, rfl⟩, answers_promptRun, by decide +kernel, hread, fun h => ?_⟩
  have hin := h.inside 5 _ _ hread
  revert hin
  decide +kernel

end Proteus
