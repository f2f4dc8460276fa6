import CheriTree.SpinalCrypto.HashPadding

/-!
# The SHA-2 core

`SHA2Core_Std` puts the padding in front of the engine. A client hands it the
words of a message, highest byte first, and holds each until it is taken; the
last word comes with the number of its bytes and is taken when the digest is
there.

A word that does not fill a block is taken at once. One that does is taken when
the engine has consumed the block, and the last one when all of the padding is
consumed, which is one block more or two. In between the core does not look at
anything but the word it is offered, so that all of this is a matter of how many
cycles it lets the client wait (`Waits`). What it answers is the SHA-256 of the
bytes of the message (`sha2Core_hashes`).
-/

namespace SpinalCrypto

/-- **The core**: the padding in front of the engine. -/
structure Sha2Core where
  padding : HashPadding
  engine : Sha2Engine

/-- What the core is given in a cycle: whether to start again, and a word of the
message, whose size is one less than the number of its bytes. -/
structure HashInput where
  init : Bool
  valid : Bool
  msg : Word
  last : Bool
  size : BitVec 2

/-- What it answers: whether the word is taken, and the digest. -/
structure HashOutput where
  cmdReady : Bool
  rspValid : Bool
  digest : BitVec 256

/-- The words of a hash, the first one highest. -/
def digestOf (h : Sha256.State) : BitVec 256 :=
  h.a ++ h.b ++ h.c ++ h.d ++ h.e ++ h.f ++ h.g ++ h.h

namespace Sha2Core

variable (s : Sha2Core) (i : HashInput)

/-- The core and its engine, as the padding sees them. -/
def padInput : PadInput := ⟨i.init, i.valid, i.msg, i.last, i.size, s.engine.ready⟩

/-- The core and its padding, as the engine sees them. -/
def engineInput : EngineInput := ⟨i.init, s.padding.rspValid, s.padding.block⟩

/-- **A cycle of the core.** -/
def next : Sha2Core := ⟨s.padding.next (s.padInput i), s.engine.next (s.engineInput i)⟩

/-- `io.cmd.ready`. -/
def cmdReady : Bool := s.padding.cmdReady (s.padInput i)

/-- `io.rsp.valid`. -/
def rspValid : Bool := s.engine.rspValid && i.last && s.cmdReady i

/-- `io.rsp.digest`. -/
def digest : BitVec 256 := digestOf s.engine.hash

end Sha2Core

/-- The core as a synchronous machine. -/
def sha2Core : SyncMachine Sha2Core HashInput HashOutput where
  step s i := (s.next i, ⟨s.cmdReady i, s.rspValid i, s.digest⟩)

namespace Sha2Core

/-! ## Letting the client wait -/

/-- **The core lets the client wait** for so many cycles. -/
def Waits (i : HashInput) : ℕ → Sha2Core → Sha2Core → Prop
  | 0, s, s' => s = s'
  | k + 1, s, s' => s.cmdReady i = false ∧ Waits i k (s.next i) s'

variable {s s' s'' : Sha2Core} {i : HashInput} {k m : ℕ}

theorem Waits.one (h : s.cmdReady i = false) : Waits i 1 s (s.next i) := ⟨h, rfl⟩

theorem Waits.trans (h : Waits i k s s') (h' : Waits i m s' s'') : Waits i (k + m) s s'' := by
  induction k generalizing s with
  | zero =>
    obtain rfl : s = s' := h
    rw [Nat.zero_add]
    exact h'
  | succ k ih =>
    rw [Nat.succ_add]
    exact ⟨h.1, ih h.2⟩

/-! ## A block -/

variable {h : Sha256.State} {l : List Word} {add bigger fill : Bool} {bits : BitVec 64}
  {index : BitVec 4}

/-- While the engine does not answer, the block that is offered stays. -/
theorem next_offering (hp : s.padding.Offering l index add bigger fill bits)
    (hi : i.init = false) (hr : s.engine.rspValid = false) :
    s.cmdReady i = false ∧ s.next i = ⟨s.padding, s.engine.next (s.engineInput i)⟩ := by
  obtain ⟨hready, hstay⟩ := hp.next_wait (i := s.padInput i) hi hr
  refine ⟨hready, ?_⟩
  rw [next, hstay]

/-- The engine goes on to its last round. -/
theorem waits_inRound (hp : s.padding.Offering l index add bigger fill bits)
    (hi : i.init = false) {t : ℕ} (he : s.engine.InRound h s.padding.block t) (hk : t + k = 63) :
    ∃ s', Waits i k s s' ∧ s'.padding = s.padding
      ∧ s'.engine.InRound h s.padding.block 63 := by
  induction k generalizing s t with
  | zero =>
    obtain rfl : t = 63 := hk
    exact ⟨s, rfl, rfl, he⟩
  | succ k ih =>
    obtain ⟨hready, hnext⟩ := next_offering hp hi he.rsp
    have hpad : (s.next i).padding = s.padding := by
      rw [hnext]
    have heng : (s.next i).engine.InRound h (s.next i).padding.block (t + 1) := by
      rw [hpad, hnext]
      exact he.next hi (by omega)
    obtain ⟨s', hwaits, hsame, hlast⟩ := ih (hpad ▸ hp) heng (by omega)
    exact ⟨s', ⟨hready, hwaits⟩, hsame.trans hpad, hpad ▸ hlast⟩

/-- **A block that is offered is consumed** after sixty-six cycles. -/
theorem waits_offering (hp : s.padding.Offering l index add bigger fill bits)
    (hi : i.init = false) (he : s.engine.Idle h) :
    ∃ s', Waits i 66 s s' ∧ s'.padding = s.padding
      ∧ s'.engine.Answers (Sha256.consumeChunk h l) := by
  have hblock : s.padding.block.length = 16 := by
    rw [hp.block, List.length_reverse, hp.length]
  -- the block is seen, and round zero is next
  obtain ⟨hready₁, hnext₁⟩ := next_offering hp hi he.rsp
  have hvalid : s.padding.rspValid = true := by
    rw [HashPadding.rspValid, hp.state]
    rfl
  have hpad₁ : (s.next i).padding = s.padding := by
    rw [hnext₁]
  have heng₁ : (s.next i).engine.InRound h (s.next i).padding.block 0 := by
    rw [hpad₁, hnext₁]
    exact he.next_inRound (i := s.engineInput i) hvalid hi hblock
  obtain ⟨s₂, hwaits, hpad₂, heng₂⟩ := waits_inRound (hpad₁ ▸ hp) hi heng₁ (Nat.zero_add 63)
  rw [hpad₁] at hpad₂ heng₂
  -- the last round, and the sum
  obtain ⟨hready₃, hnext₃⟩ := next_offering (i := i) (hpad₂ ▸ hp) hi heng₂.rsp
  have hpad₃ : (s₂.next i).padding = s.padding := by
    rw [hnext₃]
    exact hpad₂
  have heng₃ : (s₂.next i).engine.InFinal h s.padding.block := by
    rw [hnext₃]
    exact heng₂.next_inFinal hi
  obtain ⟨hready₄, hnext₄⟩ := next_offering (i := i) (hpad₃ ▸ hp) hi heng₃.rsp
  refine ⟨(s₂.next i).next i, ?_, ?_, ?_⟩
  · exact (Waits.one hready₁).trans
      (hwaits.trans ((Waits.one hready₃).trans (Waits.one hready₄)))
  · rw [hnext₄]
    exact hpad₃
  · rw [hnext₄]
    have hans := heng₃.next (i := (s₂.next i).engineInput i) hi
    rwa [hp.block, List.reverse_reverse] at hans

/-- **A block after which the padding goes on** in a block of its own. -/
theorem waits_more (hp : s.padding.Offering l index add bigger fill bits)
    (hi : i.init = false) (he : s.engine.Idle h)
    (hmore : bigger = true ∧ fill = true ∨ index = 0 ∧ i.size = 3) :
    ∃ s', Waits i 67 s s' ∧ s'.padding.Padding [] add false bits
      ∧ s'.engine.Idle (Sha256.consumeChunk h l) := by
  obtain ⟨s₁, hwaits, hpad, hans⟩ := waits_offering hp hi he
  obtain ⟨hready, hnext⟩ :=
    (hpad ▸ hp : s₁.padding.Offering l index add bigger fill bits).next_more
      (i := s₁.padInput i) hi hans.rsp hmore
  exact ⟨s₁.next i, hwaits.trans (Waits.one hready), hnext, hans.next hi⟩

/-! ## The padding -/

/-- While no block is offered, the engine rests. -/
theorem idle_next (hp : s.padding.state ≠ .sProcessing) (hi : i.init = false)
    (he : s.engine.Idle h) : (s.next i).engine.Idle h := by
  have hvalid : (s.engineInput i).valid = false := beq_eq_false_iff_ne.2 hp
  exact he.next hvalid hi

/-- While the padding is made, the client waits. -/
theorem idle_next_padding (hp : s.padding.state = .sPadding) (hi : i.init = false)
    (he : s.engine.Idle h) : s.cmdReady i = false ∧ (s.next i).engine.Idle h :=
  ⟨HashPadding.cmdReady_padding hp, idle_next (by rw [hp]; exact fun h => by cases h) hi he⟩

/-- So many words of padding: a one, if it is still to come, and zeros. -/
def filler (add : Bool) : ℕ → List Word
  | 0 => []
  | m + 1 => HashPadding.padWord add :: List.replicate m 0

theorem filler_false (m : ℕ) : filler false m = List.replicate m 0 := by
  cases m with
  | zero => rfl
  | succ m => rfl

theorem length_filler (add : Bool) (m : ℕ) : (filler add m).length = m := by
  cases m with
  | zero => rfl
  | succ m => rw [filler, List.length_cons, List.length_replicate]

theorem filler_append (add : Bool) (hm : 0 < m) (k : ℕ) :
    filler add m ++ List.replicate k 0 = filler add (m + k) := by
  cases m with
  | zero => exact absurd hm (Nat.lt_irrefl 0)
  | succ m =>
    rw [Nat.succ_add, filler, filler, List.cons_append, List.replicate_append_replicate]

/-- The first word of padding and the others. -/
theorem append_filler (l : List Word) (add : Bool) (m : ℕ) :
    l ++ [HashPadding.padWord add] ++ filler false m = l ++ filler add (m + 1) := by
  rw [filler_false, filler, List.append_assoc, List.singleton_append]

/-- **The padding that ends with the length.** -/
theorem waits_length (hp : s.padding.Padding l add false bits) (hi : i.init = false)
    (he : s.engine.Idle h) (hl : l.length + m = 14) (hadd : m = 0 → add = false) :
    ∃ s', Waits i (m + 1) s s' ∧ s'.engine.Idle h
      ∧ s'.padding.Offering (l ++ filler add m ++ HashPadding.lengthWords bits) 1 false false
        false bits := by
  obtain ⟨hready, hidle⟩ := idle_next_padding hp.state hi he
  induction m generalizing s l add with
  | zero =>
    obtain rfl := hadd rfl
    refine ⟨s.next i, Waits.one hready, hidle, ?_⟩
    rw [filler, List.append_nil]
    exact hp.next_length hi hl
  | succ m ih =>
    have hpad := hp.next_word (i := s.padInput i) hi (by omega) (Or.inl (by omega))
    have hlen : (l ++ [HashPadding.padWord add]).length + m = 14 := by
      rw [List.length_append, List.length_singleton]
      omega
    obtain ⟨hready', hidle'⟩ := idle_next_padding (s := s.next i) (i := i) hpad.state hi hidle
    obtain ⟨s', hwaits, hrest, hoff⟩ := ih hpad hidle hlen (fun _ => rfl) hready' hidle'
    rw [append_filler] at hoff
    exact ⟨s', ⟨hready, hwaits⟩, hrest, hoff⟩

/-- **The padding that ends with the block.** -/
theorem waits_end (hp : s.padding.Padding l add true bits) (hi : i.init = false)
    (he : s.engine.Idle h) (hl : l.length + m = 15) :
    ∃ s', Waits i (m + 1) s s' ∧ s'.engine.Idle h
      ∧ s'.padding.Offering (l ++ filler add (m + 1)) 15 false true true bits := by
  obtain ⟨hready, hidle⟩ := idle_next_padding hp.state hi he
  induction m generalizing s l add with
  | zero => exact ⟨s.next i, Waits.one hready, hidle, hp.next_end hi hl⟩
  | succ m ih =>
    have hpad := hp.next_word (i := s.padInput i) hi (by omega) (Or.inr rfl)
    have hlen : (l ++ [HashPadding.padWord add]).length + m = 15 := by
      rw [List.length_append, List.length_singleton]
      omega
    obtain ⟨hready', hidle'⟩ := idle_next_padding (s := s.next i) (i := i) hpad.state hi hidle
    obtain ⟨s', hwaits, hrest, hoff⟩ := ih hpad hidle hlen hready' hidle'
    rw [append_filler] at hoff
    exact ⟨s', ⟨hready, hwaits⟩, hrest, hoff⟩

/-! ## A word of the message -/

/-- The hash of complete blocks. -/
def hashOf (w : List Word) : Sha256.State := Sha256.consume (w.length / 16) Sha256.init w

/-- **The words of a message have been taken**, those of complete blocks have
been consumed, and the core waits for the next. -/
structure AtLoad (ws : List Word) (s : Sha2Core) : Prop where
  padding : s.padding.Loading ws.length (ws.drop (16 * (ws.length / 16)))
  engine : s.engine.Idle (hashOf ws)

variable {ws : List Word}

/-- The words that are not consumed yet. -/
theorem length_drop (ws : List Word) :
    (ws.drop (16 * (ws.length / 16))).length = ws.length % 16 := by
  rw [List.length_drop]
  omega

/-- Words behind a message, with those that are not consumed, make blocks of
their own. -/
theorem hashOf_append (ws v : List Word) :
    hashOf (ws ++ v) = Sha256.consume ((ws.length % 16 + v.length) / 16) (hashOf ws)
      (ws.drop (16 * (ws.length / 16)) ++ v) := by
  have hlen : (ws.take (16 * (ws.length / 16))).length = 16 * (ws.length / 16) := by
    rw [List.length_take]
    omega
  have hcount : (ws ++ v).length / 16
      = ws.length / 16 + (ws.length % 16 + v.length) / 16 := by
    rw [List.length_append]
    omega
  have hws : hashOf ws
      = Sha256.consume (ws.length / 16) Sha256.init (ws.take (16 * (ws.length / 16))) := by
    have htake := Sha256.consume_take (ws.length / 16) Sha256.init
      (v := ws.drop (16 * (ws.length / 16))) hlen
    rwa [List.take_append_drop] at htake
  rw [hashOf, hcount, hws, ← Sha256.consume_append _ _ _ hlen, ← List.append_assoc,
    List.take_append_drop]

/-- Words that do not complete a block. -/
theorem hashOf_append_lt {v : List Word} (hlt : ws.length % 16 + v.length < 16) :
    hashOf (ws ++ v) = hashOf ws := by
  rw [hashOf_append, Nat.div_eq_of_lt hlt]
  rfl

/-- Words that complete one block. -/
theorem hashOf_append_block {v : List Word} (hv : ws.length % 16 + v.length = 16) :
    hashOf (ws ++ v)
      = Sha256.consumeChunk (hashOf ws) (ws.drop (16 * (ws.length / 16)) ++ v) := by
  rw [hashOf_append, hv]
  refine Sha256.consume_one _ ?_
  rw [List.length_append, length_drop, hv]

theorem AtLoad.idle (hs : s.AtLoad ws) (hi : i.init = false) :
    (s.next i).engine.Idle (hashOf ws) :=
  idle_next (by rw [hs.padding.state]; exact fun h => by cases h) hi hs.engine

/-- Without a word the core waits for one. -/
theorem AtLoad.next_idle (hs : s.AtLoad ws) (hi : i.init = false) (hv : i.valid = false) :
    (s.next i).AtLoad ws :=
  ⟨hs.padding.next_idle hi hv, hs.idle hi⟩

/-- **A word that is not the last** is taken, now or when its block is
consumed. -/
theorem AtLoad.word (hs : s.AtLoad ws) (hi : i.init = false) (hv : i.valid = true)
    (hlast : i.last = false) :
    ∃ k s', k < 171 ∧ Waits i k s s' ∧ s'.cmdReady i = true
      ∧ (s'.next i).AtLoad (ws ++ [i.msg]) := by
  have hlen := length_drop ws
  by_cases hroom : ws.length % 16 + 1 < 16
  · -- there is room for more in the block
    have hcount : (ws ++ [i.msg]).length / 16 = ws.length / 16 := by
      rw [List.length_append, List.length_singleton]
      omega
    obtain ⟨hready, hload⟩ := hs.padding.next_word (i := s.padInput i) hi hv hlast
      (by rw [hlen]; exact hroom)
    refine ⟨0, s, by decide, rfl, hready, ?_, ?_⟩
    · rw [hcount, List.drop_append_of_le_length (by omega), List.length_append]
      exact hload
    · rw [hashOf_append_lt (v := [i.msg]) hroom]
      exact hs.idle hi
  · -- the word completes the block
    have hfull : ws.length % 16 = 15 := by omega
    have hcount : 16 * ((ws ++ [i.msg]).length / 16) = (ws ++ [i.msg]).length := by
      rw [List.length_append, List.length_singleton]
      omega
    obtain ⟨hready, hoff⟩ := hs.padding.next_full (i := s.padInput i) hi hv hlast
      (hlen.trans hfull)
    obtain ⟨s', hwaits, hpad, hans⟩ := waits_offering (s := s.next i) (i := i) hoff hi
      (hs.idle hi)
    rw [show s.padding.next (s.padInput i) = s'.padding from hpad.symm] at hoff
    obtain ⟨htaken, hnext⟩ := hoff.next_taken (i := s'.padInput i) hi hans.rsp
      (fun h => by cases h.1)
    refine ⟨1 + 66, s', by decide, (Waits.one hready).trans hwaits, htaken, ?_, ?_⟩
    · rw [hcount, List.drop_length, List.length_append]
      show (s'.padding.next (s'.padInput i)).Loading _ _
      rw [hnext]
      exact ⟨rfl, hoff.index, rfl, by decide, hoff.bits, hoff.fill⟩
    · rw [hashOf_append_block (v := [i.msg]) (by rw [hfull]; rfl)]
      exact hans.next hi

/-! ## The last word -/

/-- **The digest is there**: the last word is taken, with the hash of all
blocks. -/
structure Finished (i : HashInput) (h : Sha256.State) (s : Sha2Core) : Prop where
  ready : s.cmdReady i = true
  engine : s.engine.Answers h
  padding : (s.next i).padding.state = .sLoad

/-- A block that ends the message. -/
theorem waits_finished (hp : s.padding.Offering l 1 add false false bits)
    (hi : i.init = false) (he : s.engine.Idle h) :
    ∃ s', Waits i 66 s s' ∧ Finished i (Sha256.consumeChunk h l) s' := by
  obtain ⟨s', hwaits, hpad, hans⟩ := waits_offering hp hi he
  rw [← hpad] at hp
  obtain ⟨hready, hnext⟩ := hp.next_taken (i := s'.padInput i) hi hans.rsp (fun h => by cases h.1)
  refine ⟨s', hwaits, hready, hans, ?_⟩
  show (s'.padding.next (s'.padInput i)).state = _
  rw [hnext]

/-- **A block of padding behind the others.** -/
theorem waits_second (hp : s.padding.Padding [] add false bits) (hi : i.init = false)
    (he : s.engine.Idle h) :
    ∃ s', Waits i 81 s s'
      ∧ Finished i (Sha256.consumeChunk h (filler add 14 ++ HashPadding.lengthWords bits)) s' := by
  obtain ⟨s₁, hwaits₁, hidle₁, hoff₁⟩ := waits_length (m := 14) hp hi he rfl (fun h => by cases h)
  obtain ⟨s₂, hwaits₂, hfin⟩ := waits_finished hoff₁ hi hidle₁
  exact ⟨s₂, hwaits₁.trans hwaits₂, hfin⟩

/-- The number of words of padding behind the last word of a message, for as
many words as are in its block before it. -/
def fillCount (n : ℕ) (size : BitVec 2) : ℕ :=
  if n < 13 ∨ n = 13 ∧ size ≠ 3 then 13 - n else 29 - n

/-- The words behind those of a message that ends in `i`. -/
def lastWords (ws : List Word) (i : HashInput) : List Word :=
  HashPadding.endOf i.msg i.size :: filler (decide (i.size = 3)) (fillCount (ws.length % 16) i.size)
    ++ HashPadding.lengthWords (BitVec.ofNat 64 (32 * ws.length) + sizeBits i.size)

/-- They complete a block, and the block after it. -/
theorem hashOf_append_two {u v : List Word} (hu : ws.length % 16 + u.length = 16)
    (hv : v.length = 16) :
    hashOf (ws ++ (u ++ v)) = Sha256.consumeChunk (Sha256.consumeChunk (hashOf ws)
      (ws.drop (16 * (ws.length / 16)) ++ u)) v := by
  have hmod : (ws ++ u).length % 16 = 0 := by
    rw [List.length_append]
    omega
  have hall : 16 * ((ws ++ u).length / 16) = (ws ++ u).length := by omega
  rw [← List.append_assoc, hashOf_append_block (by rw [hmod, hv]), hashOf_append_block hu, hall,
    List.drop_length, List.nil_append]

/-- **A message that ends in a second block.** -/
theorem waits_two {u : List Word} (hu : ws.length % 16 + u.length = 16)
    (hp : s.padding.Offering (ws.drop (16 * (ws.length / 16)) ++ u) index add bigger fill bits)
    (hi : i.init = false) (he : s.engine.Idle (hashOf ws))
    (hmore : bigger = true ∧ fill = true ∨ index = 0 ∧ i.size = 3) :
    ∃ s', Waits i 148 s s' ∧ Finished i
      (hashOf (ws ++ (u ++ (filler add 14 ++ HashPadding.lengthWords bits)))) s' := by
  obtain ⟨s₁, hwaits₁, hpad₁, hidle₁⟩ := waits_more hp hi he hmore
  obtain ⟨s₂, hwaits₂, hfin⟩ := waits_second hpad₁ hi hidle₁
  have hv : (filler add 14 ++ HashPadding.lengthWords bits).length = 16 := by
    rw [List.length_append, length_filler]
    rfl
  rw [← hashOf_append_two hu hv] at hfin
  exact ⟨s₂, hwaits₁.trans hwaits₂, hfin⟩

/-- **A last word at the end of its block**, with or without room for its
mark. -/
theorem AtLoad.last_end (hs : s.AtLoad ws) (hi : i.init = false) (hv : i.valid = true)
    (hlast : i.last = true) (hend : ws.length % 16 = 15) :
    ∃ k s', k < 171 ∧ Waits i k s s' ∧ Finished i (hashOf (ws ++ lastWords ws i)) s' := by
  have hfull := (length_drop ws).trans hend
  have hcount : fillCount (ws.length % 16) i.size = 14 := by
    rw [hend]
    rfl
  rw [lastWords, hcount, List.cons_append, ← List.singleton_append]
  by_cases hsize : i.size = 3
  · obtain ⟨hready, hoff⟩ := hs.padding.next_last_full (i := s.padInput i) hi hv hlast hfull hsize
    obtain ⟨s', hwaits, hfin⟩ := waits_two (s := s.next i) (u := [i.msg]) (by rw [hend]; rfl) hoff
      hi (hs.idle hi) (Or.inr ⟨rfl, hsize⟩)
    refine ⟨1 + 148, s', by decide, (Waits.one hready).trans hwaits, ?_⟩
    rw [hsize, HashPadding.endOf_three, decide_eq_true rfl, ← hsize]
    exact hfin
  · obtain ⟨hready, hnext⟩ := hs.padding.next_last_end (i := s.padInput i) hi hv hlast hfull hsize
    have hpad : (s.next i).padding.state = .sPadding := by
      show (s.padding.next (s.padInput i)).state = _
      rw [hnext]
    obtain ⟨hready₁, hidle₁⟩ := idle_next_padding hpad hi (hs.idle hi)
    have hend₁ := HashPadding.next_padding_end (i := (s.next i).padInput i) hpad hi
      (by show (s.padding.next (s.padInput i)).indexWord = 0; rw [hnext])
      (by show (s.padding.next (s.padInput i)).addPaddingNextWord = false; rw [hnext])
      (by show (s.padding.next (s.padInput i)).isBiggerThan448 = true; rw [hnext])
    have hoff : ((s.next i).next i).padding.Offering (ws.drop (16 * (ws.length / 16))
        ++ [HashPadding.endOf i.msg i.size]) 15 false true true
        (BitVec.ofNat 64 (32 * ws.length) + sizeBits i.size) := by
      show ((s.next i).padding.next ((s.next i).padInput i)).Offering _ _ _ _ _ _
      rw [hend₁, show (s.next i).padding = _ from hnext]
      refine ⟨rfl, rfl, rfl, ?_, rfl, rfl, rfl, rfl⟩
      rw [List.length_append, hfull]
      rfl
    obtain ⟨s', hwaits, hfin⟩ := waits_two (by rw [hend]; rfl) hoff hi hidle₁ (Or.inl ⟨rfl, rfl⟩)
    refine ⟨1 + (1 + 148), s', by decide,
      (Waits.one hready).trans ((Waits.one hready₁).trans hwaits), ?_⟩
    rw [decide_eq_false hsize]
    exact hfin

/-- **A last word before the end of its block.** -/
theorem AtLoad.last_room (hs : s.AtLoad ws) (hi : i.init = false) (hv : i.valid = true)
    (hlast : i.last = true) (hroom : ws.length % 16 < 15) :
    ∃ k s', k < 171 ∧ Waits i k s s' ∧ Finished i (hashOf (ws ++ lastWords ws i)) s' := by
  have hlen := length_drop ws
  obtain ⟨hready, hpad⟩ := hs.padding.next_last_room (i := s.padInput i) hi hv hlast
    (by rw [hlen]; exact hroom)
  rw [hlen] at hpad
  have hone : (ws.drop (16 * (ws.length / 16)) ++ [HashPadding.endOf i.msg i.size]).length
      = ws.length % 16 + 1 := by
    rw [List.length_append, hlen]
    rfl
  by_cases hbig : 13 < ws.length % 16 ∨ ws.length % 16 = 13 ∧ i.size = 3
  · -- the length goes to a block of its own
    rw [show decide (13 < ws.length % 16 ∨ ws.length % 16 = 13 ∧ (s.padInput i).size = 3) = true
      from decide_eq_true hbig] at hpad
    obtain ⟨s₁, hwaits₁, hidle₁, hoff₁⟩ := waits_end (s := s.next i) (m := 14 - ws.length % 16)
      hpad hi (hs.idle hi) (hone ▸ by omega)
    rw [List.append_assoc] at hoff₁
    obtain ⟨s₂, hwaits₂, hfin⟩ := waits_two
      (by rw [List.length_append, length_filler, List.length_singleton]; omega) hoff₁ hi hidle₁
      (Or.inl ⟨rfl, rfl⟩)
    have hcount : fillCount (ws.length % 16) i.size = 14 - ws.length % 16 + 1 + 14 := by
      unfold fillCount
      rw [if_neg]
      · omega
      · rintro (hlt | ⟨heq, hsize⟩)
        · omega
        · exact hsize (hbig.resolve_left (by omega)).2
    refine ⟨1 + (14 - ws.length % 16 + 1 + 148), s₂, by omega,
      (Waits.one hready).trans (hwaits₁.trans hwaits₂), ?_⟩
    rw [lastWords, hcount, ← filler_append _ (Nat.succ_pos _), ← filler_false]
    simp only [List.append_assoc, List.cons_append] at hfin ⊢
    exact hfin
  · -- the length goes to the same block
    rw [show decide (13 < ws.length % 16 ∨ ws.length % 16 = 13 ∧ (s.padInput i).size = 3) = false
      from decide_eq_false hbig] at hpad
    obtain ⟨s₁, hwaits₁, hidle₁, hoff₁⟩ := waits_length (s := s.next i) (m := 13 - ws.length % 16)
      hpad hi (hs.idle hi) (hone ▸ by omega)
      (fun hzero => decide_eq_false fun hsize => hbig (Or.inr ⟨by omega, hsize⟩))
    obtain ⟨s₂, hwaits₂, hfin⟩ := waits_finished hoff₁ hi hidle₁
    have hcount : fillCount (ws.length % 16) i.size = 13 - ws.length % 16 := by
      unfold fillCount
      refine if_pos ?_
      by_cases heq : ws.length % 16 = 13
      · exact Or.inr ⟨heq, fun hsize => hbig (Or.inr ⟨heq, hsize⟩)⟩
      · exact Or.inl (by omega)
    have hlast : (lastWords ws i).length = 16 - ws.length % 16 := by
      rw [lastWords, List.length_append, List.length_cons, length_filler, hcount]
      show 13 - ws.length % 16 + 1 + 2 = _
      omega
    refine ⟨1 + (13 - ws.length % 16 + 1 + 66), s₂, by omega,
      (Waits.one hready).trans (hwaits₁.trans hwaits₂), ?_⟩
    rw [hashOf_append_block (by omega), lastWords, hcount]
    simp only [List.append_assoc, List.cons_append] at hfin ⊢
    exact hfin

/-- **The last word of a message** is taken when the digest is there. -/
theorem AtLoad.last (hs : s.AtLoad ws) (hi : i.init = false) (hv : i.valid = true)
    (hlast : i.last = true) :
    ∃ k s', k < 171 ∧ Waits i k s s' ∧ Finished i (hashOf (ws ++ lastWords ws i)) s' := by
  by_cases hend : ws.length % 16 = 15
  · exact hs.last_end hi hv hlast hend
  · have hlt := Nat.mod_lt ws.length (show 0 < 16 by decide)
    exact hs.last_room hi hv hlast (by omega)

/-! ## The bytes of the message -/

/-- **The bytes of a message** that ends in `i`. -/
def messageBytes (ws : List Word) (i : HashInput) : List (BitVec 8) :=
  ws.flatMap ByteOrder.beBytes ++ (ByteOrder.beBytes i.msg).take (i.size.toNat + 1)

/-- The bytes of a word, each with its own mask. -/
theorem and_or_append (a b c d : BitVec 8) (m k : BitVec 8 × BitVec 8 × BitVec 8 × BitVec 8) :
    (a ++ b ++ c ++ d) &&& (m.1 ++ m.2.1 ++ m.2.2.1 ++ m.2.2.2)
        ||| (k.1 ++ k.2.1 ++ k.2.2.1 ++ k.2.2.2)
      = (a &&& m.1 ||| k.1) ++ (b &&& m.2.1 ||| k.2.1) ++ (c &&& m.2.2.1 ||| k.2.2.1)
        ++ (d &&& m.2.2.2 ||| k.2.2.2) := by
  simp only [BitVec.and_append, BitVec.or_append]

/-- A byte of the message. -/
theorem keep_byte (a : BitVec 8) : a &&& 0xFF ||| 0 = a := by
  show a &&& BitVec.allOnes 8 ||| 0#8 = a
  rw [BitVec.and_allOnes, BitVec.or_zero]

/-- And one behind it. -/
theorem set_byte (a k : BitVec 8) : a &&& 0 ||| k = k := by
  show a &&& 0#8 ||| k = k
  rw [BitVec.and_zero, BitVec.zero_or]

/-- **The mark is where the message ends.** -/
theorem endWord_take (x : Word) {size : BitVec 2} (hsize : size ≠ 3) :
    Sha256.endWord ((ByteOrder.beBytes x).take (size.toNat + 1)) = HashPadding.endOf x size := by
  have hx := Sha256.append_beBytes x
  have hbytes := and_or_append (x.extractLsb' 24 8) (x.extractLsb' 16 8) (x.extractLsb' 8 8)
    (x.extractLsb' 0 8)
  rw [hx] at hbytes
  match size, hsize with
  | 0, _ =>
    refine Eq.trans ?_ (hbytes (0xFF, 0, 0, 0) (0, 0x80, 0, 0)).symm
    rw [keep_byte, set_byte, set_byte, set_byte]
    rfl
  | 1, _ =>
    refine Eq.trans ?_ (hbytes (0xFF, 0xFF, 0, 0) (0, 0, 0x80, 0)).symm
    rw [keep_byte, keep_byte, set_byte, set_byte]
    rfl
  | 2, _ =>
    refine Eq.trans ?_ (hbytes (0xFF, 0xFF, 0xFF, 0) (0, 0, 0, 0x80)).symm
    rw [keep_byte, keep_byte, keep_byte, set_byte]
    rfl
  | 3, hsize => exact absurd rfl hsize

/-- **The words behind a message are its padding.** -/
theorem words_pad_messageBytes (ws : List Word) (i : HashInput) :
    Sha256.words (Sha256.pad (messageBytes ws i)) = ws ++ lastWords ws i := by
  have hlt := Nat.mod_lt ws.length (show 0 < 16 by decide)
  by_cases hsize : i.size = 3
  · have hbytes : messageBytes ws i = (ws ++ [i.msg]).flatMap ByteOrder.beBytes ++ [] := by
      rw [messageBytes, hsize, List.flatMap_append, List.flatMap_singleton, List.append_nil]
      rfl
    have hcount : fillCount (ws.length % 16) i.size = Sha256.zeros (ws.length + 1) + 1 := by
      unfold fillCount Sha256.zeros
      by_cases hroom : ws.length % 16 < 13
      · rw [if_pos (Or.inl hroom)]
        omega
      · rw [if_neg (by rintro (h | h); exacts [hroom h, h.2 hsize])]
        omega
    have hbits : BitVec.ofNat 64 (8 * (4 * (ws.length + 1) + 0))
        = BitVec.ofNat 64 (32 * ws.length) + sizeBits i.size := by
      rw [hsize, show 8 * (4 * (ws.length + 1) + 0) = 32 * ws.length + 32 by omega,
        BitVec.ofNat_add]
      rfl
    rw [hbytes, Sha256.words_pad _ (by decide), lastWords, hcount, hsize, HashPadding.endOf_three,
      decide_eq_true rfl, ← hsize, ← hbits, List.length_append, List.append_assoc]
    rfl
  · have hsz : i.size.toNat < 3 := by
      have hne : i.size.toNat ≠ 3 := fun h => hsize (BitVec.eq_of_toNat_eq h)
      have hlt := i.size.isLt
      omega
    have hlen : ((ByteOrder.beBytes i.msg).take (i.size.toNat + 1)).length
        = i.size.toNat + 1 := by
      rw [List.length_take]
      show min (i.size.toNat + 1) 4 = _
      omega
    have hcount : fillCount (ws.length % 16) i.size = Sha256.zeros ws.length := by
      unfold fillCount Sha256.zeros
      by_cases hroom : ws.length % 16 < 13 ∨ ws.length % 16 = 13 ∧ i.size ≠ 3
      · rw [if_pos hroom]
        have hle : ws.length % 16 ≤ 13 := by
          obtain h | h := hroom
          · omega
          · exact Nat.le_of_eq h.1
        omega
      · rw [if_neg hroom]
        have hgt : 13 < ws.length % 16 := by
          by_contra hle
          exact hroom ((Nat.lt_or_eq_of_le (Nat.le_of_not_lt hle)).imp id (fun h => ⟨h, hsize⟩))
        omega
    have hbits : BitVec.ofNat 64 (8 * (4 * ws.length + (i.size.toNat + 1)))
        = BitVec.ofNat 64 (32 * ws.length) + sizeBits i.size := by
      have hsum : sizeBits i.size = BitVec.ofNat 64 (8 * (i.size.toNat + 1)) := by
        match i.size with
        | 0 => rfl
        | 1 => rfl
        | 2 => rfl
        | 3 => rfl
      rw [hsum, ← BitVec.ofNat_add]
      congr 1
      omega
    rw [messageBytes, Sha256.words_pad _ (by rw [hlen]; omega), endWord_take _ hsize, hlen, hbits,
      lastWords, hcount, decide_eq_false hsize, filler_false]
    rfl

/-- **What the core has when it has taken a last word** is the SHA-256 of the
message. -/
theorem Finished.digest_eq (hs : Finished i (hashOf (ws ++ lastWords ws i)) s) :
    s.digest = Sha256.sha256 (messageBytes ws i) := by
  rw [digest, hs.engine.hash, ← words_pad_messageBytes]
  rfl

/-! ## Between two messages -/

/-- **Nothing is being hashed**, and the hash of what was is there. -/
structure Resting (h : Sha256.State) (s : Sha2Core) : Prop where
  padding : s.padding.state = .sLoad
  engine : s.engine.Idle h

theorem AtLoad.resting (hs : s.AtLoad ws) : s.Resting (hashOf ws) :=
  ⟨hs.padding.state, hs.engine⟩

/-- A core that is told nothing rests. -/
theorem Resting.next_idle (hs : s.Resting h) (hi : i.init = false) (hv : i.valid = false) :
    (s.next i).Resting h := by
  have ha : s.padding.active (s.padInput i)
      = ({ s.padding with
        addPaddingNextWord := true, isBiggerThan448 := false, fillNewBlock := false },
        .sLoad) := by
    rw [HashPadding.active, hs.padding]
    exact if_neg (by rw [show (s.padInput i).valid = false from hv]; exact Bool.false_ne_true)
  refine ⟨?_, idle_next (by rw [hs.padding]; exact fun h => by cases h) hi hs.engine⟩
  show (s.padding.next (s.padInput i)).state = _
  rw [HashPadding.next_eq hi ha (fun h => by cases h)]

/-- **A core that is told to start again waits for a message.** -/
theorem Resting.next_init (hs : s.Resting h) (hi : i.init = true) (hv : i.valid = false) :
    (s.next i).AtLoad [] := by
  have ha : s.padding.active (s.padInput i)
      = ({ s.padding with
        addPaddingNextWord := true, isBiggerThan448 := false, fillNewBlock := false },
        .sLoad) := by
    rw [HashPadding.active, hs.padding]
    exact if_neg (by rw [show (s.padInput i).valid = false from hv]; exact Bool.false_ne_true)
  have hpad : s.padding.next (s.padInput i)
      = { s.padding with
        addPaddingNextWord := true, isBiggerThan448 := false, fillNewBlock := false
        cntBit := 0, indexWord := 15, block := List.replicate 16 0, state := .sLoad } := by
    rw [HashPadding.next, ha]
    exact if_pos hi
  constructor
  · show (s.padding.next (s.padInput i)).Loading _ _
    rw [hpad]
    exact ⟨rfl, rfl, HashPadding.full_nil.symm, by decide, rfl, rfl⟩
  · have hvalid : (s.engineInput i).valid = false := by
      refine beq_eq_false_iff_ne.2 ?_
      rw [hs.padding]
      exact fun h => by cases h
    exact hs.engine.next_init hvalid hi

/-- After its answer the core rests. -/
theorem Finished.resting (hs : Finished i h s) (hi : i.init = false) : (s.next i).Resting h :=
  ⟨hs.padding, hs.engine.next hi⟩

end Sha2Core

/-! ## Any number of messages -/

/-- **The words taken so far** of the message that is being hashed, if there is
one. -/
def messageAt (s : Sha2Core) (env : ℕ → HashInput) : ℕ → Option (List Word)
  | 0 => none
  | n + 1 =>
    if (env n).init then some []
    else if (env n).valid && (sha2Core.stateAt s env n).cmdReady (env n) then
      if (env n).last then none else (messageAt s env n).map (· ++ [(env n).msg])
    else messageAt s env n

/-- **What a client owes.** It starts a message by itself, hands over words only
after that and up to the last, and holds each until it is taken. -/
structure Client (s : Sha2Core) (env : ℕ → HashInput) : Prop where
  alone : ∀ n, (env n).init = true → (env n).valid = false
  opened : ∀ n, (env n).valid = true → (messageAt s env n).isSome = true
  held : ∀ n, (env n).valid = true → (sha2Core.stateAt s env n).cmdReady (env n) = false →
    env (n + 1) = env n

namespace Sha2Core

variable {s : Sha2Core} {env : ℕ → HashInput} {h : Sha256.State}

/-- **Between two words**: in a message, or between two of them. -/
def Boundary (s : Sha2Core) (env : ℕ → HashInput) (n : ℕ) : Prop :=
  match messageAt s env n with
  | none => ∃ h, (sha2Core.stateAt s env n).Resting h
  | some ws => (sha2Core.stateAt s env n).AtLoad ws

/-- The core has not taken the word of the cycle `m` before the cycle `n`. -/
def NotTaken (s : Sha2Core) (env : ℕ → HashInput) (m n : ℕ) : Prop :=
  ∀ j, m ≤ j → j < n → (sha2Core.stateAt s env j).cmdReady (env m) = false

variable {n m k : ℕ}

theorem NotTaken.mono (hno : NotTaken s env m n) (hle : k ≤ n) : NotTaken s env m k :=
  fun j hmj hjk => hno j hmj (Nat.lt_of_lt_of_le hjk hle)

theorem NotTaken.succ (hno : NotTaken s env m n)
    (hnow : (sha2Core.stateAt s env n).cmdReady (env m) = false) : NotTaken s env m (n + 1) := by
  intro j hmj hjn
  obtain hlt | rfl := Nat.lt_or_eq_of_le (Nat.le_of_lt_succ hjn)
  · exact hno j hmj hlt
  · exact hnow

theorem not_init (hc : Client s env) (hv : (env n).valid = true) : (env n).init = false := by
  refine Bool.eq_false_iff.2 fun hi => ?_
  rw [hc.alone n hi] at hv
  exact Bool.false_ne_true hv

/-- **A word is held** until it is taken, and its message is the same. -/
theorem held_of_notTaken (hc : Client s env) (hv : (env m).valid = true) (hle : m ≤ n)
    (hno : NotTaken s env m n) : env n = env m ∧ messageAt s env n = messageAt s env m := by
  induction n with
  | zero =>
    obtain rfl : m = 0 := Nat.le_zero.1 hle
    exact ⟨rfl, rfl⟩
  | succ n ih =>
    obtain hlt | rfl := Nat.lt_or_eq_of_le hle
    · obtain ⟨hsame, hmsg⟩ := ih (Nat.le_of_lt_succ hlt) (hno.mono (Nat.le_succ n))
      have hready := hno n (Nat.le_of_lt_succ hlt) (Nat.lt_succ_self n)
      have hvn : (env n).valid = true := by rw [hsame]; exact hv
      have hstays : messageAt s env (n + 1) = messageAt s env n := by
        rw [messageAt, if_neg (by rw [not_init hc hvn]; exact Bool.false_ne_true), if_neg]
        rw [hsame, hready, Bool.and_false]
        exact Bool.false_ne_true
      exact ⟨(hc.held n hvn (by rw [hsame]; exact hready)).trans hsame, hstays.trans hmsg⟩
    · exact ⟨rfl, rfl⟩

/-- A core that lets the client wait does so in the run. -/
theorem Waits.stateAt (hc : Client s env) (hv : (env m).valid = true) (hle : m ≤ n)
    (hno : NotTaken s env m n) {s' : Sha2Core}
    (hwaits : Waits (env m) k (sha2Core.stateAt s env n) s') :
    sha2Core.stateAt s env (n + k) = s' ∧ NotTaken s env m (n + k) := by
  induction k generalizing n with
  | zero => exact ⟨hwaits, hno⟩
  | succ k ih =>
    have hnow := (held_of_notTaken hc hv hle hno).1
    have hrest : Waits (env m) k (sha2Core.stateAt s env (n + 1)) s' := by
      rw [SyncMachine.stateAt_succ, hnow]
      exact hwaits.2
    rw [Nat.add_comm k, ← Nat.add_assoc]
    exact ih (Nat.le_succ_of_le hle) (hno.succ hwaits.1) hrest

/-- **What becomes of a word** that is offered between two words. -/
structure Taken (s : Sha2Core) (env : ℕ → HashInput) (m k : ℕ) (ws : List Word) : Prop where
  message : messageAt s env m = some ws
  lt : k < 171
  notTaken : NotTaken s env m (m + k)
  ready : (sha2Core.stateAt s env (m + k)).cmdReady (env m) = true
  last : (env m).last = true →
    Finished (env m) (hashOf (ws ++ lastWords ws (env m))) (sha2Core.stateAt s env (m + k))
  word : (env m).last = false →
    ((sha2Core.stateAt s env (m + k)).next (env m)).AtLoad (ws ++ [(env m).msg])

theorem Boundary.taken (hc : Client s env) (hb : Boundary s env m)
    (hv : (env m).valid = true) : ∃ k ws, Taken s env m k ws := by
  obtain ⟨ws, hws⟩ := Option.isSome_iff_exists.1 (hc.opened m hv)
  have hno : NotTaken s env m m := fun j hle hlt => absurd hlt (Nat.not_lt.2 hle)
  rw [Boundary, hws] at hb
  cases hlast : (env m).last with
  | true =>
    obtain ⟨k, s', hk, hwaits, hfin⟩ := hb.last (not_init hc hv) hv hlast
    obtain ⟨rfl, hnot⟩ := hwaits.stateAt hc hv (Nat.le_refl m) hno
    refine ⟨k, ws, hws, hk, hnot, hfin.ready, fun _ => hfin, fun hl => ?_⟩
    exact absurd (hlast.symm.trans hl) (by decide)
  | false =>
    obtain ⟨k, s', hk, hwaits, hready, hload⟩ := hb.word (not_init hc hv) hv hlast
    obtain ⟨rfl, hnot⟩ := hwaits.stateAt hc hv (Nat.le_refl m) hno
    refine ⟨k, ws, hws, hk, hnot, hready, fun hl => ?_, fun _ => hload⟩
    exact absurd (hlast.symm.trans hl) (by decide)

variable {ws : List Word}

/-- The cycle after the word is taken. -/
theorem Taken.succ (hc : Client s env) (hv : (env m).valid = true) (ht : Taken s env m k ws) :
    messageAt s env (m + k + 1)
        = (if (env m).last then none else some (ws ++ [(env m).msg]))
      ∧ sha2Core.stateAt s env (m + k + 1)
        = (sha2Core.stateAt s env (m + k)).next (env m) := by
  obtain ⟨hsame, hmsg⟩ := held_of_notTaken hc hv (Nat.le_add_right m k) ht.notTaken
  have htaken : ((env (m + k)).valid
      && (sha2Core.stateAt s env (m + k)).cmdReady (env (m + k))) = true := by
    rw [hsame, hv, ht.ready]
    rfl
  constructor
  · rw [messageAt, if_neg (by rw [hsame, not_init hc hv]; exact Bool.false_ne_true),
      if_pos htaken, hsame, hmsg, ht.message]
    rfl
  · rw [SyncMachine.stateAt_succ, hsame]
    rfl

/-- After the word is taken the core is between two words again. -/
theorem Taken.boundary (hc : Client s env) (hv : (env m).valid = true)
    (ht : Taken s env m k ws) : Boundary s env (m + k + 1) := by
  obtain ⟨hmsg, hstate⟩ := ht.succ hc hv
  rw [Boundary, hmsg, hstate]
  cases hlast : (env m).last with
  | true => exact ⟨_, (ht.last hlast).resting (not_init hc hv)⟩
  | false => exact ht.word hlast

/-- A cycle without a word leaves the core between two words. -/
theorem Boundary.next (hb : Boundary s env n) (hv : (env n).valid = false) :
    Boundary s env (n + 1) := by
  have hrest : ∃ h, (sha2Core.stateAt s env n).Resting h := by
    rw [Boundary] at hb
    split at hb
    · exact hb
    · exact ⟨_, hb.resting⟩
  rw [Boundary, messageAt, SyncMachine.stateAt_succ]
  cases hi : (env n).init with
  | true =>
    obtain ⟨h, hrest⟩ := hrest
    exact hrest.next_init hi hv
  | false =>
    rw [if_neg Bool.false_ne_true, if_neg (by rw [hv]; exact Bool.false_ne_true)]
    rw [Boundary] at hb
    split at hb
    · obtain ⟨h, hb⟩ := hb
      exact ⟨h, hb.next_idle hi hv⟩
    · exact hb.next_idle hi hv

/-- **In every cycle** the core is between two words, or at one that it has
been offered since it was. -/
theorem exists_boundary (hs : s.Resting h) (hc : Client s env) (n : ℕ) :
    ∃ m ≤ n, Boundary s env m ∧ NotTaken s env m n ∧ (m < n → (env m).valid = true) := by
  induction n with
  | zero =>
    exact ⟨0, Nat.le_refl 0, ⟨h, hs⟩, fun j _ hlt => absurd hlt (Nat.not_lt_zero j),
      fun hlt => absurd hlt (Nat.lt_irrefl 0)⟩
  | succ n ih =>
    obtain ⟨m, hle, hb, hno, hvalid⟩ := ih
    have hfresh : Boundary s env (n + 1) → ∃ m ≤ n + 1, Boundary s env m
        ∧ NotTaken s env m (n + 1) ∧ (m < n + 1 → (env m).valid = true) := fun hnew =>
      ⟨n + 1, Nat.le_refl _, hnew, fun j hge hlt => absurd hlt (Nat.not_lt.2 hge),
        fun hlt => absurd hlt (Nat.lt_irrefl _)⟩
    cases hv : (env m).valid with
    | false =>
      obtain hlt | rfl := Nat.lt_or_eq_of_le hle
      · exact absurd (hvalid hlt) (by rw [hv]; decide)
      · exact hfresh (hb.next hv)
    | true =>
      cases hready : (sha2Core.stateAt s env n).cmdReady (env m) with
      | false => exact ⟨m, Nat.le_succ_of_le hle, hb, hno.succ hready, fun _ => hv⟩
      | true =>
        -- it is taken now, and so at no other time
        obtain ⟨k, ws, ht⟩ := hb.taken hc hv
        have hnow : n = m + k := by
          refine Nat.le_antisymm (Nat.le_of_not_lt fun hlt => ?_) (Nat.le_of_not_lt fun hlt => ?_)
          · exact absurd ht.ready (by rw [hno (m + k) (Nat.le_add_right m k) hlt]; decide)
          · exact absurd hready (by rw [ht.notTaken n hle hlt]; decide)
        rw [hnow] at hfresh ⊢
        exact hfresh (ht.boundary hc hv)

/-- **A digest stays** until the core is told to start again. -/
theorem digest_of_resting (hc : Client s env) (hs : (sha2Core.stateAt s env n).Resting h)
    (hmsg : messageAt s env n = none) (hno : ∀ j, n ≤ j → j < n + k → (env j).init = false) :
    (sha2Core.stateAt s env (n + k)).digest = digestOf h := by
  suffices hstays : (sha2Core.stateAt s env (n + k)).Resting h ∧ messageAt s env (n + k) = none by
    rw [digest, hstays.1.engine.hash]
  induction k with
  | zero => exact ⟨hs, hmsg⟩
  | succ k ih =>
    obtain ⟨hrest, hnone⟩ := ih fun j hle hlt => hno j hle (by omega)
    have hi := hno (n + k) (Nat.le_add_right n k) (by omega)
    have hv : (env (n + k)).valid = false := by
      refine Bool.eq_false_iff.2 fun hv => ?_
      have hopen := hc.opened (n + k) hv
      rw [hnone] at hopen
      cases hopen
    rw [← Nat.add_assoc, messageAt, hi, hv]
    exact ⟨hrest.next_idle hi hv, hnone⟩

end Sha2Core

open Sha2Core

/-- **A word of a message**, its bytes and what the core makes of it: it is taken
in the cycle `m`, and if it is the last the digest is there, and stays until
the core is told to start again. -/
structure Hashed (s : Sha2Core) (env : ℕ → HashInput) (n m : ℕ) (ws : List Word) : Prop where
  message : messageAt s env n = some ws
  le : n ≤ m
  lt : m < n + 171
  waits : ∀ j, n ≤ j → j < m → (sha2Core.obsAt s env j).cmdReady = false
  taken : (sha2Core.obsAt s env m).cmdReady = true
  answers : (sha2Core.obsAt s env m).rspValid = (env n).last
  digest : (env n).last = true → ∀ k, m ≤ k → (∀ j, m < j → j < k → (env j).init = false) →
    (sha2Core.obsAt s env k).digest = Sha256.sha256 (messageBytes ws (env n))

/-- **The core computes SHA-256**, whatever the pace of its client: each word is
taken within 171 cycles, and the digest that comes with the last one is that of
the bytes of the message. -/
theorem sha2Core_hashes {s : Sha2Core} {h : Sha256.State} (hs : s.Resting h)
    {env : ℕ → HashInput} (hc : Client s env) {n : ℕ} (hv : (env n).valid = true) :
    ∃ m ws, Hashed s env n m ws := by
  obtain ⟨n₀, hle, hb, hno, hoffered⟩ := exists_boundary hs hc n
  have hv₀ : (env n₀).valid = true := by
    obtain hlt | rfl := Nat.lt_or_eq_of_le hle
    · exact hoffered hlt
    · exact hv
  obtain ⟨hsame, hmsg⟩ := held_of_notTaken hc hv₀ hle hno
  obtain ⟨k, ws, ht⟩ := hb.taken hc hv₀
  obtain ⟨hsame', -⟩ := held_of_notTaken hc hv₀ (Nat.le_add_right n₀ k) ht.notTaken
  -- it has not been taken before
  have hge : n ≤ n₀ + k := by
    refine Nat.le_of_not_lt fun hlt => ?_
    exact absurd ht.ready (by rw [hno (n₀ + k) (Nat.le_add_right n₀ k) hlt]; decide)
  have hready : (sha2Core.obsAt s env (n₀ + k)).cmdReady = true := by
    show (sha2Core.stateAt s env (n₀ + k)).cmdReady (env (n₀ + k)) = true
    rw [hsame']
    exact ht.ready
  refine ⟨n₀ + k, ws, hmsg.trans ht.message, hge, by have := ht.lt; omega, fun j hj hjk => ?_,
    hready, ?_, fun hlast j hj hstart => ?_⟩
  · have hnot := ht.notTaken.mono (Nat.le_of_lt hjk)
    show (sha2Core.stateAt s env j).cmdReady (env j) = false
    rw [(held_of_notTaken hc hv₀ (Nat.le_trans hle hj) hnot).1]
    exact ht.notTaken j (Nat.le_trans hle hj) hjk
  · show (sha2Core.stateAt s env (n₀ + k)).rspValid (env (n₀ + k)) = _
    rw [hsame', rspValid, ht.ready, Bool.and_true, hsame]
    cases hl : (env n₀).last with
    | true =>
      rw [(ht.last hl).engine.rsp]
      rfl
    | false => exact Bool.and_false _
  · have hl : (env n₀).last = true := by rw [← hsame]; exact hlast
    have hfin := ht.last hl
    rw [hsame, ← hfin.digest_eq]
    obtain rfl | hgt := Nat.eq_or_lt_of_le hj
    · rfl
    · -- afterwards the core rests
      obtain ⟨hnone, hnext⟩ := ht.succ hc hv₀
      rw [if_pos hl] at hnone
      have hrest := hfin.resting (not_init hc hv₀)
      rw [← hnext] at hrest
      obtain ⟨d, rfl⟩ := Nat.exists_eq_add_of_le hgt
      have hstays := digest_of_resting (k := d) hc hrest hnone
        (fun i hi hid => hstart i hi hid)
      show (sha2Core.stateAt s env (n₀ + k + 1 + d)).digest = _
      rw [hstays, Sha2Core.digest, hfin.engine.hash]

/-- A core that has hashed nothing yet. -/
def freshCore : Sha2Core :=
  ⟨⟨.sLoad, 0, List.replicate 16 0, 0, false, false, false⟩,
    ⟨Sha256.init, List.replicate 64 0, 0, false, false, false, Sha256.init, false⟩⟩

theorem freshCore_resting : freshCore.Resting Sha256.init :=
  ⟨rfl, ⟨rfl, rfl, rfl, rfl, rfl, rfl⟩⟩

/-- The three bytes of a word, which is the first and the last of its message. -/
def abcWord : HashInput := ⟨false, true, 0x61626300, true, 2⟩

/-- A client that starts a message and offers the word for so many cycles. -/
def abcClient (k n : ℕ) : HashInput :=
  if n = 0 then ⟨true, false, 0, false, 0⟩
  else if n ≤ k + 1 then abcWord
  else ⟨false, false, 0, false, 0⟩

namespace Sha2Core

theorem abcClient_word {k n : ℕ} (hn : n ≠ 0) (hle : n ≤ k + 1) : abcClient k n = abcWord := by
  rw [abcClient, if_neg hn, if_pos hle]

/-- There is a client that does what it owes. -/
theorem exists_abcClient : ∃ k, Client freshCore (abcClient k) := by
  have hload : (freshCore.next (abcClient 0 0)).AtLoad [] := freshCore_resting.next_init rfl rfl
  obtain ⟨k, s', -, hwaits, hfin⟩ := hload.last (i := abcWord) rfl rfl rfl
  refine ⟨k, ?_⟩
  -- the core lets the client wait for `k` cycles
  have hrun : ∀ j ≤ k, ∃ m, m + j = k
      ∧ Waits abcWord m (sha2Core.stateAt freshCore (abcClient k) (j + 1)) s'
      ∧ messageAt freshCore (abcClient k) (j + 1) = some [] := by
    intro j
    induction j with
    | zero => exact fun _ => ⟨k, rfl, hwaits, rfl⟩
    | succ j ih =>
      intro hj
      obtain ⟨m, hm, hw, hmsg⟩ := ih (Nat.le_of_succ_le hj)
      obtain ⟨m, rfl⟩ : ∃ m', m = m' + 1 := ⟨m - 1, by omega⟩
      have hword := abcClient_word (k := k) (Nat.succ_ne_zero j) (by omega)
      refine ⟨m, by omega, ?_, ?_⟩
      · rw [SyncMachine.stateAt_succ, hword]
        exact hw.2
      · rw [messageAt, hword, hw.1, hmsg]
        rfl
  have hat : ∀ n, (abcClient k n).valid = true → ∃ j ≤ k, n = j + 1 := by
    intro n hv
    cases n with
    | zero => cases hv
    | succ n =>
      refine ⟨n, Nat.le_of_not_lt fun hlt => ?_, rfl⟩
      rw [abcClient, if_neg (Nat.succ_ne_zero n), if_neg (by omega)] at hv
      cases hv
  refine ⟨fun n hi => ?_, fun n hv => ?_, fun n hv hready => ?_⟩
  · cases hv : (abcClient k n).valid with
    | false => rfl
    | true =>
      obtain ⟨j, hj, rfl⟩ := hat n hv
      rw [abcClient_word (Nat.succ_ne_zero j) (by omega)] at hi
      cases hi
  · obtain ⟨j, hj, rfl⟩ := hat n hv
    obtain ⟨-, -, -, hmsg⟩ := hrun j hj
    rw [hmsg]
    rfl
  · obtain ⟨j, hj, rfl⟩ := hat n hv
    obtain ⟨m, hm, hw, -⟩ := hrun j hj
    have hword := abcClient_word (k := k) (Nat.succ_ne_zero j) (by omega)
    rw [hword] at hready ⊢
    refine abcClient_word (Nat.succ_ne_zero _) ?_
    -- at the end of its wait the core is ready
    by_contra hend
    obtain rfl : m = 0 := by omega
    rw [show sha2Core.stateAt freshCore (abcClient k) (j + 1) = s' from hw, hfin.ready] at hready
    cases hready

end Sha2Core

theorem sha2Core_hashes_abc :
    ∃ env, env 1 = abcWord ∧ ∃ m ws, Hashed freshCore env 1 m ws := by
  obtain ⟨k, hc⟩ := exists_abcClient
  have hword : abcClient k 1 = abcWord := abcClient_word Nat.one_ne_zero (by omega)
  exact ⟨abcClient k, hword, sha2Core_hashes freshCore_resting hc (by rw [hword]; rfl)⟩

/-! ## A message that is given up -/

/-- **A core that is told to start again in the middle of a block gives no digest
any more**, whatever it is told from then on: its engine has forgotten the block
and is busy with it all the same. -/
theorem sha2Core_stuck {s : Sha2Core} (hs : s.engine.Rounds) (env : ℕ → HashInput)
    (hinit : (env 0).init = true) (n : ℕ) :
    (sha2Core.obsAt s env (n + 1)).rspValid = false := by
  have hstuck : ∀ n, (sha2Core.stateAt s env (n + 1)).engine.Stuck
      ∧ (sha2Core.stateAt s env (n + 1)).engine.rspValid = false := by
    intro n
    induction n with
    | zero => exact ⟨hs.stuck hinit, hs.final⟩
    | succ n ih => exact ih.1.next
  show (sha2Core.stateAt s env (n + 1)).rspValid (env (n + 1)) = false
  rw [Sha2Core.rspValid, (hstuck n).2, Bool.false_and, Bool.false_and]

/-- A message of zeros, from its start to the first rounds of its first block. -/
def givenUp : List HashInput :=
  ⟨true, false, 0, false, 0⟩ :: List.replicate 20 ⟨false, true, 0, false, 3⟩

theorem givenUp_rounds : (sha2Core.run freshCore givenUp).engine.Rounds :=
  ⟨by decide +kernel, by decide +kernel, by decide +kernel, by decide +kernel⟩

/-- A message is given up, and the next one is never hashed. -/
theorem sha2Core_stuck_givenUp :
    (sha2Core.run freshCore givenUp).engine.Rounds
      ∧ ∀ n, (sha2Core.obsAt (sha2Core.run freshCore givenUp)
        (fun n => if n = 0 then ⟨true, false, 0, false, 0⟩ else abcWord) (n + 1)).rspValid
          = false :=
  ⟨givenUp_rounds, fun n => sha2Core_stuck givenUp_rounds _ rfl n⟩

end SpinalCrypto
