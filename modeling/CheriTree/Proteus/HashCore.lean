import CheriTree.Proteus.ExclusiveOwnership
import CheriTree.SpinalCrypto.Sha2Core

/-!
# The hash core in its place

The machine of `EInitData` has a hash engine that takes words at its own pace,
and a function for what it makes of them. The engine that it really has is the
SHA-2 core, told to start in `HASH_START` and handed a word in `HASH_WORD`; the
digest that goes to the entry is what is on its output in `STORE_HASH`.

The machine with the core in its place does what the machine with SHA-256 for
its function does, in every run (`hashed_refines`): so whatever is known of the
one is known of the other.
-/

namespace Proteus

open ByteOrder SpinalCrypto

/-- **SHA-256 of words**, whose highest byte comes first. -/
def sha2Digest (words : List Word) : Digest := Sha256.sha256 (words.flatMap beBytes)

/-- **An `EInitData` and the hash core.** -/
structure HashedInit (w : ℕ) where
  init : InitData w
  core : Sha2Core

namespace HashedInit

variable {w : ℕ} (cfg : MemConfig)

/-- What `hashFsm` tells the core. -/
def hashIo (s : InitData w) : HashInput where
  init := s.fsm == .HASH_START
  valid := s.fsm == .HASH_WORD
  msg := endiannessSwap s.currentWord
  last := s.currentAddress == s.cs1.top
  size := 3

/-- The inputs of a cycle, with the answer of the core. -/
def answered (s : HashedInit w) (i : InitDataInput) : InitDataInput :=
  { i with hash := s.core.cmdReady (hashIo s.init.drain) }

/-- A cycle of both. -/
def next (s : HashedInit w) (i : InitDataInput) : HashedInit w where
  init := s.init.drain.act cfg (fun _ => s.core.digest) (s.answered i) s.init.wb.isNone
  core := s.core.next (hashIo s.init.drain)

end HashedInit

/-- **The machine with the core in its place.** -/
def hashedInit {w : ℕ} (cfg : MemConfig) : SyncMachine (HashedInit w) InitDataInput Unit where
  step s i := (s.next cfg i, ())

namespace HashedInit

variable {w : ℕ} {cfg : MemConfig}

/-- The core has a word to take: it lets the client wait, and then takes it. -/
def Takes (ws : List Word) (i : HashInput) (c : Sha2Core) : Prop :=
  ∃ k c', k < 171 ∧ Sha2Core.Waits i k c c' ∧ c'.cmdReady i = true
    ∧ (if i.last then Sha2Core.Finished i (Sha2Core.hashOf (ws ++ Sha2Core.lastWords ws i)) c'
      else (c'.next i).AtLoad (ws ++ [i.msg]))

/-- **Where the core is** when the machine is in one of its states. -/
def CoreAt (s : InitData w) (c : Sha2Core) : Prop :=
  match s.fsm with
  | .LOAD_WORD => c.AtLoad s.hashed
  | .HASH_WORD => Takes s.hashed (hashIo s) c
  | .STORE_HASH => ∃ h, c.Resting h ∧ c.digest = sha2Digest s.hashed
  | _ => ∃ h, c.Resting h

/-- Nothing is in write-back once the machine has started. -/
def Drained (s : InitData w) : Prop := s.fsm ≠ .IDLE → s.wb = none

/-- **The machine and the core go together.** -/
structure Together (s : HashedInit w) : Prop where
  core : CoreAt s.init s.core
  drained : Drained s.init

variable {s : InitData w} {c : Sha2Core} {i : HashInput} {ws : List Word}

/-- A word that the core has loaded is one it takes. -/
theorem takes_of_atLoad (hc : c.AtLoad ws) (hi : i.init = false) (hv : i.valid = true) :
    Takes ws i c := by
  cases hlast : i.last with
  | true =>
    obtain ⟨k, c', hk, hwaits, hfin⟩ := hc.last hi hv hlast
    exact ⟨k, c', hk, hwaits, hfin.ready, by rw [hlast]; exact hfin⟩
  | false =>
    obtain ⟨k, c', hk, hwaits, hready, hload⟩ := hc.word hi hv hlast
    exact ⟨k, c', hk, hwaits, hready, by rw [hlast]; exact hload⟩

/-- While it is not ready it goes on. -/
theorem Takes.next (ht : Takes ws i c) (hready : c.cmdReady i = false) :
    Takes ws i (c.next i) := by
  obtain ⟨k, c', hk, hwaits, hend, hthen⟩ := ht
  cases k with
  | zero =>
    obtain rfl : c = c' := hwaits
    rw [hready] at hend
    cases hend
  | succ k => exact ⟨k, c', Nat.lt_of_succ_lt hk, hwaits.2, hend, hthen⟩

/-- When it is ready the word is taken. -/
theorem Takes.taken (ht : Takes ws i c) (hready : c.cmdReady i = true) :
    if i.last then Sha2Core.Finished i (Sha2Core.hashOf (ws ++ Sha2Core.lastWords ws i)) c
    else (c.next i).AtLoad (ws ++ [i.msg]) := by
  obtain ⟨k, c', -, hwaits, -, hthen⟩ := ht
  cases k with
  | zero =>
    obtain rfl : c = c' := hwaits
    exact hthen
  | succ k =>
    rw [hwaits.1] at hready
    cases hready

/-- The bytes of a message of whole words. -/
theorem messageBytes_word (ws : List Word) (hsize : i.size = 3) :
    Sha2Core.messageBytes ws i = (ws ++ [i.msg]).flatMap beBytes := by
  rw [Sha2Core.messageBytes, hsize, List.flatMap_append, List.flatMap_singleton]
  rfl

/-! ## A cycle of both -/

/-- The states in which the core is let alone, or told to start again. -/
def Quiet (fsm : InitDataState) : Prop :=
  fsm ≠ .LOAD_WORD ∧ fsm ≠ .HASH_WORD ∧ fsm ≠ .STORE_HASH

instance (fsm : InitDataState) : Decidable (Quiet fsm) := inferInstanceAs (Decidable (_ ∧ _))

/-- The machine is in such a state, with nothing in write-back. -/
def Outside (s : InitData w) : Prop := Drained s ∧ Quiet s.fsm

theorem outside_of_wb (hwb : s.wb = none) (hq : Quiet s.fsm) : Outside s := ⟨fun _ => hwb, hq⟩

theorem outside_fail (s : InitData w) : Outside s.fail :=
  ⟨fun h => absurd rfl h, (by decide : Quiet .IDLE)⟩

theorem outside_check {cap : Capability} {t : InitData w} (h : Outside t) :
    Outside (s.check cap t) := by
  unfold InitData.check
  split
  · exact outside_fail s
  · exact h

/-- **The core is told to start again before anything is hashed**: of the other
states none is followed by one in which it has a word. -/
theorem outside_act (digest : List Word → Digest) (hwb : s.wb = none) (hq : Quiet s.fsm)
    (hne : s.fsm ≠ .HASH_START) (j : InitDataInput) (flushed : Bool) :
    Outside (s.act cfg digest j flushed) := by
  have hkeep : Outside s := outside_of_wb hwb hq
  have hto : ∀ fsm, Quiet fsm → Outside { s with fsm := fsm } := fun _ h => outside_of_wb hwb h
  unfold InitData.act
  cases hfsm : s.fsm with
  | IDLE =>
    simp only
    split
    · refine outside_of_wb hwb ?_
      cases j.isStalled
      · exact (by decide : Quiet .CHECK_CS1_VALID)
      · exact (by decide : Quiet .IDLE)
    · exact hkeep
  | CHECK_CS1_VALID =>
    simp only [InitData.checkCs1Valid]
    split
    · exact outside_fail s
    · split
      · split
        · exact outside_of_wb hwb (by decide : Quiet .START)
        · exact outside_fail s
      · exact hkeep
  | START => exact hto .CLAIM_PIPELINE (by decide)
  | CLAIM_PIPELINE =>
    simp only
    split
    · exact outside_of_wb hwb (by decide : Quiet .CHECK_REGS)
    · exact hkeep
  | CHECK_REGS =>
    have hnext : Outside (if s.currentReg = 31 then { s with fsm := .CHECK_DDC }
        else { s with currentReg := s.currentReg + 1 }) := by
      split
      · exact hto .CHECK_DDC (by decide)
      · exact outside_of_wb hwb hq
    simp only [InitData.checkRegs]
    split
    · exact outside_check hnext
    · exact hnext
  | CHECK_DDC => exact outside_check (hto .CHECK_PCC (by decide))
  | CHECK_PCC => exact outside_check (outside_of_wb hwb (by decide : Quiet .CHECK_SCRS))
  | CHECK_SCRS =>
    simp only [InitData.checkScrs]
    split
    · refine outside_check ?_
      split
      · exact hto .GET_ADDRESS (by decide)
      · exact outside_of_wb hwb hq
    · exact hkeep
  | GET_ADDRESS =>
    simp only [InitData.getAddress]
    split
    · split
      · exact outside_of_wb hwb (by decide : Quiet .GET_CAP)
      · exact hto .HASH_START (by decide)
    · exact hkeep
  | GET_CAP =>
    simp only
    split
    · exact outside_check (hto .GET_ADDRESS (by decide))
    · exact hkeep
  | HASH_START => exact absurd hfsm hne
  | LOAD_WORD => exact absurd hfsm hq.1
  | HASH_WORD => exact absurd hfsm hq.2.1
  | STORE_HASH => exact absurd hfsm hq.2.2
  | STORE_SEAL =>
    simp only [InitData.storeSeal]
    split
    · exact ⟨fun h => absurd rfl h, (by decide : Quiet .IDLE)⟩
    · exact hkeep

theorem coreAt_of_quiet {h : Sha256.State} (hq : Quiet s.fsm) (hc : c.Resting h) : CoreAt s c := by
  unfold CoreAt
  split
  · rename_i hf
    exact absurd hf hq.1
  · rename_i hf
    exact absurd hf hq.2.1
  · rename_i hf
    exact absurd hf hq.2.2
  · exact ⟨h, hc⟩

theorem resting_of_quiet (hq : Quiet s.fsm) (hc : CoreAt s c) : ∃ h, c.Resting h := by
  unfold CoreAt at hc
  split at hc
  · rename_i hf
    exact absurd hf hq.1
  · rename_i hf
    exact absurd hf hq.2.1
  · rename_i hf
    exact absurd hf hq.2.2
  · exact hc

theorem together_of_outside {h : Sha256.State} (hs : Outside s) (hc : c.Resting h) :
    Together ⟨s, c⟩ :=
  ⟨coreAt_of_quiet hs.2 hc, hs.1⟩

theorem hashIo_init_false (hf : s.fsm ≠ .HASH_START) : (hashIo s).init = false :=
  beq_eq_false_iff_ne.2 hf

theorem hashIo_valid_false (hf : s.fsm ≠ .HASH_WORD) : (hashIo s).valid = false :=
  beq_eq_false_iff_ne.2 hf

/-- A word is loaded. -/
theorem together_loadWord (hf : s.fsm = .LOAD_WORD) (hwb : s.wb = none) (hc : c.AtLoad s.hashed)
    (j : InitDataInput) : Together ⟨s.loadWord cfg j, c.next (hashIo s)⟩ := by
  have hload := hc.next_idle (i := hashIo s) (hashIo_init_false (by rw [hf]; decide))
    (hashIo_valid_false (by rw [hf]; decide))
  unfold InitData.loadWord
  split
  · exact ⟨takes_of_atLoad hload rfl rfl, fun _ => hwb⟩
  · refine ⟨?_, fun _ => hwb⟩
    simp only [CoreAt, hf]
    exact hload

/-- What is in the core when the last word of whole words is taken. -/
theorem resting_of_finished (hsize : i.size = 3) (hi : i.init = false)
    (hfin : Sha2Core.Finished i (Sha2Core.hashOf (ws ++ Sha2Core.lastWords ws i)) c) :
    ∃ h, (c.next i).Resting h ∧ (c.next i).digest = sha2Digest (ws ++ [i.msg]) := by
  have hrest := hfin.resting hi
  refine ⟨_, hrest, ?_⟩
  have hdigest := hfin.digest_eq
  rw [messageBytes_word ws hsize] at hdigest
  rw [sha2Digest, ← hdigest, Sha2Core.digest, Sha2Core.digest, hrest.engine.hash, hfin.engine.hash]

/-- A word is taken, or waited with. -/
theorem together_hashWord (hf : s.fsm = .HASH_WORD) (hwb : s.wb = none)
    (ht : Takes s.hashed (hashIo s) c) (j : InitDataInput) :
    Together ⟨s.hashWord { j with hash := c.cmdReady (hashIo s) }, c.next (hashIo s)⟩ := by
  have hinit : (hashIo s).init = false := hashIo_init_false (by rw [hf]; decide)
  unfold InitData.hashWord
  cases hready : c.cmdReady (hashIo s) with
  | false =>
    refine ⟨?_, fun _ => hwb⟩
    simp only [Bool.false_eq_true, if_false, CoreAt, hf]
    exact ht.next hready
  | true =>
    have htaken := ht.taken hready
    by_cases hlast : s.currentAddress = s.cs1.top
    · rw [show (hashIo s).last = true from beq_iff_eq.2 hlast, if_pos rfl] at htaken
      rw [if_pos rfl, if_pos hlast]
      exact ⟨resting_of_finished rfl hinit htaken, fun _ => hwb⟩
    · rw [show (hashIo s).last = false from beq_eq_false_iff_ne.2 hlast,
        if_neg Bool.false_ne_true] at htaken
      rw [if_pos rfl, if_neg hlast]
      exact ⟨htaken, fun _ => hwb⟩

/-- The digest goes to the table, or waits for it. -/
theorem together_storeHash {h : Sha256.State} (digest : List Word → Digest)
    (hf : s.fsm = .STORE_HASH) (hwb : s.wb = none) (hrest : c.Resting h)
    (hdigest : c.digest = sha2Digest s.hashed) (j : InitDataInput) :
    Together ⟨s.storeHash digest j, c.next (hashIo s)⟩ := by
  have hnext := hrest.next_idle (i := hashIo s) (hashIo_init_false (by rw [hf]; decide))
    (hashIo_valid_false (by rw [hf]; decide))
  unfold InitData.storeHash
  simp only
  split
  · split
    · exact together_of_outside (outside_of_wb hwb (by decide : Quiet .STORE_SEAL)) hnext
    · exact together_of_outside (outside_fail _) hnext
  · refine ⟨?_, fun _ => hwb⟩
    simp only [CoreAt, hf]
    refine ⟨h, hnext, ?_⟩
    rw [← hdigest, Sha2Core.digest, Sha2Core.digest, hnext.engine.hash, hrest.engine.hash]

/-- **A cycle keeps the two together.** -/
theorem Together.next {s : HashedInit w} (ht : Together s) (j : InitDataInput) :
    Together (s.next cfg j) := by
  obtain ⟨s, c⟩ := s
  obtain ⟨hcore, hdrained⟩ := ht
  unfold HashedInit.next answered
  simp only at hcore hdrained ⊢
  by_cases hq : Quiet s.fsm
  · obtain ⟨h, hrest⟩ := resting_of_quiet hq hcore
    rw [← s.drain_fsm] at hq
    have hvalid := hashIo_valid_false hq.2.1
    by_cases hstart : s.drain.fsm = .HASH_START
    · rw [InitData.act, hstart]
      exact ⟨hrest.next_init (beq_iff_eq.2 hstart) hvalid, fun _ => s.drain_wb⟩
    · exact together_of_outside (outside_act _ s.drain_wb hq hstart _ _)
        (hrest.next_idle (hashIo_init_false hstart) hvalid)
  · have hwb : s.wb = none := hdrained fun hf => hq (by rw [hf]; decide)
    rw [InitData.drain_eq_self hwb, InitData.act]
    cases hf : s.fsm with
    | LOAD_WORD =>
      simp only [CoreAt, hf] at hcore
      exact together_loadWord hf hwb hcore _
    | HASH_WORD =>
      simp only [CoreAt, hf] at hcore
      exact together_hashWord hf hwb hcore j
    | STORE_HASH =>
      simp only [CoreAt, hf] at hcore
      obtain ⟨h, hrest, hdigest⟩ := hcore
      exact together_storeHash _ hf hwb hrest hdigest _
    | _ => exact absurd (by rw [hf]; decide) hq

/-- **What the machine does in a cycle** with the core in its place is what it
does with SHA-256 for its function. -/
theorem Together.init_next {s : HashedInit w} (ht : Together s) (j : InitDataInput) :
    (s.next cfg j).init = (eInitData cfg sha2Digest).next s.init (s.answered j) := by
  obtain ⟨s, c⟩ := s
  obtain ⟨hcore, hdrained⟩ := ht
  simp only at hcore hdrained
  rw [eInitData_next]
  show s.drain.act cfg _ _ _ = _
  by_cases hf : s.fsm = .STORE_HASH
  · have hwb : s.wb = none := hdrained (by rw [hf]; decide)
    simp only [CoreAt, hf] at hcore
    obtain ⟨-, -, hdigest⟩ := hcore
    rw [InitData.drain_eq_self hwb, InitData.act, InitData.act, hf]
    simp only [InitData.storeHash, hdigest]
  · rw [InitData.act, InitData.act]
    cases hfsm : s.drain.fsm with
    | STORE_HASH => exact absurd (s.drain_fsm.symm.trans hfsm) hf
    | _ => rfl

/-- The two are together before an `EInitData` starts. -/
theorem together_idle {s : HashedInit w} {h : Sha256.State} (hf : s.init.fsm = .IDLE)
    (hc : s.core.Resting h) : Together s :=
  ⟨coreAt_of_quiet (by rw [hf]; decide) hc, fun hne => absurd hf hne⟩

end HashedInit

/-! ## The refinement -/

/-- Two inputs are the same but for what the hash engine answers. -/
def SameButHash (i j : InitDataInput) : Prop := j = { i with hash := j.hash }

open HashedInit in
/-- **The machine with the core in its place refines the one with SHA-256 for
its function**: from two that are together, whatever the other units answer, it
goes through the states of the other when its hash engine answers as the core
does; and the two stay together. -/
theorem hashed_refines {w : ℕ} (cfg : MemConfig) (s : HashedInit w) {h : Sha256.State}
    (hf : s.init.fsm = .IDLE) (hc : s.core.Resting h) (is : List InitDataInput) :
    ∃ js, List.Forall₂ SameButHash is js
      ∧ ((hashedInit cfg).run s is).init = (eInitData cfg sha2Digest).run s.init js := by
  suffices hall : ∀ s : HashedInit w, Together s → ∃ js, List.Forall₂ SameButHash is js
      ∧ ((hashedInit cfg).run s is).init = (eInitData cfg sha2Digest).run s.init js from
    hall s (together_idle hf hc)
  intro s ht
  induction is generalizing s with
  | nil => exact ⟨[], .nil, rfl⟩
  | cons i is ih =>
    obtain ⟨js, hjs, hrun⟩ := ih (s.next cfg i) (ht.next i)
    refine ⟨s.answered i :: js, .cons rfl hjs, ?_⟩
    rw [SyncMachine.run_cons, SyncMachine.run_cons, ← ht.init_next]
    exact hrun

/-- The small enclave and a core that has hashed nothing. -/
def smallHashed : HashedInit 4 := ⟨InitData.small 2, freshCore⟩

open InitData in
/-- The small enclave, with units that answer at once but for the engine. -/
theorem smallHashed_refines :
    ∃ js, List.Forall₂ SameButHash promptAnswers js
      ∧ ((hashedInit smallMemory).run smallHashed promptAnswers).init
        = (eInitData smallMemory sha2Digest).run (small 2) js :=
  hashed_refines smallMemory smallHashed rfl freshCore_resting promptAnswers

end Proteus
