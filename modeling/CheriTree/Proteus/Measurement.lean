import CheriTree.Proteus.HashCore
import CheriTree.Proteus.HashCoverage

/-!
# The measurement of an enclave

What `EInitData` is for is in the identity store when it is done: the digest of
the code section. Between the instruction and the digest stand the sweep, the
bus, the hash engine with its blocks and its padding, and the table; each takes
its own time, and most of them can stop the instruction.

With the SHA-2 core in its place an `EInitData` comes to its end, if the other
units answer, and then there are two cases: it has written nothing but null to
its destination, or the registers and every granule that the tag memory has
reported outside of the two sections were swept, and the entry of the enclave
has the SHA-256 of the bytes that the code section has in memory
(`hashedInit_measures`). The engine owes nothing for this: that it answers is
proved of the core.
-/

namespace Proteus

open SpinalCrypto

namespace InitData

variable {w : ℕ} (cfg : MemConfig) (digest : List Word → Digest)

/-- The table with the digest of the code section as it is in memory. -/
def measuredStore (b : InitData w) : IdentityStore w :=
  (b.cap.store.finishEntry b.cs1.otype
    (digest (hashedWords b.mem b.cs1.base.toNat (b.cs1.length.toNat / 4)))).2

/-- **Nothing is written** but null to the destination. -/
def Rejected (b s : InitData w) : Prop :=
  s.drain.cap = b.cap.write (.reg b.rd) .null ∧ s.mem = b.mem

/-- **The enclave is measured**: the sweep has passed, the digest of the code
section is in the table, the seals are at the start of the data section, and
the data capability is sealed. -/
def Measured (b s : InitData w) : Prop :=
  ∃ eid, b.Swept cfg eid
    ∧ s.drain.cap = { b.cap.write (.reg b.rd) (b.cs2.sealWith eid.identSeal) with
        store := b.measuredStore digest }
    ∧ s.mem = b.mem.storeCap cfg b.cs2.base eid.signEncSeal

/-- **The table** in each state, of a run that started as `b`, until the
instruction leaves the stage. -/
def Writing (b s : InitData w) : Prop :=
  match s.fsm with
  | .IDLE => True
  | .LOAD_WORD | .HASH_WORD | .STORE_HASH => b.Hashing s ∧ s.cap.store = b.cap.store
  | .STORE_SEAL => s.cap.store = b.measuredStore digest
  | _ => s.cap.store = b.cap.store

/-- **How it ends**: nothing is written, or all of it. -/
def Settled (b s : InitData w) : Prop :=
  b.Unwritten cfg s
    ∨ s.fsm = .IDLE ∧ s.valid = false ∧ ¬ b.Refuses cfg ∧ b.Measured cfg digest s

section

variable {cfg digest} {b s : InitData w}

/-- A check that fails leaves the stage. -/
theorem writing_check {cap : Capability} {next : InitData w} (hnext : b.Writing digest next) :
    b.Writing digest (s.check cap next) := by
  unfold check
  split
  · trivial
  · exact hnext

theorem writing_checkCs1Valid (hfsm : s.fsm = .CHECK_CS1_VALID)
    (hstore : s.cap.store = b.cap.store) (i : InitDataInput) :
    b.Writing digest (s.checkCs1Valid i) := by
  unfold checkCs1Valid
  simp only
  split
  · trivial
  · split
    · split
      · exact hstore
      · trivial
    · simp only [Writing, hfsm]
      exact hstore

theorem writing_checkRegs (hfsm : s.fsm = .CHECK_REGS) (hstore : s.cap.store = b.cap.store) :
    b.Writing digest s.checkRegs := by
  have hnext : b.Writing digest
      (if s.currentReg = 31 then { s with fsm := .CHECK_DDC }
        else { s with currentReg := s.currentReg + 1 }) := by
    split
    · exact hstore
    · simp only [Writing, hfsm]
      exact hstore
  unfold checkRegs
  simp only
  split
  · exact writing_check hnext
  · exact hnext

theorem writing_checkScrs (hfsm : s.fsm = .CHECK_SCRS) (hstore : s.cap.store = b.cap.store) :
    b.Writing digest s.checkScrs := by
  unfold checkScrs
  split
  · refine writing_check ?_
    split
    · exact hstore
    · simp only [Writing, hfsm]
      exact hstore
  · simp only [Writing, hfsm]
    exact hstore

theorem writing_getAddress (hfsm : s.fsm = .GET_ADDRESS) (hstore : s.cap.store = b.cap.store)
    (i : InitDataInput) : b.Writing digest (s.getAddress i) := by
  unfold getAddress
  split
  · split
    · exact hstore
    · exact hstore
  · simp only [Writing, hfsm]
    exact hstore

/-- The words go to the engine in their order, and nothing is written. -/
theorem writing_of_hashing {t : InitData w} (hh : b.Hashing t)
    (hf : t.fsm = .LOAD_WORD ∨ t.fsm = .HASH_WORD ∨ t.fsm = .STORE_HASH)
    (hstore : t.cap.store = b.cap.store) : b.Writing digest t := by
  rcases hf with hf | hf | hf <;> simp only [Writing, hf] <;> exact ⟨hh, hstore⟩

/-- **The digest goes to the table**, or the table does not take it. -/
theorem writing_storeHash (hs : b.Same s) (hfsm : s.fsm = .STORE_HASH) (hh : b.Hashing s)
    (hstore : s.cap.store = b.cap.store) (i : InitDataInput) :
    b.Writing digest (s.storeHash digest i) := by
  have hhashed := hh
  simp only [Hashing, hfsm] at hhashed
  unfold storeHash
  simp only
  split
  · split
    · show (s.cap.store.finishEntry s.cs1.otype (digest s.hashed)).2 = _
      rw [hs.cs1_eq, hstore, hhashed.2]
      rfl
    · trivial
  · exact writing_of_hashing hh (Or.inr (Or.inr hfsm)) hstore

theorem writing_idle (hf : s.fsm = .IDLE) (hi : b.Inv cfg s) (i : InitDataInput)
    (flushed : Bool) : b.Writing digest (s.drain.act cfg digest i flushed) := by
  simp only [Inv, hf] at hi
  simp only [act, drain_fsm, hf, drain_valid]
  split
  · rename_i hv
    rw [if_pos hv] at hi
    cases i.isStalled with
    | true => trivial
    | false => exact hi.2.1
  · simp only [Writing, drain_fsm, hf]

/-- **One cycle**, where the code section is in memory and is made of whole
words. -/
theorem writing_next (hheld : TaggedMemory.Holds cfg b.cs1.base b.cs1.length.toNat)
    (hpos : 0 < b.cs1.length.toNat) (hmod : b.cs1.length.toNat % 4 = 0) (hi : b.Inv cfg s)
    (hm : b.Writing digest s) (i : InitDataInput) :
    b.Writing digest ((eInitData cfg digest).next s i) := by
  by_cases hf : s.fsm = .IDLE
  · exact writing_idle hf hi i _
  have hwb := hi.wb_eq_none hf
  have hnext : (eInitData cfg digest).next s i = s.act cfg digest i s.wb.isNone := by
    rw [eInitData_next, drain_eq_self hwb]
  have hstep : b.Hashing s → b.Hashing ((eInitData cfg digest).next s i) :=
    fun h => h.step hheld hpos hmod i
  rw [hnext, act] at hstep
  rw [hnext, act]
  have hm' := hm
  cases hfsm : s.fsm with
  | IDLE => exact absurd hfsm hf
  | CHECK_CS1_VALID =>
    simp only [Writing, hfsm] at hm'
    exact writing_checkCs1Valid hfsm hm' i
  | START =>
    simp only [Writing, hfsm] at hm'
    exact hm'
  | CLAIM_PIPELINE =>
    simp only [Writing, hfsm] at hm'
    rw [hwb]
    exact hm'
  | CHECK_REGS =>
    simp only [Writing, hfsm] at hm'
    exact writing_checkRegs hfsm hm'
  | CHECK_DDC =>
    simp only [Writing, hfsm] at hm'
    exact writing_check hm'
  | CHECK_PCC =>
    simp only [Writing, hfsm] at hm'
    exact writing_check hm'
  | CHECK_SCRS =>
    simp only [Writing, hfsm] at hm'
    exact writing_checkScrs hfsm hm'
  | GET_ADDRESS =>
    simp only [Writing, hfsm] at hm'
    exact writing_getAddress hfsm hm' i
  | GET_CAP =>
    simp only [Writing, hfsm] at hm'
    simp only
    split
    · exact writing_check hm'
    · exact hm
  | HASH_START =>
    simp only [Inv, hfsm] at hi
    simp only [Writing, hfsm] at hm'
    rw [hfsm] at hstep
    refine ⟨hstep ?_, hm'⟩
    unfold Hashing
    rw [hfsm]
    exact ⟨hi.1.cs1_eq, hi.1.mem, hi.1.wb⟩
  | LOAD_WORD =>
    simp only [Writing, hfsm] at hm'
    rw [hfsm] at hstep
    refine writing_of_hashing (hstep hm'.1) ?_ ?_
    · simp only [loadWord]
      split
      · exact Or.inr (Or.inl rfl)
      · exact Or.inl hfsm
    · simp only [loadWord]
      split
      · exact hm'.2
      · exact hm'.2
  | HASH_WORD =>
    simp only [Writing, hfsm] at hm'
    rw [hfsm] at hstep
    refine writing_of_hashing (hstep hm'.1) ?_ ?_
    · simp only [hashWord]
      split
      · by_cases hlast : s.currentAddress = s.cs1.top
        · exact Or.inr (Or.inr (if_pos hlast))
        · exact Or.inl (if_neg hlast)
      · exact Or.inr (Or.inl hfsm)
    · simp only [hashWord]
      split
      · exact hm'.2
      · exact hm'.2
  | STORE_HASH =>
    simp only [Inv, hfsm] at hi
    simp only [Writing, hfsm] at hm'
    exact writing_storeHash hi.1 hfsm hm'.1 hm'.2 i
  | STORE_SEAL =>
    simp only [storeSeal]
    split
    · trivial
    · exact hm

/-- **The seals are stored**, and with them everything is. -/
theorem measured_of_storesSeals (hi : b.Inv cfg s) (hm : b.Writing digest s)
    {i : InitDataInput} (hst : s.StoresSeals i) :
    b.Measured cfg digest ((eInitData cfg digest).next s i) := by
  obtain ⟨hfsm, hbus⟩ := hst
  rw [eInitData_next, drain_eq_self (hi.wb_eq_none (by rw [hfsm]; decide)), act, hfsm]
  simp only [Inv, hfsm] at hi
  simp only [Writing, hfsm] at hm
  obtain ⟨hs, hswept⟩ := hi
  simp only [storeSeal, if_pos hbus]
  refine ⟨s.currentEid, hswept, ?_, ?_⟩
  · rw [← hm, ← hs.cs2_eq]
    exact hs.drain_finish _
  · show s.mem.storeCap cfg s.cs2.base _ = _
    rw [hs.mem, hs.cs2_eq]

/-- **One cycle writes nothing, or everything.** -/
theorem settled_next (hscan : b.ScanInMemory cfg) (hi : b.Inv cfg s) (hm : b.Writing digest s)
    (h : b.Settled cfg digest s) (i : InitDataInput) :
    b.Settled cfg digest ((eInitData cfg digest).next s i) := by
  rcases h with hu | ⟨hf, hv, hr, eid, hswept, hcap, hmem⟩
  · by_cases hst : s.StoresSeals i
    · right
      have hdone := measured_of_storesSeals hi hm hst
      have hr : ¬ b.Refuses cfg := fun hr => hr.not_storesSeals hi hu i hst
      obtain ⟨hfsm, hbus⟩ := hst
      have hleft : (eInitData cfg digest).next s i = _ := eInitData_next cfg digest s i
      rw [act, drain_fsm, hfsm] at hleft
      simp only [storeSeal, if_pos hbus] at hleft
      exact ⟨by rw [hleft]; rfl, by rw [hleft]; rfl, hr, hdone⟩
    · exact Or.inl (unwritten_next hscan hi hu hst)
  · right
    have hstay : (eInitData cfg digest).next s i = s.drain := by
      rw [eInitData_next]
      simp only [act, drain_fsm, hf, drain_valid, hv, Bool.false_eq_true, if_false]
    rw [hstay]
    exact ⟨(drain_fsm s).trans hf, (drain_valid s).trans hv, hr, eid, hswept,
      by rw [drain_drain]; exact hcap, by rw [drain_mem]; exact hmem⟩

/-! ## The end of a run -/

/-- **An `EInitData` retires**, if the loop that hashes the section has an end
to come to and the units answer. -/
theorem Ends.exists_retired (hends : s.drain.Ends cfg) (hs : s.Starts) (hscan : s.ScanInMemory cfg)
    {env : ℕ → InitDataInput} (henv : Answers env) :
    ∃ n, ((eInitData cfg digest).stateAt s env n).Retired := by
  -- a cycle after it has left the stage, its result is written
  suffices h : ∃ n, ((eInitData cfg digest).stateAt s env n).fsm = .IDLE
      ∧ ((eInitData cfg digest).stateAt s env n).valid = false by
    obtain ⟨n, hf, hv⟩ := h
    refine ⟨n + 1, ?_⟩
    rw [SyncMachine.stateAt_succ, eInitData_next]
    simp only [act, drain_fsm, hf, drain_valid, hv, Bool.false_eq_true, if_false]
    exact ⟨(drain_fsm _).trans hf, (drain_valid _).trans hv, drain_wb _⟩
  by_cases hst : ∃ n, ((eInitData cfg digest).stateAt s env n).StoresSeals (env n)
  · obtain ⟨n, hfsm, hbus⟩ := hst
    refine ⟨n + 1, ?_⟩
    rw [SyncMachine.stateAt_succ, eInitData_next, act, drain_fsm, hfsm]
    simp only [storeSeal, if_pos hbus]
    exact ⟨rfl, rfl⟩
  · have hstep : ∀ t i, (s.drain.Inv cfg t ∧ s.drain.Unwritten cfg t) → True →
        t.cyclesLeft ≠ 0 → ((eInitData cfg digest).next t i).cyclesLeft < t.cyclesLeft
          ∨ ¬ t.fsm.Comes i ∧ ((eInitData cfg digest).next t i).cyclesLeft ≤ t.cyclesLeft
            ∧ ((eInitData cfg digest).next t i).fsm = t.fsm := by
      intro t i ht _ h0
      exact (advances_next hends ht.1 ht.2 i h0).imp_right fun h => ⟨h.1, h.2.1.le, h.2.2⟩
    obtain ⟨n, hn⟩ := (eInitData cfg digest).exists_measure_eq_zero_of_fair hstep
      (unwritten_stateAt hs hscan fun n hn => hst ⟨n, hn⟩) (fun _ => trivial) henv
    exact ⟨n, left_of_cyclesLeft_eq_zero hn⟩

/-- **What is written when an instruction has retired.** -/
theorem rejected_or_measured (hheld : TaggedMemory.Holds cfg s.drain.cs1.base
      s.drain.cs1.length.toNat) (hpos : 0 < s.drain.cs1.length.toNat)
    (hmod : s.drain.cs1.length.toNat % 4 = 0) (hs : s.Starts) (hscan : s.ScanInMemory cfg)
    {env : ℕ → InitDataInput} {n : ℕ} (hr : ((eInitData cfg digest).stateAt s env n).Retired) :
    s.drain.Refuses cfg ∧ s.drain.Rejected ((eInitData cfg digest).stateAt s env n)
      ∨ ¬ s.drain.Refuses cfg
        ∧ s.drain.Measured cfg digest ((eInitData cfg digest).stateAt s env n) := by
  have hstep : ∀ t i, (s.drain.Inv cfg t ∧ s.drain.Writing digest t
      ∧ s.drain.Settled cfg digest t) → True →
      s.drain.Inv cfg ((eInitData cfg digest).next t i)
        ∧ s.drain.Writing digest ((eInitData cfg digest).next t i)
        ∧ s.drain.Settled cfg digest ((eInitData cfg digest).next t i) :=
    fun t i ⟨hi, hm, h⟩ _ =>
      ⟨inv_next hi i, writing_next hheld hpos hmod hi hm i, settled_next hscan.drain hi hm h i⟩
  have hfirst : s.drain.Writing digest s := by
    simp only [Writing, hs.1]
  have hall : s.drain.Inv cfg ((eInitData cfg digest).stateAt s env n) ∧ _ :=
    (eInitData cfg digest).stateAt_invariant hstep ⟨hs.inv, hfirst, Or.inl hs.unwritten⟩
      (fun k => trivial) n
  rcases hall.2.2 with hu | ⟨-, -, hnot, hdone⟩
  · obtain ⟨href, hcap, hmem, -⟩ := hu.left hr.1 hr.2.1
    exact Or.inl ⟨href, hcap, hmem⟩
  · exact Or.inr ⟨hnot, hdone⟩

end

end InitData

/-! ## With the core in its place -/

namespace HashedInit

variable {w : ℕ} {cfg : MemConfig} {s : HashedInit w} {env : ℕ → InitDataInput}

/-- The units besides the hash engine answer, each again and again. -/
def OthersAnswer (env : ℕ → InitDataInput) : Prop :=
  ∀ (fsm : InitDataState) (n : ℕ), fsm ≠ .HASH_WORD → ∃ m, n ≤ m ∧ fsm.Comes (env m)

/-- The inputs with the answers of the core, where the machine looks at
them. -/
def coreEnv (cfg : MemConfig) (s : HashedInit w) (env : ℕ → InitDataInput) (n : ℕ) :
    InitDataInput :=
  let t := (hashedInit cfg).stateAt s env n
  if t.init.fsm = .HASH_WORD then t.answered (env n) else { env n with hash := true }

theorem together_stateAt (ht : Together s) (n : ℕ) :
    Together ((hashedInit cfg).stateAt s env n) := by
  induction n with
  | zero => exact ht
  | succ n ih => exact ih.next (env n)

/-- The answer of the engine counts in one state only. -/
theorem next_eq_of_fsm {t : InitData w} (digest : List Word → Digest) (hf : t.fsm ≠ .HASH_WORD)
    (i : InitDataInput) (x : Bool) :
    (eInitData cfg digest).next t i = (eInitData cfg digest).next t { i with hash := x } := by
  rw [eInitData_next, eInitData_next, InitData.act, InitData.act]
  cases hfsm : t.drain.fsm with
  | HASH_WORD => exact absurd (t.drain_fsm.symm.trans hfsm) hf
  | _ => rfl

/-- **A run with the core is one with SHA-256 for its function**, under the
answers of the core. -/
theorem stateAt_init (ht : Together s) (n : ℕ) :
    ((hashedInit cfg).stateAt s env n).init
      = (eInitData cfg sha2Digest).stateAt s.init (coreEnv cfg s env) n := by
  induction n with
  | zero => rfl
  | succ n ih =>
    rw [SyncMachine.stateAt_succ, SyncMachine.stateAt_succ, ← ih]
    show (((hashedInit cfg).stateAt s env n).next cfg (env n)).init = _
    rw [(together_stateAt ht n).init_next]
    unfold coreEnv
    simp only
    split
    · rfl
    · rename_i hf
      exact next_eq_of_fsm sha2Digest hf _ true

/-- While the word is not taken the machine stays where it is. -/
theorem next_of_notReady {t : HashedInit w} (hf : t.init.fsm = .HASH_WORD) (hwb : t.init.wb = none)
    (hready : t.core.cmdReady (hashIo t.init) = false) (i : InitDataInput) :
    t.next cfg i = ⟨t.init, t.core.next (hashIo t.init)⟩ := by
  unfold HashedInit.next answered
  rw [InitData.drain_eq_self hwb, InitData.act, hf]
  simp only [InitData.hashWord, hready, Bool.false_eq_true, if_false]

/-- A core that waits keeps the machine waiting. -/
theorem stateAt_of_waits {t : InitData w} {c c' : Sha2Core} (hf : t.fsm = .HASH_WORD)
    (hwb : t.wb = none) {k : ℕ} (hwaits : Sha2Core.Waits (hashIo t) k c c') {n : ℕ}
    (hst : (hashedInit cfg).stateAt s env n = ⟨t, c⟩) :
    (hashedInit cfg).stateAt s env (n + k) = ⟨t, c'⟩ := by
  induction k generalizing n c with
  | zero =>
    obtain rfl : c = c' := hwaits
    exact hst
  | succ k ih =>
    have hnext : (hashedInit cfg).stateAt s env (n + 1) = ⟨t, c.next (hashIo t)⟩ := by
      rw [SyncMachine.stateAt_succ, hst]
      exact next_of_notReady (t := ⟨t, c⟩) hf hwb hwaits.1 _
    rw [Nat.add_comm k 1, ← Nat.add_assoc]
    exact ih hwaits.2 hnext

/-- **The core answers**, within 171 cycles. -/
theorem exists_ready (ht : Together s) {n : ℕ}
    (hf : ((hashedInit cfg).stateAt s env n).init.fsm = .HASH_WORD) :
    ∃ m < 171, (coreEnv cfg s env (n + m)).hash = true := by
  have htn : Together ((hashedInit cfg).stateAt s env n) := together_stateAt ht n
  have htakes := htn.core
  simp only [CoreAt, hf] at htakes
  have hwb : ((hashedInit cfg).stateAt s env n).init.wb = none := htn.drained (by rw [hf]; decide)
  obtain ⟨k, c', hk, hwaits, hend, -⟩ := htakes
  refine ⟨k, hk, ?_⟩
  unfold coreEnv
  simp only
  rw [stateAt_of_waits hf hwb hwaits rfl]
  simp only [hf, if_true, answered, InitData.drain_eq_self hwb, hend]

/-- **With the core in its place every unit answers**, if the others do. -/
theorem answers_coreEnv (ht : Together s) (henv : OthersAnswer env) :
    InitData.Answers (coreEnv cfg s env) := by
  intro fsm n
  by_cases hfsm : fsm = .HASH_WORD
  · obtain rfl := hfsm
    by_cases hf : ((hashedInit cfg).stateAt s env n).init.fsm = .HASH_WORD
    · obtain ⟨m, -, hm⟩ := exists_ready ht hf
      exact ⟨n + m, Nat.le_add_right n m, hm⟩
    · refine ⟨n, Nat.le_refl n, ?_⟩
      show (coreEnv cfg s env n).hash = true
      unfold coreEnv
      rw [if_neg hf]
  · obtain ⟨m, hm, hcomes⟩ := henv fsm n hfsm
    refine ⟨m, hm, ?_⟩
    unfold coreEnv
    simp only
    cases fsm with
    | HASH_WORD => exact absurd rfl hfsm
    | _ => split <;> exact hcomes

end HashedInit

/-- **The bytes of the code section**, as they are in memory. -/
def InitData.codeBytes {w : ℕ} (b : InitData w) : List (BitVec 8) :=
  b.mem.bytes b.cs1.base.toNat b.cs1.length.toNat

/-- **The table with the SHA-256 of the code section.** -/
def InitData.attestedStore {w : ℕ} (b : InitData w) : IdentityStore w :=
  (b.cap.store.finishEntry b.cs1.otype (Sha256.sha256 b.codeBytes)).2

/-- The digest of the words of a section is the digest of its bytes. -/
theorem InitData.measuredStore_sha2Digest {w : ℕ} {b : InitData w} (h : b.cs1.WholeSection) :
    b.measuredStore sha2Digest = b.attestedStore := by
  obtain ⟨-, hmod, hbase, -⟩ := h
  unfold measuredStore attestedStore sha2Digest codeBytes
  rw [flatMap_hashedWords, show 4 * (b.cs1.base.toNat / 4) = b.cs1.base.toNat by omega,
    show 4 * (b.cs1.length.toNat / 4) = b.cs1.length.toNat by omega]

open HashedInit in
/-- **An `EInitData` measures its enclave or writes nothing.** With the SHA-2
core in its place and a code section of whole words in memory it retires,
whatever the time the other units take; and then it has written null to its
destination and nothing else, if the operands are refused, or else the sweep
has passed and the entry of the enclave has the SHA-256 of the bytes of the
code section. -/
theorem hashedInit_measures {w : ℕ} (cfg : MemConfig) (s : HashedInit w)
    (env : ℕ → InitDataInput) {h : Sha256.State} (hc : s.core.Resting h) (hs : s.init.Starts)
    (hscan : s.init.ScanInMemory cfg) (hcode : s.init.drain.cs1.WholeSection)
    (hheld : TaggedMemory.Holds cfg s.init.drain.cs1.base s.init.drain.cs1.length.toNat)
    (henv : OthersAnswer env) :
    (∃ n, ((hashedInit cfg).stateAt s env n).init.Retired)
      ∧ ∀ n, ((hashedInit cfg).stateAt s env n).init.Retired →
        s.init.drain.Refuses cfg
            ∧ s.init.drain.Rejected ((hashedInit cfg).stateAt s env n).init
          ∨ ¬ s.init.drain.Refuses cfg ∧ ∃ eid, s.init.drain.Swept cfg eid
            ∧ ((hashedInit cfg).stateAt s env n).init.cap
                = { s.init.drain.cap.write (.reg s.init.rd)
                      (s.init.drain.cs2.sealWith eid.identSeal) with
                    store := s.init.drain.attestedStore }
            ∧ ((hashedInit cfg).stateAt s env n).init.mem
                = s.init.mem.storeCap cfg s.init.drain.cs2.base eid.signEncSeal := by
  have ht : Together s := together_idle hs.1 hc
  have hends : s.init.drain.Ends cfg := fun _ => hcode.2.1
  constructor
  · obtain ⟨n, hr⟩ := @InitData.Ends.exists_retired w cfg sha2Digest s.init hends hs hscan _
      (answers_coreEnv ht henv)
    exact ⟨n, by rw [stateAt_init ht n]; exact hr⟩
  · intro n hr
    rw [stateAt_init ht n] at hr ⊢
    refine (InitData.rejected_or_measured hheld hcode.1 hcode.2.1 hs hscan hr).imp_right ?_
    rintro ⟨hnot, eid, hswept, hcap, hmem⟩
    rw [InitData.drain_eq_self hr.2.2, InitData.drain_rd,
      InitData.measuredStore_sha2Digest hcode] at hcap
    rw [InitData.drain_mem] at hmem
    exact ⟨hnot, eid, hswept, hcap, hmem⟩

namespace HashedInit

open InitData

/-- The operands of the small enclave are not refused. -/
theorem small_not_refuses : ¬ (small 2).drain.Refuses smallMemory := by
  have hr : ((eInitData smallMemory lastWords).run (small 2) promptAnswers).Retired :=
    ⟨by decide +kernel, by decide +kernel, by decide +kernel⟩
  obtain ⟨eid, -, hswept, -⟩ := run_tagged (small_starts 2) rfl promptAnswers hr
    (by decide +kernel)
  rintro (hn | ⟨-, hn⟩)
  · exact hn ⟨eid, hswept⟩
  · exact hn (by unfold Finishes; decide +kernel)

theorem othersAnswer_promptRun : OthersAnswer promptRun :=
  fun fsm n _ => answers_promptRun fsm n

end HashedInit

open HashedInit InitData in
/-- **The small enclave is measured.** -/
theorem smallHashed_measured :
    ∃ n, ((hashedInit smallMemory).stateAt smallHashed promptRun n).init.Retired
      ∧ ((hashedInit smallMemory).stateAt smallHashed promptRun n).init.cap.store
        = smallHashed.init.drain.attestedStore := by
  obtain ⟨⟨n, hr⟩, hall⟩ := hashedInit_measures smallMemory smallHashed promptRun
    freshCore_resting (small_starts 2) (fun a ha => absurd ha List.not_mem_nil) (by decide)
    ⟨by decide, by decide⟩ othersAnswer_promptRun
  refine ⟨n, hr, ?_⟩
  rcases hall n hr with ⟨href, -⟩ | ⟨-, eid, -, hcap, -⟩
  · exact absurd href small_not_refuses
  · rw [hcap]

end Proteus
