import CheriTree.Morello.Digest

/-!
# The identity store over all calls

Whatever EL1 calls and with whatever arguments: no two entries in use have the
same id, what is ready is in use, no entry in use has the invalid id, an entry
that is ready stays as it is, and its digest is that of the code section of the
call that made it ready.

Three kinds of call break it. `initEntry` marks an entry as used before it
knows whether there is an id left. A code section whose length is not a
multiple of four is not hashed, and what happens to be on the stack is stored
as its digest; the test that would have kept it out is a comment in
`copyHashValTable`. And the hypervisor writes where EL1 points it, into its own
data too. `Sound` is a call that is none of these.
-/

namespace Morello

variable {b : Build}

/-! ## Calls and runs -/

/-- The calls that touch the store. -/
inductive Hvc where
  | einitCode
  | einitData
  | estoreId
deriving DecidableEq, Repr

/-- **A call**: the state of EL1 it is made in, with its arguments in `c0` and
`c1`, and what the stack of the hypervisor holds where a digest is to go. -/
structure Call where
  hvc : Hvc
  el1 : El1State
  hash : HashType

/-- The store after a call, where it returns. -/
def step (p : Platform b) (s : IdentityStore b) (call : Call) : Option (IdentityStore b) :=
  match call.hvc with
  | .einitCode => some (einitCode s (call.el1.c 0)).2
  | .einitData =>
    (einitData p s call.hash (call.el1.c 0) (call.el1.c 1) (savedStack call.el1.c) call.el1).map
      Reply.store
  | .estoreId =>
    (estoreId p s (call.el1.c 0).address (call.el1.c 1) call.el1.mem).map (fun r => r.2.1)

/-- The store after a sequence of calls, where they all return. -/
def run (p : Platform b) : IdentityStore b → List Call → Option (IdentityStore b)
  | s, [] => some s
  | s, call :: calls => (step p s call).bind (fun s' => run p s' calls)

/-- A call of `EINIT_DATA` that gets as far as the digest. -/
def Accepted (s : IdentityStore b) (call : Call) : Prop :=
  s.getUnfinishedEntryID (cheriTypeGet (call.el1.c 0)) ≠ setInvalidEnclaveID
    ∧ sweep (unsealedCode s (call.el1.c 0)) (call.el1.c 1) (savedStack call.el1.c) memEL1NAtEL2N
        call.el1 = some 0

/-- **A call that keeps the store in order**: there is an id for the entry it
takes, the code section it hashes has a length the digest handles, and it does
not write into the hypervisor's data. -/
def Sound (p : Platform b) (s : IdentityStore b) (call : Call) : Prop :=
  match call.hvc with
  | .einitCode => s.idCounter < b.numEnclaveIds + 1 ∨ ∀ i, (s.entries i).used = true
  | .einitData => Accepted s call →
      (call.el1.c 0).length ≤ 2 ^ 31 ∧ (call.el1.c 0).length % numBytes = 0
        ∧ ¬ (ByteRange.mk (call.el1.c 1).address.toNat CAP_LEN).Meets p.trusted
  | .estoreId => bufferPasses (call.el1.c 1) = true →
      (s.getHashEntry (call.el1.c 0).address).isSome = true →
        ¬ (ByteRange.mk (call.el1.c 1).address.toNat hashByteWidth).Meets p.trusted

/-- Every call of a run is sound where it is made. -/
def SoundRun (p : Platform b) : IdentityStore b → List Call → Prop
  | _, [] => True
  | s, call :: calls => Sound p s call ∧ ∀ s', step p s call = some s' → SoundRun p s' calls

/-! ## What a call does -/

section

variable {p : Platform b} {s s' : IdentityStore b} {call : Call}

/-- The digest of the code section of a call. -/
def codeDigest (p : Platform b) (call : Call) : HashVal :=
  p.lib.sha256 (call.el1.mem.bytesOf (call.el1.c 0).range)

theorem sweep_eq {code data : Capability} {cspReg : List Capability} {el1mem : Capability}
    {el1 : El1State} {r : ℤ} (h : sweep code data cspReg el1mem el1 = some r) (hr : r ≠ -1) :
    r = 0 := by
  unfold sweep at h
  split at h
  · cases h
  · split at h
    · cases h
    · rw [Option.some.injEq] at h
      subst h
      split at hr
      · exact absurd rfl hr
      · rename_i hno
        exact if_neg hno

/-- **What `EINIT_DATA` can do to the store**: nothing, or finish an entry with
the digest it made. -/
theorem einitData_store {r : Reply b}
    (h : einitData p s call.hash (call.el1.c 0) (call.el1.c 1) (savedStack call.el1.c) call.el1
      = some r) :
    r.store = s ∨ (Accepted s call ∧ ∃ hash m,
      generateHash p.lib call.el1.mem call.hash (unsealedCode s (call.el1.c 0)) = some hash
        ∧ r.store = p.afterWrite ⟨(call.el1.c 1).address.toNat, CAP_LEN⟩ m
          (s.finishEntry (cheriTypeGet (call.el1.c 0)) hash).2) := by
  unfold einitData at h
  simp only at h
  split at h
  · rw [← Option.some.inj h]
    exact Or.inl rfl
  · rename_i hid
    split at h
    · cases h
    · rename_i resultSweep hsweep
      split at h
      · rw [← Option.some.inj h]
        exact Or.inl rfl
      · rename_i hres
        have h0 := sweep_eq hsweep hres
        subst h0
        split at h
        · cases h
        · rename_i hash hhash
          rcases s.finishEntry_cases (cheriTypeGet (call.el1.c 0)) hash with heq | ⟨i, -, -, -, heq⟩
          · rw [heq, if_pos rfl] at h
            rw [← Option.some.inj h]
            exact Or.inl rfl
          · rw [if_neg (by rw [heq]; exact (by decide : ¬ (0 : ℤ) = -1)), finishData,
              Option.map_eq_some_iff] at h
            obtain ⟨m, -, rfl⟩ := h
            exact Or.inr ⟨⟨hid, hsweep⟩, hash, m, hhash, rfl⟩

/-- **A call that is accepted** goes on to the store of the seals, once there
is a digest. -/
theorem einitData_of_accepted (hacc : Accepted s call) (hash : HashType)
    (hhash : generateHash p.lib call.el1.mem call.hash (unsealedCode s (call.el1.c 0)) = some hash)
    (hfin : (s.finishEntry (cheriTypeGet (call.el1.c 0)) hash).1 ≠ -1) :
    einitData p s call.hash (call.el1.c 0) (call.el1.c 1) (savedStack call.el1.c) call.el1
      = finishData p (s.finishEntry (cheriTypeGet (call.el1.c 0)) hash).2
          (s.getUnfinishedEntryID (cheriTypeGet (call.el1.c 0))) (call.el1.c 1) call.el1.mem := by
  unfold einitData
  simp only [if_neg hacc.1, hacc.2, hhash, if_neg hfin]
  rfl

theorem estoreId_store {anyOtype : Word} {memHash : Capability} {m : Memory}
    {r : Bool × IdentityStore b × Memory} (h : estoreId p s anyOtype memHash m = some r) :
    r.2.1 = s ∨ (bufferPasses memHash = true ∧ (s.getHashEntry anyOtype).isSome = true
      ∧ ∃ m', r.2.1 = p.afterWrite ⟨memHash.address.toNat, hashByteWidth⟩ m' s) := by
  unfold estoreId at h
  split at h
  · rename_i hpass
    split at h
    · rw [← Option.some.inj h]
      exact Or.inl rfl
    · rename_i hash hhash
      rw [Option.map_eq_some_iff] at h
      obtain ⟨m', -, rfl⟩ := h
      exact Or.inr ⟨hpass, by rw [hhash]; rfl, m', rfl⟩
  · rw [← Option.some.inj h]
    exact Or.inl rfl

theorem einitCode_store (s : IdentityStore b) (code : Capability) :
    (einitCode s code).2 = s.initEntry.2 := by
  unfold einitCode
  simp only
  split
  · rfl
  · rfl

/-- **What a sound call can do**: nothing, take an entry, or finish one with
the digest of the code section. -/
theorem step_cases (h : step p s call = some s') (hsound : Sound p s call) :
    s' = s
      ∨ (s' = s.initEntry.2
        ∧ (s.idCounter < b.numEnclaveIds + 1 ∨ ∀ i, (s.entries i).used = true))
      ∨ (call.hvc = .einitData ∧ ∃ hash, hash.hash = codeDigest p call
        ∧ s' = (s.finishEntry (cheriTypeGet (call.el1.c 0)) hash).2) := by
  unfold step at h
  unfold Sound at hsound
  cases hop : call.hvc with
  | einitCode =>
    simp only [hop] at h hsound
    rw [einitCode_store, Option.some.injEq] at h
    exact Or.inr (Or.inl ⟨h.symm, hsound⟩)
  | einitData =>
    simp only [hop] at h hsound
    rw [Option.map_eq_some_iff] at h
    obtain ⟨r, hr, rfl⟩ := h
    rcases einitData_store hr with heq | ⟨hacc, hash, m, hhash, heq⟩
    · exact Or.inl heq
    · obtain ⟨hlen, h4, hmeets⟩ := hsound hacc
      rw [Platform.afterWrite, if_neg hmeets] at heq
      refine Or.inr (Or.inr ⟨rfl, hash, ?_, heq⟩)
      have hrange : (unsealedCode s (call.el1.c 0)).range = (call.el1.c 0).range :=
        range_cheriUnseal _ _
      have hlength : (unsealedCode s (call.el1.c 0)).length = (call.el1.c 0).length :=
        congrArg ByteRange.length hrange
      rw [codeDigest, ← hrange]
      exact generateHash_eq (by rw [hlength]; exact hlen) (by rw [hlength]; exact h4) hhash
  | estoreId =>
    simp only [hop] at h hsound
    rw [Option.map_eq_some_iff] at h
    obtain ⟨r, hr, rfl⟩ := h
    rcases estoreId_store hr with heq | ⟨hpass, hsome, m', heq⟩
    · exact Or.inl heq
    · rw [Platform.afterWrite, if_neg (hsound hpass hsome)] at heq
      exact Or.inl heq

/-- A sound call keeps the invariant. -/
theorem step_inv (h : step p s call = some s') (hsound : Sound p s call) (hi : s.Inv) : s'.Inv := by
  rcases step_cases h hsound with rfl | ⟨rfl, hid⟩ | ⟨-, hash, -, rfl⟩
  · exact hi
  · exact hi.initEntry hid
  · exact hi.finishEntry _ _

/-- **What a sound call does to an entry**: nothing, or it takes one that is
free and leaves it unfinished, or it finishes one with the digest of its code
section. -/
theorem step_entry (h : step p s call = some s') (hsound : Sound p s call) (hi : s.Inv)
    (i : Fin b.maxEntries) :
    s'.entries i = s.entries i
      ∨ ((s.entries i).ready = false ∧ (s'.entries i).ready = false)
      ∨ (call.hvc = .einitData ∧ (s.entries i).ready = false ∧ (s'.entries i).ready = true
        ∧ (s'.entries i).hash = codeDigest p call) := by
  rcases step_cases h hsound with rfl | ⟨rfl, hid⟩ | ⟨hop, hash, hhash, rfl⟩
  · exact Or.inl rfl
  · rcases s.initEntry_cases with ⟨-, heq⟩ | ⟨j, hused, -, heq⟩ | ⟨j, hused, -, heq⟩
    · rw [heq]
      exact Or.inl rfl
    all_goals
      rw [heq]
      by_cases hij : i = j
      · subst hij
        have hready : (s.entries i).ready = false := by
          by_contra hr
          rw [hi.ready_used i (Bool.eq_true_of_not_eq_false hr)] at hused
          cases hused
        refine Or.inr (Or.inl ⟨hready, ?_⟩)
        rw [IdentityStore.set_entries_self]
        exact hready
      · exact Or.inl (IdentityStore.set_entries_of_ne _ hij _)
  · rcases s.finishEntry_cases (cheriTypeGet (call.el1.c 0)) hash with heq | ⟨j, -, hr, -, heq⟩
    · rw [heq]
      exact Or.inl rfl
    · rw [heq]
      by_cases hij : i = j
      · subst hij
        refine Or.inr (Or.inr ⟨hop, hr, ?_, ?_⟩)
        · rw [IdentityStore.set_entries_self]
          rfl
        · rw [IdentityStore.set_entries_self]
          exact hhash
      · exact Or.inl (IdentityStore.set_entries_of_ne _ hij _)

end

/-! ## What a run does -/

section

variable {p : Platform b} {s s' : IdentityStore b}

theorem run_cons {call : Call} {calls : List Call} (h : run p s (call :: calls) = some s') :
    ∃ s₁, step p s call = some s₁ ∧ run p s₁ calls = some s' := by
  rw [run, Option.bind_eq_some_iff] at h
  exact h

/-- **A sound run keeps the invariant.** -/
theorem run_inv {calls : List Call} (h : run p s calls = some s') (hsound : SoundRun p s calls)
    (hi : s.Inv) : s'.Inv := by
  induction calls generalizing s with
  | nil =>
    rw [← Option.some.inj h]
    exact hi
  | cons call calls ih =>
    obtain ⟨s₁, hstep, hrun⟩ := run_cons h
    exact ih hrun (hsound.2 s₁ hstep) (step_inv hstep hsound.1 hi)

/-- **An entry that is ready stays as it is.** -/
theorem run_ready {calls : List Call} (h : run p s calls = some s') (hsound : SoundRun p s calls)
    (hi : s.Inv) {i : Fin b.maxEntries} (hr : (s.entries i).ready = true) :
    s'.entries i = s.entries i := by
  induction calls generalizing s with
  | nil => rw [← Option.some.inj h]
  | cons call calls ih =>
    obtain ⟨s₁, hstep, hrun⟩ := run_cons h
    have heq : s₁.entries i = s.entries i := by
      rcases step_entry hstep hsound.1 hi i with heq | ⟨hno, -⟩ | ⟨-, hno, -⟩
      · exact heq
      · exact absurd (hr.symm.trans hno) (by decide)
      · exact absurd (hr.symm.trans hno) (by decide)
    rw [ih hrun (hsound.2 s₁ hstep) (step_inv hstep hsound.1 hi) (by rw [heq]; exact hr), heq]

/-- **A call of the run made the entry ready**, with the digest of its code
section. -/
def MadeReady (p : Platform b) (s : IdentityStore b) (calls : List Call) (i : Fin b.maxEntries)
    (hash : HashVal) : Prop :=
  ∃ pre call post s₁ s₂, calls = pre ++ call :: post ∧ run p s pre = some s₁
    ∧ step p s₁ call = some s₂ ∧ call.hvc = .einitData
    ∧ (s₁.entries i).ready = false ∧ (s₂.entries i).ready = true
    ∧ hash = codeDigest p call

/-- What a later part of a run made ready, the run made ready. -/
theorem MadeReady.cons {call : Call} {calls : List Call} {s₁ : IdentityStore b}
    (hstep : step p s call = some s₁) {i : Fin b.maxEntries} {hash : HashVal}
    (h : MadeReady p s₁ calls i hash) : MadeReady p s (call :: calls) i hash := by
  obtain ⟨pre, c, post, t, t', rfl, hrun, hrest⟩ := h
  refine ⟨call :: pre, c, post, t, t', rfl, ?_, hrest⟩
  rw [run, hstep, Option.bind_some, hrun]

/-- **An entry that is ready was so before the run, or the run made it so.** -/
theorem run_madeReady {calls : List Call} (h : run p s calls = some s')
    (hsound : SoundRun p s calls) (hi : s.Inv) {i : Fin b.maxEntries}
    (hr : (s'.entries i).ready = true) :
    (s.entries i).ready = true ∨ MadeReady p s calls i (s'.entries i).hash := by
  induction calls generalizing s with
  | nil =>
    rw [← Option.some.inj h] at hr
    exact Or.inl hr
  | cons call calls ih =>
    obtain ⟨s₁, hstep, hrun⟩ := run_cons h
    have hi₁ := step_inv hstep hsound.1 hi
    have hrest := hsound.2 s₁ hstep
    rcases ih hrun hrest hi₁ with hr₁ | hmade
    · rcases step_entry hstep hsound.1 hi i with heq | ⟨-, hno⟩ | ⟨hop, hno, -, hhash⟩
      · rw [heq] at hr₁
        exact Or.inl hr₁
      · exact absurd (hr₁.symm.trans hno) (by decide)
      · refine Or.inr ⟨[], call, calls, s, s₁, rfl, rfl, hstep, hop, hno, hr₁, ?_⟩
        rw [run_ready hrun hrest hi₁ hr₁, hhash]
    · exact Or.inr (hmade.cons hstep)

/-- The parts of a run. -/
theorem run_append {pre post : List Call} (h : run p s (pre ++ post) = some s')
    {s₁ : IdentityStore b} (hpre : run p s pre = some s₁) : run p s₁ post = some s' := by
  induction pre generalizing s with
  | nil =>
    rw [← Option.some.inj hpre]
    exact h
  | cons call pre ih =>
    obtain ⟨t, hstep, hrun⟩ := run_cons hpre
    rw [List.cons_append, run, hstep, Option.bind_some] at h
    exact ih h hrun

theorem SoundRun.append {pre post : List Call} (h : SoundRun p s (pre ++ post))
    {s₁ : IdentityStore b} (hpre : run p s pre = some s₁) :
    SoundRun p s pre ∧ SoundRun p s₁ post := by
  induction pre generalizing s with
  | nil =>
    rw [← Option.some.inj hpre]
    exact ⟨trivial, h⟩
  | cons call pre ih =>
    obtain ⟨t, hstep, hrun⟩ := run_cons hpre
    refine ⟨⟨h.1, fun t' ht' => ?_⟩, (ih (h.2 t hstep) hrun).2⟩
    rw [hstep] at ht'
    obtain rfl := Option.some.inj ht'
    exact (ih (h.2 t hstep) hrun).1

end

/-- **The store is in order**: ids are unique, what is ready is in use, and
what is in use has an id. -/
structure StoreOk (s : IdentityStore b) : Prop where
  unique : ∀ i j, (s.entries i).used = true → (s.entries j).used = true →
    (s.entries i).id = (s.entries j).id → i = j
  ready_used : ∀ i, (s.entries i).ready = true → (s.entries i).used = true
  valid : ∀ i, (s.entries i).used = true → (s.entries i).id ≠ setInvalidEnclaveID

/-- **The identity store over all sound runs.** From the start on, the store is
in order; an entry that was ready at any point is as it was then; and every
entry that is ready was made so by a call of `EINIT_DATA` in the run, with the
digest of that call's code section. -/
theorem identityStore_of_soundRun (p : Platform b) (calls : List Call) (s : IdentityStore b)
    (h : run p (.reset b) calls = some s) (hsound : SoundRun p (.reset b) calls) :
    StoreOk s
      ∧ (∀ pre post s₁ i, calls = pre ++ post → run p (.reset b) pre = some s₁ →
        (s₁.entries i).ready = true → s.entries i = s₁.entries i)
      ∧ ∀ i, (s.entries i).ready = true →
        MadeReady p (.reset b) calls i (s.entries i).hash := by
  have hreset := IdentityStore.inv_reset b
  have hi := run_inv h hsound hreset
  refine ⟨⟨fun _ _ hi' hj hij => hi.unique hi' hj hij, hi.ready_used,
    fun _ hu => hi.id_ne_invalid hu⟩, ?_, ?_⟩
  · rintro pre post s₁ i rfl hpre hr
    obtain ⟨hsound₁, hsound₂⟩ := hsound.append hpre
    exact run_ready (run_append h hpre) hsound₂ (run_inv hpre hsound₁ hreset) hr
  · intro i hr
    rcases run_madeReady h hsound hreset hr with hstart | hmade
    · cases hstart
    · exact hmade

/-! ### A small enclave -/

/-- The digest of two zero bytes. -/
def digestOfTwo : HashVal := fun i =>
  BitVec.ofNat 8 ([0x96, 0xa2, 0x96, 0xd2, 0x24, 0xf2, 0x85, 0xc6, 0x7b, 0xee, 0x93, 0xc3, 0x0f,
    0x8a, 0x30, 0x91, 0x57, 0xf0, 0xda, 0xa3, 0x5d, 0xc5, 0xb8, 0x7e, 0x41, 0x0b, 0x78, 0x63,
    0x0a, 0x09, 0xcf, 0xc7].getD i.val 0)

/-- The digest of four zero bytes. -/
def digestOfFour : HashVal := fun i =>
  BitVec.ofNat 8 ([0xdf, 0x3f, 0x61, 0x98, 0x04, 0xa9, 0x2f, 0xdb, 0x40, 0x57, 0x19, 0x2d, 0xc4,
    0x3d, 0xd7, 0x48, 0xea, 0x77, 0x8a, 0xdc, 0x52, 0xbc, 0x49, 0x8c, 0xe8, 0x05, 0x24, 0xc0,
    0x14, 0xb8, 0x11, 0x19].getD i.val 0)

/-- The digest, as far as the sections below need it. -/
def zeroDigest (bytes : List Byte) : HashVal :=
  if bytes = [0, 0] then digestOfTwo else if bytes = [0, 0, 0, 0] then digestOfFour else fun _ => 0

/-- A library that makes this digest. -/
def zeroLib : Sha256Lib where
  State := List Byte
  init := []
  process := fun md bytes => md ++ bytes
  done := zeroDigest
  sha256 := zeroDigest
  computes := by
    intro chunks
    have hfold : chunks.foldl (fun md bytes => md ++ bytes) [] = [] ++ (chunks.map id).flatten :=
      List.foldl_append_eq_append
    rw [List.map_id, List.nil_append] at hfold
    exact congrArg _ hfold

/-- The hypervisor in the gigabyte below that of EL1. -/
def smallPlatform : Platform .release where
  fmt := fun _ _ => 0
  lib := zeroLib
  trusted := ⟨0x80000000, 0x40000000⟩
  smash := fun _ s => s

/-- A code section of `n` bytes at the start of EL1's memory, with no room for
a capability. -/
def codeOf (n : Fin 16) : Capability where
  tag := true
  base := 0xC0000000
  length := n.val
  address := 0xC0000000
  perms := ⟨true, false, true, false, false, false, false, true⟩
  otype := 0
  fits := fun _ => by
    show 0xC0000000 + n.val ≤ _
    omega

/-- A data section of sixteen bytes behind it. -/
def dataSection : Capability where
  tag := true
  base := 0xC0000010
  length := 16
  address := 0xC0000010
  perms := ⟨true, true, true, true, true, false, false, true⟩
  otype := 0
  fits := fun _ => by decide

/-- EL1 with two arguments and nothing else, and a memory of zeros. -/
def callWith (hvc : Hvc) (c0 c1 : Capability) : Call where
  hvc := hvc
  el1 :=
    { c := fun r => if r = 0 then c0 else if r = 1 then c1 else invalidCap
      sysReg := fun _ => invalidCap
      pccEL2 := invalidCap
      mem := ⟨fun _ => 0, fun _ => invalidCap⟩ }
  hash := ⟨false, fun _ => 0xAA⟩

/-- The store with one entry taken. -/
def oneTaken : IdentityStore .release := (IdentityStore.reset .release).initEntry.2

/-- The code section, sealed for the first enclave. -/
def sealedCodeOf (n : Fin 16) : Capability := cheriSeal (codeOf n) (identSeal rootCap 1)

/-- The call that makes the enclave of such a section. -/
def dataCall (n : Fin 16) : Call := callWith .einitData (sealedCodeOf n) dataSection

theorem unfinished_oneTaken (n : Fin 16) :
    oneTaken.getUnfinishedEntryID (cheriTypeGet (sealedCodeOf n)) = 1 := by
  revert n
  decide

/-- Nothing in memory overlaps, where there is nothing in memory. -/
theorem memSweep_dataCall (n : Fin 16) (code data : Capability) :
    memSweep (dataCall n).el1.mem code data memEL1NAtEL2N = some 0 := by
  have hlen : (cheriLengthGet memEL1NAtEL2N).toNat = 0x40000000 := by decide
  refine sweepLoop_of_forall (j := 0) (by rw [hlen, CAP_LEN]; omega) (fun k hk => ?_)
  rw [loadCap_memEL1NAtEL2N _ (by rw [hlen] at hk; exact hk)]
  rfl

theorem regSweep_dataCall (n : Fin 16) :
    regSweep (unsealedCode oneTaken (sealedCodeOf n)) dataSection (savedStack (dataCall n).el1.c)
      (dataCall n).el1 = 0 := by
  revert n
  decide +kernel

theorem length_unsealedCode (n : Fin 16) :
    (unsealedCode oneTaken (sealedCodeOf n)).length = n.val := by
  revert n
  decide

/-- A section with no room for a capability is not swept. -/
theorem codeCapSweep_dataCall (m : Memory) (n : Fin 16) :
    codeCapSweep m (unsealedCode oneTaken (sealedCodeOf n)) = some 0 := by
  unfold codeCapSweep
  rw [if_neg]
  rw [cheriLengthGet, length_unsealedCode, BitVec.toNat_ofNat, CAP_LEN]
  omega

theorem accepted_dataCall (n : Fin 16) : Accepted oneTaken (dataCall n) := by
  refine ⟨?_, ?_⟩
  · show oneTaken.getUnfinishedEntryID (cheriTypeGet (sealedCodeOf n)) ≠ _
    rw [unfinished_oneTaken]
    decide
  · have hc0 : (dataCall n).el1.c 0 = sealedCodeOf n := rfl
    have hc1 : (dataCall n).el1.c 1 = dataSection := rfl
    rw [hc0, hc1]
    exact sweep_of_parts (regSweep_dataCall n) (memSweep_dataCall n _ _) (codeCapSweep_dataCall _ n)

/-- The store after the first call. -/
theorem step_einitCode (code : Capability) :
    step smallPlatform (.reset .release) (callWith .einitCode code invalidCap) = some oneTaken := by
  show some (einitCode _ _).2 = _
  rw [einitCode_store]
  rfl

/-- The first entry. -/
def firstSlot : Fin Build.release.maxEntries := ⟨0, by decide⟩

theorem finishEntry_oneTaken (n : Fin 16) (hash : HashType) :
    oneTaken.finishEntry (cheriTypeGet (sealedCodeOf n)) hash
      = (0, oneTaken.set firstSlot ((oneTaken.entries firstSlot).finish hash.hash)) := by
  have hfirst : ∀ n : Fin 16, oneTaken.firstEntry
      (IdentityStore.unfinished (cheriTypeGet (sealedCodeOf n))) = some firstSlot := by decide
  unfold IdentityStore.finishEntry
  rw [hfirst n]

theorem storeCap_dataSection (m : Memory) (fmt : CapFormat) (id : IdType) :
    m.storeCap fmt dataSection dataSection.address (signEncSeal rootCap id)
      = some (m.writeCap fmt 0xC000001 (signEncSeal rootCap id)) := by
  unfold Memory.storeCap
  rw [if_pos ⟨rfl, by decide, rfl, by decide, by decide, fun _ => rfl, fun _ _ => rfl⟩]
  rfl

/-- **The second call finishes the entry**, with whatever there is for a
digest. -/
theorem step_dataCall {n : Fin 16} {hash : HashType}
    (h : generateHash zeroLib (dataCall n).el1.mem (dataCall n).hash
      (unsealedCode oneTaken (sealedCodeOf n)) = some hash) :
    step smallPlatform oneTaken (dataCall n)
      = some (oneTaken.set firstSlot ((oneTaken.entries firstSlot).finish hash.hash)) := by
  have hc0 : (dataCall n).el1.c 0 = sealedCodeOf n := rfl
  have hc1 : (dataCall n).el1.c 1 = dataSection := rfl
  have hreply := einitData_of_accepted (p := smallPlatform) (accepted_dataCall n) hash
    (by rw [hc0]; exact h) (by rw [hc0, finishEntry_oneTaken]; exact (by decide : (0 : ℤ) ≠ -1))
  rw [hc0, hc1, finishEntry_oneTaken, finishData, storeCap_dataSection, Option.map_some] at hreply
  have hop : (dataCall n).hvc = .einitData := rfl
  unfold step
  simp only [hop, hc0, hc1]
  rw [hreply, Option.map_some, Platform.afterWrite, if_neg (by decide)]

/-- Four bytes are hashed. -/
theorem generateHash_four :
    generateHash zeroLib (dataCall 4).el1.mem (dataCall 4).hash
      (unsealedCode oneTaken (sealedCodeOf 4)) = some ⟨true, digestOfFour⟩ := by
  have hload : loadBytes (dataCall 4).el1.mem (unsealedCode oneTaken (sealedCodeOf 4))
      ((unsealedCode oneTaken (sealedCodeOf 4)).address + BitVec.signExtend 64 (0 : BitVec 32))
        = some [0, 0, 0, 0] := by decide +kernel
  have hcond : BitVec.signExtend 64 (0 : BitVec 32)
        < cheriLengthGet (unsealedCode oneTaken (sealedCodeOf 4))
      - BitVec.ofNat 64 numBytes + 1 := by decide +kernel
  have hcond' : ¬ BitVec.signExtend 64 ((0 : BitVec 32) + BitVec.ofNat 32 numBytes)
      < cheriLengthGet (unsealedCode oneTaken (sealedCodeOf 4))
        - BitVec.ofNat 64 numBytes + 1 := by decide +kernel
  unfold generateHash
  rw [if_neg (by decide +kernel), hashLoop, if_pos hcond, hload]
  simp only
  rw [if_neg (by decide), hashLoop, if_neg hcond']
  rfl

/-- Two bytes are not. -/
theorem generateHash_two :
    generateHash zeroLib (dataCall 2).el1.mem (dataCall 2).hash
      (unsealedCode oneTaken (sealedCodeOf 2)) = some ⟨false, fun _ => 0xAA⟩ := by
  unfold generateHash
  rw [if_pos (by decide +kernel)]
  rfl

theorem run_dataCall {n : Fin 16} {hash : HashType}
    (h : generateHash zeroLib (dataCall n).el1.mem (dataCall n).hash
      (unsealedCode oneTaken (sealedCodeOf n)) = some hash) :
    run smallPlatform (.reset .release) [callWith .einitCode (codeOf n) invalidCap, dataCall n]
      = some (oneTaken.set firstSlot ((oneTaken.entries firstSlot).finish hash.hash)) := by
  rw [run, step_einitCode, Option.bind_some, run, step_dataCall h, Option.bind_some, run]

/-- An enclave of four bytes: its entry is ready, with the digest of its code
section. -/
theorem identityStore_of_four :
    ∃ s, run smallPlatform (.reset .release)
        [callWith .einitCode (codeOf 4) invalidCap, dataCall 4] = some s
      ∧ StoreOk s ∧ (s.entries firstSlot).ready = true
      ∧ (s.entries firstSlot).hash = digestOfFour
      ∧ MadeReady smallPlatform (.reset .release)
        [callWith .einitCode (codeOf 4) invalidCap, dataCall 4] firstSlot digestOfFour := by
  have hrun := run_dataCall generateHash_four
  obtain ⟨hok, -, hmade⟩ := identityStore_of_soundRun smallPlatform
    [callWith .einitCode (codeOf 4) invalidCap, dataCall 4] _ hrun (by
      refine ⟨Or.inl (by decide), fun s hs => ⟨fun _ => ⟨?_, ?_, ?_⟩, fun _ _ => trivial⟩⟩
      · decide +kernel
      · decide +kernel
      · decide)
  refine ⟨_, hrun, hok, ?_, ?_, ?_⟩
  · rw [IdentityStore.set_entries_self]
    rfl
  · rw [IdentityStore.set_entries_self]
    rfl
  · have h := hmade firstSlot (by rw [IdentityStore.set_entries_self]; rfl)
    rw [IdentityStore.set_entries_self] at h
    exact h

/-- **What is on the stack becomes the digest.** The entry of an enclave of two
bytes is ready, and no call made it so with the digest of its code section. -/
theorem identityStore_of_two_keeps_stack :
    ∃ s, run smallPlatform (.reset .release)
        [callWith .einitCode (codeOf 2) invalidCap, dataCall 2] = some s
      ∧ (s.entries firstSlot).ready = true
      ∧ (s.entries firstSlot).hash = (fun _ => 0xAA)
      ∧ ¬ MadeReady smallPlatform (.reset .release)
        [callWith .einitCode (codeOf 2) invalidCap, dataCall 2] firstSlot
        (s.entries firstSlot).hash := by
  have hrun := run_dataCall generateHash_two
  have hhash : ((oneTaken.set firstSlot ((oneTaken.entries firstSlot).finish fun _ => 0xAA)).entries
      firstSlot).hash = fun _ => 0xAA := by
    rw [IdentityStore.set_entries_self]
    rfl
  refine ⟨_, hrun, ?_, hhash, ?_⟩
  · rw [IdentityStore.set_entries_self]
    rfl
  · rw [hhash]
    rintro ⟨pre, call, post, s₁, s₂, hsplit, -, -, hop, -, -, hdigest⟩
    have hcall : call = dataCall 2 := by
      cases pre with
      | nil =>
        rw [List.nil_append, List.cons.injEq] at hsplit
        rw [← hsplit.1] at hop
        cases hop
      | cons c pre =>
        rw [List.cons_append, List.cons.injEq] at hsplit
        cases pre with
        | nil =>
          rw [List.nil_append, List.cons.injEq] at hsplit
          exact hsplit.2.1.symm
        | cons c' pre =>
          rw [List.cons_append, List.cons.injEq] at hsplit
          exact absurd hsplit.2.2 (by simp)
    rw [hcall] at hdigest
    have hfirst : (0xAA : Byte) = codeDigest smallPlatform (dataCall 2) ⟨0, by decide⟩ :=
      congrFun hdigest ⟨0, by decide⟩
    exact absurd hfirst (by decide +kernel)

end Morello
