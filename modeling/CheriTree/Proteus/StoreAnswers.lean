import CheriTree.Proteus.StoreService

/-!
# The answers of the store are those of an atomic one

An instruction that asks the identity store holds its request until the answer
comes, with one exception: an `EInitData` whose code capability is not tagged
or not sealed fails in the first cycle of its request, and the store may have
begun a search by then. Nobody waits for that search, and its end is an answer
like any other. An instruction that asks for an enclave or for a new entry
while it lasts takes it for its own; and an `EStoreId` for an object type of no
id is never answered, since the store fails on the channel of the other
requests.

In a run where neither happens (`Attest.Unhindered`) the composition of the
stage and the store gives every instruction the result of an atomic store
(`attest_replays_atomic`).
-/

namespace Proteus

variable {w : ℕ} {st : IdentityStore w} {s : Attest w}

/-! ## Searches nobody waits for -/

/-- **A store that can be searched**: it has an entry, and the entries in use
are under an id. -/
structure IdentityStore.Usable (st : IdentityStore w) : Prop where
  pos : 0 < st.entries.length
  valid : ∀ e ∈ st.entries, e.used = true → e.id.valid = true

theorem IdentityStore.usable_reset {numEnclaveIds numEntries : ℕ} (h : 0 < numEntries) :
    (IdentityStore.reset numEnclaveIds numEntries : IdentityStore w).Usable where
  pos := by
    show 0 < (List.replicate numEntries (Entry.empty : Entry w)).length
    rw [List.length_replicate]
    exact h
  valid e he hused := by
    rw [List.eq_of_mem_replicate he] at hused
    cases hused

/-- An entry written keeps the store usable. -/
theorem IdentityStore.Usable.set (h : st.Usable) {st' : IdentityStore w} {n : ℕ} {e : Entry w}
    (he : e.used = true → e.id.valid = true) (hst : st'.entries = st.entries.set n e) :
    st'.Usable where
  pos := by
    rw [hst, List.length_set]
    exact h.pos
  valid e' he' hused := by
    rw [hst] at he'
    obtain he' | rfl := List.mem_or_eq_of_mem_set he'
    · exact h.valid e' he' hused
    · exact he hused

/-- The walk of `initEntry` writes the first entry that is free. -/
theorem initWalk_eq_some {new : Entry w} {l l' : List (Entry w)}
    (h : IdentityStore.initWalk new l = some l') :
    ∃ n e, l[n]? = some e ∧ e.used = false ∧ l' = l.set n new := by
  induction l generalizing l' with
  | nil => cases h
  | cons b l ih =>
    rw [IdentityStore.initWalk] at h
    split at h
    · rename_i hfree
      exact ⟨0, b, rfl, by simpa using hfree, (Option.some.inj h).symm⟩
    · obtain ⟨l'', hl, rfl⟩ := Option.map_eq_some_iff.1 h
      obtain ⟨n, e, hn, he, rfl⟩ := ih hl
      exact ⟨n + 1, e, hn, he, rfl⟩

/-- The walk of `finishEntry` writes an entry that is in use, and keeps its
id. -/
theorem finishWalk_eq_some {eid : EnclaveId w} {hash : Digest} {l l' : List (Entry w)}
    (h : IdentityStore.finishWalk eid hash l = some l') :
    ∃ n e, l[n]? = some e ∧ e.used = true
      ∧ l' = l.set n { e with hash := hash, ready := true } := by
  induction l generalizing l' with
  | nil => cases h
  | cons b l ih =>
    rw [IdentityStore.finishWalk] at h
    split at h
    · split at h
      · rename_i hfree
        rw [Bool.and_eq_true] at hfree
        exact ⟨0, b, rfl, hfree.1, (Option.some.inj h).symm⟩
      · cases h
    · obtain ⟨l'', hl, rfl⟩ := Option.map_eq_some_iff.1 h
      obtain ⟨n, e, hn, he, rfl⟩ := ih hl
      exact ⟨n + 1, e, hn, he, rfl⟩

theorem IdentityStore.Usable.initEntry (h : st.Usable) : st.initEntry.2.Usable := by
  unfold IdentityStore.initEntry
  split
  · simp only
    split
    · obtain ⟨n, -, -, -, hn⟩ := initWalk_eq_some ‹_›
      exact h.set (fun _ => rfl) hn
    · exact h
  · exact h

theorem IdentityStore.Usable.finishEntry (h : st.Usable) (otype : ObjectType) (hash : Digest) :
    (st.finishEntry otype hash).2.Usable := by
  unfold IdentityStore.finishEntry
  simp only
  split
  · split
    · obtain ⟨n, e, he, -, hn⟩ := finishWalk_eq_some ‹_›
      refine h.set ?_ hn
      exact h.valid e (List.mem_of_getElem? he)
    · exact h
  · exact h

/-- **What is left of a search that was given up on**: it goes on without a
request, and finds nothing. -/
structure StoreUnit.Stale (u : StoreUnit w) : Prop where
  fsm : u.fsm = .getUnfinishedEntry
  lt : u.searchIdx < u.store.entries.length

/-- **A cycle of the store without a request.** -/
theorem StoreUnit.step_none {u : StoreUnit w} (hu : u.fsm = .idle ∨ u.Stale)
    (hst : u.store.Usable) :
    (u.step .none).1.store = u.store
      ∧ ((u.step .none).1.fsm = .idle ∨ (u.step .none).1.Stale)
      ∧ (u.fsm = .idle ∨ u.last = true → (u.step .none).1.fsm = .idle) := by
  obtain hidle | hstale := hu
  · have hstep : u.step .none = (u, ⟨none, none⟩) := by
      rw [StoreUnit.step, hidle]
      rfl
    rw [hstep]
    exact ⟨rfl, .inl hidle, fun _ => hidle⟩
  · have hne : ¬ (u.entry.used && !u.entry.ready && u.entry.id = EnclaveId.setInvalid) = true := by
      intro h
      simp only [Bool.and_eq_true, decide_eq_true_eq] at h
      have hmem : u.entry ∈ u.store.entries := by
        rw [StoreUnit.entry, List.getD_eq_getElem?_getD, List.getElem?_eq_getElem hstale.lt]
        exact List.getElem_mem _
      have hvalid := hst.valid _ hmem h.1.1
      rw [h.2] at hvalid
      cases hvalid
    have hstep : u.step .none = u.advance (u.push .setInvalid) := by
      rw [StoreUnit.step, hstale.fsm]
      exact if_neg hne
    rw [hstep, StoreUnit.advance]
    cases hlast : u.last with
    | true => exact ⟨rfl, .inl rfl, fun _ => rfl⟩
    | false =>
      have hlt := hstale.lt
      have hlast' : u.searchIdx + 1 ≠ u.store.entries.length := of_decide_eq_false hlast
      refine ⟨rfl, .inr ⟨hstale.fsm, ?_⟩, fun h => ?_⟩
      · show u.searchIdx + 1 < u.store.entries.length
        omega
      · rw [hstale.fsm] at h
        simp at h

/-! ## The phases of an instruction -/

namespace Attest

/-- No machine of the memory stage is at work. -/
structure Idle (s : Attest w) : Prop where
  initFsm : s.initFsm = .idle
  initDataFsm : s.initDataFsm = .IDLE
  storeIdFsm : s.storeIdFsm = .IDLE

/-- `initDataFsm` is at work, and no other. -/
structure InData (s : Attest w) (cs1 cs2 : Capability) (fsm : InitDataFsm) : Prop where
  op : s.op = some (.eInitData cs1 cs2)
  initFsm : s.initFsm = .idle
  initDataFsm : s.initDataFsm = fsm
  storeIdFsm : s.storeIdFsm = .IDLE

/-- `storeIdFsm` is at work, and no other. -/
structure InStoreId (s : Attest w) (rs1 : Word) (cs2 : Capability) (fsm : StoreIdFsm) : Prop where
  op : s.op = some (.eStoreId rs1 cs2)
  takesHash : cs2.takesHash = true
  initFsm : s.initFsm = .idle
  initDataFsm : s.initDataFsm = .IDLE
  storeIdFsm : s.storeIdFsm = fsm

/-- `initFsm` is at work, and no other. -/
structure InInit (s : Attest w) (cs1 : Capability) : Prop where
  op : s.op = some (.eInitCode cs1)
  initFsm : s.initFsm = .initEntry
  initDataFsm : s.initDataFsm = .IDLE
  storeIdFsm : s.storeIdFsm = .IDLE

/-- The enclave of the code capability is known. -/
structure Known (st : IdentityStore w) (s : Attest w) (cs1 : Capability) : Prop where
  tag : cs1.tag = true
  isSealed : cs1.isSealed = true
  eid : s.currentEid = st.getUnfinishedEntry cs1.otype
  valid : s.currentEid.valid = true

/-- **The request the memory stage makes**, and does not give up on at once. -/
inductive Makes (st : IdentityStore w) (s : Attest w) : Request → Prop
  | init (cs1 : Capability) (h : s.InInit cs1) : Makes st s .init
  | getUnfinished (cs1 cs2 : Capability) (h : s.InData cs1 cs2 .CHECK_CS1_VALID)
      (htag : cs1.tag = true) (hsealed : cs1.isSealed = true)
      (hunique : s.findings.unique = false) : Makes st s (.getUnfinished cs1.otype)
  | finish (cs1 cs2 : Capability) (h : s.InData cs1 cs2 .STORE_HASH) (hknown : s.Known st cs1)
      (hunique : s.findings.unique = true) : Makes st s (.finish cs1.otype s.findings.digest)
  | getIdHash (rs1 : Word) (cs2 : Capability) (h : s.InStoreId rs1 cs2 .GET_HASH)
      (hvalid : (EnclaveId.assignFromOtype rs1 : EnclaveId w).valid = true) :
      Makes st s (.getIdHash rs1)

/-- **Where an instruction is**, with the atomic store `st` before it. -/
inductive Phase (st : IdentityStore w) (s : Attest w) : Prop
  | waiting (h : s.Idle) (hstore : s.unit.store = st) (hunit : s.unit.fsm = .idle ∨ s.unit.Stale)
  | asking (r : Request) (h : s.Makes st r) (hserves : r.Serves st s.unit)
  | givingUp (cs1 cs2 : Capability) (h : s.InData cs1 cs2 .CHECK_CS1_VALID)
      (hbad : (!cs1.tag || !cs1.isSealed) = true) (hstore : s.unit.store = st)
      (hunit : s.unit.fsm = .idle)
  | sweeping (cs1 cs2 : Capability) (h : s.InData cs1 cs2 .CHECK_UNIQUENESS)
      (hknown : s.Known st cs1) (hunique : s.findings.unique = false) (hstore : s.unit.store = st)
      (hunit : s.unit.fsm = .idle)
  | hashing (cs1 cs2 : Capability) (h : s.InData cs1 cs2 .HASH_ID) (hknown : s.Known st cs1)
      (hunique : s.findings.unique = true) (hstore : s.unit.store = st)
      (hunit : s.unit.fsm = .idle)
  | sealing (cs1 cs2 : Capability) (h : s.InData cs1 cs2 .STORE_SEAL) (hknown : s.Known st cs1)
      (hunique : s.findings.unique = true)
      (hvalid : (st.finishEntry cs1.otype s.findings.digest).1.valid = true)
      (hstore : s.unit.store = (st.finishEntry cs1.otype s.findings.digest).2)
      (hunit : s.unit.fsm = .idle)
  | storing (rs1 : Word) (cs2 : Capability) (h : s.InStoreId rs1 cs2 .STORE_HASH)
      (hhash : st.getHash rs1 = some (some s.hash)) (hidx : s.hashIdx < numHashWords)
      (haddr : s.currentAddress = cs2.address + 4 * BitVec.ofNat 32 s.hashIdx)
      (hwritten : s.written = (List.range s.hashIdx).map
        fun idx => (cs2.address + 4 * BitVec.ofNat 32 idx, hashWord s.hash idx))
      (hstore : s.unit.store = st) (hunit : s.unit.fsm = .idle)

theorem Idle.io (h : s.Idle) : s.io = .none := by
  unfold Attest.io
  rw [h.initFsm, h.initDataFsm, h.storeIdFsm]
  rfl

theorem Makes.io {r : Request} (h : s.Makes st r) : s.io = r.io := by
  cases h with
  | init cs1 h =>
    unfold Attest.io
    rw [h.initFsm, h.initDataFsm, h.storeIdFsm]
    rfl
  | getUnfinished cs1 cs2 h =>
    unfold Attest.io Attest.otype
    rw [h.initFsm, h.initDataFsm, h.storeIdFsm, h.op]
    rfl
  | finish cs1 cs2 h =>
    unfold Attest.io Attest.otype
    rw [h.initFsm, h.initDataFsm, h.storeIdFsm, h.op]
    rfl
  | getIdHash rs1 cs2 h =>
    unfold Attest.io Attest.rs1Data
    rw [h.initFsm, h.initDataFsm, h.storeIdFsm, h.op]
    rfl

/-! ## A cycle -/

/-- An instruction starts: its machine leaves its first state. -/
def starting (s : Attest w) (i : AttestInput) : Bool :=
  !i.isStalled && s.initFsm = .idle && s.initDataFsm = .IDLE && s.storeIdFsm = .IDLE
    && match s.op with
      | none => false
      | some (.eStoreId _ cs2) => cs2.takesHash
      | some _ => true

/-- The object type an `EStoreId` asks for belongs to an id. -/
def asksForId (s : Attest w) : Bool :=
  match s.op with
  | some (.eStoreId rs1 _) => (EnclaveId.assignFromOtype rs1 : EnclaveId w).valid
  | _ => true

/-- **An instruction that starts finds the store at rest**, or at the last
entry of a search nobody waits for; and an `EStoreId` asks for an object type
that belongs to an id. -/
def Unhindered (s : Attest w) (i : AttestInput) : Prop :=
  s.starting i = true → (s.unit.fsm = .idle ∨ s.unit.last = true) ∧ s.asksForId = true

instance (s : Attest w) (i : AttestInput) : Decidable (s.Unhindered i) :=
  inferInstanceAs (Decidable (_ → _))

end Attest

/-- The atomic store after what a cycle has completed. -/
def IdentityStore.after (st : IdentityStore w) : Option Completed → IdentityStore w
  | none => st
  | some c => (st.atomic c.findings c.op).2

/-- What a cycle has completed has the result of the atomic store. -/
def IdentityStore.Agrees (st : IdentityStore w) : Option Completed → Prop
  | none => True
  | some c => c.result = (st.atomic c.findings c.op).1

namespace Attest

variable {i : AttestInput}

/-- **A cycle is right.** -/
structure StepRight (st : IdentityStore w) (s : Attest w) (i : AttestInput) : Prop where
  agrees : st.Agrees (attest.obs s i)
  usable : (st.after (attest.obs s i)).Usable
  phase : Phase (st.after (attest.obs s i)) (attest.next s i)

/-- An instruction that stays in the stage. -/
theorem next_of_act {t : Attest w} {op : StoreOp} (hact : s.act i = (t, none))
    (hop : t.op = some op) : attest.next s i = { t with unit := (s.unit.step s.io).1 } := by
  show { (s.act i).1 with
    op := if (s.act i).1.op.isNone then i.next else (s.act i).1.op
    unit := (s.unit.step s.io).1 } = _
  have hif : (if t.op.isNone then i.next else t.op) = t.op := by
    rw [hop]
    rfl
  rw [hact, hif]

theorem stepRight_stay {t : Attest w} {op : StoreOp} (hact : s.act i = (t, none))
    (hop : t.op = some op) (hst : st.Usable)
    (h : Phase st { t with unit := (s.unit.step s.io).1 }) : StepRight st s i := by
  have hobs : attest.obs s i = none := congrArg Prod.snd hact
  have hnext := next_of_act hact hop
  refine ⟨?_, ?_, ?_⟩
  · rw [hobs]
    trivial
  · rw [hobs]
    exact hst
  · rw [hobs, hnext]
    exact h

theorem stepRight_finish {t : Attest w} (op : StoreOp) {r : StoreResult}
    (hact : s.act i = t.finish op r) (hr : r = (st.atomic t.findings op).1)
    (hst : (st.atomic t.findings op).2.Usable)
    (hstore : (s.unit.step s.io).1.store = (st.atomic t.findings op).2)
    (hunit : (s.unit.step s.io).1.fsm = .idle ∨ (s.unit.step s.io).1.Stale) :
    StepRight st s i := by
  have hobs : attest.obs s i = some ⟨op, t.findings, r⟩ := congrArg Prod.snd hact
  have hnext : attest.next s i = { t with
      op := i.next
      initFsm := .idle
      initDataFsm := .IDLE
      storeIdFsm := .IDLE
      unit := (s.unit.step s.io).1 } := by
    show { (s.act i).1 with
      op := if (s.act i).1.op.isNone then i.next else (s.act i).1.op
      unit := (s.unit.step s.io).1 } = _
    rw [hact]
    rfl
  refine ⟨?_, ?_, ?_⟩
  · rw [hobs]
    exact hr
  · rw [hobs]
    exact hst
  · rw [hobs, hnext]
    exact .waiting ⟨rfl, rfl, rfl⟩ hstore hunit

theorem Makes.with_unit {r : Request} (h : s.Makes st r) (u : StoreUnit w) :
    Makes st { s with unit := u } r := by
  cases h with
  | init cs1 h => exact .init cs1 ⟨h.op, h.initFsm, h.initDataFsm, h.storeIdFsm⟩
  | getUnfinished cs1 cs2 h htag hsealed hunique =>
    exact .getUnfinished cs1 cs2 ⟨h.op, h.initFsm, h.initDataFsm, h.storeIdFsm⟩ htag hsealed hunique
  | finish cs1 cs2 h hknown hunique =>
    exact .finish (s := { s with unit := u }) cs1 cs2
      ⟨h.op, h.initFsm, h.initDataFsm, h.storeIdFsm⟩
      ⟨hknown.tag, hknown.isSealed, hknown.eid, hknown.valid⟩ hunique
  | getIdHash rs1 cs2 h hvalid =>
    exact .getIdHash rs1 cs2 ⟨h.op, h.takesHash, h.initFsm, h.initDataFsm, h.storeIdFsm⟩ hvalid

/-- A request under way keeps its instruction in the stage. -/
theorem Makes.op {r : Request} (h : s.Makes st r) : ∃ op, s.op = some op := by
  cases h with
  | init cs1 h => exact ⟨_, h.op⟩
  | getUnfinished cs1 cs2 h => exact ⟨_, h.op⟩
  | finish cs1 cs2 h => exact ⟨_, h.op⟩
  | getIdHash rs1 cs2 h => exact ⟨_, h.op⟩

/-- A request that is not answered in a cycle is made in the next. -/
theorem Makes.act_of_none {r : Request} (h : s.Makes st r) (hrsp : s.rsp = ⟨none, none⟩) :
    s.act i = (s, none) := by
  cases h with
  | init cs1 h => simp [act, h.op, actInit, h.initFsm, hrsp]
  | getUnfinished cs1 cs2 h htag hsealed =>
    simp [act, h.op, actInitData, h.initDataFsm, hrsp, htag, hsealed]
  | finish cs1 cs2 h => simp [act, h.op, actInitData, h.initDataFsm, hrsp]
  | getIdHash rs1 cs2 h => simp [act, h.op, actStoreId, h.storeIdFsm, hrsp]

theorem Makes.admitted {r : Request} (h : s.Makes st r) (otype : Word)
    (hr : r = .getIdHash otype) : r.admitted st = true := by
  cases h with
  | getIdHash rs1 cs2 h hvalid => exact hvalid
  | init _ _ => cases hr
  | getUnfinished _ _ _ _ _ _ => cases hr
  | finish _ _ _ _ _ => cases hr

/-- A request the store has not answered is made again. -/
theorem stepRight_asking_none {r : Request} (h : s.Makes st r) (hst : st.Usable)
    (hrsp : s.rsp = ⟨none, none⟩) (hserves : r.Serves st (s.unit.step s.io).1) :
    StepRight st s i := by
  obtain ⟨op, hop⟩ := h.op
  exact stepRight_stay (h.act_of_none hrsp) hop hst (.asking r (h.with_unit _) hserves)

/-- A request the store has answered: the instruction goes on with the answer
of the atomic store. -/
theorem stepRight_asking_some {r : Request} (h : s.Makes st r) (hst : st.Usable)
    (hans : StoreUnit.Answers st r (s.unit.step s.io)) : StepRight st s i := by
  have hrsp : s.rsp = (r.answer st).1 := hans.rsp
  have hidle := hans.idle
  have hstore := hans.store
  cases h with
  | init cs1 h =>
    have hres : s.rsp.result = some st.initEntry.1 := congrArg StoreRsp.result hrsp
    refine stepRight_finish (.eInitCode cs1) (t := s) (r := .cap (if st.initEntry.1.valid then
      cs1.sealWith st.initEntry.1.identSeal else .null)) ?_ rfl hst.initEntry hstore (.inl hidle)
    simp [act, h.op, actInit, h.initFsm, hres]
  | getUnfinished cs1 cs2 h htag hsealed hunique =>
    have hres : s.rsp.result = some (st.getUnfinishedEntry cs1.otype) :=
      congrArg StoreRsp.result hrsp
    cases hvalid : (st.getUnfinishedEntry cs1.otype).valid with
    | true =>
      refine stepRight_stay (t := { s with
          currentEid := st.getUnfinishedEntry cs1.otype
          initDataFsm := .CHECK_UNIQUENESS }) ?_ h.op hst ?_
      · simp [act, h.op, actInitData, h.initDataFsm, htag, hsealed, hres, hvalid]
      · exact .sweeping cs1 cs2 ⟨h.op, h.initFsm, rfl, h.storeIdFsm⟩
          ⟨htag, hsealed, rfl, hvalid⟩ hunique hstore hidle
    | false =>
      have hatomic : st.atomic s.findings (.eInitData cs1 cs2) = (.cap .null, st) := by
        simp [IdentityStore.atomic, htag, hsealed, hvalid]
      refine stepRight_finish (.eInitData cs1 cs2) (t := s) (r := .cap .null) ?_ ?_ ?_ ?_
        (.inl hidle)
      · simp [act, h.op, actInitData, h.initDataFsm, htag, hsealed, hres, hvalid]
      · rw [hatomic]
      · rw [hatomic]
        exact hst
      · rw [hatomic]
        exact hstore
  | finish cs1 cs2 h hknown hunique =>
    have hres : s.rsp.result = some (st.finishEntry cs1.otype s.findings.digest).1 :=
      congrArg StoreRsp.result hrsp
    have hatomic : st.atomic s.findings (.eInitData cs1 cs2)
        = (.cap (if (st.finishEntry cs1.otype s.findings.digest).1.valid then
            cs2.sealWith (st.getUnfinishedEntry cs1.otype).identSeal else .null),
          (st.finishEntry cs1.otype s.findings.digest).2) := by
      have hvalid := hknown.valid
      rw [hknown.eid] at hvalid
      simp [IdentityStore.atomic, hknown.tag, hknown.isSealed, hvalid, hunique]
    cases hvalid : (st.finishEntry cs1.otype s.findings.digest).1.valid with
    | true =>
      refine stepRight_stay (t := { s with initDataFsm := .STORE_SEAL }) ?_ h.op hst ?_
      · simp [act, h.op, actInitData, h.initDataFsm, hres, hvalid]
      · exact .sealing cs1 cs2 ⟨h.op, h.initFsm, rfl, h.storeIdFsm⟩
          ⟨hknown.tag, hknown.isSealed, hknown.eid, hknown.valid⟩ hunique hvalid hstore hidle
    | false =>
      rw [hvalid] at hatomic
      refine stepRight_finish (.eInitData cs1 cs2) (t := s) (r := .cap .null) ?_ ?_ ?_ ?_
        (.inl hidle)
      · simp [act, h.op, actInitData, h.initDataFsm, hres, hvalid]
      · rw [hatomic]
        rfl
      · rw [hatomic]
        exact hst.finishEntry _ _
      · rw [hatomic]
        exact hstore
  | getIdHash rs1 cs2 h hvalid =>
    have hres : s.rsp.hashResult = st.getHash rs1 := congrArg StoreRsp.hashResult hrsp
    cases hget : st.getHash rs1 with
    | none =>
      -- the store answers a request under an id
      simp [IdentityStore.getHash, hvalid] at hget
      split at hget <;> cases hget
    | some answer =>
      rw [hget] at hres
      cases answer with
      | some hash =>
        refine stepRight_stay (t := { s with
            hash := hash
            hashIdx := 0
            currentAddress := cs2.address
            written := []
            storeIdFsm := .STORE_HASH }) ?_ h.op hst ?_
        · simp [act, h.op, actStoreId, h.storeIdFsm, hres]
        · exact .storing rs1 cs2 ⟨h.op, h.takesHash, h.initFsm, h.initDataFsm, rfl⟩ hget
            (show 0 < numHashWords by decide) (by simp) rfl hstore hidle
      | none =>
        have hatomic : st.atomic s.findings (.eStoreId rs1 cs2) = (.stored 0 [], st) := by
          simp [IdentityStore.atomic, h.takesHash, hget]
        refine stepRight_finish (.eStoreId rs1 cs2) (t := s) (r := .stored 0 []) ?_ ?_ ?_ ?_
          (.inl hidle)
        · simp [act, h.op, actStoreId, h.storeIdFsm, hres]
        · rw [hatomic]
        · rw [hatomic]
          exact hst
        · rw [hatomic]
          exact hstore

theorem stepRight_asking {r : Request} (h : s.Makes st r) (hst : st.Usable)
    (hserves : r.Serves st s.unit) : StepRight st s i := by
  have hserved := hserves.served hst.pos h.admitted
  unfold StoreUnit.Served at hserved
  rw [← h.io] at hserved
  obtain ⟨hrsp, hgoes⟩ | hans := hserved
  · exact stepRight_asking_none h hst hrsp hgoes.serves
  · exact stepRight_asking_some h hst hans

/-- An `EInitData` that gives up may leave a search behind. -/
theorem stepRight_givingUp {cs1 cs2 : Capability} (h : s.InData cs1 cs2 .CHECK_CS1_VALID)
    (hbad : (!cs1.tag || !cs1.isSealed) = true) (hst : st.Usable) (hstore : s.unit.store = st)
    (hunit : s.unit.fsm = .idle) : StepRight st s i := by
  have hio : s.io = (Request.getUnfinished cs1.otype).io := by
    unfold Attest.io Attest.otype
    rw [h.initFsm, h.initDataFsm, h.storeIdFsm, h.op]
    rfl
  have hserved := StoreUnit.served_idle (r := .getUnfinished cs1.otype) hunit hstore hst.pos
    (fun otype hr => by cases hr)
  unfold StoreUnit.Served at hserved
  rw [← hio] at hserved
  have hatomic : st.atomic s.findings (.eInitData cs1 cs2) = (.cap .null, st) :=
    if_pos hbad
  have hact : s.act i = s.finish (.eInitData cs1 cs2) (.cap .null) := by
    simp only [act, h.op, actInitData, h.initDataFsm]
    exact if_pos hbad
  refine stepRight_finish (.eInitData cs1 cs2) hact (by rw [hatomic])
    (by rw [hatomic]; exact hst) ?_ ?_
  · rw [hatomic]
    obtain ⟨-, hgoes⟩ | hans := hserved
    · exact hgoes.serves.store
    · exact hans.store
  · obtain ⟨-, hgoes⟩ | hans := hserved
    · exact .inr ⟨hgoes.searching.fsm, hgoes.searching.lt⟩
    · exact .inl hans.idle

/-- An instruction that starts, waits to start, or has not come. -/
theorem stepRight_waiting (h : s.Idle) (hst : st.Usable) (hstore : s.unit.store = st)
    (hunit : s.unit.fsm = .idle ∨ s.unit.Stale) (hC : s.Unhindered i) : StepRight st s i := by
  have hst' := hst
  rw [← hstore] at hst'
  obtain ⟨hkeep, hrest, hend⟩ := StoreUnit.step_none hunit hst'
  rw [← h.io] at hkeep hrest hend
  rw [hstore] at hkeep
  cases hop : s.op with
  | none =>
    have hact : s.act i = (s, none) := by
      rw [act, hop]
    have hobs : attest.obs s i = none := congrArg Prod.snd hact
    refine ⟨by rw [hobs]; trivial, by rw [hobs]; exact hst, ?_⟩
    rw [hobs]
    refine .waiting ⟨?_, ?_, ?_⟩ hkeep hrest
    · exact (congrArg (fun x => x.1.initFsm) hact).trans h.initFsm
    · exact (congrArg (fun x => x.1.initDataFsm) hact).trans h.initDataFsm
    · exact (congrArg (fun x => x.1.storeIdFsm) hact).trans h.storeIdFsm
  | some op =>
    cases hstall : i.isStalled with
    | true =>
      -- a stalled instruction waits in the stage
      cases op with
      | eInitCode cs1 =>
        refine stepRight_stay (t := s) ?_ hop hst (.waiting ⟨h.initFsm, h.initDataFsm, h.storeIdFsm⟩
          hkeep hrest)
        simp [act, hop, actInit, h.initFsm, hstall]
      | eInitData cs1 cs2 =>
        refine stepRight_stay (t := { s with
            currentEid := .setInvalid
            findings := ⟨false, 0⟩
            initDataFsm := .IDLE }) ?_ hop hst (.waiting ⟨h.initFsm, rfl, h.storeIdFsm⟩ hkeep hrest)
        simp [act, hop, actInitData, h.initDataFsm, hstall]
      | eStoreId rs1 cs2 =>
        refine stepRight_stay (t := s) ?_ hop hst (.waiting ⟨h.initFsm, h.initDataFsm, h.storeIdFsm⟩
          hkeep hrest)
        simp [act, hop, actStoreId, h.storeIdFsm, hstall]
    | false =>
      cases op with
      | eInitCode cs1 =>
        have hstart : s.starting i = true := by
          simp [starting, hstall, h.initFsm, h.initDataFsm, h.storeIdFsm, hop]
        have hidle := hend (hC hstart).1
        refine stepRight_stay (t := { s with initFsm := .initEntry }) ?_ hop hst
          (.asking .init (.init cs1 ⟨hop, rfl, h.initDataFsm, h.storeIdFsm⟩) ⟨hkeep, .inl hidle⟩)
        simp [act, hop, actInit, h.initFsm, hstall]
      | eInitData cs1 cs2 =>
        have hstart : s.starting i = true := by
          simp [starting, hstall, h.initFsm, h.initDataFsm, h.storeIdFsm, hop]
        have hidle := hend (hC hstart).1
        refine stepRight_stay (t := { s with
            currentEid := .setInvalid
            findings := ⟨false, 0⟩
            initDataFsm := .CHECK_CS1_VALID }) ?_ hop hst ?_
        · simp [act, hop, actInitData, h.initDataFsm, hstall]
        · cases hbad : (!cs1.tag || !cs1.isSealed) with
          | true => exact .givingUp cs1 cs2 ⟨hop, h.initFsm, rfl, h.storeIdFsm⟩ hbad hkeep hidle
          | false =>
            simp only [Bool.or_eq_false_iff, Bool.not_eq_false'] at hbad
            exact .asking (.getUnfinished cs1.otype) (.getUnfinished cs1 cs2
              ⟨hop, h.initFsm, rfl, h.storeIdFsm⟩ hbad.1 hbad.2 rfl) ⟨hkeep, .inl hidle⟩
      | eStoreId rs1 cs2 =>
        cases htakes : cs2.takesHash with
        | true =>
          have hstart : s.starting i = true := by
            simp [starting, hstall, h.initFsm, h.initDataFsm, h.storeIdFsm, hop, htakes]
          obtain ⟨hfree, hid⟩ := hC hstart
          have hvalid : (EnclaveId.assignFromOtype rs1 : EnclaveId w).valid = true := by
            simpa [asksForId, hop] using hid
          refine stepRight_stay (t := { s with storeIdFsm := .GET_HASH }) ?_ hop hst
            (.asking (.getIdHash rs1) (.getIdHash rs1 cs2
              ⟨hop, htakes, h.initFsm, h.initDataFsm, rfl⟩ hvalid) ⟨hkeep, .inl (hend hfree)⟩)
          simp [act, hop, actStoreId, h.storeIdFsm, hstall, htakes]
        | false =>
          have hatomic : st.atomic s.findings (.eStoreId rs1 cs2) = (.stored 0 [], st) := by
            simp [IdentityStore.atomic, htakes]
          refine stepRight_finish (.eStoreId rs1 cs2) (t := s) (r := .stored 0 []) ?_
            (by rw [hatomic]) (by rw [hatomic]; exact hst) (by rw [hatomic]; exact hkeep) hrest
          simp [act, hop, actStoreId, h.storeIdFsm, hstall, htakes]

/-- A store at rest that nobody asks stays as it is. -/
theorem step_unit_of_idle (hunit : s.unit.fsm = .idle) (hio : s.io = .none) :
    (s.unit.step s.io).1 = s.unit := by
  rw [hio, StoreUnit.step, hunit]
  rfl

theorem InData.io_eq_none {cs1 cs2 : Capability} {fsm : InitDataFsm} (h : s.InData cs1 cs2 fsm)
    (hcheck : fsm ≠ .CHECK_CS1_VALID) (hhash : fsm ≠ .STORE_HASH) : s.io = .none := by
  unfold Attest.io
  rw [h.initFsm, h.initDataFsm, h.storeIdFsm]
  simp [hcheck, hhash, StoreIo.none]

theorem InStoreId.io_eq_none {rs1 : Word} {cs2 : Capability}
    (h : s.InStoreId rs1 cs2 .STORE_HASH) : s.io = .none := by
  unfold Attest.io
  rw [h.initFsm, h.initDataFsm, h.storeIdFsm]
  rfl

theorem stepRight_sweeping {cs1 cs2 : Capability} (h : s.InData cs1 cs2 .CHECK_UNIQUENESS)
    (hknown : s.Known st cs1) (hunique : s.findings.unique = false) (hst : st.Usable)
    (hstore : s.unit.store = st) (hunit : s.unit.fsm = .idle) : StepRight st s i := by
  have hu := step_unit_of_idle hunit (h.io_eq_none (by decide) (by decide))
  cases hsweep : i.sweep with
  | none =>
    refine stepRight_stay (t := s) ?_ h.op hst ?_
    · simp [act, h.op, actInitData, h.initDataFsm, hsweep]
    · rw [hu]
      exact .sweeping cs1 cs2 h hknown hunique hstore hunit
  | some unique =>
    cases unique with
    | true =>
      refine stepRight_stay (t := { s with
          findings := { s.findings with unique := true }
          initDataFsm := .HASH_ID }) ?_ h.op hst ?_
      · simp [act, h.op, actInitData, h.initDataFsm, hsweep]
      · rw [hu]
        exact .hashing cs1 cs2 ⟨h.op, h.initFsm, rfl, h.storeIdFsm⟩
          ⟨hknown.tag, hknown.isSealed, hknown.eid, hknown.valid⟩ rfl hstore hunit
    | false =>
      have hatomic : st.atomic s.findings (.eInitData cs1 cs2) = (.cap .null, st) := by
        simp [IdentityStore.atomic, hknown.tag, hknown.isSealed, hunique]
      refine stepRight_finish (.eInitData cs1 cs2) (t := s) (r := .cap .null) ?_
        (by rw [hatomic]) (by rw [hatomic]; exact hst) (by rw [hatomic, hu]; exact hstore)
        (by rw [hu]; exact .inl hunit)
      simp [act, h.op, actInitData, h.initDataFsm, hsweep]

theorem stepRight_hashing {cs1 cs2 : Capability} (h : s.InData cs1 cs2 .HASH_ID)
    (hknown : s.Known st cs1) (hunique : s.findings.unique = true) (hst : st.Usable)
    (hstore : s.unit.store = st) (hunit : s.unit.fsm = .idle) : StepRight st s i := by
  have hu := step_unit_of_idle hunit (h.io_eq_none (by decide) (by decide))
  cases hdigest : i.digest with
  | none =>
    refine stepRight_stay (t := s) ?_ h.op hst ?_
    · simp [act, h.op, actInitData, h.initDataFsm, hdigest]
    · rw [hu]
      exact .hashing cs1 cs2 h hknown hunique hstore hunit
  | some digest =>
    refine stepRight_stay (t := { s with
        findings := { s.findings with digest := digest }
        initDataFsm := .STORE_HASH }) ?_ h.op hst ?_
    · simp [act, h.op, actInitData, h.initDataFsm, hdigest]
    · rw [hu]
      exact .asking (.finish cs1.otype digest) (.finish (s := { s with
          findings := { s.findings with digest := digest }
          initDataFsm := .STORE_HASH
          unit := s.unit }) cs1 cs2 ⟨h.op, h.initFsm, rfl, h.storeIdFsm⟩
        ⟨hknown.tag, hknown.isSealed, hknown.eid, hknown.valid⟩ hunique) ⟨hstore, .inl hunit⟩

theorem stepRight_sealing {cs1 cs2 : Capability} (h : s.InData cs1 cs2 .STORE_SEAL)
    (hknown : s.Known st cs1) (hunique : s.findings.unique = true) (hst : st.Usable)
    (hvalid : (st.finishEntry cs1.otype s.findings.digest).1.valid = true)
    (hstore : s.unit.store = (st.finishEntry cs1.otype s.findings.digest).2)
    (hunit : s.unit.fsm = .idle) : StepRight st s i := by
  have hu := step_unit_of_idle hunit (h.io_eq_none (by decide) (by decide))
  cases hbus : i.bus with
  | false =>
    refine stepRight_stay (t := s) ?_ h.op hst ?_
    · simp [act, h.op, actInitData, h.initDataFsm, hbus]
    · rw [hu]
      exact .sealing cs1 cs2 h hknown hunique hvalid hstore hunit
  | true =>
    have hatomic : st.atomic s.findings (.eInitData cs1 cs2)
        = (.cap (cs2.sealWith s.currentEid.identSeal),
          (st.finishEntry cs1.otype s.findings.digest).2) := by
      have heid := hknown.valid
      rw [hknown.eid] at heid
      simp [IdentityStore.atomic, hknown.tag, hknown.isSealed, heid, hunique, hvalid, hknown.eid]
    refine stepRight_finish (.eInitData cs1 cs2) (t := s)
      (r := .cap (cs2.sealWith s.currentEid.identSeal)) ?_ (by rw [hatomic])
      (by rw [hatomic]; exact hst.finishEntry _ _) (by rw [hatomic, hu]; exact hstore)
      (by rw [hu]; exact .inl hunit)
    simp [act, h.op, actInitData, h.initDataFsm, hbus]

theorem stepRight_storing {rs1 : Word} {cs2 : Capability} (h : s.InStoreId rs1 cs2 .STORE_HASH)
    (hhash : st.getHash rs1 = some (some s.hash)) (hidx : s.hashIdx < numHashWords)
    (haddr : s.currentAddress = cs2.address + 4 * BitVec.ofNat 32 s.hashIdx)
    (hwritten : s.written = (List.range s.hashIdx).map
      fun idx => (cs2.address + 4 * BitVec.ofNat 32 idx, hashWord s.hash idx))
    (hst : st.Usable) (hstore : s.unit.store = st) (hunit : s.unit.fsm = .idle) :
    StepRight st s i := by
  have hu := step_unit_of_idle hunit h.io_eq_none
  have hwords : s.written ++ [(s.currentAddress, hashWord s.hash s.hashIdx)]
      = (List.range (s.hashIdx + 1)).map
        fun idx => (cs2.address + 4 * BitVec.ofNat 32 idx, hashWord s.hash idx) := by
    rw [List.range_succ, List.map_append, hwritten, haddr]
    rfl
  cases hbus : i.bus with
  | false =>
    refine stepRight_stay (t := s) ?_ h.op hst ?_
    · simp [act, h.op, actStoreId, h.storeIdFsm, hbus]
    · rw [hu]
      exact .storing rs1 cs2 h hhash hidx haddr hwritten hstore hunit
  | true =>
    by_cases hlast : s.hashIdx + 1 = numHashWords
    · have hatomic : st.atomic s.findings (.eStoreId rs1 cs2)
          = (.stored 1 (s.written ++ [(s.currentAddress, hashWord s.hash s.hashIdx)]), st) := by
        rw [hwords, hlast]
        simp [IdentityStore.atomic, h.takesHash, hhash, hashStores]
      refine stepRight_finish (.eStoreId rs1 cs2) (t := s)
        (r := .stored 1 (s.written ++ [(s.currentAddress, hashWord s.hash s.hashIdx)])) ?_
        (by rw [hatomic]) (by rw [hatomic]; exact hst) (by rw [hatomic, hu]; exact hstore)
        (by rw [hu]; exact .inl hunit)
      simp [act, h.op, actStoreId, h.storeIdFsm, hbus, hlast]
    · refine stepRight_stay (t := { s with
          hashIdx := s.hashIdx + 1
          currentAddress := s.currentAddress + 4
          written := s.written ++ [(s.currentAddress, hashWord s.hash s.hashIdx)] }) ?_ h.op hst ?_
      · simp [act, h.op, actStoreId, h.storeIdFsm, hbus, hlast]
      · rw [hu]
        refine .storing rs1 cs2 ⟨h.op, h.takesHash, h.initFsm, h.initDataFsm, h.storeIdFsm⟩ hhash
          ?_ ?_ hwords hstore hunit
        · show s.hashIdx + 1 < numHashWords
          omega
        · show s.currentAddress + 4 = cs2.address + 4 * BitVec.ofNat 32 (s.hashIdx + 1)
          rw [haddr, BitVec.ofNat_add, BitVec.mul_add, BitVec.add_assoc]
          rfl

/-- **Every cycle is right**, from a phase to a phase. -/
theorem Phase.stepRight (h : Phase st s) (hst : st.Usable) (hC : s.Unhindered i) :
    StepRight st s i := by
  cases h with
  | waiting h hstore hunit => exact stepRight_waiting h hst hstore hunit hC
  | asking r h hserves => exact stepRight_asking h hst hserves
  | givingUp cs1 cs2 h hbad hstore hunit => exact stepRight_givingUp h hbad hst hstore hunit
  | sweeping cs1 cs2 h hknown hunique hstore hunit =>
    exact stepRight_sweeping h hknown hunique hst hstore hunit
  | hashing cs1 cs2 h hknown hunique hstore hunit =>
    exact stepRight_hashing h hknown hunique hst hstore hunit
  | sealing cs1 cs2 h hknown hunique hvalid hstore hunit =>
    exact stepRight_sealing h hknown hunique hst hvalid hstore hunit
  | storing rs1 cs2 h hhash hidx haddr hwritten hstore hunit =>
    exact stepRight_storing h hhash hidx haddr hwritten hst hstore hunit

/-! ## Runs -/

/-- **The request whose answer the memory stage waits for**, if any. -/
def awaits (s : Attest w) : Option Request :=
  match s.op with
  | some (.eInitCode _) => if s.initFsm = .initEntry then some .init else none
  | some (.eInitData cs1 _) =>
    if s.initDataFsm = .CHECK_CS1_VALID ∧ cs1.tag = true ∧ cs1.isSealed = true then
      some (.getUnfinished cs1.otype)
    else if s.initDataFsm = .STORE_HASH then some (.finish cs1.otype s.findings.digest)
    else none
  | some (.eStoreId rs1 _) => if s.storeIdFsm = .GET_HASH then some (.getIdHash rs1) else none
  | none => none

theorem Makes.awaits {r : Request} (h : s.Makes st r) : s.awaits = some r := by
  cases h with
  | init cs1 h => simp [Attest.awaits, h.op, h.initFsm]
  | getUnfinished cs1 cs2 h htag hsealed =>
    simp [Attest.awaits, h.op, h.initDataFsm, htag, hsealed]
  | finish cs1 cs2 h => simp [Attest.awaits, h.op, h.initDataFsm]
  | getIdHash rs1 cs2 h => simp [Attest.awaits, h.op, h.storeIdFsm]

/-- A request that is waited for is served. -/
theorem Phase.serves (h : Phase st s) {r : Request} (hr : s.awaits = some r) :
    s.Makes st r ∧ r.Serves st s.unit := by
  have hdata : ∀ {cs1 cs2 : Capability} {fsm : InitDataFsm}, s.InData cs1 cs2 fsm →
      fsm ≠ .STORE_HASH → (fsm = .CHECK_CS1_VALID → (!cs1.tag || !cs1.isSealed) = true) →
      s.awaits = none := by
    intro cs1 cs2 fsm h hhash hcheck
    by_cases hfsm : fsm = .CHECK_CS1_VALID
    · have hbad := hcheck hfsm
      subst hfsm
      simp only [Bool.or_eq_true, Bool.not_eq_true'] at hbad
      obtain hbad | hbad := hbad
      · simp [Attest.awaits, h.op, h.initDataFsm, hbad]
      · simp [Attest.awaits, h.op, h.initDataFsm, hbad]
    · simp [Attest.awaits, h.op, h.initDataFsm, hfsm, hhash]
  cases h with
  | asking r' h hserves =>
    obtain rfl : r' = r := by
      rw [h.awaits] at hr
      exact Option.some.inj hr
    exact ⟨h, hserves⟩
  | waiting h =>
    have hnone : s.awaits = none := by
      unfold Attest.awaits
      split
      · simp [h.initFsm]
      · simp [h.initDataFsm]
      · simp [h.storeIdFsm]
      · rfl
    rw [hnone] at hr
    cases hr
  | givingUp cs1 cs2 h hbad =>
    rw [hdata h (by decide) (fun _ => hbad)] at hr
    cases hr
  | sweeping cs1 cs2 h =>
    rw [hdata h (by decide) (fun he => by cases he)] at hr
    cases hr
  | hashing cs1 cs2 h =>
    rw [hdata h (by decide) (fun he => by cases he)] at hr
    cases hr
  | sealing cs1 cs2 h =>
    rw [hdata h (by decide) (fun he => by cases he)] at hr
    cases hr
  | storing rs1 cs2 h =>
    have hnone : s.awaits = none := by
      simp [Attest.awaits, h.op, h.storeIdFsm]
    rw [hnone] at hr
    cases hr

/-- **A request is answered within a walk of the entries**, whatever the rest of
the core does. -/
theorem Makes.answered {r : Request} (hst : st.Usable) (n : ℕ) (h : s.Makes st r)
    (hserves : r.Serves st s.unit) (hleft : s.unit.left ≤ n) (js : List AttestInput)
    (hjs : n ≤ js.length) :
    ∃ k ≤ n, (attest.run s (js.take k)).awaits = some r
      ∧ (attest.run s (js.take k)).rsp = (r.answer st).1 := by
  -- induction on the bound: a cycle without an answer leaves a shorter search
  induction n generalizing s js with
  | zero =>
    refine ⟨0, le_refl 0, h.awaits, ?_⟩
    have hserved := hserves.served hst.pos h.admitted
    unfold StoreUnit.Served at hserved
    rw [← h.io] at hserved
    obtain ⟨-, hgoes⟩ | hans := hserved
    · have := hgoes.left_lt
      omega
    · exact hans.rsp
  | succ n ih =>
    have hserved := hserves.served hst.pos h.admitted
    unfold StoreUnit.Served at hserved
    rw [← h.io] at hserved
    obtain ⟨hrsp, hgoes⟩ | hans := hserved
    · cases js with
      | nil => simp at hjs
      | cons j js =>
        obtain ⟨op, hop⟩ := h.op
        have hnext : attest.next s j = { s with unit := (s.unit.step s.io).1 } :=
          next_of_act (h.act_of_none hrsp) hop
        have hleft' : (s.unit.step s.io).1.left ≤ n := by
          have := hgoes.left_lt
          omega
        obtain ⟨k, hk, hawaits, hans⟩ :=
          ih (h.with_unit (s.unit.step s.io).1) hgoes.serves hleft' js
          (by simpa using hjs)
        refine ⟨k + 1, by omega, ?_, ?_⟩
        · rw [List.take_succ_cons, SyncMachine.run_cons, hnext]
          exact hawaits
        · rw [List.take_succ_cons, SyncMachine.run_cons, hnext]
          exact hans
    · exact ⟨0, Nat.zero_le _, h.awaits, hans.rsp⟩

end Attest

/-- **Completed instructions have the results of the atomic store**, one after
the other, from a store to a store. -/
def IdentityStore.Replays (st : IdentityStore w) : List Completed → IdentityStore w → Prop
  | [], st' => st' = st
  | c :: cs, st' =>
    c.result = (st.atomic c.findings c.op).1 ∧ (st.atomic c.findings c.op).2.Replays cs st'

/-- **The store is in step with the memory stage**: the search under way is the
one for the request that is waited for, from the first entry on, what is
answered is the answer to that request, and an answer comes within a walk of
the entries. -/
structure Attest.InStep (st : IdentityStore w) (s : Attest w) : Prop where
  search : ∀ r, s.awaits = some r → s.unit.fsm = .idle ∨ s.unit.Searching r
  answer : ∀ r, s.awaits = some r → s.rsp = ⟨none, none⟩ ∨ s.rsp = (r.answer st).1
  answered : ∀ r, s.awaits = some r → ∀ js : List AttestInput,
    s.unit.store.entries.length ≤ js.length → ∃ k ≤ s.unit.store.entries.length,
      (attest.run s (js.take k)).awaits = some r
        ∧ (attest.run s (js.take k)).rsp = (r.answer st).1

theorem Attest.Phase.inStep (h : s.Phase st) (hst : st.Usable) : s.InStep st where
  search r hr := (h.serves hr).2.unit.imp id And.left
  answer r hr := by
    obtain ⟨hmakes, hserves⟩ := h.serves hr
    have hserved := hserves.served hst.pos hmakes.admitted
    unfold StoreUnit.Served at hserved
    rw [← hmakes.io] at hserved
    exact hserved.imp And.left StoreUnit.Answers.rsp
  answered r hr js hjs := by
    obtain ⟨hmakes, hserves⟩ := h.serves hr
    refine hmakes.answered hst _ hserves ?_ js hjs
    unfold StoreUnit.left
    split
    · exact le_refl _
    · omega

theorem replays_of_phase (h : s.Phase st) (hst : st.Usable) (is : List AttestInput)
    (hC : attest.Along Attest.Unhindered s is) :
    ∃ st', st.Replays ((attest.observe s is).filterMap id) st' ∧ st'.Usable
      ∧ (attest.run s is).Phase st' := by
  induction is generalizing s st with
  | nil => exact ⟨st, rfl, hst, h⟩
  | cons i is ih =>
    have hstep := h.stepRight hst hC.1
    obtain ⟨st', hrep, hst', hphase⟩ := ih hstep.phase hstep.usable hC.2
    refine ⟨st', ?_, hst', hphase⟩
    rw [SyncMachine.observe_cons]
    have hagrees := hstep.agrees
    cases hobs : attest.obs s i with
    | none =>
      rw [hobs] at hrep
      exact hrep
    | some c =>
      rw [hobs] at hrep hagrees
      exact ⟨hagrees, hrep⟩

/-- **The composition answers every instruction as the atomic store does**, in
every run whose instructions start unhindered. -/
theorem attest_replays_atomic (numEnclaveIds numEntries : ℕ) (hpos : 0 < numEntries)
    (is : List AttestInput)
    (hC : attest.Along Attest.Unhindered (Attest.reset numEnclaveIds numEntries : Attest w) is) :
    ∃ st : IdentityStore w, (IdentityStore.reset numEnclaveIds numEntries).Replays
        ((attest.observe (Attest.reset numEnclaveIds numEntries : Attest w) is).filterMap id) st
      ∧ (attest.run (Attest.reset numEnclaveIds numEntries) is).InStep st := by
  have hphase : (Attest.reset numEnclaveIds numEntries : Attest w).Phase
      (IdentityStore.reset numEnclaveIds numEntries) :=
    .waiting ⟨rfl, rfl, rfl⟩ rfl (.inl rfl)
  obtain ⟨st, hrep, hst, hphase'⟩ :=
    replays_of_phase hphase (IdentityStore.usable_reset hpos) is hC
  exact ⟨st, hrep, hphase'.inStep hst⟩

/-- A cycle in which nothing else happens. -/
def quiet : AttestInput := ⟨none, false, none, none, false⟩

/-- A code section. -/
def someCode : Capability :=
  { Capability.null with
    tag := true
    base := 0x80001000
    length := 0x100 }

/-- What the core has completed, in its configuration, when the stage is given
these inputs. -/
def completedFrom (is : List AttestInput) : List Completed :=
  (attest.observe (Attest.reset 256 32 : Attest 8) is).filterMap id

/-- A data section, and a buffer for a digest. -/
def someData : Capability := { someCode with base := 0x80002000 }

def someBuffer : Capability :=
  { someCode with
    base := 0x80003000
    length := 32
    perms := .allowAll }

/-- **An enclave from its code to its attestation**, after reset, with units that
all answer at once. -/
def oneLife : List AttestInput :=
  [.eInitCode someCode, .eInitData (someCode.sealWith 2) someData, .eStoreId 1 someBuffer].flatMap
    fun op => ⟨some op, false, some true, some 7, true⟩
      :: List.replicate 12 ⟨none, false, some true, some 7, true⟩

/-- It gets the identity seal of the first enclave, its data section is accepted
for that, and its digest is stored. -/
theorem oneLife_replays :
    (completedFrom oneLife).map Completed.result
        = [.cap (someCode.sealWith 2), .cap (someData.sealWith 2),
          .stored 1 (hashStores someBuffer.address 7)]
      ∧ ∃ st : IdentityStore 8,
        (IdentityStore.reset 256 32).Replays (completedFrom oneLife) st := by
  refine ⟨by decide +kernel, ?_⟩
  obtain ⟨st, h, -⟩ := attest_replays_atomic (w := 8) 256 32 (by decide) oneLife
    (by decide +kernel)
  exact ⟨st, h⟩

/-- An `EInitCode` after an `EInitData` whose code capability has lost its tag: the
stage gives up, and the store searches on. -/
def initCodeAfterUntagged : List AttestInput :=
  { quiet with
    next := some (.eInitData { someCode.sealWith 2 with tag := false } someCode) }
    :: quiet :: { quiet with next := some (.eInitCode someCode) } :: List.replicate 40 quiet

/-- The end of that search is taken for the answer of the `EInitCode`, which
fails in an empty store. -/
theorem initCodeAfterUntagged_fails :
    ¬ ∃ st : IdentityStore 8,
      (IdentityStore.reset 256 32).Replays (completedFrom initCodeAfterUntagged) st := by
  have hdone : completedFrom initCodeAfterUntagged
      = [⟨.eInitData { someCode.sealWith 2 with tag := false } someCode, ⟨false, 0⟩, .cap .null⟩,
        ⟨.eInitCode someCode, ⟨false, 0⟩, .cap .null⟩] := by
    decide +kernel
  rintro ⟨st, h⟩
  rw [hdone] at h
  have hwrong : StoreResult.cap .null
      = ((IdentityStore.reset 256 32 : IdentityStore 8).atomic ⟨false, 0⟩
        (.eInitCode someCode)).1 :=
    h.2.1
  exact absurd hwrong (by decide +kernel)

end Proteus
