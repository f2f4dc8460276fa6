import CheriTree.Proteus.StoreAnswers

/-!
# Who waits for the identity store, and for how long

A request is held until its answer comes, on one of two channels: a digest on
the channel of the digests, everything else on the first one. The store answers
on the channel of the search it has made; a request it does not search for, for
want of an id, fails on the first channel whoever has made it.

So every request is answered within two walks of the entries (one may be the
end of a search nobody waits for) but one: an `EStoreId` for an object type of
no id, which listens to the channel of the digests, where nothing is ever
driven for it (`StoreUnit.not_heard`). What the composition can be in is told by
`Wired`; that it is all that can be reached is one lemma (`Wired.next`).
-/

namespace Proteus

variable {w : ℕ}

/-! ## One cycle of the store -/

/-- **The answer is heard**: it is on the channel the request listens to. -/
def Request.heardIn (r : Request) (rsp : StoreRsp w) : Bool :=
  match r with
  | .getIdHash _ => rsp.hashResult.isSome
  | _ => rsp.result.isSome

/-- **What the store does in a cycle**, whatever is asked. -/
inductive StoreUnit.Moves (u : StoreUnit w) (io : StoreIo w) (x : StoreUnit w × StoreRsp w) :
    Prop
  /-- Nothing is asked. -/
  | rest (hidle : u.fsm = .idle) (hx : x = (u, ⟨none, none⟩))
  /-- A search begins. -/
  | enter (fsm : SearchFsm) (hidle : u.fsm = .idle) (hx : x = u.enter fsm)
      (hhash : fsm = .getHash → io.getIdHash = true ∧ io.eid.valid = true)
  /-- The search goes on. -/
  | advance (hfsm : u.fsm ≠ .idle) (hlast : u.searchIdx + 1 ≠ u.store.entries.length)
      (hx : x = ({ u with searchIdx := u.searchIdx + 1 }, ⟨none, none⟩))
  /-- An answer, on the channel of the search. -/
  | answer (hidle : x.1.fsm = .idle)
      (hlen : x.1.store.entries.length = u.store.entries.length)
      (hhash : u.fsm = .getHash → x.2.hashResult.isSome = true)
      (hresult : u.fsm ≠ .getHash → x.2.result.isSome = true ∧ x.2.hashResult = none)

namespace StoreUnit

variable {u : StoreUnit w} {io : StoreIo w}

theorem moves_push (id : EnclaveId w) (hfsm : u.fsm ≠ .getHash) : u.Moves io (u.push id) :=
  .answer rfl rfl (fun h => absurd h hfsm) (fun _ => ⟨rfl, rfl⟩)

theorem moves_pushHash (hash : Option Digest) (hfsm : u.fsm = .getHash) :
    u.Moves io (u.pushHash hash) :=
  .answer rfl rfl (fun _ => rfl) (fun h => absurd hfsm h)

theorem moves_advance {atEnd : StoreUnit w × StoreRsp w} (hfsm : u.fsm ≠ .idle)
    (hend : u.Moves io atEnd) : u.Moves io (u.advance atEnd) := by
  unfold advance last
  by_cases hlast : u.searchIdx + 1 = u.store.entries.length
  · rw [if_pos (decide_eq_true hlast)]
    exact hend
  · rw [if_neg (by rw [decide_eq_false hlast]; exact Bool.false_ne_true)]
    exact .advance hfsm hlast rfl

theorem moves_stepIdle (hidle : u.fsm = .idle) : u.Moves io (u.stepIdle io) := by
  have hne : u.fsm ≠ .getHash := by
    rw [hidle]
    decide
  unfold stepIdle
  split
  · split
    · exact .enter .initEntry hidle rfl (fun h => by cases h)
    · exact moves_push _ hne
  · split
    · split
      · exact .enter .getUnfinishedEntry hidle rfl (fun h => by cases h)
      · exact moves_push _ hne
    · split
      · split
        · exact .enter .finishEntry hidle rfl (fun h => by cases h)
        · exact moves_push _ hne
      · split
        · rename_i hhash
          split
          · rename_i hvalid
            exact .enter .getHash hidle rfl (fun _ => ⟨hhash, hvalid⟩)
          · exact moves_push _ hne
        · exact .rest hidle rfl

/-- **One cycle of the store.** -/
theorem moves_step (u : StoreUnit w) (io : StoreIo w) : u.Moves io (u.step io) := by
  unfold step
  split
  · rename_i hf
    exact moves_stepIdle hf
  · rename_i hf
    have hne : u.fsm ≠ .getHash := by
      rw [hf]
      decide
    unfold stepInitEntry
    split
    · refine .answer rfl ?_ (fun h => absurd h hne) (fun _ => ⟨rfl, rfl⟩)
      exact List.length_set
    · exact moves_advance (by rw [hf]; decide) (moves_push _ hne)
  · rename_i hf
    have hne : u.fsm ≠ .getHash := by
      rw [hf]
      decide
    unfold stepGetUnfinishedEntry
    split
    · exact moves_push _ hne
    · exact moves_advance (by rw [hf]; decide) (moves_push _ hne)
  · rename_i hf
    have hne : u.fsm ≠ .getHash := by
      rw [hf]
      decide
    unfold stepFinishEntry
    split
    · split
      · refine .answer rfl ?_ (fun h => absurd h hne) (fun _ => ⟨rfl, rfl⟩)
        exact List.length_set
      · exact moves_push _ hne
    · exact moves_advance (by rw [hf]; decide) (moves_push _ hne)
  · rename_i hf
    unfold stepGetHash
    split
    · split
      · exact moves_pushHash _ hf
      · exact moves_pushHash _ hf
    · exact moves_advance (by rw [hf]; decide) (moves_pushHash _ hf)

/-- The table keeps its entries. -/
theorem length_step (u : StoreUnit w) (io : StoreIo w) :
    (u.step io).1.store.entries.length = u.store.entries.length := by
  cases u.moves_step io with
  | rest hidle hx => rw [hx]
  | enter fsm hidle hx hhash =>
    rw [hx]
    rfl
  | advance hfsm hlast hx => rw [hx]
  | answer hidle hlen hhash hresult => exact hlen

/-- A search is at an entry. -/
def AtEntry (u : StoreUnit w) : Prop := u.fsm = .idle ∨ u.searchIdx < u.store.entries.length

theorem AtEntry.step (h : u.AtEntry) (hpos : 0 < u.store.entries.length) (io : StoreIo w) :
    (u.step io).1.AtEntry := by
  cases u.moves_step io with
  | rest hidle hx =>
    rw [hx]
    exact Or.inl hidle
  | enter fsm hidle hx hhash =>
    rw [hx]
    exact Or.inr hpos
  | advance hfsm hlast hx =>
    rw [hx]
    have hlt := h.resolve_left hfsm
    refine Or.inr ?_
    show u.searchIdx + 1 < u.store.entries.length
    omega
  | answer hidle hlen hhash hresult => exact Or.inl hidle

/-- A search for a digest has been asked for, or goes on. -/
theorem getHash_of_step (h : (u.step io).1.fsm = .getHash) :
    (u.step io).2 = ⟨none, none⟩
      ∧ (u.fsm = .getHash ∨ u.fsm = .idle ∧ io.getIdHash = true ∧ io.eid.valid = true) := by
  cases u.moves_step io with
  | rest hidle hx =>
    rw [hx] at h
    exact absurd (hidle.symm.trans h) (by decide)
  | enter fsm hidle hx hhash =>
    rw [hx] at h ⊢
    exact ⟨rfl, Or.inr ⟨hidle, hhash h⟩⟩
  | advance hfsm hlast hx =>
    rw [hx] at h ⊢
    exact ⟨rfl, Or.inl h⟩
  | answer hidle hlen hhash hresult => exact absurd (hidle.symm.trans h) (by decide)

/-! ## One cycle of a request -/

variable {r : Request}

/-- **The most cycles until a request is answered**: a walk of the entries, and
what is left of another search before it. -/
def cyclesTo (r : Request) (u : StoreUnit w) : ℕ :=
  if u.fsm = .idle then u.store.entries.length
  else if u.fsm = r.fsm then u.store.entries.length - 1 - u.searchIdx
  else u.store.entries.length + 1 + (u.store.entries.length - 1 - u.searchIdx)

theorem cyclesTo_le (r : Request) (hpos : 0 < u.store.entries.length) :
    cyclesTo r u ≤ 2 * u.store.entries.length := by
  unfold cyclesTo
  split
  · omega
  · split
    · omega
    · omega

theorem fsm_ne_idle (r : Request) : r.fsm ≠ .idle := by
  cases r <;> simp [Request.fsm]

/-- An answer of the search for a request is heard. -/
theorem heardIn_of_fsm {rsp : StoreRsp w} (hfsm : u.fsm = r.fsm)
    (hhash : u.fsm = .getHash → rsp.hashResult.isSome = true)
    (hresult : u.fsm ≠ .getHash → rsp.result.isSome = true) : r.heardIn rsp = true := by
  rw [hfsm] at hhash hresult
  cases r with
  | getIdHash rs1 => exact hhash rfl
  | init => exact hresult (fun h => by cases h)
  | getUnfinished otype => exact hresult (fun h => by cases h)
  | finish otype hash => exact hresult (fun h => by cases h)

/-- **A request is heard, or a cycle nearer to it**, unless it is for a digest
under no id. -/
theorem heard_or_closer (hat : u.AtEntry) (hpos : 0 < u.store.entries.length)
    (hadm : ∀ rs1, r = .getIdHash rs1 → r.admitted u.store = true) :
    r.heardIn (u.step r.io).2 = true ∨ cyclesTo r (u.step r.io).1 < cyclesTo r u := by
  by_cases hidle : u.fsm = .idle
  · rcases step_idle (r := r) hidle with ⟨henter, -⟩ | ⟨hpush, hno⟩
    · right
      rw [henter]
      show (if r.fsm = .idle then u.store.entries.length
        else if r.fsm = r.fsm then u.store.entries.length - 1 - 0 else _) < cyclesTo r u
      rw [if_neg (fsm_ne_idle r), if_pos rfl, cyclesTo, if_pos hidle]
      omega
    · left
      rw [hpush]
      cases r with
      | getIdHash rs1 =>
        rw [hadm rs1 rfl] at hno
        cases hno
      | init => rfl
      | getUnfinished otype => rfl
      | finish otype hash => rfl
  · have hlt := hat.resolve_left hidle
    cases u.moves_step r.io with
    | rest hrest => exact absurd hrest hidle
    | enter fsm hrest => exact absurd hrest hidle
    | advance hfsm hlast hx =>
      right
      rw [hx]
      unfold cyclesTo
      rw [if_neg hidle, if_neg hidle]
      show (if u.fsm = r.fsm then u.store.entries.length - 1 - (u.searchIdx + 1)
        else u.store.entries.length + 1 + (u.store.entries.length - 1 - (u.searchIdx + 1))) < _
      split
      · omega
      · omega
    | answer hrest hlen hhash hresult =>
      by_cases hfsm : u.fsm = r.fsm
      · exact Or.inl (heardIn_of_fsm hfsm hhash (fun h => (hresult h).1))
      · right
        rw [cyclesTo, if_pos hrest, hlen, cyclesTo, if_neg hidle, if_neg hfsm]
        omega

/-- **A request for a digest under no id is not heard**, in whatever search the
store is, if it is not one for a digest; and no such search begins. -/
theorem not_heard {rs1 : Word} (hfsm : u.fsm ≠ .getHash)
    (hno : (EnclaveId.assignFromOtype rs1 : EnclaveId w).valid = false) :
    (u.step (Request.getIdHash rs1).io).2.hashResult = none
      ∧ (u.step (Request.getIdHash rs1).io).1.fsm ≠ .getHash := by
  constructor
  · cases u.moves_step (Request.getIdHash rs1).io with
    | rest hidle hx => rw [hx]
    | enter fsm hidle hx hhash =>
      rw [hx]
      rfl
    | advance hne hlast hx => rw [hx]
    | answer hidle hlen hhash hresult => exact (hresult hfsm).2
  · intro h
    rcases (getHash_of_step h).2 with hf | ⟨-, -, hvalid⟩
    · exact hfsm hf
    · have hvalid' : (EnclaveId.assignFromOtype rs1 : EnclaveId w).valid = true := hvalid
      rw [hno] at hvalid'
      cases hvalid'

end StoreUnit

/-! ## What can be reached -/

namespace Attest

variable {s : Attest w} {r : Request} {i : AttestInput}

/-- **The stage is wired right**: a machine that has left its first state works
for the instruction in the stage. -/
structure StageWired (s : Attest w) : Prop where
  init : s.initFsm = .idle ∨ ∃ cs1, s.op = some (.eInitCode cs1)
  data : s.initDataFsm = .IDLE ∨ ∃ cs1 cs2, s.op = some (.eInitData cs1 cs2)
  storeId : s.storeIdFsm = .IDLE ∨ ∃ rs1 cs2, s.op = some (.eStoreId rs1 cs2)

/-- **What the composition can be in**: besides, the store is at an entry when
it searches, and searches for a digest only for a request under an id. -/
structure Wired (s : Attest w) : Prop where
  stage : s.StageWired
  pos : 0 < s.unit.store.entries.length
  atEntry : s.unit.AtEntry
  getHash : s.unit.fsm = .getHash → ∃ rs1, s.awaits = some (.getIdHash rs1)
    ∧ (EnclaveId.assignFromOtype rs1 : EnclaveId w).valid = true

/-- The request that is waited for is the one that is made. -/
theorem StageWired.io_eq (h : s.StageWired) (hr : s.awaits = some r) : s.io = r.io := by
  unfold awaits at hr
  split at hr
  · rename_i cs1 hop
    have hdata : s.initDataFsm = .IDLE := h.data.resolve_right (by simp [hop])
    have hstore : s.storeIdFsm = .IDLE := h.storeId.resolve_right (by simp [hop])
    split at hr
    · rename_i hf
      obtain rfl := Option.some.inj hr
      rw [Attest.io, hf, hdata, hstore]
      rfl
    · cases hr
  · rename_i cs1 cs2 hop
    have hinit : s.initFsm = .idle := h.init.resolve_right (by simp [hop])
    have hstore : s.storeIdFsm = .IDLE := h.storeId.resolve_right (by simp [hop])
    split at hr
    · rename_i hf
      obtain rfl := Option.some.inj hr
      rw [Attest.io, Attest.otype, hop, hf.1, hinit, hstore]
      rfl
    · split at hr
      · rename_i hf
        obtain rfl := Option.some.inj hr
        rw [Attest.io, Attest.otype, hop, hf, hinit, hstore]
        rfl
      · cases hr
  · rename_i rs1 cs2 hop
    have hinit : s.initFsm = .idle := h.init.resolve_right (by simp [hop])
    have hdata : s.initDataFsm = .IDLE := h.data.resolve_right (by simp [hop])
    split at hr
    · rename_i hf
      obtain rfl := Option.some.inj hr
      rw [Attest.io, Attest.rs1Data, hop, hf, hinit, hdata]
      rfl
    · cases hr
  · cases hr

/-- An answer that is not heard changes nothing in the stage. -/
theorem act_of_not_heard (hr : s.awaits = some r) (hno : r.heardIn s.rsp = false) :
    s.act i = (s, none) := by
  unfold awaits at hr
  split at hr
  · rename_i cs1 hop
    split at hr
    · rename_i hf
      obtain rfl := Option.some.inj hr
      have hres : s.rsp.result = none := by simpa [Request.heardIn] using hno
      simp [act, hop, actInit, hf, hres]
    · cases hr
  · rename_i cs1 cs2 hop
    split at hr
    · rename_i hf
      obtain rfl := Option.some.inj hr
      have hres : s.rsp.result = none := by simpa [Request.heardIn] using hno
      simp [act, hop, actInitData, hf.1, hf.2.1, hf.2.2, hres]
    · split at hr
      · rename_i hf
        obtain rfl := Option.some.inj hr
        have hres : s.rsp.result = none := by simpa [Request.heardIn] using hno
        simp [act, hop, actInitData, hf, hres]
      · cases hr
  · rename_i rs1 cs2 hop
    split at hr
    · rename_i hf
      obtain rfl := Option.some.inj hr
      have hres : s.rsp.hashResult = none := by simpa [Request.heardIn] using hno
      simp [act, hop, actStoreId, hf, hres]
    · cases hr
  · cases hr

/-- A request that is waited for has its instruction in the stage. -/
theorem op_of_awaits (hr : s.awaits = some r) : ∃ op, s.op = some op := by
  cases hop : s.op with
  | some op => exact ⟨op, rfl⟩
  | none =>
    unfold awaits at hr
    rw [hop] at hr
    cases hr

/-- **A cycle in which the answer is not heard**: only the store moves. -/
theorem next_of_not_heard (hr : s.awaits = some r) (hno : r.heardIn s.rsp = false) :
    attest.next s i = { s with unit := (s.unit.step s.io).1 } := by
  obtain ⟨op, hop⟩ := op_of_awaits hr
  exact next_of_act (act_of_not_heard hr hno) hop

theorem idle_finish (s : Attest w) (op : StoreOp) (result : StoreResult) :
    (s.finish op result).1.op = none ∧ (s.finish op result).1.Idle := ⟨rfl, rfl, rfl, rfl⟩

/-- What the stage does keeps it wired: the instruction stays, with its own
machine moved, or leaves with all machines at rest. -/
theorem StageWired.act (h : s.StageWired) (i : AttestInput) :
    (s.act i).1.op = s.op ∧ (s.act i).1.StageWired
      ∨ (s.act i).1.op = none ∧ (s.act i).1.Idle := by
  unfold Attest.act
  split
  · exact Or.inl ⟨rfl, h⟩
  · rename_i cs1 hop
    unfold actInit
    split
    · left
      simp only
      split
      · exact ⟨rfl, h⟩
      · exact ⟨rfl, Or.inr ⟨cs1, hop⟩, h.data, h.storeId⟩
    · split
      · exact Or.inr (idle_finish _ _ _)
      · exact Or.inl ⟨rfl, h⟩
  · rename_i cs1 cs2 hop
    have hdata : ∀ t : Attest w, t.op = s.op → t.initFsm = s.initFsm →
        t.storeIdFsm = s.storeIdFsm → t.op = s.op ∧ t.StageWired := by
      intro t ht hinit hstore
      refine ⟨ht, ?_, Or.inr ⟨cs1, cs2, ht.trans hop⟩, ?_⟩
      · rw [hinit, ht]
        exact h.init
      · rw [hstore, ht]
        exact h.storeId
    unfold actInitData
    split
    · exact Or.inl (hdata _ rfl rfl rfl)
    · split
      · exact Or.inr (idle_finish _ _ _)
      · split
        · split
          · exact Or.inl (hdata _ rfl rfl rfl)
          · exact Or.inr (idle_finish _ _ _)
        · exact Or.inl ⟨rfl, h⟩
    · split
      · exact Or.inl (hdata _ rfl rfl rfl)
      · exact Or.inr (idle_finish _ _ _)
      · exact Or.inl ⟨rfl, h⟩
    · split
      · exact Or.inl (hdata _ rfl rfl rfl)
      · exact Or.inl ⟨rfl, h⟩
    · split
      · split
        · exact Or.inl (hdata _ rfl rfl rfl)
        · exact Or.inr (idle_finish _ _ _)
      · exact Or.inl ⟨rfl, h⟩
    · split
      · exact Or.inr (idle_finish _ _ _)
      · exact Or.inl ⟨rfl, h⟩
  · rename_i rs1 cs2 hop
    have hstoreId : ∀ t : Attest w, t.op = s.op → t.initFsm = s.initFsm →
        t.initDataFsm = s.initDataFsm → t.op = s.op ∧ t.StageWired := by
      intro t ht hinit hdata
      refine ⟨ht, ?_, ?_, Or.inr ⟨rs1, cs2, ht.trans hop⟩⟩
      · rw [hinit, ht]
        exact h.init
      · rw [hdata, ht]
        exact h.data
    unfold actStoreId
    split
    · split
      · exact Or.inl ⟨rfl, h⟩
      · split
        · exact Or.inl (hstoreId _ rfl rfl rfl)
        · exact Or.inr (idle_finish _ _ _)
    · split
      · exact Or.inl (hstoreId _ rfl rfl rfl)
      · exact Or.inr (idle_finish _ _ _)
      · exact Or.inl ⟨rfl, h⟩
    · split
      · simp only
        split
        · exact Or.inr (idle_finish _ _ _)
        · exact Or.inl (hstoreId _ rfl rfl rfl)
      · exact Or.inl ⟨rfl, h⟩

/-- Machines at rest are wired for any instruction. -/
theorem Idle.stageWired (h : s.Idle) : s.StageWired :=
  ⟨Or.inl h.initFsm, Or.inl h.initDataFsm, Or.inl h.storeIdFsm⟩

theorem StageWired.next (h : s.StageWired) (i : AttestInput) : (attest.next s i).StageWired := by
  show StageWired { (s.act i).1 with
    op := if (s.act i).1.op.isNone then i.next else (s.act i).1.op
    unit := (s.unit.step s.io).1 }
  have hidle : (s.act i).1.Idle → StageWired { (s.act i).1 with
      op := if (s.act i).1.op.isNone then i.next else (s.act i).1.op
      unit := (s.unit.step s.io).1 } :=
    fun hi => ⟨Or.inl hi.initFsm, Or.inl hi.initDataFsm, Or.inl hi.storeIdFsm⟩
  rcases h.act i with ⟨hop, hw⟩ | ⟨-, hi⟩
  · cases hs : s.op with
    | none =>
      rw [hs] at hop
      exact hidle ⟨hw.init.resolve_right (by simp [hop]), hw.data.resolve_right (by simp [hop]),
        hw.storeId.resolve_right (by simp [hop])⟩
    | some op =>
      rw [hs] at hop
      have hif : (if (s.act i).1.op.isNone then i.next else (s.act i).1.op)
          = (s.act i).1.op := by
        rw [hop]
        rfl
      rw [hif]
      exact ⟨hw.init, hw.data, hw.storeId⟩
  · exact hidle hi

/-- **Every cycle keeps the composition wired.** -/
theorem Wired.next (h : s.Wired) (i : AttestInput) : (attest.next s i).Wired := by
  have hunit : (attest.next s i).unit = (s.unit.step s.io).1 := rfl
  refine ⟨h.stage.next i, ?_, ?_, ?_⟩
  · rw [hunit, StoreUnit.length_step]
    exact h.pos
  · rw [hunit]
    exact h.atEntry.step h.pos _
  · intro hf
    rw [hunit] at hf
    obtain ⟨hquiet, hasked⟩ := StoreUnit.getHash_of_step hf
    -- the digest was asked for before, or is from this cycle on
    obtain ⟨rs1, hr, hvalid⟩ : ∃ rs1, s.awaits = some (.getIdHash rs1)
        ∧ (EnclaveId.assignFromOtype rs1 : EnclaveId w).valid = true := by
      rcases hasked with hsearch | ⟨-, hask, hvalid⟩
      · exact h.getHash hsearch
      · have hfsm : s.storeIdFsm = .GET_HASH := of_decide_eq_true hask
        obtain ⟨rs1, cs2, hop⟩ := h.stage.storeId.resolve_left (by rw [hfsm]; decide)
        have heid : s.io.eid = .assignFromOtype rs1 := by
          rw [Attest.io, hfsm, if_pos rfl, Attest.rs1Data, hop]
        rw [heid] at hvalid
        exact ⟨rs1, by rw [awaits, hop]; simp only [hfsm, if_true], hvalid⟩
    have hno : (Request.getIdHash rs1).heardIn s.rsp = false := by
      show (s.unit.step s.io).2.hashResult.isSome = false
      rw [hquiet]
      rfl
    rw [next_of_not_heard hr hno]
    exact ⟨rs1, hr, hvalid⟩

/-- The stage and the store at rest, with any instruction about to begin and
any table of at least one entry. -/
structure AtRest (s : Attest w) : Prop where
  idle : s.Idle
  unit : s.unit.fsm = .idle
  pos : 0 < s.unit.store.entries.length

theorem AtRest.wired (h : s.AtRest) : s.Wired where
  stage := h.idle.stageWired
  pos := h.pos
  atEntry := Or.inl h.unit
  getHash hf := absurd (h.unit.symm.trans hf) (by decide)

/-! ## How long a request is waited for -/

/-- **Whatever is waited for is answered within `n` cycles**, on the channel it
is waited for on. -/
def AnsweredIn (s : Attest w) (n : ℕ) : Prop :=
  ∀ r, s.awaits = some r → ∀ js : List AttestInput, n ≤ js.length →
    ∃ k ≤ n, (attest.run s (js.take k)).awaits = some r
      ∧ r.heardIn (attest.run s (js.take k)).rsp = true

/-- **A request that can be heard is answered** within the cycles left. -/
theorem Wired.answered (hr : s.awaits = some r)
    (hid : ∀ rs1, r = .getIdHash rs1 → rs1.toNat ≤ 2 ^ w - 1) (n : ℕ) (h : s.Wired)
    (hn : StoreUnit.cyclesTo r s.unit ≤ n) (js : List AttestInput) (hjs : n ≤ js.length) :
    ∃ k ≤ n, (attest.run s (js.take k)).awaits = some r
      ∧ r.heardIn (attest.run s (js.take k)).rsp = true := by
  have hadm : ∀ (t : IdentityStore w) rs1, r = .getIdHash rs1 → r.admitted t = true := by
    rintro t rs1 rfl
    exact decide_eq_true (hid rs1 rfl)
  -- induction on the bound: a cycle without an answer is a cycle nearer to one
  induction n generalizing s js with
  | zero =>
    refine ⟨0, le_refl 0, hr, ?_⟩
    rcases StoreUnit.heard_or_closer (r := r) h.atEntry h.pos (hadm _) with hheard | hlt
    · rw [← h.stage.io_eq hr] at hheard
      exact hheard
    · omega
  | succ n ih =>
    rcases StoreUnit.heard_or_closer (r := r) h.atEntry h.pos (hadm _) with hheard | hlt
    · rw [← h.stage.io_eq hr] at hheard
      exact ⟨0, Nat.zero_le _, hr, hheard⟩
    · cases hnow : r.heardIn s.rsp with
      | true => exact ⟨0, Nat.zero_le _, hr, hnow⟩
      | false =>
        cases js with
        | nil => simp at hjs
        | cons j js =>
          have hnext : attest.next s j = { s with unit := (s.unit.step s.io).1 } :=
            next_of_not_heard hr hnow
          rw [← h.stage.io_eq hr] at hlt
          have hwired := h.next j
          rw [hnext] at hwired
          have hle : StoreUnit.cyclesTo r (s.unit.step s.io).1 ≤ n := by omega
          obtain ⟨k, hk, hawaits, hans⟩ := ih (s := { s with unit := (s.unit.step s.io).1 }) hr
            hwired hle js (by simpa using hjs)
          refine ⟨k + 1, by omega, ?_, ?_⟩
          · rw [List.take_succ_cons, SyncMachine.run_cons, hnext]
            exact hawaits
          · rw [List.take_succ_cons, SyncMachine.run_cons, hnext]
            exact hans

/-- A request for a digest under no id is not answered in this cycle. -/
theorem Wired.not_heard {rs1 : Word} (h : s.Wired) (hr : s.awaits = some (.getIdHash rs1))
    (hno : (EnclaveId.assignFromOtype rs1 : EnclaveId w).valid = false) :
    (Request.getIdHash rs1).heardIn s.rsp = false := by
  have hfsm : s.unit.fsm ≠ .getHash := by
    intro hf
    obtain ⟨rs1', hr', hvalid⟩ := h.getHash hf
    rw [hr, Option.some.injEq, Request.getIdHash.injEq] at hr'
    rw [← hr', hno] at hvalid
    cases hvalid
  show (s.unit.step s.io).2.hashResult.isSome = false
  rw [h.stage.io_eq hr, (StoreUnit.not_heard hfsm hno).1]
  rfl

/-- **It is waited for in vain**, whatever the rest of the core does. -/
theorem Wired.starves {rs1 : Word} (h : s.Wired) (hr : s.awaits = some (.getIdHash rs1))
    (hno : (EnclaveId.assignFromOtype rs1 : EnclaveId w).valid = false)
    (js : List AttestInput) :
    (Request.getIdHash rs1).heardIn (attest.run s js).rsp = false := by
  induction js generalizing s with
  | nil => exact h.not_heard hr hno
  | cons j js ih =>
    rw [SyncMachine.run_cons]
    refine ih (h.next j) ?_
    rw [next_of_not_heard hr (h.not_heard hr hno)]
    exact hr

end Attest

/-- **No request is waited for in vain, but one for a digest past the largest
id.** In every state that is reached, whatever the operands, the table and the
rest of the core, what is waited for is answered within two walks of the
entries if and only if it is not the digest of an object type above it. -/
theorem attest_answeredIn_iff (s₀ : Attest w) (h₀ : s₀.AtRest) (is : List AttestInput) :
    (attest.run s₀ is).AnsweredIn (2 * s₀.unit.store.entries.length)
      ↔ ∀ rs1, (attest.run s₀ is).awaits = some (.getIdHash rs1) → rs1.toNat ≤ 2 ^ w - 1 := by
  have hstep : ∀ (s : Attest w) (i : AttestInput),
      (s.Wired ∧ s.unit.store.entries.length = s₀.unit.store.entries.length) →
        ((attest.next s i).Wired ∧ (attest.next s i).unit.store.entries.length
          = s₀.unit.store.entries.length) := by
    rintro s i ⟨hw, hlen⟩
    exact ⟨hw.next i, (StoreUnit.length_step _ _).trans hlen⟩
  obtain ⟨hwired, hlen⟩ := SyncMachine.run_invariant_all _ hstep ⟨h₀.wired, rfl⟩ is
  constructor
  · intro h rs1 hr
    by_contra hgt
    have hno : (EnclaveId.assignFromOtype rs1 : EnclaveId w).valid = false :=
      decide_eq_false hgt
    obtain ⟨k, -, -, hheard⟩ := h _ hr
      (List.replicate (2 * s₀.unit.store.entries.length) quiet) (by rw [List.length_replicate])
    rw [hwired.starves hr hno] at hheard
    cases hheard
  · intro h r hr js hjs
    refine hwired.answered hr (fun rs1 he => h rs1 (he ▸ hr)) _ ?_ js hjs
    rw [← hlen]
    exact StoreUnit.cyclesTo_le r hwired.pos

/-! ### A digest nobody can give -/

/-- An `EStoreId` enters the stage of the core after reset. -/
def enteringHash (rs1 : Word) : Attest 8 :=
  { (Attest.reset 256 32 : Attest 8) with
    op := some (.eStoreId rs1 { Capability.root with offset := 0 }) }

theorem enteringHash_atRest (rs1 : Word) : (enteringHash rs1).AtRest :=
  ⟨⟨rfl, rfl, rfl⟩, rfl, Nat.zero_lt_succ 31⟩

/-- The digest of the first enclave is answered for, whether there is one or not. -/
theorem enteringHash_answered : (attest.run (enteringHash 2) [quiet]).AnsweredIn 64 :=
  (attest_answeredIn_iff (enteringHash 2) (enteringHash_atRest 2) [quiet]).2 (by
    intro rs1 hr
    have hawaits : (attest.run (enteringHash 2) [quiet]).awaits = some (.getIdHash 2) := by
      decide +kernel
    rw [hawaits, Option.some.injEq, Request.getIdHash.injEq] at hr
    rw [← hr]
    decide)

/-- **The digest of an object type above the largest id is waited for for
ever.** -/
theorem enteringHash_starves :
    (attest.run (enteringHash 256) [quiet]).awaits = some (.getIdHash 256)
      ∧ ¬ (attest.run (enteringHash 256) [quiet]).AnsweredIn 64
      ∧ ∀ js, (Request.getIdHash 256).heardIn
        (attest.run (attest.run (enteringHash 256) [quiet]) js).rsp = false := by
  have hawaits : (attest.run (enteringHash 256) [quiet]).awaits = some (.getIdHash 256) := by
    decide +kernel
  have hwired : (attest.run (enteringHash 256) [quiet]).Wired :=
    (enteringHash_atRest 256).wired.next quiet
  have hstarves : ∀ js, (Request.getIdHash 256).heardIn
      (attest.run (attest.run (enteringHash 256) [quiet]) js).rsp = false :=
    fun js => hwired.starves hawaits (by decide) js
  refine ⟨hawaits, fun h => ?_, hstarves⟩
  obtain ⟨k, -, -, hheard⟩ := h _ hawaits (List.replicate 64 quiet) (by decide)
  rw [hstarves] at hheard
  cases hheard

end Proteus
