import CheriTree.Proteus.EnclaveIdManager
import CheriTree.Proteus.StoreTable
import CheriTree.Proteus.StoreWaits

/-!
# Runs of the identity store

The identity store, asked one request after the other, each held until it is
answered: by whom does not matter here. The ids come from the counter of the
manager, and the store asks it for one in the cycle that allocates.

A search compares whole ids, with the validity bit. A request is searched for
only under a valid id, and an entry has one exactly when it is in use, so what
is found is in use although no search but two tests it; and as the ids in use
are all different, a search that stops at the first of its id finds what one of
all the entries does. What the store holds only changes in a cycle that answers
a request, and only by one allocation or one digest (`Inv.next`); everything
else about runs follows from that.
-/

namespace Proteus

variable {w : ℕ}

/-! ## Requests held until they are answered -/

/-- The store asks the manager for an id. -/
def StoreUnit.generate (u : StoreUnit w) : Bool := u.fsm = .initEntry && !u.entry.used

/-- The search compares the id of its entry with the one of the request. -/
def StoreUnit.comparing (u : StoreUnit w) : Bool :=
  u.fsm = .getUnfinishedEntry || u.fsm = .finishEntry || u.fsm = .getHash

/-- **The store and the request that is held.** -/
structure StoreClient (w : ℕ) where
  held : Option Request
  unit : StoreUnit w
deriving DecidableEq, Repr

namespace StoreClient

/-- The store of reset, with the ids of a manager. -/
def reset (m : EnclaveIdManager) (numEntries : ℕ) : StoreClient m.enclaveIdWidth :=
  ⟨none, ⟨.idle, 0, .reset m.numEnclaveIds numEntries⟩⟩

/-- The signals of a cycle. -/
def io (s : StoreClient w) (next : Option Request) : StoreIo w :=
  ((s.held.or next).map Request.io).getD .none

/-- **One cycle.** `next` is the request made when none is held; the manager
and the requester see the observation. -/
def step (s : StoreClient w) (next : Option Request) : StoreClient w × Bool × StoreRsp w :=
  ({ held := if (s.unit.step (s.io next)).2 = ⟨none, none⟩ then s.held.or next else none
     unit := (s.unit.step (s.io next)).1 },
    s.unit.generate, (s.unit.step (s.io next)).2)

end StoreClient

/-- **The store under a sequence of requests.** -/
def requests : SyncMachine (StoreClient w) (Option Request) (Bool × StoreRsp w) :=
  ⟨StoreClient.step⟩

/-- **A request is answered**: held from now on, with any requests to follow,
it gets the answer in some cycle, none before, and leaves the store as `st`. -/
def StoreClient.Answered (s : StoreClient w) (r : Request) (rsp : StoreRsp w)
    (st : IdentityStore w) : Prop :=
  ∃ n ≤ s.unit.store.entries.length, ∀ next : List (Option Request), next.length = n →
    (requests.observe s (some r :: next)).map Prod.snd = List.replicate n ⟨none, none⟩ ++ [rsp]
      ∧ (requests.run s (some r :: next)).held = none
      ∧ (requests.run s (some r :: next)).unit.store = st

/-! ## What a request changes -/

namespace IdentityStore

variable {st st' : IdentityStore w}

/-- **The invariant of the entries**: they are a table with a counter, what is
ready is in use, and what is not in use is as it was at reset. -/
structure Sound (st : IdentityStore w) : Prop where
  inv : st.Inv
  ready : ∀ e ∈ st.entries, e.ready = true → e.used = true
  empty : ∀ e ∈ st.entries, e.used = false → e = .empty

theorem sound_reset {numEnclaveIds : ℕ} (numEntries : ℕ) (h : numEnclaveIds ≤ 2 ^ w) :
    (reset numEnclaveIds numEntries : IdentityStore w).Sound where
  inv := inv_reset numEntries h
  ready e he hready := by
    rw [List.eq_of_mem_replicate he] at hready
    cases hready
  empty e he _ := List.eq_of_mem_replicate he

/-- **What an update changes**: nothing, an entry that was free, or one that
waited for its digest. -/
theorem Update.cases_of_inv (h : Update st st') (hinv : st.Inv) :
    st' = st ∨ (st.nextId ≠ st.numEnclaveIds ∧ st.Adds st')
      ∨ ∃ n e hash, st.Records st' n e hash := by
  cases h with
  | initEntry =>
    by_cases hcan : st.CanAllocate
    · exact Or.inr (Or.inl ⟨hcan.ne_nextId, hcan.initEntry.2⟩)
    · left
      rw [initEntry_of_not hcan]
  | finishEntry otype hash =>
    rcases hinv.finish_cases otype hash with ⟨n, e, hrec, -⟩ | ⟨-, hno⟩
    · exact Or.inr (Or.inr ⟨n, e, hash, hrec⟩)
    · left
      rw [hno]

theorem Update.inv (h : Update st st') (hinv : st.Inv) : st'.Inv := by
  cases h with
  | initEntry => exact hinv.initEntry
  | finishEntry otype hash => exact hinv.finishEntry otype hash

/-- An entry written is in use. -/
theorem Update.mem (h : Update st st') (hinv : st.Inv) {e : Entry w} (he : e ∈ st'.entries) :
    e ∈ st.entries ∨ e.used = true := by
  rcases h.cases_of_inv hinv with rfl | ⟨-, n, old, -, -, rfl⟩ | ⟨n, old, hash, -, hused, -, rfl⟩
  · exact Or.inl he
  · rcases List.mem_or_eq_of_mem_set he with he | rfl
    · exact Or.inl he
    · exact Or.inr rfl
  · rcases List.mem_or_eq_of_mem_set he with he | rfl
    · exact Or.inl he
    · exact Or.inr hused

theorem Sound.update (h : st.Sound) (hup : Update st st') : st'.Sound where
  inv := hup.inv h.inv
  ready e he hready := by
    rcases hup.mem h.inv he with hold | hused
    · exact h.ready e hold hready
    · exact hused
  empty e he hfree := by
    rcases hup.mem h.inv he with hold | hused
    · exact h.empty e hold hfree
    · exact absurd (hused.symm.trans hfree) (by decide)

/-- **What an update keeps**: the ready entries, and the counter in its
range. -/
structure Keeps (st st' : IdentityStore w) : Prop where
  ready : ∀ (i : ℕ) (e : Entry w), st.entries[i]? = some e → e.ready = true →
    st'.entries[i]? = some e
  counter : st.nextId ≤ st'.nextId
  length : st'.entries.length = st.entries.length
  numEnclaveIds : st'.numEnclaveIds = st.numEnclaveIds

theorem Keeps.refl (st : IdentityStore w) : st.Keeps st :=
  ⟨fun _ _ h _ => h, le_refl _, rfl, rfl⟩

theorem Keeps.trans {st'' : IdentityStore w} (h : st.Keeps st') (h' : st'.Keeps st'') :
    st.Keeps st'' where
  ready i e hi hready := h'.ready i e (h.ready i e hi hready) hready
  counter := h.counter.trans h'.counter
  length := h'.length.trans h.length
  numEnclaveIds := h'.numEnclaveIds.trans h.numEnclaveIds

/-- Only an entry that is not ready is written. -/
theorem getElem?_set_of_ready {l : List (Entry w)} {n i : ℕ} {e old new : Entry w}
    (hn : l[n]? = some old) (hold : old.ready = false) (hi : l[i]? = some e)
    (hready : e.ready = true) : (l.set n new)[i]? = some e := by
  have hne : n ≠ i := by
    rintro rfl
    rw [hn] at hi
    rw [← Option.some.inj hi, hold] at hready
    cases hready
  rw [List.getElem?_set_ne hne]
  exact hi

theorem Update.keeps (h : Update st st') (hs : st.Sound) : st.Keeps st' := by
  rcases h.cases_of_inv hs.inv with
    rfl | ⟨-, n, old, hn, hfree, rfl⟩ | ⟨n, old, hash, hn, -, hold, rfl⟩
  · exact Keeps.refl _
  · have hold : old.ready = false := by
      rw [hs.empty old (List.mem_of_getElem? hn) hfree]
      rfl
    exact ⟨fun i e => getElem?_set_of_ready hn hold, Nat.le_succ _, List.length_set, rfl⟩
  · exact ⟨fun i e => getElem?_set_of_ready hn hold, le_refl _, List.length_set, rfl⟩

end IdentityStore

/-! ## What a request is answered -/

/-- **The answer to a request that is held**, and the store after it: the one of
the atomic store, but for a digest under no id, which fails on the first
channel. -/
def Request.outcome (st : IdentityStore w) : Request → StoreRsp w × IdentityStore w
  | .getIdHash otype =>
    if (EnclaveId.assignFromOtype otype : EnclaveId w).valid then
      Request.answer st (.getIdHash otype)
    else (⟨some .setInvalid, none⟩, st)
  | r => r.answer st

namespace Request

variable {st : IdentityStore w} {r : Request} {u : StoreUnit w}

theorem outcome_of_admitted (h : ∀ otype, r = .getIdHash otype → r.admitted st = true) :
    r.outcome st = r.answer st := by
  cases r with
  | getIdHash otype =>
    have hvalid : (EnclaveId.assignFromOtype otype : EnclaveId w).valid = true := h otype rfl
    exact if_pos hvalid
  | init => rfl
  | getUnfinished otype => rfl
  | finish otype hash => rfl

theorem outcome_getIdHash {otype : Word}
    (h : (EnclaveId.assignFromOtype otype : EnclaveId w).valid = false) :
    Request.outcome st (.getIdHash otype) = (⟨some .setInvalid, none⟩, st) := by
  exact if_neg (by rw [h]; decide)

/-- There is an answer, on some channel. -/
theorem outcome_ne (st : IdentityStore w) (r : Request) : (r.outcome st).1 ≠ ⟨none, none⟩ := by
  cases r with
  | getIdHash otype =>
    cases hvalid : (EnclaveId.assignFromOtype otype : EnclaveId w).valid with
    | true =>
      rw [outcome_of_admitted (fun _ h => by cases h; exact hvalid)]
      unfold answer IdentityStore.getHash
      simp only [hvalid, if_true]
      split
      · exact fun h => by cases h
      · exact fun h => by cases h
    | false =>
      rw [outcome_getIdHash hvalid]
      exact fun h => by cases h
  | init => exact fun h => by cases h
  | getUnfinished otype => exact fun h => by cases h
  | finish otype hash => exact fun h => by cases h

/-- The store is updated, or left as it is. -/
theorem outcome_update (st : IdentityStore w) (r : Request) :
    (r.outcome st).2 = st ∨ IdentityStore.Update st (r.outcome st).2 := by
  cases r with
  | init => exact Or.inr (.initEntry st)
  | getUnfinished otype => exact Or.inl rfl
  | finish otype hash => exact Or.inr (.finishEntry st otype hash)
  | getIdHash otype =>
    left
    cases hvalid : (EnclaveId.assignFromOtype otype : EnclaveId w).valid with
    | true =>
      rw [outcome_of_admitted (fun _ h => by cases h; exact hvalid)]
      rfl
    | false => rw [outcome_getIdHash hvalid]

/-- **One cycle of a request that is held**: the search goes on, or this is the
answer. -/
theorem Serves.step (h : r.Serves st u) (hpos : 0 < st.entries.length) :
    ((u.step r.io).2 = ⟨none, none⟩ ∧ StoreUnit.GoesOn st r u (u.step r.io).1)
      ∨ ((u.step r.io).2 = (r.outcome st).1 ∧ (u.step r.io).1.store = (r.outcome st).2
        ∧ (u.step r.io).1.fsm = .idle) := by
  by_cases hadm : ∀ otype, r = .getIdHash otype → r.admitted st = true
  · rw [outcome_of_admitted hadm]
    rcases h.served hpos hadm with hgo | hans
    · exact Or.inl hgo
    · exact Or.inr ⟨hans.rsp, hans.store, hans.idle⟩
  · push Not at hadm
    obtain ⟨otype, rfl, hno⟩ := hadm
    have hinvalid : (EnclaveId.assignFromOtype otype : EnclaveId w).valid = false :=
      Bool.eq_false_iff.2 hno
    have hidle : u.fsm = .idle := h.unit.resolve_right fun hs => hno hs.2
    rcases StoreUnit.step_idle (r := .getIdHash otype) hidle with ⟨-, hyes⟩ | ⟨hpush, -⟩
    · rw [h.store] at hyes
      exact absurd hyes hno
    · right
      rw [hpush, outcome_getIdHash hinvalid]
      exact ⟨rfl, h.store, rfl⟩

end Request

/-! ## Runs -/

namespace StoreClient

variable {s : StoreClient w} {r : Request} {i : Option Request}

/-- **The invariant of a run**: nothing is searched for that is not held, and
what is held was admitted. -/
structure Inv (s : StoreClient w) : Prop where
  sound : s.unit.store.Sound
  pos : 0 < s.unit.store.entries.length
  idle : s.held = none → s.unit.fsm = .idle
  searching : ∀ r, s.held = some r → s.unit.Searching r ∧ r.admitted s.unit.store = true

theorem inv_reset (m : EnclaveIdManager) {numEntries : ℕ} (hpos : 0 < numEntries) :
    (reset m numEntries).Inv where
  sound := IdentityStore.sound_reset numEntries m.numEnclaveIds_le
  pos := by
    show 0 < (List.replicate numEntries Entry.empty).length
    rw [List.length_replicate]
    exact hpos
  idle _ := rfl
  searching r h := by cases h

theorem Inv.serves (h : s.Inv) (hr : s.held.or i = some r) :
    r.Serves s.unit.store s.unit := by
  refine ⟨rfl, ?_⟩
  cases hheld : s.held with
  | none => exact Or.inl (h.idle hheld)
  | some held =>
    rw [hheld, Option.some_or, Option.some.injEq] at hr
    rw [← hr]
    exact Or.inr (h.searching held hheld)

/-- The cycle of a request. -/
theorem step_of_asked (hr : s.held.or i = some r) :
    requests.step s i
      = ({ held := if (s.unit.step r.io).2 = ⟨none, none⟩ then some r else none
           unit := (s.unit.step r.io).1 }, s.unit.generate, (s.unit.step r.io).2) := by
  show s.step i = _
  have hio : s.io i = r.io := by
    rw [io, hr]
    rfl
  rw [step, hio, hr]

/-- **What a cycle does**: nothing, where nothing is asked; or a search for the
request goes on; or it is answered. -/
inductive Moves (s : StoreClient w) (i : Option Request) : Prop
  | rest (hr : s.held.or i = none) (hstep : requests.step s i = (s, false, ⟨none, none⟩))
  | search {r : Request} (hr : s.held.or i = some r)
      (hrsp : (requests.obs s i).2 = ⟨none, none⟩)
      (hheld : (requests.next s i).held = some r)
      (hgo : StoreUnit.GoesOn s.unit.store r s.unit (requests.next s i).unit)
  | answer {r : Request} (hr : s.held.or i = some r)
      (hrsp : (requests.obs s i).2 = (r.outcome s.unit.store).1)
      (hheld : (requests.next s i).held = none)
      (hstore : (requests.next s i).unit.store = (r.outcome s.unit.store).2)
      (hidle : (requests.next s i).unit.fsm = .idle)

theorem Inv.moves (h : s.Inv) (i : Option Request) : s.Moves i := by
  cases hr : s.held.or i with
  | none =>
    obtain ⟨hheld, rfl⟩ := Option.or_eq_none_iff.1 hr
    have hidle := h.idle hheld
    have hunit : s.unit.step (s.io none) = (s.unit, ⟨none, none⟩) := by
      rw [io, hr, StoreUnit.step, hidle]
      rfl
    refine .rest hr ?_
    show s.step none = _
    rw [step, hunit, hr, StoreUnit.generate, hidle]
    show ((⟨none, s.unit⟩ : StoreClient w), _, _) = _
    rw [← hheld]
    rfl
  | some r =>
    have hstep := step_of_asked hr
    rcases (h.serves hr).step h.pos with ⟨hnone, hgo⟩ | ⟨hrsp, hstore, hidle⟩
    · rw [if_pos hnone] at hstep
      refine .search hr ?_ ?_ ?_
      · rw [SyncMachine.obs, hstep]
        exact hnone
      · rw [SyncMachine.next, hstep]
      · rw [SyncMachine.next, hstep]
        exact hgo
    · rw [if_neg (by rw [hrsp]; exact Request.outcome_ne _ _)] at hstep
      refine .answer hr ?_ ?_ ?_ ?_
      · rw [SyncMachine.obs, hstep]
        exact hrsp
      · rw [SyncMachine.next, hstep]
      · rw [SyncMachine.next, hstep]
        exact hstore
      · rw [SyncMachine.next, hstep]
        exact hidle

/-- **The store changes by the update of a request, or not at all.** -/
theorem Inv.next_store (h : s.Inv) (i : Option Request) :
    (requests.next s i).unit.store = s.unit.store
      ∨ IdentityStore.Update s.unit.store (requests.next s i).unit.store := by
  cases h.moves i with
  | rest hr hstep =>
    left
    rw [SyncMachine.next, hstep]
  | search hr hrsp hheld hgo => exact Or.inl hgo.serves.store
  | answer hr hrsp hheld hstore hidle =>
    rw [hstore]
    exact Request.outcome_update _ _

theorem Inv.keeps (h : s.Inv) (i : Option Request) :
    s.unit.store.Keeps (requests.next s i).unit.store := by
  rcases h.next_store i with hsame | hup
  · rw [hsame]
    exact .refl _
  · exact hup.keeps h.sound

theorem Inv.next (h : s.Inv) (i : Option Request) : (requests.next s i).Inv where
  sound := by
    rcases h.next_store i with hsame | hup
    · rw [hsame]
      exact h.sound
    · exact h.sound.update hup
  pos := by
    rw [(h.keeps i).length]
    exact h.pos
  idle hheld := by
    cases h.moves i with
    | rest hr hstep =>
      rw [SyncMachine.next, hstep]
      exact h.idle (Option.or_eq_none_iff.1 hr).1
    | search hr hrsp hsome hgo =>
      rw [hsome] at hheld
      cases hheld
    | answer hr hrsp hnone hstore hidle => exact hidle
  searching r hheld := by
    cases h.moves i with
    | rest hr hstep =>
      have hnone := (Option.or_eq_none_iff.1 hr).1
      rw [SyncMachine.next, hstep, hnone] at hheld
      cases hheld
    | search hr hrsp hsome hgo =>
      rw [hsome, Option.some.injEq] at hheld
      rw [← hheld]
      refine ⟨hgo.searching, ?_⟩
      rcases hgo.serves.unit with hidle | ⟨-, hadm⟩
      · exact absurd (hgo.searching.fsm.symm.trans hidle) (StoreUnit.fsm_ne_idle _)
      · rw [hgo.serves.store]
        exact hadm
    | answer hr hrsp hnone hstore hidle =>
      rw [hnone] at hheld
      cases hheld

/-- **Every run keeps the invariant**, and what is ready. -/
theorem Inv.run (h : s.Inv) (is : List (Option Request)) :
    (requests.run s is).Inv ∧ s.unit.store.Keeps (requests.run s is).unit.store := by
  have hstep : ∀ (t : StoreClient w) (i : Option Request),
      (t.Inv ∧ s.unit.store.Keeps t.unit.store) →
        ((requests.next t i).Inv ∧ s.unit.store.Keeps (requests.next t i).unit.store) := by
    rintro t i ⟨ht, hk⟩
    exact ⟨ht.next i, hk.trans (ht.keeps i)⟩
  exact SyncMachine.run_invariant_all _ hstep ⟨h, .refl _⟩ is

theorem or_of_held (hheld : s.held = none ∨ s.held = some r) : s.held.or (some r) = some r := by
  rcases hheld with hnone | hsome
  · rw [hnone, Option.none_or]
  · rw [hsome, Option.some_or]

/-- A request is answered within the cycles its search has left. -/
theorem Inv.answered_of_left (h : s.Inv) (hheld : s.held = none ∨ s.held = some r) :
    ∃ k ≤ s.unit.left, ∀ i, s.held.or i = some r → ∀ is : List (Option Request), is.length = k →
      (requests.observe s (i :: is)).map Prod.snd
          = List.replicate k ⟨none, none⟩ ++ [(r.outcome s.unit.store).1]
        ∧ (requests.run s (i :: is)).held = none
        ∧ (requests.run s (i :: is)).unit.store = (r.outcome s.unit.store).2 := by
  -- a cycle that does not answer leaves less of the search
  induction hleft : s.unit.left using Nat.strong_induction_on generalizing s with
  | _ n ih =>
    have hasked := or_of_held hheld
    rcases (h.serves hasked).step h.pos with ⟨hnone, hgo⟩ | ⟨hrsp, hstore, -⟩
    · have hstep : ∀ i, s.held.or i = some r →
          requests.step s i = (⟨some r, (s.unit.step r.io).1⟩, s.unit.generate, ⟨none, none⟩) := by
        intro i hi
        rw [step_of_asked hi, if_pos hnone, hnone]
      have hinv := h.next (some r)
      rw [SyncMachine.next, hstep _ hasked] at hinv
      obtain ⟨k, hk, hrest⟩ := ih _ (by rw [← hleft]; exact hgo.left_lt) hinv (Or.inr rfl) rfl
      have hlt : (s.unit.step r.io).1.left < n := hleft ▸ hgo.left_lt
      have hk' : k ≤ (s.unit.step r.io).1.left := hk
      rw [show (⟨some r, (s.unit.step r.io).1⟩ : StoreClient w).unit.store = s.unit.store from
        hgo.serves.store] at hrest
      refine ⟨k + 1, by omega, fun i hi is his => ?_⟩
      obtain ⟨j, js, rfl⟩ := List.exists_cons_of_length_eq_add_one his
      obtain ⟨hobs, hfree, hres⟩ := hrest j rfl js (by simpa using his)
      rw [SyncMachine.observe_cons, SyncMachine.run_cons, SyncMachine.next, SyncMachine.obs,
        hstep i hi, List.map_cons, hobs]
      exact ⟨rfl, hfree, hres⟩
    · refine ⟨0, Nat.zero_le _, fun i hi is his => ?_⟩
      obtain rfl := List.length_eq_zero_iff.1 his
      have hstep := step_of_asked hi
      rw [if_neg (by rw [hrsp]; exact Request.outcome_ne _ _)] at hstep
      rw [SyncMachine.observe_cons, SyncMachine.run_cons, SyncMachine.next, SyncMachine.obs, hstep,
        ← hrsp]
      exact ⟨rfl, rfl, hstore⟩

/-- **A request made when none is held is answered**, with its outcome. -/
theorem Inv.answered (h : s.Inv) (hheld : s.held = none) (r : Request) :
    s.Answered r (r.outcome s.unit.store).1 (r.outcome s.unit.store).2 := by
  obtain ⟨k, hk, hrest⟩ := h.answered_of_left (r := r) (Or.inl hheld)
  have hleft : s.unit.left = s.unit.store.entries.length := if_pos (h.idle hheld)
  exact ⟨k, hleft ▸ hk, fun is his => hrest (some r) (or_of_held (Or.inl hheld)) is his⟩

/-! ### The counter of the manager -/

end StoreClient

namespace StoreUnit

variable {u : StoreUnit w} {io : StoreIo w}

theorem nextId_advance {atEnd : StoreUnit w × StoreRsp w}
    (h : atEnd.1.store.nextId = u.store.nextId) :
    (u.advance atEnd).1.store.nextId = u.store.nextId := by
  unfold advance
  split
  · exact h
  · rfl

/-- **The store counts the ids it asks for**, and answers with the one it
gets. -/
theorem nextId_step (u : StoreUnit w) (io : StoreIo w) :
    if u.generate then
      (u.step io).1.store.nextId = u.store.nextId + 1
        ∧ (u.step io).2.result = some ⟨true, BitVec.ofNat w u.store.nextId⟩
    else (u.step io).1.store.nextId = u.store.nextId := by
  unfold generate step
  cases hfsm : u.fsm with
  | initEntry =>
    cases hused : u.entry.used with
    | false =>
      simp only [stepInitEntry, hused]
      exact ⟨rfl, rfl⟩
    | true =>
      simp only [stepInitEntry, hused]
      exact nextId_advance rfl
  | idle =>
    show (u.stepIdle io).1.store.nextId = _
    unfold stepIdle
    split_ifs <;> rfl
  | getUnfinishedEntry =>
    show (u.stepGetUnfinishedEntry io).1.store.nextId = _
    unfold stepGetUnfinishedEntry
    split
    · rfl
    · exact nextId_advance rfl
  | finishEntry =>
    show (u.stepFinishEntry io).1.store.nextId = _
    unfold stepFinishEntry
    split_ifs
    · rfl
    · rfl
    · exact nextId_advance rfl
  | getHash =>
    show (u.stepGetHash io).1.store.nextId = _
    unfold stepGetHash
    split_ifs
    · rfl
    · rfl
    · exact nextId_advance rfl

end StoreUnit

namespace StoreClient

/-- The counter of the manager is at `k`, and is the one the store counts
with. -/
structure Tracks {m : EnclaveIdManager} (s : StoreClient m.enclaveIdWidth)
    (k : Fin (m.numEnclaveIds + 1)) : Prop where
  counter : s.unit.store.nextId = k
  numEnclaveIds : s.unit.store.numEnclaveIds = m.numEnclaveIds

/-- The store asks for an id only while there is one. -/
theorem Inv.lt_of_generate {s : StoreClient w} (h : s.Inv) (hgen : s.unit.generate = true) :
    s.unit.store.nextId < s.unit.store.numEnclaveIds := by
  have hfsm : s.unit.fsm = .initEntry := of_decide_eq_true (Bool.and_eq_true_iff.1 hgen).1
  cases hheld : s.held with
  | none => exact absurd ((h.idle hheld).symm.trans hfsm) (by decide)
  | some r =>
    obtain ⟨hsearch, hadm⟩ := h.searching r hheld
    have hne : s.unit.store.nextId ≠ s.unit.store.numEnclaveIds := by
      have hrfsm := hsearch.fsm.symm.trans hfsm
      cases r with
      | init => exact of_decide_eq_true hadm
      | getUnfinished otype => cases hrfsm
      | finish otype hash => cases hrfsm
      | getIdHash otype => cases hrfsm
    have := h.sound.inv.counter
    omega

/-- **The manager's counter follows**, and the id that is given is its. -/
theorem Tracks.next {m : EnclaveIdManager} {s : StoreClient m.enclaveIdWidth}
    {k : Fin (m.numEnclaveIds + 1)} (ht : s.Tracks k) (h : s.Inv) (i : Option Request) :
    (requests.next s i).Tracks (m.machine.next k (requests.obs s i).1)
      ∧ ((requests.obs s i).1 = true → (requests.obs s i).2.result = m.machine.obs k true) := by
  have hids : (requests.next s i).unit.store.numEnclaveIds = m.numEnclaveIds :=
    (h.keeps i).numEnclaveIds.trans ht.numEnclaveIds
  have hstep := s.unit.nextId_step (s.io i)
  cases hgen : s.unit.generate with
  | true =>
    have hlt := h.lt_of_generate hgen
    rw [ht.counter, ht.numEnclaveIds] at hlt
    obtain ⟨hm, hval⟩ := EnclaveIdManager.next_of_lt hlt
    rw [hgen, if_pos rfl] at hstep
    have hobs : (requests.obs s i).1 = true := hgen
    have hnext : m.machine.next k true = k + 1 := congrArg Prod.fst hm
    have hid : m.machine.obs k true = some ⟨true, BitVec.ofNat _ k⟩ := congrArg Prod.snd hm
    rw [hobs, hnext, hid, ← ht.counter]
    refine ⟨⟨?_, hids⟩, fun _ => hstep.2⟩
    exact hstep.1.trans (by rw [ht.counter, hval])
  | false =>
    rw [hgen, if_neg Bool.false_ne_true] at hstep
    have hobs : (requests.obs s i).1 = false := hgen
    rw [hobs]
    refine ⟨⟨?_, hids⟩, fun hyes => by cases hyes⟩
    exact hstep.trans ht.counter

/-- Along a run, the manager counts the ids that were asked for. -/
theorem Tracks.run {m : EnclaveIdManager} {s : StoreClient m.enclaveIdWidth}
    {k : Fin (m.numEnclaveIds + 1)} (ht : s.Tracks k) (h : s.Inv) (is : List (Option Request)) :
    (requests.run s is).Tracks (m.machine.run k ((requests.observe s is).map Prod.fst)) := by
  induction is generalizing s k with
  | nil => exact ht
  | cons i is ih =>
    rw [SyncMachine.run_cons, SyncMachine.observe_cons, List.map_cons, SyncMachine.run_cons]
    exact ih (ht.next h i).1 (h.next i)

/-! ## The store is safe -/

/-- **The store is safe**, as it is and whatever is asked of it from now on. -/
structure Safe (s : StoreClient w) : Prop where
  /-- No two entries in use have the same id. -/
  unique : ∀ (i j : ℕ) (e e' : Entry w), s.unit.store.entries[i]? = some e →
    s.unit.store.entries[j]? = some e' → e.used = true → e'.used = true → e.id = e'.id → i = j
  /-- An entry that is ready is in use. -/
  used : ∀ e ∈ s.unit.store.entries, e.ready = true → e.used = true
  /-- It never changes. -/
  fixed : ∀ (i : ℕ) (e : Entry w), s.unit.store.entries[i]? = some e → e.ready = true →
    ∀ is, (requests.run s is).unit.store.entries[i]? = some e
  /-- The counter is past the ids in use. -/
  past : ∀ e ∈ s.unit.store.entries, e.used = true → e.id.id.toNat + 1 ≤ s.unit.store.nextId
  /-- It goes up, to its end at most. -/
  counter : ∀ is, s.unit.store.nextId ≤ (requests.run s is).unit.store.nextId
    ∧ (requests.run s is).unit.store.nextId ≤ s.unit.store.numEnclaveIds
  /-- A full table refuses an allocation, and is left as it is with its
  counter. -/
  full : s.held = none → (∀ e ∈ s.unit.store.entries, e.used = true) →
    s.Answered .init ⟨some .setInvalid, none⟩ s.unit.store
  /-- A digest is recorded for the entry that is found unfinished, or there is
  none and nothing changes. -/
  finish : s.held = none → ∀ otype hash, ∃ a b st',
    s.Answered (.finish otype hash) ⟨some a, none⟩ st'
      ∧ s.Answered (.getUnfinished otype) ⟨some b, none⟩ s.unit.store
      ∧ ((a.valid = true ∧ b.valid = true
          ∧ ∃ n e, e.id = b ∧ s.unit.store.Records st' n e hash)
        ∨ (a.valid = false ∧ b.valid = false ∧ st' = s.unit.store))
  /-- What is not in use is under no id, which no search compares with. -/
  unmatched : s.unit.comparing = true → ∀ e ∈ s.unit.store.entries, e.used = false →
    e.id = .setInvalid ∧ ∀ i, e.id ≠ (s.io i).eid

/-- A comparison is with a valid id. -/
theorem Inv.eid_valid {s : StoreClient w} (h : s.Inv) (hcmp : s.unit.comparing = true)
    (i : Option Request) : (s.io i).eid.valid = true := by
  cases hheld : s.held with
  | none =>
    rw [StoreUnit.comparing, h.idle hheld] at hcmp
    cases hcmp
  | some r =>
    obtain ⟨hsearch, hadm⟩ := h.searching r hheld
    have hio : s.io i = r.io := by
      rw [io, hheld]
      rfl
    rw [StoreUnit.comparing, hsearch.fsm] at hcmp
    rw [hio]
    cases r with
    | init => cases hcmp
    | getUnfinished otype => exact hadm
    | finish otype hash => exact hadm
    | getIdHash otype => exact hadm

theorem Inv.safe {s : StoreClient w} (h : s.Inv) : s.Safe where
  unique i j e e' hi hj hused hused' hid :=
    h.sound.inv.table.unique (IdentityStore.toTable_slot.2 ⟨hi, hused⟩)
      (IdentityStore.toTable_slot.2 ⟨hj, hused'⟩)
      (show e.id.id.toNat = e'.id.id.toNat by rw [hid])
  used := h.sound.ready
  fixed i e hi hready is := (h.run is).2.ready i e hi hready
  past e he hused := by
    obtain ⟨i, hi⟩ := List.getElem?_of_mem he
    exact h.sound.inv.table.issued (IdentityStore.toTable_slot.2 ⟨hi, hused⟩)
  counter is := by
    obtain ⟨hinv, hkeeps⟩ := h.run is
    refine ⟨hkeeps.counter, ?_⟩
    rw [← hkeeps.numEnclaveIds]
    exact hinv.sound.inv.counter
  full hheld hfull := by
    have hcan : ¬ s.unit.store.CanAllocate := by
      rintro ⟨-, e, he, hfree⟩
      rw [hfull e he] at hfree
      cases hfree
    have hans := h.answered hheld .init
    have hout : Request.outcome s.unit.store .init
        = (⟨some .setInvalid, none⟩, s.unit.store) := by
      show (_, _) = _
      rw [IdentityStore.initEntry_of_not hcan]
    rw [hout] at hans
    exact hans
  finish hheld otype hash := by
    refine ⟨_, _, _, h.answered hheld (.finish otype hash),
      h.answered hheld (.getUnfinished otype), ?_⟩
    rcases h.sound.inv.finish_cases otype hash with
      ⟨n, e, hrec, -, hvalid, hfound, hdone⟩ | ⟨hnone, hno⟩
    · left
      rw [hfound, hdone]
      exact ⟨hvalid, hvalid, n, e, rfl, hrec⟩
    · right
      rw [hnone, hno]
      exact ⟨rfl, rfl, congrArg Prod.snd hno⟩
  unmatched hcmp e he hfree := by
    have hid : e.id = .setInvalid := by
      rw [h.sound.empty e he hfree]
      rfl
    refine ⟨hid, fun i heq => ?_⟩
    have hvalid := h.eid_valid hcmp i
    rw [← heq, hid] at hvalid
    cases hvalid

end StoreClient

/-- **The identity store is safe in every state it reaches**, with any number of
entries, any range of ids and any requests, each held until it is answered; and
its counter is the one of the manager, which was asked for all ids that were
given out. -/
theorem identityStore_safe (m : EnclaveIdManager) (numEntries : ℕ) (hpos : 0 < numEntries)
    (is : List (Option Request)) :
    (requests.run (StoreClient.reset m numEntries) is).Safe
      ∧ (requests.run (StoreClient.reset m numEntries) is).unit.store.nextId
        = m.machine.run 0
          ((requests.observe (StoreClient.reset m numEntries) is).map Prod.fst) := by
  have hinv := StoreClient.inv_reset m hpos
  have htracks : (StoreClient.reset m numEntries).Tracks 0 := ⟨rfl, rfl⟩
  exact ⟨(hinv.run is).1.safe, (htracks.run hinv is).counter⟩

/-- An allocation, the digest for it, and a second allocation. -/
def coreRequests : List (Option Request) :=
  [.init, .finish 2 7, .init].flatMap fun r => [some r, none, none]

/-- The store of the core after these: one enclave is finished, one is not. -/
theorem coreStore_safe :
    (requests.run (StoreClient.reset coreIds 32) coreRequests).unit.store.entries.take 2
        = [⟨true, true, ⟨true, 0⟩, 7⟩, ⟨true, false, ⟨true, 1⟩, 0⟩]
      ∧ (requests.run (StoreClient.reset coreIds 32) coreRequests).Safe
      ∧ (requests.run (StoreClient.reset coreIds 32) coreRequests).unit.store.nextId
        = coreIds.machine.run 0
          ((requests.observe (StoreClient.reset coreIds 32) coreRequests).map Prod.fst) :=
  ⟨by decide +kernel, identityStore_safe coreIds 32 (by decide) coreRequests⟩

end Proteus
