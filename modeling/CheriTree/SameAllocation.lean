import CheriTree.Proteus.StoreTable
import CheriTree.Sail.Atomicity

/-!
# One allocation, two implementations

`EInitCode` gives a code section an enclave: a free entry of the table under
the next number, and the capability sealed under that number. The Sail model
looks at its operand first, at the table next and issues a number last; Proteus
sends the request off at once and looks at the answer only. So the two agree on
an operand the Sail model takes, but for the address of the result, and where
nothing is left to give; on any other operand Proteus makes an enclave that the
Sail model refuses to make.

What is compared is the whole exchange of the memory stage with the identity
store, under any stalls, with one step of the Sail model.
-/

namespace Proteus

variable {w : ℕ}

/-! ## The exchange -/

/-- **The stage gives `cd` and leaves the table `st`** with the first
instruction that completes. -/
def Attest.Yields (s : Attest w) (env : ℕ → AttestInput) (cd : Capability)
    (st : IdentityStore w) : Prop :=
  ∃ n c, attest.obsAt s env n = some c ∧ c.result = .cap cd
    ∧ (attest.stateAt s env (n + 1)).unit.store = st ∧ ∀ k < n, attest.obsAt s env k = none

/-- An `EInitCode` has entered the stage, and the store is at rest. -/
structure Attest.BeginsInitCode (s : Attest w) (cs1 : Capability) : Prop where
  op : s.op = some (.eInitCode cs1)
  idle : s.Idle
  unit : s.unit.fsm = .idle

/-- **What `EInitCode` gives** when the entry is allocated at once. -/
def IdentityStore.initCode (st : IdentityStore w) (cs1 : Capability) : Capability :=
  if st.initEntry.1.valid then cs1.sealWith st.initEntry.1.identSeal else .null

namespace Attest

variable {s : Attest w} {cs1 : Capability} {st : IdentityStore w} {env : ℕ → AttestInput}

/-- Only one result is given, and one table left. -/
theorem Yields.unique {cd cd' : Capability} {st' : IdentityStore w} (h : s.Yields env cd st)
    (h' : s.Yields env cd' st') : cd = cd' ∧ st = st' := by
  obtain ⟨n, c, hobs, hres, hst, hno⟩ := h
  obtain ⟨n', c', hobs', hres', hst', hno'⟩ := h'
  have hn : n = n' := by
    rcases lt_trichotomy n n' with hlt | heq | hlt
    · rw [hno' n hlt] at hobs
      cases hobs
    · exact heq
    · rw [hno n' hlt] at hobs'
      cases hobs'
  subst hn
  obtain rfl := Option.some.inj (hobs.symm.trans hobs')
  exact ⟨StoreResult.cap.inj (hres.symm.trans hres'), hst.symm.trans hst'⟩

/-- The first cycles: the stage is stalled, or the request goes off. -/
theorem BeginsInitCode.step (h : s.BeginsInitCode cs1) (i : AttestInput) :
    attest.step s i
      = (if i.isStalled then s else { s with initFsm := .initEntry }, none) := by
  have hunit : s.unit.step s.io = (s.unit, ⟨none, none⟩) := by
    rw [h.idle.io, StoreUnit.step, h.unit]
    rfl
  have hact : s.act i = (if i.isStalled then s else { s with initFsm := .initEntry }, none) := by
    have hop : s.act i = s.actInit i cs1 := by
      unfold act
      rw [h.op]
    rw [hop, actInit, h.idle.initFsm]
  have hnext : ∀ fsm : InitFsm,
      (if ({ s with initFsm := fsm } : Attest w).op.isNone then i.next else s.op) = s.op := by
    intro fsm
    show (if s.op.isNone then i.next else s.op) = s.op
    rw [h.op]
    rfl
  unfold attest
  simp only
  rw [hact, hunit]
  cases i.isStalled with
  | true =>
    show ({ s with op := if s.op.isNone then i.next else s.op }, none) = (s, none)
    rw [hnext .idle]
  | false =>
    show ({ s with
      op := if s.op.isNone then i.next else s.op
      initFsm := .initEntry }, none) = _
    rw [hnext .initEntry]
    rfl

/-- The cycles the request is held: what the store answers is the result. -/
theorem InInit.step (h : s.InInit cs1) (i : AttestInput) :
    s.rsp.result = none ∧ attest.step s i = ({ s with unit := (s.unit.step s.io).1 }, none)
      ∨ ∃ id t, s.rsp.result = some id
        ∧ attest.step s i = (t, some ⟨.eInitCode cs1, s.findings,
            .cap (if id.valid then cs1.sealWith id.identSeal else .null)⟩)
        ∧ t.unit = (s.unit.step s.io).1 := by
  have hop : s.act i = s.actInit i cs1 := by
    unfold act
    rw [h.op]
  unfold attest
  simp only
  rw [hop]
  cases hr : s.rsp.result with
  | none =>
    left
    refine ⟨rfl, ?_⟩
    have hact : s.actInit i cs1 = (s, none) := by
      simp only [actInit, h.initFsm, hr]
    have hif : (if s.op.isNone then i.next else s.op) = s.op := by
      rw [h.op]
      rfl
    rw [hact]
    show ({ s with
      op := if s.op.isNone then i.next else s.op
      unit := (s.unit.step s.io).1 }, none) = _
    rw [hif]
  | some id =>
    have hact : s.actInit i cs1 = s.finish (.eInitCode cs1)
        (.cap (if id.valid then cs1.sealWith id.identSeal else .null)) := by
      simp only [actInit, h.initFsm, hr]
    rw [hact]
    exact Or.inr ⟨id, _, rfl, rfl, rfl⟩

/-- **The exchange once the request is made**: a store that is searching
answers in the end. -/
theorem exists_answer (hpos : 0 < st.entries.length) {n : ℕ}
    (h : (attest.stateAt s env n).InInit cs1)
    (hserves : Request.init.Serves st (attest.stateAt s env n).unit) :
    ∃ m c, n ≤ m ∧ attest.obsAt s env m = some c ∧ c.result = .cap (st.initCode cs1)
      ∧ (attest.stateAt s env (m + 1)).unit.store = st.initEntry.2
      ∧ ∀ k, n ≤ k → k < m → attest.obsAt s env k = none := by
  -- induction on the cycles the search may still take
  induction hL : (attest.stateAt s env n).unit.left using Nat.strongRecOn generalizing n with
  | ind L ih =>
    have hmakes : Makes st (attest.stateAt s env n) .init := .init cs1 h
    have hio := hmakes.io
    have hserved := hserves.served hpos (fun otype he => by cases he)
    unfold StoreUnit.Served at hserved
    rw [← hio] at hserved
    rcases h.step (env n) with ⟨hnone, hstep⟩ | ⟨id, t, hsome, hstep, hunit⟩
    · rcases hserved with ⟨-, hgoes⟩ | hans
      · have hnext : attest.stateAt s env (n + 1)
            = { attest.stateAt s env n with
                unit := ((attest.stateAt s env n).unit.step (attest.stateAt s env n).io).1 } :=
          congrArg Prod.fst hstep
        have hunit' : (attest.stateAt s env (n + 1)).unit
            = ((attest.stateAt s env n).unit.step (attest.stateAt s env n).io).1 := by
          rw [hnext]
        obtain ⟨m, c, hm, hobs, hres, hst, hno⟩ := ih _ (hL ▸ hgoes.left_lt)
          (by rw [hnext]; exact ⟨h.op, h.initFsm, h.initDataFsm, h.storeIdFsm⟩)
          (by rw [hunit']; exact hgoes.serves) (by rw [hunit'])
        refine ⟨m, c, Nat.le_of_succ_le hm, hobs, hres, hst, fun k hk hkm => ?_⟩
        rcases Nat.eq_or_lt_of_le hk with rfl | hlt
        · exact congrArg Prod.snd hstep
        · exact hno k hlt hkm
      · -- the answer is on the channel that is listened to
        have hrsp : (attest.stateAt s env n).rsp = (Request.init.answer st).1 := hans.rsp
        rw [hrsp] at hnone
        cases hnone
    · rcases hserved with ⟨hquiet, -⟩ | hans
      · have hrsp : (attest.stateAt s env n).rsp = ⟨none, none⟩ := hquiet
        rw [hrsp] at hsome
        cases hsome
      · have hrsp : (attest.stateAt s env n).rsp = (Request.init.answer st).1 := hans.rsp
        rw [hrsp] at hsome
        obtain rfl := Option.some.inj hsome
        refine ⟨n, _, le_refl n, congrArg Prod.snd hstep, rfl, ?_,
          fun k hk hkn => absurd hk (Nat.not_le.2 hkn)⟩
        have hnext : attest.stateAt s env (n + 1) = t := congrArg Prod.fst hstep
        rw [hnext, hunit]
        exact hans.store

/-- **Every `EInitCode` completes**, with what the atomic store gives it. -/
theorem BeginsInitCode.yields (h : s.BeginsInitCode cs1)
    (hpos : 0 < s.unit.store.entries.length) (henv : ∃ n, (env n).isStalled = false) :
    s.Yields env (s.unit.store.initCode cs1) s.unit.store.initEntry.2 := by
  classical
  -- the first cycle that is not stalled
  obtain ⟨n, hn, hbefore⟩ : ∃ n, (env n).isStalled = false ∧ ∀ k < n, (env k).isStalled = true :=
    ⟨Nat.find henv, Nat.find_spec henv, fun k hk => by
      simpa using Nat.find_min henv hk⟩
  have hwait : ∀ k, k ≤ n → attest.stateAt s env k = s := by
    intro k hk
    induction k with
    | zero => rfl
    | succ k ih =>
      have hst : attest.next s (env k) = s := by
        show (attest.step s (env k)).1 = s
        rw [h.step, hbefore k hk, if_pos rfl]
      rw [SyncMachine.stateAt_succ, ih (Nat.le_of_succ_le hk), hst]
  have hquiet : ∀ k, k ≤ n → attest.obsAt s env k = none := by
    intro k hk
    show (attest.step (attest.stateAt s env k) (env k)).2 = none
    rw [hwait k hk, h.step]
  have hgo : attest.stateAt s env (n + 1) = { s with initFsm := .initEntry } := by
    rw [SyncMachine.stateAt_succ, hwait n (le_refl n)]
    show (attest.step s (env n)).1 = _
    rw [h.step, hn]
    rfl
  have hin : (attest.stateAt s env (n + 1)).InInit cs1 := by
    rw [hgo]
    exact ⟨h.op, rfl, h.idle.initDataFsm, h.idle.storeIdFsm⟩
  have hserves : Request.init.Serves s.unit.store (attest.stateAt s env (n + 1)).unit := by
    rw [hgo]
    exact ⟨rfl, Or.inl h.unit⟩
  obtain ⟨m, c, hm, hobs, hres, hst, hno⟩ := exists_answer hpos hin hserves
  refine ⟨m, c, hobs, hres, hst, fun k hk => ?_⟩
  rcases Nat.lt_or_ge n k with hlt | hge
  · exact hno k hlt hk
  · exact hquiet k hge

end Attest

/-! ## What is allocated -/

namespace IdentityStore

variable {st st' : IdentityStore w}

/-- **The store is one the core can build**: an entry at least, a counter in
its range, ids for all it can issue, and seals for all ids. -/
structure Configured (st : IdentityStore w) : Prop where
  pos : 0 < st.entries.length
  counter : st.nextId ≤ st.numEnclaveIds
  fits : st.numEnclaveIds ≤ 2 ^ w
  seals : w + 2 ≤ otypeLen

/-- The seal of an id that is left. -/
theorem Configured.identSeal (h : st.Configured) (havail : st.idAvailable = true) :
    (⟨true, BitVec.ofNat w st.nextId⟩ : EnclaveId w).identSeal
      = BitVec.ofNat otypeLen (4 * st.nextId + 2) := by
  have hne : st.nextId ≠ st.numEnclaveIds := of_decide_eq_true havail
  have hlt : st.nextId < 2 ^ w := by
    have := h.counter
    have := h.fits
    omega
  have hid : (BitVec.ofNat w st.nextId).toNat = st.nextId := by
    rw [BitVec.toNat_ofNat]
    exact Nat.mod_eq_of_lt hlt
  have hseal := EnclaveId.toNat_identSeal h.seals ⟨true, BitVec.ofNat w st.nextId⟩
  rw [hid] at hseal
  refine BitVec.eq_of_toNat_eq ?_
  rw [BitVec.toNat_ofNat, Nat.mod_eq_of_lt (hseal ▸ BitVec.isLt _)]
  exact hseal

end IdentityStore

end Proteus

namespace CheriTree

open Sail

variable {f : CapFormat} {w : ℕ}

/-! ## The two tables -/

/-- The enclaves of a table of the Sail model: their numbers, and which of them
wait for their data section. -/
def sailEnclaves (t : ETable f) : List (ℕ × Bool) :=
  t.slots.filterMap fun o => o.map fun e => (e.eid.toNat, e.isTemp)

/-- The enclaves of the identity store of Proteus. -/
def proteusEnclaves (st : Proteus.IdentityStore w) : List (ℕ × Bool) :=
  st.entries.filterMap fun e => if e.used then some (e.id.id.toNat, !e.ready) else none

/-- **The same table**: the entries in use are those of the table, in some
order, and the next number is the counter. -/
structure SameTable (t : State f) (st : Proteus.IdentityStore w) : Prop where
  entries : (sailEnclaves t.etable).Perm (proteusEnclaves st)
  counter : t.eidCounter.toNat = st.nextId

/-- **The same room**: both tables are full or neither is, and both are out of
numbers or neither is. -/
structure SameRoom (t : State f) (st : Proteus.IdentityStore w) : Prop where
  table : t.etable.findFreeIdx = none ↔ ∀ e ∈ st.entries, e.used = true
  ids : f.capMaxOtype < 4 * t.eidCounter.toNat + 3 ↔ st.idAvailable = false

/-- **The same operand**, in what `EInitCode` looks at. -/
structure SameOperand (a : Sail.Capability f) (c : Proteus.Capability) : Prop where
  tag : a.tag = c.tag
  isSealed : a.isCapSealed = c.isSealed
  load : a.permitLoad = c.perms.load

/-- **`EInitCode` of Proteus refines the one of the Sail model** on an operand:
it gives null and leaves the table and the counter where that one fails; where
it succeeds, the operand sealed at its base under the number issued, with one
unfinished entry more, and the tables are the same again. -/
structure EInitCodeRefines (t : State f) (cd cs1 : Sail.RegIdx) (s : Proteus.Attest w)
    (env : ℕ → Proteus.AttestInput) (c : Proteus.Capability) : Prop where
  fails : (¬ ∃ t', executeEInitCode cd cs1 t = .ok (.RETIRE_SUCCESS, t')) →
    s.Yields env .null s.unit.store
  succeeds : ∀ t', executeEInitCode cd cs1 t = .ok (.RETIRE_SUCCESS, t') →
    ∃ st', s.Yields env { c with
        offset := 0
        otype := BitVec.ofNat Proteus.otypeLen (4 * t.eidCounter.toNat + 2) } st'
      ∧ s.unit.store.Adds st' ∧ SameTable t' st'

/-- The Sail model takes the operand. -/
structure SailTakes (cd cs1 : Sail.RegIdx) (c : Proteus.Capability) : Prop where
  tag : c.tag = true
  isSealed : c.isSealed = false
  load : c.perms.load = true
  dest : cd = cs1

/-- An element without an image, replaced by one that has one. -/
theorem perm_filterMap_set {α β : Type} {g : α → Option β} {l : List α} {n : ℕ} {a b : α} {y : β}
    (hn : l[n]? = some a) (ha : g a = none) (hb : g b = some y) :
    ((l.set n b).filterMap g).Perm (y :: l.filterMap g) := by
  obtain ⟨hlt, rfl⟩ := List.getElem?_eq_some_iff.1 hn
  rw [List.set_eq_take_append_cons_drop, if_pos hlt]
  conv_rhs => rw [← List.take_append_drop n l, List.drop_eq_getElem_cons hlt]
  rw [List.filterMap_append, List.filterMap_append, List.filterMap_cons_some hb,
    List.filterMap_cons_none ha]
  exact List.perm_middle

section

variable {t t' : State f} {cd cs1 : Sail.RegIdx} {s : Proteus.Attest w} {c : Proteus.Capability}
  {st st' : Proteus.IdentityStore w} {env : ℕ → Proteus.AttestInput}

/-- **When the Sail model succeeds**, in terms of the other side. -/
theorem success_iff (hop : SameOperand (t.rC cs1) c) (hroom : SameRoom t st) :
    (∃ t', executeEInitCode cd cs1 t = .ok (.RETIRE_SUCCESS, t'))
      ↔ SailTakes cd cs1 c ∧ st.CanAllocate := by
  have hids : 4 * t.eidCounter.toNat + 3 ≤ f.capMaxOtype ↔ st.idAvailable = true := by
    rw [← Nat.not_lt, hroom.ids, Bool.not_eq_false]
  have htable : (∃ idx, t.etable.findFreeIdx = some idx) ↔ ∃ e ∈ st.entries, e.used = false := by
    rw [← Option.ne_none_iff_exists', Ne, hroom.table]
    push Not
    simp only [Bool.not_eq_true]
  constructor
  · rintro ⟨t', h⟩
    obtain ⟨htag, hseal, hload, hcd, hle, idx, hidx, -⟩ := executeEInitCode_success_iff.1 h
    exact ⟨⟨hop.tag ▸ htag, hop.isSealed ▸ hseal, hop.load ▸ hload, hcd⟩, hids.1 hle,
      htable.1 ⟨idx, hidx⟩⟩
  · rintro ⟨htakes, havail, hfree⟩
    obtain ⟨idx, hidx⟩ := htable.2 hfree
    exact ⟨_, executeEInitCode_success_iff.2 ⟨hop.tag.trans htakes.tag,
      hop.isSealed.trans htakes.isSealed, hop.load.trans htakes.load, htakes.dest, hids.2 havail,
      idx, hidx, rfl⟩⟩

/-- **One entry more on both sides**: the tables are the same again. -/
theorem SameTable.adds (h : SameTable t st) (hconf : st.Configured)
    (havail : st.idAvailable = true) (hadds : st.Adds st')
    (hrun : executeEInitCode cd cs1 t = .ok (.RETIRE_SUCCESS, t')) : SameTable t' st' := by
  obtain ⟨-, -, -, -, hle, idx, hidx, rfl⟩ := executeEInitCode_success_iff.1 hrun
  obtain ⟨n, e, hn, hfree, rfl⟩ := hadds
  have hcount := counter_lt hle
  have hslot : t.etable.slots[idx]? = some none := by
    obtain ⟨j, hj, hslot⟩ := ETable.findFreeIdxH_eq_some hidx
    rw [Nat.zero_add] at hj
    rw [hj]
    exact hslot
  have hlt : st.nextId < 2 ^ w := by
    have hne : st.nextId ≠ st.numEnclaveIds := of_decide_eq_true havail
    have := hconf.counter
    have := hconf.fits
    omega
  have hnum : t.nextEid.toNat = st.nextId := by
    rw [State.nextEid, BitVec.toNat_setWidth, Nat.mod_eq_of_lt hcount.1, h.counter]
  -- the register written is none of the table's
  have hsame : (t.initCode cd cs1 idx).etable
        = t.etable.set idx (some ⟨0, t.nextEid, true⟩)
      ∧ (t.initCode cd cs1 idx).eidCounter = t.eidCounter + 1 := by
    unfold State.initCode State.wC
    split <;> exact ⟨rfl, rfl⟩
  constructor
  · rw [hsame.1]
    have hsail : (sailEnclaves (t.etable.set idx (some ⟨0, t.nextEid, true⟩))).Perm
        ((st.nextId, true) :: sailEnclaves t.etable) :=
      perm_filterMap_set hslot rfl (by rw [← hnum]; rfl)
    have hproteus := perm_filterMap_set
      (g := fun e : Proteus.Entry w => if e.used then some (e.id.id.toNat, !e.ready) else none)
      (b := ⟨true, false, ⟨true, BitVec.ofNat w st.nextId⟩, 0⟩) (y := (st.nextId, true)) hn
      (by rw [hfree]; rfl)
      (by
        show some ((BitVec.ofNat w st.nextId).toNat, true) = _
        rw [BitVec.toNat_ofNat, Nat.mod_eq_of_lt hlt])
    exact (hsail.trans (h.entries.cons _)).trans hproteus.symm
  · have hone : (1 : BitVec (f.ow - 1)).toNat = 1 := by
      show (1#(f.ow - 1)).toNat = 1
      rw [BitVec.toNat_ofNat, Nat.mod_eq_of_lt (by omega)]
    rw [hsame.2, BitVec.toNat_add, hone, Nat.mod_eq_of_lt hcount.2, h.counter]

end

/-- The Sail model after reset, with a capability in `c1`. -/
def codeState (a : Sail.Capability .cheri64) : State .cheri64 :=
  { bootState with
    x := fun r => if r = 1 then a else .nullCap _ }

/-- Proteus after reset, with an `EInitCode` in the memory stage. -/
def enteringCode (c : Proteus.Capability) : Proteus.Attest 8 :=
  { (Proteus.Attest.reset 256 32 : Proteus.Attest 8) with
    op := some (.eInitCode c) }

/-- A code section of two words. -/
def codeSection : Proteus.Capability := ⟨true, 0x80000010, 8, 0, .allowAll, .unsealed⟩

/-- The same section for the Sail model. -/
def sailSection : Sail.Capability .cheri64 := .bounded 0x80000010 0x80000018

theorem enteringCode_begins (c : Proteus.Capability) : (enteringCode c).BeginsInitCode c :=
  ⟨rfl, ⟨rfl, rfl, rfl⟩, rfl⟩

theorem enteringCode_configured (c : Proteus.Capability) :
    (enteringCode c).unit.store.Configured := by
  show (Proteus.IdentityStore.reset 256 32 : Proteus.IdentityStore 8).Configured
  exact ⟨by decide, by decide, by decide, by decide⟩

theorem sameTable_entering (a : Sail.Capability .cheri64) (c : Proteus.Capability) :
    SameTable (codeState a) (enteringCode c).unit.store where
  entries := by
    have hsail : sailEnclaves (codeState a).etable = [] := by
      show sailEnclaves (initETable : ETable .cheri64) = []
      decide +kernel
    have hproteus : proteusEnclaves (enteringCode c).unit.store = [] := by
      show proteusEnclaves (Proteus.IdentityStore.reset 256 32 : Proteus.IdentityStore 8) = []
      decide +kernel
    rw [hsail, hproteus]
  counter := rfl

theorem sameRoom_entering (a : Sail.Capability .cheri64) (c : Proteus.Capability) :
    SameRoom (codeState a) (enteringCode c).unit.store where
  table := by
    show (initETable : ETable .cheri64).findFreeIdx = none
      ↔ ∀ e ∈ (Proteus.IdentityStore.reset 256 32 : Proteus.IdentityStore 8).entries, e.used = true
    decide +kernel
  ids := by
    show CapFormat.cheri64.capMaxOtype < 4 * (0 : BitVec 3).toNat + 3
      ↔ (Proteus.IdentityStore.reset 256 32 : Proteus.IdentityStore 8).idAvailable = false
    decide +kernel

end CheriTree
