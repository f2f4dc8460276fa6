import CheriTree.Proteus.StoreHandshake

/-!
# The walk of the identity store

A request makes the store walk its entries, one per cycle, until one of them
decides or the last one is passed over. `Request` collects the four requests:
the signals each is made with, the entries its walk passes over, and the answer
of the atomic store. What the walk has passed over (`StoreUnit.Searching`) is
enough to tell that its answer is the atomic one (`Request.Serves.served`).
-/

namespace Proteus

variable {w : ℕ}

/-! ## The walk of a request -/

section Walk

variable {α : Type} {l : List α} {n : ℕ} {a : α}

/-- The elements before an index have a property. -/
def Before (l : List α) (n : ℕ) (P : α → Prop) : Prop := ∀ k < n, ∀ a, l[k]? = some a → P a

theorem Before.succ {P : α → Prop} (h : Before l n P) (hn : ∀ a, l[n]? = some a → P a) :
    Before l (n + 1) P := by
  intro k hk a ha
  obtain hk | rfl := Nat.lt_succ_iff_lt_or_eq.1 hk
  · exact h k hk a ha
  · exact hn a ha

theorem Before.tail {P : α → Prop} {b : α} (h : Before (b :: l) (n + 1) P) : Before l n P :=
  fun k hk a ha => h (k + 1) (Nat.succ_lt_succ hk) a ha

theorem Before.forall_mem {P : α → Prop} (h : Before l n P) (hn : l.length ≤ n) :
    ∀ a ∈ l, P a := by
  intro a ha
  obtain ⟨k, hk, rfl⟩ := List.getElem_of_mem ha
  exact h k (by omega) _ (List.getElem?_eq_getElem hk)

/-- The first element that has a property is where the elements before do not
have it. -/
theorem find?_of_before {p : α → Bool} (h : Before l n (fun a => p a = false))
    (hn : l[n]? = some a) (ha : p a = true) : l.find? p = some a := by
  induction l generalizing n with
  | nil => cases hn
  | cons b l ih =>
    cases n with
    | zero =>
      obtain rfl := Option.some.inj hn
      rw [List.find?_cons, ha]
    | succ n =>
      rw [List.find?_cons, h 0 (Nat.succ_pos n) b rfl]
      exact ih h.tail hn

theorem initWalk_of_before {l : List (Entry w)} {e : Entry w} (new : Entry w)
    (h : Before l n (fun e => e.used = true)) (hn : l[n]? = some e) (he : e.used = false) :
    IdentityStore.initWalk new l = some (l.set n new) := by
  induction l generalizing n with
  | nil => cases hn
  | cons b l ih =>
    cases n with
    | zero =>
      obtain rfl := Option.some.inj hn
      simp [IdentityStore.initWalk, he]
    | succ n =>
      have hb : b.used = true := h 0 (Nat.succ_pos n) b rfl
      simp [IdentityStore.initWalk, hb, ih h.tail hn]

theorem initWalk_of_forall {l : List (Entry w)} (new : Entry w) (h : ∀ e ∈ l, e.used = true) :
    IdentityStore.initWalk new l = none := by
  induction l with
  | nil => rfl
  | cons b l ih =>
    obtain ⟨hb, hl⟩ := List.forall_mem_cons.1 h
    simp [IdentityStore.initWalk, hb, ih hl]

theorem finishWalk_of_before {l : List (Entry w)} {e : Entry w} {eid : EnclaveId w}
    (hash : Digest) (h : Before l n (fun e => e.id ≠ eid)) (hn : l[n]? = some e) (he : e.id = eid) :
    IdentityStore.finishWalk eid hash l = if e.used && !e.ready then
      some (l.set n { e with hash := hash, ready := true }) else none := by
  induction l generalizing n with
  | nil => cases hn
  | cons b l ih =>
    cases n with
    | zero =>
      obtain rfl := Option.some.inj hn
      simp [IdentityStore.finishWalk, he]
    | succ n =>
      have hb : b.id ≠ eid := h 0 (Nat.succ_pos n) b rfl
      rw [IdentityStore.finishWalk, if_neg hb, ih h.tail hn]
      split
      · rfl
      · rfl

theorem finishWalk_of_forall {l : List (Entry w)} {eid : EnclaveId w} (hash : Digest)
    (h : ∀ e ∈ l, e.id ≠ eid) : IdentityStore.finishWalk eid hash l = none := by
  induction l with
  | nil => rfl
  | cons b l ih =>
    obtain ⟨hb, hl⟩ := List.forall_mem_cons.1 h
    rw [IdentityStore.finishWalk, if_neg hb, ih hl]
    rfl

end Walk

/-! ## Requests -/

/-- No request. -/
def StoreIo.none : StoreIo w := ⟨false, false, false, false, .setInvalid, 0⟩

/-- **The requests.** -/
inductive Request where
  | init
  | getUnfinished (otype : ObjectType)
  | finish (otype : ObjectType) (hash : Digest)
  | getIdHash (otype : Word)
deriving DecidableEq, Repr

namespace Request

/-- The id a request is about. -/
def eid : Request → EnclaveId w
  | init => .setInvalid
  | getUnfinished otype => .assignFromOtype otype
  | finish otype _ => .assignFromOtype otype
  | getIdHash otype => .assignFromOtype otype

/-- The signals of a request. -/
def io : Request → StoreIo w
  | init => { (StoreIo.none : StoreIo w) with init := true }
  | getUnfinished otype => { (StoreIo.none : StoreIo w) with
      getUnfinished := true
      eid := .assignFromOtype otype }
  | finish otype hash => { (StoreIo.none : StoreIo w) with
      finish := true
      eid := .assignFromOtype otype
      hash := hash }
  | getIdHash otype => { (StoreIo.none : StoreIo w) with
      getIdHash := true
      eid := .assignFromOtype otype }

/-- The state of the store that serves a request. -/
def fsm : Request → SearchFsm
  | init => .initEntry
  | getUnfinished _ => .getUnfinishedEntry
  | finish _ _ => .finishEntry
  | getIdHash _ => .getHash

/-- An entry the search passes over. -/
def Misses : Request → Entry w → Prop
  | init, e => e.used = true
  | getUnfinished otype, e => (e.used && !e.ready && e.id = .assignFromOtype otype) = false
  | finish otype _, e => e.id ≠ .assignFromOtype otype
  | getIdHash otype, e => e.id ≠ .assignFromOtype otype

/-- A request the store searches for. -/
def admitted (st : IdentityStore w) : Request → Bool
  | init => st.idAvailable
  | r => (r.eid : EnclaveId w).valid

/-- **The answer of the atomic store**, and the store after it. -/
def answer (st : IdentityStore w) : Request → StoreRsp w × IdentityStore w
  | init => (⟨some st.initEntry.1, .none⟩, st.initEntry.2)
  | getUnfinished otype => (⟨some (st.getUnfinishedEntry otype), .none⟩, st)
  | finish otype hash =>
    (⟨some (st.finishEntry otype hash).1, .none⟩, (st.finishEntry otype hash).2)
  | getIdHash otype => (⟨.none, st.getHash otype⟩, st)

end Request

/-- **A search under way**: the entries before its index have been passed over. -/
structure StoreUnit.Searching (u : StoreUnit w) (r : Request) : Prop where
  fsm : u.fsm = r.fsm
  lt : u.searchIdx < u.store.entries.length
  before : Before u.store.entries u.searchIdx r.Misses

/-- The cycles a search may still take. -/
def StoreUnit.left (u : StoreUnit w) : ℕ :=
  if u.fsm = .idle then u.store.entries.length else u.store.entries.length - 1 - u.searchIdx

/-- **The store serves a request**: it is about to begin, or searches for it. -/
structure Request.Serves (st : IdentityStore w) (r : Request) (u : StoreUnit w) : Prop where
  store : u.store = st
  unit : u.fsm = .idle ∨ u.Searching r ∧ r.admitted st = true

namespace StoreUnit

variable {u : StoreUnit w} {r : Request} {st : IdentityStore w}

theorem Searching.entry (h : u.Searching r) : u.store.entries[u.searchIdx]? = some u.entry := by
  rw [StoreUnit.entry, List.getD_eq_getElem?_getD, List.getElem?_eq_getElem h.lt]
  rfl

/-- An entry that is passed over: the search goes on, or all entries are. -/
theorem Searching.advance (h : u.Searching r) (hm : r.Misses u.entry)
    (atEnd : StoreUnit w × StoreRsp w) :
    (u.advance atEnd = ({ u with searchIdx := u.searchIdx + 1 }, ⟨none, none⟩)
      ∧ StoreUnit.Searching { u with searchIdx := u.searchIdx + 1 } r) ∨
    (u.advance atEnd = atEnd ∧ ∀ e ∈ u.store.entries, r.Misses e) := by
  have hbefore : Before u.store.entries (u.searchIdx + 1) r.Misses := by
    refine h.before.succ (fun e he => ?_)
    rw [h.entry] at he
    rw [← Option.some.inj he]
    exact hm
  have hlt := h.lt
  unfold StoreUnit.advance StoreUnit.last
  by_cases hlast : u.searchIdx + 1 = u.store.entries.length
  · right
    rw [if_pos (decide_eq_true hlast)]
    exact ⟨rfl, hbefore.forall_mem (by omega)⟩
  · left
    rw [if_neg (by rw [decide_eq_false hlast]; exact Bool.false_ne_true)]
    refine ⟨rfl, h.fsm, ?_, hbefore⟩
    show u.searchIdx + 1 < u.store.entries.length
    omega

/-- **A cycle of the store that does not answer**: the search goes on. -/
structure GoesOn (st : IdentityStore w) (r : Request) (u u' : StoreUnit w) : Prop where
  serves : r.Serves st u'
  searching : u'.Searching r
  left_lt : u'.left < u.left

theorem goesOn_enter (hpos : 0 < u.store.entries.length) (hidle : u.fsm = .idle)
    (hstore : u.store = st) (hadm : r.admitted st = true) :
    GoesOn st r u (u.enter r.fsm).1 := by
  have hs : (u.enter r.fsm).1.Searching r :=
    ⟨rfl, hpos, fun k hk => absurd hk (Nat.not_lt_zero k)⟩
  refine ⟨⟨hstore, .inr ⟨hs, hadm⟩⟩, hs, ?_⟩
  have hfsm : (u.enter r.fsm).1.fsm ≠ .idle := by
    show r.fsm ≠ .idle
    cases r <;> simp [Request.fsm]
  rw [left, left, if_neg hfsm, if_pos hidle]
  show u.store.entries.length - 1 - 0 < u.store.entries.length
  omega

theorem goesOn_advance (hstore : u.store = st) (hadm : r.admitted st = true) (hu : u.Searching r)
    (h : StoreUnit.Searching { u with searchIdx := u.searchIdx + 1 } r) :
    GoesOn st r u { u with searchIdx := u.searchIdx + 1 } := by
  refine ⟨⟨hstore, .inr ⟨h, hadm⟩⟩, h, ?_⟩
  have hfsm : u.fsm ≠ .idle := by
    rw [hu.fsm]
    cases r <;> simp [Request.fsm]
  have hlt := h.lt
  rw [left, left, if_neg hfsm, if_neg hfsm]
  show u.store.entries.length - 1 - (u.searchIdx + 1) < u.store.entries.length - 1 - u.searchIdx
  have hlt : u.searchIdx + 1 < u.store.entries.length := h.lt
  omega

/-- **A cycle of the store that answers**, as the atomic store does. -/
structure Answers (st : IdentityStore w) (r : Request) (x : StoreUnit w × StoreRsp w) : Prop where
  rsp : x.2 = (r.answer st).1
  store : x.1.store = (r.answer st).2
  idle : x.1.fsm = .idle

/-- What one cycle of the store does for a request it serves. -/
def Served (st : IdentityStore w) (r : Request) (u : StoreUnit w) : Prop :=
  ((u.step r.io).2 = ⟨none, none⟩ ∧ GoesOn st r u (u.step r.io).1) ∨ Answers st r (u.step r.io)

/-- A store at rest searches for a request, or has it fail on the first
channel. -/
theorem step_idle (hidle : u.fsm = .idle) :
    (u.step r.io = u.enter r.fsm ∧ r.admitted u.store = true)
      ∨ (u.step r.io = u.push .setInvalid ∧ r.admitted u.store = false) := by
  have hstep : u.step r.io = u.stepIdle r.io := by
    rw [step, hidle]
  rw [hstep]
  cases hadm : r.admitted u.store with
  | true =>
    refine Or.inl ⟨?_, rfl⟩
    cases r with
    | init =>
      have hid : u.store.idAvailable = true := hadm
      simp [stepIdle, Request.io, hid, Request.fsm]
    | getUnfinished otype =>
      have hid : (EnclaveId.assignFromOtype otype : EnclaveId w).valid = true := hadm
      simp [stepIdle, Request.io, StoreIo.none, hid, Request.fsm]
    | finish otype hash =>
      have hid : (EnclaveId.assignFromOtype otype : EnclaveId w).valid = true := hadm
      simp [stepIdle, Request.io, StoreIo.none, hid, Request.fsm]
    | getIdHash otype =>
      have hid : (EnclaveId.assignFromOtype otype : EnclaveId w).valid = true := hadm
      simp [stepIdle, Request.io, StoreIo.none, hid, Request.fsm]
  | false =>
    refine Or.inr ⟨?_, rfl⟩
    cases r with
    | init =>
      have hid : u.store.idAvailable = false := hadm
      simp [stepIdle, Request.io, hid]
    | getUnfinished otype =>
      have hid : (EnclaveId.assignFromOtype otype : EnclaveId w).valid = false := hadm
      simp [stepIdle, Request.io, StoreIo.none, hid]
    | finish otype hash =>
      have hid : (EnclaveId.assignFromOtype otype : EnclaveId w).valid = false := hadm
      simp [stepIdle, Request.io, StoreIo.none, hid]
    | getIdHash otype =>
      have hid : (EnclaveId.assignFromOtype otype : EnclaveId w).valid = false := hadm
      simp [stepIdle, Request.io, StoreIo.none, hid]

/-- The atomic store fails what is not searched for, but for a digest. -/
theorem answer_of_not_admitted (hhash : ∀ otype, r ≠ .getIdHash otype)
    (hno : r.admitted st = false) : r.answer st = (⟨some .setInvalid, none⟩, st) := by
  cases r with
  | init =>
    have hid : st.idAvailable = false := hno
    simp [Request.answer, IdentityStore.initEntry, hid]
  | getUnfinished otype =>
    have hid : (EnclaveId.assignFromOtype otype : EnclaveId w).valid = false := hno
    simp [Request.answer, IdentityStore.getUnfinishedEntry, hid]
  | finish otype hash =>
    have hid : (EnclaveId.assignFromOtype otype : EnclaveId w).valid = false := hno
    simp [Request.answer, IdentityStore.finishEntry, hid]
  | getIdHash otype => exact absurd rfl (hhash otype)

theorem served_idle (hidle : u.fsm = .idle) (hstore : u.store = st)
    (hpos : 0 < st.entries.length)
    (hhash : ∀ otype, r = .getIdHash otype → r.admitted st = true) : Served st r u := by
  unfold Served
  rcases step_idle (r := r) hidle with ⟨henter, hadm⟩ | ⟨hpush, hno⟩
  · left
    rw [hstore] at hadm
    rw [henter]
    exact ⟨rfl, goesOn_enter (by rw [hstore]; exact hpos) hidle hstore hadm⟩
  · right
    rw [hstore] at hno
    have hne : ∀ otype, r ≠ .getIdHash otype := by
      intro otype hr
      rw [hhash otype hr] at hno
      cases hno
    have hanswer := answer_of_not_admitted hne hno
    rw [hpush]
    exact ⟨(congrArg Prod.fst hanswer).symm, hstore.trans (congrArg Prod.snd hanswer).symm, rfl⟩

/-- A search that is passed over its last entry, or goes on. -/
theorem served_advance (hstore : u.store = st) (hadm : r.admitted st = true) (hu : u.Searching r)
    (hm : r.Misses u.entry) (atEnd : StoreUnit w × StoreRsp w)
    (hstep : u.step r.io = u.advance atEnd)
    (hend : (∀ e ∈ st.entries, r.Misses e) → Answers st r atEnd) : Served st r u := by
  unfold Served
  rw [hstep]
  obtain ⟨hadv, hs⟩ | ⟨hadv, hall⟩ := hu.advance hm atEnd
  · left
    rw [hadv]
    exact ⟨rfl, goesOn_advance hstore hadm hu hs⟩
  · right
    rw [hadv]
    rw [hstore] at hall
    exact hend hall

theorem served_init (hstore : u.store = st) (hadm : Request.init.admitted st = true)
    (hu : u.Searching .init) : Served st .init u := by
  have hstep : u.step Request.init.io = u.stepInitEntry := by
    rw [step, hu.fsm]
    rfl
  have hid : st.idAvailable = true := hadm
  cases hused : u.entry.used with
  | true =>
    refine served_advance hstore hadm hu hused (u.push .setInvalid) ?_ (fun hall => ?_)
    · rw [hstep, stepInitEntry, hused]
      rfl
    · have hnone := initWalk_of_forall
        { (Entry.empty : Entry w) with used := true, id := ⟨true, BitVec.ofNat w st.nextId⟩ }
        hall
      refine ⟨?_, ?_, rfl⟩
      · simp [Request.answer, IdentityStore.initEntry, hid, hnone, push]
      · simp [Request.answer, IdentityStore.initEntry, hid, hnone, push, hstore]
  | false =>
    right
    have hbefore := hu.before
    have hentry := hu.entry
    rw [hstore] at hbefore hentry
    have hwalk := initWalk_of_before
      { (Entry.empty : Entry w) with used := true, id := ⟨true, BitVec.ofNat w st.nextId⟩ }
      hbefore hentry hused
    rw [hstep, stepInitEntry, hused]
    refine ⟨?_, ?_, rfl⟩
    · simp [Request.answer, IdentityStore.initEntry, hid, hwalk, push, hstore]
    · simp [Request.answer, IdentityStore.initEntry, hid, hwalk, push, hstore, writeEntry]

theorem served_getUnfinished {otype : ObjectType} (hstore : u.store = st)
    (hadm : (Request.getUnfinished otype).admitted st = true)
    (hu : u.Searching (.getUnfinished otype)) : Served st (.getUnfinished otype) u := by
  have hstep : u.step (Request.getUnfinished otype).io
      = u.stepGetUnfinishedEntry (Request.getUnfinished otype).io := by
    rw [step, hu.fsm]
    rfl
  have hid : (EnclaveId.assignFromOtype otype : EnclaveId w).valid = true := hadm
  have heid :
      (Request.getUnfinished otype).io.eid = (EnclaveId.assignFromOtype otype : EnclaveId w) :=
    rfl
  cases hmatch : (u.entry.used && !u.entry.ready && u.entry.id = .assignFromOtype otype) with
  | false =>
    refine served_advance hstore hadm hu hmatch (u.push .setInvalid) ?_ (fun hall => ?_)
    · rw [hstep, stepGetUnfinishedEntry, heid, hmatch]
      rfl
    · have hnone : st.entries.find?
          (fun e => e.used && !e.ready && e.id = .assignFromOtype otype) = none :=
        List.find?_eq_none.2 (fun e he => by rw [hall e he]; exact Bool.false_ne_true)
      refine ⟨?_, hstore, rfl⟩
      show (⟨some .setInvalid, none⟩ : StoreRsp w) = ⟨some (st.getUnfinishedEntry otype), none⟩
      simp [IdentityStore.getUnfinishedEntry, hid, hnone]
  | true =>
    right
    have hbefore := hu.before
    have hentry := hu.entry
    rw [hstore] at hbefore hentry
    have hfind := find?_of_before hbefore hentry hmatch
    rw [hstep, stepGetUnfinishedEntry, heid, hmatch]
    refine ⟨?_, hstore, rfl⟩
    show (⟨some u.entry.id, none⟩ : StoreRsp w) = ⟨some (st.getUnfinishedEntry otype), none⟩
    simp [IdentityStore.getUnfinishedEntry, hid, hfind]

theorem served_finish {otype : ObjectType} {hash : Digest} (hstore : u.store = st)
    (hadm : (Request.finish otype hash).admitted st = true)
    (hu : u.Searching (.finish otype hash)) : Served st (.finish otype hash) u := by
  have hstep : u.step (Request.finish otype hash).io
      = u.stepFinishEntry (Request.finish otype hash).io := by
    rw [step, hu.fsm]
    rfl
  have hid : (EnclaveId.assignFromOtype otype : EnclaveId w).valid = true := hadm
  have heid :
      (Request.finish otype hash).io.eid = (EnclaveId.assignFromOtype otype : EnclaveId w) :=
    rfl
  by_cases hmatch : u.entry.id = .assignFromOtype otype
  · right
    have hbefore := hu.before
    have hentry := hu.entry
    rw [hstore] at hbefore hentry
    have hwalk := finishWalk_of_before hash hbefore hentry hmatch
    rw [hstep, stepFinishEntry, heid, if_pos hmatch]
    cases hfree : (u.entry.used && !u.entry.ready) with
    | true =>
      rw [hfree] at hwalk
      refine ⟨?_, ?_, rfl⟩
      · simp [Request.answer, IdentityStore.finishEntry, hid, hwalk, push, Request.io]
      · simp [Request.answer, IdentityStore.finishEntry, hid, hwalk, push, writeEntry, hstore,
          Request.io]
    | false =>
      rw [hfree] at hwalk
      refine ⟨?_, ?_, rfl⟩
      · simp [Request.answer, IdentityStore.finishEntry, hid, hwalk, push]
      · simp [Request.answer, IdentityStore.finishEntry, hid, hwalk, push, hstore]
  · refine served_advance hstore hadm hu hmatch (u.push .setInvalid) ?_ (fun hall => ?_)
    · rw [hstep, stepFinishEntry, heid, if_neg hmatch]
    · have hnone := finishWalk_of_forall hash hall
      refine ⟨?_, ?_, rfl⟩
      · simp [Request.answer, IdentityStore.finishEntry, hid, hnone, push]
      · simp [Request.answer, IdentityStore.finishEntry, hid, hnone, push, hstore]

theorem served_getIdHash {otype : Word} (hstore : u.store = st)
    (hadm : (Request.getIdHash otype).admitted st = true)
    (hu : u.Searching (.getIdHash otype)) : Served st (.getIdHash otype) u := by
  have hstep : u.step (Request.getIdHash otype).io
      = u.stepGetHash (Request.getIdHash otype).io := by
    rw [step, hu.fsm]
    rfl
  have hid : (EnclaveId.assignFromOtype otype : EnclaveId w).valid = true := hadm
  have heid : (Request.getIdHash otype).io.eid = (EnclaveId.assignFromOtype otype : EnclaveId w) :=
    rfl
  by_cases hmatch : u.entry.id = .assignFromOtype otype
  · right
    have hbefore : Before st.entries u.searchIdx
        (fun e => decide (e.id = EnclaveId.assignFromOtype otype) = false) := by
      intro k hk e he
      rw [← hstore] at he
      exact decide_eq_false (hu.before k hk e he)
    have hentry := hu.entry
    rw [hstore] at hentry
    have hfind := find?_of_before hbefore hentry (decide_eq_true hmatch)
    rw [hstep, stepGetHash, heid, if_pos hmatch]
    cases hready : (u.entry.used && u.entry.ready) with
    | true =>
      refine ⟨?_, hstore, rfl⟩
      show (⟨none, some (some u.entry.hash)⟩ : StoreRsp w) = ⟨none, st.getHash otype⟩
      simp [IdentityStore.getHash, hid, hfind, hready]
    | false =>
      refine ⟨?_, hstore, rfl⟩
      show (⟨none, some none⟩ : StoreRsp w) = ⟨none, st.getHash otype⟩
      simp [IdentityStore.getHash, hid, hfind, hready]
  · refine served_advance hstore hadm hu hmatch (u.pushHash none) ?_ (fun hall => ?_)
    · rw [hstep, stepGetHash, heid, if_neg hmatch]
    · have hnone : st.entries.find? (fun e => e.id = .assignFromOtype otype) = none :=
        List.find?_eq_none.2 (fun e he => by
          rw [decide_eq_true_iff]
          exact hall e he)
      refine ⟨?_, hstore, rfl⟩
      show (⟨none, some none⟩ : StoreRsp w) = ⟨none, st.getHash otype⟩
      simp [IdentityStore.getHash, hid, hnone]

end StoreUnit

/-- **One cycle of the store for a request it serves.** -/
theorem Request.Serves.served {st : IdentityStore w} {r : Request} {u : StoreUnit w}
    (h : r.Serves st u) (hpos : 0 < st.entries.length)
    (hhash : ∀ otype, r = .getIdHash otype → r.admitted st = true) :
    StoreUnit.Served st r u := by
  obtain hidle | ⟨hu, hadm⟩ := h.unit
  · exact StoreUnit.served_idle hidle h.store hpos hhash
  · cases r with
    | init => exact StoreUnit.served_init h.store hadm hu
    | getUnfinished otype => exact StoreUnit.served_getUnfinished h.store hadm hu
    | finish otype hash => exact StoreUnit.served_finish h.store hadm hu
    | getIdHash otype => exact StoreUnit.served_getIdHash h.store hadm hu

end Proteus
