import CheriTree.SyncMachine
import CheriTree.Proteus.Capability

/-!
# The scan of the tag memory

`EInitData` walks the tagged granules of memory through a scan machine in the
memory tagger. The two exchange three signals: the sweep gives `reset` once
and `findNext` while it waits for an address, and the scan answers with an
item in the cycle it finds one. In a cycle in which the sweep does not ask,
the scan goes back to its idle state, but only after looking at one more
granule.

That extra look is what the result of this module is about. The sweep hears
of an item and turns to reading the capability, the scan has already moved to
the next granule and stays for a cycle; whatever it finds there is answered
to nobody. What the sweep receives is therefore not the list of the tagged
granules but that list with the granule after each received one left out,
`scanFrom`, and the two agree exactly where no two neighbours are tagged.
-/

namespace Proteus

/-! ## The two machines -/

/-- The states of the scan (`scanFsm`). -/
inductive ScanState where
  | IDLE
  | CHECK_TAG
  | DONE
deriving DecidableEq, Repr

/-- The states of the sweep (`uniquenessFsm`), as the scan sees them. Those
between the first and `GET_ADDRESS` give no signal and are one state here;
`OFF` is any time no sweep is running. -/
inductive SweepState where
  | OFF
  | START
  | CHECKS
  | GET_ADDRESS
  | GET_CAP
deriving DecidableEq, Repr

/-- The item the scan answers with; its address is the index of the granule. -/
structure ScanItem where
  ready : Bool
  valid : Bool
  index : ℕ
deriving DecidableEq, Repr

/-- **The scan and the sweep together.** -/
structure ScanMachine where
  scan : ScanState
  tagIdx : ℕ
  sweep : SweepState
deriving DecidableEq, Repr

/-- What the two do not decide themselves: whether a sweep starts, whether the
checks before the scan have all passed, and what the capability bus answers,
with the verdict on the capability it brings. -/
structure ScanInput where
  start : Bool
  checked : Bool
  rsp : Option Bool
deriving DecidableEq, Repr

/-- What a cycle shows: the granule handed to the sweep, and whether the sweep
has just heard that there is none left. -/
structure ScanObs where
  handed : Option ℕ
  complete : Bool
deriving DecidableEq, Repr

/-- A bit of the tag memory. -/
def tagAt (tags : List Bool) (k : ℕ) : Bool := tags.getD k false

namespace ScanMachine

/-- The signals the sweep gives. -/
def reset (m : ScanMachine) : Bool := m.sweep = .START

def findNext (m : ScanMachine) : Bool := m.sweep = .GET_ADDRESS

/-- The item of a cycle. -/
def item (tags : List Bool) (m : ScanMachine) : ScanItem :=
  match m.scan with
  | .IDLE => ⟨false, false, 0⟩
  | .CHECK_TAG =>
    if tagAt tags m.tagIdx then ⟨true, true, m.tagIdx⟩ else ⟨false, false, 0⟩
  | .DONE => if !m.reset && m.findNext then ⟨true, false, 0⟩ else ⟨false, false, 0⟩

/-- The next state of the scan, with its index. -/
def nextScan (tags : List Bool) (m : ScanMachine) : ScanState × ℕ :=
  match m.scan with
  | .IDLE =>
    if m.reset then (.IDLE, 0)
    else if m.findNext then (.CHECK_TAG, m.tagIdx)
    else (.IDLE, m.tagIdx)
  | .CHECK_TAG =>
    if m.tagIdx + 1 = tags.length then (.DONE, m.tagIdx)
    else (if !m.findNext then .IDLE else .CHECK_TAG, m.tagIdx + 1)
  | .DONE => (if m.reset then .IDLE else .DONE, 0)

/-- The next state of the sweep. -/
def nextSweep (tags : List Bool) (m : ScanMachine) (i : ScanInput) : SweepState :=
  match m.sweep with
  | .OFF => if i.start then .START else .OFF
  | .START => .CHECKS
  | .CHECKS => if i.checked then .GET_ADDRESS else .CHECKS
  | .GET_ADDRESS =>
    if (m.item tags).ready then if (m.item tags).valid then .GET_CAP else .OFF
    else .GET_ADDRESS
  | .GET_CAP =>
    match i.rsp with
    | none => .GET_CAP
    | some overlaps => if overlaps then .OFF else .GET_ADDRESS

/-- What a cycle shows. -/
def obs (tags : List Bool) (m : ScanMachine) : ScanObs where
  handed :=
    if m.sweep = .GET_ADDRESS ∧ (m.item tags).ready ∧ (m.item tags).valid then
      some (m.item tags).index
    else none
  complete := m.sweep = .GET_ADDRESS ∧ (m.item tags).ready ∧ ¬ (m.item tags).valid

/-- **One cycle of the two machines.** -/
def step (tags : List Bool) (m : ScanMachine) (i : ScanInput) : ScanMachine :=
  ⟨(m.nextScan tags).1, (m.nextScan tags).2, m.nextSweep tags i⟩

/-- The state of reset. -/
def init : ScanMachine := ⟨.IDLE, 0, .OFF⟩

end ScanMachine

/-- The scan as a machine driven by what surrounds it. -/
def capScan (tags : List Bool) : SyncMachine ScanMachine ScanInput ScanObs where
  step m i := (m.step tags i, m.obs tags)

/-- The address of a granule, as the scan computes it. -/
def granuleAddress (memoryStart : ℕ) (tagIdx : ℕ) : Word :=
  BitVec.ofNat 32 (tagIdx * capBytes + memoryStart)

/-! ## The list the sweep receives -/

/-- **The tagged granules of a tag memory**, each once, in increasing order. -/
def taggedGranules (tags : List Bool) : List ℕ :=
  (List.range tags.length).filter (tagAt tags)

/-- The same list by recursion on the tags, counted from `i`. -/
def taggedFrom (i : ℕ) : List Bool → List ℕ
  | [] => []
  | true :: ts => i :: taggedFrom (i + 1) ts
  | false :: ts => taggedFrom (i + 1) ts

/-- **The granules the sweep receives**: after a tagged one the next is
left out. -/
def scanFrom (i : ℕ) : List Bool → List ℕ
  | [] => []
  | [true] => [i]
  | true :: _ :: ts => i :: scanFrom (i + 2) ts
  | false :: ts => scanFrom (i + 1) ts

/-- No two neighbouring granules are both tagged. -/
def NoNeighbours (tags : List Bool) : Prop :=
  List.IsChain (fun a b : Bool => (a && b) = false) tags

instance (tags : List Bool) : Decidable (NoNeighbours tags) :=
  inferInstanceAs (Decidable (List.IsChain _ _))

theorem taggedFrom_eq_filter (i : ℕ) (ts : List Bool) :
    taggedFrom i ts
      = ((List.range ts.length).filter (tagAt ts)).map (fun k => i + k) := by
  induction ts generalizing i with
  | nil => rfl
  | cons b ts ih =>
    have hmap : ((fun k => i + k) ∘ Nat.succ) = fun k => i + 1 + k := by
      funext k
      rw [Function.comp_apply]
      omega
    rw [List.length_cons, List.range_succ_eq_map, List.filter_cons, List.filter_map]
    cases b with
    | true =>
      rw [show taggedFrom i (true :: ts) = i :: taggedFrom (i + 1) ts from rfl, ih,
        if_pos (show tagAt (true :: ts) 0 = true from rfl), List.map_cons, List.map_map, hmap]
      rfl
    | false =>
      rw [show taggedFrom i (false :: ts) = taggedFrom (i + 1) ts from rfl, ih,
        if_neg (show ¬ tagAt (false :: ts) 0 = true by simp [tagAt]), List.map_map, hmap]
      rfl

theorem taggedFrom_zero (tags : List Bool) : taggedFrom 0 tags = taggedGranules tags := by
  rw [taggedFrom_eq_filter, taggedGranules]
  exact (List.map_congr_left fun k _ => Nat.zero_add k).trans (List.map_id _)

@[simp] theorem scanFrom_nil (i : ℕ) : scanFrom i [] = [] := rfl

theorem scanFrom_cons_true (i : ℕ) (ts : List Bool) :
    scanFrom i (true :: ts) = i :: scanFrom (i + 2) ts.tail := by
  cases ts with
  | nil => rfl
  | cons b ts => rfl

theorem noNeighbours_cons_false (ts : List Bool) :
    NoNeighbours (false :: ts) ↔ NoNeighbours ts := by
  cases ts with
  | nil => simp [NoNeighbours]
  | cons c ts => simp [NoNeighbours]

theorem noNeighbours_cons_true_false (ts : List Bool) :
    NoNeighbours (true :: false :: ts) ↔ NoNeighbours ts := by
  rw [← noNeighbours_cons_false ts]
  simp [NoNeighbours]

/-- Where no two neighbours are tagged, nothing is left out. -/
theorem scanFrom_eq_taggedFrom {ts : List Bool} (h : NoNeighbours ts) (i : ℕ) :
    scanFrom i ts = taggedFrom i ts := by
  fun_induction scanFrom i ts with
  | case1 => rfl
  | case2 => rfl
  | case3 i b ts ih =>
    cases b with
    | true => exact absurd h (by simp [NoNeighbours])
    | false => rw [ih ((noNeighbours_cons_true_false ts).1 h)]; rfl
  | case4 i ts ih => rw [ih ((noNeighbours_cons_false ts).1 h)]; rfl

theorem length_scanFrom_le (i j : ℕ) (ts : List Bool) :
    (scanFrom i ts).length ≤ (taggedFrom j ts).length := by
  fun_induction scanFrom i ts generalizing j with
  | case1 => exact Nat.zero_le _
  | case2 => exact Nat.le_refl _
  | case3 i b ts ih =>
    cases b with
    | true => exact Nat.succ_le_succ ((ih (j + 2)).trans (Nat.le_succ _))
    | false => exact Nat.succ_le_succ (ih (j + 2))
  | case4 i ts ih => exact ih (j + 1)

/-- **Where two neighbours are tagged, the sweep receives too few.** -/
theorem noNeighbours_of_length_eq {ts : List Bool} {i j : ℕ}
    (h : (scanFrom i ts).length = (taggedFrom j ts).length) : NoNeighbours ts := by
  fun_induction scanFrom i ts generalizing j with
  | case1 => simp [NoNeighbours]
  | case2 => simp [NoNeighbours]
  | case3 i b ts ih =>
    cases b with
    | true =>
      -- the granule left out is tagged, so at least one item is missing
      have hle := length_scanFrom_le (i + 2) (j + 1 + 1) ts
      rw [show taggedFrom j (true :: true :: ts) = j :: (j + 1) :: taggedFrom (j + 1 + 1) ts
        from rfl, List.length_cons, List.length_cons, List.length_cons] at h
      omega
    | false =>
      rw [noNeighbours_cons_true_false]
      exact ih (Nat.succ.inj h)
  | case4 i ts ih =>
    rw [noNeighbours_cons_false]
    exact ih h

/-! ## Along a scan -/

namespace ScanMachine

variable {tags : List Bool}

/-- **What holds at every cycle.** The scan only looks at tags while the sweep
asks or in the cycle after; and once the sweep is past its first state the
scan is idle at the first granule. -/
structure Synchronised (tags : List Bool) (m : ScanMachine) : Prop where
  inRange : m.tagIdx < tags.length
  checkTag : m.scan = .CHECK_TAG → m.sweep = .GET_ADDRESS ∨ m.sweep = .GET_CAP
  checks : m.sweep = .CHECKS → m.scan = .IDLE ∧ m.tagIdx = 0

theorem synchronised_init (h : tags ≠ []) : Synchronised tags init where
  inRange := List.length_pos_iff.2 h
  checkTag := fun h => by cases h
  checks := fun h => by cases h

theorem Synchronised.step {m : ScanMachine} (h : m.Synchronised tags) (i : ScanInput) :
    (m.step tags i).Synchronised tags := by
  obtain ⟨hr, hc, hk⟩ := h
  obtain ⟨scan, idx, sweep⟩ := m
  have hpos : 0 < tags.length := Nat.zero_lt_of_lt hr
  refine ⟨?_, ?_, ?_⟩
  · cases scan with
    | IDLE => cases sweep <;> simp_all [ScanMachine.step, nextScan, reset, findNext]
    | CHECK_TAG =>
      by_cases hlast : idx + 1 = tags.length
      · simpa [ScanMachine.step, nextScan, hlast] using hr
      · simp only [ScanMachine.step, nextScan, hlast, if_false]
        simp only at hr
        omega
    | DONE => simpa [ScanMachine.step, nextScan] using hpos
  · cases scan with
    | IDLE =>
      cases sweep <;> simp [ScanMachine.step, nextScan, nextSweep, reset, findNext, item]
    | CHECK_TAG =>
      obtain hs | hs := hc rfl
      · simp only at hs
        subst hs
        by_cases ht : tagAt tags idx <;>
          by_cases hlast : idx + 1 = tags.length <;>
          simp [ScanMachine.step, nextScan, nextSweep, findNext, item, ht, hlast]
      · simp only at hs
        subst hs
        by_cases hlast : idx + 1 = tags.length <;>
          simp [ScanMachine.step, nextScan, findNext, hlast]
    | DONE => cases sweep <;> simp [ScanMachine.step, nextScan, reset]
  · intro hs
    cases sweep with
    | START =>
      cases scan with
      | IDLE => simp [ScanMachine.step, nextScan, reset]
      | CHECK_TAG => exact absurd (hc rfl) (by simp)
      | DONE => simp [ScanMachine.step, nextScan, reset]
    | CHECKS =>
      obtain ⟨h1, h2⟩ := hk rfl
      simp only at h1 h2
      subst h1 h2
      simp [ScanMachine.step, nextScan, reset, findNext]
    | OFF => cases hi : i.start <;> simp [ScanMachine.step, nextSweep, hi] at hs
    | GET_ADDRESS =>
      simp only [ScanMachine.step, nextSweep] at hs
      split_ifs at hs
    | GET_CAP =>
      cases hi : i.rsp with
      | none => simp [ScanMachine.step, nextSweep, hi] at hs
      | some o => cases o <;> simp [ScanMachine.step, nextSweep, hi] at hs

/-- **The granules the sweep is still to receive.** While it reads the
capability of one, the scan is already past the next. -/
def remaining (tags : List Bool) (m : ScanMachine) : List ℕ :=
  match m.sweep, m.scan with
  | .OFF, _ => []
  | .START, _ => scanFrom 0 tags
  | .CHECKS, _ => scanFrom 0 tags
  | _, .DONE => []
  | .GET_CAP, .CHECK_TAG => scanFrom (m.tagIdx + 1) (tags.drop (m.tagIdx + 1))
  | _, _ => scanFrom m.tagIdx (tags.drop m.tagIdx)

/-- The tags from a granule on start with its own. -/
theorem drop_eq_tagAt_cons {k : ℕ} (h : k < tags.length) :
    tags.drop k = tagAt tags k :: tags.drop (k + 1) := by
  rw [List.drop_eq_getElem_cons h, tagAt, List.getD_eq_getElem?_getD,
    List.getElem?_eq_getElem h, Option.getD_some]

theorem scanFrom_drop_of_tag {k : ℕ} (h : k < tags.length) (ht : tagAt tags k = true) :
    scanFrom k (tags.drop k) = k :: scanFrom (k + 2) (tags.drop (k + 2)) := by
  rw [drop_eq_tagAt_cons h, ht, scanFrom_cons_true, List.tail_drop]

theorem scanFrom_drop_of_not_tag {k : ℕ} (h : k < tags.length) (ht : tagAt tags k = false) :
    scanFrom k (tags.drop k) = scanFrom (k + 1) (tags.drop (k + 1)) := by
  rw [drop_eq_tagAt_cons h, ht]
  rfl

theorem scanFrom_drop_length {k : ℕ} (h : tags.length ≤ k) (j : ℕ) :
    scanFrom j (tags.drop k) = [] := by
  rw [List.drop_eq_nil_of_le h]
  rfl

/-- **One cycle** hands over the first of the remaining granules or none of
them. -/
theorem remaining_step {m : ScanMachine} (h : m.Synchronised tags) {i : ScanInput}
    (hrun : m.sweep ≠ .OFF) (hrsp : i.rsp ≠ some true) :
    m.remaining tags = (m.obs tags).handed.toList ++ (m.step tags i).remaining tags := by
  obtain ⟨hr, hc, hk⟩ := h
  obtain ⟨scan, idx, sweep⟩ := m
  simp only at hr hc hk hrun
  cases sweep with
  | OFF => exact absurd rfl hrun
  | START => simp [remaining, obs, step, nextSweep]
  | CHECKS =>
    obtain ⟨rfl, rfl⟩ := hk rfl
    cases hi : i.checked <;>
      simp [remaining, obs, step, nextSweep, nextScan, reset, findNext, hi]
  | GET_ADDRESS =>
    cases scan with
    | IDLE => simp [remaining, obs, step, nextSweep, nextScan, item, reset, findNext]
    | DONE => simp [remaining, obs, step, nextSweep, nextScan, item, reset, findNext]
    | CHECK_TAG =>
      by_cases hlast : idx + 1 = tags.length
      · cases ht : tagAt tags idx with
        | true =>
          simp [remaining, obs, step, nextSweep, nextScan, item, hlast, ht,
            scanFrom_drop_of_tag hr ht, scanFrom_drop_length (Nat.le_succ_of_le hlast.ge)]
        | false =>
          simp [remaining, obs, step, nextSweep, nextScan, item, hlast, ht,
            scanFrom_drop_of_not_tag hr ht]
      · cases ht : tagAt tags idx with
        | true =>
          simp [remaining, obs, step, nextSweep, nextScan, item, findNext, hlast, ht,
            scanFrom_drop_of_tag hr ht]
        | false =>
          simp [remaining, obs, step, nextSweep, nextScan, item, findNext, hlast, ht,
            scanFrom_drop_of_not_tag hr ht]
  | GET_CAP =>
    -- the answer, when there is one, says that nothing overlaps
    have hnext : nextSweep tags ⟨scan, idx, .GET_CAP⟩ i = .GET_CAP
        ∨ nextSweep tags ⟨scan, idx, .GET_CAP⟩ i = .GET_ADDRESS := by
      cases hi : i.rsp with
      | none => simp [nextSweep, hi]
      | some o => cases o <;> simp_all [nextSweep]
    cases scan with
    | IDLE =>
      obtain hn | hn := hnext <;>
        simp [remaining, obs, step, nextScan, reset, findNext, hn]
    | DONE =>
      obtain hn | hn := hnext <;> simp [remaining, obs, step, nextScan, reset, hn]
    | CHECK_TAG =>
      by_cases hlast : idx + 1 = tags.length
      · obtain hn | hn := hnext <;> simp [remaining, obs, step, nextScan, hlast, hn]
      · obtain hn | hn := hnext <;>
          simp [remaining, obs, step, nextScan, findNext, hlast, hn]

/-- A sweep that hears of no overlap ends where the scan says it is done. -/
theorem step_off_iff {m : ScanMachine} {i : ScanInput} (hrun : m.sweep ≠ .OFF)
    (hrsp : i.rsp ≠ some true) :
    (m.step tags i).sweep = .OFF ↔ (m.obs tags).complete = true := by
  obtain ⟨scan, idx, sweep⟩ := m
  cases sweep with
  | OFF => exact absurd rfl hrun
  | START => simp [step, nextSweep, obs]
  | CHECKS => cases hi : i.checked <;> simp [step, nextSweep, obs, hi]
  | GET_ADDRESS =>
    simp only [step, nextSweep, obs]
    cases (item tags ⟨scan, idx, .GET_ADDRESS⟩).ready <;>
      cases (item tags ⟨scan, idx, .GET_ADDRESS⟩).valid <;> simp
  | GET_CAP =>
    cases hi : i.rsp with
    | none => simp [step, nextSweep, obs, hi]
    | some o => cases o <;> simp_all [step, nextSweep, obs]

/-- The cycle waits for something outside: the checks, or the bus. -/
def Waits (m : ScanMachine) (i : ScanInput) : Prop :=
  (m.sweep = .CHECKS ∧ i.checked = false) ∨ (m.sweep = .GET_CAP ∧ i.rsp = none)

/-- A bound on the cycles left, not counting those that wait. -/
def cyclesLeft (tags : List Bool) (m : ScanMachine) : ℕ :=
  match m.sweep, m.scan with
  | .OFF, _ => 0
  | .START, _ => 3 * tags.length + 4
  | .CHECKS, _ => 3 * tags.length + 3
  | .GET_ADDRESS, .IDLE => 3 * (tags.length - m.tagIdx) + 2
  | .GET_ADDRESS, .CHECK_TAG => 3 * (tags.length - m.tagIdx) + 1
  | .GET_ADDRESS, .DONE => 1
  | .GET_CAP, .DONE => 2
  | .GET_CAP, _ => 3 * (tags.length - m.tagIdx) + 3

/-- **A cycle that does not wait makes progress**, and one that waits loses
none. -/
theorem cyclesLeft_step {m : ScanMachine} (h : m.Synchronised tags) {i : ScanInput}
    (hrun : m.sweep ≠ .OFF) (hrsp : i.rsp ≠ some true) :
    (m.step tags i).cyclesLeft tags < m.cyclesLeft tags
      ∨ m.Waits i ∧ (m.step tags i).cyclesLeft tags ≤ m.cyclesLeft tags
        ∧ (m.step tags i).sweep = m.sweep := by
  obtain ⟨hr, hc, hk⟩ := h
  obtain ⟨scan, idx, sweep⟩ := m
  simp only at hr hc hk hrun
  cases sweep with
  | OFF => exact absurd rfl hrun
  | START => exact Or.inl (by simp [cyclesLeft, step, nextSweep])
  | CHECKS =>
    obtain ⟨rfl, rfl⟩ := hk rfl
    cases hi : i.checked with
    | true => exact Or.inl (by simp [cyclesLeft, step, nextSweep, nextScan, reset, findNext, hi])
    | false => exact Or.inr (by simp [Waits, cyclesLeft, step, nextSweep, hi])
  | GET_ADDRESS =>
    left
    cases scan with
    | IDLE => simp [cyclesLeft, step, nextSweep, nextScan, item, reset, findNext]
    | DONE => simp [cyclesLeft, step, nextSweep, nextScan, item, reset, findNext]
    | CHECK_TAG =>
      by_cases hlast : idx + 1 = tags.length
      · cases ht : tagAt tags idx <;>
          simp [cyclesLeft, step, nextSweep, nextScan, item, hlast, ht] <;> omega
      · cases ht : tagAt tags idx <;>
          simp [cyclesLeft, step, nextSweep, nextScan, item, findNext, hlast, ht] <;> omega
  | GET_CAP =>
    cases hi : i.rsp with
    | none =>
      right
      refine ⟨Or.inr ⟨rfl, hi⟩, ?_, by simp [step, nextSweep, hi]⟩
      cases scan with
      | IDLE => simp [cyclesLeft, step, nextSweep, nextScan, reset, findNext, hi]
      | DONE => simp [cyclesLeft, step, nextSweep, nextScan, reset, hi]
      | CHECK_TAG =>
        by_cases hlast : idx + 1 = tags.length
        · simp [cyclesLeft, step, nextSweep, nextScan, hlast, hi]
        · simp [cyclesLeft, step, nextSweep, nextScan, findNext, hlast, hi]
          omega
    | some o =>
      left
      cases o with
      | true => exact absurd hi hrsp
      | false =>
        cases scan with
        | IDLE => simp [cyclesLeft, step, nextSweep, nextScan, reset, findNext, hi]
        | DONE => simp [cyclesLeft, step, nextSweep, nextScan, reset, hi]
        | CHECK_TAG =>
          by_cases hlast : idx + 1 = tags.length
          · simp [cyclesLeft, step, nextSweep, nextScan, hlast, hi]
          · simp [cyclesLeft, step, nextSweep, nextScan, findNext, hlast, hi]
            omega

/-- Only a sweep that is off has no cycles left. -/
theorem cyclesLeft_eq_zero_iff {m : ScanMachine} :
    m.cyclesLeft tags = 0 ↔ m.sweep = .OFF := by
  obtain ⟨scan, idx, sweep⟩ := m
  cases sweep <;> cases scan <;> simp [cyclesLeft]

end ScanMachine

/-! ## Whole scans -/

section Scan

variable {tags : List Bool} {m : ScanMachine} {env : ℕ → ScanInput}

/-- **What surrounds a scan that may run to its end**: no capability read
overlaps, the checks before the scan pass some time, and the bus answers some
time, however often it is asked and however long it takes. -/
structure Answers (env : ℕ → ScanInput) : Prop where
  noOverlap : ∀ k, (env k).rsp ≠ some true
  checked : ∀ k, ∃ k', k ≤ k' ∧ (env k').checked = true
  answered : ∀ k, ∃ k', k ≤ k' ∧ (env k').rsp ≠ none

/-- The granules handed to the sweep in the first `n` cycles. -/
def handedBefore (tags : List Bool) (m : ScanMachine) (env : ℕ → ScanInput) (n : ℕ) : List ℕ :=
  (List.range n).filterMap (fun k => ((capScan tags).obsAt m env k).handed)

/-- **The scan reports completion in cycle `n`**, and in none before. -/
def CompletesAt (tags : List Bool) (m : ScanMachine) (env : ℕ → ScanInput) (n : ℕ) : Prop :=
  ((capScan tags).obsAt m env n).complete = true
    ∧ ∀ k < n, ((capScan tags).obsAt m env k).complete = false

theorem synchronised_stateAt (h : m.Synchronised tags) (n : ℕ) :
    ((capScan tags).stateAt m env n).Synchronised tags :=
  (capScan tags).stateAt_invariant (fun _ i hm (_ : True) => hm.step i) h
    (fun _ => trivial) n

/-- What a state of the sweep waits for has come. -/
def SweepState.Comes : SweepState → ScanInput → Prop
  | .CHECKS, i => i.checked = true
  | .GET_CAP, i => i.rsp ≠ none
  | _, _ => True

/-- A sweep does not wait for ever. -/
theorem exists_cyclesLeft_eq_zero (h : m.Synchronised tags) (henv : Answers env) :
    ∃ n, ((capScan tags).stateAt m env n).cyclesLeft tags = 0 := by
  have hstep : ∀ (t : ScanMachine) (i : ScanInput), t.Synchronised tags → i.rsp ≠ some true →
      t.cyclesLeft tags ≠ 0 →
      ((capScan tags).next t i).cyclesLeft tags < t.cyclesLeft tags
        ∨ ¬ t.sweep.Comes i ∧ ((capScan tags).next t i).cyclesLeft tags ≤ t.cyclesLeft tags
          ∧ ((capScan tags).next t i).sweep = t.sweep := by
    intro t i ht hrsp h0
    have hrun : t.sweep ≠ .OFF := fun hoff => h0 (ScanMachine.cyclesLeft_eq_zero_iff.2 hoff)
    refine (ScanMachine.cyclesLeft_step ht hrun hrsp).imp_right ?_
    rintro ⟨hwaits, hle, hsame⟩
    refine ⟨?_, hle, hsame⟩
    rcases hwaits with ⟨hsweep, hno⟩ | ⟨hsweep, hno⟩
    · rw [hsweep]
      exact fun hcomes => absurd (hno.symm.trans hcomes) (by decide)
    · rw [hsweep]
      exact fun hcomes => hcomes hno
  refine (capScan tags).exists_measure_eq_zero_of_fair hstep (synchronised_stateAt h)
    henv.noOverlap fun q n => ?_
  cases q with
  | CHECKS => exact henv.checked n
  | GET_CAP => exact henv.answered n
  | OFF => exact ⟨n, le_refl n, trivial⟩
  | START => exact ⟨n, le_refl n, trivial⟩
  | GET_ADDRESS => exact ⟨n, le_refl n, trivial⟩

/-- What was handed over and what remains make up what remained at first. -/
theorem handedBefore_append_remaining (h : m.Synchronised tags) (henv : Answers env) {n : ℕ}
    (hrun : ∀ k < n, ((capScan tags).stateAt m env k).sweep ≠ .OFF) :
    m.remaining tags
      = handedBefore tags m env n ++ ((capScan tags).stateAt m env n).remaining tags := by
  induction n with
  | zero => rfl
  | succ n ih =>
    have hstep := ScanMachine.remaining_step (synchronised_stateAt h n)
      (hrun n (Nat.lt_succ_self n)) (henv.noOverlap n)
    have hlast : handedBefore tags m env (n + 1) = handedBefore tags m env n
        ++ ((capScan tags).obsAt m env n).handed.toList := by
      rw [handedBefore, List.range_succ, List.filterMap_append]
      cases hh : ((capScan tags).obsAt m env n).handed <;> simp [handedBefore, hh]
    rw [ih (fun k hk => hrun k (Nat.lt_succ_of_lt hk)), hstep, hlast, List.append_assoc]
    rfl

/-- **Every scan that may run to its end does, and hands over `scanFrom`.** -/
theorem exists_completesAt (h : m.Synchronised tags) (hstart : m.sweep = .START)
    (henv : Answers env) :
    ∃ n, CompletesAt tags m env n ∧ handedBefore tags m env n = scanFrom 0 tags := by
  have hoff : ∃ n, ((capScan tags).stateAt m env n).sweep = .OFF := by
    obtain ⟨n, hn⟩ := exists_cyclesLeft_eq_zero h henv
    exact ⟨n, ScanMachine.cyclesLeft_eq_zero_iff.1 hn⟩
  classical
  -- the first cycle the sweep is off again; the one before reports completion
  obtain ⟨n, hn, hmin⟩ : ∃ n, ((capScan tags).stateAt m env (n + 1)).sweep = .OFF
      ∧ ∀ k < n + 1, ((capScan tags).stateAt m env k).sweep ≠ .OFF := by
    cases hfind : Nat.find hoff with
    | zero =>
      have h0 := Nat.find_spec hoff
      rw [hfind, SyncMachine.stateAt_zero, hstart] at h0
      cases h0
    | succ n => exact ⟨n, hfind ▸ Nat.find_spec hoff, fun k hk => Nat.find_min hoff (hfind ▸ hk)⟩
  have hcomplete : ∀ k < n + 1, ((capScan tags).obsAt m env k).complete = true ↔
      ((capScan tags).stateAt m env (k + 1)).sweep = .OFF := fun k hk =>
    (ScanMachine.step_off_iff (hmin k hk) (henv.noOverlap k)).symm
  refine ⟨n, ⟨(hcomplete n (Nat.lt_succ_self n)).2 hn, fun k hk => ?_⟩, ?_⟩
  · rw [← Bool.not_eq_true, hcomplete k (Nat.lt_succ_of_lt hk)]
    exact hmin (k + 1) (Nat.succ_lt_succ hk)
  · have hsplit := handedBefore_append_remaining h henv
      (fun k hk => hmin k (Nat.lt_succ_of_lt hk))
    have hrem : ((capScan tags).stateAt m env n).remaining tags = [] := by
      have hstep := ScanMachine.remaining_step (synchronised_stateAt h n)
        (hmin n (Nat.lt_succ_self n)) (henv.noOverlap n)
      have hobs : (((capScan tags).stateAt m env n).obs tags).handed = none := by
        have hc := (hcomplete n (Nat.lt_succ_self n)).2 hn
        simp only [SyncMachine.obsAt, SyncMachine.obs, capScan, ScanMachine.obs,
          decide_eq_true_eq] at hc
        rw [ScanMachine.obs]
        exact if_neg fun hh => hc.2.2 hh.2.2
      have hnext : (((capScan tags).stateAt m env n).step tags (env n)).remaining tags = [] := by
        have : (((capScan tags).stateAt m env n).step tags (env n)).sweep = .OFF := hn
        rw [ScanMachine.remaining, this]
      rw [hstep, hobs, hnext]
      rfl
    rw [hrem, List.append_nil] at hsplit
    rw [← hsplit, ScanMachine.remaining, hstart]

theorem CompletesAt.unique {n n' : ℕ} (h : CompletesAt tags m env n)
    (h' : CompletesAt tags m env n') : n = n' := by
  obtain hlt | rfl | hlt := Nat.lt_trichotomy n n'
  · exact absurd (h.1.symm.trans (h'.2 n hlt)) (by simp)
  · rfl
  · exact absurd (h'.1.symm.trans (h.2 n' hlt)) (by simp)

/-- **The scan loses nothing**: it reports completion, and the addresses
handed over before are those of the tagged granules, each once and in
increasing order. -/
def ScansAll (tags : List Bool) (memoryStart : ℕ) (m : ScanMachine) (env : ℕ → ScanInput) :
    Prop :=
  ∃ n, CompletesAt tags m env n
    ∧ (handedBefore tags m env n).map (granuleAddress memoryStart)
      = (taggedGranules tags).map (granuleAddress memoryStart)

theorem scansAll_iff (h : m.Synchronised tags) (hstart : m.sweep = .START)
    (henv : Answers env) (memoryStart : ℕ) :
    ScansAll tags memoryStart m env ↔ NoNeighbours tags := by
  obtain ⟨n, hn, hhanded⟩ := exists_completesAt h hstart henv
  constructor
  · rintro ⟨n', hn', heq⟩
    obtain rfl := hn.unique hn'
    have hlen := congrArg List.length heq
    rw [List.length_map, List.length_map, hhanded, ← taggedFrom_zero] at hlen
    exact noNeighbours_of_length_eq hlen
  · intro hno
    refine ⟨n, hn, ?_⟩
    rw [hhanded, scanFrom_eq_taggedFrom hno, taggedFrom_zero]

end Scan

/-- **For every tag memory and every sweep that starts after any earlier
activity: the scan loses nothing exactly when no two neighbouring granules
are tagged.** -/
theorem capScan_scansAll_iff_noNeighbours (tags : List Bool) (htags : tags ≠ [])
    (memoryStart : ℕ) (pre : List ScanInput)
    (hstart : ((capScan tags).run .init pre).sweep = .START)
    (env : ℕ → ScanInput) (henv : Answers env) :
    ScansAll tags memoryStart ((capScan tags).run .init pre) env ↔ NoNeighbours tags := by
  have hsync : ((capScan tags).run .init pre).Synchronised tags :=
    (capScan tags).run_invariant_all (fun _ i hm => hm.step i)
      (ScanMachine.synchronised_init htags) pre
  exact scansAll_iff hsync hstart henv memoryStart

/-- Checks that pass at once and a bus that answers at once. -/
def promptEnv : ℕ → ScanInput := fun _ => ⟨true, true, some false⟩

theorem answers_promptEnv : Answers promptEnv :=
  ⟨fun _ => by simp [promptEnv], fun k => ⟨k, le_refl k, rfl⟩,
    fun k => ⟨k, le_refl k, by simp [promptEnv]⟩⟩

/-- Three granules of which the outer two are tagged: both are found. -/
theorem capScan_outer_tagged :
    ((capScan [true, false, true]).run .init [⟨true, true, none⟩]).sweep = .START
      ∧ ScansAll [true, false, true] 0x80000000
        ((capScan [true, false, true]).run .init [⟨true, true, none⟩]) promptEnv :=
  ⟨by decide, (capScan_scansAll_iff_noNeighbours [true, false, true] (by decide) 0x80000000
    [⟨true, true, none⟩] (by decide) promptEnv answers_promptEnv).2 (by decide)⟩

/-- Two tagged granules next to each other: the sweep never hears of the
second. -/
theorem capScan_loses_neighbour :
    ((capScan [true, true]).run .init [⟨true, true, none⟩]).sweep = .START
      ∧ ¬ ScansAll [true, true] 0x80000000
        ((capScan [true, true]).run .init [⟨true, true, none⟩]) promptEnv := by
  refine ⟨by decide, fun h => ?_⟩
  have hsync : ((capScan [true, true]).run .init [⟨true, true, none⟩]).Synchronised [true, true] :=
    (ScanMachine.synchronised_init (by decide)).step _
  exact absurd ((scansAll_iff hsync (by decide) answers_promptEnv _).1 h) (by decide)

end Proteus
