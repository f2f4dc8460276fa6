import Mathlib.Tactic.IntervalCases
import CheriTree.RingIndex
import CheriTree.SyncMachine
import CheriTree.Proteus.EnclaveIdManager

/-!
# The reorder buffer

The reorder buffer of the dynamic pipeline keeps the instructions in flight in
an array of `robCapacity` entries, from `oldestIndex` up to `newestIndex`, with
a flag for the case where the two are the same. In one cycle the oldest entry
may be retired, an instruction may be entered, and the data bus may answer one
that is there.

Beside it goes the queue that it stands for: entries in the order they were
entered, each with the index it was given. Two things keep the buffer from
being that queue. `getValue` looks for the youngest entry of a register by
visiting the indices from the oldest on, and adds the position to the oldest
index in the bits of an index: past the end of these it subtracts the number of
indices there are bits for, and not the capacity. Unless the capacity is a power
of two, it then comes to entries it has been at, and not to those at the end.
And an answer to an entry that is retired in the same cycle, when the buffer is
full and the entry's index is given out again, goes to the instruction that gets
the index.

Everything else is as in the queue, for every capacity.
-/

namespace Proteus

/-! ## The buffer -/

structure InstructionActions where
  writesRegister : Bool
  performsJump : Bool
deriving DecidableEq, Repr

/-- `InstructionActions.none`. -/
def InstructionActions.none : InstructionActions := ⟨false, false⟩

structure RobEntry where
  actions : InstructionActions
  writeDestination : Word
  writeValue : Word
  jumpTarget : Word
  ready : Bool
deriving DecidableEq, Repr

/-- `RobEntry().getZero`. -/
def RobEntry.getZero : RobEntry := ⟨InstructionActions.none, 0, 0, 0, false⟩

/-- What the data bus says of an instruction. -/
structure CdbMessage where
  robIndex : ℕ
  actions : InstructionActions
  writeValue : Word
  jumpTarget : Word
deriving DecidableEq, Repr

/-- What the message makes of an entry. -/
def RobEntry.answered (e : RobEntry) (m : CdbMessage) : RobEntry :=
  { e with actions := m.actions, writeValue := m.writeValue, jumpTarget := m.jumpTarget,
           ready := true }

/-- The entry of a new instruction. -/
def pushedEntry (destination : Word) : RobEntry :=
  { RobEntry.getZero with writeDestination := destination }

/-- **The reorder buffer.** The indices have `log2Up(robCapacity)` bits. -/
structure ReorderBuffer where
  robEntries : ℕ → RobEntry
  oldestIndex : ℕ
  newestIndex : ℕ
  isFull : Bool

/-- What `getValue` says of a register. -/
structure RobValue where
  found : Bool
  ready : Bool
  value : Word
  ix : ℕ
deriving DecidableEq, Repr

/-- What comes to the buffer in a cycle: an instruction that is entered, and a
message of the data bus. -/
structure RobCycle where
  push : Option Word
  cdb : Option CdbMessage

namespace ReorderBuffer

/-- The buffer of reset. -/
def init : ReorderBuffer := ⟨fun _ => RobEntry.getZero, 0, 0, false⟩

variable (robCapacity : ℕ) (s : ReorderBuffer)

/-- How many indices there are bits for. -/
def indexCount : ℕ := 2 ^ log2Up robCapacity

def nextIndex (index : ℕ) : ℕ :=
  if (index + 1) % indexCount robCapacity = robCapacity then 0
  else (index + 1) % indexCount robCapacity

def isValidIndex (index : ℕ) : Bool :=
  if (s.oldestIndex = s.newestIndex ∧ s.isFull = false) ∨ index ≥ robCapacity then false
  else if s.oldestIndex = s.newestIndex then true
  else if s.newestIndex > s.oldestIndex then
    decide (index ≥ s.oldestIndex ∧ index < s.newestIndex)
  else decide (index ≥ s.oldestIndex ∨ index < s.newestIndex)

/-- `indexForNth`. The position and the oldest index are added in the bits of an
index, and the sum is widened. -/
def indexForNth (nth : ℕ) : ℕ :=
  let index := (nth + s.oldestIndex) % indexCount robCapacity
  if index ≥ robCapacity then index - robCapacity else index

/-- **`getValue`.** Of the assignments made in the loop the last one counts. -/
def getValue (regId : Word) : RobValue :=
  (List.range robCapacity).foldl (fun r nth =>
    if s.isValidIndex robCapacity (s.indexForNth robCapacity nth) = true
        ∧ (s.robEntries (s.indexForNth robCapacity nth)).writeDestination = regId ∧ regId ≠ 0 then
      ⟨true, (s.robEntries (s.indexForNth robCapacity nth)).ready,
        (s.robEntries (s.indexForNth robCapacity nth)).writeValue, s.indexForNth robCapacity nth⟩
    else r) ⟨false, false, 0, 0⟩

def isEmpty : Bool := s.oldestIndex = s.newestIndex && !s.isFull

/-- The oldest entry is done. -/
def isDone : Bool := !s.isEmpty && (s.robEntries s.oldestIndex).ready

/-- The oldest entry is done, and is a jump. -/
def jumps : Bool := s.isDone && (s.robEntries s.oldestIndex).actions.performsJump

def willRetire : Bool := s.isDone && !(s.robEntries s.oldestIndex).actions.performsJump

def isAvailable : Bool := !s.isFull || s.willRetire

/-- `updatedOldestIndex`. -/
def updatedOldestIndex : ℕ :=
  if s.willRetire then nextIndex robCapacity s.oldestIndex else s.oldestIndex

/-- The first half of `build`: the oldest entry is removed, or a jump removes
all of them. -/
def retire : ReorderBuffer :=
  if s.jumps then { s with oldestIndex := 0, newestIndex := 0, isFull := false }
  else if s.willRetire then
    { s with oldestIndex := s.updatedOldestIndex robCapacity, isFull := false }
  else s

/-- The second half: an instruction is entered where the newest index was. -/
def push (destination : Word) : ReorderBuffer :=
  let updatedNewest := nextIndex robCapacity s.newestIndex
  { s.retire robCapacity with
    robEntries := Function.update s.robEntries s.newestIndex (pushedEntry destination)
    newestIndex := updatedNewest
    isFull := if s.updatedOldestIndex robCapacity = updatedNewest then true
      else (s.retire robCapacity).isFull }

/-- `build`. -/
def build (pushed : Option Word) : ReorderBuffer :=
  match pushed with
  | none => s.retire robCapacity
  | some destination => s.push robCapacity destination

def onCdbMessage (m : CdbMessage) : ReorderBuffer :=
  { s with
    robEntries := Function.update s.robEntries m.robIndex ((s.robEntries m.robIndex).answered m) }

/-- **The buffer after a cycle.** What the message assigns comes after what
`build` does, and counts. -/
def next (c : RobCycle) : ReorderBuffer :=
  match c.cdb with
  | none => s.build robCapacity c.push
  | some m => (s.build robCapacity c.push).onCdbMessage m

/-- **What a cycle may do**: an instruction is entered where there is room, the
data bus answers an instruction that is there, and no jump is retired. -/
structure Admissible (c : RobCycle) : Prop where
  room : c.push.isSome = true → s.isAvailable = true
  valid : ∀ m, c.cdb = some m → s.isValidIndex robCapacity m.robIndex = true
  noJump : s.jumps = false

end ReorderBuffer

/-! ## The queue -/

/-- An instruction in flight, with the index it was given. -/
structure InFlight where
  index : ℕ
  entry : RobEntry
deriving DecidableEq, Repr

/-- **The instructions in flight**, in the order they were entered. -/
abbrev RobQueue := List InFlight

namespace RobQueue

variable (q : RobQueue)

/-- The queue without its oldest entry, if that one is done. -/
def retire : RobQueue → RobQueue
  | [] => []
  | e :: q => if e.entry.ready then q else e :: q

/-- The entry of an index is answered. -/
def answer (m : CdbMessage) : RobQueue :=
  q.map fun e => if e.index = m.robIndex then ⟨e.index, e.entry.answered m⟩ else e

/-- **A cycle of the queue**: the oldest entry leaves, one of those that stay is
answered, and a new one is entered with the index that was given out. -/
def next (newestIndex : ℕ) (c : RobCycle) : RobQueue :=
  (match c.cdb with
    | none => q.retire
    | some m => q.retire.answer m)
  ++ c.push.toList.map fun destination => ⟨newestIndex, pushedEntry destination⟩

/-- **The youngest entry of a register** is at a position. -/
def Youngest (r : Word) (k : ℕ) (e : InFlight) : Prop :=
  q[k]? = some e ∧ e.entry.writeDestination = r
    ∧ ∀ j e', k < j → q[j]? = some e' → e'.entry.writeDestination ≠ r

end RobQueue

/-! ## The buffer as a queue -/

/-- The buffer, and the queue it stands for. -/
structure RobState where
  rob : ReorderBuffer
  queue : RobQueue

/-- The buffer and the queue of reset. -/
def RobState.init : RobState := ⟨ReorderBuffer.init, []⟩

/-- **The buffer beside the queue.** -/
def robMachine (robCapacity : ℕ) : SyncMachine RobState RobCycle Unit where
  step s c := (⟨s.rob.next robCapacity c, s.queue.next s.rob.newestIndex c⟩, ())

namespace RobState

variable (robCapacity : ℕ) (s : RobState)

/-- **The buffer represents the queue.** -/
structure Represents : Prop where
  capacity : s.queue.length ≤ robCapacity
  oldest : s.rob.oldestIndex < robCapacity
  /-- The indices follow the order. -/
  order : ∀ k e, s.queue[k]? = some e → e.index = RingIndex.slot robCapacity s.rob.oldestIndex k
  entry : ∀ e ∈ s.queue, s.rob.robEntries e.index = e.entry
  newest : s.rob.newestIndex
    = RingIndex.slot robCapacity s.rob.oldestIndex s.queue.length
  full : s.rob.isFull = true ↔ s.queue.length = robCapacity

/-- **The buffer is the queue** to those who use it. -/
structure IsQueue : Prop extends s.Represents robCapacity where
  validIndex : ∀ index, s.rob.isValidIndex robCapacity index = true
    ↔ ∃ e ∈ s.queue, e.index = index
  /-- An instruction that is entered gets an index that no other one has. -/
  kept : s.rob.isAvailable = true → ∀ e ∈ s.queue.retire, e.index ≠ s.rob.newestIndex
  found : ∀ r ≠ 0, (s.rob.getValue robCapacity r).found = true
    ↔ ∃ e ∈ s.queue, e.entry.writeDestination = r
  value : ∀ r ≠ 0, ∀ k e, s.queue.Youngest r k e → s.rob.getValue robCapacity r
    = ⟨true, e.entry.ready, e.entry.writeValue, e.index⟩

/-- How many more indices there are bits for than entries. -/
def surplus : ℕ := ReorderBuffer.indexCount robCapacity - robCapacity

/-- **A register is misread**: its youngest entry is among the last, as many as
there are indices without an entry, and either it is never visited or some older
one is visited after it. -/
def Misread : Prop :=
  ∃ r ≠ 0, ∃ k e, s.queue.Youngest r k e ∧ robCapacity ≤ k + surplus robCapacity
    ∧ (ReorderBuffer.indexCount robCapacity ≤ s.rob.oldestIndex + k
      ∨ ∃ j < k, ∃ e', s.queue[j]? = some e' ∧ e'.entry.writeDestination = r
        ∧ ReorderBuffer.indexCount robCapacity ≤ s.rob.oldestIndex + j + surplus robCapacity
        ∧ j + surplus robCapacity < robCapacity)

/-- **An answer collides with a new instruction**: its index is given out in the
same cycle. -/
def Collides (c : RobCycle) : Prop :=
  c.push.isSome = true ∧ ∃ m, c.cdb = some m ∧ m.robIndex = s.rob.newestIndex

end RobState

section

variable {robCapacity : ℕ} {s : RobState}

/-- The buffer with an entry added, and nothing removed. -/
def ReorderBuffer.enter (robCapacity : ℕ) (rob : ReorderBuffer) (destination : Word) :
    ReorderBuffer :=
  { rob with
    robEntries := Function.update rob.robEntries rob.newestIndex (pushedEntry destination)
    newestIndex := ReorderBuffer.nextIndex robCapacity rob.newestIndex
    isFull := if rob.oldestIndex = ReorderBuffer.nextIndex robCapacity rob.newestIndex then true
      else rob.isFull }

/-! ## Indices -/

theorem le_indexCount (robCapacity : ℕ) :
    robCapacity ≤ ReorderBuffer.indexCount robCapacity :=
  Nat.le_pow_clog (by decide) robCapacity

/-- The next index is that of the next cell of the ring. -/
theorem nextIndex_eq (hcap : 2 ≤ robCapacity) {index : ℕ} (hlt : index < robCapacity) :
    ReorderBuffer.nextIndex robCapacity index = RingIndex.next robCapacity index := by
  have hcount := le_indexCount robCapacity
  unfold ReorderBuffer.nextIndex RingIndex.next
  rcases Nat.eq_or_lt_of_le (Nat.succ_le_of_lt hlt) with heq | hlt'
  · rw [if_pos heq]
    rcases Nat.eq_or_lt_of_le hcount with hpow | hmore
    · -- the bits of an index come round by themselves
      rw [show index + 1 = ReorderBuffer.indexCount robCapacity from heq.trans hpow, Nat.mod_self,
        if_neg (by omega)]
    · rw [Nat.mod_eq_of_lt (by omega), if_pos heq]
  · rw [Nat.mod_eq_of_lt (by omega)]

/-- The position that is visited when a position is meant. -/
def visited (robCapacity oldest nth : ℕ) : ℕ :=
  if oldest + nth < ReorderBuffer.indexCount robCapacity then nth
  else nth - RobState.surplus robCapacity

theorem indexForNth_eq {rob : ReorderBuffer} (hold : rob.oldestIndex < robCapacity) {nth : ℕ}
    (hnth : nth < robCapacity) :
    rob.indexForNth robCapacity nth
      = RingIndex.slot robCapacity rob.oldestIndex (visited robCapacity rob.oldestIndex nth) := by
  have hcount := le_indexCount robCapacity
  unfold ReorderBuffer.indexForNth visited RobState.surplus RingIndex.slot
  dsimp only
  by_cases hin : rob.oldestIndex + nth < ReorderBuffer.indexCount robCapacity
  · rw [if_pos hin, Nat.add_comm nth, Nat.mod_eq_of_lt hin]
    split <;> split <;> omega
  · rw [if_neg hin, Nat.add_comm nth, Nat.mod_eq_sub_mod (Nat.le_of_not_lt hin),
      Nat.mod_eq_of_lt (by omega)]
    split <;> split <;> omega

theorem visited_lt (oldest : ℕ) {nth : ℕ} (hnth : nth < robCapacity) :
    visited robCapacity oldest nth < robCapacity := by
  unfold visited
  split <;> omega

/-! ## The buffer and the queue -/

namespace RobState.Represents

variable (h : s.Represents robCapacity)
include h

/-- The indices in use. -/
theorem exists_index_iff {index : ℕ} : (∃ e ∈ s.queue, e.index = index)
    ↔ ∃ k < s.queue.length, RingIndex.slot robCapacity s.rob.oldestIndex k = index := by
  constructor
  · rintro ⟨e, he, rfl⟩
    obtain ⟨k, hk⟩ := List.mem_iff_getElem?.1 he
    exact ⟨k, (List.getElem?_eq_some_iff.1 hk).1, (h.order k e hk).symm⟩
  · rintro ⟨k, hk, rfl⟩
    exact ⟨s.queue[k], List.getElem_mem hk, h.order k _ (List.getElem?_eq_getElem hk)⟩

/-- **The valid indices** are those in use. -/
theorem isValidIndex_iff {index : ℕ} : s.rob.isValidIndex robCapacity index = true
    ↔ ∃ e ∈ s.queue, e.index = index := by
  have hold := h.oldest
  have hcap := h.capacity
  rw [h.exists_index_iff]
  unfold ReorderBuffer.isValidIndex
  by_cases hbig : index ≥ robCapacity
  · rw [if_pos (Or.inr hbig)]
    refine iff_of_false Bool.false_ne_true ?_
    rintro ⟨k, hk, rfl⟩
    exact absurd (RingIndex.slot_lt hold (hk.le.trans hcap)) (Nat.not_lt.2 hbig)
  · have hlt := Nat.lt_of_not_le hbig
    rcases Nat.eq_or_lt_of_le hcap with hfull | hroom
    · -- full: every index is in use
      have heq : s.rob.oldestIndex = s.rob.newestIndex := by
        rw [h.newest, hfull, RingIndex.slot_self]
      rw [if_neg (by
        rintro (⟨-, hno⟩ | hno)
        · rw [h.full.2 hfull] at hno
          cases hno
        · exact hbig hno), if_pos heq, hfull]
      exact iff_of_true rfl (RingIndex.exists_slot hold hlt)
    · have hnotfull : s.rob.isFull = false :=
        Bool.eq_false_iff.2 fun hf => absurd (h.full.1 hf) (Nat.ne_of_lt hroom)
      by_cases heq : s.rob.oldestIndex = s.rob.newestIndex
      · rw [if_pos (Or.inl ⟨heq, hnotfull⟩),
          (RingIndex.slot_eq_self_iff hold hroom).1 (heq.trans h.newest)]
        exact iff_of_false Bool.false_ne_true fun ⟨k, hk, _⟩ => Nat.not_lt_zero k hk
      · rw [if_neg (by
          rintro (⟨hyes, -⟩ | hno)
          · exact heq hyes
          · exact hbig hno), if_neg heq, RingIndex.between_iff hold hroom hlt, ← h.newest]
        split
        · rename_i hgt
          rw [decide_eq_true_eq]
          omega
        · rename_i hgt
          rw [decide_eq_true_eq]
          omega

theorem isEmpty_iff : s.rob.isEmpty = true ↔ s.queue = [] := by
  unfold ReorderBuffer.isEmpty
  rw [Bool.and_eq_true, decide_eq_true_eq, Bool.not_eq_true', ← List.length_eq_zero_iff]
  constructor
  · rintro ⟨heq, hnotfull⟩
    have hne : s.queue.length ≠ robCapacity := fun hfull => by
      rw [h.full.2 hfull] at hnotfull
      cases hnotfull
    exact (RingIndex.slot_eq_self_iff h.oldest (Nat.lt_of_le_of_ne h.capacity hne)).1
      (heq.trans h.newest)
  · intro hzero
    have hold := h.oldest
    refine ⟨?_, Bool.eq_false_iff.2 fun hf => ?_⟩
    · rw [h.newest, hzero, RingIndex.slot_zero hold]
    · have := h.full.1 hf
      omega

/-- The entry at the oldest index is the head of the queue. -/
theorem robEntries_oldest {e : InFlight} {q : RobQueue} (hq : s.queue = e :: q) :
    s.rob.robEntries s.rob.oldestIndex = e.entry := by
  have hindex := h.order 0 e (by rw [hq]; rfl)
  rw [RingIndex.slot_zero h.oldest] at hindex
  rw [← hindex]
  exact h.entry e (by rw [hq]; exact List.mem_cons_self)

/-- **The oldest entry is done** where the head of the queue is. -/
theorem isDone_iff : s.rob.isDone = true ↔ ∃ e q, s.queue = e :: q ∧ e.entry.ready = true := by
  unfold ReorderBuffer.isDone
  rw [Bool.and_eq_true, Bool.not_eq_true', ← Bool.not_eq_true, h.isEmpty_iff]
  cases hq : s.queue with
  | nil => exact iff_of_false (fun hno => hno.1 rfl) fun ⟨_, _, hno, _⟩ => by cases hno
  | cons e q =>
    rw [h.robEntries_oldest hq]
    constructor
    · rintro ⟨-, hready⟩
      exact ⟨e, q, rfl, hready⟩
    · rintro ⟨_, _, heq, hready⟩
      obtain ⟨rfl, rfl⟩ := List.cons.inj heq
      exact ⟨List.cons_ne_nil _ _, hready⟩

/-- What leaves the queue. -/
theorem queue_retire :
    s.queue.retire = if s.rob.isDone then s.queue.tail else s.queue := by
  by_cases hdone : s.rob.isDone = true
  · obtain ⟨e, q, hq, hready⟩ := h.isDone_iff.1 hdone
    rw [if_pos hdone, hq]
    exact if_pos hready
  · rw [if_neg hdone]
    cases hq : s.queue with
    | nil => rfl
    | cons e q => exact if_neg fun hready => hdone (h.isDone_iff.2 ⟨e, q, hq, hready⟩)

/-! ## A cycle -/

omit h in
/-- Where no jump is retired, what is done is retired. -/
theorem willRetire_eq (hjump : s.rob.jumps = false) : s.rob.willRetire = s.rob.isDone := by
  unfold ReorderBuffer.jumps at hjump
  unfold ReorderBuffer.willRetire
  cases hdone : s.rob.isDone with
  | false => rfl
  | true =>
    rw [hdone, Bool.true_and] at hjump
    rw [hjump]
    rfl

/-- **The oldest entry leaves** the buffer and the queue, or neither. -/
theorem retire (hcap : 2 ≤ robCapacity) (hjump : s.rob.jumps = false) :
    Represents robCapacity ⟨s.rob.retire robCapacity, s.queue.retire⟩ := by
  have hold := h.oldest
  have hlen := h.capacity
  rw [h.queue_retire]
  unfold ReorderBuffer.retire ReorderBuffer.updatedOldestIndex
  rw [hjump, willRetire_eq hjump, if_neg Bool.false_ne_true, nextIndex_eq hcap hold]
  by_cases hdone : s.rob.isDone = true
  · rw [hdone, if_pos rfl, if_pos rfl, if_pos rfl]
    obtain ⟨e, q, hq, -⟩ := h.isDone_iff.1 hdone
    rw [hq, List.length_cons] at hlen
    rw [hq, List.tail_cons]
    refine ⟨Nat.le_of_succ_le hlen, RingIndex.next_lt hold, fun k e' hk => ?_, fun e' he' => ?_,
      ?_, ?_⟩
    · have hlt : k < q.length := (List.getElem?_eq_some_iff.1 hk).1
      rw [RingIndex.slot_next (by omega)]
      exact h.order (k + 1) e' (by rw [hq]; exact hk)
    · exact h.entry e' (by rw [hq]; exact List.mem_cons_of_mem e he')
    · have hnewest := h.newest
      rw [hq, List.length_cons] at hnewest
      show _ = RingIndex.slot robCapacity (RingIndex.next robCapacity s.rob.oldestIndex) q.length
      rw [RingIndex.slot_next (by omega)]
      exact hnewest
    · exact iff_of_false Bool.false_ne_true (Nat.ne_of_lt hlen)
  · rw [if_neg hdone, if_neg hdone]
    exact h

/-- The indices of the queue are not the next one to be given out, where there
is room. -/
theorem index_ne_newest (hroom : s.queue.length < robCapacity) {e : InFlight}
    (he : e ∈ s.queue) : e.index ≠ s.rob.newestIndex := by
  obtain ⟨k, hk⟩ := List.mem_iff_getElem?.1 he
  have hlt := (List.getElem?_eq_some_iff.1 hk).1
  rw [h.order k e hk, h.newest]
  exact fun heq => absurd ((RingIndex.slot_inj (by omega) hroom).1 heq) (Nat.ne_of_lt hlt)

/-- **A new entry** takes the next index. -/
theorem enter (hcap : 2 ≤ robCapacity) (hroom : s.queue.length < robCapacity)
    (destination : Word) :
    Represents robCapacity ⟨s.rob.enter robCapacity destination,
      s.queue ++ [⟨s.rob.newestIndex, pushedEntry destination⟩]⟩ := by
  have hold := h.oldest
  have hnew : ReorderBuffer.nextIndex robCapacity s.rob.newestIndex
      = RingIndex.slot robCapacity s.rob.oldestIndex (s.queue.length + 1) := by
    have hlt := RingIndex.slot_lt hold h.capacity
    rw [h.newest, nextIndex_eq hcap hlt, RingIndex.next_slot hold hroom]
  have hnotfull : s.rob.isFull = false :=
    Bool.eq_false_iff.2 fun hf => absurd (h.full.1 hf) (Nat.ne_of_lt hroom)
  constructor
  case capacity =>
    show (s.queue ++ [_]).length ≤ robCapacity
    rw [List.length_append]
    exact hroom
  case oldest => exact hold
  case order =>
    intro k e hk
    show e.index = RingIndex.slot robCapacity s.rob.oldestIndex k
    rcases Nat.lt_or_ge k s.queue.length with hlt | hge
    · rw [List.getElem?_append_left hlt] at hk
      exact h.order k e hk
    · rw [List.getElem?_append_right hge, List.getElem?_singleton] at hk
      split at hk
      · rename_i hzero
        obtain rfl := Option.some.inj hk
        rw [show k = s.queue.length by omega]
        exact h.newest
      · cases hk
  case entry =>
    intro e he
    show Function.update s.rob.robEntries s.rob.newestIndex _ e.index = e.entry
    rcases List.mem_append.1 he with he | he
    · rw [Function.update_of_ne (h.index_ne_newest hroom he)]
      exact h.entry e he
    · rw [List.mem_singleton.1 he, Function.update_self]
  case newest =>
    show ReorderBuffer.nextIndex robCapacity s.rob.newestIndex
      = RingIndex.slot robCapacity s.rob.oldestIndex (s.queue ++ [_]).length
    rw [List.length_append]
    exact hnew
  case full =>
    show (if s.rob.oldestIndex = ReorderBuffer.nextIndex robCapacity s.rob.newestIndex then true
      else s.rob.isFull) = true ↔ (s.queue ++ [_]).length = robCapacity
    rw [hnew, hnotfull, List.length_append, List.length_singleton]
    rcases Nat.eq_or_lt_of_le (Nat.succ_le_of_lt hroom) with hlast | hmore
    · rw [show s.queue.length + 1 = robCapacity from hlast, RingIndex.slot_self, if_pos rfl]
      exact iff_of_true rfl rfl
    · rw [if_neg fun heq => absurd ((RingIndex.slot_eq_self_iff hold hmore).1 heq)
        (Nat.succ_ne_zero _)]
      exact iff_of_false Bool.false_ne_true (Nat.ne_of_lt hmore)

/-- **An answer** goes to the entry of the index. -/
theorem answer (m : CdbMessage) :
    Represents robCapacity ⟨s.rob.onCdbMessage m, s.queue.answer m⟩ := by
  have hlength : (s.queue.answer m).length = s.queue.length := List.length_map _
  constructor
  case capacity =>
    show (s.queue.answer m).length ≤ robCapacity
    rw [hlength]
    exact h.capacity
  case oldest => exact h.oldest
  case order =>
    intro k e hk
    unfold RobQueue.answer at hk
    rw [List.getElem?_map, Option.map_eq_some_iff] at hk
    obtain ⟨e', hk, rfl⟩ := hk
    rw [show (if e'.index = m.robIndex then (⟨e'.index, e'.entry.answered m⟩ : InFlight)
      else e').index = e'.index by split <;> rfl]
    exact h.order k e' hk
  case entry =>
    intro e he
    obtain ⟨e', he', rfl⟩ := List.mem_map.1 he
    show Function.update s.rob.robEntries m.robIndex _ _ = _
    split
    · rename_i heq
      show Function.update s.rob.robEntries m.robIndex _ e'.index = _
      rw [← heq, Function.update_self, h.entry e' he']
    · rename_i hne
      rw [Function.update_of_ne hne]
      exact h.entry e' he'
  case newest =>
    show _ = RingIndex.slot robCapacity _ (s.queue.answer m).length
    rw [hlength]
    exact h.newest
  case full =>
    show _ ↔ (s.queue.answer m).length = robCapacity
    rw [hlength]
    exact h.full

omit h in
/-- The newest index stays where no jump is retired. -/
theorem retire_newestIndex (hjump : s.rob.jumps = false) :
    (s.rob.retire robCapacity).newestIndex = s.rob.newestIndex := by
  unfold ReorderBuffer.retire
  rw [hjump, if_neg Bool.false_ne_true]
  split <;> rfl

omit h in
/-- An entry is added to what is left. -/
theorem push_eq_enter (hjump : s.rob.jumps = false) (destination : Word) :
    s.rob.push robCapacity destination
      = (s.rob.retire robCapacity).enter robCapacity destination := by
  unfold ReorderBuffer.push ReorderBuffer.enter ReorderBuffer.retire
    ReorderBuffer.updatedOldestIndex
  rw [hjump, if_neg Bool.false_ne_true]
  by_cases hwill : s.rob.willRetire = true
  · rw [if_pos hwill, if_pos hwill]
  · rw [if_neg hwill, if_neg hwill]

/-- **Where the buffer is available there is room** in what is left. -/
theorem room_of_isAvailable (hcap : 2 ≤ robCapacity) (hjump : s.rob.jumps = false)
    (havailable : s.rob.isAvailable = true) : s.queue.retire.length < robCapacity := by
  have hretire := h.retire hcap hjump
  have hnotfull : (s.rob.retire robCapacity).isFull = false := by
    unfold ReorderBuffer.retire
    rw [hjump, if_neg Bool.false_ne_true]
    by_cases hwill : s.rob.willRetire = true
    · rw [if_pos hwill]
    · unfold ReorderBuffer.isAvailable at havailable
      rw [Bool.not_eq_true] at hwill
      rw [hwill, Bool.or_false, Bool.not_eq_true'] at havailable
      rw [hwill, if_neg Bool.false_ne_true, havailable]
  refine Nat.lt_of_le_of_ne hretire.capacity fun hfull => ?_
  have hyes := hretire.full.2 hfull
  rw [show RobState.rob _ = s.rob.retire robCapacity from rfl, hnotfull] at hyes
  exact Bool.false_ne_true hyes

/-- **A cycle keeps the buffer the queue**, but for an answer that collides with
a new instruction. -/
theorem next (hcap : 2 ≤ robCapacity) {c : RobCycle} (hadm : s.rob.Admissible robCapacity c)
    (hno : ¬ s.Collides c) : ((robMachine robCapacity).next s c).Represents robCapacity := by
  have hretire := h.retire hcap hadm.noJump
  have hbuilt : Represents robCapacity ⟨s.rob.build robCapacity c.push, s.queue.retire
      ++ c.push.toList.map fun destination => ⟨s.rob.newestIndex, pushedEntry destination⟩⟩ := by
    cases hpush : c.push with
    | none =>
      rw [Option.toList_none, List.map_nil, List.append_nil]
      exact hretire
    | some destination =>
      have hroom := h.room_of_isAvailable hcap hadm.noJump (hadm.room (by rw [hpush]; rfl))
      have henter := hretire.enter hcap hroom destination
      rw [retire_newestIndex hadm.noJump] at henter
      show Represents robCapacity ⟨s.rob.push robCapacity destination, _⟩
      rw [push_eq_enter hadm.noJump]
      exact henter
  show Represents robCapacity ⟨s.rob.next robCapacity c, s.queue.next s.rob.newestIndex c⟩
  unfold ReorderBuffer.next RobQueue.next
  cases hcdb : c.cdb with
  | none => exact hbuilt
  | some m =>
    have hanswer := hbuilt.answer m
    have hqueue : RobQueue.answer (s.queue.retire ++ c.push.toList.map fun destination =>
          (⟨s.rob.newestIndex, pushedEntry destination⟩ : InFlight)) m
        = s.queue.retire.answer m ++ c.push.toList.map fun destination =>
          ⟨s.rob.newestIndex, pushedEntry destination⟩ := by
      unfold RobQueue.answer
      rw [List.map_append, List.map_map]
      congr 1
      refine List.map_congr_left fun destination hmem => if_neg fun heq => ?_
      -- the new instruction has not been given the index that is answered
      exact hno ⟨Option.isSome_iff_exists.2 ⟨destination, Option.mem_toList.1 hmem⟩, m, hcdb,
        heq.symm⟩
    rw [hqueue] at hanswer
    exact hanswer

end RobState.Represents

/-! ## The youngest entry -/

namespace RobState.Represents

variable (h : s.Represents robCapacity)
include h

/-- A position that is visited gives the entry there. -/
theorem match_iff {nth : ℕ} (hnth : nth < robCapacity) {r : Word} (hr : r ≠ 0) :
    (s.rob.isValidIndex robCapacity (s.rob.indexForNth robCapacity nth) = true
        ∧ (s.rob.robEntries (s.rob.indexForNth robCapacity nth)).writeDestination = r ∧ r ≠ 0)
      ↔ ∃ e, s.queue[visited robCapacity s.rob.oldestIndex nth]? = some e
        ∧ e.entry.writeDestination = r := by
  have hvisited := visited_lt s.rob.oldestIndex hnth
  have hcap := h.capacity
  rw [indexForNth_eq h.oldest hnth, h.isValidIndex_iff, h.exists_index_iff]
  constructor
  · rintro ⟨⟨k, hk, heq⟩, hdest, -⟩
    obtain rfl := (RingIndex.slot_inj (by omega) hvisited).1 heq
    have hget := List.getElem?_eq_getElem hk
    refine ⟨_, hget, ?_⟩
    rw [← h.entry _ (List.getElem_mem hk), h.order _ _ hget]
    exact hdest
  · rintro ⟨e, hget, hdest⟩
    refine ⟨⟨_, (List.getElem?_eq_some_iff.1 hget).1, rfl⟩, ?_, hr⟩
    rw [← h.order _ _ hget, h.entry e (List.mem_of_getElem? hget)]
    exact hdest

/-- **What `getValue` says**: the entry of the last visited position that is
one of the register, or that there is none. -/
theorem getValue_cases {r : Word} (hr : r ≠ 0) :
    (∃ nth < robCapacity, ∃ e, s.queue[visited robCapacity s.rob.oldestIndex nth]? = some e
        ∧ e.entry.writeDestination = r
        ∧ (∀ j, nth < j → j < robCapacity →
          ∀ e', s.queue[visited robCapacity s.rob.oldestIndex j]? = some e' →
            e'.entry.writeDestination ≠ r)
        ∧ s.rob.getValue robCapacity r = ⟨true, e.entry.ready, e.entry.writeValue, e.index⟩)
      ∨ (∀ nth < robCapacity, ∀ e, s.queue[visited robCapacity s.rob.oldestIndex nth]? = some e →
          e.entry.writeDestination ≠ r)
        ∧ s.rob.getValue robCapacity r = ⟨false, false, 0, 0⟩ := by
  rcases RingIndex.foldl_last_wins
    (fun nth => s.rob.isValidIndex robCapacity (s.rob.indexForNth robCapacity nth) = true
      ∧ (s.rob.robEntries (s.rob.indexForNth robCapacity nth)).writeDestination = r ∧ r ≠ 0)
    (fun nth => (⟨true, (s.rob.robEntries (s.rob.indexForNth robCapacity nth)).ready,
      (s.rob.robEntries (s.rob.indexForNth robCapacity nth)).writeValue,
      s.rob.indexForNth robCapacity nth⟩ : RobValue)) ⟨false, false, 0, 0⟩ robCapacity
    with ⟨nth, hnth, hmatch, hlast, heq⟩ | ⟨hnone, heq⟩
  · obtain ⟨e, hget, hdest⟩ := (h.match_iff hnth hr).1 hmatch
    refine Or.inl ⟨nth, hnth, e, hget, hdest, fun j hj hlt e' hget' hdest' =>
      hlast j hj hlt ((h.match_iff hlt hr).2 ⟨e', hget', hdest'⟩), heq.trans ?_⟩
    rw [indexForNth_eq h.oldest hnth, ← h.order _ e hget, h.entry e (List.mem_of_getElem? hget)]
  · exact Or.inr ⟨fun nth hnth e hget hdest =>
      hnone nth hnth ((h.match_iff hnth hr).2 ⟨e, hget, hdest⟩), heq⟩

/-- **The youngest entry is found** where its register is not misread. -/
theorem getValue_of_not_misread (hno : ¬ s.Misread robCapacity) {r : Word} (hr : r ≠ 0) {k : ℕ}
    {e : InFlight} (hyoung : s.queue.Youngest r k e) :
    s.rob.getValue robCapacity r = ⟨true, e.entry.ready, e.entry.writeValue, e.index⟩ := by
  have hcount := le_indexCount robCapacity
  have hold := h.oldest
  have hlen := h.capacity
  obtain ⟨hk, hdest, hlatest⟩ := hyoung
  have hklt := (List.getElem?_eq_some_iff.1 hk).1
  have hsurplus : surplus robCapacity
      = ReorderBuffer.indexCount robCapacity - robCapacity := rfl
  -- where the position of the entry is visited for the last time
  obtain ⟨last, hlast, hvisit, hafter⟩ : ∃ last < robCapacity,
      visited robCapacity s.rob.oldestIndex last = k ∧ ∀ nth, last < nth → nth < robCapacity →
        ∀ e', s.queue[visited robCapacity s.rob.oldestIndex nth]? = some e' →
          e'.entry.writeDestination = r → k < visited robCapacity s.rob.oldestIndex nth := by
    by_cases hagain : k + surplus robCapacity < robCapacity
        ∧ ReorderBuffer.indexCount robCapacity ≤ s.rob.oldestIndex + k + surplus robCapacity
    · refine ⟨k + surplus robCapacity, hagain.1, ?_, fun nth hgt hnth _ _ _ => ?_⟩
      · unfold visited
        rw [if_neg (by omega)]
        omega
      · unfold visited
        rw [if_neg (by omega)]
        omega
    · have hfirst : s.rob.oldestIndex + k < ReorderBuffer.indexCount robCapacity := by
        by_contra hunvisited
        exact hno ⟨r, hr, k, e, ⟨hk, hdest, hlatest⟩, by omega,
          Or.inl (Nat.le_of_not_lt hunvisited)⟩
      refine ⟨k, by omega, if_pos hfirst, fun nth hgt hnth e' hget hdest' => ?_⟩
      by_contra hle
      unfold visited at hle hget
      by_cases hin : s.rob.oldestIndex + nth < ReorderBuffer.indexCount robCapacity
      · rw [if_pos hin] at hle
        exact hle hgt
      · rw [if_neg hin] at hle hget
        rcases Nat.eq_or_lt_of_le (Nat.le_of_not_lt hle) with heq | hlt
        · omega
        · exact hno ⟨r, hr, k, e, ⟨hk, hdest, hlatest⟩, by omega,
            Or.inr ⟨_, hlt, e', hget, hdest', by omega, by omega⟩⟩
  rcases h.getValue_cases hr with ⟨nth, hnth, e', hget, hdest', hnone, hvalue⟩ | ⟨hnone, -⟩
  · have heq : nth = last := by
      rcases Nat.lt_trichotomy nth last with hlt | heq | hgt
      · exact absurd hdest (hnone last hlt hlast e (hvisit ▸ hk))
      · exact heq
      · exact absurd hdest' (hlatest _ e' (hafter nth hgt hnth e' hget hdest') hget)
    rw [heq, hvisit, hk] at hget
    obtain rfl := Option.some.inj hget
    exact hvalue
  · exact absurd hdest (hnone last hlast e (hvisit ▸ hk))

/-- **A register that is misread** is not given its youngest entry. -/
theorem getValue_ne_of_misread (hmis : s.Misread robCapacity) :
    ∃ r ≠ 0, ∃ k e, s.queue.Youngest r k e ∧ s.rob.getValue robCapacity r
      ≠ ⟨true, e.entry.ready, e.entry.writeValue, e.index⟩ := by
  have hcount := le_indexCount robCapacity
  have hold := h.oldest
  have hlen := h.capacity
  have hsurplus : surplus robCapacity
      = ReorderBuffer.indexCount robCapacity - robCapacity := rfl
  obtain ⟨r, hr, k, e, hyoung, hlate, hwhy⟩ := hmis
  have hk := hyoung.1
  have hklt := (List.getElem?_eq_some_iff.1 hk).1
  refine ⟨r, hr, k, e, hyoung, fun hvalue => ?_⟩
  rcases h.getValue_cases hr with ⟨nth, hnth, e', hget, -, hnone, hvalue'⟩ | ⟨-, hvalue'⟩
  · -- the last position visited is that of the entry
    rw [hvalue'] at hvalue
    have hix : e'.index = e.index := congrArg RobValue.ix hvalue
    have hvisited := visited_lt s.rob.oldestIndex hnth
    rw [h.order _ e' hget, h.order k e hk, RingIndex.slot_inj hvisited (by omega)] at hix
    rcases hwhy with hunvisited | ⟨j, hj, e₂, hget₂, hdest₂, hpast, hin⟩
    · unfold visited at hix
      split at hix <;> omega
    · have hvisit₂ : visited robCapacity s.rob.oldestIndex (j + surplus robCapacity) = j := by
        unfold visited
        rw [if_neg (by omega)]
        omega
      have hlt : nth < j + surplus robCapacity := by
        by_contra hge
        unfold visited at hix
        split at hix <;> omega
      exact hnone _ hlt hin e₂ (hvisit₂.symm ▸ hget₂) hdest₂
  · rw [hvalue'] at hvalue
    exact absurd (congrArg RobValue.found hvalue) Bool.false_ne_true

omit h in
/-- A register that has an entry has a youngest one. -/
theorem exists_youngest {r : Word} {e : InFlight} (he : e ∈ s.queue)
    (hdest : e.entry.writeDestination = r) : ∃ k e', s.queue.Youngest r k e' := by
  obtain ⟨i, hi⟩ := List.mem_iff_getElem?.1 he
  rcases RingIndex.foldl_last_wins
    (fun k => ∃ e' ∈ s.queue[k]?, e'.entry.writeDestination = r) (fun k => k) 0 s.queue.length
    with ⟨k, -, ⟨e', hget, hdest'⟩, hlast, -⟩ | ⟨hnone, -⟩
  · refine ⟨k, e', hget, hdest', fun j e₂ hj hget₂ hdest₂ => ?_⟩
    exact hlast j hj (List.getElem?_eq_some_iff.1 hget₂).1 ⟨e₂, hget₂, hdest₂⟩
  · exact absurd ⟨e, hi, hdest⟩ (hnone i (List.getElem?_eq_some_iff.1 hi).1)

/-- **The buffer is the queue to those who use it** where no register is
misread. -/
theorem isQueue (hcap : 2 ≤ robCapacity) (hjump : s.rob.jumps = false)
    (hno : ¬ s.Misread robCapacity) : s.IsQueue robCapacity where
  toRepresents := h
  validIndex _ := h.isValidIndex_iff
  kept havailable e he := by
    have hretire := h.retire hcap hjump
    have hne := hretire.index_ne_newest (h.room_of_isAvailable hcap hjump havailable) he
    rwa [show RobState.rob _ = s.rob.retire robCapacity from rfl, retire_newestIndex hjump] at hne
  found r hr := by
    constructor
    · intro hfound
      rcases h.getValue_cases hr with ⟨nth, -, e, hget, hdest, -⟩ | ⟨-, hvalue⟩
      · exact ⟨e, List.mem_of_getElem? hget, hdest⟩
      · rw [hvalue] at hfound
        exact absurd hfound Bool.false_ne_true
    · rintro ⟨e, he, hdest⟩
      obtain ⟨k, e', hyoung⟩ := exists_youngest he hdest
      rw [h.getValue_of_not_misread hno hr hyoung]
  value r hr k e hyoung := h.getValue_of_not_misread hno hr hyoung

/-- **With a power of two** no register is misread. -/
theorem not_misread_of_indexCount_eq
    (hpow : ReorderBuffer.indexCount robCapacity = robCapacity) : ¬ s.Misread robCapacity := by
  have hlen := h.capacity
  rintro ⟨r, -, k, e, hyoung, hlate, -⟩
  have hk := (List.getElem?_eq_some_iff.1 hyoung.1).1
  unfold surplus at hlate
  omega

end RobState.Represents

/-- An answer that collides with a new instruction is given to it. -/
theorem not_represents_of_collides {c : RobCycle} (hcol : s.Collides c) :
    ¬ ((robMachine robCapacity).next s c).Represents robCapacity := by
  obtain ⟨hpush, m, hcdb, hindex⟩ := hcol
  obtain ⟨destination, hpush⟩ := Option.isSome_iff_exists.1 hpush
  intro h
  have hentry := h.entry ⟨s.rob.newestIndex, pushedEntry destination⟩ (by
    show _ ∈ s.queue.next s.rob.newestIndex c
    unfold RobQueue.next
    rw [hpush]
    exact List.mem_append_right _ List.mem_cons_self)
  -- the code answers the entry of the new instruction, which the queue leaves as it is
  have hcode : (((robMachine robCapacity).next s c).rob.robEntries s.rob.newestIndex).ready
      = true := by
    show ((s.rob.next robCapacity c).robEntries s.rob.newestIndex).ready = true
    unfold ReorderBuffer.next ReorderBuffer.onCdbMessage
    rw [hcdb, ← hindex]
    dsimp only
    rw [Function.update_self]
    rfl
  rw [hentry] at hcode
  exact Bool.false_ne_true hcode

theorem RobState.init_represents (hcap : 2 ≤ robCapacity) :
    RobState.init.Represents robCapacity where
  capacity := Nat.zero_le _
  oldest := Nat.lt_of_lt_of_le (by decide) hcap
  order k e hk := by cases hk
  entry e he := by cases he
  newest := (RingIndex.slot_zero (Nat.lt_of_lt_of_le (by decide) hcap)).symm
  full := iff_of_false Bool.false_ne_true (Nat.ne_of_lt (Nat.lt_of_lt_of_le (by decide) hcap))

end

/-! ## Runs -/

/-- **The reorder buffer is a queue along a run exactly where no register is
misread and no answer collides with a new instruction.** -/
theorem reorderBuffer_isQueue_iff (robCapacity : ℕ) (hcap : 2 ≤ robCapacity)
    (cycles : ℕ → RobCycle)
    (hadm : ∀ n, ((robMachine robCapacity).stateAt RobState.init cycles n).rob.Admissible
      robCapacity (cycles n)) :
    (∀ n, ((robMachine robCapacity).stateAt RobState.init cycles n).IsQueue robCapacity)
      ↔ ∀ n, ¬ ((robMachine robCapacity).stateAt RobState.init cycles n).Misread robCapacity
        ∧ ¬ ((robMachine robCapacity).stateAt RobState.init cycles n).Collides (cycles n) := by
  constructor
  · refine fun h n => ⟨fun hmis => ?_, fun hcol => ?_⟩
    · obtain ⟨r, hr, k, e, hyoung, hne⟩ := (h n).getValue_ne_of_misread hmis
      exact hne ((h n).value r hr k e hyoung)
    · exact not_represents_of_collides hcol (h (n + 1)).toRepresents
  · intro h n
    have hrep := (robMachine robCapacity).stateAt_invariant
      (C := fun s c => s.rob.Admissible robCapacity c ∧ ¬ s.Collides c)
      (fun s c hs hc => hs.next hcap hc.1 hc.2) (RobState.init_represents hcap)
      (fun n => ⟨hadm n, (h n).2⟩) n
    exact hrep.isQueue hcap (hadm n).noJump (h n).1

/-- A cycle in which nothing comes, and nothing is done, leaves the buffer as it
is. -/
theorem robMachine_next_idle {robCapacity : ℕ} {s : RobState} (hrob : s.rob.isDone = false)
    (hqueue : s.queue.retire = s.queue) : (robMachine robCapacity).next s ⟨none, none⟩ = s := by
  have hretire : s.rob.retire robCapacity = s.rob := by
    unfold ReorderBuffer.retire ReorderBuffer.jumps ReorderBuffer.willRetire
    rw [hrob]
    rfl
  show RobState.mk (s.rob.retire robCapacity) (s.queue.retire ++ []) = s
  rw [hretire, hqueue, List.append_nil]

/-- And a run of such cycles too. -/
theorem robMachine_stateAt_idle {robCapacity : ℕ} {cycles : ℕ → RobCycle} {n : ℕ}
    (hidle : ∀ m, n ≤ m → cycles m = ⟨none, none⟩)
    (hrob : ((robMachine robCapacity).stateAt RobState.init cycles n).rob.isDone = false)
    (hqueue : ((robMachine robCapacity).stateAt RobState.init cycles n).queue.retire
      = ((robMachine robCapacity).stateAt RobState.init cycles n).queue) {m : ℕ} (hm : n ≤ m) :
    (robMachine robCapacity).stateAt RobState.init cycles m
      = (robMachine robCapacity).stateAt RobState.init cycles n := by
  induction m, hm using Nat.le_induction with
  | base => rfl
  | succ m hm ih =>
    rw [SyncMachine.stateAt_succ, ih, hidle m hm]
    exact robMachine_next_idle hrob hqueue

/-- **A finite script can be followed** if each of its cycles can, and it leaves
nothing that is done. -/
theorem robMachine_admissible (robCapacity : ℕ) (script : List RobCycle)
    (hscript : ∀ n < script.length,
      ((robMachine robCapacity).stateAt RobState.init (script.getD · ⟨none, none⟩) n).rob.Admissible
        robCapacity (script.getD n ⟨none, none⟩))
    (hrob : ((robMachine robCapacity).stateAt RobState.init (script.getD · ⟨none, none⟩)
      script.length).rob.isDone = false)
    (hqueue : ((robMachine robCapacity).stateAt RobState.init (script.getD · ⟨none, none⟩)
        script.length).queue.retire
      = ((robMachine robCapacity).stateAt RobState.init (script.getD · ⟨none, none⟩)
        script.length).queue) (n : ℕ) :
    ((robMachine robCapacity).stateAt RobState.init (script.getD · ⟨none, none⟩) n).rob.Admissible
      robCapacity (script.getD n ⟨none, none⟩) := by
  have hidle : ∀ m, script.length ≤ m → script.getD m ⟨none, none⟩ = ⟨none, none⟩ :=
    fun m hm => by rw [List.getD_eq_getElem?_getD, List.getElem?_eq_none hm, Option.getD_none]
  rcases Nat.lt_or_ge n script.length with hlt | hge
  · exact hscript n hlt
  · rw [robMachine_stateAt_idle hidle hrob hqueue hge, hidle n hge]
    refine ⟨fun hpush => absurd hpush Bool.false_ne_true, fun m hm => (by cases hm), ?_⟩
    unfold ReorderBuffer.jumps
    rw [hrob]
    rfl

/-- Six instructions in a buffer of four: it is filled, the oldest two are
answered and leave, and the last two get the indices of these. -/
def roundScript : List RobCycle :=
  [⟨some 5, none⟩, ⟨some 6, none⟩, ⟨some 7, none⟩,
    ⟨some 8, some ⟨0, InstructionActions.none, 0, 0⟩⟩,
    ⟨some 9, some ⟨1, InstructionActions.none, 0, 0⟩⟩,
    ⟨none, none⟩, ⟨some 10, none⟩]

theorem roundScript_admissible (n : ℕ) :
    ((robMachine 4).stateAt RobState.init (roundScript.getD · ⟨none, none⟩) n).rob.Admissible
      4 (roundScript.getD n ⟨none, none⟩) := by
  refine robMachine_admissible 4 roundScript (fun n hn => ?_) (by decide) (by decide) n
  have hn : n < 7 := hn
  interval_cases n
  all_goals
    refine ⟨by decide, ?_, by decide⟩
    rintro m ⟨⟩
    try decide

theorem roundScript_not_collides (n : ℕ) :
    ¬ ((robMachine 4).stateAt RobState.init (roundScript.getD · ⟨none, none⟩) n).Collides
      (roundScript.getD n ⟨none, none⟩) := by
  rintro ⟨hpush, m, hm, hindex⟩
  rcases Nat.lt_or_ge n 7 with hlt | hge
  · interval_cases n
    all_goals cases hm
    all_goals exact absurd hindex (by decide)
  · rw [List.getD_eq_getElem?_getD, List.getElem?_eq_none hge] at hpush
    exact absurd hpush Bool.false_ne_true

/-- **A buffer that goes round is the queue all along**, where its capacity is a
power of two. -/
theorem reorderBuffer_isQueue_round :
    ((robMachine 4).stateAt RobState.init (roundScript.getD · ⟨none, none⟩) 4).rob.isFull = true
      ∧ ((robMachine 4).stateAt RobState.init
        (roundScript.getD · ⟨none, none⟩) 7).queue.map InFlight.index = [2, 3, 0, 1]
      ∧ ∀ n, ((robMachine 4).stateAt RobState.init
        (roundScript.getD · ⟨none, none⟩) n).IsQueue 4 := by
  refine ⟨by decide, by decide, (reorderBuffer_isQueue_iff 4 (by decide) _
    roundScript_admissible).2 fun n => ⟨?_, roundScript_not_collides n⟩⟩
  have hrep := (robMachine 4).stateAt_invariant
    (C := fun s c => s.rob.Admissible 4 c ∧ ¬ s.Collides c)
    (fun s c hs hc => hs.next (by decide) hc.1 hc.2) (RobState.init_represents (by decide))
    (fun n => ⟨roundScript_admissible n, roundScript_not_collides n⟩) n
  exact hrep.not_misread_of_indexCount_eq (by decide)

/-- Three entries, of which the first two have been retired and two more
entered: the youngest entry is at index one. -/
def wrappedScript : List RobCycle :=
  [⟨some 5, none⟩, ⟨some 6, none⟩, ⟨some 7, none⟩,
    ⟨none, some ⟨0, InstructionActions.none, 0, 0⟩⟩,
    ⟨none, some ⟨1, InstructionActions.none, 0, 0⟩⟩,
    ⟨none, none⟩, ⟨some 5, none⟩, ⟨some 6, none⟩]

theorem wrappedScript_admissible (n : ℕ) :
    ((robMachine 3).stateAt RobState.init (wrappedScript.getD · ⟨none, none⟩) n).rob.Admissible
      3 (wrappedScript.getD n ⟨none, none⟩) := by
  refine robMachine_admissible 3 wrappedScript (fun n hn => ?_) (by decide) (by decide) n
  have hn : n < 8 := hn
  interval_cases n
  all_goals
    refine ⟨by decide, ?_, by decide⟩
    rintro m ⟨⟩
    try decide

/-- **The youngest entry of register six is not found** in a buffer of three
entries that has gone round. -/
theorem wrappedScript_not_isQueue :
    (∀ n, ((robMachine 3).stateAt RobState.init
        (wrappedScript.getD · ⟨none, none⟩) n).rob.Admissible 3 (wrappedScript.getD n ⟨none, none⟩))
      ∧ ¬ ((robMachine 3).stateAt RobState.init
        (wrappedScript.getD · ⟨none, none⟩) 8).IsQueue 3 := by
  refine ⟨wrappedScript_admissible, fun h => ?_⟩
  have hfound := (h.found 6 (by decide)).2 ⟨⟨1, pushedEntry 6⟩, by decide, rfl⟩
  exact absurd hfound (by decide)

end Proteus
