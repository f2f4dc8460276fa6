import CheriTree.Successive
import CheriTree.Proteus.Forwarding

/-!
# The flow of the program

What `PcManager` adds to the static pipeline: the PC the fetch stage reads from,
and with it the payload that goes along with every instruction, which is PCC.
Both are set from the stage that is fetched from or that jumps. A stage that
claims the pipeline sets the PC only.

Beside the stages stands the list of all instructions that have retired, and
with those in flight behind it this is the *stream* of the program. In a cycle
the stream is cut behind a stage that jumps, claims or has trapped, and gets
what is fetched (`stream_next`); and each instruction of it comes from where the
one before it goes on, whatever happens in the stages.
-/

namespace Proteus

open Successive

/-! ## The stages in order -/

namespace Stage

/-- The stages after a stage, from the last one on. -/
def later : Stage → List Stage
  | WB => []
  | MEM => [WB]
  | EX => [WB, MEM]
  | ID => [WB, MEM, EX]
  | IF => [WB, MEM, EX, ID]

/-- The stage before; the first has none. -/
def prev : Stage → Stage
  | WB => MEM
  | MEM => EX
  | EX => ID
  | ID => IF
  | IF => IF

theorem later_prev {S : Stage} (h : S ≠ IF) : S.prev.later = S.later ++ [S] := by
  cases S with
  | IF => exact absurd rfl h
  | _ => rfl

/-- **What holds of the last stage**, and of a stage if of the one after it,
holds of all. -/
theorem later_induction {motive : Stage → Prop} (last : motive WB)
    (step : ∀ S, S ≠ IF → motive S → motive S.prev) (S : Stage) : motive S := by
  have hmem : motive MEM := step WB (by decide) last
  have hex : motive EX := step MEM (by decide) hmem
  have hid : motive ID := step EX (by decide) hex
  cases S with
  | WB => exact last
  | MEM => exact hmem
  | EX => exact hex
  | ID => exact hid
  | IF => exact step ID (by decide) hid

theorem ne_IF_of_mem_later {S T : Stage} (h : T ∈ S.later) : T ≠ IF := by
  rintro rfl
  cases S <;> revert h <;> decide

/-- Of two stages one is after the other. -/
theorem later_trichotomy (S T : Stage) : S = T ∨ S ∈ T.later ∨ T ∈ S.later := by
  cases S <;> cases T <;> decide

end Stage

/-! ## The pipeline with its PC -/

/-- **An instruction on its way**: PC and PCC, NEXT_PC with the PCC there, and
how many times it has jumped. -/
structure Flow (P : Type) where
  pc : Word
  pcc : P
  nextPc : Word
  nextPcc : P
  jumps : ℕ
deriving DecidableEq, Repr

namespace Flow

variable {P : Type}

/-- Where it is. -/
def comes (f : Flow P) : Word × P := (f.pc, f.pcc)

/-- Where it goes on. -/
def goes (f : Flow P) : Word × P := (f.nextPc, f.nextPcc)

/-- The instruction is the same, and if it has not jumped since, it goes on
where it did. -/
structure Same (f g : Flow P) : Prop where
  pc : g.pc = f.pc
  pcc : g.pcc = f.pcc
  jumps : g.jumps = f.jumps → g = f
  le : f.jumps ≤ g.jumps

end Flow

/-- **The inputs of a cycle**: what happens in the stages, the target of a jump
with its PCC, and whether a stage changes a register, a CSR, a special register
or a word or tag of the memory for its instruction. -/
structure FlowSignals (P : Type) where
  signals : Signals
  target : Stage → Word × P
  changes : Stage → Bool

/-- **The pipeline, with the PC and the payload to fetch from** and with those
of the instruction in each stage. -/
structure FlowPipeline (P : Type) where
  pipe : StaticPipeline
  pc : Word
  payload : P
  id : Flow P
  ex : Flow P
  mem : Flow P
  wb : Flow P
  /-- The instruction in the stage has trapped before this cycle. -/
  trappedBefore : Stage → Bool
  /-- The instruction in the stage has changed something. -/
  changed : Stage → Bool
  /-- All that has left write-back. -/
  retired : List (Flow P)

namespace FlowPipeline

variable {P : Type} (s : FlowPipeline P) (c : FlowSignals P)

def arb : Stage → Arbitration
  | .IF => s.pipe.ifArb c.signals
  | .ID => s.pipe.idArb c.signals
  | .EX => s.pipe.exArb c.signals
  | .MEM => s.pipe.memArb c.signals
  | .WB => s.pipe.wbArb c.signals

/-- The arbitration of the stage after a stage. -/
def behind : Stage → Arbitration
  | .IF => s.arb c .ID
  | .ID => s.arb c .EX
  | .EX => s.arb c .MEM
  | .MEM => s.arb c .WB
  | .WB => .nothing

/-- `isValidReg`; the fetch stage always has an instruction. -/
def hasInstr : Stage → Bool
  | .IF => true
  | .ID => s.pipe.idValid
  | .EX => s.pipe.exValid
  | .MEM => s.pipe.memValid
  | .WB => s.pipe.wbValid

/-- The instruction in a stage. The fetch stage makes NEXT_PC. -/
def flow : Stage → Flow P
  | .IF => ⟨s.pc, s.payload, s.pc + 4, s.payload, 0⟩
  | .ID => s.id
  | .EX => s.ex
  | .MEM => s.mem
  | .WB => s.wb

/-- `HAS_TRAPPED`, as a stage hands it on. -/
def trapped : Stage → Bool
  | .IF => (c.signals.stage .IF).trap
  | .ID => (c.signals.stage .ID).trap || s.pipe.idTrapped
  | .EX => StaticPipeline.trapped s.pipe.ex (c.signals.stage .EX)
  | .MEM => StaticPipeline.trapped s.pipe.mem (c.signals.stage .MEM)
  | .WB => StaticPipeline.trapped s.pipe.wb (c.signals.stage .WB)

/-- The stage requests a jump and is done. -/
def jumpsNow (S : Stage) : Bool := (s.arb c S).isDone && (c.signals.stage S).jumpRequested

/-- The stage calls `claimPipeline`. -/
def claims (S : Stage) : Bool := (c.signals.stage S).claimPipeline

/-- **What `claimPipeline` returns**: the later stages are empty. -/
def pipelineFlushed (S : Stage) : Bool := S.later.all fun T => !(s.arb c T).isValid

/-- What a stage hands on. A jump sets NEXT_PC and the PCC of the target. -/
def out (S : Stage) : Flow P :=
  if (c.signals.stage S).jumpRequested then
    { s.flow S with
      nextPc := (c.target S).1
      nextPcc := (c.target S).2
      jumps := (s.flow S).jumps + 1 }
  else s.flow S

/-- The instruction in the stage has changed something by the end of the
cycle. That in the fetch stage is a new one. -/
def hasChanged (S : Stage) : Bool :=
  (S != .IF && s.changed S) || ((s.arb c S).isValid && c.changes S)

/-- The registers before a stage after the cycle. -/
def shift {α : Type} (S : Stage) (handed kept : α) : α :=
  if (s.arb c S.prev).isDone then handed else kept

/-- The stages that may jump or claim, from the last one on. -/
def afterFetch : List Stage := [.WB, .MEM, .EX, .ID]

/-- **The next PC**: that of a claim before that of a jump, and that of a jump
before that of the fetch stage. -/
def nextPc : Word :=
  match afterFetch.find? fun S => claims c S with
  | some S => (s.flow S).nextPc
  | none =>
    match afterFetch.find? fun S => s.jumpsNow c S with
    | some S => (s.out c S).nextPc
    | none => if (s.arb c .IF).isDone then (s.out c .IF).nextPc else s.pc

/-- **The next payload**: that of a jump, or the one there is. A claim has
none. -/
def nextPayload : P :=
  match afterFetch.find? fun S => s.jumpsNow c S with
  | some S => (c.target S).2
  | none => s.payload

/-- **One cycle.** -/
def next (writeFirst : Bool) : FlowPipeline P where
  pipe := s.pipe.next c.signals writeFirst
  pc := s.nextPc c
  payload := s.nextPayload c
  id := s.shift c .ID (s.out c .IF) s.id
  ex := s.shift c .EX (s.out c .ID) s.ex
  mem := s.shift c .MEM (s.out c .EX) s.mem
  wb := s.shift c .WB (s.out c .MEM) s.wb
  trappedBefore S := s.shift c S (s.trapped c S.prev)
    (s.trappedBefore S || ((s.arb c S).isValid && s.trapped c S))
  changed S := s.shift c S (s.hasChanged c S.prev) (s.hasChanged c S)
  retired := s.retired ++ if (s.arb c .WB).isDone then [s.out c .WB] else []

end FlowPipeline

/-- **The pipeline from cycle to cycle**, seen by what leaves it. -/
def flowMachine (P : Type) (writeFirst : Bool) :
    SyncMachine (FlowPipeline P) (FlowSignals P) (Option (Flow P)) where
  step s c :=
    (s.next c writeFirst, if (s.arb c .WB).isDone then some (s.out c .WB) else none)

namespace FlowPipeline

variable {P : Type} {s : FlowPipeline P} {c : FlowSignals P} {writeFirst : Bool} {S T : Stage}

/-! ## The stages in a cycle -/

/-- A stage stops those before it: it jumps, claims the pipeline or has
trapped. -/
def stops (s : FlowPipeline P) (c : FlowSignals P) (S : Stage) : Bool :=
  s.jumpsNow c S || claims c S || ((s.arb c S).isValid && s.trapped c S)

/-- **The arbitration of a stage** comes from that of the stage after it. -/
theorem arb_eq (s : FlowPipeline P) (c : FlowSignals P) (S : Stage) :
    ∃ hazard, s.arb c S = Arbitration.of (s.hasInstr S) (c.signals.stage S) (s.trapped c S) hazard
      (s.behind c S) := by
  cases S with
  | IF => exact ⟨fun _ => false, rfl⟩
  | ID => exact ⟨fun _ => false, rfl⟩
  | EX =>
    exact ⟨s.pipe.hazard (s.pipe.laterEx c.signals) .EX s.pipe.ex (c.signals.stage .EX), rfl⟩
  | MEM =>
    exact ⟨fun isValid =>
      s.pipe.hazard (s.pipe.laterMem c.signals) .MEM s.pipe.mem (c.signals.stage .MEM) isValid
        || ((s.pipe.wbArb c.signals).isValid && decide s.pipe.wb.instr.WritesDdc), rfl⟩
  | WB => exact ⟨s.pipe.hazard [] .WB s.pipe.wb (c.signals.stage .WB), rfl⟩

theorem behind_prev (h : S ≠ .IF) : s.behind c S.prev = s.arb c S := by
  cases S with
  | IF => exact absurd rfl h
  | _ => rfl

theorem isValid_eq : (s.arb c S).isValid = (s.hasInstr S && !(s.behind c S).flush) := by
  obtain ⟨hazard, harb⟩ := arb_eq s c S
  rw [harb]
  rfl

theorem flush_eq : (s.arb c S).flush = ((s.behind c S).flush || s.stops c S) := by
  unfold stops jumpsNow claims
  obtain ⟨hazard, harb⟩ := arb_eq s c S
  rw [harb]
  simp only [Arbitration.of, Arbitration.isDone, Bool.or_assoc]

/-- **A stage is not done while the one after it waits.** -/
theorem isDone_eq_false_of_blocks (h : (s.behind c S).blocks = true) :
    (s.arb c S).isDone = false := by
  cases hdone : (s.arb c S).isDone with
  | false => rfl
  | true =>
    obtain ⟨hazard, harb⟩ := arb_eq s c S
    rw [harb] at hdone
    exact absurd ((Arbitration.of_isDone hdone).1.symm.trans h) Bool.false_ne_true

/-- **Behind an instruction that stays** the stage is not done. -/
theorem isDone_prev_eq_false (hS : S ≠ .IF) (hvalid : (s.arb c S).isValid = true)
    (hdone : (s.arb c S).isDone = false) : (s.arb c S.prev).isDone = false := by
  refine isDone_eq_false_of_blocks ?_
  rw [behind_prev hS]
  cases hblocks : (s.arb c S).blocks with
  | true => rfl
  | false => exact hdone.symm.trans (Arbitration.isDone_of_blocks hblocks hvalid)

/-- A valid stage has an instruction, and none after it stops it. -/
theorem of_isValid (h : (s.arb c S).isValid = true) :
    s.hasInstr S = true ∧ (s.behind c S).flush = false := by
  rw [isValid_eq, Bool.and_eq_true, Bool.not_eq_true'] at h
  exact h

theorem isValid_of_isDone (h : (s.arb c S).isDone = true) : (s.arb c S).isValid = true :=
  Arbitration.isValid_of_isDone h

theorem isDone_eq_false_of_not_isValid (h : (s.arb c S).isValid = false) :
    (s.arb c S).isDone = false := by
  cases hdone : (s.arb c S).isDone with
  | false => rfl
  | true => exact absurd (h.symm.trans (isValid_of_isDone hdone)) Bool.false_ne_true

/-! ### What one stage does to the others -/

/-- **A stage that stops** makes all before it invalid, and these stop those
before them. -/
theorem flush_of_later (hflush : (s.arb c T).flush = true) (S : Stage) :
    T ∈ S.later → (s.behind c S).flush = true := by
  refine Stage.later_induction (motive := fun S => T ∈ S.later → (s.behind c S).flush = true)
    (fun h => absurd h List.not_mem_nil) (fun S hS ih h => ?_) S
  rw [behind_prev hS]
  rw [Stage.later_prev hS] at h
  rcases List.mem_append.1 h with h | h
  · rw [flush_eq, ih h, Bool.true_or]
  · rw [← List.mem_singleton.1 h]
    exact hflush

theorem isValid_eq_false_of_later (hflush : (s.arb c T).flush = true) (h : T ∈ S.later) :
    (s.arb c S).isValid = false := by
  rw [isValid_eq, flush_of_later hflush S h, Bool.not_true, Bool.and_false]

/-- **No stage stops** after a valid one. -/
theorem flush_eq_false_of_later (hvalid : (s.arb c S).isValid = true) (h : T ∈ S.later) :
    (s.arb c T).flush = false := by
  cases hflush : (s.arb c T).flush with
  | false => rfl
  | true =>
    exact absurd ((isValid_eq_false_of_later hflush h).symm.trans hvalid) Bool.false_ne_true

theorem of_flush_eq_false (h : (s.arb c T).flush = false) :
    (s.behind c T).flush = false ∧ s.stops c T = false := by
  rw [flush_eq] at h
  exact Bool.or_eq_false_iff.1 h

/-- A stage that does not stop, and none after it does, is valid if it has an
instruction. -/
theorem isValid_of_flush_eq_false (h : (s.arb c T).flush = false) :
    (s.arb c T).isValid = s.hasInstr T := by
  rw [isValid_eq, (of_flush_eq_false h).1, Bool.not_false, Bool.and_true]

theorem of_stops_eq_false (h : s.stops c T = false) :
    s.jumpsNow c T = false ∧ claims c T = false
      ∧ ((s.arb c T).isValid && s.trapped c T) = false := by
  unfold stops at h
  rw [Bool.or_eq_false_iff, Bool.or_eq_false_iff] at h
  exact ⟨h.1.1, h.1.2, h.2⟩

/-! ## The stream -/

/-- The instruction in a stage, if there is one. -/
def inStage (s : FlowPipeline P) (S : Stage) : List (Flow P) :=
  if s.hasInstr S then [s.flow S] else []

/-- The instructions in the stages after a stage, the oldest first. -/
def older (s : FlowPipeline P) (S : Stage) : List (Flow P) := S.later.flatMap s.inStage

/-- **The stream**: what has retired, and what is in flight. -/
def stream (s : FlowPipeline P) : List (Flow P) := s.retired ++ s.older .IF

/-- The instruction in a stage at the end of the cycle. -/
def current (s : FlowPipeline P) (c : FlowSignals P) (S : Stage) : Flow P :=
  if (s.arb c S).isDone then s.out c S else s.flow S

/-- What is kept of a stage. -/
def kept (s : FlowPipeline P) (c : FlowSignals P) (S : Stage) : List (Flow P) :=
  if (s.arb c S).isValid then [s.current c S] else []

/-- What leaves a stage. -/
def leaving (s : FlowPipeline P) (c : FlowSignals P) (S : Stage) : List (Flow P) :=
  if (s.arb c S).isDone then [s.out c S] else []

theorem older_prev (hS : S ≠ .IF) : s.older S.prev = s.older S ++ s.inStage S := by
  unfold older
  rw [Stage.later_prev hS, List.flatMap_append, List.flatMap_singleton]

theorem hasInstr_next (hS : S ≠ .IF) :
    (s.next c writeFirst).hasInstr S
      = StaticPipeline.validReg (s.arb c S) (s.arb c S.prev) (s.hasInstr S) := by
  cases S with
  | IF => exact absurd rfl hS
  | _ => rfl

theorem flow_next (hS : S ≠ .IF) :
    (s.next c writeFirst).flow S = s.shift c S (s.out c S.prev) (s.flow S) := by
  cases S with
  | IF => exact absurd rfl hS
  | _ => rfl

/-- **A stage goes on**: what leaves it and what is in it then is what was kept
of it and what the stage before hands on. -/
theorem leaving_append_inStage (hS : S ≠ .IF) :
    s.leaving c S ++ (s.next c writeFirst).inStage S = s.kept c S ++ s.leaving c S.prev := by
  unfold leaving inStage kept current
  rw [hasInstr_next hS, flow_next hS]
  unfold StaticPipeline.validReg shift
  cases hvalid : (s.arb c S).isValid with
  | false =>
    rw [isDone_eq_false_of_not_isValid hvalid]
    cases (s.arb c S.prev).isDone <;> rfl
  | true =>
    cases hdone : (s.arb c S).isDone with
    | true => cases (s.arb c S.prev).isDone <;> rfl
    | false =>
      -- an instruction that stays keeps the one behind it where it is
      rw [isDone_prev_eq_false hS hvalid hdone, (of_isValid hvalid).1]
      rfl

/-- **Nothing is lost and nothing comes twice**, up to any stage. -/
theorem retired_append_older (S : Stage) :
    (s.next c writeFirst).retired ++ (s.next c writeFirst).older S
      = s.retired ++ S.later.flatMap (s.kept c) ++ s.leaving c S := by
  refine Stage.later_induction (motive := fun S =>
    (s.next c writeFirst).retired ++ (s.next c writeFirst).older S
      = s.retired ++ S.later.flatMap (s.kept c) ++ s.leaving c S) ?_ (fun S hS ih => ?_) S
  · show (s.retired ++ s.leaving c .WB) ++ [] = (s.retired ++ []) ++ s.leaving c .WB
    rw [List.append_nil, List.append_nil]
  · rw [older_prev hS, ← List.append_assoc, ih, List.append_assoc, leaving_append_inStage hS,
      Stage.later_prev hS, List.flatMap_append, List.flatMap_singleton]
    simp only [List.append_assoc]

/-! ## What a cycle does to the stream -/

/-- **What the stages do.** A stage that calls `claimPipeline` holds a valid
instruction and is not done with it; the fetch stage has no NEXT_PC to read, and
does not call it. Jumps are made in execution, and in write-back for traps and
`MRET`. What changes registers or memory is in the last two stages. And an
instruction that has trapped jumps in write-back. -/
structure Proper (s : FlowPipeline P) (c : FlowSignals P) : Prop where
  calls : ∀ S, claims c S = true →
    S ≠ .IF ∧ (s.arb c S).isValid = true ∧ (s.arb c S).isDone = false
  jumps : ∀ S, (c.signals.stage S).jumpRequested = true → S = .EX ∨ S = .WB
  changes : ∀ S, c.changes S = true → S = .MEM ∨ S = .WB
  trapJumps : (s.arb c .WB).isValid = true → s.trapped c .WB = true →
    (c.signals.stage .WB).jumpRequested = true

theorem Proper.isValid_of_stops (h : s.Proper c) (hstops : s.stops c S = true) :
    (s.arb c S).isValid = true := by
  unfold stops at hstops
  rw [Bool.or_eq_true, Bool.or_eq_true] at hstops
  rcases hstops with (hjump | hclaim) | htrap
  · exact isValid_of_isDone (Bool.and_eq_true_iff.1 hjump).1
  · exact (h.calls S hclaim).2.1
  · exact (Bool.and_eq_true_iff.1 htrap).1

theorem stops_of_jumpsNow (h : s.jumpsNow c S = true) : s.stops c S = true := by
  unfold stops
  rw [h, Bool.true_or, Bool.true_or]

theorem stops_of_claims (h : claims c S = true) : s.stops c S = true := by
  unfold stops
  rw [h, Bool.or_true, Bool.true_or]

theorem stops_of_trapped (hvalid : (s.arb c S).isValid = true) (h : s.trapped c S = true) :
    s.stops c S = true := by
  unfold stops
  rw [hvalid, h, Bool.and_self, Bool.or_true]

theorem flush_of_stops (h : s.stops c S = true) : (s.arb c S).flush = true := by
  rw [flush_eq, h, Bool.or_true]

/-- **At most one valid stage stops** the others. -/
theorem eq_of_stops (hS : (s.arb c S).isValid = true) (hstopsS : s.stops c S = true)
    (hT : (s.arb c T).isValid = true) (hstopsT : s.stops c T = true) : S = T := by
  rcases Stage.later_trichotomy S T with heq | hmem | hmem
  · exact heq
  · have hflush := isValid_eq_false_of_later (flush_of_stops hstopsS) hmem
    exact absurd (hflush.symm.trans hT) Bool.false_ne_true
  · have hflush := isValid_eq_false_of_later (flush_of_stops hstopsT) hmem
    exact absurd (hflush.symm.trans hS) Bool.false_ne_true

/-- Where a stage is flushed by, or stops, one that is valid stops it. -/
theorem Proper.exists_stops (h : s.Proper c) (S : Stage) :
    (s.arb c S).flush = true →
      ∃ T, (T = S ∨ T ∈ S.later) ∧ (s.arb c T).isValid = true ∧ s.stops c T = true := by
  refine Stage.later_induction (motive := fun S => (s.arb c S).flush = true →
    ∃ T, (T = S ∨ T ∈ S.later) ∧ (s.arb c T).isValid = true ∧ s.stops c T = true) ?_ ?_ S
  · intro hflush
    rw [flush_eq] at hflush
    have hstops : s.stops c .WB = true := hflush
    exact ⟨.WB, Or.inl rfl, h.isValid_of_stops hstops, hstops⟩
  · intro S hS ih hflush
    rw [flush_eq, behind_prev hS, Bool.or_eq_true] at hflush
    rcases hflush with hflush | hstops
    · obtain ⟨T, hT, hvalid, hstops⟩ := ih hflush
      refine ⟨T, Or.inr ?_, hvalid, hstops⟩
      rw [Stage.later_prev hS]
      rcases hT with rfl | hmem
      · exact List.mem_append_right _ (List.mem_singleton.2 rfl)
      · exact List.mem_append_left _ hmem
    · exact ⟨S.prev, Or.inl rfl, h.isValid_of_stops hstops, hstops⟩

/-- **Either no stage stops those before it, or one does.** -/
theorem Proper.cases (h : s.Proper c) :
    (∀ T, T ≠ .IF → (s.arb c T).flush = false)
      ∨ ∃ T, T ≠ .IF ∧ (s.arb c T).isValid = true ∧ s.stops c T = true := by
  by_cases hflush : ∀ T, T ≠ .IF → (s.arb c T).flush = false
  · exact Or.inl hflush
  · right
    push Not at hflush
    obtain ⟨S, hS, hflush⟩ := hflush
    obtain ⟨T, hT, hvalid, hstops⟩ := h.exists_stops S (Bool.eq_true_of_not_eq_false hflush)
    refine ⟨T, ?_, hvalid, hstops⟩
    rcases hT with rfl | hmem
    · exact hS
    · exact Stage.ne_IF_of_mem_later hmem

/-- A stage that does not jump hands on what is in it. -/
theorem current_of_not_jumpsNow (h : s.jumpsNow c S = false) : s.current c S = s.flow S := by
  unfold current
  cases hdone : (s.arb c S).isDone with
  | false => rfl
  | true =>
    unfold jumpsNow at h
    rw [hdone, Bool.true_and] at h
    show s.out c S = s.flow S
    exact if_neg (by rw [h]; exact Bool.false_ne_true)

/-- Where no later stage stops, the later stages are as they were. -/
theorem kept_later (h : ∀ T ∈ S.later, (s.arb c T).flush = false) :
    S.later.flatMap (s.kept c) = s.older S := by
  unfold older
  refine List.flatMap_congr fun T hT => ?_
  unfold kept inStage
  rw [isValid_of_flush_eq_false (h T hT),
    current_of_not_jumpsNow (of_stops_eq_false (of_flush_eq_false (h T hT)).2).1]

/-- **Behind a stage that stops** nothing is kept. -/
theorem kept_of_stops (hvalid : (s.arb c T).isValid = true) (hstops : s.stops c T = true)
    (S : Stage) :
    T ∈ S.later → S.later.flatMap (s.kept c) = s.older T ++ [s.current c T] := by
  refine Stage.later_induction (motive := fun S => T ∈ S.later →
    S.later.flatMap (s.kept c) = s.older T ++ [s.current c T])
    (fun h => absurd h List.not_mem_nil) (fun S hS ih hmem => ?_) S
  rw [Stage.later_prev hS] at hmem ⊢
  rw [List.flatMap_append, List.flatMap_singleton]
  rcases List.mem_append.1 hmem with hmem | hmem
  · have hkept : s.kept c S = [] := by
      unfold kept
      rw [isValid_eq_false_of_later (flush_of_stops hstops) hmem]
      rfl
    rw [ih hmem, hkept, List.append_nil]
  · obtain rfl := List.mem_singleton.1 hmem
    have hkept : s.kept c T = [s.current c T] := if_pos hvalid
    rw [kept_later fun U hU => flush_eq_false_of_later hvalid hU, hkept]

variable (writeFirst) in
/-- **The stream goes on** with what is fetched, where no stage stops it. -/
theorem stream_next_of_not_stops (h : ∀ T, T ≠ .IF → (s.arb c T).flush = false) :
    (s.next c writeFirst).stream = s.stream ++ s.leaving c .IF := by
  unfold stream
  rw [retired_append_older, kept_later fun T hT => h T (Stage.ne_IF_of_mem_later hT)]

theorem mem_later_IF (h : S ≠ .IF) : S ∈ Stage.IF.later := by
  cases S with
  | IF => exact absurd rfl h
  | _ => decide

variable (writeFirst) in
/-- **The stream is cut** behind a stage that stops. -/
theorem stream_next_of_stops (hT : T ≠ .IF) (hvalid : (s.arb c T).isValid = true)
    (hstops : s.stops c T = true) :
    (s.next c writeFirst).stream = s.retired ++ s.older T ++ [s.current c T] := by
  have hfetch : s.leaving c .IF = [] := by
    unfold leaving
    rw [isDone_eq_false_of_not_isValid
      (isValid_eq_false_of_later (flush_of_stops hstops) (mem_later_IF hT))]
    rfl
  unfold stream
  rw [retired_append_older, kept_of_stops hvalid hstops .IF (mem_later_IF hT), hfetch,
    List.append_nil, List.append_assoc]

/-! ### The PC -/

/-- What is found is the one there is. -/
theorem find?_eq_some_of_unique {α : Type} {p : α → Bool} {l : List α} {a : α} (ha : a ∈ l)
    (hp : p a = true) (hunique : ∀ b, p b = true → b = a) : l.find? p = some a := by
  cases hfind : l.find? p with
  | none => exact absurd hp (List.find?_eq_none.1 hfind a ha)
  | some b => rw [hunique b (List.find?_some hfind)]

theorem mem_afterFetch (h : S ≠ .IF) : S ∈ afterFetch := mem_later_IF h

theorem ne_IF_of_mem_afterFetch (h : S ∈ afterFetch) : S ≠ .IF :=
  Stage.ne_IF_of_mem_later (show S ∈ Stage.IF.later from h)

/-- **With a jump** the PC and the payload are those of the target. -/
theorem Proper.goes_of_jumpsNow (h : s.Proper c) (hT : T ≠ .IF)
    (hjump : s.jumpsNow c T = true) :
    (s.nextPc c, s.nextPayload c) = (s.current c T).goes := by
  have hdone : (s.arb c T).isDone = true := (Bool.and_eq_true_iff.1 hjump).1
  have hrequested : (c.signals.stage T).jumpRequested = true := (Bool.and_eq_true_iff.1 hjump).2
  have hvalid := isValid_of_isDone hdone
  have hclaim : afterFetch.find? (fun S => claims c S) = none := by
    refine List.find?_eq_none.2 fun S _ hS => ?_
    obtain ⟨-, hvalidS, hdoneS⟩ := h.calls S hS
    obtain rfl := eq_of_stops hvalidS (stops_of_claims hS) hvalid (stops_of_jumpsNow hjump)
    exact absurd (hdone.symm.trans hdoneS) (by decide)
  have hfind : afterFetch.find? (fun S => s.jumpsNow c S) = some T :=
    find?_eq_some_of_unique (mem_afterFetch hT) hjump fun S hS =>
      eq_of_stops (isValid_of_isDone (Bool.and_eq_true_iff.1 hS).1) (stops_of_jumpsNow hS) hvalid
        (stops_of_jumpsNow hjump)
  have hcurrent : s.current c T = s.out c T := if_pos hdone
  have hout : (s.out c T).nextPcc = (c.target T).2 := by
    unfold out
    rw [if_pos hrequested]
  unfold nextPc nextPayload
  rw [hclaim, hfind, hcurrent]
  show ((s.out c T).nextPc, (c.target T).2) = ((s.out c T).nextPc, (s.out c T).nextPcc)
  rw [hout]

/-- **Where a stage stops the others and does not jump**, the payload stays. -/
theorem nextPayload_of_stops (hvalid : (s.arb c T).isValid = true) (hstops : s.stops c T = true)
    (hjump : s.jumpsNow c T = false) : s.nextPayload c = s.payload := by
  have hfind : afterFetch.find? (fun S => s.jumpsNow c S) = none := by
    refine List.find?_eq_none.2 fun S _ hS => ?_
    obtain rfl := eq_of_stops (isValid_of_isDone (Bool.and_eq_true_iff.1 hS).1)
      (stops_of_jumpsNow hS) hvalid hstops
    exact absurd (hS.symm.trans hjump) (by decide)
  unfold nextPayload
  rw [hfind]

/-- A stage that claims is not done, and does not jump. -/
theorem Proper.not_jumpsNow_of_claims (h : s.Proper c) (hclaim : claims c T = true) :
    s.jumpsNow c T = false := by
  unfold jumpsNow
  rw [(h.calls T hclaim).2.2, Bool.false_and]

/-- **With a claim** the PC is that after the instruction that claims; the
payload stays. -/
theorem Proper.of_claims (h : s.Proper c) (hclaim : claims c T = true) :
    s.nextPc c = (s.flow T).nextPc ∧ s.nextPayload c = s.payload := by
  obtain ⟨hT, hvalid, -⟩ := h.calls T hclaim
  have hfind : afterFetch.find? (fun S => claims c S) = some T :=
    find?_eq_some_of_unique (mem_afterFetch hT) hclaim fun S hS =>
      eq_of_stops (h.calls S hS).2.1 (stops_of_claims hS) hvalid (stops_of_claims hclaim)
  refine ⟨?_, nextPayload_of_stops hvalid (stops_of_claims hclaim)
    (h.not_jumpsNow_of_claims hclaim)⟩
  unfold nextPc
  rw [hfind]

/-- A stage that stops the others and neither jumps nor claims has trapped. -/
theorem trapped_of_stops (hstops : s.stops c T = true) (hjump : s.jumpsNow c T = false)
    (hclaim : claims c T = false) : s.trapped c T = true := by
  unfold stops at hstops
  rw [hjump, hclaim, Bool.false_or] at hstops
  exact (Bool.and_eq_true_iff.1 hstops).2

/-- Without either, they are those of the fetch stage. -/
theorem of_neither (hclaim : ∀ S, S ≠ .IF → claims c S = false)
    (hjump : ∀ S, S ≠ .IF → s.jumpsNow c S = false) :
    s.nextPc c = (if (s.arb c .IF).isDone then (s.out c .IF).nextPc else s.pc)
      ∧ s.nextPayload c = s.payload := by
  have hfindClaim : afterFetch.find? (fun S => claims c S) = none :=
    List.find?_eq_none.2 fun S hS => by
      rw [hclaim S (ne_IF_of_mem_afterFetch hS)]
      exact Bool.false_ne_true
  have hfindJump : afterFetch.find? (fun S => s.jumpsNow c S) = none :=
    List.find?_eq_none.2 fun S hS => by
      rw [hjump S (ne_IF_of_mem_afterFetch hS)]
      exact Bool.false_ne_true
  unfold nextPc nextPayload
  rw [hfindClaim, hfindJump]
  exact ⟨rfl, rfl⟩

end FlowPipeline

end Proteus
