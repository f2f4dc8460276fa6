import CheriTree.Proteus.ProgramFlow

/-!
# Claiming the pipeline

A stage that needs the pipeline for itself calls `claimPipeline` in every cycle
in which it does. The instructions before it are dropped, those after it run to
their end, and the PC is set to what comes after its own instruction. So for the
time of the calls nothing else goes on, and afterwards the program goes on where
it should.

What is not set is the payload of the PC, and what has been changed is not
undone. An instruction that is dropped must not have got that far. For a stage
up to memory access it has not: jumps are made in execution, memory is changed
in memory access, and the instruction that claims stands before both. In
write-back there may be one behind it that has jumped to another PCC, or that has
already written to memory, and then the contract is not kept. There is one more
way to lose instructions, with or without a claim: a stage that flushes those
before it because of a trap, and then does not trap.
-/

namespace Proteus

open Successive

namespace FlowPipeline

variable {P : Type} {s : FlowPipeline P} {c : FlowSignals P} {writeFirst : Bool} {S T : Stage}
  {start : Word × P}

/-! ## What has to hold in a cycle -/

/-- **A trap stays** until its instruction is done with the stage. -/
def TrapsStay (s : FlowPipeline P) (c : FlowSignals P) : Prop :=
  ∀ S, S ≠ .IF → s.hasInstr S = true → s.trappedBefore S = true → s.trapped c S = true

/-- **Write-back does not claim the pipeline** while there is an instruction
behind it that has changed memory or jumped to another PCC. -/
def Undisturbed (s : FlowPipeline P) (c : FlowSignals P) : Prop :=
  claims c .WB = true → s.hasInstr .MEM = true →
    s.changed .MEM = false ∧ s.mem.nextPcc = s.mem.pcc

/-! ## The program in order -/

/-- **The program runs in order**: the stream follows from where it started, and
what is fetched next is what comes after it, unless a trap is on its way. -/
structure Running (start : Word × P) (s : FlowPipeline P) : Prop where
  follows : Follows Flow.comes Flow.goes start s.stream
  pc : (∀ S, S ≠ .IF → s.hasInstr S = true → s.trappedBefore S = false) →
    s.pc = (goesOn Flow.goes start s.stream).1
  payload : (s.hasInstr .WB = true ∧ s.trappedBefore .WB = true)
    ∨ s.payload = (goesOn Flow.goes start s.stream).2
  /-- Before execution nothing has jumped or changed anything. -/
  early : ∀ S, S = .ID ∨ S = .EX → s.hasInstr S = true →
    s.changed S = false ∧ (s.flow S).nextPcc = (s.flow S).pcc

/-- **The state of reset.** -/
structure Reset (start : Word × P) (s : FlowPipeline P) : Prop where
  empty : ∀ S, S ≠ .IF → s.hasInstr S = false
  retired : s.retired = []
  fetch : (s.pc, s.payload) = start

theorem older_of_empty (h : ∀ T ∈ S.later, s.hasInstr T = false) : s.older S = [] := by
  unfold older
  refine List.flatMap_eq_nil_iff.2 fun T hT => ?_
  unfold inStage
  rw [h T hT]
  rfl

theorem Reset.running (h : s.Reset start) : s.Running start := by
  have hstream : s.stream = [] := by
    unfold stream
    rw [h.retired, older_of_empty fun T hT => h.empty T (Stage.ne_IF_of_mem_later hT)]
    rfl
  refine ⟨?_, fun _ => ?_, Or.inr ?_, fun S hS hinstr => ?_⟩
  · rw [hstream]
    trivial
  · rw [hstream, ← h.fetch]
    rfl
  · rw [hstream, ← h.fetch]
    rfl
  · have hne : S ≠ .IF := by
      rcases hS with rfl | rfl <;> decide
    exact absurd ((h.empty S hne).symm.trans hinstr) Bool.false_ne_true

theorem comes_current : (s.current c S).comes = (s.flow S).comes := by
  unfold current out
  split
  · split <;> rfl
  · rfl

/-- The stream begins with what is in the later stages. -/
theorem exists_stream_eq (S : Stage) : ∃ rest, s.stream = s.retired ++ s.older S ++ rest := by
  have hlater : ∃ rest, Stage.IF.later = S.later ++ rest := by
    cases S with
    | IF => exact ⟨[], rfl⟩
    | ID => exact ⟨[.ID], rfl⟩
    | EX => exact ⟨[.EX, .ID], rfl⟩
    | MEM => exact ⟨[.MEM, .EX, .ID], rfl⟩
    | WB => exact ⟨[.WB, .MEM, .EX, .ID], rfl⟩
  obtain ⟨rest, hrest⟩ := hlater
  refine ⟨rest.flatMap s.inStage, ?_⟩
  unfold stream older
  rw [hrest, List.flatMap_append, List.append_assoc]

theorem Running.follows_older (h : s.Running start) (S : Stage) :
    Follows Flow.comes Flow.goes start (s.retired ++ s.older S) := by
  obtain ⟨rest, hrest⟩ := s.exists_stream_eq S
  have hfollows := h.follows
  rw [hrest] at hfollows
  exact hfollows.left

/-- The instruction in a stage comes from where those before it go on. -/
theorem Running.comes_flow (h : s.Running start) (hT : T ≠ .IF) (hinstr : s.hasInstr T = true) :
    (s.flow T).comes = goesOn Flow.goes start (s.retired ++ s.older T) := by
  have hfollows := h.follows_older T.prev
  rw [older_prev hT, show s.inStage T = [s.flow T] from if_pos hinstr, ← List.append_assoc]
    at hfollows
  exact (follows_concat.1 hfollows).2

/-- **Behind an instruction that has not been overtaken** by another PCC, the
PCC is that after it. -/
theorem Running.goesOn_payload (h : s.Running start) (hT : T ≠ .IF)
    (hinstr : s.hasInstr T = true)
    (hyoung : ∀ S, S ≠ .IF → T ∈ S.later → s.hasInstr S = true →
      (s.flow S).nextPcc = (s.flow S).pcc) :
    (goesOn Flow.goes start s.stream).2 = (s.flow T).nextPcc := by
  have hall : ∀ S, T ∈ S.later →
      (goesOn Flow.goes start (s.retired ++ s.older S)).2 = (s.flow T).nextPcc := by
    refine Stage.later_induction (fun h => absurd h List.not_mem_nil) fun S hS ih hmem => ?_
    rw [older_prev hS, ← List.append_assoc]
    rw [Stage.later_prev hS] at hmem
    rcases List.mem_append.1 hmem with hmem | hmem
    · cases hin : s.hasInstr S with
      | false =>
        rw [show s.inStage S = [] from if_neg (by rw [hin]; exact Bool.false_ne_true),
          List.append_nil]
        exact ih hmem
      | true =>
        rw [show s.inStage S = [s.flow S] from if_pos hin, goesOn_concat]
        calc (s.flow S).nextPcc = (s.flow S).comes.2 := hyoung S hS hmem hin
          _ = (goesOn Flow.goes start (s.retired ++ s.older S)).2 := by
            rw [h.comes_flow hS hin]
          _ = (s.flow T).nextPcc := ih hmem
    · obtain rfl := List.mem_singleton.1 hmem
      rw [show s.inStage T = [s.flow T] from if_pos hinstr, goesOn_concat]
      rfl
  exact hall .IF (mem_later_IF hT)

/-! ### Traps -/

/-- A trapped instruction that stays has trapped before. -/
theorem trapped_stays (hT : T ≠ .IF) (hvalid : (s.arb c T).isValid = true)
    (hdone : (s.arb c T).isDone = false) (htrap : s.trapped c T = true) :
    (s.next c writeFirst).hasInstr T = true ∧ (s.next c writeFirst).trappedBefore T = true := by
  have hprev := isDone_prev_eq_false hT hvalid hdone
  constructor
  · rw [hasInstr_next hT]
    unfold StaticPipeline.validReg
    rw [hdone, hvalid]
    exact (of_isValid hvalid).1
  · show s.shift c T _ _ = true
    unfold shift
    rw [hprev, hvalid, htrap, Bool.and_self, Bool.or_true]
    rfl

/-- A trapped instruction that goes on has trapped before. -/
theorem trapped_goes (hS : S ≠ .IF) (hdone : (s.arb c S.prev).isDone = true)
    (htrap : s.trapped c S.prev = true) :
    (s.next c writeFirst).hasInstr S = true ∧ (s.next c writeFirst).trappedBefore S = true := by
  constructor
  · rw [hasInstr_next hS]
    unfold StaticPipeline.validReg
    rw [hdone]
    split
    · rfl
    case isFalse hno =>
      -- a stage that stays would keep the one before it from being done
      rw [Bool.or_eq_true, not_or, Bool.not_eq_true, Bool.not_eq_true', Bool.not_eq_false] at hno
      exact absurd ((isDone_prev_eq_false hS hno.2 hno.1).symm.trans hdone) Bool.false_ne_true
  · show s.shift c S _ _ = true
    unfold shift
    rw [hdone, htrap]
    rfl

theorem exists_prev_eq (hT : T ≠ .IF) (hne : T ≠ .WB) : ∃ S : Stage, S ≠ .IF ∧ S.prev = T := by
  cases T with
  | IF => exact absurd rfl hT
  | ID => exact ⟨.EX, by decide, rfl⟩
  | EX => exact ⟨.MEM, by decide, rfl⟩
  | MEM => exact ⟨.WB, by decide, rfl⟩
  | WB => exact absurd rfl hne

variable (writeFirst) in
/-- **A trap that does not jump yet** is still in flight afterwards. -/
theorem Proper.trapped_next (h : s.Proper c) (hT : T ≠ .IF)
    (hvalid : (s.arb c T).isValid = true) (htrap : s.trapped c T = true)
    (hjump : s.jumpsNow c T = false) :
    ∃ S, S ≠ .IF ∧ (s.next c writeFirst).hasInstr S = true
      ∧ (s.next c writeFirst).trappedBefore S = true ∧ (T = .WB → S = .WB) := by
  cases hdone : (s.arb c T).isDone with
  | false => exact ⟨T, hT, (trapped_stays hT hvalid hdone htrap).1,
      (trapped_stays hT hvalid hdone htrap).2, fun h => h⟩
  | true =>
    have hne : T ≠ .WB := by
      rintro rfl
      unfold jumpsNow at hjump
      rw [hdone, h.trapJumps hvalid htrap] at hjump
      cases hjump
    obtain ⟨S, hS, rfl⟩ := exists_prev_eq hT hne
    exact ⟨S, hS, (trapped_goes hS hdone htrap).1, (trapped_goes hS hdone htrap).2,
      fun hwb => absurd hwb hne⟩

/-- What has trapped in write-back stops the stages before it. -/
theorem TrapsStay.stops_WB (h : s.TrapsStay c)
    (hwb : s.hasInstr .WB = true ∧ s.trappedBefore .WB = true) :
    (s.arb c .WB).isValid = true ∧ s.trapped c .WB = true := by
  refine ⟨?_, h .WB (by decide) hwb.1 hwb.2⟩
  rw [isValid_eq, hwb.1]
  rfl

/-! ### One cycle -/

/-- Before execution nothing jumps. -/
theorem Proper.out_eq_flow (h : s.Proper c) (hEX : S ≠ .EX) (hWB : S ≠ .WB) :
    s.out c S = s.flow S := by
  refine if_neg fun hjump => ?_
  rcases h.jumps S hjump with rfl | rfl
  · exact hEX rfl
  · exact hWB rfl

/-- Before memory access nothing is changed. -/
theorem Proper.hasChanged_eq (h : s.Proper c) (hMEM : S ≠ .MEM) (hWB : S ≠ .WB) :
    s.hasChanged c S = (S != .IF && s.changed S) := by
  unfold hasChanged
  cases hchanges : c.changes S with
  | false => rw [Bool.and_false, Bool.or_false]
  | true =>
    rcases h.changes S hchanges with rfl | rfl
    · exact absurd rfl hMEM
    · exact absurd rfl hWB

/-- **An instruction in a stage** has come from the stage before, or has
stayed. -/
theorem hasInstr_next_cases (hS : S ≠ .IF) (h : (s.next c writeFirst).hasInstr S = true) :
    (s.arb c S.prev).isDone = true
      ∨ (s.arb c S.prev).isDone = false ∧ s.hasInstr S = true := by
  rw [hasInstr_next hS] at h
  unfold StaticPipeline.validReg at h
  cases hprev : (s.arb c S.prev).isDone with
  | true => exact Or.inl rfl
  | false =>
    right
    rw [hprev] at h
    split at h
    · cases h
    · exact ⟨rfl, h⟩

theorem Running.early_next (h : s.Running start) (hproper : s.Proper c)
    (hS : S = .ID ∨ S = .EX) (hinstr : (s.next c writeFirst).hasInstr S = true) :
    (s.next c writeFirst).changed S = false
      ∧ ((s.next c writeFirst).flow S).nextPcc = ((s.next c writeFirst).flow S).pcc := by
  have hne : S ≠ .IF := by rcases hS with rfl | rfl <;> decide
  rw [flow_next hne]
  show s.shift c S _ _ = false ∧ _
  unfold shift
  rcases hasInstr_next_cases hne hinstr with hprev | ⟨hprev, hin⟩
  · rw [hprev, if_pos rfl, if_pos rfl]
    have hpast : S.prev ≠ .EX ∧ S.prev ≠ .WB ∧ S.prev ≠ .MEM := by
      rcases hS with rfl | rfl <;> decide
    rw [hproper.out_eq_flow hpast.1 hpast.2.1, hproper.hasChanged_eq hpast.2.2 hpast.2.1]
    rcases hS with rfl | rfl
    · exact ⟨rfl, rfl⟩
    · have hid := h.early .ID (Or.inl rfl) (of_isValid (isValid_of_isDone hprev)).1
      exact ⟨hid.1, hid.2⟩
  · have hkeep := h.early S hS hin
    rw [hprev, if_neg Bool.false_ne_true, if_neg Bool.false_ne_true]
    have hpast : S ≠ .WB ∧ S ≠ .MEM := by
      rcases hS with rfl | rfl <;> decide
    rw [hproper.hasChanged_eq hpast.2 hpast.1, hkeep.1, Bool.and_false]
    exact ⟨rfl, hkeep.2⟩

/-- What stands before memory access has not jumped to another PCC, and nor has
what stands in it, where write-back claims. -/
theorem Running.young (h : s.Running start) (hT : T = .WB → s.hasInstr .MEM = true →
    s.mem.nextPcc = s.mem.pcc) (hS : S ≠ .IF) (hmem : T ∈ S.later)
    (hinstr : s.hasInstr S = true) : (s.flow S).nextPcc = (s.flow S).pcc := by
  cases S with
  | IF => exact absurd rfl hS
  | ID => exact (h.early .ID (Or.inl rfl) hinstr).2
  | EX => exact (h.early .EX (Or.inr rfl) hinstr).2
  | MEM => exact hT (List.mem_singleton.1 hmem) hinstr
  | WB => exact absurd hmem List.not_mem_nil

/-- The payload is that after the instruction in a stage that stops, where none
behind it has another PCC. -/
theorem Running.payload_of_stops (h : s.Running start) (htraps : s.TrapsStay c) (hT : T ≠ .IF)
    (hvalid : (s.arb c T).isValid = true) (hstops : s.stops c T = true)
    (hmem : T = .WB → s.hasInstr .MEM = true → s.mem.nextPcc = s.mem.pcc) :
    (T = .WB ∧ s.trapped c .WB = true) ∨ s.payload = (s.flow T).nextPcc := by
  rcases h.payload with hwb | hpayload
  · obtain ⟨hvalidWB, htrapWB⟩ := htraps.stops_WB hwb
    exact Or.inl ⟨eq_of_stops hvalid hstops hvalidWB (stops_of_trapped hvalidWB htrapWB), htrapWB⟩
  · right
    rw [hpayload]
    exact h.goesOn_payload hT (of_isValid hvalid).1 fun S hS hlater hin =>
      h.young hmem hS hlater hin

/-- **Where a stage stops**, the program goes on after its instruction. -/
theorem Running.next_of_stops (h : s.Running start) (hproper : s.Proper c)
    (htraps : s.TrapsStay c) (hclaim : s.Undisturbed c) (hT : T ≠ .IF)
    (hvalid : (s.arb c T).isValid = true) (hstops : s.stops c T = true) :
    (s.next c writeFirst).Running start := by
  have hstream := stream_next_of_stops writeFirst hT hvalid hstops
  have hinstr := (of_isValid hvalid).1
  have hgoes : goesOn Flow.goes start (s.next c writeFirst).stream = (s.current c T).goes := by
    rw [hstream, goesOn_concat]
  refine ⟨?_, ?_, ?_, fun S hS hin => h.early_next hproper hS hin⟩
  · rw [hstream, follows_concat, comes_current]
    exact ⟨h.follows_older T, h.comes_flow hT hinstr⟩
  all_goals rw [hgoes]
  · intro hnone
    show s.nextPc c = _
    cases hjump : s.jumpsNow c T with
    | true => exact congrArg Prod.fst (hproper.goes_of_jumpsNow hT hjump)
    | false =>
      cases hcalls : claims c T with
      | true =>
        rw [(hproper.of_claims hcalls).1, current_of_not_jumpsNow hjump]
        rfl
      | false =>
        -- the stage has trapped, and the trap is on its way
        obtain ⟨S, hS, hin, hbefore, -⟩ := hproper.trapped_next writeFirst hT hvalid
          (trapped_of_stops hstops hjump hcalls) hjump
        exact absurd ((hnone S hS hin).symm.trans hbefore) Bool.false_ne_true
  · show _ ∨ s.nextPayload c = _
    cases hjump : s.jumpsNow c T with
    | true => exact Or.inr (congrArg Prod.snd (hproper.goes_of_jumpsNow hT hjump))
    | false =>
      rw [current_of_not_jumpsNow hjump, nextPayload_of_stops hvalid hstops hjump]
      by_cases hwb : T = .WB ∧ s.trapped c .WB = true
      · obtain ⟨rfl, htrap⟩ := hwb
        obtain ⟨S, -, hin, hbefore, hS⟩ :=
          hproper.trapped_next writeFirst hT hvalid htrap hjump
        obtain rfl := hS rfl
        exact Or.inl ⟨hin, hbefore⟩
      · have hmem : T = .WB → s.hasInstr .MEM = true → s.mem.nextPcc = s.mem.pcc := by
          rintro rfl hin
          cases hcalls : claims c .WB with
          | true => exact (hclaim hcalls hin).2
          | false => exact absurd ⟨rfl, trapped_of_stops hstops hjump hcalls⟩ hwb
        exact Or.inr ((h.payload_of_stops htraps hT hvalid hstops hmem).resolve_left hwb)

/-- **Where no stage stops**, the program goes on with what is fetched. -/
theorem Running.next_of_not_stops (h : s.Running start) (hproper : s.Proper c)
    (htraps : s.TrapsStay c) (hflush : ∀ T, T ≠ .IF → (s.arb c T).flush = false) :
    (s.next c writeFirst).Running start := by
  have hstops : ∀ T, T ≠ .IF → s.jumpsNow c T = false ∧ claims c T = false
      ∧ ((s.arb c T).isValid && s.trapped c T) = false := fun T hT =>
    of_stops_eq_false (of_flush_eq_false (hflush T hT)).2
  have hnone : ∀ S, S ≠ .IF → s.hasInstr S = true → s.trappedBefore S = false := by
    intro S hS hin
    cases hbefore : s.trappedBefore S with
    | false => rfl
    | true =>
      have htrap := (hstops S hS).2.2
      rw [isValid_of_flush_eq_false (hflush S hS), hin, htraps S hS hin hbefore] at htrap
      cases htrap
  have hpayload : s.payload = (goesOn Flow.goes start s.stream).2 := by
    rcases h.payload with hwb | hpayload
    · exact absurd ((hnone .WB (by decide) hwb.1).symm.trans hwb.2) Bool.false_ne_true
    · exact hpayload
  have hfetch : (s.pc, s.payload) = goesOn Flow.goes start s.stream := by
    rw [h.pc hnone, hpayload]
  have hout : s.out c .IF = s.flow .IF := hproper.out_eq_flow (by decide) (by decide)
  have hnext := of_neither (fun S hS => (hstops S hS).2.1) (fun S hS => (hstops S hS).1)
  have hstream := stream_next_of_not_stops writeFirst hflush
  have hgoes : goesOn Flow.goes start (s.next c writeFirst).stream
      = (s.nextPc c, s.nextPayload c) := by
    rw [hstream, hnext.1, hnext.2]
    unfold leaving
    cases (s.arb c .IF).isDone with
    | true =>
      rw [if_pos rfl, if_pos rfl, goesOn_concat, hout]
      rfl
    | false =>
      rw [if_neg Bool.false_ne_true, if_neg Bool.false_ne_true, List.append_nil]
      exact hfetch.symm
  refine ⟨?_, fun _ => ?_, Or.inr ?_, fun S hS hin => h.early_next hproper hS hin⟩
  · rw [hstream]
    unfold leaving
    cases (s.arb c .IF).isDone with
    | true =>
      rw [if_pos rfl, follows_concat, hout]
      exact ⟨h.follows, hfetch⟩
    | false =>
      rw [if_neg Bool.false_ne_true, List.append_nil]
      exact h.follows
  · rw [hgoes]
    rfl
  · rw [hgoes]
    rfl

/-- **One cycle keeps the program in order.** -/
theorem Running.next (h : s.Running start) (hproper : s.Proper c) (htraps : s.TrapsStay c)
    (hclaim : s.Undisturbed c) : (s.next c writeFirst).Running start := by
  rcases hproper.cases with hflush | ⟨T, hT, hvalid, hstops⟩
  · exact h.next_of_not_stops hproper htraps hflush
  · exact h.next_of_stops hproper htraps hclaim hT hvalid hstops

/-! ## A cycle with a claim -/

variable (writeFirst) in
/-- **The instruction that claims stays**, and those after it go on. -/
theorem Proper.claim_stays (h : s.Proper c) (hclaim : claims c S = true) :
    (s.next c writeFirst).hasInstr S = true ∧ (s.next c writeFirst).flow S = s.flow S
      ∧ (s.next c writeFirst).retired ++ (s.next c writeFirst).older S
        = s.retired ++ s.older S := by
  obtain ⟨hS, hvalid, hdone⟩ := h.calls S hclaim
  have hprev := isDone_prev_eq_false hS hvalid hdone
  refine ⟨?_, ?_, ?_⟩
  · rw [hasInstr_next hS]
    unfold StaticPipeline.validReg
    rw [hdone, hvalid]
    exact (of_isValid hvalid).1
  · rw [flow_next hS]
    unfold shift
    rw [hprev]
    rfl
  · have hleaving : s.leaving c S = [] := if_neg (by rw [hdone]; exact Bool.false_ne_true)
    rw [retired_append_older, kept_later fun T hT => flush_eq_false_of_later hvalid hT, hleaving,
      List.append_nil]

/-- The stages before the one that claims are not valid. -/
theorem claim_younger (hclaim : claims c S = true) (h : S ∈ T.later) :
    (s.arb c T).isValid = false :=
  isValid_eq_false_of_later (flush_of_stops (stops_of_claims hclaim)) h

/-- **What was before the one that claims is gone.** -/
theorem claim_drops (hclaim : claims c S = true) (hT : T ≠ .IF) (h : S ∈ T.later) :
    (s.next c writeFirst).hasInstr T = false := by
  have hprev : S ∈ T.prev.later := by
    rw [Stage.later_prev hT]
    exact List.mem_append_left _ h
  rw [hasInstr_next hT]
  unfold StaticPipeline.validReg
  rw [claim_younger hclaim h, isDone_eq_false_of_not_isValid (claim_younger hclaim hprev)]
  exact if_pos (Bool.or_true _)

theorem prev_mem_later (h : T ∈ S.later) : T.prev = S ∨ T.prev ∈ S.later := by
  cases S <;> cases T <;> revert h <;> decide

theorem pipelineFlushed_iff :
    s.pipelineFlushed c S = true ↔ ∀ T ∈ S.later, (s.arb c T).isValid = false := by
  unfold pipelineFlushed
  rw [List.all_eq_true]
  exact forall₂_congr fun T _ => iff_of_eq (Bool.not_eq_true' _)

/-- **Once the later stages are empty** they stay so. -/
theorem Proper.claim_flushed (h : s.Proper c) (hclaim : claims c S = true)
    (hflushed : s.pipelineFlushed c S = true) (hT : T ∈ S.later) :
    (s.next c writeFirst).hasInstr T = false := by
  have hempty := pipelineFlushed_iff.1 hflushed
  have hprev : (s.arb c T.prev).isDone = false := by
    rcases prev_mem_later hT with hprev | hprev
    · rw [hprev]
      exact (h.calls S hclaim).2.2
    · exact isDone_eq_false_of_not_isValid (hempty _ hprev)
  rw [hasInstr_next (Stage.ne_IF_of_mem_later hT)]
  unfold StaticPipeline.validReg
  rw [hempty T hT, hprev]
  exact if_pos (Bool.or_true _)

theorem pipelineFlushed_of_empty (h : ∀ T ∈ S.later, s.hasInstr T = false) :
    s.pipelineFlushed c S = true := by
  refine pipelineFlushed_iff.2 fun T hT => ?_
  rw [isValid_eq, h T hT, Bool.false_and]

/-- Later stages that no instruction is valid in have none. -/
theorem Proper.older_eq_nil (h : s.Proper c) (hclaim : claims c S = true)
    (hflushed : s.pipelineFlushed c S = true) : s.older S = [] := by
  refine older_of_empty fun T hT => ?_
  have hvalid := (h.calls S hclaim).2.1
  rw [← isValid_of_flush_eq_false (flush_eq_false_of_later hvalid hT)]
  exact pipelineFlushed_iff.1 hflushed T hT

/-! ## The same instruction later -/

theorem same_current : (s.flow S).Same (s.current c S) := by
  unfold current out
  split
  · split
    · exact ⟨rfl, rfl, fun h => absurd h (Nat.succ_ne_self _), Nat.le_succ _⟩
    · exact ⟨rfl, rfl, fun _ => rfl, Nat.le_refl _⟩
  · exact ⟨rfl, rfl, fun _ => rfl, Nat.le_refl _⟩

theorem same_trans {f g k : Flow P} (h : f.Same g) (h' : g.Same k) : f.Same k where
  pc := h'.pc.trans h.pc
  pcc := h'.pcc.trans h.pcc
  jumps heq := by
    have hle := h.le
    have hle' := h'.le
    rw [h'.jumps (by omega), h.jumps (by omega)]
  le := Nat.le_trans h.le h'.le

variable (writeFirst) in
/-- **The oldest in flight is not lost**: with all that was older retired, it is
the next to retire. -/
theorem Proper.oldest_next (h : s.Proper c) {A l rest : List (Flow P)} {f : Flow P}
    (hretired : s.retired = A ++ l) (holdest : l ++ s.older .IF = f :: rest) :
    ∃ l' g rest', (s.next c writeFirst).retired = A ++ l'
      ∧ l' ++ (s.next c writeFirst).older .IF = g :: rest' ∧ f.Same g := by
  have hleaves : (s.next c writeFirst).retired = A ++ (l ++ s.leaving c .WB) := by
    show s.retired ++ s.leaving c .WB = _
    rw [hretired, List.append_assoc]
  have hstream : (s.next c writeFirst).stream
      = A ++ (l ++ s.leaving c .WB ++ (s.next c writeFirst).older .IF) := by
    unfold stream
    rw [hleaves, List.append_assoc A]
  rcases h.cases with hflush | ⟨T, hT, hvalid, hstops⟩
  · have hnext := stream_next_of_not_stops writeFirst hflush
    rw [hstream] at hnext
    unfold stream at hnext
    rw [hretired, List.append_assoc A, List.append_assoc A, List.append_cancel_left_eq, holdest]
      at hnext
    exact ⟨_, f, _, hleaves, hnext, rfl, rfl, fun _ => rfl, Nat.le_refl _⟩
  · have hnext := stream_next_of_stops writeFirst hT hvalid hstops
    rw [hstream, hretired, List.append_assoc A, List.append_assoc A, List.append_cancel_left_eq]
      at hnext
    -- what is kept begins as the stream does
    obtain ⟨tail, htail⟩ := s.exists_stream_eq T.prev
    unfold stream at htail
    rw [older_prev hT, show s.inStage T = [s.flow T] from if_pos (of_isValid hvalid).1, hretired]
      at htail
    simp only [List.append_assoc] at htail hnext
    rw [List.append_cancel_left_eq, holdest, ← List.append_assoc] at htail
    rw [← List.append_assoc, ← List.append_assoc] at hnext
    cases hhead : l ++ s.older T with
    | nil =>
      rw [hhead] at htail hnext
      obtain rfl : f = s.flow T := (List.cons.inj htail).1
      exact ⟨_, s.current c T, _, hleaves, hnext, same_current⟩
    | cons g more =>
      rw [hhead] at htail hnext
      obtain rfl : f = g := (List.cons.inj htail).1
      exact ⟨_, f, _, hleaves, hnext, rfl, rfl, fun _ => rfl, Nat.le_refl _⟩

/-! ## The contract -/

/-- **A stage calls `claimPipeline`** in every cycle of a stretch. -/
structure Calls (env : ℕ → FlowSignals P) (S : Stage) (t₀ t : ℕ) : Prop where
  le : t₀ ≤ t
  claims : ∀ k, t₀ ≤ k → k ≤ t → claims (env k) S = true

/-- True has been returned in a cycle of the stretch. -/
def Returned (run : ℕ → FlowPipeline P) (env : ℕ → FlowSignals P) (S : Stage) (t₀ t : ℕ) : Prop :=
  ∃ k, t₀ ≤ k ∧ k ≤ t ∧ (run k).pipelineFlushed (env k) S = true

/-- **The contract of `claimPipeline`**, of a stage that calls it from a cycle
`t₀` to a cycle `t`. -/
structure Contract (start : Word × P) (run : ℕ → FlowPipeline P) (env : ℕ → FlowSignals P)
    (S : Stage) (t₀ t : ℕ) : Prop where
  /-- Once True has been returned, no other stage has a valid instruction. -/
  alone : Returned run env S t₀ t → ∀ T, T ≠ S → ((run t).arb (env t) T).isValid = false
  /-- And all older instructions have retired. -/
  retired : Returned run env S t₀ t → (run t).retired = (run t₀).retired ++ (run t₀).older S
  /-- No younger instruction has changed anything, or jumped to another PCC. -/
  untouched : ∀ T, S ∈ T.later → (run t₀).hasInstr T = true →
    (run t₀).hasChanged (env t₀) T = false
      ∧ ((run t₀).flow T).nextPcc = ((run t₀).flow T).pcc
  /-- And after the first cycle they are gone. -/
  dropped : ∀ k, t₀ ≤ k → k ≤ t → ∀ T, T ≠ .IF → S ∈ T.later →
    (run (k + 1)).hasInstr T = false
  /-- The fetch stage goes on after the instruction that claims. -/
  restarts : (run (t + 1)).pc = ((run t₀).flow S).nextPc
    ∧ ((run t).trapped (env t) S = false → (run (t + 1)).payload = ((run t₀).flow S).nextPcc)
  /-- What retires next is the instruction that claims, and then what follows
  it. -/
  completes : Returned run env S t₀ t → ∀ n, t < n →
    ∃ l, (run n).retired = (run t₀).retired ++ (run t₀).older S ++ l
      ∧ (l = [] ∨ ∃ i rest, l = i :: rest ∧ ((run t₀).flow S).Same i
        ∧ Follows Flow.comes Flow.goes i.goes rest)
  /-- And all that retires, before and after, follows from the start. -/
  sequential : ∀ n, Follows Flow.comes Flow.goes start (run n).retired

section

variable {run : ℕ → FlowPipeline P} {env : ℕ → FlowSignals P} {t₀ t : ℕ}
  (hnext : ∀ n, run (n + 1) = (run n).next (env n) writeFirst)
  (hproper : ∀ n, (run n).Proper (env n))
  (hcalls : Calls env S t₀ t)

include hnext hproper

/-- **While it claims**, the instruction stays, and those that were older are
retired or still in flight. -/
theorem claim_run (hclaims : ∀ k, t₀ ≤ k → k < t → claims (env k) S = true) (hle : t₀ ≤ t) :
    (run t).flow S = (run t₀).flow S
      ∧ (run t).retired ++ (run t).older S = (run t₀).retired ++ (run t₀).older S := by
  induction t, hle using Nat.le_induction with
  | base => exact ⟨rfl, rfl⟩
  | succ k hk ih =>
    obtain ⟨hflow, holder⟩ := ih fun m hm hlt => hclaims m hm (Nat.lt_succ_of_lt hlt)
    obtain ⟨-, hflow', holder'⟩ :=
      (hproper k).claim_stays writeFirst (hclaims k hk (Nat.lt_succ_self k))
    rw [hnext k]
    exact ⟨hflow'.trans hflow, holder'.trans holder⟩

/-- **Once True has been returned** it is returned until the calls stop. -/
theorem flushed_run {k : ℕ} (hk : t₀ ≤ k) (hflushed : (run k).pipelineFlushed (env k) S = true)
    (hclaims : ∀ m, t₀ ≤ m → m < t → claims (env m) S = true) (hle : k ≤ t) :
    (run t).pipelineFlushed (env t) S = true := by
  induction t, hle using Nat.le_induction with
  | base => exact hflushed
  | succ m hm ih =>
    have hflushed := ih fun j hj hlt => hclaims j hj (Nat.lt_succ_of_lt hlt)
    refine pipelineFlushed_of_empty fun T hT => ?_
    rw [hnext m]
    exact (hproper m).claim_flushed (hclaims m (Nat.le_trans hk hm) (Nat.lt_succ_self m))
      hflushed hT

/-- **The instruction that was the oldest** is still there, or is what has
retired. -/
theorem oldest_run {A : List (Flow P)} {f : Flow P} {rest : List (Flow P)} {n m : ℕ}
    (hle : n ≤ m) (hretired : (run n).retired = A) (holdest : (run n).older .IF = f :: rest) :
    ∃ l g rest', (run m).retired = A ++ l ∧ l ++ (run m).older .IF = g :: rest' ∧ f.Same g := by
  induction m, hle using Nat.le_induction with
  | base =>
    refine ⟨[], f, rest, ?_, holdest, rfl, rfl, fun _ => rfl, Nat.le_refl _⟩
    rw [hretired, List.append_nil]
  | succ m hm ih =>
    obtain ⟨l, g, rest', hl, hg, hsame⟩ := ih
    obtain ⟨l', g', rest'', hl', hg', hsame'⟩ :=
      (hproper m).oldest_next writeFirst hl hg
    rw [hnext m]
    exact ⟨l', g', rest'', hl', hg', same_trans hsame hsame'⟩

include hcalls

/-- With True returned, what was older has retired, and the pipeline has nothing
but the instruction that claims. -/
theorem returned_run (hreturned : Returned run env S t₀ t) :
    (run t).pipelineFlushed (env t) S = true
      ∧ (run t).retired = (run t₀).retired ++ (run t₀).older S := by
  obtain ⟨k, hk, hkt, hflushed⟩ := hreturned
  have hclaims : ∀ m, t₀ ≤ m → m < t → claims (env m) S = true := fun m hm hlt =>
    hcalls.claims m hm (Nat.le_of_lt hlt)
  have hflushed := flushed_run hnext hproper hk hflushed hclaims hkt
  have holder := (claim_run hnext hproper hclaims hcalls.le).2
  rw [(hproper t).older_eq_nil (hcalls.claims t hcalls.le (Nat.le_refl t)) hflushed,
    List.append_nil] at holder
  exact ⟨hflushed, holder⟩

/-- After the calls, the instruction that claims is the only one in flight. -/
theorem stream_after (hreturned : Returned run env S t₀ t) :
    (run (t + 1)).retired = (run t₀).retired ++ (run t₀).older S
      ∧ (run (t + 1)).older .IF = [(run t₀).flow S] := by
  have hclaim := hcalls.claims t hcalls.le (Nat.le_refl t)
  obtain ⟨hflushed, hretired⟩ := returned_run hnext hproper hcalls hreturned
  obtain ⟨hS, hvalid, hdone⟩ := (hproper t).calls S hclaim
  have hflow := (claim_run hnext hproper
    (fun m hm hlt => hcalls.claims m hm (Nat.le_of_lt hlt)) hcalls.le).1
  have hempty := (hproper t).older_eq_nil hclaim hflushed
  have hcurrent : (run t).current (env t) S = (run t).flow S :=
    if_neg (by rw [hdone]; exact Bool.false_ne_true)
  have holder : (run (t + 1)).older S = [] := by
    rw [hnext t]
    exact older_of_empty fun T hT => (hproper t).claim_flushed hclaim hflushed hT
  have hkeep := ((hproper t).claim_stays writeFirst hclaim).2.2
  rw [← hnext t, holder, hempty, List.append_nil, List.append_nil] at hkeep
  have hstream := stream_next_of_stops writeFirst hS hvalid
    (stops_of_claims hclaim)
  rw [← hnext t, hempty, List.append_nil, hcurrent, hflow] at hstream
  unfold stream at hstream
  rw [hkeep, List.append_cancel_left_eq] at hstream
  exact ⟨hkeep.trans hretired, hstream⟩

/-- **The contract is kept** in a run in which the program is in order. -/
theorem contract_of_running (hrunning : ∀ n, (run n).Running start)
    (htraps : ∀ n, (run n).TrapsStay (env n)) (hclaim : ∀ n, (run n).Undisturbed (env n)) :
    Contract start run env S t₀ t := by
  have hcall := hcalls.claims t hcalls.le (Nat.le_refl t)
  have hcall₀ := hcalls.claims t₀ (Nat.le_refl t₀) hcalls.le
  have hflow := (claim_run hnext hproper
    (fun m hm hlt => hcalls.claims m hm (Nat.le_of_lt hlt)) hcalls.le).1
  have hfollows : ∀ n, Follows Flow.comes Flow.goes start (run n).retired := by
    intro n
    have hretired := (hrunning n).follows_older .WB
    rwa [show (run n).older .WB = [] from rfl, List.append_nil] at hretired
  constructor
  · intro hreturned T hT
    obtain ⟨hflushed, -⟩ := returned_run hnext hproper hcalls hreturned
    rcases Stage.later_trichotomy T S with heq | hmem | hmem
    · exact absurd heq hT
    · exact pipelineFlushed_iff.1 hflushed T hmem
    · exact claim_younger hcall hmem
  · exact fun hreturned => (returned_run hnext hproper hcalls hreturned).2
  · intro T hT hin
    have hunchanged : (run t₀).hasChanged (env t₀) T = (T != .IF && (run t₀).changed T) := by
      unfold hasChanged
      rw [claim_younger hcall₀ hT, Bool.false_and, Bool.or_false]
    rw [hunchanged]
    cases T with
    | IF => exact ⟨rfl, rfl⟩
    | ID => exact (hrunning t₀).early .ID (Or.inl rfl) hin
    | EX => exact (hrunning t₀).early .EX (Or.inr rfl) hin
    | MEM =>
      obtain rfl := List.mem_singleton.1 hT
      exact hclaim t₀ hcall₀ hin
    | WB => exact absurd hT List.not_mem_nil
  · intro k hk hkt T hT hmem
    rw [hnext k]
    exact claim_drops (hcalls.claims k hk hkt) hT hmem
  · rw [hnext t, ← hflow]
    refine ⟨((hproper t).of_claims hcall).1, fun htrap => ?_⟩
    obtain ⟨hS, hvalid, -⟩ := (hproper t).calls S hcall
    show (run t).nextPayload (env t) = _
    rw [((hproper t).of_claims hcall).2]
    rcases (hrunning t).payload_of_stops (htraps t) hS hvalid (stops_of_claims hcall)
      (fun hWB hin => (hclaim t (hWB ▸ hcall) hin).2) with ⟨hWB, htrapWB⟩ | hpayload
    · exact absurd (htrap.symm.trans (hWB ▸ htrapWB)) Bool.false_ne_true
    · exact hpayload
  · intro hreturned n hn
    obtain ⟨hretired, holdest⟩ := stream_after hnext hproper hcalls hreturned
    obtain ⟨l, g, rest, hl, hg, hsame⟩ := oldest_run hnext hproper hn hretired holdest
    refine ⟨l, hl, ?_⟩
    cases l with
    | nil => exact Or.inl rfl
    | cons i more =>
      right
      obtain rfl : i = g := (List.cons.inj hg).1
      refine ⟨i, more, rfl, hsame, ?_⟩
      have hall := hfollows n
      rw [hl] at hall
      exact hall.after
  · exact hfollows

end

/-- **The contract, in every run**: it is kept by all claims if and only if
write-back does not claim the pipeline while there is an instruction behind it
that has changed memory or jumped to another PCC. -/
theorem claimPipeline_contract_iff (writeFirst : Bool) {s₀ : FlowPipeline P}
    (hreset : s₀.Reset start) (env : ℕ → FlowSignals P)
    (hproper : ∀ n, ((flowMachine P writeFirst).stateAt s₀ env n).Proper (env n))
    (htraps : ∀ n, ((flowMachine P writeFirst).stateAt s₀ env n).TrapsStay (env n)) :
    (∀ S t₀ t, Calls env S t₀ t →
        Contract start ((flowMachine P writeFirst).stateAt s₀ env) env S t₀ t)
      ↔ ∀ n, ((flowMachine P writeFirst).stateAt s₀ env n).Undisturbed (env n) := by
  constructor
  · intro hcontract n hclaim hin
    have hcalls : Calls env .WB n n := ⟨Nat.le_refl n, fun k hk hkn => by
      rw [Nat.le_antisymm hkn hk]
      exact hclaim⟩
    have huntouched := (hcontract .WB n n hcalls).untouched .MEM (List.mem_singleton.2 rfl) hin
    unfold hasChanged at huntouched
    rw [show (Stage.MEM != Stage.IF) = true from rfl, Bool.true_and, Bool.or_eq_false_iff]
      at huntouched
    exact ⟨huntouched.1.1, huntouched.2⟩
  · intro hclaim S t₀ t hcalls
    have hrunning : ∀ n, ((flowMachine P writeFirst).stateAt s₀ env n).Running start := by
      intro n
      induction n with
      | zero => exact hreset.running
      | succ n ih => exact ih.next (hproper n) (htraps n) (hclaim n)
    exact contract_of_running (fun _ => rfl) hproper hcalls hrunning htraps hclaim

/-! ### Runs without a trap -/

/-- Nothing traps in a run in which no stage raises a trap. -/
theorem quiet_run (writeFirst : Bool) (s₀ : FlowPipeline P) (env : ℕ → FlowSignals P)
    (hreset : s₀.pipe.Untrapped ∧ ∀ S, s₀.trappedBefore S = false)
    (htrap : ∀ n S, ((env n).signals.stage S).trap = false) (n : ℕ) :
    (∀ S, ((flowMachine P writeFirst).stateAt s₀ env n).trapped (env n) S = false)
      ∧ ∀ S, ((flowMachine P writeFirst).stateAt s₀ env n).trappedBefore S = false := by
  have htrapped : ∀ {s : FlowPipeline P} {c : FlowSignals P}, s.pipe.Untrapped →
      (∀ S, (c.signals.stage S).trap = false) → ∀ S, s.trapped c S = false := by
    intro s c hs hc S
    cases S with
    | IF => exact hc .IF
    | ID => exact Bool.or_eq_false_iff.2 ⟨hc .ID, hs.id⟩
    | EX => exact Bool.or_eq_false_iff.2 ⟨hc .EX, hs.ex⟩
    | MEM => exact Bool.or_eq_false_iff.2 ⟨hc .MEM, hs.mem⟩
    | WB => exact Bool.or_eq_false_iff.2 ⟨hc .WB, hs.wb⟩
  have hrun : ∀ n, ((flowMachine P writeFirst).stateAt s₀ env n).pipe.Untrapped
      ∧ ∀ S, ((flowMachine P writeFirst).stateAt s₀ env n).trappedBefore S = false := by
    intro n
    induction n with
    | zero => exact hreset
    | succ n ih =>
      refine ⟨StaticPipeline.Untrapped.next ih.1 (htrap n), fun S => ?_⟩
      show shift _ _ S _ _ = false
      unfold shift
      rw [htrapped ih.1 (htrap n), htrapped ih.1 (htrap n), ih.2 S, Bool.and_false, Bool.or_false,
        ite_self]
  exact ⟨htrapped (hrun n).1 (htrap n), (hrun n).2⟩

/-- An instruction that does nothing: `ADDI x0, x0, 0`. -/
def nop : Instr := ⟨.aluImm, 0, 0, 0, 0, fun _ => rfl⟩

/-- The signals of a cycle in which the fetch stage gets an instruction or not,
execution may jump, and memory access and write-back may wait, and claim. -/
def signalsOf (fetch jump : Bool) (waits claims : Stage → Bool) : Signals where
  fetched := nop
  stage
    | .IF => ⟨fetch, fun _ => false, fun t => t.null, false, false, false⟩
    | .EX => ⟨true, fun _ => false, fun t => t.null, jump, false, false⟩
    | S => ⟨!waits S, fun _ => false, fun t => t.null, false, claims S, false⟩

/-- The state of reset, with nothing in the pipeline. -/
def emptyPipeline : FlowPipeline Capability :=
  let start : Flow Capability := ⟨0, .root, 4, .root, 0⟩
  { pipe := StaticPipeline.resetState false
    pc := 0x80000000
    payload := .root
    id := start
    ex := start
    mem := start
    wb := start
    trappedBefore := fun _ => false
    changed := fun _ => false
    retired := [] }

/-- The PCC that execution jumps to. -/
def otherPcc : Capability := { Capability.root with base := 0x1000, length := 0x1000 }

theorem reset_emptyPipeline : emptyPipeline.Reset (0x80000000, Capability.root) where
  empty S hS := by
    cases S with
    | IF => exact absurd rfl hS
    | _ => rfl
  retired := rfl
  fetch := rfl

/-- Two instructions; the first claims the pipeline for two cycles in memory
access. -/
def claimsInMem (n : ℕ) : FlowSignals Capability where
  signals := signalsOf (n < 2 || n == 5) false (fun S => S == .MEM && (n == 3 || n == 4))
    (fun S => S == .MEM && (n == 3 || n == 4))
  target _ := (0, .root)
  changes _ := false

/-- Two instructions; the second jumps to another PCC, and then the first claims
the pipeline in write-back. -/
def claimsInWb (n : ℕ) : FlowSignals Capability where
  signals := signalsOf (n < 2) (n == 3) (fun S => S == .WB && n == 4)
    (fun S => S == .WB && n == 4)
  target _ := (0x100, otherPcc)
  changes _ := false

theorem claimsInMem_contract :
    Calls claimsInMem .MEM 3 4
      ∧ Contract (0x80000000, Capability.root)
        ((flowMachine Capability false).stateAt emptyPipeline claimsInMem) claimsInMem
          .MEM 3 4 := by
  have hcalls : Calls claimsInMem .MEM 3 4 := by
    refine ⟨by decide, fun k hk hk4 => ?_⟩
    obtain rfl | rfl : k = 3 ∨ k = 4 := by omega
    · rfl
    · rfl
  have hquiet := quiet_run false emptyPipeline claimsInMem
    ⟨⟨rfl, rfl, rfl, rfl⟩, fun _ => rfl⟩ (fun n S => by cases S <;> rfl)
  have hclaims : ∀ n S, claims (claimsInMem n) S = true → S = .MEM ∧ (n = 3 ∨ n = 4) := by
    intro n S h
    cases S with
    | MEM =>
      refine ⟨rfl, ?_⟩
      have h : (n == 3 || n == 4) = true := h
      rw [Bool.or_eq_true, beq_iff_eq, beq_iff_eq] at h
      exact h
    | _ => cases h
  refine ⟨hcalls, (claimPipeline_contract_iff false reset_emptyPipeline claimsInMem (fun n => ?_)
    (fun n S hS hin hbefore => ?_)).2 (fun n h => ?_) .MEM 3 4 hcalls⟩
  · refine ⟨fun S h => ?_, fun S h => ?_, fun S h => ?_, fun _ h => ?_⟩
    · obtain ⟨rfl, rfl | rfl⟩ := hclaims n S h
      · decide
      · decide
    · cases S <;> cases h
    · cases h
    · exact absurd (((hquiet n).1 .WB).symm.trans h) Bool.false_ne_true
  · exact absurd (((hquiet n).2 S).symm.trans hbefore) Bool.false_ne_true
  · exact absurd (hclaims n .WB h).1 (by decide)

/-- **In write-back the contract is not kept**: the PC is set to what comes
after the instruction that claims, and the PCC is that of the jump behind it. -/
theorem claimsInWb_not_contract :
    Calls claimsInWb .WB 4 4
      ∧ ((flowMachine Capability false).stateAt emptyPipeline claimsInWb 4).wb.goes
        = (0x80000004, .root)
      ∧ ((flowMachine Capability false).stateAt emptyPipeline claimsInWb 5).pc = 0x80000004
      ∧ ((flowMachine Capability false).stateAt emptyPipeline claimsInWb 5).payload = otherPcc
      ∧ (∀ n, ((flowMachine Capability false).stateAt emptyPipeline claimsInWb n).Proper
          (claimsInWb n)
        ∧ ((flowMachine Capability false).stateAt emptyPipeline claimsInWb n).TrapsStay
          (claimsInWb n))
      ∧ ¬ Contract (0x80000000, Capability.root)
        ((flowMachine Capability false).stateAt emptyPipeline claimsInWb) claimsInWb .WB 4 4 := by
  have hquiet := quiet_run false emptyPipeline claimsInWb
    ⟨⟨rfl, rfl, rfl, rfl⟩, fun _ => rfl⟩ (fun n S => by cases S <;> rfl)
  refine ⟨⟨by decide, fun k hk hk4 => ?_⟩, by decide, by decide, by decide,
    fun n => ⟨⟨fun S h => ?_, fun S h => ?_, fun S h => ?_, fun _ h => ?_⟩,
      fun S _ _ hbefore => ?_⟩, fun h => ?_⟩
  · obtain rfl := Nat.le_antisymm hk4 hk
    rfl
  · cases S with
    | WB =>
      obtain rfl : n = 4 := eq_of_beq h
      decide
    | _ => cases h
  · cases S with
    | EX => exact Or.inl rfl
    | _ => cases h
  · cases h
  · exact absurd (((hquiet n).1 .WB).symm.trans h) Bool.false_ne_true
  · exact absurd (((hquiet n).2 S).symm.trans hbefore) Bool.false_ne_true
  · exact absurd (h.untouched .MEM (by decide) (by decide)).2 (by decide)

end FlowPipeline

end Proteus
