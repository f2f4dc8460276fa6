import CheriTree.Sha256Chunks
import CheriTree.SyncMachine

/-!
# The SHA-2 engine

`SHA2Engine_Std` for SHA-256 takes a block of sixteen words and does a round of
the compression in each cycle. It keeps all of the message schedule, and makes
word `t + 16` of it in round `t`, where the last sixteen rounds have none to
make. When the rounds are done it adds them to its hash and says so for a cycle.

An engine at rest that is given a block goes through its sixty-four rounds and
answers with the chunk consumed. One that is told to start again in the middle
of a block stays busy, and does not answer any more (`Stuck`).
-/

namespace SpinalCrypto

abbrev Word := BitVec 32

/-! ## The logical functions -/

def CH (x y z : Word) : Word := (x &&& y) ^^^ (~~~x &&& z)

def MAJ (x y z : Word) : Word := (x &&& y) ^^^ (x &&& z) ^^^ (y &&& z)

def BSIG0 (x : Word) : Word := x.rotateRight 2 ^^^ x.rotateRight 13 ^^^ x.rotateRight 22

def BSIG1 (x : Word) : Word := x.rotateRight 6 ^^^ x.rotateRight 11 ^^^ x.rotateRight 25

def SSIG0 (x : Word) : Word := x.rotateRight 7 ^^^ x.rotateRight 18 ^^^ x >>> 3

def SSIG1 (x : Word) : Word := x.rotateRight 17 ^^^ x.rotateRight 19 ^^^ x >>> 10

theorem rotateRight_eq (x : Word) {n : ℕ} (hn : n < 32) : x.rotateRight n = Sha256.rightRot x n :=
  BitVec.rotateRight_eq_rotateRightAux_of_lt hn

/-! ## The engine -/

/-- **The registers of the engine.** The hash is not reset; `init` sets it. -/
structure Sha2Engine where
  /-- `a` to `h`. -/
  vars : Sha256.State
  /-- Sixty-four words. -/
  w : List Word
  roundCnt : BitVec 6
  startProcessing : Bool
  finalProcessing : Bool
  isBusy : Bool
  hash : Sha256.State
  rspValid : Bool

/-- What the engine is given in a cycle. The message is a block of sixteen
words, the lowest one first. -/
structure EngineInput where
  init : Bool
  valid : Bool
  message : List Word

namespace Sha2Engine

variable (s : Sha2Engine) (i : EngineInput)

/-- A command is received. -/
def accepts : Bool := i.valid && !s.isBusy && !s.rspValid

/-- Command received: the highest word of the message is the first. -/
def load : Sha2Engine :=
  if s.accepts i then
    { s with
      w := i.message.reverse ++ s.w.drop 16
      vars := s.hash
      startProcessing := true
      isBusy := true
      roundCnt := 0 }
  else s

/-- `initProcess`. -/
def initProcess (r : Sha2Engine) : Sha2Engine :=
  if i.init then
    { r with hash := Sha256.init, finalProcessing := false, startProcessing := false }
  else r

/-- A word of the schedule. -/
def wAt (index : BitVec 6) : Word := s.w.getD index.toNat 0

/-- The variables after a round. -/
def nextVars : Sha256.State :=
  let v := s.vars
  let temp1 := v.h + BSIG1 v.e + CH v.e v.f v.g + Sha256.k.getD s.roundCnt.toNat 0
    + s.wAt s.roundCnt
  ⟨BSIG0 v.a + MAJ v.a v.b v.c + temp1, v.a, v.b, v.c, v.d + temp1, v.e, v.f, v.g⟩

/-- The word of the schedule that a round makes. -/
def nextW : Word :=
  s.wAt s.roundCnt + s.wAt (s.roundCnt + 9) + SSIG0 (s.wAt (s.roundCnt + 1))
    + SSIG1 (s.wAt (s.roundCnt + 14))

/-- `processing`, on registers that are written already. -/
def processing (r : Sha2Engine) : Sha2Engine :=
  if s.startProcessing then
    { r with
      startProcessing := if s.roundCnt = 63 then false else r.startProcessing
      finalProcessing := if s.roundCnt = 63 then true else r.finalProcessing
      w := if s.roundCnt < 48 then r.w.set (s.roundCnt + 16).toNat s.nextW else r.w
      roundCnt := s.roundCnt + 1
      vars := s.nextVars }
  else r

/-- Compute intermediate hash value. -/
def finish (r : Sha2Engine) : Sha2Engine :=
  if s.finalProcessing then
    { r with hash := s.hash.add s.vars, finalProcessing := false, isBusy := false }
  else r

/-- **A cycle of the engine**: of two assignments the later one counts. -/
def next : Sha2Engine :=
  { s.finish (s.processing (initProcess i (s.load i))) with rspValid := s.finalProcessing }

/-- `io.cmd.ready`, which is `io.rsp.valid`. -/
def ready : Bool := s.rspValid

/-! ## What it computes -/

variable {s i}

/-- **At rest**, with a hash. -/
structure Idle (h : Sha256.State) (s : Sha2Engine) : Prop where
  start : s.startProcessing = false
  final : s.finalProcessing = false
  busy : s.isBusy = false
  rsp : s.rspValid = false
  hash : s.hash = h
  length : s.w.length = 64

/-- **In round** `t` of a block. -/
structure InRound (h : Sha256.State) (message : List Word) (t : ℕ) (s : Sha2Engine) :
    Prop where
  start : s.startProcessing = true
  final : s.finalProcessing = false
  busy : s.isBusy = true
  rsp : s.rspValid = false
  hash : s.hash = h
  block : message.length = 16
  lt : t < 64
  count : s.roundCnt = BitVec.ofNat 6 t
  vars : s.vars = Sha256.roundsTo Sha256.k h message.reverse t
  length : s.w.length = 64
  schedule : ∀ j : ℕ, j < 64 → j < t + 16 → s.w.getD j 0 = Sha256.schedule message.reverse j

/-- **The rounds are done.** -/
structure InFinal (h : Sha256.State) (message : List Word) (s : Sha2Engine) : Prop where
  start : s.startProcessing = false
  final : s.finalProcessing = true
  busy : s.isBusy = true
  rsp : s.rspValid = false
  hash : s.hash = h
  vars : s.vars = Sha256.roundsTo Sha256.k h message.reverse 64
  length : s.w.length = 64

/-- **The engine answers**, with a new hash. -/
structure Answers (h : Sha256.State) (s : Sha2Engine) : Prop where
  start : s.startProcessing = false
  final : s.finalProcessing = false
  busy : s.isBusy = false
  rsp : s.rspValid = true
  hash : s.hash = h
  length : s.w.length = 64

/-- A round of the engine is one of SHA-256. -/
theorem nextVars_eq : s.nextVars
    = Sha256.round s.vars (Sha256.k.getD s.roundCnt.toNat 0) (s.wAt s.roundCnt) := by
  unfold nextVars Sha256.round BSIG0 BSIG1 CH MAJ
  simp only [rotateRight_eq _ (show 2 < 32 by decide), rotateRight_eq _ (show 13 < 32 by decide),
    rotateRight_eq _ (show 22 < 32 by decide), rotateRight_eq _ (show 6 < 32 by decide),
    rotateRight_eq _ (show 11 < 32 by decide), rotateRight_eq _ (show 25 < 32 by decide)]
  congr 1
  exact BitVec.add_comm _ _

/-- A cycle in which no command is received. -/
theorem next_eq (ha : s.accepts i = false) (hi : i.init = false) :
    s.next i = { s.finish (s.processing s) with rspValid := s.finalProcessing } := by
  have hload : s.load i = s := if_neg (by rw [ha]; exact Bool.false_ne_true)
  have hinit : initProcess i s = s := if_neg (by rw [hi]; exact Bool.false_ne_true)
  rw [next, hload, hinit]

/-- A cycle of an engine that does not process. -/
theorem next_of_quiet (ha : s.accepts i = false) (hi : i.init = false)
    (hstart : s.startProcessing = false) (hfinal : s.finalProcessing = false) :
    s.next i = { s with rspValid := false } := by
  have hproc : s.processing s = s := if_neg (by rw [hstart]; exact Bool.false_ne_true)
  have hfin : s.finish s = s := if_neg (by rw [hfinal]; exact Bool.false_ne_true)
  rw [next_eq ha hi, hproc, hfin]
  exact congrArg (fun b => { s with rspValid := b }) hfinal

variable {h : Sha256.State}

/-- An engine at rest stays so without a block. -/
theorem Idle.next (hs : s.Idle h) (hv : i.valid = false) (hi : i.init = false) :
    (s.next i).Idle h := by
  have ha : s.accepts i = false := by
    rw [accepts, hv, Bool.false_and, Bool.false_and]
  rw [next_of_quiet ha hi hs.start hs.final]
  exact ⟨hs.start, hs.final, hs.busy, rfl, hs.hash, hs.length⟩

/-- One that is told to start again has the hash of nothing. -/
theorem Idle.next_init (hs : s.Idle h) (hv : i.valid = false) (hi : i.init = true) :
    (s.next i).Idle Sha256.init := by
  have hload : s.load i = s := if_neg (by rw [accepts, hv]; exact Bool.false_ne_true)
  have hproc : ∀ r, s.processing r = r := fun r =>
    if_neg (by rw [hs.start]; exact Bool.false_ne_true)
  have hfin : ∀ r, s.finish r = r := fun r =>
    if_neg (by rw [hs.final]; exact Bool.false_ne_true)
  rw [Sha2Engine.next, hload, hproc, hfin, initProcess, if_pos hi]
  exact ⟨rfl, rfl, hs.busy, hs.final, rfl, hs.length⟩

/-- **It starts on a block** that it is given. -/
theorem Idle.next_inRound (hs : s.Idle h) (hv : i.valid = true) (hi : i.init = false)
    (hblock : i.message.length = 16) : (s.next i).InRound h i.message 0 := by
  have ha : s.accepts i = true := by
    rw [accepts, hv, hs.busy, hs.rsp]
    rfl
  have hinit : initProcess i (s.load i) = s.load i :=
    if_neg (by rw [hi]; exact Bool.false_ne_true)
  have hproc : s.processing (s.load i) = s.load i :=
    if_neg (by rw [hs.start]; exact Bool.false_ne_true)
  have hfin : s.finish (s.load i) = s.load i :=
    if_neg (by rw [hs.final]; exact Bool.false_ne_true)
  have hnext : s.next i = { s.load i with rspValid := false } := by
    rw [Sha2Engine.next, hinit, hproc, hfin, hs.final]
  have hrev : i.message.reverse.length = 16 := by
    rw [List.length_reverse, hblock]
  rw [hnext, load, if_pos ha]
  refine ⟨rfl, hs.final, rfl, rfl, hs.hash, hblock, by decide, rfl, hs.hash, ?_, fun j _ hj => ?_⟩
  · rw [List.length_append, hrev, List.length_drop, hs.length]
  · rw [Sha256.schedule_of_lt hrev (by omega), List.getD_append _ _ _ _ (by omega)]

variable {message : List Word} {t : ℕ}

theorem InRound.toNat_count (hs : s.InRound h message t) : s.roundCnt.toNat = t := by
  rw [hs.count, BitVec.toNat_ofNat]
  exact Nat.mod_eq_of_lt hs.lt

theorem InRound.count_ne (hs : s.InRound h message t) (ht : t + 1 < 64) : s.roundCnt ≠ 63 := by
  intro heq
  have hnat := congrArg BitVec.toNat heq
  rw [hs.toNat_count] at hnat
  exact absurd hnat (Nat.ne_of_lt (Nat.lt_of_succ_lt_succ ht))

theorem InRound.accepts (hs : s.InRound h message t) : s.accepts i = false := by
  rw [Sha2Engine.accepts, hs.busy, Bool.not_true, Bool.and_false, Bool.false_and]

/-- The variables after the round. -/
theorem InRound.nextVars_eq (hs : s.InRound h message t) :
    s.nextVars = Sha256.roundsTo Sha256.k h message.reverse (t + 1) := by
  rw [Sha2Engine.nextVars_eq, wAt, hs.toNat_count, hs.vars, hs.schedule t hs.lt (by omega)]
  rfl

/-- **The word that a round makes** is the next of the schedule. -/
theorem InRound.nextW_eq (hs : s.InRound h message t) (ht : t < 48) :
    s.nextW = Sha256.schedule message.reverse (t + 16) := by
  have hat : ∀ j, j < 16 → s.wAt (s.roundCnt + BitVec.ofNat 6 j)
      = Sha256.schedule message.reverse (t + j) := by
    intro j hj
    have hnat : (s.roundCnt + BitVec.ofNat 6 j).toNat = t + j := by
      rw [hs.count, ← BitVec.ofNat_add, BitVec.toNat_ofNat]
      exact Nat.mod_eq_of_lt (show t + j < 64 by omega)
    rw [wAt, hnat]
    exact hs.schedule (t + j) (by omega) (by omega)
  have hzero := hat 0 (by decide)
  rw [BitVec.add_zero, Nat.add_zero] at hzero
  unfold nextW SSIG0 SSIG1
  rw [hzero, show (9 : BitVec 6) = BitVec.ofNat 6 9 from rfl, hat 9 (by decide),
    show (1 : BitVec 6) = BitVec.ofNat 6 1 from rfl, hat 1 (by decide),
    show (14 : BitVec 6) = BitVec.ofNat 6 14 from rfl, hat 14 (by decide),
    Sha256.schedule_add_sixteen (by rw [List.length_reverse, hs.block]) t,
    rotateRight_eq _ (show 7 < 32 by decide), rotateRight_eq _ (show 18 < 32 by decide),
    rotateRight_eq _ (show 17 < 32 by decide), rotateRight_eq _ (show 19 < 32 by decide),
    BitVec.add_assoc (Sha256.schedule _ t) (Sha256.schedule _ (t + 9)),
    BitVec.add_comm (Sha256.schedule _ (t + 9)), ← BitVec.add_assoc (Sha256.schedule _ t)]

/-- The words of the schedule after a round. -/
def wNext (s : Sha2Engine) : List Word :=
  if s.roundCnt < 48 then s.w.set (s.roundCnt + 16).toNat s.nextW else s.w

theorem length_wNext : s.wNext.length = s.w.length := by
  unfold wNext
  split
  · exact List.length_set
  · rfl

/-- **The schedule after the round.** -/
theorem InRound.schedule_next (hs : s.InRound h message t) {j : ℕ} (hj : j < 64)
    (hle : j < t + 1 + 16) : s.wNext.getD j 0 = Sha256.schedule message.reverse j := by
  have hcnt : s.roundCnt < 48 ↔ t < 48 := by
    rw [BitVec.lt_def, hs.toNat_count]
    rfl
  unfold wNext
  split
  · rename_i hlt
    have ht := hcnt.1 hlt
    have hsum : (s.roundCnt + 16).toNat = t + 16 := by
      rw [BitVec.toNat_add, hs.toNat_count]
      exact Nat.mod_eq_of_lt (show t + 16 < 64 by omega)
    rw [hsum, List.getD_eq_getElem?_getD]
    by_cases hnew : t + 16 = j
    · rw [hnew, List.getElem?_set_self (by rw [hs.length]; exact hj), Option.getD_some,
        hs.nextW_eq ht, hnew]
    · rw [List.getElem?_set_ne hnew, ← List.getD_eq_getElem?_getD]
      exact hs.schedule j hj (by omega)
  · rename_i hge
    have ht := mt hcnt.2 hge
    exact hs.schedule j hj (by omega)

/-- A round of the engine. -/
theorem InRound.next_eq (hs : s.InRound h message t) (hi : i.init = false) :
    s.next i =
      { s with
        startProcessing := if s.roundCnt = 63 then false else true
        finalProcessing := if s.roundCnt = 63 then true else false
        w := s.wNext
        roundCnt := s.roundCnt + 1
        vars := s.nextVars
        rspValid := false } := by
  have hfin : ∀ r, s.finish r = r := fun r =>
    if_neg (by rw [hs.final]; exact Bool.false_ne_true)
  rw [Sha2Engine.next_eq hs.accepts hi, hfin, processing, if_pos hs.start, hs.start, hs.final]
  rfl

/-- **A round that is not the last.** -/
theorem InRound.next (hs : s.InRound h message t) (hi : i.init = false) (ht : t + 1 < 64) :
    (s.next i).InRound h message (t + 1) := by
  have hne := hs.count_ne ht
  rw [hs.next_eq hi, if_neg hne, if_neg hne]
  refine ⟨rfl, rfl, hs.busy, rfl, hs.hash, hs.block, ht, ?_, hs.nextVars_eq,
    length_wNext.trans hs.length, fun j hj hle => hs.schedule_next hj hle⟩
  show s.roundCnt + 1 = _
  rw [hs.count, BitVec.ofNat_add]
  rfl

/-- **The last round.** -/
theorem InRound.next_inFinal (hs : s.InRound h message 63) (hi : i.init = false) :
    (s.next i).InFinal h message := by
  have heq : s.roundCnt = 63 := hs.count
  rw [hs.next_eq hi, if_pos heq, if_pos heq]
  exact ⟨rfl, rfl, hs.busy, rfl, hs.hash, hs.nextVars_eq, length_wNext.trans hs.length⟩

/-- **The rounds are added**, and the engine answers. -/
theorem InFinal.next (hs : s.InFinal h message) (hi : i.init = false) :
    (s.next i).Answers (Sha256.consumeChunk h message.reverse) := by
  have ha : s.accepts i = false := by
    rw [accepts, hs.busy, Bool.not_true, Bool.and_false, Bool.false_and]
  have hproc : s.processing s = s := if_neg (by rw [hs.start]; exact Bool.false_ne_true)
  rw [Sha2Engine.next_eq ha hi, hproc, finish, if_pos hs.final, hs.final, hs.hash, hs.vars,
    Sha256.consumeChunk_eq]
  exact ⟨hs.start, rfl, rfl, rfl, rfl, hs.length⟩

/-- After its answer the engine is at rest, whatever it is given. -/
theorem Answers.next (hs : s.Answers h) (hi : i.init = false) : (s.next i).Idle h := by
  have ha : s.accepts i = false := by
    rw [accepts, hs.rsp, Bool.not_true, Bool.and_false]
  rw [next_of_quiet ha hi hs.start hs.final]
  exact ⟨hs.start, hs.final, hs.busy, rfl, hs.hash, hs.length⟩

/-! ## Starting again in the middle of a block -/

/-- **Busy with nothing.** -/
structure Stuck (s : Sha2Engine) : Prop where
  start : s.startProcessing = false
  final : s.finalProcessing = false
  busy : s.isBusy = true

/-- An engine that is stuck stays so, whatever it is given, and does not
answer. -/
theorem Stuck.next (hs : s.Stuck) : (s.next i).Stuck ∧ (s.next i).rspValid = false := by
  have ha : s.accepts i = false := by
    rw [accepts, hs.busy, Bool.not_true, Bool.and_false, Bool.false_and]
  have hload : s.load i = s := if_neg (by rw [ha]; exact Bool.false_ne_true)
  have hproc : ∀ r, s.processing r = r := fun r =>
    if_neg (by rw [hs.start]; exact Bool.false_ne_true)
  have hfin : ∀ r, s.finish r = r := fun r =>
    if_neg (by rw [hs.final]; exact Bool.false_ne_true)
  rw [Sha2Engine.next, hload, hproc, hfin, initProcess]
  split
  · exact ⟨⟨rfl, rfl, hs.busy⟩, hs.final⟩
  · exact ⟨⟨hs.start, hs.final, hs.busy⟩, hs.final⟩

/-- **In a round that is not the last.** -/
structure Rounds (s : Sha2Engine) : Prop where
  start : s.startProcessing = true
  final : s.finalProcessing = false
  busy : s.isBusy = true
  notLast : s.roundCnt ≠ 63

theorem InRound.rounds (hs : s.InRound h message t) (ht : t + 1 < 64) : s.Rounds :=
  ⟨hs.start, hs.final, hs.busy, hs.count_ne ht⟩

/-- **An engine that is told to start again before its last round is stuck.** -/
theorem Rounds.stuck (hs : s.Rounds) (hi : i.init = true) : (s.next i).Stuck := by
  have ha : s.accepts i = false := by
    rw [accepts, hs.busy, Bool.not_true, Bool.and_false, Bool.false_and]
  have hload : s.load i = s := if_neg (by rw [ha]; exact Bool.false_ne_true)
  have hfin : ∀ r, s.finish r = r := fun r =>
    if_neg (by rw [hs.final]; exact Bool.false_ne_true)
  rw [Sha2Engine.next, hload, hfin, processing, if_pos hs.start, initProcess, if_pos hi,
    if_neg hs.notLast, if_neg hs.notLast]
  exact ⟨rfl, rfl, hs.busy⟩

end Sha2Engine

end SpinalCrypto
