import CheriTree.Proteus.Monotonicity

/-!
# Sealed capabilities and what happens to them

A sealed capability should leave an instruction as it came: refused, its tag
gone, unchanged, or unsealed by one of the two instructions that may. Setting
the address has the check; masking permissions, moving the offset, setting
bounds, sealing under an enclave's identity and writing the offset of a
special register have not. `Keeps` names, instruction by instruction, the
operands on which the missing check makes no difference.

Along runs whose steps all keep, a sealed capability is a copy of one that a
sealing instruction gave or that was there at the start. What `CInvoke`
installs is then what was sealed.
-/

namespace Proteus

namespace CapState

variable {w : ℕ}

/-! ## One instruction -/

/-- The write unseals its source, as `CUnseal` and `CInvoke` do; a jump clears
the last bit of the offset. -/
def Unseals (i : CapInstr) (x : CapWrite) : Prop :=
  match i with
  | .cUnseal .. => x.result = x.source.unsealed
  | .cInvoke .. => x.result = x.source.unsealed
      ∨ x.result = { x.source.unsealed with offset := clearLsb x.source.offset }
  | _ => False

/-- **The instruction leaves sealed capabilities alone**: where it is fetched
and does not raise, each write from a tagged, sealed source is untagged, the
source itself, or the source unsealed. -/
def Immutable (s : CapState w) (i : CapInstr) : Prop :=
  s.fetchCheck = none → ∀ ws, s.exec i = .ok ws →
    ∀ x ∈ ws, x.source.tag = true → x.source.isSealed = true →
      x.result.tag = false ∨ x.result = x.source ∨ Unseals i x

/-- The modification gives the capability back. -/
def KeepsModified (c : Capability) (m : Modification) (rhs : Word) : Prop :=
  match m with
  | .andPerm => c.perms.Subset (.assignFromIsaBits rhs)
  | .setOffset => rhs = c.offset
  | .setAddr => True
  | .incOffset => rhs = 0
  | .setBounds => c.InBounds c.address rhs → c.offset = 0 ∧ rhs = c.length
  | .clearTag => True

/-- **The missing check makes no difference.** A tagged, sealed source is
masked with all its permissions, moved to the offset it has, cut to the bounds
it has, sealed with the object type it has; the offset of a tagged, sealed
special register is written with itself. -/
def Keeps (s : CapState w) : CapInstr → Prop
  | .modify op _ cs1 imm rs2Data =>
    (s.regs cs1).tag = true → (s.regs cs1).isSealed = true →
      KeepsModified (s.regs cs1) op.modification (op.rhs imm rs2Data)
  | .eInitCode _ cs1 =>
    (s.regs cs1).tag = true → (s.regs cs1).isSealed = true →
      s.store.initEntry.1.valid = true → s.store.initEntry.1.identSeal = (s.regs cs1).otype
  | .eInitData _ cs1 cs2 unique digest =>
    (s.regs cs2).tag = true → (s.regs cs2).isSealed = true →
      (s.regs cs1).tag = true → (s.regs cs1).isSealed = true → unique = true →
      (s.store.getUnfinishedEntry (s.regs cs1).otype).valid = true →
      (s.store.finishEntry (s.regs cs1).otype digest).1.valid = true →
      (s.store.getUnfinishedEntry (s.regs cs1).otype).identSeal = (s.regs cs2).otype
  | .csr op useImm id rs1 rs1Data =>
    (s.scrs id.scr).tag = true → (s.scrs id.scr).isSealed = true →
      ∀ value, csrValue op useImm rs1 rs1Data (s.scrs id.scr).offset = some value →
        value = (s.scrs id.scr).offset
  | _ => True

/-- A modification of a tagged, sealed capability loses the tag or gives the
capability back exactly when `KeepsModified` says so. -/
theorem keepsModified_iff {c : Capability} {m : Modification} {rhs : Word}
    (ht : c.tag = true) (hs : c.isSealed = true) :
    (∀ cd, m.apply c rhs = .ok cd → cd.tag = false ∨ cd = c) ↔ KeepsModified c m rhs := by
  cases m with
  | andPerm =>
    simp only [Modification.apply, ht, KeepsModified, Bool.not_true, Bool.false_eq_true,
      if_false, Except.ok.injEq, forall_eq', ← Permissions.assignFromIsaBits_and_eq_iff]
    simp [Capability.ext_iff, ht]
  | setOffset =>
    simp only [Modification.apply, KeepsModified, Except.ok.injEq, forall_eq']
    simp [Capability.ext_iff, ht]
  | setAddr => simp [Modification.apply, KeepsModified, ht, hs]
  | incOffset =>
    simp only [Modification.apply, KeepsModified, Except.ok.injEq, forall_eq']
    simp [Capability.ext_iff, ht]
  | setBounds =>
    constructor
    · intro h hin
      obtain h | h := h _ (setBounds_of_inBounds ht hin)
      · exact absurd (ht.symm.trans h) (by simp)
      · rw [Capability.ext_iff] at h
        exact ⟨h.2.2.2.1.symm, h.2.2.1⟩
    · intro h cd hcd
      obtain ⟨-, hin, rfl⟩ := setBounds_ok hcd
      obtain ⟨hoff, hlen⟩ := h hin
      right
      simp [Capability.ext_iff, Capability.address, hoff, hlen]
  | clearTag => simp [Modification.apply, KeepsModified]

theorem checkJumpTarget_of_sealed {c : Capability} (ht : c.tag = true)
    (hs : c.isSealed = true) (address : Word) : checkJumpTarget c address ≠ none := by
  simp [checkJumpTarget, ht, hs]

theorem fetchCheck_of_sealed {s : CapState w} (ht : s.pcc.tag = true)
    (hs : s.pcc.isSealed = true) : s.fetchCheck ≠ none := by
  exact checkJumpTarget_of_sealed ht hs _

theorem jumpToCap_sealed {c target : Capability} {capIdx : CapIdx} (ht : c.tag = true)
    (hs : c.isSealed = true) : jumpToCap c capIdx ≠ .ok target := by
  intro h
  unfold jumpToCap at h
  split at h
  · cases h
  · split at h
    · cases h
    · rename_i hnone
      exact checkJumpTarget_of_sealed ht hs _ hnone

/-- Every write of `CSpecialRW` is a copy of what a place holds. -/
theorem cSpecialRW_copies {s : CapState w} {cd cs1 scrId : RegId} {ir : Word}
    {ws : List CapWrite} (h : s.cSpecialRW cd cs1 scrId ir = .ok ws) {x : CapWrite}
    (hx : x ∈ ws) : x.result = x.source ∧ ∃ d, x.source = s.read d := by
  simp only [cSpecialRW] at h
  split at h
  · obtain rfl := Except.ok.inj h
    split at hx
    · exact absurd hx List.not_mem_nil
    · obtain rfl := List.mem_singleton.1 hx
      exact ⟨rfl, .pcc, rfl⟩
  · split at h
    · cases h
    · rename_i r _
      obtain ⟨-, h⟩ := ite_error_eq_ok.1 h
      obtain rfl := Except.ok.inj h
      obtain hx | hx := List.mem_append.1 hx
      · split at hx
        · exact absurd hx List.not_mem_nil
        · obtain rfl := List.mem_singleton.1 hx
          exact ⟨rfl, .scr r, rfl⟩
      · split at hx
        · exact absurd hx List.not_mem_nil
        · obtain rfl := List.mem_singleton.1 hx
          exact ⟨rfl, .reg cs1, rfl⟩

theorem exec_branch_ok {s : CapState w} {target : Word} {ws : List CapWrite}
    (h : s.exec (.branch target) = .ok ws) :
    ws = [⟨.pcc, s.pcc, { s.pcc with offset := target }⟩] := by
  simp only [exec] at h
  split at h
  · cases h
  · split at h
    · cases h
    · exact (Except.ok.inj h).symm

theorem immutable_modify_iff {s : CapState w} {op : ModifyOp} {cd cs1 : RegId}
    {imm : BitVec 12} {rs2Data : Word} :
    s.Immutable (.modify op cd cs1 imm rs2Data)
      ↔ (s.fetchCheck = none → s.Keeps (.modify op cd cs1 imm rs2Data)) := by
  constructor
  · intro h hf ht hs
    rw [← keepsModified_iff ht hs]
    intro c hc
    obtain h | h | h := h hf _ (exec_modify_of_ok hc) _ (List.mem_singleton_self _) ht hs
    · exact Or.inl h
    · exact Or.inr h
    · exact h.elim
  · intro h hf ws hws x hx ht hs
    obtain ⟨c, hc, rfl⟩ := exec_modify_ok hws
    obtain rfl := List.mem_singleton.1 hx
    exact ((keepsModified_iff ht hs).2 (h hf ht hs) c hc).imp id Or.inl

/-- A capability that is sealed is given back by sealing it exactly when the
object type is its own. -/
theorem sealWith_eq_iff {c : Capability} {o : ObjectType} : c.sealWith o = c ↔ o = c.otype := by
  simp [Capability.sealWith, Capability.ext_iff]

theorem immutable_eInitCode_iff {s : CapState w} {cd cs1 : RegId} :
    s.Immutable (.eInitCode cd cs1)
      ↔ (s.fetchCheck = none → s.Keeps (.eInitCode cd cs1)) := by
  have hexec : s.exec (.eInitCode cd cs1)
      = .ok [⟨.reg cd, s.regs cs1, (s.eInitCode (s.regs cs1)).1⟩] := rfl
  simp only [Immutable, hexec, Except.ok.injEq, forall_eq', List.mem_singleton, forall_eq,
    Keeps, eInitCode, Unseals, or_false]
  refine imp_congr_right fun _ => imp_congr_right fun ht => imp_congr_right fun _ => ?_
  by_cases hv : s.store.initEntry.1.valid = true
  · simp [hv, ht, sealWith_eq_iff]
  · simp [hv, Capability.null]

theorem immutable_eInitData_iff {s : CapState w} {cd cs1 cs2 : RegId} {unique : Bool}
    {digest : Digest} :
    s.Immutable (.eInitData cd cs1 cs2 unique digest)
      ↔ (s.fetchCheck = none → s.Keeps (.eInitData cd cs1 cs2 unique digest)) := by
  have hexec : s.exec (.eInitData cd cs1 cs2 unique digest) = .ok [⟨.reg cd, s.regs cs2,
      (s.eInitData (s.regs cs1) (s.regs cs2) unique digest).1⟩] := rfl
  simp only [Immutable, hexec, Except.ok.injEq, forall_eq', List.mem_singleton, forall_eq,
    Keeps, eInitData, Unseals, or_false]
  refine imp_congr_right fun _ => imp_congr_right fun ht => imp_congr_right fun _ => ?_
  by_cases h1 : (s.regs cs1).tag = true
  · by_cases h2 : (s.regs cs1).isSealed = true
    · by_cases h3 : (s.store.getUnfinishedEntry (s.regs cs1).otype).valid = true
      · by_cases h4 : unique = true
        · by_cases h5 : (s.store.finishEntry (s.regs cs1).otype digest).1.valid = true
          · simp [h1, h2, h3, h4, h5, ht, sealWith_eq_iff]
          · simp [h1, h2, h3, h4, h5, Capability.null]
        · simp [h1, h2, h3, h4, Capability.null]
      · simp [h1, h2, h3, Capability.null]
    · simp [h2, Capability.null]
  · simp [h1, Capability.null]

theorem immutable_csr_iff {s : CapState w} {op : CsrOp} {useImm : Bool} {id : OffsetCsr}
    {rs1 : RegId} {rs1Data : Word} :
    s.Immutable (.csr op useImm id rs1 rs1Data)
      ↔ (s.fetchCheck = none → s.Keeps (.csr op useImm id rs1 rs1Data)) := by
  simp only [Immutable, exec, Keeps]
  cases hv : csrValue op useImm rs1 rs1Data (s.scrs id.scr).offset with
  | none => simp
  | some value =>
    simp only [Except.ok.injEq, forall_eq', List.mem_singleton, forall_eq, Unseals, or_false,
      Option.some.injEq]
    refine imp_congr_right fun _ => imp_congr_right fun ht => imp_congr_right fun _ => ?_
    simp [Capability.ext_iff, ht]

/-- The instructions that check, and those that copy, leave sealed
capabilities alone on every operand. -/
theorem immutable_of_checked {s : CapState w} {i : CapInstr}
    (hi : match i with
      | .modify .. | .eInitCode .. | .eInitData .. | .csr .. => False
      | _ => True) : s.Immutable i := by
  intro hf ws hws x hx ht hs
  cases i with
  | cMove cd cs1 =>
    obtain rfl := Except.ok.inj hws
    obtain rfl := List.mem_singleton.1 hx
    exact Or.inr (Or.inl rfl)
  | cSeal cd cs1 cs2 =>
    obtain ⟨c, hc, rfl⟩ := exec_cSeal_ok hws
    obtain rfl := List.mem_singleton.1 hx
    exact absurd hs (by simp [(cSeal_ok hc).2.1])
  | cUnseal cd cs1 cs2 =>
    obtain ⟨c, hc, rfl⟩ := exec_cUnseal_ok hws
    obtain rfl := List.mem_singleton.1 hx
    exact Or.inr (Or.inr (cUnseal_ok hc).2.2)
  | cInvoke cs1 cs2 =>
    obtain ⟨⟨pcc, cd⟩, hc, hws⟩ := bind_eq_ok.1 hws
    obtain rfl := Except.ok.inj hws
    obtain ⟨-, -, -, -, hpcc, hcd⟩ := cInvoke_ok hc
    simp only [List.mem_cons, List.not_mem_nil, or_false] at hx
    obtain rfl | rfl := hx
    · exact Or.inr (Or.inr (Or.inr hpcc))
    · exact Or.inr (Or.inr (Or.inl hcd))
  | cjalr cd cs1 =>
    obtain ⟨pcc, hc, hws⟩ := bind_eq_ok.1 hws
    obtain rfl := Except.ok.inj hws
    simp only [List.mem_cons, List.not_mem_nil, or_false] at hx
    obtain rfl | rfl := hx
    · exact absurd hc (jumpToCap_sealed ht hs)
    · exact absurd hf (fetchCheck_of_sealed ht hs)
  | cSpecialRW cd cs1 scrId ir =>
    exact Or.inr (Or.inl (cSpecialRW_copies hws hx).1)
  | mret =>
    obtain rfl := Except.ok.inj hws
    obtain rfl := List.mem_singleton.1 hx
    exact Or.inr (Or.inl rfl)
  | branch target =>
    obtain rfl := exec_branch_ok hws
    obtain rfl := List.mem_singleton.1 hx
    exact absurd hf (fetchCheck_of_sealed ht hs)
  | plain =>
    obtain rfl := Except.ok.inj hws
    exact absurd hx List.not_mem_nil
  | modify => exact hi.elim
  | eInitCode => exact hi.elim
  | eInitData => exact hi.elim
  | csr => exact hi.elim

/-- **An instruction leaves sealed capabilities alone exactly when it is not
fetched, or the missing check makes no difference.** -/
theorem immutable_iff (s : CapState w) (i : CapInstr) :
    s.Immutable i ↔ (s.fetchCheck = none → s.Keeps i) := by
  cases i with
  | modify => exact immutable_modify_iff
  | eInitCode => exact immutable_eInitCode_iff
  | eInitData => exact immutable_eInitData_iff
  | csr => exact immutable_csr_iff
  | _ => exact iff_of_true (immutable_of_checked trivial) fun _ => trivial

/-! ## Runs -/

/-- A trap taken through a sealed MTCC changes nothing but copies it: its
offset is a multiple of four. -/
def TrapKeeps (s : CapState w) (i : CapInstr) : Prop :=
  s.Traps i → (s.scrs .mtcc).tag = true → (s.scrs .mtcc).isSealed = true →
    (s.scrs .mtcc).offset &&& ~~~3 = (s.scrs .mtcc).offset

/-- A tagged, sealed capability somewhere in the state. -/
def HoldsSealed (s : CapState w) (c : Capability) : Prop :=
  c.tag = true ∧ c.isSealed = true ∧ ∃ d, s.read d = c

/-- A tagged, sealed result of an instruction that seals nothing has a tagged,
sealed source, which some place holds. -/
theorem source_of_sealed_result {s : CapState w} {i : CapInstr} (hi : i.sealing = false)
    {ws : List CapWrite} (h : s.exec i = .ok ws) {x : CapWrite} (hx : x ∈ ws)
    (ht : x.result.tag = true) (hs : x.result.isSealed = true) :
    s.HoldsSealed x.source := by
  cases i with
  | modify op cd cs1 imm rs2Data =>
    obtain ⟨c, hc, rfl⟩ := exec_modify_ok h
    obtain rfl := List.mem_singleton.1 hx
    obtain ⟨hotype, htag⟩ := Modification.otype_of_ok hc
    exact ⟨htag ht, by rwa [Capability.isSealed, ← hotype], .reg cs1, rfl⟩
  | cMove cd cs1 =>
    obtain rfl := Except.ok.inj h
    obtain rfl := List.mem_singleton.1 hx
    exact ⟨ht, hs, .reg cs1, rfl⟩
  | cUnseal cd cs1 cs2 =>
    obtain ⟨c, hc, rfl⟩ := exec_cUnseal_ok h
    obtain rfl := List.mem_singleton.1 hx
    obtain ⟨-, -, rfl⟩ := cUnseal_ok hc
    exact absurd hs (by simp)
  | cInvoke cs1 cs2 =>
    obtain ⟨⟨pcc, cd⟩, hc, h⟩ := bind_eq_ok.1 h
    obtain rfl := Except.ok.inj h
    obtain ⟨-, -, -, -, rfl, rfl⟩ := cInvoke_ok hc
    simp only [List.mem_cons, List.not_mem_nil, or_false] at hx
    obtain rfl | rfl := hx
    · exact absurd hs (by simp [Capability.isSealed, Capability.unsealed,
        Capability.isSealed_otype_unsealed])
    · exact absurd hs (by simp)
  | cjalr cd cs1 =>
    obtain ⟨pcc, hc, h⟩ := bind_eq_ok.1 h
    obtain rfl := Except.ok.inj h
    obtain rfl := jumpToCap_ok hc
    simp only [List.mem_cons, List.not_mem_nil, or_false] at hx
    obtain rfl | rfl := hx
    · exact ⟨ht, hs, .reg cs1, rfl⟩
    · exact ⟨ht, hs, .pcc, rfl⟩
  | cSpecialRW cd cs1 scrId ir =>
    obtain ⟨hcopy, d, hd⟩ := cSpecialRW_copies h hx
    rw [hcopy] at ht hs
    exact ⟨ht, hs, d, hd.symm⟩
  | csr op useImm id rs1 rs1Data =>
    simp only [exec] at h
    split at h
    · obtain rfl := Except.ok.inj h
      obtain rfl := List.mem_singleton.1 hx
      exact ⟨ht, hs, .scr id.scr, rfl⟩
    · obtain rfl := Except.ok.inj h
      exact absurd hx List.not_mem_nil
  | mret =>
    obtain rfl := Except.ok.inj h
    obtain rfl := List.mem_singleton.1 hx
    exact ⟨ht, hs, .scr .mepcc, rfl⟩
  | branch target =>
    obtain rfl := exec_branch_ok h
    obtain rfl := List.mem_singleton.1 hx
    exact ⟨ht, hs, .pcc, rfl⟩
  | plain =>
    obtain rfl := Except.ok.inj h
    exact absurd hx List.not_mem_nil
  | cSeal => exact absurd hi (by simp [CapInstr.sealing])
  | eInitCode => exact absurd hi (by simp [CapInstr.sealing])
  | eInitData => exact absurd hi (by simp [CapInstr.sealing])

/-- What `CUnseal` and `CInvoke` unseal is not sealed. -/
theorem Unseals.not_sealed {i : CapInstr} {x : CapWrite} (h : Unseals i x) :
    x.result.isSealed = false := by
  cases i with
  | cUnseal => rw [h]; exact Capability.isSealed_unsealed _
  | cInvoke =>
    obtain h | h := h
    · rw [h]; exact Capability.isSealed_unsealed _
    · rw [h]; exact Capability.isSealed_otype_unsealed
  | _ => exact h.elim

theorem mem_trapWrites_csr {s : CapState w} {op : CsrOp} {useImm : Bool} {id : OffsetCsr}
    {rs1 : RegId} {rs1Data : Word} {x : CapWrite}
    (hx : x ∈ s.earlyWrites (.csr op useImm id rs1 rs1Data)
      ++ s.lateWrites (.csr op useImm id rs1 rs1Data)) :
    ∃ value, csrValue op useImm rs1 rs1Data (s.scrs id.scr).offset = some value
      ∧ x = ⟨.scr id.scr, s.scrs id.scr, { s.scrs id.scr with offset := value }⟩ := by
  rw [show s.lateWrites (.csr op useImm id rs1 rs1Data) = [] from rfl, List.append_nil,
    earlyWrites] at hx
  split at hx
  · rename_i value hv
    exact ⟨value, hv, List.mem_singleton.1 hx⟩
  · exact absurd hx List.not_mem_nil

theorem mem_trapWrites_cSpecialRW {s : CapState w} {cd cs1 scrId : RegId} {ir : Word}
    {x : CapWrite}
    (hx : x ∈ s.earlyWrites (.cSpecialRW cd cs1 scrId ir)
      ++ s.lateWrites (.cSpecialRW cd cs1 scrId ir)) :
    ∃ ws, s.cSpecialRW cd cs1 scrId ir = .ok ws ∧ x ∈ ws := by
  rw [show s.earlyWrites (.cSpecialRW cd cs1 scrId ir) = [] from rfl, List.nil_append,
    lateWrites, show s.returnWrites (.cSpecialRW cd cs1 scrId ir) = [] from rfl,
    List.append_nil, specialWrites] at hx
  split at hx
  · rename_i ws hws
    exact ⟨ws, hws, List.mem_of_mem_filter hx⟩
  · exact absurd hx List.not_mem_nil

/-- A trapped instruction that keeps writes copies: the offset of a sealed
special register with itself, a register into a special one, MEPCC into the
program counter. -/
theorem source_of_trapWrites {s : CapState w} {i : CapInstr} (hk : s.Keeps i) {x : CapWrite}
    (hx : x ∈ s.earlyWrites i ++ s.lateWrites i) (ht : x.result.tag = true)
    (hs : x.result.isSealed = true) : s.HoldsSealed x.result := by
  cases i with
  | csr op useImm id rs1 rs1Data =>
    obtain ⟨value, hv, rfl⟩ := mem_trapWrites_csr hx
    have hvalue := hk ht hs value hv
    exact ⟨ht, hs, .scr id.scr, by rw [hvalue]; rfl⟩
  | cSpecialRW cd cs1 scrId ir =>
    obtain ⟨ws, hws, hx⟩ := mem_trapWrites_cSpecialRW hx
    obtain ⟨hcopy, d, hd⟩ := cSpecialRW_copies hws hx
    exact ⟨ht, hs, d, (hcopy.trans hd).symm⟩
  | mret =>
    obtain rfl := List.mem_singleton.1 hx
    exact ⟨ht, hs, .scr .mepcc, rfl⟩
  | _ => exact absurd hx List.not_mem_nil

/-- **One step.** A sealed capability of the next state is a copy of one that
was there, or one the instruction sealed. -/
theorem holdsSealed_step {s : CapState w} {i : CapInstr} (hk : s.Keeps i)
    (htrap : s.TrapKeeps i) {c : Capability} (h : (s.step i).HoldsSealed c) :
    s.HoldsSealed c ∨ c ∈ s.sealings i := by
  obtain ⟨ht, hs, d, rfl⟩ := h
  obtain heq | ⟨ws, hf, hws, x, hx, -, heq⟩ | ⟨-, hf, heq⟩ | ⟨-, -, heq⟩ | ⟨htr, -, heq⟩
    | ⟨x, hx, -, -, heq⟩ := s.read_step i d
  · exact Or.inl ⟨ht, hs, d, heq.symm⟩
  · rw [heq] at ht hs ⊢
    by_cases hi : i.sealing = true
    · right
      rw [sealings, if_pos hi, hf, hws]
      exact List.mem_map_of_mem hx
    · left
      have hsrc := source_of_sealed_result (by simpa using hi) hws hx ht hs
      obtain h | h | h := (s.immutable_iff i).2 (fun _ => hk) hf ws hws x hx hsrc.1 hsrc.2.1
      · exact absurd (ht.symm.trans h) (by simp)
      · rwa [h]
      · exact absurd (hs.symm.trans h.not_sealed) (by simp)
  · rw [heq] at ht hs
    exact absurd hf (fetchCheck_of_sealed ht hs)
  · exact Or.inl ⟨ht, hs, .pcc, heq.symm⟩
  · rw [heq] at ht hs ⊢
    have heq' : s.trapTarget = s.scrs .mtcc := by
      rw [trapTarget, htrap htr ht hs]
    rw [heq'] at ht hs ⊢
    exact Or.inl ⟨ht, hs, .scr .mtcc, rfl⟩
  · rw [heq] at ht hs ⊢
    exact Or.inl (source_of_trapWrites hk hx ht hs)

/-- **Runs.** A sealed capability of a state reached is a copy of one of the
start, or one that an instruction of the run sealed. -/
theorem holdsSealed_run {s : CapState w} {is : List CapInstr}
    (h : (capMachine w).Along (fun s i => s.Keeps i ∧ s.TrapKeeps i) s is)
    {c : Capability} (hc : ((capMachine w).run s is).HoldsSealed c) :
    s.HoldsSealed c ∨ c ∈ ((capMachine w).observe s is).flatten := by
  induction is generalizing s with
  | nil => exact Or.inl hc
  | cons i is ih =>
    rw [SyncMachine.observe_cons, List.flatten_cons, List.mem_append]
    obtain hc | hc := ih h.2 hc
    · exact (holdsSealed_step h.1.1 h.1.2 hc).imp id Or.inl
    · exact Or.inr (Or.inr hc)

theorem step_cInvoke_pcc {s : CapState w} {cs1 cs2 : RegId}
    (h : ¬ s.Traps (.cInvoke cs1 cs2)) :
    s.HoldsSealed (s.regs cs1) ∧ (s.step (.cInvoke cs1 cs2)).pcc
      = { (s.regs cs1).unsealed with offset := clearLsb (s.regs cs1).offset } := by
  simp only [Traps, not_or, not_not, not_exists] at h
  obtain ⟨hf, he⟩ := h
  cases hws : s.exec (.cInvoke cs1 cs2) with
  | error cause => exact absurd hws (he cause)
  | ok ws =>
    obtain ⟨⟨pcc, cd⟩, hc, hws'⟩ := bind_eq_ok.1 hws
    obtain rfl := Except.ok.inj hws'
    obtain ⟨ht, -, hs, -, rfl, rfl⟩ := cInvoke_ok hc
    refine ⟨⟨ht, hs, .reg cs1, rfl⟩, ?_⟩
    simp only [step, hf, hws]
    rfl

/-- **An instruction leaves sealed capabilities alone exactly when the missing
check makes no difference to it; and along every run of such instructions,
the program counter capability a `CInvoke` installs has the base, the length,
the permissions and the offset (last bit cleared) of a capability of its
object type as it was sealed, by an instruction of the run or before it.** -/
theorem cInvoke_installs_what_was_sealed :
    (∀ (s : CapState w) (i : CapInstr),
      s.Immutable i ↔ (s.fetchCheck = none → s.Keeps i))
    ∧ ∀ (s : CapState w) (pre post : List CapInstr) (cs1 cs2 : RegId),
      (capMachine w).Along (fun s i => s.Keeps i ∧ s.TrapKeeps i) s
        (pre ++ .cInvoke cs1 cs2 :: post) →
      ¬ ((capMachine w).run s pre).Traps (.cInvoke cs1 cs2) →
      ∃ o, (s.HoldsSealed o ∨ o ∈ ((capMachine w).observe s pre).flatten)
        ∧ o.otype = (((capMachine w).run s pre).regs cs1).otype
        ∧ let pcc := ((capMachine w).run s (pre ++ [.cInvoke cs1 cs2])).pcc
          pcc.base = o.base ∧ pcc.length = o.length ∧ pcc.perms = o.perms
            ∧ pcc.offset = clearLsb o.offset := by
  refine ⟨immutable_iff, fun s pre post cs1 cs2 halong hne => ?_⟩
  obtain ⟨hheld, hpcc⟩ := step_cInvoke_pcc hne
  have hpre := ((capMachine w).along_append.1 halong).1
  refine ⟨_, holdsSealed_run hpre hheld, rfl, ?_⟩
  rw [SyncMachine.run_append, SyncMachine.run_cons, SyncMachine.run_nil, capMachine_next, hpcc]
  exact ⟨rfl, rfl, rfl, rfl⟩

/-- Code and data, a capability to seal them with, and the two sealed and
invoked: the program counter starts where the code capability pointed. -/
theorem cSeal_cInvoke_installs :
    let code : Capability := { Capability.root with
      base := 0x80000000, length := 0x1000, offset := 0x20 }
    let data : Capability := { Capability.root with
      base := 0x80001000, length := 0x1000
      perms := { Permissions.allowAll with execute := false } }
    let key : Capability := { Capability.root with offset := 4 }
    let s : CapState 8 := ⟨fun r => if r = 1 then code else if r = 2 then data else
      if r = 5 then key else .null, fun _ => .null, .root, .reset 256 32⟩
    let pre : List CapInstr := [.cSeal 3 1 5, .cSeal 4 2 5]
    ((capMachine 8).run s (pre ++ [.cInvoke 3 4])).pcc.address = 0x80000020
      ∧ ∃ o, (s.HoldsSealed o ∨ o ∈ ((capMachine 8).observe s pre).flatten)
        ∧ o.otype = (((capMachine 8).run s pre).regs 3).otype
        ∧ let pcc := ((capMachine 8).run s (pre ++ [.cInvoke 3 4])).pcc
          pcc.base = o.base ∧ pcc.length = o.length ∧ pcc.perms = o.perms
            ∧ pcc.offset = clearLsb o.offset := by
  intro code data key s pre
  refine ⟨by decide, cInvoke_installs_what_was_sealed.2 s pre [] 3 4 ?_ (by decide)⟩
  exact ⟨⟨trivial, fun h => absurd h (by decide)⟩, ⟨trivial, fun h => absurd h (by decide)⟩,
    ⟨trivial, fun h => absurd h (by decide)⟩, trivial⟩

/-- A caller moves the offset of a sealed code capability and invokes it: the
program counter starts eight bytes past the only entry point ever sealed. -/
theorem cIncOffsetImm_moves_entry_point :
    let code : Capability := { Capability.root with
      base := 0x80000000, length := 0x1000, otype := 4 }
    let data : Capability := { code with perms :=
      { Permissions.allowAll with execute := false } }
    let s : CapState 8 := ⟨fun r => if r = 1 then code else if r = 2 then data else .null,
      fun _ => .null, .root, .reset 256 32⟩
    let move : CapInstr := .modify .CIncOffsetImm 1 1 8 0
    ¬ s.Immutable move
      ∧ ¬ (s.step move).Traps (.cInvoke 1 2)
      ∧ ∀ o, (s.HoldsSealed o ∨ o ∈ ((capMachine 8).observe s [move]).flatten) →
        ((capMachine 8).run s [move, .cInvoke 1 2]).pcc.offset ≠ clearLsb o.offset := by
  intro code data s move
  refine ⟨?_, by decide, ?_⟩
  · rw [immutable_iff]
    intro h
    have hrhs : ModifyOp.CIncOffsetImm.rhs 8 0 = 0 := h (by decide) (by decide) (by decide)
    exact absurd hrhs (by decide)
  · have hpcc : ((capMachine 8).run s [move, .cInvoke 1 2]).pcc.offset = 8 := by decide
    rw [hpcc]
    rintro o (⟨ht, hs, d, rfl⟩ | ho)
    · cases d with
      | reg r =>
        by_cases h1 : r = 1
        · subst h1
          decide
        · by_cases h2 : r = 2
          · subst h2
            decide
          · have hnull : s.read (.reg r) = .null := (if_neg h1).trans (if_neg h2)
            rw [hnull] at ht
            exact absurd ht (by decide)
      | scr r => exact absurd ht (by simp [s, Capability.null])
      | pcc => exact absurd hs (by decide)
    · exact absurd ho (by simp [move, sealings, CapInstr.sealing])

end CapState

end Proteus
