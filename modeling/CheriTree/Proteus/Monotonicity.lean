import CheriTree.Proteus.CapMachine

/-!
# Monotonicity of capability derivation

No instruction that derives a capability should give out a right its source
does not have. Eleven of the twelve deriving instructions have the property on
every operand; setting bounds has it on every operand whose new top does not
wrap past `2^32` below the top of the source. The defect is one comparison, of
`newTop` and `top` as words, and the condition names exactly the operands on
which that comparison and the one over the integers part.

Runs follow from steps: a register holds what it held or what one instruction
derived, and being within the rights of a capability is transitive.
-/

namespace Proteus

/-- The instructions that derive a capability from a register: the `CMODIFY`
group, `CMove`, `CSeal` and `CUnseal`. -/
def CapInstr.derives : CapInstr → Bool
  | .modify .. => true
  | .cMove .. => true
  | .cSeal .. => true
  | .cUnseal .. => true
  | _ => false

namespace CapState

variable {w : ℕ}

/-- **The instruction is monotone in this state**: whatever tagged capability
it writes is within the rights of the one it comes from. -/
def Monotone (s : CapState w) (i : CapInstr) : Prop :=
  ∀ ws, s.exec i = .ok ws → ∀ x ∈ ws, x.result.tag = true → x.result.WithinRights x.source

/-- **The instruction sets bounds whose top wraps**: the new top passes `2^32`
while the top of the source does not, and what is left of it is small enough
to pass for a top inside the source. -/
def BoundsWrap (s : CapState w) : CapInstr → Prop
  | .modify op _ cs1 imm rs2Data =>
    op.modification = .setBounds ∧ (s.regs cs1).tag = true
      ∧ (s.regs cs1).EndWraps (s.regs cs1).address (op.rhs imm rs2Data)
  | _ => False

theorem exec_modify_ok {s : CapState w} {op : ModifyOp} {cd cs1 : RegId}
    {imm : BitVec 12} {rs2Data : Word} {ws : List CapWrite}
    (h : s.exec (.modify op cd cs1 imm rs2Data) = .ok ws) :
    ∃ c, op.modification.apply (s.regs cs1) (op.rhs imm rs2Data) = .ok c
      ∧ ws = [⟨.reg cd, s.regs cs1, c⟩] := by
  simp only [exec] at h
  split at h
  · rename_i c hc
    exact ⟨c, hc, (Except.ok.inj h).symm⟩
  · cases h

theorem exec_modify_of_ok {s : CapState w} {op : ModifyOp} {cd cs1 : RegId}
    {imm : BitVec 12} {rs2Data : Word} {c : Capability}
    (h : op.modification.apply (s.regs cs1) (op.rhs imm rs2Data) = .ok c) :
    s.exec (.modify op cd cs1 imm rs2Data) = .ok [⟨.reg cd, s.regs cs1, c⟩] := by
  simp only [exec, h]

theorem exec_cSeal_ok {s : CapState w} {cd cs1 cs2 : RegId} {ws : List CapWrite}
    (h : s.exec (.cSeal cd cs1 cs2) = .ok ws) :
    ∃ c, Proteus.cSeal (s.regs cs1) (s.regs cs2) cs1 cs2 = .ok c
      ∧ ws = [⟨.reg cd, s.regs cs1, c⟩] := by
  obtain ⟨c, hc, h⟩ := bind_eq_ok.1 h
  exact ⟨c, hc, (Except.ok.inj h).symm⟩

theorem exec_cUnseal_ok {s : CapState w} {cd cs1 cs2 : RegId} {ws : List CapWrite}
    (h : s.exec (.cUnseal cd cs1 cs2) = .ok ws) :
    ∃ c, Proteus.cUnseal (s.regs cs1) (s.regs cs2) cs1 cs2 = .ok c
      ∧ ws = [⟨.reg cd, s.regs cs1, c⟩] := by
  obtain ⟨c, hc, h⟩ := bind_eq_ok.1 h
  exact ⟨c, hc, (Except.ok.inj h).symm⟩

/-! ## One instruction -/

/-- A modification whose top does not wrap stays within its source. -/
theorem monotone_modify {s : CapState w} {op : ModifyOp} {cd cs1 : RegId}
    {imm : BitVec 12} {rs2Data : Word}
    (h : ¬ s.BoundsWrap (.modify op cd cs1 imm rs2Data)) :
    s.Monotone (.modify op cd cs1 imm rs2Data) := by
  intro ws hws x hx ht
  obtain ⟨c, hc, rfl⟩ := exec_modify_ok hws
  obtain rfl := List.mem_singleton.1 hx
  by_cases hm : op.modification = .setBounds
  · rw [hm] at hc
    rw [show CapWrite.result _ = c from rfl, setBounds_withinRights_iff hc]
    intro hwrap
    exact h ⟨hm, (setBounds_ok hc).1, hwrap⟩
  · exact Modification.withinRights_of_ne_setBounds hm hc ht

/-- A top that wraps passes the check, and the new bounds leave the source. -/
theorem not_monotone_of_boundsWrap {s : CapState w} {i : CapInstr}
    (h : s.BoundsWrap i) : ¬ s.Monotone i := by
  cases i with
  | modify op cd cs1 imm rs2Data =>
    obtain ⟨hm, htag, hwrap⟩ := h
    have hc := setBounds_of_inBounds htag hwrap.inBounds
    rw [← hm] at hc
    intro hmono
    refine (setBounds_withinRights_iff (hm ▸ hc)).1 ?_ hwrap
    exact hmono _ (exec_modify_of_ok hc) _ (List.mem_singleton_self _) htag
  | _ => exact h.elim

theorem monotone_of_not_boundsWrap {s : CapState w} {i : CapInstr}
    (hi : i.derives = true) (h : ¬ s.BoundsWrap i) : s.Monotone i := by
  cases i with
  | modify op cd cs1 imm rs2Data => exact monotone_modify h
  | cMove cd cs1 =>
    intro ws hws x hx ht
    obtain rfl := Except.ok.inj hws
    obtain rfl := List.mem_singleton.1 hx
    exact .refl ht
  | cSeal cd cs1 cs2 =>
    intro ws hws x hx ht
    obtain ⟨c, hc, rfl⟩ := exec_cSeal_ok hws
    obtain rfl := List.mem_singleton.1 hx
    obtain ⟨htag, -, -, rfl⟩ := cSeal_ok hc
    exact .congr (.refl htag) rfl rfl
  | cUnseal cd cs1 cs2 =>
    intro ws hws x hx ht
    obtain ⟨c, hc, rfl⟩ := exec_cUnseal_ok hws
    obtain rfl := List.mem_singleton.1 hx
    obtain ⟨htag, -, rfl⟩ := cUnseal_ok hc
    exact .congr (.refl htag) rfl rfl
  | _ => exact absurd hi (by simp [CapInstr.derives])

/-- The source of what a deriving instruction writes is a register. -/
theorem source_of_derives {s : CapState w} {i : CapInstr} (hi : i.derives = true)
    {ws : List CapWrite} (h : s.exec i = .ok ws) {x : CapWrite} (hx : x ∈ ws) :
    ∃ r, x.source = s.regs r := by
  cases i with
  | modify op cd cs1 imm rs2Data =>
    obtain ⟨c, -, rfl⟩ := exec_modify_ok h
    exact ⟨cs1, by rw [List.mem_singleton.1 hx]⟩
  | cMove cd cs1 =>
    obtain rfl := Except.ok.inj h
    exact ⟨cs1, by rw [List.mem_singleton.1 hx]⟩
  | cSeal cd cs1 cs2 =>
    obtain ⟨c, -, rfl⟩ := exec_cSeal_ok h
    exact ⟨cs1, by rw [List.mem_singleton.1 hx]⟩
  | cUnseal cd cs1 cs2 =>
    obtain ⟨c, -, rfl⟩ := exec_cUnseal_ok h
    exact ⟨cs1, by rw [List.mem_singleton.1 hx]⟩
  | _ => exact absurd hi (by simp [CapInstr.derives])

/-- A trapped deriving instruction writes no special register. -/
theorem trapWrites_of_derives {s : CapState w} {i : CapInstr} (hi : i.derives = true) :
    s.earlyWrites i ++ s.lateWrites i = [] := by
  cases i with
  | modify => rfl
  | cMove => rfl
  | cSeal => rfl
  | cUnseal => rfl
  | _ => exact absurd hi (by simp [CapInstr.derives])

/-! ## Runs -/

/-- Every tagged register of `s` is within the rights of a tagged one of
`s₀`. -/
def RegsWithin (s₀ s : CapState w) : Prop :=
  ∀ r, (s.regs r).tag = true → ∃ r₀, (s.regs r).WithinRights (s₀.regs r₀)

theorem RegsWithin.step {s₀ s : CapState w} (h : s₀.RegsWithin s) {i : CapInstr}
    (hi : i.derives = true) (hw : ¬ s.BoundsWrap i) : s₀.RegsWithin (s.step i) := by
  intro r ht
  have hread := s.read_step i (.reg r)
  simp only [read_reg, reduceCtorEq, false_and, and_false, or_false,
    trapWrites_of_derives hi, List.not_mem_nil, exists_false] at hread
  obtain heq | ⟨ws, -, hws, x, hx, -, heq⟩ := hread
  · rw [heq] at ht ⊢
    exact h r ht
  · rw [heq] at ht ⊢
    have hwithin := monotone_of_not_boundsWrap hi hw ws hws x hx ht
    obtain ⟨r', hsrc⟩ := source_of_derives hi hws hx
    rw [hsrc] at hwithin
    obtain ⟨r₀, hr₀⟩ := h r' hwithin.1
    exact ⟨r₀, hwithin.trans hr₀⟩

/-- **A deriving instruction is monotone exactly when it does not set bounds
whose top wraps; and along every run of deriving instructions none of which
does, every tagged register is within the rights of a tagged register of the
start.** -/
theorem monotone_iff_not_boundsWrap :
    (∀ (s : CapState w) (i : CapInstr), i.derives = true →
      (s.Monotone i ↔ ¬ s.BoundsWrap i))
    ∧ ∀ (s : CapState w) (is : List CapInstr), (∀ i ∈ is, i.derives = true) →
      (capMachine w).Along (fun s i => ¬ s.BoundsWrap i) s is →
      ∀ r, (((capMachine w).run s is).regs r).tag = true →
        ∃ r₀, (((capMachine w).run s is).regs r).WithinRights (s.regs r₀) := by
  refine ⟨fun s i hi => ⟨fun hm hw => not_monotone_of_boundsWrap hw hm,
    monotone_of_not_boundsWrap hi⟩, fun s is his halong => ?_⟩
  have hcond : (capMachine w).Along
      (fun s i => i.derives = true ∧ ¬ s.BoundsWrap i) s is :=
    (capMachine w).along_and_mem his halong
  have hstart : s.RegsWithin s := fun r ht => ⟨r, .refl ht⟩
  exact (capMachine w).run_invariant
    (fun t i (h : s.RegsWithin t) hc => h.step hc.1 hc.2) hstart hcond

/-- Sixteen bytes cut out of the page, and the result moved on. -/
theorem cSetBoundsImm_cMove_within :
    let page : Capability := { Capability.root with
      base := 0x80000000, length := 0x1000, offset := 0x10 }
    let s : CapState 8 := ⟨fun r => if r = 1 then page else .null, fun _ => .null, .root,
      .reset 256 32⟩
    let is : List CapInstr := [.modify .CSetBoundsImm 2 1 16 0, .cMove 3 2]
    (((capMachine 8).run s is).regs 3).tag = true
      ∧ ∃ r₀, (((capMachine 8).run s is).regs 3).WithinRights (s.regs r₀) := by
  intro page s is
  have hlast : (((capMachine 8).run s is).regs 3).tag = true := by decide
  have hfirst : ¬ s.BoundsWrap (.modify .CSetBoundsImm 2 1 16 0) :=
    fun h => absurd h.2.2 (by decide)
  exact ⟨hlast, monotone_iff_not_boundsWrap.2 s is (by decide) ⟨hfirst, id, trivial⟩ 3 hlast⟩

/-- `CSetBounds` on a page, from its sixteenth byte, with all ones as the
length: the check passes and the result reaches the last byte but sixteen of
the address space. -/
theorem cSetBounds_all_ones_not_monotone :
    let page : Capability := { Capability.root with
      base := 0x80000000, length := 0x1000, offset := 0x10 }
    let s : CapState 8 := ⟨fun r => if r = 1 then page else .null, fun _ => .null, .root,
      .reset 256 32⟩
    ¬ s.Monotone (.modify .CSetBounds 2 1 0 0xffffffff)
      ∧ ¬ ((s.step (.modify .CSetBounds 2 1 0 0xffffffff)).regs 2).WithinRights page := by
  refine ⟨not_monotone_of_boundsWrap ⟨rfl, rfl, by decide⟩, ?_⟩
  decide

end CapState

end Proteus
