import CheriTree.Proteus.CapMachine

/-!
# The confinement of the system registers

MTCC, MTDC, MScratchC and MEPCC are reached by `CSpecialRW`, which asks the
program counter capability for the permission to access system registers. Two
of them are reached a second time: `mtvec` and `mepc` are the offsets of MTCC
and MEPCC, and the CSR file asks for nothing.

A step that takes no trap leaves the four registers alone without the
permission, but for a CSR instruction that changes one of the two offsets
(`confined_iff_keepsOffset`).
-/

namespace Proteus

variable {w : ℕ}

/-- The offset behind the number of a CSR. -/
def OffsetCsr.ofId (csrId : BitVec 12) : Option OffsetCsr :=
  if csrId = 0x305#12 then some mtvec
  else if csrId = 0x341#12 then some mepc
  else none

/-- **The instructions of the core**, with any CSR by its number. -/
inductive SysInstr where
  | cap (i : CapInstr)
  | csr (op : CsrOp) (useImm : Bool) (csrId : BitVec 12) (rd rs1 : RegId) (rs1Data : Word)
deriving DecidableEq, Repr

/-- A CSR that cannot be written. -/
def isReadOnly (csrId : BitVec 12) : Bool := csrId &&& 0xC00#12 = 0xC00#12

/-- The access of a CSR instruction fails. `registered` are the CSRs of the
core's plugins besides the two offsets. -/
def csrError (registered : BitVec 12 → Bool) (op : CsrOp) (useImm : Bool) (csrId : BitVec 12)
    (rd rs1 : RegId) : Bool :=
  let ignoreWrite := !useImm && rs1 = 0
  let reads := match op with
    | .RW => decide (rd ≠ 0)
    | _ => true
  let writes := match op with
    | .RW => true
    | _ => !ignoreWrite
  (reads && !registered csrId) || (writes && (!registered csrId || isReadOnly csrId))

namespace CapState

variable (registered : BitVec 12 → Bool)

/-- **One instruction.** A CSR that is no offset holds no capability: the
instruction moves on, or is illegal. -/
def sysStep (s : CapState w) : SysInstr → CapState w
  | .cap i => s.step i
  | .csr op useImm csrId rd rs1 rs1Data =>
    match OffsetCsr.ofId csrId with
    | some id => s.step (.csr op useImm id rs1 rs1Data)
    | none =>
      if s.fetchCheck = none ∧ csrError registered op useImm csrId rd rs1 = true then s.enterTrap
      else s.step .plain

/-- The instruction takes a trap. -/
def SysTraps (s : CapState w) : SysInstr → Prop
  | .cap i => s.Traps i
  | .csr op useImm csrId rd rs1 rs1Data =>
    match OffsetCsr.ofId csrId with
    | some id => s.Traps (.csr op useImm id rs1 rs1Data)
    | none => s.fetchCheck ≠ none ∨ csrError registered op useImm csrId rd rs1 = true

/-- **The step is confined**: without the permission and without a trap the
system registers are what they were. -/
def Confined (s : CapState w) (i : SysInstr) : Prop :=
  ¬ s.SysTraps registered i → s.pcc.perms.accessSystemRegisters = false →
    ∀ r, r ≠ Scr.ddc → (s.sysStep registered i).scrs r = s.scrs r

/-- The offset an instruction writes through the CSR file. -/
def offsetWrite (s : CapState w) : SysInstr → Option (OffsetCsr × Word)
  | .cap (.csr op useImm id rs1 rs1Data) =>
    (csrValue op useImm rs1 rs1Data (s.scrs id.scr).offset).map fun v => (id, v)
  | .cap _ => none
  | .csr op useImm csrId _ rs1 rs1Data =>
    match OffsetCsr.ofId csrId with
    | some id => (csrValue op useImm rs1 rs1Data (s.scrs id.scr).offset).map fun v => (id, v)
    | none => none

/-- **No offset is changed through the CSR file**, without the permission and
without a trap. -/
def KeepsOffset (s : CapState w) (i : SysInstr) : Prop :=
  ¬ s.SysTraps registered i → s.pcc.perms.accessSystemRegisters = false →
    ∀ id v, s.offsetWrite i = some (id, v) → v = (s.scrs id.scr).offset

variable {registered} {s : CapState w}

/-- **A write to a system register needs the permission**, or goes through the
CSR file. -/
theorem exec_scr_write {i : CapInstr} {ws : List CapWrite} {x : CapWrite} {r : Scr}
    (hasr : s.pcc.perms.accessSystemRegisters = false) (h : s.exec i = .ok ws) (hx : x ∈ ws)
    (hd : x.dest = .scr r) (hr : r ≠ .ddc) :
    ∃ id v, s.offsetWrite (.cap i) = some (id, v) ∧ r = id.scr
      ∧ x.result = { s.scrs r with offset := v } := by
  -- a write to a general register or to the program counter is none of these
  have hne : ∀ {y : CapWrite}, y.dest.isScr = false → x ≠ y := by
    rintro y hy rfl
    rw [hd] at hy
    cases hy
  cases i with
  | modify op cd cs1 imm rs2Data =>
    simp only [exec] at h
    split at h
    · obtain rfl := Except.ok.inj h
      exact absurd (List.mem_singleton.1 hx) (hne rfl)
    · cases h
  | cMove cd cs1 =>
    obtain rfl := Except.ok.inj h
    exact absurd (List.mem_singleton.1 hx) (hne rfl)
  | cSeal cd cs1 cs2 =>
    obtain ⟨c, -, h⟩ := bind_eq_ok.1 h
    obtain rfl := Except.ok.inj h
    exact absurd (List.mem_singleton.1 hx) (hne rfl)
  | cUnseal cd cs1 cs2 =>
    obtain ⟨c, -, h⟩ := bind_eq_ok.1 h
    obtain rfl := Except.ok.inj h
    exact absurd (List.mem_singleton.1 hx) (hne rfl)
  | cInvoke cs1 cs2 =>
    obtain ⟨c, -, h⟩ := bind_eq_ok.1 h
    obtain rfl := Except.ok.inj h
    obtain hx | hx := List.mem_cons.1 hx
    · exact absurd hx (hne rfl)
    · exact absurd (List.mem_singleton.1 hx) (hne rfl)
  | cjalr cd cs1 =>
    obtain ⟨c, -, h⟩ := bind_eq_ok.1 h
    obtain rfl := Except.ok.inj h
    obtain hx | hx := List.mem_cons.1 hx
    · exact absurd hx (hne rfl)
    · exact absurd (List.mem_singleton.1 hx) (hne rfl)
  | eInitCode cd cs1 =>
    obtain rfl := Except.ok.inj h
    exact absurd (List.mem_singleton.1 hx) (hne rfl)
  | eInitData cd cs1 cs2 unique digest =>
    obtain rfl := Except.ok.inj h
    exact absurd (List.mem_singleton.1 hx) (hne rfl)
  | cSpecialRW cd cs1 scrId ir =>
    have hread : ∀ c : Capability, x ∉ (if cd = 0 then [] else [(⟨.reg cd, c, c⟩ : CapWrite)]) := by
      intro c hx
      split at hx
      · cases hx
      · exact hne rfl (List.mem_singleton.1 hx)
    simp only [exec, cSpecialRW, hasr] at h
    split at h
    · obtain rfl := Except.ok.inj h
      exact absurd hx (hread _)
    · split at h
      · cases h
      · rename_i r' _
        split at h
        · cases h
        · rename_i hasr'
          obtain rfl := Except.ok.inj h
          obtain hx | hx := List.mem_append.1 hx
          · exact absurd hx (hread _)
          · split at hx
            · cases hx
            · rw [List.mem_singleton.1 hx] at hd
              obtain rfl := Dest.scr.inj hd
              -- only DDC is written without the permission
              have hneed : r'.needAsr = true := by
                cases r' with
                | ddc => exact absurd rfl hr
                | mtcc => rfl
                | mtdc => rfl
                | mscratchc => rfl
                | mepcc => rfl
              rw [hneed] at hasr'
              exact absurd rfl hasr'
  | csr op useImm id rs1 rs1Data =>
    simp only [exec] at h
    split at h
    · rename_i v hv
      obtain rfl := Except.ok.inj h
      rw [List.mem_singleton.1 hx] at hd ⊢
      obtain rfl := Dest.scr.inj hd
      refine ⟨id, v, ?_, rfl, rfl⟩
      simp [offsetWrite, hv]
    · obtain rfl := Except.ok.inj h
      cases hx
  | mret =>
    obtain rfl := Except.ok.inj h
    exact absurd (List.mem_singleton.1 hx) (hne rfl)
  | branch target =>
    simp only [exec] at h
    split at h
    · cases h
    · split at h
      · cases h
      · obtain rfl := Except.ok.inj h
        exact absurd (List.mem_singleton.1 hx) (hne rfl)
  | plain =>
    obtain rfl := Except.ok.inj h
    cases hx

/-- The offset a CSR instruction writes is what its register holds after it. -/
theorem step_csr_offset {op : CsrOp} {useImm : Bool} {id : OffsetCsr} {rs1 : RegId}
    {rs1Data v : Word} (hf : s.fetchCheck = none)
    (hv : csrValue op useImm rs1 rs1Data (s.scrs id.scr).offset = some v) :
    ((s.step (.csr op useImm id rs1 rs1Data)).scrs id.scr).offset = v := by
  have hs : s.step (.csr op useImm id rs1 rs1Data)
      = { s.advance.writeAll [⟨.scr id.scr, s.scrs id.scr, { s.scrs id.scr with offset := v }⟩] with
          store := s.store } := by
    simp only [step, hf, exec, hv, storeAfter]
  rw [hs]
  show (Function.update s.scrs id.scr { s.scrs id.scr with offset := v } id.scr).offset = v
  rw [Function.update_self]

theorem confined_cap_iff (registered : BitVec 12 → Bool) (s : CapState w) (i : CapInstr) :
    s.Confined registered (.cap i) ↔ s.KeepsOffset registered (.cap i) := by
  constructor
  · -- the register of an offset is a system register
    intro h htrap hasr id v hw
    have hid : id.scr ≠ .ddc := by
      cases id <;> decide
    have hscr := h htrap hasr id.scr hid
    cases i with
    | csr op useImm id' rs1 rs1Data =>
      obtain ⟨v', hv, hpair⟩ := Option.map_eq_some_iff.1 hw
      obtain ⟨rfl, rfl⟩ := Prod.mk.inj hpair
      have hf : s.fetchCheck = none := by
        by_contra hne
        exact htrap (.inl hne)
      rw [← step_csr_offset hf hv]
      exact congrArg Capability.offset hscr
    | _ => cases hw
  · intro h htrap hasr r hr
    show (s.step i).read (.scr r) = s.scrs r
    obtain hsame | ⟨ws, -, hws, x, hx, hd, hres⟩ | ⟨hpcc, -⟩ | ⟨ht, -⟩ | ⟨ht, -⟩ | ⟨x, -, hne, -⟩ :=
      s.read_step i (.scr r)
    · exact hsame
    · obtain ⟨id, v, hw, rfl, hx⟩ := exec_scr_write hasr hws hx hd hr
      rw [hres, hx, h htrap hasr id v hw]
    · cases hpcc
    · exact absurd ht htrap
    · exact absurd ht htrap
    · exact absurd (.inl hne) htrap

/-- **A step is confined exactly when it changes no offset through the CSR
file.** -/
theorem confined_iff (s : CapState w) (i : SysInstr) :
    s.Confined registered i ↔ s.KeepsOffset registered i := by
  cases i with
  | cap i => exact confined_cap_iff registered s i
  | csr op useImm csrId rd rs1 rs1Data =>
    cases hid : OffsetCsr.ofId csrId with
    | some id =>
      have h := confined_cap_iff registered s (.csr op useImm id rs1 rs1Data)
      simp only [Confined, KeepsOffset, SysTraps, sysStep, offsetWrite, hid] at h ⊢
      exact h
    | none =>
      have h := (confined_cap_iff registered s .plain).2
        (fun _ _ id v hw => by cases hw)
      constructor
      · intro _ _ _ id v hw
        simp [offsetWrite, hid] at hw
      · intro _ htrap hasr r hr
        simp only [SysTraps, hid, not_or] at htrap
        have hplain : s.sysStep registered (.csr op useImm csrId rd rs1 rs1Data)
            = s.step .plain := by
          simp only [sysStep, hid]
          exact if_neg (fun hc => htrap.2 hc.2)
        rw [hplain]
        refine h ?_ hasr r hr
        rintro (hne | ⟨cause, hc⟩)
        · exact htrap.1 hne
        · cases hc

end CapState

/-- **The core as a machine** driven by its instructions. -/
def sysMachine (w : ℕ) (registered : BitVec 12 → Bool) :
    SyncMachine (CapState w) SysInstr Unit where
  step s i := (s.sysStep registered i, ())

/-- **Every step of a run is confined exactly when no step of it changes an
offset through the CSR file** without the permission. -/
theorem confined_iff_keepsOffset (registered : BitVec 12 → Bool) (s : CapState w)
    (is : List SysInstr) :
    (sysMachine w registered).Along (fun s i => s.Confined registered i) s is ↔
      (sysMachine w registered).Along (fun s i => s.KeepsOffset registered i) s is :=
  (sysMachine w registered).along_congr CapState.confined_iff

/-- A program without the permission, over all of the memory. -/
def unprivileged : CapState 8 where
  regs := fun _ => .null
  scrs := fun _ => .root
  pcc := { Capability.root with
    perms := { Permissions.allowAll with accessSystemRegisters := false } }
  store := .reset 256 32

/-- `csrrwi mtvec, 4` moves the trap vector without the permission. -/
theorem unprivileged_moves_mtvec :
    ¬ (sysMachine 8 (fun _ => false)).Along (fun s i => s.Confined (fun _ => false) i) unprivileged
      [.csr .RW true 0x305 0 4 0] := by
  intro h
  have htrap : ¬ unprivileged.SysTraps (fun _ => false) (.csr .RW true 0x305 0 4 0) := by
    show ¬ unprivileged.Traps (.csr .RW true .mtvec 4 0)
    decide +kernel
  have hscr := h.1 htrap rfl .mtcc (by decide)
  have hoff := congrArg Capability.offset hscr
  exact absurd hoff (by decide +kernel)

end Proteus
