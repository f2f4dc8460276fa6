import CheriTree.Masks
import CheriTree.Proteus.CapMachine

/-!
# The laws of sealing

What `CSeal`, `CUnseal` and `CInvoke` are for is an algebra: unsealing under
an authority for the object type undoes sealing, no other authority unseals,
and a matching pair of sealed capabilities is entered exactly when its code
may run at the target. The authorities are read over the integers – an
address is in bounds when it is in the byte range of its capability – and
`SealingLaws` is the algebra so read.

The core compares wrapped sums, and the laws fail where a wrap shows: an
authority whose range passes `2^32` is refused though its address is in it;
a code capability whose range does so cannot be entered at all; and the end
of the four bytes at the target may itself wrap, so that a target in the last
word of the address space is entered although not all of it is in bounds.
Two of the exceptions are none of a wrap. An object type above `maxOtype`
other than all ones counts as unsealed, and sealing forgets it. And `CInvoke`
clears the last bit of the *address* for its own check but that of the
*offset* for the jump, so that an odd base is refused at offset zero.
`SealingLaws.Fails` is the list, and `sealingLaws_iff` says it is complete.
-/

namespace Proteus

/-! ## Words -/

theorem toNat_clearLsb (w : Word) : (clearLsb w).toNat = w.toNat - w.toNat % 2 := by
  rw [clearLsb, show (0xfffffffe#32) = BitVec.allOnes 32 <<< 1 by decide,
    Masks.toNat_and_high]
  omega

theorem and_three_eq_zero_iff (w : Word) : w &&& 3 = 0 ↔ w.toNat % 4 = 0 := by
  rw [← BitVec.toNat_inj, Masks.toNat_and_low w (n := 2) rfl]
  rfl

/-! ## Authorities over the integers -/

namespace Capability

/-- The address is in bounds. -/
def AddressIn (c : Capability) : Prop :=
  c.base.toNat ≤ c.address.toNat ∧ c.address.toNat < c.base.toNat + c.length.toNat

/-- **The range passes the top of the address space**, and `top` is not its
end. -/
def Wraps (c : Capability) : Prop := 2 ^ 32 ≤ c.base.toNat + c.length.toNat

/-- **An authority to seal.** -/
def SealAuthority (s : Capability) : Prop :=
  s.tag = true ∧ s.isSealed = false ∧ s.perms.permitSeal = true ∧ s.AddressIn
    ∧ s.address.toNat ≤ maxOtype

/-- **An authority to unseal** what is sealed with `o`. -/
def UnsealAuthority (s : Capability) (o : ObjectType) : Prop :=
  s.tag = true ∧ s.isSealed = false ∧ s.address.toNat = o.toNat
    ∧ s.perms.permitUnseal = true ∧ s.AddressIn

/-- A code and a data capability that belong together: what `CInvoke` asks of
the two but for the target. -/
def Matches (c d : Capability) : Prop :=
  c.tag = true ∧ d.tag = true ∧ c.isSealed = true ∧ d.isSealed = true ∧ c.otype = d.otype
    ∧ c.perms.cinvoke = true ∧ d.perms.cinvoke = true ∧ c.perms.execute = true
    ∧ d.perms.execute = false

/-- The offset `CInvoke` enters a code capability at. -/
def targetOffset (c : Capability) : ℕ := (clearLsb c.offset).toNat

/-- **A pair that may be entered**: the target is a whole instruction of the
code capability. -/
def MayInvoke (c d : Capability) : Prop :=
  c.Matches d ∧ c.targetOffset % 4 = 0
    ∧ (ByteRange.mk (c.base.toNat + c.targetOffset) 4).Within c.range

instance (c : Capability) : Decidable c.AddressIn := inferInstanceAs (Decidable (_ ∧ _))

instance (c : Capability) : Decidable c.Wraps := inferInstanceAs (Decidable (_ ≤ _))

instance (s : Capability) : Decidable s.SealAuthority := inferInstanceAs (Decidable (_ ∧ _))

instance (s : Capability) (o : ObjectType) : Decidable (s.UnsealAuthority o) :=
  inferInstanceAs (Decidable (_ ∧ _))

instance (c d : Capability) : Decidable (c.Matches d) := inferInstanceAs (Decidable (_ ∧ _))

instance (c d : Capability) : Decidable (c.MayInvoke d) := inferInstanceAs (Decidable (_ ∧ _))

/-- The check of an address against its bounds: it passes for what is in
bounds, and for nothing when the bounds wrap. -/
theorem address_check_iff {c : Capability} {a : Word} :
    (¬ a < c.base ∧ ¬ a ≥ c.top) ↔
      (c.base.toNat ≤ a.toNat ∧ a.toNat < c.base.toNat + c.length.toNat) ∧ ¬ c.Wraps := by
  have hb := c.base.isLt
  have hl := c.length.isLt
  unfold Wraps
  rw [ge_iff_le, BitVec.not_le, BitVec.not_lt, BitVec.le_def, BitVec.lt_def, toNat_top]
  omega

end Capability

/-! ## What each instruction checks -/

/-- **`CSeal` succeeds** under an authority whose bounds do not wrap. -/
theorem cSeal_eq_ok_iff {c s c' : Capability} {rs1 rs2 : RegId} :
    cSeal c s rs1 rs2 = .ok c' ↔
      c.tag = true ∧ c.isSealed = false ∧ s.SealAuthority ∧ ¬ s.Wraps
        ∧ c.sealWith (s.address.setWidth otypeLen) = c' := by
  have hbounds := Capability.address_check_iff (c := s) (a := s.address)
  unfold cSeal Capability.SealAuthority Capability.AddressIn
  simp only [ite_error_eq_ok, Except.ok.injEq, Bool.not_eq_true', Bool.not_eq_true,
    Bool.not_eq_false, gt_iff_lt, not_lt]
  tauto

/-- **`CUnseal` succeeds** under an authority whose bounds do not wrap. -/
theorem cUnseal_eq_ok_iff {c s c' : Capability} {rs1 rs2 : RegId} :
    cUnseal c s rs1 rs2 = .ok c' ↔
      c.tag = true ∧ c.isSealed = true ∧ s.UnsealAuthority c.otype ∧ ¬ s.Wraps
        ∧ c.unsealed = c' := by
  have hbounds := Capability.address_check_iff (c := s) (a := s.address)
  have hotype : s.address = c.otype.setWidth 32 ↔ s.address.toNat = c.otype.toNat := by
    rw [← BitVec.toNat_inj, BitVec.toNat_setWidth_of_le (by decide)]
  unfold cUnseal Capability.UnsealAuthority Capability.AddressIn
  simp only [ite_error_eq_ok, Except.ok.injEq, Bool.not_eq_true', Bool.not_eq_true,
    Bool.not_eq_false, ne_eq, not_not, hotype]
  tauto

/-- **A jump to a capability succeeds** at a multiple of four that passes the
check of the target. -/
theorem jumpToCap_eq_ok_iff {pcc target : Capability} {capIdx : CapIdx} :
    jumpToCap pcc capIdx = .ok target ↔
      pcc.targetOffset % 4 = 0
        ∧ checkJumpTarget pcc (pcc.base + clearLsb pcc.offset) = none
        ∧ { pcc with offset := clearLsb pcc.offset } = target := by
  unfold jumpToCap
  rw [ite_error_eq_ok, not_not, and_three_eq_zero_iff]
  refine and_congr_right fun _ => ?_
  cases checkJumpTarget pcc (pcc.base + clearLsb pcc.offset) with
  | none => simp
  | some e => simp

/-- The bounds `CInvoke` compares: those of the target, twice. -/
def TargetChecked (c : Capability) : Prop :=
  (¬ clearLsb c.address < c.base ∧ ¬ clearLsb c.address ≥ c.top)
    ∧ c.InBounds (c.base + clearLsb c.offset) 4

/-- **`CInvoke` succeeds** for a matching pair whose target passes both
checks. -/
theorem cInvoke_eq_ok_iff {c d : Capability} {x : Capability × Capability} {rs1 rs2 : RegId} :
    cInvoke c d rs1 rs2 = .ok x ↔
      c.Matches d ∧ c.targetOffset % 4 = 0 ∧ TargetChecked c
        ∧ ({ c.unsealed with offset := clearLsb c.offset }, d.unsealed) = x := by
  -- the jump checks the tag and the permission once more, and the bounds of the whole word
  have hjump : (do let pcc ← jumpToCap c.unsealed (CapIdx.gpcr rs1); return (pcc, d.unsealed))
      = Except.ok (ε := TrapCause) x ↔
        c.targetOffset % 4 = 0 ∧ c.tag = true ∧ c.perms.execute = true
          ∧ c.InBounds (c.base + clearLsb c.offset) 4
          ∧ ({ c.unsealed with offset := clearLsb c.offset }, d.unsealed) = x := by
    rw [bind_eq_ok]
    constructor
    · rintro ⟨pcc, hj, hx⟩
      obtain ⟨hfour, hcheck, rfl⟩ := jumpToCap_eq_ok_iff.1 hj
      obtain ⟨htag, -, hexec, hin⟩ := checkJumpTarget_eq_none_iff.1 hcheck
      exact ⟨hfour, htag, hexec, hin, Except.ok.inj hx⟩
    · rintro ⟨hfour, htag, hexec, hin, hx⟩
      exact ⟨_, jumpToCap_eq_ok_iff.2 ⟨hfour, checkJumpTarget_eq_none_iff.2
        ⟨htag, c.isSealed_unsealed, hexec, hin⟩, rfl⟩, congrArg Except.ok hx⟩
  unfold cInvoke Capability.Matches TargetChecked
  simp only [ite_error_eq_ok, hjump, Bool.not_eq_true', Bool.not_eq_true, Bool.not_eq_false,
    ne_eq, not_not]
  tauto

/-! ## Where the bounds of a target go wrong -/

/-- The address `CInvoke` compares with the bounds first, over the integers. -/
def Capability.targetAddress (c : Capability) : ℕ :=
  c.base.toNat + c.offset.toNat - (c.base.toNat + c.offset.toNat) % 2

/-- **A target whose bounds the core gets wrong**: one in a range that wraps;
one at offset zero of an odd base; and one in the last word of the address
space, where the end of the instruction wraps. -/
def Capability.TargetFails (c : Capability) : Prop :=
  if c.Wraps then c.targetOffset + 4 ≤ c.length.toNat
  else (c.base.toNat % 2 = 1 ∧ c.offset.toNat = 0 ∧ 4 ≤ c.length.toNat)
    ∨ (2 ^ 32 ≤ c.base.toNat + c.targetOffset + 4 ∧ c.base.toNat ≤ c.targetAddress
      ∧ c.targetAddress < c.base.toNat + c.length.toNat)

instance (c : Capability) : Decidable c.TargetFails := inferInstanceAs (Decidable (ite _ _ _))

/-- The two comparisons of `CInvoke`, over the integers: with a range that
does not wrap, they accept whole instructions in bounds but for the two kinds
of target named on the right. -/
theorem target_bounds_iff {b l o t : ℕ} (hb : b < 2 ^ 32) (ho : o < 2 ^ 32)
    (ht : t = o - o % 2) (hfour : t % 4 = 0) (hbl : b + l < 2 ^ 32) :
    ((b ≤ (b + o) % 2 ^ 32 - (b + o) % 2 ^ 32 % 2
        ∧ (b + o) % 2 ^ 32 - (b + o) % 2 ^ 32 % 2 < b + l)
      ∧ b ≤ (b + t) % 2 ^ 32 ∧ ((b + t) % 2 ^ 32 + 4) % 2 ^ 32 ≤ b + l ↔ t + 4 ≤ l)
      ↔ ¬ ((b % 2 = 1 ∧ o = 0 ∧ 4 ≤ l)
        ∨ (2 ^ 32 ≤ b + t + 4 ∧ b ≤ b + o - (b + o) % 2 ∧ b + o - (b + o) % 2 < b + l)) := by
  by_cases hover : 2 ^ 32 ≤ b + o
  · -- the address wraps below the base
    have h1 : (b + o) % 2 ^ 32 = b + o - 2 ^ 32 := by omega
    have h2 : ¬ b ≤ (b + o) % 2 ^ 32 - (b + o) % 2 ^ 32 % 2 := by omega
    have h3 : ¬ t + 4 ≤ l := by omega
    have h4 : ¬ b + o - (b + o) % 2 < b + l := by omega
    have h5 : ¬ (b % 2 = 1 ∧ o = 0 ∧ 4 ≤ l) := by omega
    tauto
  · have h1 : (b + o) % 2 ^ 32 = b + o := by omega
    have h2 : (b + t) % 2 ^ 32 = b + t := by omega
    rw [h1, h2]
    by_cases hend : 2 ^ 32 ≤ b + t + 4
    · have h3 : (b + t + 4) % 2 ^ 32 = b + t + 4 - 2 ^ 32 := by omega
      rw [h3]
      omega
    · have h3 : (b + t + 4) % 2 ^ 32 = b + t + 4 := by omega
      rw [h3]
      omega

theorem targetChecked_iff {c : Capability} (hfour : c.targetOffset % 4 = 0) :
    (TargetChecked c ↔ (ByteRange.mk (c.base.toNat + c.targetOffset) 4).Within c.range)
      ↔ ¬ c.TargetFails := by
  have hb := c.base.isLt
  have hl := c.length.isLt
  have ho := c.offset.isLt
  have htarget : c.targetOffset = c.offset.toNat - c.offset.toNat % 2 := toNat_clearLsb c.offset
  have hspec : (ByteRange.mk (c.base.toNat + c.targetOffset) 4).Within c.range ↔
      c.targetOffset + 4 ≤ c.length.toNat := by
    rw [ByteRange.within_iff]
    simp only [ByteRange.top, Capability.range_base, Capability.range_length]
    omega
  have hchecked : TargetChecked c ↔ ¬ c.Wraps
      ∧ (c.base.toNat ≤ (clearLsb c.address).toNat
        ∧ (clearLsb c.address).toNat < c.base.toNat + c.length.toNat)
      ∧ c.base.toNat ≤ (c.base.toNat + c.targetOffset) % 2 ^ 32
      ∧ ((c.base.toNat + c.targetOffset) % 2 ^ 32 + 4) % 2 ^ 32
        ≤ (c.base.toNat + c.length.toNat) % 2 ^ 32 := by
    unfold TargetChecked
    rw [Capability.address_check_iff, Capability.inBounds_iff, BitVec.toNat_add]
    show _ ∧ c.base.toNat ≤ (c.base.toNat + c.targetOffset) % 2 ^ 32 ∧
      ((c.base.toNat + c.targetOffset) % 2 ^ 32 + 4) % 2 ^ 32 ≤ _ ↔ _
    tauto
  rw [hspec, hchecked, toNat_clearLsb, Capability.toNat_address]
  unfold Capability.TargetFails
  by_cases hwraps : c.Wraps
  · rw [if_pos hwraps]
    tauto
  · have hbl : c.base.toNat + c.length.toNat < 2 ^ 32 := Nat.lt_of_not_le hwraps
    rw [if_neg hwraps, Nat.mod_eq_of_lt hbl, Capability.targetAddress,
      ← target_bounds_iff hb ho htarget hfour hbl]
    tauto

/-! ## The laws -/

/-- **The laws of sealing**, for a capability `c`, the authority `s` it is
sealed with, an authority `s'` to unseal with, and a data capability `d`. -/
structure SealingLaws (c s s' d : Capability) : Prop where
  /-- Unsealing under an authority undoes sealing. -/
  unseal_seal : ∀ (rs1 rs2 rs1' rs2' : RegId) (c' : Capability),
    cSeal c s rs1 rs2 = .ok c' → s'.UnsealAuthority c'.otype →
      cUnseal c' s' rs1' rs2' = .ok c
  /-- Nothing else unseals. -/
  unseal_only : ∀ (rs1 rs2 rs1' rs2' : RegId) (c' : Capability),
    cSeal c s rs1 rs2 = .ok c' → ¬ s'.UnsealAuthority c'.otype →
      ∃ e, cUnseal c' s' rs1' rs2' = .error e
  /-- Sealing needs an address in bounds that is an object type that seals. -/
  seal_authority : ∀ (rs1 rs2 : RegId) (c' : Capability),
    cSeal c s rs1 rs2 = .ok c' → s.AddressIn ∧ s.address.toNat ≤ maxOtype
  /-- So does unsealing. -/
  unseal_authority : ∀ (rs1 rs2 : RegId) (c' : Capability),
    cUnseal c s rs1 rs2 = .ok c' → s.AddressIn ∧ s.address.toNat ≤ maxOtype
  /-- A pair is entered when it may be, and only then. -/
  invoke_iff : ∀ (w : ℕ) (st : CapState w) (cs1 cs2 : RegId), st.fetchCheck = none →
    st.regs cs1 = c → st.regs cs2 = d →
      ((∃ ws, st.exec (.cInvoke cs1 cs2) = .ok ws) ↔ c.MayInvoke d)
  /-- Entering a pair changes the program counter capability and register 31. -/
  invoke_step : ∀ (w : ℕ) (st : CapState w) (cs1 cs2 : RegId), st.fetchCheck = none →
    st.regs cs1 = c → st.regs cs2 = d → (∃ ws, st.exec (.cInvoke cs1 cs2) = .ok ws) →
      st.step (.cInvoke cs1 cs2) =
        { st with
          pcc := { c.unsealed with offset := clearLsb c.offset }
          regs := Function.update st.regs 31 d.unsealed }

/-- **An authority to unseal that is refused, or unseals something else.** -/
def UnsealFails (c s s' : Capability) : Prop :=
  c.tag = true ∧ c.isSealed = false ∧ s.SealAuthority ∧ ¬ s.Wraps
    ∧ s'.UnsealAuthority (s.address.setWidth otypeLen) ∧ (s'.Wraps ∨ c.otype ≠ .unsealed)

/-- **A pair whose target the core gets wrong.** -/
def InvokeFails (c d : Capability) : Prop :=
  c.Matches d ∧ c.targetOffset % 4 = 0 ∧ c.TargetFails

instance (c s s' : Capability) : Decidable (UnsealFails c s s') :=
  inferInstanceAs (Decidable (_ ∧ _))

instance (c d : Capability) : Decidable (InvokeFails c d) :=
  inferInstanceAs (Decidable (_ ∧ _))

/-- A computation that does not succeed traps. -/
theorem error_of_not_ok {α : Type} {x : Except TrapCause α} (h : ∀ a, x ≠ .ok a) :
    ∃ e, x = .error e := by
  cases x with
  | error e => exact ⟨e, rfl⟩
  | ok a => exact absurd rfl (h a)

/-- What is sealed under an authority is sealed. -/
theorem isSealed_sealWith {c s : Capability} (h : s.address.toNat ≤ maxOtype) :
    (c.sealWith (s.address.setWidth otypeLen)).isSealed = true := by
  refine decide_eq_true ?_
  show (s.address.setWidth otypeLen).toNat ≤ maxOtype
  rw [BitVec.toNat_setWidth]
  exact (Nat.mod_le _ _).trans h

/-- What an authority sealed is unsealed by an authority for its address whose
bounds do not wrap, and by nothing else. -/
theorem cUnseal_of_cSeal {c s s' c' x : Capability} {rs1 rs2 rs1' rs2' : RegId}
    (h : cSeal c s rs1 rs2 = .ok c') :
    cUnseal c' s' rs1' rs2' = .ok x ↔
      s'.UnsealAuthority (s.address.setWidth otypeLen) ∧ ¬ s'.Wraps ∧ c.unsealed = x := by
  obtain ⟨htag, -, hs, -, rfl⟩ := cSeal_eq_ok_iff.1 h
  rw [cUnseal_eq_ok_iff]
  have hsealed : (c.sealWith (s.address.setWidth otypeLen)).isSealed = true :=
    isSealed_sealWith hs.2.2.2.2
  show _ ∧ _ ∧ s'.UnsealAuthority (s.address.setWidth otypeLen) ∧ _ ∧ c.unsealed = x ↔ _
  tauto

theorem unsealed_eq_self_iff (c : Capability) : c.unsealed = c ↔ c.otype = .unsealed := by
  unfold Capability.unsealed
  rw [Capability.ext_iff]
  simp [eq_comm]

/-- The two laws of unsealing hold but for the authorities listed. -/
theorem unseal_seal_iff (c s s' : Capability) :
    (∀ (rs1 rs2 rs1' rs2' : RegId) (c' : Capability),
      cSeal c s rs1 rs2 = .ok c' → s'.UnsealAuthority c'.otype →
        cUnseal c' s' rs1' rs2' = .ok c) ↔ ¬ UnsealFails c s s' := by
  constructor
  · rintro hlaw ⟨htag, hunsealed, hs, hwraps, hauth, hfails⟩
    have hseal : cSeal c s 0 0 = .ok (c.sealWith (s.address.setWidth otypeLen)) :=
      cSeal_eq_ok_iff.2 ⟨htag, hunsealed, hs, hwraps, rfl⟩
    obtain ⟨-, hwraps', heq⟩ := (cUnseal_of_cSeal hseal).1 (hlaw 0 0 0 0 _ hseal hauth)
    rcases hfails with hw | hotype
    · exact hwraps' hw
    · exact hotype ((unsealed_eq_self_iff c).1 heq)
  · intro hfails rs1 rs2 rs1' rs2' c' hseal hauth
    obtain ⟨htag, hunsealed, hs, hwraps, rfl⟩ := cSeal_eq_ok_iff.1 hseal
    have hgood : ¬ (s'.Wraps ∨ c.otype ≠ .unsealed) := fun h =>
      hfails ⟨htag, hunsealed, hs, hwraps, hauth, h⟩
    rw [not_or, not_not] at hgood
    exact (cUnseal_of_cSeal hseal).2 ⟨hauth, hgood.1, (unsealed_eq_self_iff c).2 hgood.2⟩

/-! ### Invocation -/

namespace CapState

variable {w : ℕ}

/-- `CInvoke` succeeds for a matching pair whose target passes both checks,
and then makes two writes. -/
theorem exec_cInvoke_eq_ok_iff {st : CapState w} {cs1 cs2 : RegId} {ws : List CapWrite} :
    st.exec (.cInvoke cs1 cs2) = .ok ws ↔
      ((st.regs cs1).Matches (st.regs cs2) ∧ (st.regs cs1).targetOffset % 4 = 0
        ∧ TargetChecked (st.regs cs1))
      ∧ [⟨.pcc, st.regs cs1,
            { (st.regs cs1).unsealed with offset := clearLsb (st.regs cs1).offset }⟩,
          ⟨.reg 31, st.regs cs2, (st.regs cs2).unsealed⟩] = ws := by
  unfold exec
  rw [bind_eq_ok]
  constructor
  · rintro ⟨x, hx, hws⟩
    obtain ⟨hm, hfour, hchecked, rfl⟩ := cInvoke_eq_ok_iff.1 hx
    exact ⟨⟨hm, hfour, hchecked⟩, Except.ok.inj hws⟩
  · rintro ⟨⟨hm, hfour, hchecked⟩, hws⟩
    exact ⟨_, cInvoke_eq_ok_iff.2 ⟨hm, hfour, hchecked, rfl⟩, congrArg Except.ok hws⟩

/-- A successful `CInvoke` changes the program counter capability and
register 31. -/
theorem step_cInvoke {st : CapState w} {cs1 cs2 : RegId} {ws : List CapWrite}
    (hfetch : st.fetchCheck = none) (h : st.exec (.cInvoke cs1 cs2) = .ok ws) :
    st.step (.cInvoke cs1 cs2) =
      { st with
        pcc := { (st.regs cs1).unsealed with offset := clearLsb (st.regs cs1).offset }
        regs := Function.update st.regs 31 (st.regs cs2).unsealed } := by
  unfold step
  rw [hfetch, h, ← (exec_cInvoke_eq_ok_iff.1 h).2]
  rfl

/-- A state that fetches, with two given capabilities in its registers. -/
def holding (c d : Capability) : CapState w where
  regs := Function.update (fun _ => d) 1 c
  scrs := fun _ => .null
  pcc := .root
  store := .reset 0 0

theorem holding_fetchCheck (c d : Capability) : (holding c d : CapState w).fetchCheck = none :=
  show checkJumpTarget .root Capability.root.address = none by decide

end CapState

/-- The law of invocation holds but for the pairs listed. -/
theorem invoke_iff_mayInvoke (c d : Capability) :
    (∀ (w : ℕ) (st : CapState w) (cs1 cs2 : RegId), st.fetchCheck = none →
      st.regs cs1 = c → st.regs cs2 = d →
        ((∃ ws, st.exec (.cInvoke cs1 cs2) = .ok ws) ↔ c.MayInvoke d)) ↔ ¬ InvokeFails c d := by
  have hexec : ∀ (w : ℕ) (st : CapState w) (cs1 cs2 : RegId), st.regs cs1 = c →
      st.regs cs2 = d → ((∃ ws, st.exec (.cInvoke cs1 cs2) = .ok ws) ↔
        c.Matches d ∧ c.targetOffset % 4 = 0 ∧ TargetChecked c) := by
    rintro w st cs1 cs2 rfl rfl
    constructor
    · rintro ⟨ws, h⟩
      exact (CapState.exec_cInvoke_eq_ok_iff.1 h).1
    · exact fun h => ⟨_, CapState.exec_cInvoke_eq_ok_iff.2 ⟨h, rfl⟩⟩
  unfold InvokeFails Capability.MayInvoke
  constructor
  · rintro hlaw ⟨hm, hfour, hfails⟩
    refine (targetChecked_iff hfour).1 ?_ hfails
    have hst := hlaw 0 (CapState.holding c d) 1 2 (CapState.holding_fetchCheck c d) rfl rfl
    rw [hexec 0 (CapState.holding c d) 1 2 rfl rfl] at hst
    tauto
  · intro hfails w st cs1 cs2 _ hc hd
    rw [hexec w st cs1 cs2 hc hd]
    refine and_congr_right fun hm => and_congr_right fun hfour => ?_
    exact (targetChecked_iff hfour).2 fun hf => hfails ⟨hm, hfour, hf⟩

/-- **The laws of sealing hold but for the exceptions listed**: an authority
whose bounds wrap, an object type that is forgotten, and the targets
`CInvoke` gets wrong. -/
theorem sealingLaws_iff (c s s' d : Capability) :
    SealingLaws c s s' d ↔ ¬ UnsealFails c s s' ∧ ¬ InvokeFails c d := by
  constructor
  · intro h
    exact ⟨(unseal_seal_iff c s s').1 h.unseal_seal, (invoke_iff_mayInvoke c d).1 h.invoke_iff⟩
  · rintro ⟨hunseal, hinvoke⟩
    refine ⟨(unseal_seal_iff c s s').2 hunseal, ?_, ?_, ?_,
      (invoke_iff_mayInvoke c d).2 hinvoke, ?_⟩
    · intro rs1 rs2 rs1' rs2' c' hseal hauth
      obtain ⟨-, -, -, -, rfl⟩ := cSeal_eq_ok_iff.1 hseal
      exact error_of_not_ok fun x hx => hauth ((cUnseal_of_cSeal hseal).1 hx).1
    · intro rs1 rs2 c' hseal
      obtain ⟨-, -, hs, -⟩ := cSeal_eq_ok_iff.1 hseal
      exact ⟨hs.2.2.2.1, hs.2.2.2.2⟩
    · intro rs1 rs2 c' hunseal
      obtain ⟨-, hsealed, hs, -⟩ := cUnseal_eq_ok_iff.1 hunseal
      have hotype : c.otype.toNat ≤ maxOtype := of_decide_eq_true hsealed
      exact ⟨hs.2.2.2.2, hs.2.2.1 ▸ hotype⟩
    · rintro w st cs1 cs2 hfetch rfl rfl ⟨ws, hws⟩
      exact CapState.step_cInvoke hfetch hws

/-- The capability of reset, pointing at the last word and sealed with object
type 1, is entered with its data capability, and the last byte of the word it
is entered at is not in its bounds. -/
theorem last_word_not_sealingLaws :
    let code : Capability := { Capability.root with offset := 0xfffffffc, otype := 1 }
    let data : Capability := { Capability.root with
      otype := 1, perms := { Permissions.allowAll with execute := false } }
    (cInvoke code data 1 2).isOk = true ∧ ¬ SealingLaws code .root .root data := by
  refine ⟨by decide, fun h => ?_⟩
  have hinvoke := (invoke_iff_mayInvoke _ _).1 h.invoke_iff
  exact hinvoke (by decide)

end Proteus
