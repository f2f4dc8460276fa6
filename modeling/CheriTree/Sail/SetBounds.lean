import CheriTree.Sail.Bounds

/-!
# Setting bounds

`setCapBounds` finds an exponent by counting leading zeros, cuts both ends of
the request to the bits there are, and starts over with the next exponent when
rounding the top has made the length too long. This is the enclosing of an
interval by granules (`setCapBounds_eq`): the circuit never looks at a length
twice, but what it computes is the least interval the format holds around the
request.

A capability is *well formed* when its fields are those of a compressed one and
its bounds are an interval of the address space (`WellFormed`). What is set is
well formed, whatever it is set on, and no well formed capability that holds
the request has tighter bounds (`setCapBounds_least`). In particular, bounds
that are asked for within those of a well formed capability stay within them,
rounded as they are.
-/

namespace Sail

namespace Capability

open BlockRounding

variable {f : CapFormat} {c : Capability f}

theorem shiftRight_setWidth {w n : ℕ} (x : BitVec w) (s : ℕ) :
    (x >>> s).setWidth n = BitVec.ofNat n (x.toNat / 2 ^ s) := by
  apply BitVec.eq_of_toNat_eq
  rw [BitVec.toNat_setWidth, BitVec.toNat_ushiftRight, Nat.shiftRight_eq_div_pow,
    BitVec.toNat_ofNat]

/-- The three bits that make way for the exponent. -/
theorem append_zeros (f : CapFormat) (q : ℕ) :
    ((BitVec.ofNat (f.mw - 3) q ++ 0#3).setWidth f.mw : BitVec f.mw)
      = BitVec.ofNat f.mw (8 * q) := by
  have hmw := f.mw_ge
  apply BitVec.eq_of_toNat_eq
  rw [BitVec.toNat_setWidth, BitVec.toNat_append, BitVec.toNat_zero, Nat.or_zero,
    Nat.shiftLeft_eq, BitVec.toNat_ofNat, BitVec.toNat_ofNat, eight_mul_two_pow,
    Nat.mul_mod_mul_left, mul_comm (q % _), Nat.mod_eq_of_lt]
  exact Nat.mul_lt_mul_of_pos_left (Nat.mod_lt _ (Nat.two_pow_pos _)) (by decide)

theorem ofNat_sub_of_le {n a b : ℕ} (h : b ≤ a) :
    BitVec.ofNat n a - BitVec.ofNat n b = BitVec.ofNat n (a - b) := by
  obtain ⟨d, rfl⟩ := Nat.exists_eq_add_of_le h
  rw [BitVec.ofNat_add, BitVec.add_comm, BitVec.add_sub_cancel, Nat.add_sub_cancel_left]

theorem getLsbD_top {n x : ℕ} (h : x < 2 ^ (n + 1)) :
    x.testBit n = decide (2 ^ n ≤ x) := by
  by_cases hx : 2 ^ n ≤ x
  · rw [decide_eq_true hx, Nat.testBit_of_two_pow_le_and_two_pow_add_one_gt hx h]
  · rw [decide_eq_false hx, Nat.testBit_lt_two_pow (not_le.1 hx)]

/-- The exponent by its leading zeros. -/
theorem capMaxE_sub_clz (length : BitVec (f.xlen + 1)) :
    let e := f.capMaxE
      - (length.extractLsb' (f.mw - 1) (f.xlen + 1 - (f.mw - 1))).clz.toNat
    length.toNat < 2 ^ (e + (f.mw - 1))
      ∧ (e ≠ 0 → 2 ^ (e + (f.mw - 2)) ≤ length.toNat) := by
  have hmw := f.mw_ge
  have hle := f.mw_le
  have hmax : f.capMaxE = f.xlen + 1 - (f.mw - 1) := by
    rw [CapFormat.capMaxE]
    omega
  have hupper : (length.extractLsb' (f.mw - 1) (f.xlen + 1 - (f.mw - 1))).toNat
      = length.toNat / 2 ^ (f.mw - 1) := by
    rw [BitVec.extractLsb'_toNat, Nat.shiftRight_eq_div_pow, Nat.mod_eq_of_lt]
    refine Nat.div_lt_of_lt_mul ?_
    rw [← pow_add]
    exact lt_of_lt_of_eq length.isLt (by congr 1; omega)
  simp only
  rw [hmax]
  generalize hW : f.xlen + 1 - (f.mw - 1) = W at *
  generalize length.extractLsb' (f.mw - 1) W = upper at *
  have hhi := BitVec.toNat_lt_two_pow_sub_clz (x := upper)
  rw [hupper, Nat.div_lt_iff_lt_mul (Nat.two_pow_pos _), ← pow_add] at hhi
  refine ⟨hhi, fun he => ?_⟩
  have hne : upper ≠ 0#W := by
    intro h
    rw [BitVec.clz_eq_iff_eq_zero.2 h] at he
    refine he ?_
    show W - (BitVec.ofNat W W).toNat = 0
    rw [BitVec.toNat_ofNat, Nat.mod_eq_of_lt Nat.lt_two_pow_self, Nat.sub_self]
  have hlo := BitVec.two_pow_sub_clz_le_toNat_of_ne_zero (by omega) hne
  rw [hupper, Nat.le_div_iff_mul_le (Nat.two_pow_pos _), ← pow_add] at hlo
  exact le_of_eq_of_le (by congr 1; omega) hlo

/-- The exponent of a request. -/
def requestE (f : CapFormat) (b t : ℕ) : ℕ :=
  if 2 ^ (f.mw - 2) ≤ t - b then BlockRounding.exponent (f.mw - 4) 3 b t else 0

/-- The bounds of a request. -/
def requestBounds (f : CapFormat) (b t : ℕ) : ℕ × ℕ := enclose (f.mw - 4) 3 b t

section Request

variable {b t : ℕ}

theorem requestE_eq (hlong : 2 ^ (f.mw - 2) ≤ t - b) :
    requestE f b t = BlockRounding.exponent (f.mw - 4) 3 b t := if_pos hlong

theorem requestE_of_short (hshort : t - b < 2 ^ (f.mw - 2)) : requestE f b t = 0 :=
  if_neg (not_le.2 hshort)

theorem requestBounds_of_short (hshort : t - b < 2 ^ (f.mw - 2)) :
    requestBounds f b t = (b, t) := by
  have hmw := f.mw_ge
  exact enclose_of_short (by rwa [show f.mw - 4 + 3 - 1 = f.mw - 2 by omega])

theorem granule_of_long (hlong : 2 ^ (f.mw - 2) ≤ t - b) :
    granule (f.mw - 4) 3 b t = 2 ^ (requestE f b t + 3) := by
  have hmw := f.mw_ge
  rw [granule, if_neg (by rw [show f.mw - 4 + 3 - 1 = f.mw - 2 by omega]; omega),
    requestE_eq hlong]

/-- A longer request, rounded to its granules. -/
theorem requestBounds_of_long (hlong : 2 ^ (f.mw - 2) ≤ t - b) :
    requestBounds f b t = (2 ^ (requestE f b t + 3) * (b / 2 ^ (requestE f b t + 3)),
      2 ^ (requestE f b t + 3) * (t ⌈/⌉ 2 ^ (requestE f b t + 3))) := by
  rw [requestBounds, enclose, granule_of_long hlong, down, up]

/-- The steps of a longer request. -/
theorem requestBounds_steps (hlong : 2 ^ (f.mw - 2) ≤ t - b) :
    (requestBounds f b t).1 / 2 ^ requestE f b t = 8 * (b / 2 ^ (requestE f b t + 3))
      ∧ (requestBounds f b t).2 / 2 ^ requestE f b t
        = 8 * (t ⌈/⌉ 2 ^ (requestE f b t + 3)) := by
  have hdiv : ∀ q, 2 ^ (requestE f b t + 3) * q / 2 ^ requestE f b t = 8 * q := fun q => by
    rw [pow_add, mul_assoc, Nat.mul_div_cancel_left _ (Nat.two_pow_pos _)]
    rfl
  rw [requestBounds_of_long hlong]
  exact ⟨hdiv _, hdiv _⟩

end Request

/-- A field that is rounded up. -/
theorem roundedUp (n : ℕ) {w : ℕ} (x : BitVec w) (s : ℕ) :
    (if x.toNat % 2 ^ s ≠ 0 then (x >>> s).setWidth n + 1 else (x >>> s).setWidth n)
      = BitVec.ofNat n (x.toNat ⌈/⌉ 2 ^ s) := by
  rw [shiftRight_setWidth, ceilDiv_eq (Nat.two_pow_pos s)]
  by_cases h : x.toNat % 2 ^ s = 0
  · rw [if_pos h, if_neg (not_not.2 h), add_zero]
  · rw [if_neg h, if_pos h, BitVec.ofNat_add]
    rfl

theorem roundedUp' (n : ℕ) {w : ℕ} (x : BitVec w) (s : ℕ) :
    ((x >>> s).setWidth n + if x.toNat % 2 ^ s ≠ 0 then 1 else 0)
      = BitVec.ofNat n (x.toNat ⌈/⌉ 2 ^ s) := by
  rw [← roundedUp]
  split
  · rfl
  · exact BitVec.add_zero _

/-- What a granule of twice the size loses of a bound. -/
theorem lost_succ (x s : ℕ) :
    (decide (x % 2 ^ s ≠ 0) || (x / 2 ^ s).testBit 0) = decide (x % 2 ^ (s + 1) ≠ 0) := by
  have hpos := Nat.two_pow_pos s
  rw [Nat.pow_succ, Nat.mod_mul, Nat.testBit_zero, ← Bool.decide_or]
  refine decide_eq_decide.2 ?_
  obtain h | h : x / 2 ^ s % 2 = 0 ∨ x / 2 ^ s % 2 = 1 := by omega
  · rw [h]
    omega
  · rw [h]
    omega

theorem lost_succ_up (x s : ℕ) :
    (decide (x % 2 ^ s ≠ 0) || (x ⌈/⌉ 2 ^ s).testBit 0) = decide (x % 2 ^ (s + 1) ≠ 0) := by
  rw [← lost_succ]
  by_cases h : x % 2 ^ s = 0
  · rw [ceilDiv_eq (Nat.two_pow_pos s), if_pos h, add_zero]
  · rw [decide_eq_true h, Bool.true_or, Bool.true_or]

theorem getLsbD_zero_ofNat {n : ℕ} (hn : 0 < n) (q : ℕ) :
    (BitVec.ofNat n q).getLsbD 0 = q.testBit 0 := by
  rw [BitVec.getLsbD_ofNat, decide_eq_true hn, Bool.true_and]

/-- The last step of the rounding, with the granule `2 ^ s`. -/
theorem rounded_eq (c : Capability f) {b t e : ℕ} (base : BitVec f.xlen)
    (hlong : 2 ^ (f.mw - 2) ≤ t - b) (he : BlockRounding.exponent (f.mw - 4) 3 b t = e) :
    ((!(decide (b % 2 ^ (e + 3) ≠ 0) || decide (t % 2 ^ (e + 3) ≠ 0)),
      { c with
        address := base
        E := BitVec.ofNat 6 e
        B := (BitVec.ofNat (f.mw - 3) (b / 2 ^ (e + 3)) ++ 0#3).setWidth f.mw
        T := (BitVec.ofNat (f.mw - 3) (t ⌈/⌉ 2 ^ (e + 3)) ++ 0#3).setWidth f.mw
        internalE := true }) : Bool × Capability f)
      = (decide (requestBounds f b t = (b, t)),
        { c with
          address := base
          E := BitVec.ofNat 6 (requestE f b t)
          B := BitVec.ofNat f.mw ((requestBounds f b t).1 / 2 ^ requestE f b t)
          T := BitVec.ofNat f.mw ((requestBounds f b t).2 / 2 ^ requestE f b t)
          internalE := decide (2 ^ (f.mw - 2) ≤ t - b) }) := by
  have hE : requestE f b t = e := (requestE_eq hlong).trans he
  obtain ⟨hb, ht⟩ := requestBounds_steps (f := f) hlong
  have hexact : (!(decide (b % 2 ^ (e + 3) ≠ 0) || decide (t % 2 ^ (e + 3) ≠ 0)))
      = decide (requestBounds f b t = (b, t)) := by
    rw [← Bool.decide_or, ← decide_not, requestBounds_of_long hlong, hE]
    refine decide_eq_decide.2 ?_
    rw [Prod.mk.injEq]
    show _ ↔ down _ b = b ∧ up _ t = t
    rw [down_eq_iff, up_eq_iff (Nat.two_pow_pos _), Nat.dvd_iff_mod_eq_zero,
      Nat.dvd_iff_mod_eq_zero]
    omega
  rw [hexact, hb, ht, hE, append_zeros, append_zeros, decide_eq_true hlong]

/-- **Setting bounds rounds them**: the circuit computes the exponent of the
request, encloses it, and says whether that changed anything. -/
theorem setCapBounds_eq (c : Capability f) {base : BitVec f.xlen} {top : BitVec (f.xlen + 1)}
    (h : base.toNat ≤ top.toNat) :
    c.setCapBounds base top
      = (decide (requestBounds f base.toNat top.toNat = (base.toNat, top.toNat)),
        { c with
          address := base
          E := BitVec.ofNat 6 (requestE f base.toNat top.toNat)
          B := BitVec.ofNat f.mw ((requestBounds f base.toNat top.toNat).1
            / 2 ^ requestE f base.toNat top.toNat)
          T := BitVec.ofNat f.mw ((requestBounds f base.toNat top.toNat).2
            / 2 ^ requestE f base.toNat top.toNat)
          internalE := decide (2 ^ (f.mw - 2) ≤ top.toNat - base.toNat) }) := by
  have hmw := f.mw_ge
  have hle := f.mw_le
  have hbase : (base.setWidth (f.xlen + 1)).toNat = base.toNat := by
    rw [BitVec.toNat_setWidth, Nat.mod_eq_of_lt (by rw [Nat.pow_succ]; omega)]
  have hlength : (top - base.setWidth (f.xlen + 1)).toNat = top.toNat - base.toNat := by
    rw [BitVec.toNat_sub_of_le (by rw [BitVec.le_def, hbase]; exact h), hbase]
  obtain ⟨hhi, hlo⟩ := capMaxE_sub_clz (top - base.setWidth (f.xlen + 1))
  rw [hlength] at hhi hlo
  unfold setCapBounds
  simp only
  generalize f.capMaxE - ((top - base.setWidth (f.xlen + 1)).extractLsb' (f.mw - 1)
    (f.xlen + 1 - (f.mw - 1))).clz.toNat = e at *
  have hbit : (top - base.setWidth (f.xlen + 1)).getLsbD (f.mw - 2)
      = (top.toNat - base.toNat).testBit (f.mw - 2) := by
    rw [BitVec.getLsbD, hlength]
  rw [hbit, hbase]
  by_cases hshort : top.toNat - base.toNat < 2 ^ (f.mw - 2)
  · have he : e = 0 := by
      by_contra hne
      have h1 := hlo hne
      have h2 : 2 ^ (f.mw - 2) ≤ 2 ^ (e + (f.mw - 2)) :=
        Nat.pow_le_pow_right (by decide) (by omega)
      omega
    rw [he, Nat.testBit_lt_two_pow hshort, requestBounds_of_short hshort,
      requestE_of_short hshort, decide_eq_true rfl, decide_eq_false (not_le.2 hshort)]
    simp only [ne_eq, not_true_eq_false, decide_false, Bool.or_self, if_neg Bool.false_ne_true,
      pow_zero, Nat.div_one, ← BitVec.ofNat_toNat]
  · have hlong := not_lt.1 hshort
    have he : lengthExponent (f.mw - 4) 3 base.toNat top.toNat = e := by
      refine lengthExponent_eq (by omega) ?_ ?_
      · by_cases h0 : e = 0
        · rw [h0, show 0 + 3 + (f.mw - 4 - 1) = f.mw - 2 by omega]
          exact hlong
        · rw [show e + 3 + (f.mw - 4 - 1) = e + (f.mw - 2) by omega]
          exact hlo h0
      · rwa [show e + 3 + (f.mw - 4) = e + (f.mw - 1) by omega]
    have hie : (decide (e ≠ 0) || (top.toNat - base.toNat).testBit (f.mw - 2)) = true := by
      by_cases h0 : e = 0
      · rw [getLsbD_top, decide_eq_true hlong, Bool.or_true]
        rwa [h0, show 0 + (f.mw - 1) = f.mw - 2 + 1 by omega] at hhi
      · rw [decide_eq_true h0, Bool.true_or]
    have hexp : BlockRounding.exponent (f.mw - 4) 3 base.toNat top.toNat
        = if 2 ^ (f.mw - 4) ≤ granules (2 ^ (e + 3)) base.toNat top.toNat then e + 1 else e := by
      rw [BlockRounding.exponent, he]
    have hgranules : granules (2 ^ (e + 3)) base.toNat top.toNat < 2 ^ (f.mw - 4 + 1) := by
      have hlt := granules_lengthExponent_lt (p := f.mw - 4) (k := 3) (by omega) h
        (by rwa [show f.mw - 4 + 3 - 1 = f.mw - 2 by omega])
      rwa [he] at hlt
    have hgrown : (BitVec.ofNat (f.mw - 3) (top.toNat ⌈/⌉ 2 ^ (e + 3))
          - BitVec.ofNat (f.mw - 3) (base.toNat / 2 ^ (e + 3))).getLsbD (f.mw - 4)
        = decide (2 ^ (f.mw - 4) ≤ granules (2 ^ (e + 3)) base.toNat top.toNat) := by
      rw [ofNat_sub_of_le (div_le_ceilDiv (Nat.two_pow_pos _) h), BitVec.getLsbD_ofNat,
        decide_eq_true (by omega), Bool.true_and]
      exact getLsbD_top hgranules
    simp only [hie, if_true, roundedUp, shiftRight_setWidth base, hgrown, decide_eq_true_eq,
      getLsbD_zero_ofNat (show 0 < f.mw - 3 by omega), lost_succ, lost_succ_up]
    split
    · rename_i hover
      rw [if_pos hover] at hexp
      rw [← rounded_eq c base hlong hexp]
      simp only [show e + 4 = e + 1 + 3 from rfl, roundedUp']
    · rename_i hfits
      rw [if_neg hfits] at hexp
      exact rounded_eq c base hlong hexp

/-! ## What a request is given -/

section Request

variable {b t : ℕ}

theorem requestE_le (hbt : b ≤ t) (ht : t ≤ 2 ^ f.xlen) : requestE f b t ≤ f.capMaxE := by
  have hmw := f.mw_ge
  have hle := f.mw_le
  by_cases hshort : t - b < 2 ^ (f.mw - 2)
  · rw [requestE_of_short hshort]
    exact Nat.zero_le _
  · rw [requestE_eq (not_lt.1 hshort), CapFormat.capMaxE]
    refine exponent_le (by omega) hbt ?_ (Nat.dvd_zero _) (Nat.pow_dvd_pow 2 (by omega)) ?_
      (Nat.zero_le b) ht
    · rw [show f.mw - 4 + 3 - 1 = f.mw - 2 by omega]
      exact not_lt.1 hshort
    · exact Nat.pow_lt_pow_right (by decide) (by omega)

/-- The granules of a longer request. -/
theorem granules_request (hbt : b ≤ t) (hlong : 2 ^ (f.mw - 2) ≤ t - b) :
    2 ^ (f.mw - 5) ≤ granules (2 ^ (requestE f b t + 3)) b t
      ∧ granules (2 ^ (requestE f b t + 3)) b t < 2 ^ (f.mw - 4) := by
  have hmw := f.mw_ge
  rw [requestE_eq hlong]
  exact granules_exponent (p := f.mw - 4) (by omega) hbt
    (by rwa [show f.mw - 4 + 3 - 1 = f.mw - 2 by omega])

/-- The length of what a request is given. -/
theorem requestBounds_length (hbt : b ≤ t) :
    (requestBounds f b t).2 - (requestBounds f b t).1 < 2 ^ (requestE f b t + f.mw - 1) := by
  have hmw := f.mw_ge
  by_cases hshort : t - b < 2 ^ (f.mw - 2)
  · rw [requestBounds_of_short hshort, requestE_of_short hshort]
    exact lt_trans hshort (Nat.pow_lt_pow_right (by decide) (by omega))
  · have hlong := not_lt.1 hshort
    obtain ⟨-, hfew⟩ := granules_request hbt hlong
    show up (granule _ _ _ _) t - down (granule _ _ _ _) b < _
    rw [granule_of_long hlong, ← mul_granules,
      show requestE f b t + f.mw - 1 = requestE f b t + 3 + (f.mw - 4) by omega,
      pow_add _ _ (f.mw - 4)]
    exact Nat.mul_lt_mul_of_pos_left hfew (Nat.two_pow_pos _)

theorem granule_le (b t : ℕ) : granule (f.mw - 4) 3 b t ≤ 2 ^ (requestE f b t + 3) := by
  by_cases hshort : t - b < 2 ^ (f.mw - 2)
  · have hmw := f.mw_ge
    rw [granule, if_pos (by rwa [show f.mw - 4 + 3 - 1 = f.mw - 2 by omega])]
    exact Nat.one_le_two_pow
  · exact (granule_of_long (not_lt.1 hshort)).le

theorem two_pow_requestE_dvd (b t : ℕ) :
    2 ^ requestE f b t ∣ granule (f.mw - 4) 3 b t := by
  by_cases hshort : t - b < 2 ^ (f.mw - 2)
  · rw [requestE_of_short hshort]
    exact one_dvd _
  · rw [granule_of_long (not_lt.1 hshort)]
    exact Nat.pow_dvd_pow 2 (by omega)

end Request

section Result

variable (c : Capability f) {base : BitVec f.xlen} {top : BitVec (f.xlen + 1)}

/-- The exponent of the result. -/
theorem exponent_setCapBounds (hE : f.capMaxE < 64) (h : base.toNat ≤ top.toNat)
    (htop : top.toNat ≤ 2 ^ f.xlen) :
    (c.setCapBounds base top).2.exponent = requestE f base.toNat top.toNat := by
  have hle := requestE_le h htop
  rw [setCapBounds_eq c h, Capability.exponent]
  show min f.capMaxE (BitVec.ofNat 6 _).toNat = _
  rw [BitVec.toNat_ofNat, Nat.mod_eq_of_lt (by omega), Nat.min_eq_right hle]

/-- **The result places the bounds of the request.** -/
theorem places_setCapBounds (hE : f.capMaxE < 64) (h : base.toNat ≤ top.toNat)
    (htop : top.toNat ≤ 2 ^ f.xlen) :
    (c.setCapBounds base top).2.Places (requestBounds f base.toNat top.toNat).1
      (requestBounds f base.toNat top.toNat).2 := by
  have hmw := f.mw_ge
  have hexp := exponent_setCapBounds c hE h htop
  have hlow : (requestBounds f base.toNat top.toNat).1 ≤ base.toNat := enclose_fst_le _ _ _ _
  have hhigh : top.toNat ≤ (requestBounds f base.toNat top.toNat).2 := le_enclose_snd _ _ _ _
  have hdvd := two_pow_requestE_dvd (f := f) base.toNat top.toNat
  have hdvdBase := hdvd.trans (dvd_down _ base.toNat)
  have hB : (c.setCapBounds base top).2.B.toNat
      = (requestBounds f base.toNat top.toNat).1 / 2 ^ (c.setCapBounds base top).2.exponent
        % 2 ^ f.mw := by
    rw [hexp, setCapBounds_eq c h]
    exact BitVec.toNat_ofNat _ _
  refine ⟨by omega, lt_of_le_of_lt hlow base.isLt, enclose_snd_le (by omega) h htop, ?_, ?_, hB,
    ?_, ?_, ?_⟩
  · rw [hexp]
    exact hdvdBase
  · rw [hexp]
    exact hdvd.trans (dvd_up _ top.toNat)
  · rw [hexp, setCapBounds_eq c h]
    exact BitVec.toNat_ofNat _ _
  · rw [hexp]
    exact requestBounds_length h
  · have haddr : (c.setCapBounds base top).2.address = base := by
      rw [setCapBounds_eq c h]
    rw [region, haddr]
    refine near_of_le (by rw [hexp]; exact hdvdBase) hB hlow ?_
    rw [hexp]
    have hnear := lt_down_add (granule_pos (f.mw - 4) 3 base.toNat top.toNat) base.toNat
    have hgranule := granule_le (f := f) base.toNat top.toNat
    have hroom : 2 ^ (requestE f base.toNat top.toNat + 3)
        ≤ 2 ^ (requestE f base.toNat top.toNat + f.mw - 1) :=
      Nat.pow_le_pow_right (by decide) (by omega)
    exact lt_of_lt_of_le hnear (Nat.add_le_add_left (hgranule.trans hroom) _)

/-- **The bounds that are set** are those of the request. -/
theorem getCapBounds_setCapBounds (hE : f.capMaxE < 64) (h : base.toNat ≤ top.toNat)
    (htop : top.toNat ≤ 2 ^ f.xlen) :
    (c.setCapBounds base top).2.getCapBounds = requestBounds f base.toNat top.toNat :=
  (places_setCapBounds c hE h htop).getCapBounds

end Result

/-! ## Well formed capabilities -/

/-- **What the compressed form can say** of the bounds: without an internal
exponent the length is short, with one it has its leading bit where the
exponent puts it, and the low bits have made way. -/
structure Canonical (c : Capability f) : Prop where
  short : c.internalE = false → c.E = 0 ∧ (c.T - c.B).toNat < 2 ^ (f.mw - 2)
  low : c.internalE = true → 8 ∣ c.B.toNat ∧ 8 ∣ c.T.toNat
  long : c.internalE = true →
    2 ^ (f.mw - 2) ≤ (c.T - c.B).toNat ∧ (c.T - c.B).toNat < 2 ^ (f.mw - 1)

/-- **A capability that is well formed**: its fields are those of a compressed
one, and its bounds are an interval of the address space. -/
structure WellFormed (c : Capability f) : Prop extends c.Canonical where
  le : c.getCapBase ≤ c.getCapTop
  top_le : c.getCapTop ≤ 2 ^ f.xlen

theorem Canonical.length_lt (h : c.Canonical) : (c.T - c.B).toNat < 2 ^ (f.mw - 1) := by
  have hmw := f.mw_ge
  cases hie : c.internalE with
  | false => exact lt_trans (h.short hie).2 (Nat.pow_lt_pow_right (by decide) (by omega))
  | true => exact (h.long hie).2

/-- The correction of middle bits counts the regions below them. -/
theorem hi_eq_neg_ediv (c : Capability f) (mid : BitVec f.mw) :
    c.hi (mid.extractLsb' (f.mw - 3) 3) = -((mid.toNat - c.limitMid : ℤ) / 2 ^ f.mw) := by
  have hlt := c.limitMid_lt
  have hmid := mid.isLt
  zify at hlt hmid
  rw [hi_mid]
  split
  · rename_i h
    zify at h
    rw [ediv_of_position (k := -1) (q := mid.toNat - c.limitMid + 2 ^ f.mw) (by ring)
      (by linarith) (by linarith)]
    rfl
  · rename_i h
    have h := not_lt.1 h
    zify at h
    rw [ediv_of_position (k := 0) (q := mid.toNat - c.limitMid) (by ring) (by linarith)
      (by linarith)]
    rfl

/-- The region of the address puts base and top where their middle bits say,
the top as far from the base as they are apart. -/
theorem Canonical.exists_raw (h : c.Canonical) :
    ∃ (q : ℕ) (y : ℤ), 0 < q ∧ q < 2 * 2 ^ (f.mw - 3)
      ∧ y = c.region c.address * 2 ^ f.mw + c.limitMid + q
      ∧ c.rawBound c.B = BitVec.ofInt (f.xlen + 1) (y * 2 ^ c.exponent)
      ∧ c.rawBound c.T = BitVec.ofInt (f.xlen + 1) ((y + (c.T - c.B).toNat) * 2 ^ c.exponent)
      ∧ (c.internalE = true → 8 ∣ y) := by
  have hmw := f.mw_ge
  have height := eight_mul_two_pow f
  have hhalf := two_pow_mw_pred f
  have hd := h.length_lt
  have hT : c.T.toNat = (c.B.toNat + (c.T - c.B).toNat) % 2 ^ f.mw := by
    rw [← BitVec.toNat_add, BitVec.add_comm, BitVec.sub_add_cancel]
  have hB := c.B.isLt
  obtain ⟨k, q, hq, hq', hpos⟩ := exists_base_position (Nat.mod_eq_of_lt hB).symm
  have hquot : (c.B.toNat - c.limitMid : ℤ) / 2 ^ f.mw = k :=
    ediv_of_position hpos (by positivity) (by exact_mod_cast (show q < 2 ^ f.mw by omega))
  have hsplit := Nat.div_add_mod (c.B.toNat + (c.T - c.B).toNat) (2 ^ f.mw)
  rw [← hT] at hsplit
  generalize (c.B.toNat + (c.T - c.B).toNat) / 2 ^ f.mw = j at hsplit
  zify at hsplit
  have hposT : (c.T.toNat - c.limitMid : ℤ) = (k - j) * 2 ^ f.mw + (q + (c.T - c.B).toNat : ℕ) := by
    push_cast
    linarith
  have hquotT : (c.T.toNat - c.limitMid : ℤ) / 2 ^ f.mw = k - j :=
    ediv_of_position hposT (by positivity)
      (by exact_mod_cast (show q + (c.T - c.B).toNat < 2 ^ f.mw by omega))
  refine ⟨q, (c.region c.address - k) * 2 ^ f.mw + c.B.toNat,
    lt_of_lt_of_le (Nat.two_pow_pos _) hq, hq', by linarith, ?_, ?_, ?_⟩
  · rw [rawBound_eq, setWidth_ofInt_append (by omega), hi_eq_neg_ediv, hquot]
    congr 2
  · rw [rawBound_eq, setWidth_ofInt_append (by omega), hi_eq_neg_ediv, hquotT]
    congr 2
    linarith
  · intro hie
    obtain ⟨m, hm⟩ := (h.low hie).1
    zify at hm height
    rw [hm, height]
    exact ⟨(c.region c.address - k) * 2 ^ (f.mw - 3) + m, by ring⟩

/-- The correction of the top leaves the bits below it alone. -/
theorem setWidth_fixTop (base top : BitVec (f.xlen + 1)) :
    (fixTop base top).setWidth f.xlen = top.setWidth f.xlen := by
  apply BitVec.eq_of_getLsbD_eq
  intro i hi
  rw [BitVec.getLsbD_setWidth, BitVec.getLsbD_setWidth, getLsbD_fixTop base top (by omega),
    if_neg (by omega)]

theorem emod_toNat_ofInt {n w : ℕ} (hn : n ≤ w) (z : ℤ) :
    ((BitVec.ofInt w z).toNat : ℤ) ≡ z [ZMOD 2 ^ n] := by
  rw [BitVec.toNat_ofInt, Int.toNat_of_nonneg (Int.emod_nonneg _ (by positivity))]
  refine Int.ModEq.of_dvd ?_ (Int.mod_modEq z (2 ^ w : ℕ))
  push_cast
  exact pow_dvd_pow 2 hn

/-- **The bounds up to the size of the address space.** -/
theorem Canonical.exists_bounds (h : c.Canonical) :
    ∃ (q : ℕ) (y : ℤ), 0 < q ∧ q < 2 * 2 ^ (f.mw - 3)
      ∧ y = c.region c.address * 2 ^ f.mw + c.limitMid + q
      ∧ (c.getCapBase : ℤ) ≡ y * 2 ^ c.exponent [ZMOD 2 ^ f.xlen]
      ∧ (c.getCapTop : ℤ) ≡ (y + (c.T - c.B).toNat) * 2 ^ c.exponent [ZMOD 2 ^ f.xlen]
      ∧ (c.internalE = true → 8 ∣ y) := by
  obtain ⟨q, y, hq, hq', hpos, hbase, htop, hy⟩ := h.exists_raw
  refine ⟨q, y, hq, hq', hpos, ?_, ?_, hy⟩
  · show (((c.rawBound c.B).setWidth f.xlen).toNat : ℤ) ≡ _ [ZMOD _]
    rw [hbase, setWidth_ofInt (Nat.le_succ _)]
    exact emod_toNat_ofInt le_rfl _
  · have hlow : ∀ x : BitVec (f.xlen + 1), x.setWidth f.xlen = (c.rawBound c.T).setWidth f.xlen →
        (x.toNat : ℤ) ≡ (y + (c.T - c.B).toNat) * 2 ^ c.exponent [ZMOD 2 ^ f.xlen] := by
      intro x hx
      have hnat := congrArg BitVec.toNat hx
      rw [BitVec.toNat_setWidth, BitVec.toNat_setWidth, htop] at hnat
      have hx' : (x.toNat : ℤ) ≡ (BitVec.ofInt (f.xlen + 1) ((y + (c.T - c.B).toNat)
          * 2 ^ c.exponent)).toNat [ZMOD 2 ^ f.xlen] := by
        exact_mod_cast hnat
      exact hx'.trans (emod_toNat_ofInt (Nat.le_succ _) _)
    show ((if c.exponent < f.capMaxE - 1 then fixTop (c.rawBound c.B) (c.rawBound c.T)
      else c.rawBound c.T).toNat : ℤ) ≡ _ [ZMOD _]
    split
    · exact hlow _ (setWidth_fixTop _ _)
    · exact hlow _ rfl

/-- A length known up to the size of the address space. -/
theorem length_cases {b t D N : ℕ} (hle : b ≤ t) (ht : t ≤ N) (hD : D < N)
    (h : (t - b : ℤ) ≡ D [ZMOD N]) : t = b + D ∨ D = 0 ∧ b = 0 ∧ t = N := by
  obtain ⟨d, rfl⟩ := Nat.exists_eq_add_of_le hle
  have hmod : d ≡ D [MOD N] := by
    rw [← Int.natCast_modEq_iff]
    push_cast at h
    rwa [add_sub_cancel_left] at h
  obtain hlt | rfl := (show d ≤ N by omega).lt_or_eq
  · left
    rw [Nat.ModEq, Nat.mod_eq_of_lt hlt, Nat.mod_eq_of_lt hD] at hmod
    omega
  · right
    rw [Nat.ModEq, Nat.mod_self, Nat.mod_eq_of_lt hD] at hmod
    omega

/-- A capability that starts at zero and is not a whole region long does not
end where the address space does, if the correction of the top applies. -/
theorem getCapTop_ne (hE : c.exponent < f.capMaxE - 1) (hbase : c.getCapBase = 0) :
    c.getCapTop ≠ 2 ^ f.xlen := by
  have hpos := xlen_pos f
  intro htop
  have hbit : (c.rawBound c.B).getLsbD (f.xlen - 1) = false := by
    have hzero : (c.rawBound c.B).setWidth f.xlen = 0#f.xlen := BitVec.eq_of_toNat_eq hbase
    have := congrArg (fun x => x.getLsbD (f.xlen - 1)) hzero
    simpa [BitVec.getLsbD_setWidth, hpos] using this
  have hfix : c.getCapTop = (fixTop (c.rawBound c.B) (c.rawBound c.T)).toNat := by
    show (if c.exponent < f.capMaxE - 1 then fixTop (c.rawBound c.B) (c.rawBound c.T)
      else c.rawBound c.T).toNat = _
    rw [if_pos hE]
  have hmsb := getLsbD_fixTop (c.rawBound c.B) (c.rawBound c.T) (i := f.xlen) (by omega)
  rw [if_pos rfl, hbit, Bool.and_false, BitVec.getLsbD, ← hfix, htop, Nat.testBit_two_pow_self]
    at hmsb
  cases hmsb

/-- **The length of a well formed capability**, but for the largest exponent,
is that of its middle bits. -/
theorem WellFormed.getCapTop_eq (h : c.WellFormed) (hE : c.exponent < f.capMaxE) :
    c.getCapTop = c.getCapBase + (c.T - c.B).toNat * 2 ^ c.exponent := by
  have hmw := f.mw_ge
  have hle := f.mw_le
  have hmax : f.capMaxE = f.xlen + 1 - f.mw + 1 := rfl
  have hpos := Nat.two_pow_pos c.exponent
  obtain ⟨-, y, -, -, -, hbase, htop, -⟩ := h.exists_bounds
  have hdiff : (c.getCapTop - c.getCapBase : ℤ)
      ≡ ((c.T - c.B).toNat * 2 ^ c.exponent : ℕ) [ZMOD (2 ^ f.xlen : ℕ)] := by
    have := htop.sub hbase
    rw [← sub_mul, add_sub_cancel_left] at this
    exact_mod_cast this
  have hlen : (c.T - c.B).toNat * 2 ^ c.exponent < 2 ^ f.xlen := by
    have hlt := Nat.mul_lt_mul_of_pos_right h.length_lt hpos
    rw [← pow_add] at hlt
    exact lt_of_lt_of_le hlt (Nat.pow_le_pow_right (by decide) (by omega))
  obtain hlen' | ⟨hempty, hb, ht⟩ := length_cases h.le h.top_le hlen hdiff
  · exact hlen'
  · cases hie : c.internalE with
    | true =>
      have hlo := Nat.mul_pos (lt_of_lt_of_le (Nat.two_pow_pos _) (h.long hie).1) hpos
      omega
    | false =>
      have hzero : c.exponent = 0 := by
        rw [Capability.exponent, (h.short hie).1]
        exact Nat.min_zero _
      exact absurd ht (getCapTop_ne (by omega) hb)

/-- **A well formed capability has bounds the format holds.** -/
theorem WellFormed.representable (h : c.WellFormed) :
    Representable (f.mw - 4) 3 c.getCapBase c.getCapTop := by
  have hmw := f.mw_ge
  have hle := f.mw_le
  have hmax : f.capMaxE = f.xlen + 1 - f.mw + 1 := rfl
  have hexp : c.exponent ≤ f.capMaxE := Nat.min_le_left _ _
  cases hie : c.internalE with
  | false =>
    obtain ⟨hE, hd⟩ := h.short hie
    have hzero : c.exponent = 0 := by
      rw [Capability.exponent, hE]
      exact Nat.min_zero _
    have hlen := h.getCapTop_eq (by omega)
    rw [hzero, pow_zero, mul_one] at hlen
    left
    rw [show f.mw - 4 + 3 - 1 = f.mw - 2 by omega]
    omega
  | true =>
    obtain ⟨hB8, hT8⟩ := h.low hie
    obtain ⟨-, y, -, -, -, hbase, htop, hy⟩ := h.exists_bounds
    have hgranule : 2 ^ (c.exponent + 3) ∣ 2 ^ f.xlen := Nat.pow_dvd_pow 2 (by omega)
    have hcut : ∀ {x : ℕ} {z : ℤ}, (x : ℤ) ≡ z * 2 ^ c.exponent [ZMOD 2 ^ f.xlen] → 8 ∣ z →
        2 ^ (c.exponent + 3) ∣ x := by
      intro x z hx hz
      have hdvd : (2 : ℤ) ^ (c.exponent + 3) ∣ z * 2 ^ c.exponent := by
        rw [pow_add, mul_comm]
        exact mul_dvd_mul_right hz _
      have hspace : (2 : ℤ) ^ (c.exponent + 3) ∣ 2 ^ f.xlen := by exact_mod_cast hgranule
      have := (Int.ModEq.of_dvd hspace hx).dvd
      have hx' := (Int.dvd_iff_dvd_of_dvd_sub this).1 hdvd
      exact_mod_cast hx'
    have hd8 : 8 ∣ (c.T - c.B).toNat := by
      have hM8 : 8 ∣ 2 ^ f.mw := ⟨_, eight_mul_two_pow f⟩
      rw [BitVec.toNat_sub, Nat.dvd_mod_iff hM8]
      exact Nat.dvd_add (Nat.dvd_sub hM8 hB8) hT8
    refine Or.inr ⟨c.exponent, hcut hbase (hy hie), hcut htop ?_, ?_⟩
    · exact Int.dvd_add (hy hie) (by exact_mod_cast hd8)
    · obtain hmaxE | hltE := hexp.eq_or_lt
      · -- with the largest exponent any length of the address space will do
        have hspace : 2 ^ f.xlen < 2 ^ (c.exponent + 3 + (f.mw - 4)) :=
          Nat.pow_lt_pow_right (by decide) (by omega)
        have := h.top_le
        omega
      · rw [h.getCapTop_eq hltE, Nat.add_sub_cancel_left,
          show c.exponent + 3 + (f.mw - 4) = f.mw - 1 + c.exponent by omega, pow_add]
        exact Nat.mul_lt_mul_of_pos_right h.length_lt (Nat.two_pow_pos _)

/-- **What is set is canonical.** -/
theorem canonical_setCapBounds (c : Capability f) {base : BitVec f.xlen}
    {top : BitVec (f.xlen + 1)} (h : base.toNat ≤ top.toNat) :
    (c.setCapBounds base top).2.Canonical := by
  have hmw := f.mw_ge
  have height := eight_mul_two_pow f
  have hM8 : 8 ∣ 2 ^ f.mw := ⟨_, height⟩
  rw [setCapBounds_eq c h]
  by_cases hshort : top.toNat - base.toNat < 2 ^ (f.mw - 2)
  · have hlt : 2 ^ (f.mw - 2) < 2 ^ f.mw := Nat.pow_lt_pow_right (by decide) (by omega)
    rw [requestE_of_short hshort, requestBounds_of_short hshort,
      decide_eq_false (not_le.2 hshort)]
    refine ⟨fun _ => ⟨rfl, ?_⟩, fun hie => (by cases hie), fun hie => (by cases hie)⟩
    show (BitVec.ofNat f.mw (top.toNat / 2 ^ 0) - BitVec.ofNat f.mw (base.toNat / 2 ^ 0)).toNat < _
    rw [pow_zero, Nat.div_one, Nat.div_one, ofNat_sub_of_le h, BitVec.toNat_ofNat,
      Nat.mod_eq_of_lt (by omega)]
    exact hshort
  · have hlong := not_lt.1 hshort
    obtain ⟨hlo, hhi⟩ := granules_request h hlong
    obtain ⟨hb, ht⟩ := requestBounds_steps (f := f) hlong
    rw [hb, ht, decide_eq_true hlong]
    generalize requestE f base.toNat top.toNat = e at *
    have hmany : 8 * 2 ^ (f.mw - 5) = 2 ^ (f.mw - 2) := by
      rw [show (8 : ℕ) = 2 ^ 3 from rfl, ← pow_add]
      congr 1
      omega
    have hfew : 8 * 2 ^ (f.mw - 4) = 2 ^ (f.mw - 1) := by
      rw [show (8 : ℕ) = 2 ^ 3 from rfl, ← pow_add]
      congr 1
      omega
    have hlt : 2 ^ (f.mw - 1) < 2 ^ f.mw := Nat.pow_lt_pow_right (by decide) (by omega)
    have hlen : (BitVec.ofNat f.mw (8 * (top.toNat ⌈/⌉ 2 ^ (e + 3)))
        - BitVec.ofNat f.mw (8 * (base.toNat / 2 ^ (e + 3)))).toNat
        = 8 * granules (2 ^ (e + 3)) base.toNat top.toNat := by
      rw [ofNat_sub_of_le (Nat.mul_le_mul_left 8 (div_le_ceilDiv (Nat.two_pow_pos _) h)),
        ← Nat.mul_sub, ← granules, BitVec.toNat_ofNat, Nat.mod_eq_of_lt (by omega)]
    refine ⟨fun hie => (by cases hie), fun _ => ⟨?_, ?_⟩, fun _ => ?_⟩
    · show 8 ∣ (BitVec.ofNat f.mw (8 * _)).toNat
      rw [BitVec.toNat_ofNat, Nat.dvd_mod_iff hM8]
      exact Nat.dvd_mul_right _ _
    · show 8 ∣ (BitVec.ofNat f.mw (8 * _)).toNat
      rw [BitVec.toNat_ofNat, Nat.dvd_mod_iff hM8]
      exact Nat.dvd_mul_right _ _
    · show _ ≤ (BitVec.ofNat f.mw (8 * _) - BitVec.ofNat f.mw (8 * _)).toNat
        ∧ (BitVec.ofNat f.mw (8 * _) - BitVec.ofNat f.mw (8 * _)).toNat < _
      rw [hlen]
      omega

/-- **What is set is well formed.** -/
theorem wellFormed_setCapBounds (c : Capability f) {base : BitVec f.xlen}
    {top : BitVec (f.xlen + 1)} (hE : f.capMaxE < 64) (h : base.toNat ≤ top.toNat)
    (htop : top.toNat ≤ 2 ^ f.xlen) : (c.setCapBounds base top).2.WellFormed := by
  have hplaces := places_setCapBounds c hE h htop
  have hbounds := hplaces.getCapBounds
  refine ⟨canonical_setCapBounds c h, ?_, ?_⟩
  · rw [getCapBase, getCapTop, hbounds]
    exact hplaces.le
  · rw [getCapTop, hbounds]
    exact hplaces.top_le

/-- **What is set is the least that there is.** The bounds of the result hold
the request, no well formed capability that holds the request has tighter ones,
and the result is called exact when they are those of the request. -/
theorem setCapBounds_least (c : Capability f) {base : BitVec f.xlen}
    {top : BitVec (f.xlen + 1)} (hE : f.capMaxE < 64) (h : base.toNat ≤ top.toNat)
    (htop : top.toNat ≤ 2 ^ f.xlen) :
    (c.setCapBounds base top).2.WellFormed
      ∧ (c.setCapBounds base top).2.getCapBase ≤ base.toNat
      ∧ top.toNat ≤ (c.setCapBounds base top).2.getCapTop
      ∧ (∀ d : Capability f, d.WellFormed → d.getCapBase ≤ base.toNat → top.toNat ≤ d.getCapTop →
        d.getCapBase ≤ (c.setCapBounds base top).2.getCapBase
          ∧ (c.setCapBounds base top).2.getCapTop ≤ d.getCapTop)
      ∧ ((c.setCapBounds base top).1 = true ↔
        (c.setCapBounds base top).2.getCapBounds = (base.toNat, top.toNat)) := by
  have hmw := f.mw_ge
  have hbounds := getCapBounds_setCapBounds c hE h htop
  rw [getCapBase, getCapTop, hbounds]
  refine ⟨wellFormed_setCapBounds c hE h htop, enclose_fst_le _ _ _ _, le_enclose_snd _ _ _ _,
    fun d hd hb ht => enclose_least (by omega) h hd.representable hb ht, ?_⟩
  rw [setCapBounds_eq c h]
  exact decide_eq_true_iff

/-- Two pages and a bit, on the 32-bit machine: whatever holds them holds the
quarter of a page before their end. -/
theorem setCapBounds_least_pages :
    ((defaultCap .cheri64).setCapBounds 0x1001#32 0x3003#33).1 = false
      ∧ ∀ d : Capability .cheri64, d.WellFormed → d.getCapBase ≤ 0x1001 →
        0x3003 ≤ d.getCapTop → d.getCapBase ≤ 0x1000 ∧ 0x3400 ≤ d.getCapTop := by
  have hbounds : ((defaultCap .cheri64).setCapBounds 0x1001#32 0x3003#33).2.getCapBounds
      = (0x1000, 0x3400) := by decide
  have hleast := (@setCapBounds_least .cheri64 (defaultCap .cheri64) 0x1001#32 0x3003#33
    (by decide) (by decide) (by decide)).2.2.2.1
  rw [getCapBase, getCapTop, hbounds] at hleast
  exact ⟨by decide, hleast⟩

end Capability

end Sail
