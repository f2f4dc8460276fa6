import Mathlib.Data.Set.Basic
import Mathlib.Order.Interval.Set.Basic
import Mathlib.Order.CompletePartialOrder
import Mathlib.Tactic.Ring
import Mathlib.Tactic.Linarith

/-!
# Byte ranges over the integers

A capability names a base and a length, and hardware compares the *sums* of
such fields in a fixed width. What the fields mean is a set of bytes: the
half-open range `[base, base + length)` of the natural numbers, with no
modulus anywhere. This module is about that meaning: when two ranges share a
byte, when one lies inside another, and what a comparison of two sums taken
modulo `M` says about the sums themselves.

The last part is the one that matters to a checker. A comparison of wrapped
sums agrees with the comparison of the sums unless *exactly one* of them
passes the modulus, and `add_mod_le_iff` says which side of that is unsound.
-/

/-- **A range of bytes**, given by its first byte and its length. -/
@[ext] structure ByteRange where
  /-- The first byte. -/
  base : ℕ
  /-- The number of bytes. -/
  length : ℕ
deriving DecidableEq, Repr

namespace ByteRange

/-- The first byte past the range. -/
def top (r : ByteRange) : ℕ := r.base + r.length

/-- The bytes of the range. -/
def bytes (r : ByteRange) : Set ℕ := Set.Ico r.base r.top

/-- **Two ranges meet** when they share a byte. -/
def Meets (r s : ByteRange) : Prop := (r.bytes ∩ s.bytes).Nonempty

/-- **One range lies within another** when all its bytes do. -/
def Within (r s : ByteRange) : Prop := r.bytes ⊆ s.bytes

theorem mem_bytes {r : ByteRange} {b : ℕ} :
    b ∈ r.bytes ↔ r.base ≤ b ∧ b < r.base + r.length :=
  Iff.rfl

/-- Two ranges meet when each one starts below the end of the other, and
neither is empty. -/
theorem meets_iff {r s : ByteRange} :
    r.Meets s ↔ r.base < s.top ∧ s.base < r.top ∧ 0 < r.length ∧ 0 < s.length := by
  unfold Meets top
  constructor
  · rintro ⟨b, hr, hs⟩
    rw [mem_bytes] at hr hs
    omega
  · intro h
    refine ⟨max r.base s.base, ?_, ?_⟩
    · rw [mem_bytes]
      omega
    · rw [mem_bytes]
      omega

/-- Two ranges are disjoint when one ends before the other starts, or one is
empty. -/
theorem disjoint_bytes_iff {r s : ByteRange} :
    Disjoint r.bytes s.bytes ↔
      r.top ≤ s.base ∨ s.top ≤ r.base ∨ r.length = 0 ∨ s.length = 0 := by
  rw [Set.disjoint_iff_inter_eq_empty, ← Set.not_nonempty_iff_eq_empty]
  show ¬ r.Meets s ↔ _
  rw [meets_iff]
  omega

/-- A range lies within another when it is empty or its two ends are inside. -/
theorem within_iff {r s : ByteRange} :
    r.Within s ↔ r.length = 0 ∨ (s.base ≤ r.base ∧ r.top ≤ s.top) := by
  unfold Within top
  constructor
  · intro h
    rcases Nat.eq_zero_or_pos r.length with h0 | hpos
    · exact Or.inl h0
    · have hfirst := h (mem_bytes.mpr ⟨le_refl r.base, by omega⟩)
      have hlast := h (show r.base + r.length - 1 ∈ r.bytes from
        mem_bytes.mpr ⟨by omega, by omega⟩)
      rw [mem_bytes] at hfirst hlast
      omega
  · intro h b hb
    rw [mem_bytes] at hb ⊢
    omega

instance (r s : ByteRange) : Decidable (r.Meets s) :=
  decidable_of_iff _ meets_iff.symm

instance (r s : ByteRange) : Decidable (r.Within s) :=
  decidable_of_iff _ within_iff.symm

theorem Meets.symm {r s : ByteRange} (h : r.Meets s) : s.Meets r := by
  unfold Meets
  rw [Set.inter_comm]
  exact h

theorem meets_comm {r s : ByteRange} : r.Meets s ↔ s.Meets r :=
  ⟨Meets.symm, Meets.symm⟩

theorem Within.refl (r : ByteRange) : r.Within r := Set.Subset.refl _

theorem Within.trans {r s t : ByteRange} (h : r.Within s) (h' : s.Within t) :
    r.Within t :=
  Set.Subset.trans h h'

end ByteRange

/-! ## Comparing sums modulo `M` -/

/-- **A comparison of wrapped sums, read over the integers.** Where both
summands stay below the modulus, a sum taken modulo `M` is at most another
one exactly when the sums compare that way, or the left one alone passes the
modulus and what is left of it is small, or the right one does not wrap while
the left one does not either. -/
theorem add_mod_le_iff {M a r b l : ℕ} (ha : a < M) (hr : r < M) (hb : b < M)
    (hl : l < M) :
    (a + r) % M ≤ (b + l) % M ↔
      (a + r < M ∧ b + l < M ∧ a + r ≤ b + l)
        ∨ (a + r < M ∧ M ≤ b + l ∧ a + r + M ≤ b + l)
        ∨ (M ≤ a + r ∧ b + l < M ∧ a + r ≤ b + l + M)
        ∨ (M ≤ a + r ∧ M ≤ b + l ∧ a + r ≤ b + l) := by
  have hmod : ∀ {x y : ℕ}, x < M → y < M →
      ((x + y < M ∧ (x + y) % M = x + y) ∨ (M ≤ x + y ∧ (x + y) % M = x + y - M)) := by
    intro x y hx hy
    rcases Nat.lt_or_ge (x + y) M with h | h
    · exact Or.inl ⟨h, Nat.mod_eq_of_lt h⟩
    · refine Or.inr ⟨h, ?_⟩
      rw [Nat.mod_eq_sub_mod h, Nat.mod_eq_of_lt (by omega)]
  rcases hmod ha hr with ⟨h₁, e₁⟩ | ⟨h₁, e₁⟩ <;>
    rcases hmod hb hl with ⟨h₂, e₂⟩ | ⟨h₂, e₂⟩ <;>
    rw [e₁, e₂] <;> omega
