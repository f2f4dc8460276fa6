import Mathlib.Data.Set.Lattice
import CheriTree.ByteRange

/-!
# Pieces cut off the front of a range

An allocator that only ever gives has one range left and cuts each piece off
its front. What is to be said of it does not depend on how it computes: the
pieces and the rest make up the whole, and no two of them share a byte.
`Carved` says so of a whole, a rest and the pieces so far; it holds at the
start (`Carved.start`), and cutting keeps it (`Carved.cut`). Where nothing is
said of the whole, `Separate` is what is left of it, and a piece may be given
from anywhere in the rest (`Separate.give`).
-/

namespace ByteRange

/-- The first `n` bytes of a range. -/
def take (r : ByteRange) (n : ℕ) : ByteRange := ⟨r.base, n⟩

/-- A range without its first `n` bytes. -/
def drop (r : ByteRange) (n : ℕ) : ByteRange := ⟨r.base + n, r.length - n⟩

theorem mem_take {r : ByteRange} {n b : ℕ} :
    b ∈ (r.take n).bytes ↔ r.base ≤ b ∧ b < r.base + n :=
  Iff.rfl

theorem mem_drop {r : ByteRange} {n b : ℕ} :
    b ∈ (r.drop n).bytes ↔ r.base + n ≤ b ∧ b < r.base + n + (r.length - n) :=
  Iff.rfl

theorem take_union_drop (r : ByteRange) {n : ℕ} (h : n ≤ r.length) :
    (r.take n).bytes ∪ (r.drop n).bytes = r.bytes := by
  ext b
  rw [Set.mem_union, mem_take, mem_drop, mem_bytes]
  omega

theorem disjoint_take_drop (r : ByteRange) (n : ℕ) :
    Disjoint (r.take n).bytes (r.drop n).bytes := by
  rw [Set.disjoint_left]
  intro b hb hb'
  rw [mem_take] at hb
  rw [mem_drop] at hb'
  omega

end ByteRange

/-- **Separate**: nothing is in two of the pieces, or in one of them and the
rest. -/
structure Separate (rest : ByteRange) (pieces : List ByteRange) : Prop where
  apart : pieces.Pairwise fun p q => Disjoint p.bytes q.bytes
  rest_apart : ∀ p ∈ pieces, Disjoint p.bytes rest.bytes

namespace Separate

variable {rest rest' piece : ByteRange} {pieces : List ByteRange}

/-- Before the first piece. -/
theorem start (r : ByteRange) : Separate r [] where
  apart := List.Pairwise.nil
  rest_apart := fun _ hp => absurd hp List.not_mem_nil

/-- **One piece more**, out of the rest and beside what is left of it. -/
theorem give (h : Separate rest pieces) (hpiece : piece.Within rest) (hrest : rest'.Within rest)
    (hdisj : Disjoint piece.bytes rest'.bytes) : Separate rest' (pieces ++ [piece]) where
  apart := by
    rw [List.pairwise_append]
    refine ⟨h.apart, List.pairwise_singleton _ _, fun p hp q hq => ?_⟩
    rw [List.mem_singleton.1 hq]
    exact (h.rest_apart p hp).mono_right hpiece
  rest_apart := by
    intro p hp
    rcases List.mem_append.1 hp with hp | hp
    · exact (h.rest_apart p hp).mono_right hrest
    · rw [List.mem_singleton.1 hp]
      exact hdisj

end Separate

/-- **Cut into pieces**: the pieces and the rest are the whole, and nothing is
in two of them. -/
structure Carved (whole : Set ℕ) (rest : ByteRange) (pieces : List ByteRange) : Prop
    extends Separate rest pieces where
  covers : ∀ b, b ∈ whole ↔ b ∈ rest.bytes ∨ ∃ p ∈ pieces, b ∈ p.bytes

namespace Carved

variable {whole : Set ℕ} {rest : ByteRange} {pieces : List ByteRange}

/-- Before the first cut. -/
theorem start (r : ByteRange) : Carved r.bytes r [] where
  toSeparate := Separate.start r
  covers b := by simp

/-- **A cut.** -/
theorem cut (h : Carved whole rest pieces) {n : ℕ} (hn : n ≤ rest.length) :
    Carved whole (rest.drop n) (pieces ++ [rest.take n]) where
  toSeparate := by
    refine h.toSeparate.give ?_ ?_ (rest.disjoint_take_drop n)
    · rw [ByteRange.Within, ← rest.take_union_drop hn]
      exact Set.subset_union_left
    · rw [ByteRange.Within, ← rest.take_union_drop hn]
      exact Set.subset_union_right
  covers b := by
    have hb : b ∈ rest.bytes ↔ b ∈ (rest.take n).bytes ∨ b ∈ (rest.drop n).bytes := by
      rw [← rest.take_union_drop hn, Set.mem_union]
    simp only [h.covers, hb, List.mem_append, List.mem_singleton]
    constructor
    · rintro ((hb | hb) | ⟨p, hp, hb⟩)
      · exact Or.inr ⟨_, Or.inr rfl, hb⟩
      · exact Or.inl hb
      · exact Or.inr ⟨p, Or.inl hp, hb⟩
    · rintro (hb | ⟨p, hp | rfl, hb⟩)
      · exact Or.inl (Or.inr hb)
      · exact Or.inr ⟨p, hp, hb⟩
      · exact Or.inl (Or.inl hb)

/-- Every piece is in the whole. -/
theorem piece_subset (h : Carved whole rest pieces) {p : ByteRange} (hp : p ∈ pieces) :
    p.bytes ⊆ whole :=
  fun b hb => (h.covers b).2 (Or.inr ⟨p, hp, hb⟩)

end Carved
