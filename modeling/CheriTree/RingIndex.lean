import Mathlib.Data.Nat.Log
import Mathlib.Data.List.Basic

/-!
# Positions on a ring

A queue kept in an array of `N` cells goes round: its oldest element is in some
cell, and each further one in the cell after the one before, where the cell
after the last is the first. `slot N o k` is the cell of the element at position
`k` when the oldest is in cell `o`.

The cells of the positions below `N` are all the cells, each once. So a cell
that lies between the oldest one and the first free one, in the order of the
ring, is the cell of an element (`between_iff`); and to leave the oldest out is
to start in the next cell (`slot_next`).
-/

namespace RingIndex

/-- **The cell of a position.** -/
def slot (N o k : ℕ) : ℕ := if o + k < N then o + k else o + k - N

/-- The cell after a cell. -/
def next (N i : ℕ) : ℕ := if i + 1 = N then 0 else i + 1

variable {N o i j k : ℕ}

theorem slot_zero (ho : o < N) : slot N o 0 = o := if_pos ho

theorem slot_lt (ho : o < N) (hk : k ≤ N) : slot N o k < N := by
  unfold slot
  split
  · assumption
  · omega

/-- The ring comes round. -/
theorem slot_self : slot N o N = o := by
  unfold slot
  split
  · omega
  · exact Nat.add_sub_cancel o N

theorem slot_inj (hj : j < N) (hk : k < N) : slot N o j = slot N o k ↔ j = k := by
  unfold slot
  split <;> split <;> omega

theorem next_lt (hi : i < N) : next N i < N := by
  unfold next
  split <;> omega

/-- The cell of the next position is the next cell. -/
theorem next_slot (ho : o < N) (hk : k < N) : next N (slot N o k) = slot N o (k + 1) := by
  unfold next slot
  split <;> split <;> split <;> omega

/-- Without the oldest, the ring starts in the next cell. -/
theorem slot_next (hk : k < N) : slot N (next N o) k = slot N o (k + 1) := by
  unfold next slot
  split <;> split <;> split <;> omega

/-- The position of a cell. -/
theorem exists_slot (ho : o < N) (hi : i < N) : ∃ k < N, slot N o k = i := by
  by_cases h : o ≤ i
  · refine ⟨i - o, by omega, ?_⟩
    unfold slot
    rw [if_pos (by omega)]
    omega
  · refine ⟨i + N - o, by omega, ?_⟩
    unfold slot
    rw [if_neg (by omega)]
    omega

/-- **The cells of the elements**, where there is a free cell: those between the
cell of the oldest and the first free one, in one piece or round the end. -/
theorem between_iff (ho : o < N) (hlt : k < N) (hi : i < N) :
    (∃ j < k, slot N o j = i) ↔
      (o < slot N o k ∧ o ≤ i ∧ i < slot N o k)
        ∨ (slot N o k < o ∧ (o ≤ i ∨ i < slot N o k)) := by
  obtain ⟨p, hp, rfl⟩ := exists_slot ho hi
  have hiff : (∃ j < k, slot N o j = slot N o p) ↔ p < k := by
    refine ⟨?_, fun h => ⟨p, h, rfl⟩⟩
    rintro ⟨j, hj, heq⟩
    rwa [← (slot_inj (by omega) hp).1 heq]
  rw [hiff]
  unfold slot
  split <;> split <;> omega

/-- Where there is a free cell, the first free one is not the oldest, unless
nothing is there. -/
theorem slot_eq_self_iff (ho : o < N) (hlt : k < N) : o = slot N o k ↔ k = 0 := by
  unfold slot
  split <;> omega

/-! ## The last of a list -/

/-- **The last one wins.** A fold that takes what each element gives that meets
a condition ends with what the last of them gives. -/
theorem foldl_last_wins {β : Type*} (p : ℕ → Prop) [DecidablePred p] (f : ℕ → β) (r : β) (n : ℕ) :
    (∃ i < n, p i ∧ (∀ j, i < j → j < n → ¬ p j)
        ∧ (List.range n).foldl (fun r i => if p i then f i else r) r = f i)
      ∨ (∀ i < n, ¬ p i)
        ∧ (List.range n).foldl (fun r i => if p i then f i else r) r = r := by
  induction n with
  | zero => exact Or.inr ⟨fun i hi => absurd hi (Nat.not_lt_zero i), rfl⟩
  | succ n ih =>
    rw [List.range_succ, List.foldl_append, List.foldl_cons, List.foldl_nil]
    by_cases hn : p n
    · exact Or.inl ⟨n, Nat.lt_succ_self n, hn, fun j h1 h2 => absurd h1 (by omega), if_pos hn⟩
    · rw [if_neg hn]
      rcases ih with ⟨i, hi, hp, hlast, heq⟩ | ⟨hnone, heq⟩
      · refine Or.inl ⟨i, Nat.lt_succ_of_lt hi, hp, fun j h1 h2 => ?_, heq⟩
        rcases Nat.lt_succ_iff_lt_or_eq.1 h2 with h2 | rfl
        · exact hlast j h1 h2
        · exact hn
      · refine Or.inr ⟨fun i hi => ?_, heq⟩
        rcases Nat.lt_succ_iff_lt_or_eq.1 hi with hi | rfl
        · exact hnone i hi
        · exact hn

end RingIndex
