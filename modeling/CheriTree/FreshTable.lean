import Mathlib.Data.Nat.Basic
import Mathlib.Logic.Function.Basic
import Mathlib.Logic.Relation

/-!
# Tables whose keys are issued by a counter

A table of slots, free or holding an entry, and a counter. An entry is added
in a free slot under the value of the counter, which moves on; it may be
changed, but not its key, and it may be removed. The counter may also move on
alone, where a value of it was issued in vain.

No two slots then hold the same key (`Inv`), whatever the order of the steps,
and a key that was removed is gone for good (`Steps.absent`): it lies below the
counter, and the counter does not come back. An entry found later under a key
is what its changes made of the entry found there earlier, in the same slot
(`Steps.related`).
-/

/-- **A table and its counter.** -/
structure FreshTable (ι α : Type) where
  counter : ℕ
  slots : ι → Option α

namespace FreshTable

variable {ι α : Type} [DecidableEq ι]

/-- **A step of the table.** `key` is the key of an entry, and `R` is what a
change may do to one. -/
inductive Step (key : α → ℕ) (R : α → α → Prop) : FreshTable ι α → FreshTable ι α → Prop
  /-- The counter moves on, or nothing happens. -/
  | skip {t : FreshTable ι α} {n : ℕ} (h : t.counter ≤ n) : Step key R t ⟨n, t.slots⟩
  | issue {t : FreshTable ι α} {i : ι} {a : α} (hfree : t.slots i = none)
      (hkey : key a = t.counter) :
      Step key R t ⟨t.counter + 1, Function.update t.slots i (some a)⟩
  | change {t : FreshTable ι α} {i : ι} {a b : α} (hslot : t.slots i = some a)
      (hkey : key b = key a) (hR : R a b) :
      Step key R t ⟨t.counter, Function.update t.slots i (some b)⟩
  | remove {t : FreshTable ι α} (i : ι) :
      Step key R t ⟨t.counter, Function.update t.slots i none⟩

variable {key : α → ℕ} {R : α → α → Prop} {t t' : FreshTable ι α}

/-- A table that stays is a step of it. -/
theorem Step.stay (t : FreshTable ι α) : Step key R t t := .skip (le_refl t.counter)

/-- **The invariant**: every key was issued, and no key is in two slots. -/
structure Inv (key : α → ℕ) (t : FreshTable ι α) : Prop where
  issued : ∀ {i a}, t.slots i = some a → key a < t.counter
  unique : ∀ {i j a b}, t.slots i = some a → t.slots j = some b → key a = key b → i = j

/-- **No slot holds the key.** -/
def Absent (key : α → ℕ) (t : FreshTable ι α) (k : ℕ) : Prop :=
  ∀ i a, t.slots i = some a → key a ≠ k

omit [DecidableEq ι] in
theorem inv_of_forall_none (h : ∀ i, t.slots i = none) : Inv key t where
  issued hi := by rw [h] at hi; cases hi
  unique hi := by rw [h] at hi; cases hi

theorem Step.counter_le (h : Step key R t t') : t.counter ≤ t'.counter := by
  cases h with
  | skip h => exact h
  | issue _ _ => exact Nat.le_succ _
  | change _ _ _ => exact le_refl _
  | remove _ => exact le_refl _

/-- An entry of a table with one slot written is the one written, or was
there. -/
theorem update_eq_some {slots : ι → Option α} {i j : ι} {o : Option α} {b : α}
    (h : Function.update slots j o i = some b) : i = j ∧ o = some b ∨ i ≠ j ∧ slots i = some b := by
  by_cases hij : i = j
  · rw [hij, Function.update_self] at h
    exact .inl ⟨hij, h⟩
  · rw [Function.update_of_ne hij] at h
    exact .inr ⟨hij, h⟩

/-- **An entry after a step** was issued by it, or is what the step made of the
entry that its slot held. -/
theorem Step.slot_cases (h : Step key R t t') {i : ι} {b : α} (hb : t'.slots i = some b) :
    (t.slots i = none ∧ key b = t.counter ∧ t'.counter = t.counter + 1) ∨
      ∃ a, t.slots i = some a ∧ key b = key a ∧ Relation.ReflGen R a b := by
  cases h with
  | skip _ => exact .inr ⟨b, hb, rfl, .refl⟩
  | issue hfree hkey =>
    obtain ⟨rfl, hab⟩ | ⟨-, hold⟩ := update_eq_some hb
    · obtain rfl := Option.some.inj hab
      exact .inl ⟨hfree, hkey, rfl⟩
    · exact .inr ⟨b, hold, rfl, .refl⟩
  | @change j a c hslot hkey hR =>
    obtain ⟨rfl, hab⟩ | ⟨-, hold⟩ := update_eq_some hb
    · obtain rfl := Option.some.inj hab
      exact .inr ⟨a, hslot, hkey, .single hR⟩
    · exact .inr ⟨b, hold, rfl, .refl⟩
  | remove j =>
    obtain ⟨-, hab⟩ | ⟨-, hold⟩ := update_eq_some hb
    · cases hab
    · exact .inr ⟨b, hold, rfl, .refl⟩

/-- A step keeps the invariant. -/
theorem Inv.step (h : Inv key t) (hs : Step key R t t') : Inv key t' where
  issued hb := by
    obtain ⟨-, hkey, hcount⟩ | ⟨a, ha, hkey, -⟩ := hs.slot_cases hb
    · rw [hkey, hcount]
      exact Nat.lt_succ_self _
    · rw [hkey]
      exact lt_of_lt_of_le (h.issued ha) hs.counter_le
  unique := by
    intro i j b c hb hc hbc
    -- an issued key is the counter, which no slot holds yet
    obtain ⟨-, hkb, hcount⟩ | ⟨a, ha, hka, -⟩ := hs.slot_cases hb
    · obtain ⟨-, hkc, -⟩ | ⟨d, hd, hkd, -⟩ := hs.slot_cases hc
      · cases hs with
        | skip _ => exact absurd hcount (by
            intro hn
            have := h.issued hb
            omega)
        | @issue k a hfree hkey =>
          have honly : ∀ {l : ι} {e : α}, Function.update t.slots k (some a) l = some e →
              key e = t.counter → l = k := by
            intro l e he hke
            obtain ⟨hlk, -⟩ | ⟨-, hold⟩ := update_eq_some he
            · exact hlk
            · exact absurd hke (Nat.ne_of_lt (h.issued hold))
          rw [honly hb hkb, honly hc hkc]
        | change _ _ _ => exact absurd hcount (Nat.ne_of_lt (Nat.lt_succ_self _))
        | remove _ => exact absurd hcount (Nat.ne_of_lt (Nat.lt_succ_self _))
      · have := h.issued hd
        omega
    · obtain ⟨-, hkc, -⟩ | ⟨d, hd, hkd, -⟩ := hs.slot_cases hc
      · have := h.issued ha
        omega
      · exact h.unique ha hd (by rw [← hka, ← hkd, hbc])

/-- **Every run keeps the invariant.** -/
theorem Inv.steps (h : Inv key t) (hs : Relation.ReflTransGen (Step key R) t t') : Inv key t' := by
  induction hs with
  | refl => exact h
  | tail _ hs ih => exact ih.step hs

/-- **The counter does not come back.** -/
theorem Steps.counter_le (hs : Relation.ReflTransGen (Step key R) t t') :
    t.counter ≤ t'.counter := by
  induction hs with
  | refl => exact le_refl _
  | tail _ hs ih => exact le_trans ih hs.counter_le

/-- **A key that was issued and is absent stays absent.** -/
theorem Steps.absent {k : ℕ} (hk : k < t.counter) (ha : Absent key t k)
    (hs : Relation.ReflTransGen (Step key R) t t') : Absent key t' k := by
  induction hs with
  | refl => exact ha
  | tail hrun hs ih =>
    intro i b hb hkey
    obtain ⟨-, hcount, -⟩ | ⟨a, hslot, hka, -⟩ := hs.slot_cases hb
    · have := Steps.counter_le hrun
      omega
    · exact ih i a hslot (by rw [← hka, hkey])

/-- **An entry found later under a key** is in the slot the key was in, and is
what the changes of a run made of the entry there. -/
theorem Steps.related (h : Inv key t) (hs : Relation.ReflTransGen (Step key R) t t') {i j : ι}
    {a b : α} (ha : t.slots i = some a) (hb : t'.slots j = some b) (hab : key b = key a) :
    i = j ∧ Relation.ReflTransGen R a b := by
  induction hs generalizing b with
  | refl =>
    obtain rfl := h.unique ha hb hab.symm
    rw [ha] at hb
    obtain rfl := Option.some.inj hb
    exact ⟨rfl, .refl⟩
  | tail hrun hs ih =>
    obtain ⟨-, hcount, -⟩ | ⟨c, hc, hkc, hR⟩ := hs.slot_cases hb
    · have := h.issued ha
      have := Steps.counter_le hrun
      omega
    · obtain ⟨rfl, hac⟩ := ih hc (by rw [← hkc, hab])
      exact ⟨rfl, hac.trans hR.to_reflTransGen⟩

end FreshTable
