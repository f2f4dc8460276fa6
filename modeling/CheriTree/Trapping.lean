import Mathlib.Tactic.Basic

/-!
# Programs that keep their state when they trap

A program on a machine that traps does not take back what it did before the
trap: the state it leaves behind is the state it had reached. So a trap comes
with a state, as a result does, and what a program does from a state is one
pair.

`wp` is the condition on the state a program starts in under which it ends
well: with `Q` of its result and the state it leaves, or, where it traps, with
`E` of the state it leaves. The rules take a program apart from its first
step on, so that a proof about a program follows its text.
-/

variable {σ ε α β : Type}

/-- **A program that may trap**, and keeps its state when it does. -/
abbrev Trapping (σ ε α : Type) := ExceptT ε (StateM σ) α

namespace Trapping

/-- **What a program does from a state**: its result or its trap, and the state
it leaves. -/
def exec (x : Trapping σ ε α) (s : σ) : Except ε α × σ := x s

/-- A computation that does not touch the state. -/
def lift (x : Except ε α) : Trapping σ ε α := fun s => (x, s)

/-- A step of the state that cannot trap. -/
def update (f : σ → σ) : Trapping σ ε Unit := fun s => (.ok (), f s)

/-- Reading the state. -/
def read (f : σ → α) : Trapping σ ε α := fun s => (.ok (f s), s)

/-- **The program ends well from `s`**: with `Q`, or in a trap with `E`. -/
def wp (x : Trapping σ ε α) (Q : α → σ → Prop) (E : σ → Prop) (s : σ) : Prop :=
  match x.exec s with
  | (.ok a, s') => Q a s'
  | (.error _, s') => E s'

variable {Q Q' : α → σ → Prop} {E : σ → Prop} {s : σ}

/-- **The rule of a sequence.** -/
theorem wp_bind {x : Trapping σ ε α} {f : α → Trapping σ ε β} {R : β → σ → Prop} :
    wp (x >>= f) R E s ↔ wp x (fun a s' => wp (f a) R E s') E s := by
  have hb : (x >>= f).exec s = match x.exec s with
      | (.ok a, s') => (f a).exec s'
      | (.error e, s') => (.error e, s') := by
    show (ExceptT.bind x f) s = _
    simp only [ExceptT.bind, ExceptT.mk, exec]
    show ExceptT.bindCont f (x s).1 (x s).2 = _
    rcases x s with ⟨_ | _, _⟩ <;> rfl
  unfold wp
  rw [hb]
  rcases x.exec s with ⟨_ | _, _⟩ <;> rfl

@[simp] theorem wp_pure {a : α} : wp (pure a : Trapping σ ε α) Q E s ↔ Q a s := Iff.rfl

@[simp] theorem wp_update {f : σ → σ} {R : Unit → σ → Prop} :
    wp (update f : Trapping σ ε Unit) R E s ↔ R () (f s) := Iff.rfl

@[simp] theorem wp_read {f : σ → α} : wp (read f : Trapping σ ε α) Q E s ↔ Q (f s) s := Iff.rfl

/-- The rule of a computation off the state: it gives a value, or traps where
it is. -/
theorem wp_lift {x : Except ε α} :
    wp (lift x : Trapping σ ε α) Q E s
      ↔ (∀ a, x = .ok a → Q a s) ∧ (∀ e, x = .error e → E s) := by
  cases x with
  | error e => simp [wp, exec, lift]
  | ok a => simp [wp, exec, lift]

/-- The rule of a case distinction. -/
theorem wp_ite {p : Prop} [Decidable p] {x y : Trapping σ ε α} :
    wp (if p then x else y) Q E s ↔ (p → wp x Q E s) ∧ (¬ p → wp y Q E s) := by
  by_cases hp : p
  · simp [hp]
  · simp [hp]

/-- The rule of consequence. -/
theorem wp_mono {x : Trapping σ ε α} {E' : σ → Prop} (h : wp x Q E s)
    (hQ : ∀ a s', Q a s' → Q' a s') (hE : ∀ s', E s' → E' s') : wp x Q' E' s := by
  unfold wp at h ⊢
  split
  · rename_i hx
    rw [hx] at h
    exact hQ _ _ h
  · rename_i hx
    rw [hx] at h
    exact hE _ h

/-- **What does not trap has a result.** -/
theorem wp_exists {x : Trapping σ ε α} (h : wp x Q (fun _ => False) s) :
    ∃ a s', x.exec s = (.ok a, s') ∧ Q a s' := by
  unfold wp at h
  split at h
  · rename_i a s' hx
    exact ⟨a, s', hx, h⟩
  · exact h.elim

/-- **What ends well in every way leaves a good state.** -/
theorem wp_state {x : Trapping σ ε α} (h : wp x (fun _ => E) E s) : E (x.exec s).2 := by
  unfold wp at h
  split at h
  · rename_i hx
    rw [hx]
    exact h
  · rename_i hx
    rw [hx]
    exact h

end Trapping
