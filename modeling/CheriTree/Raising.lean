import Mathlib.Tactic.Basic

/-!
# Programs that raise

A chain of checks is a program that raises at the first one that fails. What
it gives where it gives anything is read off by the two rules below, one for
a check and one for a step whose result is used further on.
-/

variable {ε α β : Type}

/-- **A check passed**: it did not raise, and the rest gave the result. -/
theorem ite_error_eq_ok {p : Prop} [Decidable p] {e : ε} {x : Except ε α} {a : α} :
    (if p then .error e else x) = .ok a ↔ ¬ p ∧ x = .ok a := by
  by_cases hp : p
  · simp [hp]
  · simp [hp]

/-- **A step passed**: it gave a value, and the rest gave the result from it. -/
theorem bind_eq_ok {x : Except ε α} {f : α → Except ε β} {b : β} :
    x >>= f = .ok b ↔ ∃ a, x = .ok a ∧ f a = .ok b := by
  cases x with
  | error e => simp [bind, Except.bind]
  | ok a => simp [bind, Except.bind]

/-- A result whose value is known comes with some state. -/
theorem exists_ok_of_map_fst {σ : Type} {x : Except ε (α × σ)} {a : α}
    (h : x.toOption.map Prod.fst = some a) : ∃ s, x = .ok (a, s) := by
  cases x with
  | error e => cases h
  | ok p => exact ⟨p.2, congrArg (fun b => Except.ok (b, p.2)) (Option.some.inj h)⟩

/-! ## With a state -/

/-- **A program that reads and writes a state and may raise.** -/
abbrev Prog (σ ε α : Type) := StateT σ (Except ε) α

namespace Prog

variable {σ : Type} {s s' : σ} {a a' : α} {b : β}

/-- **A step passed**: it gave a value and a state, and the rest gave the
result from them. -/
theorem bind_eq_ok {x : Prog σ ε α} {f : α → Prog σ ε β} :
    (x >>= f) s = .ok (b, s') ↔ ∃ a t, x s = .ok (a, t) ∧ f a t = .ok (b, s') := by
  show (x s >>= fun p => f p.1 p.2) = .ok (b, s') ↔ _
  cases x s with
  | error e => simp [bind, Except.bind]
  | ok p =>
    obtain ⟨a, t⟩ := p
    simp [bind, Except.bind, and_assoc]

theorem pure_eq_ok : (pure a : Prog σ ε α) s = .ok (a', s') ↔ a = a' ∧ s = s' := by
  show Except.ok (a, s) = Except.ok (a', s') ↔ _
  simp

theorem get_eq_ok {t : σ} : (get : Prog σ ε σ) s = .ok (t, s') ↔ s = t ∧ s = s' := by
  show Except.ok (s, s) = Except.ok (t, s') ↔ _
  simp

theorem modify_eq_ok {f : σ → σ} {u : Unit} :
    (modify f : Prog σ ε Unit) s = .ok (u, s') ↔ f s = s' := by
  show Except.ok ((), f s) = Except.ok (u, s') ↔ _
  simp

theorem set_eq_ok {t : σ} {u : PUnit} :
    (set t : Prog σ ε PUnit) s = .ok (u, s') ↔ t = s' := by
  show Except.ok (PUnit.unit, t) = Except.ok (u, s') ↔ _
  simp

/-- A computation that does not touch the state. -/
def lift (x : Except ε α) : Prog σ ε α := fun s => x.map fun a => (a, s)

theorem lift_eq_ok {x : Except ε α} :
    (lift x : Prog σ ε α) s = .ok (a, s') ↔ x = .ok a ∧ s = s' := by
  cases x with
  | error e => simp [lift, Except.map]
  | ok b => simp [lift, Except.map]

theorem throw_ne_ok {e : ε} : (throw e : Prog σ ε α) s ≠ .ok (a, s') := by
  show Except.error e ≠ Except.ok (a, s')
  simp

/-- A check passed, or its failing branch was taken. -/
theorem ite_eq_ok {p : Prop} [Decidable p] {x y : Prog σ ε α} :
    (if p then x else y) s = .ok (a, s') ↔
      p ∧ x s = .ok (a, s') ∨ ¬ p ∧ y s = .ok (a, s') := by
  by_cases hp : p
  · simp [hp]
  · simp [hp]

/-- **A program that only reads**: where it gives a value, the state is what it
was. -/
def Silent (x : Prog σ ε α) : Prop := ∀ s a s', x s = .ok (a, s') → s' = s

theorem silent_pure (a : α) : Silent (pure a : Prog σ ε α) :=
  fun _ _ _ h => (pure_eq_ok.1 h).2.symm

theorem silent_get : Silent (get : Prog σ ε σ) :=
  fun _ _ _ h => (get_eq_ok.1 h).2.symm

theorem silent_lift (x : Except ε α) : Silent (lift x : Prog σ ε α) :=
  fun _ _ _ h => (lift_eq_ok.1 h).2.symm

theorem silent_throw (e : ε) : Silent (throw e : Prog σ ε α) :=
  fun _ _ _ h => absurd h throw_ne_ok

theorem Silent.bind {x : Prog σ ε α} {f : α → Prog σ ε β} (hx : Silent x)
    (hf : ∀ a, Silent (f a)) : Silent (x >>= f) := by
  intro s b s' h
  obtain ⟨a, t, hxt, hft⟩ := bind_eq_ok.1 h
  rw [hf a t b s' hft]
  exact hx s a t hxt

theorem Silent.ite {p : Prop} [Decidable p] {x y : Prog σ ε α} (hx : Silent x) (hy : Silent y) :
    Silent (if p then x else y) := by
  by_cases hp : p
  · rw [if_pos hp]
    exact hx
  · rw [if_neg hp]
    exact hy

/-- **A program that preserves a property of the state**, where it gives a
value. -/
def Preserves (P : σ → Prop) (x : Prog σ ε α) : Prop := ∀ s a s', P s → x s = .ok (a, s') → P s'

variable {P : σ → Prop}

theorem Silent.preserves {x : Prog σ ε α} (h : Silent x) : Preserves P x := by
  intro s a s' hs hx
  rw [h s a s' hx]
  exact hs

theorem preserves_throw (e : ε) : Preserves P (throw e : Prog σ ε α) :=
  (silent_throw e).preserves

theorem preserves_pure (a : α) : Preserves P (pure a : Prog σ ε α) :=
  (silent_pure a).preserves

theorem preserves_set {t : σ} (ht : P t) : Preserves P (set t : Prog σ ε PUnit) := by
  intro s a s' _ h
  rw [← set_eq_ok.1 h]
  exact ht

theorem preserves_modify {f : σ → σ} (hf : ∀ s, P s → P (f s)) :
    Preserves P (modify f : Prog σ ε Unit) := by
  intro s a s' hs h
  rw [← modify_eq_ok.1 h]
  exact hf s hs

theorem Preserves.bind {x : Prog σ ε α} {f : α → Prog σ ε β} (hx : Preserves P x)
    (hf : ∀ a, Preserves P (f a)) : Preserves P (x >>= f) := by
  intro s b s' hs h
  obtain ⟨a, t, hxt, hft⟩ := bind_eq_ok.1 h
  exact hf a t b s' (hx s a t hs hxt) hft

/-- A program that starts by reading the state knows the property of it. -/
theorem preserves_get_bind {f : σ → Prog σ ε β} (hf : ∀ s, P s → Preserves P (f s)) :
    Preserves P (get >>= f) := by
  intro s b s' hs h
  obtain ⟨a, t, hget, hft⟩ := bind_eq_ok.1 h
  obtain ⟨rfl, rfl⟩ := get_eq_ok.1 hget
  exact hf s hs s b s' hs hft

theorem Preserves.ite {p : Prop} [Decidable p] {x y : Prog σ ε α} (hx : Preserves P x)
    (hy : Preserves P y) : Preserves P (if p then x else y) := by
  by_cases hp : p
  · rw [if_pos hp]
    exact hx
  · rw [if_neg hp]
    exact hy

/-- **A program that keeps a part of the state.** -/
def Keeps {γ : Type} (g : σ → γ) (x : Prog σ ε α) : Prop := ∀ c, Preserves (fun s => g s = c) x

variable {γ δ : Type} {g : σ → γ}

theorem Silent.keeps {x : Prog σ ε α} (h : Silent x) : Keeps g x := fun _ => h.preserves

theorem Keeps.bind {x : Prog σ ε α} {f : α → Prog σ ε β} (hx : Keeps g x)
    (hf : ∀ a, Keeps g (f a)) : Keeps g (x >>= f) := fun c => (hx c).bind (fun a => hf a c)

theorem Keeps.ite {p : Prop} [Decidable p] {x y : Prog σ ε α} (hx : Keeps g x)
    (hy : Keeps g y) : Keeps g (if p then x else y) := fun c => (hx c).ite (hy c)

/-- What is read off a part that is kept is kept. -/
theorem Keeps.comp {x : Prog σ ε α} (hx : Keeps g x) (h : γ → δ) : Keeps (h ∘ g) x := by
  intro c s a s' hs hxs
  show h (g s') = c
  rw [hx (g s) s a s' rfl hxs]
  exact hs

theorem Keeps.eq {x : Prog σ ε α} (hx : Keeps g x) (h : x s = .ok (a, s')) : g s' = g s :=
  hx (g s) s a s' rfl h

/-- **A program that reads until it fails**: with a value that counts as a
failure comes a change `T` of the state, with any other one none. -/
def FailsBy (T : σ → σ → Prop) (bad : α → Prop) (x : Prog σ ε α) : Prop :=
  ∀ s a s', x s = .ok (a, s') → ¬ bad a ∧ s' = s ∨ bad a ∧ T s s'

variable {T : σ → σ → Prop} {bad : α → Prop}

theorem failsBy_pure (h : ¬ bad a) : FailsBy T bad (pure a : Prog σ ε α) := by
  intro s b s' hs
  obtain ⟨rfl, rfl⟩ := pure_eq_ok.1 hs
  exact Or.inl ⟨h, rfl⟩

theorem failsBy_throw (e : ε) : FailsBy T bad (throw e : Prog σ ε α) :=
  fun _ _ _ h => absurd h throw_ne_ok

theorem FailsBy.ite {p : Prop} [Decidable p] {x y : Prog σ ε α} (hx : FailsBy T bad x)
    (hy : FailsBy T bad y) : FailsBy T bad (if p then x else y) := by
  by_cases hp : p
  · rw [if_pos hp]
    exact hx
  · rw [if_neg hp]
    exact hy

/-- What only reads may come first. -/
theorem Silent.failsBy_bind {x : Prog σ ε β} {f : β → Prog σ ε α} (hx : Silent x)
    (hf : ∀ b, FailsBy T bad (f b)) : FailsBy T bad (x >>= f) := by
  intro s a s' h
  obtain ⟨b, t, hxt, hft⟩ := bind_eq_ok.1 h
  obtain rfl := hx s b t hxt
  exact hf b t a s' hft

/-- A change of the state, and then a failure. -/
theorem failsBy_bind_pure {x : Prog σ ε β} (hx : ∀ s b s', x s = .ok (b, s') → T s s')
    (h : bad a) : FailsBy T bad (do let _ ← x; pure a : Prog σ ε α) := by
  intro s c s' hs
  obtain ⟨b, t, hxt, hft⟩ := bind_eq_ok.1 hs
  obtain ⟨rfl, rfl⟩ := pure_eq_ok.1 hft
  exact Or.inr ⟨h, hx s b t hxt⟩

/-- **A program that does not raise** `e`. -/
def Avoids (e : ε) (x : Prog σ ε α) : Prop := ∀ s, x s ≠ .error e

variable {e : ε}

theorem avoids_pure (a : α) : Avoids e (pure a : Prog σ ε α) := by
  intro s h
  cases h

theorem avoids_get : Avoids e (get : Prog σ ε σ) := by
  intro s h
  cases h

theorem avoids_set (t : σ) : Avoids e (set t : Prog σ ε PUnit) := by
  intro s h
  cases h

theorem avoids_modify (f : σ → σ) : Avoids e (modify f : Prog σ ε Unit) := by
  intro s h
  cases h

theorem avoids_throw {e' : ε} (h : e' ≠ e) : Avoids e (throw e' : Prog σ ε α) :=
  fun _ hs => h (Except.error.inj hs)

theorem avoids_lift {x : Except ε α} (h : x ≠ .error e) : Avoids e (lift x : Prog σ ε α) := by
  intro s hs
  cases x with
  | error e' => exact h (congrArg Except.error (Except.error.inj hs))
  | ok a => cases hs

/-- **A step raised**, or the rest did, from what it gave. -/
theorem bind_eq_error {x : Prog σ ε α} {f : α → Prog σ ε β} :
    (x >>= f) s = .error e ↔ x s = .error e ∨ ∃ a t, x s = .ok (a, t) ∧ f a t = .error e := by
  show (x s >>= fun q => f q.1 q.2) = .error e ↔ _
  cases x s with
  | error e' => simp [bind, Except.bind]
  | ok q =>
    obtain ⟨a, t⟩ := q
    simp [bind, Except.bind, and_assoc]

theorem Avoids.bind {x : Prog σ ε α} {f : α → Prog σ ε β} (hx : Avoids e x)
    (hf : ∀ a, Avoids e (f a)) : Avoids e (x >>= f) := by
  intro s h
  obtain hxs | ⟨a, t, -, hft⟩ := bind_eq_error.1 h
  · exact hx s hxs
  · exact hf a t hft

theorem Avoids.ite {p : Prop} [Decidable p] {x y : Prog σ ε α} (hx : Avoids e x)
    (hy : Avoids e y) : Avoids e (if p then x else y) := by
  by_cases hp : p
  · rw [if_pos hp]
    exact hx
  · rw [if_neg hp]
    exact hy

/-- **A program that a change `g` of the state does not matter to**, where it
only reads. -/
def Ignores (g : σ → σ) (x : Prog σ ε α) : Prop :=
  ∀ s a, x s = .ok (a, s) → x (g s) = .ok (a, g s)

variable {c : σ → σ}

theorem ignores_pure (a : α) : Ignores c (pure a : Prog σ ε α) :=
  fun _ _ h => pure_eq_ok.2 ⟨(pure_eq_ok.1 h).1, rfl⟩

theorem ignores_lift (x : Except ε α) : Ignores c (lift x : Prog σ ε α) :=
  fun _ _ h => lift_eq_ok.2 ⟨(lift_eq_ok.1 h).1, rfl⟩

/-- The rest starts from the state the program was started in. -/
theorem Silent.ignores_bind {x : Prog σ ε α} {f : α → Prog σ ε β} (hs : Silent x)
    (hx : Ignores c x) (hf : ∀ a, Ignores c (f a)) : Ignores c (x >>= f) := by
  intro s b h
  obtain ⟨a, t, hxt, hft⟩ := bind_eq_ok.1 h
  obtain rfl := hs s a t hxt
  exact bind_eq_ok.2 ⟨a, c t, hx t a hxt, hf a t b hft⟩

theorem Ignores.ite {p : Prop} [Decidable p] {x y : Prog σ ε α} (hx : Ignores c x)
    (hy : Ignores c y) : Ignores c (if p then x else y) := by
  by_cases hp : p
  · rw [if_pos hp]
    exact hx
  · rw [if_neg hp]
    exact hy

end Prog
