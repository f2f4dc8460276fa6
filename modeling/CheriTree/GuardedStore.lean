import CheriTree.Trapping

/-!
# Programs that check and then store

A program that takes data it does not trust checks them first and stores them
after. Each of the stores can trap, and what was stored before stays stored.
`GuardedStore` is such a program in three parts: the checks, the first store,
and the rest of them. What is asked of it on a state is `AllOrNothing`: if it
gets to its end, what it leaves is good, and if it does not, it has stored
nothing.

What is left to show of such a program, where nothing is changed without the
first store, is that what begins ends, and well (`allOrNothing_iff`,
`allOrNothing_iff_of_passes`).
-/

variable {σ ε γ V α β : Type}

namespace Trapping

/-- What a sequence does, from what its first program does. -/
theorem exec_bind_ok {x : Trapping σ ε α} {f : α → Trapping σ ε β} {s s' : σ} {a : α}
    (h : x.exec s = (.ok a, s')) : (x >>= f).exec s = (f a).exec s' := by
  show (ExceptT.bind x f) s = _
  simp only [ExceptT.bind, ExceptT.mk, exec] at h ⊢
  show ExceptT.bindCont f (x s).1 (x s).2 = _
  rw [h]
  rfl

theorem exec_bind_error {x : Trapping σ ε α} {f : α → Trapping σ ε β} {s s' : σ} {e : ε}
    (h : x.exec s = (.error e, s')) : (x >>= f).exec s = (.error e, s') := by
  show (ExceptT.bind x f) s = _
  simp only [ExceptT.bind, ExceptT.mk, exec] at h ⊢
  show ExceptT.bindCont f (x s).1 (x s).2 = _
  rw [h]
  rfl

/-- **A sequence that has a result** is two programs that have one. -/
theorem exec_bind_eq_ok {x : Trapping σ ε α} {f : α → Trapping σ ε β} {s s' : σ} {b : β} :
    (x >>= f).exec s = (.ok b, s') ↔
      ∃ a s₁, x.exec s = (.ok a, s₁) ∧ (f a).exec s₁ = (.ok b, s') := by
  rcases hx : x.exec s with ⟨e | a, s₁⟩
  · rw [exec_bind_error hx]
    constructor
    · intro h
      cases h
    · rintro ⟨a, s₂, h, -⟩
      cases h
  · rw [exec_bind_ok hx]
    constructor
    · exact fun h => ⟨a, s₁, rfl, h⟩
    · rintro ⟨a', s₂, h, hf⟩
      cases h
      exact hf

theorem exec_pure_eq_ok {s s' : σ} {a b : α} :
    (pure a : Trapping σ ε α).exec s = (.ok b, s') ↔ a = b ∧ s = s' := by
  show ((.ok a, s) : Except ε α × σ) = _ ↔ _
  rw [Prod.mk.injEq, Except.ok.injEq]

theorem exec_update_bind {s : σ} (g : σ → σ) (f : Unit → Trapping σ ε α) :
    (update g >>= f).exec s = (f ()).exec (g s) :=
  exec_bind_ok rfl

/-- Dropping the result changes nothing of the state. -/
theorem exec_discard_snd (x : Trapping σ ε α) (s : σ) :
    ((x >>= fun _ => pure () : Trapping σ ε Unit).exec s).2 = (x.exec s).2 := by
  rcases hx : x.exec s with ⟨e | a, s₁⟩
  · rw [exec_bind_error hx]
  · rw [exec_bind_ok hx]
    rfl

/-- What a condition says of a program that has a result, or that traps. -/
theorem wp_ok {x : Trapping σ ε α} {Q : α → σ → Prop} {E : σ → Prop} {s s' : σ} {a : α}
    (h : wp x Q E s) (hx : x.exec s = (.ok a, s')) : Q a s' := by
  unfold wp at h
  rwa [hx] at h

theorem wp_error {x : Trapping σ ε α} {Q : α → σ → Prop} {E : σ → Prop} {s s' : σ} {e : ε}
    (h : wp x Q E s) (hx : x.exec s = (.error e, s')) : E s' := by
  unfold wp at h
  rwa [hx] at h

end Trapping

/-- **Checks, a first store, and the rest.** The checks give what is to be
stored, or nothing where they fail. -/
structure GuardedStore (σ ε γ : Type) where
  checks : Trapping σ ε (Option γ)
  first : γ → Trapping σ ε Unit
  rest : γ → Trapping σ ε Unit

namespace GuardedStore

variable (p : GuardedStore σ ε γ) (s : σ)

/-- The whole program, and whether it has stored. -/
def run : Trapping σ ε Bool := do
  match ← p.checks with
  | none => pure false
  | some c => do
    p.first c
    p.rest c
    pure true

/-- The state it leaves. -/
def after : σ := (p.run.exec s).2

/-- The first store is made. -/
def Begins : Prop :=
  ∃ c s₁ s₂, p.checks.exec s = (.ok (some c), s₁) ∧ (p.first c).exec s₁ = (.ok (), s₂)

/-- All of them are made. -/
def Completes : Prop := (p.run.exec s).1 = .ok true

/-- **All or nothing**: what is left is good where all is stored, and otherwise
nothing is, and what is looked at of the state is as it was. -/
structure AllOrNothing (view : σ → V) (Good : V → Prop) : Prop where
  all : p.Completes s → Good (view (p.after s))
  nothing : ¬ p.Completes s → ¬ p.Begins s ∧ view (p.after s) = view s

variable {p s}

/-- **What a run comes to**: the checks fail or trap, or one of the parts does,
or none. -/
theorem exec_run_of_checks_none {s₁ : σ} (h : p.checks.exec s = (.ok none, s₁)) :
    p.run.exec s = (.ok false, s₁) := by
  rw [run, Trapping.exec_bind_ok h]
  rfl

theorem exec_run_of_checks_error {s₁ : σ} {e : ε} (h : p.checks.exec s = (.error e, s₁)) :
    p.run.exec s = (.error e, s₁) := by
  rw [run, Trapping.exec_bind_error h]

theorem exec_run_of_checks_some {s₁ : σ} {c : γ} (h : p.checks.exec s = (.ok (some c), s₁)) :
    p.run.exec s = (do p.first c; p.rest c; pure true : Trapping σ ε Bool).exec s₁ := by
  rw [run, Trapping.exec_bind_ok h]

theorem completes_iff :
    p.Completes s ↔ ∃ c s₁ s₂ s₃, p.checks.exec s = (.ok (some c), s₁)
      ∧ (p.first c).exec s₁ = (.ok (), s₂) ∧ (p.rest c).exec s₂ = (.ok (), s₃) := by
  constructor
  · intro h
    have hrun : p.run.exec s = (.ok true, p.after s) := Prod.ext h rfl
    rw [run, Trapping.exec_bind_eq_ok] at hrun
    obtain ⟨c, s₁, hchecks, hrun⟩ := hrun
    match c, hrun with
    | some c, hrun =>
      obtain ⟨⟨⟩, s₂, hfirst, hrun⟩ := Trapping.exec_bind_eq_ok.1 hrun
      obtain ⟨⟨⟩, s₃, hrest, -⟩ := Trapping.exec_bind_eq_ok.1 hrun
      exact ⟨c, s₁, s₂, s₃, hchecks, hfirst, hrest⟩
  · rintro ⟨c, s₁, s₂, s₃, hchecks, hfirst, hrest⟩
    rw [Completes, exec_run_of_checks_some hchecks, Trapping.exec_bind_ok hfirst,
      Trapping.exec_bind_ok hrest]
    rfl

/-- Once the first store is made, the rest decides. -/
theorem completes_iff_rest {c : γ} {s₁ s₂ : σ} (hchecks : p.checks.exec s = (.ok (some c), s₁))
    (hfirst : (p.first c).exec s₁ = (.ok (), s₂)) :
    p.Completes s ↔ ∃ s₃, (p.rest c).exec s₂ = (.ok (), s₃) := by
  rw [completes_iff]
  constructor
  · rintro ⟨c', s₁', s₂', s₃, hchecks', hfirst', hrest⟩
    obtain ⟨hc, rfl⟩ := Prod.mk.inj (hchecks.symm.trans hchecks')
    obtain rfl := Option.some.inj (Except.ok.inj hc)
    obtain ⟨-, rfl⟩ := Prod.mk.inj (hfirst.symm.trans hfirst')
    exact ⟨s₃, hrest⟩
  · rintro ⟨s₃, hrest⟩
    exact ⟨c, s₁, s₂, s₃, hchecks, hfirst, hrest⟩

/-- What is left where all of them are made. -/
theorem after_eq {c : γ} {s₁ s₂ s₃ : σ} (hchecks : p.checks.exec s = (.ok (some c), s₁))
    (hfirst : (p.first c).exec s₁ = (.ok (), s₂)) (hrest : (p.rest c).exec s₂ = (.ok (), s₃)) :
    p.after s = s₃ := by
  rw [after, exec_run_of_checks_some hchecks, Trapping.exec_bind_ok hfirst,
    Trapping.exec_bind_ok hrest]
  rfl

theorem Completes.begins (h : p.Completes s) : p.Begins s := by
  obtain ⟨c, s₁, s₂, s₃, hchecks, hfirst, -⟩ := completes_iff.1 h
  exact ⟨c, s₁, s₂, hchecks, hfirst⟩

/-- **A program whose first store is the first thing it changes** is all or
nothing where it ends whenever it begins, and ends well. -/
theorem allOrNothing_iff {view : σ → V} {Good : V → Prop}
    (hkept : ¬ p.Begins s → view (p.after s) = view s) :
    p.AllOrNothing s view Good ↔ (p.Begins s → p.Completes s ∧ Good (view (p.after s))) := by
  constructor
  · intro h hbegins
    by_cases hcomplete : p.Completes s
    · exact ⟨hcomplete, h.all hcomplete⟩
    · exact absurd hbegins (h.nothing hcomplete).1
  · intro h
    refine ⟨fun hcomplete => (h hcomplete.begins).2, fun hnot => ?_⟩
    have hbegins : ¬ p.Begins s := fun hbegins => hnot (h hbegins).1
    exact ⟨hbegins, hkept hbegins⟩

/-- **All or nothing, from what a program goes by.** Where it is known what a state
has to pass for the first store, and of what passes which ends well, the program
is all or nothing where all that passes is such. -/
theorem allOrNothing_iff_of_passes {ι : Type} {view : σ → V} {Good : V → Prop}
    {Passes Fits : ι → Prop} (hkept : ¬ p.Begins s → view (p.after s) = view s)
    (hbegins : p.Begins s ↔ ∃ i, Passes i)
    (hfits : ∀ i, Passes i → (p.Completes s ∧ Good (view (p.after s)) ↔ Fits i)) :
    p.AllOrNothing s view Good ↔ ∀ i, Passes i → Fits i := by
  rw [allOrNothing_iff hkept, hbegins]
  constructor
  · exact fun h i hpasses => (hfits i hpasses).1 (h ⟨i, hpasses⟩)
  · rintro h ⟨i, hpasses⟩
    exact (hfits i hpasses).2 (h i hpasses)

/-- **What has not begun has changed nothing**, if neither the checks nor a
first store that traps change anything. -/
theorem view_after_of_not_begins {view : σ → V}
    (hchecks : ∀ r s₁, p.checks.exec s = (r, s₁) → view s₁ = view s)
    (hfirst : ∀ c s₁ e s₂, p.checks.exec s = (.ok (some c), s₁) →
      (p.first c).exec s₁ = (.error e, s₂) → view s₂ = view s₁)
    (h : ¬ p.Begins s) : view (p.after s) = view s := by
  rcases hc : p.checks.exec s with ⟨e | c, s₁⟩
  · rw [after, exec_run_of_checks_error hc]
    exact hchecks _ _ hc
  · cases c with
    | none =>
      rw [after, exec_run_of_checks_none hc]
      exact hchecks _ _ hc
    | some c =>
      rcases hf : (p.first c).exec s₁ with ⟨e | _, s₂⟩
      · rw [after, exec_run_of_checks_some hc, Trapping.exec_bind_error hf]
        exact (hfirst c s₁ e s₂ hc hf).trans (hchecks _ _ hc)
      · exact absurd ⟨c, s₁, s₂, hc, hf⟩ h

end GuardedStore
