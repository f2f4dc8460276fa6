import Mathlib.Data.List.Basic

/-!
# Synchronous machines and their runs

A synchronous machine reads one input and gives one observation per step.
Everything it can do from a state is a fold of its step over a list of
inputs, so a statement about *every run* is a statement about every list.

Most of the results of a development are of one shape: something holds along
every run each of whose steps meets a condition. `Along` says that a run
meets a condition, and the rules below turn a statement about one step into
the statement about the run: what is kept (`run_invariant`), what the last
step finds (`along_append`), and, for a run that never ends, what it comes to
(`exists_measure_eq_zero`).
-/

/-- **A synchronous machine**: a step function on a state, driven by one
input and giving one observation per step. -/
structure SyncMachine (σ ι ο : Type*) where
  /-- The next state and the observation of one step. -/
  step : σ → ι → σ × ο

namespace SyncMachine

variable {σ ι ο : Type*} (M : SyncMachine σ ι ο)

/-- The state after one step. -/
def next (s : σ) (i : ι) : σ := (M.step s i).1

/-- The observation of one step. -/
def obs (s : σ) (i : ι) : ο := (M.step s i).2

/-- The state a list of inputs leads to. -/
def run (s : σ) : List ι → σ
  | [] => s
  | i :: is => run (M.next s i) is

/-- The observations a list of inputs gives, in order. -/
def observe (s : σ) : List ι → List ο
  | [] => []
  | i :: is => M.obs s i :: observe (M.next s i) is

/-- **Every step of the run meets `C`**, which reads the state before the
step and the step's input. -/
def Along (C : σ → ι → Prop) (s : σ) : List ι → Prop
  | [] => True
  | i :: is => C s i ∧ Along C (M.next s i) is

/-- A state is reached from `s` when some list of inputs leads there. -/
def Reaches (s s' : σ) : Prop := ∃ is : List ι, M.run s is = s'

@[simp] theorem run_nil (s : σ) : M.run s [] = s := rfl

@[simp] theorem run_cons (s : σ) (i : ι) (is : List ι) :
    M.run s (i :: is) = M.run (M.next s i) is := rfl

@[simp] theorem observe_nil (s : σ) : M.observe s [] = [] := rfl

@[simp] theorem observe_cons (s : σ) (i : ι) (is : List ι) :
    M.observe s (i :: is) = M.obs s i :: M.observe (M.next s i) is := rfl

@[simp] theorem along_nil (C : σ → ι → Prop) (s : σ) : M.Along C s [] := trivial

@[simp] theorem along_cons {C : σ → ι → Prop} {s : σ} {i : ι} {is : List ι} :
    M.Along C s (i :: is) ↔ C s i ∧ M.Along C (M.next s i) is := Iff.rfl

def decidableAlong (C : σ → ι → Prop) [∀ s i, Decidable (C s i)] (s : σ) :
    (is : List ι) → Decidable (M.Along C s is)
  | [] => inferInstanceAs (Decidable True)
  | i :: is =>
    have := decidableAlong C (M.next s i) is
    inferInstanceAs (Decidable (C s i ∧ M.Along C (M.next s i) is))

instance (C : σ → ι → Prop) [∀ s i, Decidable (C s i)] (s : σ) (is : List ι) :
    Decidable (M.Along C s is) := M.decidableAlong C s is

theorem run_append (s : σ) (is js : List ι) :
    M.run s (is ++ js) = M.run (M.run s is) js := by
  induction is generalizing s with
  | nil => rfl
  | cons i is ih => exact ih (M.next s i)

theorem observe_append (s : σ) (is js : List ι) :
    M.observe s (is ++ js) = M.observe s is ++ M.observe (M.run s is) js := by
  induction is generalizing s with
  | nil => rfl
  | cons i is ih =>
    rw [List.cons_append, observe_cons, observe_cons, ih (M.next s i)]
    rfl

/-- A condition holds along a run cut in two when it holds along both parts. -/
theorem along_append {C : σ → ι → Prop} {s : σ} {is js : List ι} :
    M.Along C s (is ++ js) ↔ M.Along C s is ∧ M.Along C (M.run s is) js := by
  induction is generalizing s with
  | nil => exact ⟨fun h => ⟨trivial, h⟩, fun h => h.2⟩
  | cons i is ih =>
    rw [List.cons_append, along_cons, along_cons, ih, run_cons, and_assoc]

/-- **The invariant rule.** What every step that meets `C` keeps, every run
along which `C` holds keeps. -/
theorem run_invariant {C : σ → ι → Prop} {Inv : σ → Prop}
    (hstep : ∀ s i, Inv s → C s i → Inv (M.next s i)) {s : σ} {is : List ι}
    (h₀ : Inv s) (hC : M.Along C s is) : Inv (M.run s is) := by
  induction is generalizing s with
  | nil => exact h₀
  | cons i is ih => exact ih (hstep s i h₀ hC.1) hC.2

/-- The invariant rule with no condition on the steps. -/
theorem run_invariant_all {Inv : σ → Prop}
    (hstep : ∀ s i, Inv s → Inv (M.next s i)) {s : σ} (h₀ : Inv s)
    (is : List ι) : Inv (M.run s is) := by
  induction is generalizing s with
  | nil => exact h₀
  | cons i is ih => exact ih (hstep s i h₀)

/-- **What an invariant gives of each step** holds along the run. -/
theorem along_of_invariant {C D : σ → ι → Prop} {Inv : σ → Prop}
    (hstep : ∀ s i, Inv s → C s i → Inv (M.next s i)) (hD : ∀ s i, Inv s → C s i → D s i)
    {s : σ} {is : List ι} (h₀ : Inv s) (hC : M.Along C s is) : M.Along D s is := by
  induction is generalizing s with
  | nil => trivial
  | cons i is ih => exact ⟨hD s i h₀ hC.1, ih (hstep s i h₀ hC.1) hC.2⟩

/-- A condition on the inputs alone holds along a run of such inputs, next to
any condition the run meets. -/
theorem along_and_mem {C : σ → ι → Prop} {D : ι → Prop} {s : σ} {is : List ι}
    (hD : ∀ i ∈ is, D i) (hC : M.Along C s is) :
    M.Along (fun s i => D i ∧ C s i) s is := by
  induction is generalizing s with
  | nil => trivial
  | cons i is ih =>
    exact ⟨⟨hD i List.mem_cons_self, hC.1⟩,
      ih (fun j hj => hD j (List.mem_cons_of_mem _ hj)) hC.2⟩

/-- Two conditions that are the same on every step are the same along every
run. -/
theorem along_congr {C D : σ → ι → Prop} (h : ∀ s i, C s i ↔ D s i) {s : σ} {is : List ι} :
    M.Along C s is ↔ M.Along D s is := by
  induction is generalizing s with
  | nil => exact Iff.rfl
  | cons i is ih => exact and_congr (h s i) ih

/-! ## Runs that never end -/

/-- The state after `n` steps under an endless sequence of inputs. -/
def stateAt (s : σ) (env : ℕ → ι) : ℕ → σ
  | 0 => s
  | n + 1 => M.next (stateAt s env n) (env n)

/-- The observation of step `n` under an endless sequence of inputs. -/
def obsAt (s : σ) (env : ℕ → ι) (n : ℕ) : ο := M.obs (M.stateAt s env n) (env n)

@[simp] theorem stateAt_zero (s : σ) (env : ℕ → ι) : M.stateAt s env 0 = s := rfl

theorem stateAt_succ (s : σ) (env : ℕ → ι) (n : ℕ) :
    M.stateAt s env (n + 1) = M.next (M.stateAt s env n) (env n) := rfl

/-- The invariant rule for endless runs. -/
theorem stateAt_invariant {C : σ → ι → Prop} {Inv : σ → Prop}
    (hstep : ∀ s i, Inv s → C s i → Inv (M.next s i)) {s : σ} {env : ℕ → ι}
    (h₀ : Inv s) (hC : ∀ n, C (M.stateAt s env n) (env n)) (n : ℕ) :
    Inv (M.stateAt s env n) := by
  induction n with
  | zero => exact h₀
  | succ n ih => exact hstep _ _ ih (hC n)

/-- **The progress rule.** A measure that never grows, and that from every
moment on some later step makes smaller unless it is zero, reaches zero. -/
theorem exists_measure_eq_zero {μ : σ → ℕ} {s : σ} {env : ℕ → ι}
    (hprog : ∀ n, μ (M.stateAt s env n) ≠ 0 →
      ∃ m, n ≤ m ∧ μ (M.stateAt s env (m + 1)) < μ (M.stateAt s env n)) :
    ∃ n, μ (M.stateAt s env n) = 0 := by
  suffices h : ∀ b n, μ (M.stateAt s env n) ≤ b → ∃ m, μ (M.stateAt s env m) = 0 from
    h _ 0 (Nat.le_refl _)
  intro b
  -- induction on a bound of the measure: a step that makes it smaller is ahead
  induction b with
  | zero => exact fun n hn => ⟨n, Nat.le_zero.1 hn⟩
  | succ b ih =>
    intro n hn
    by_cases h0 : μ (M.stateAt s env n) = 0
    · exact ⟨n, h0⟩
    · obtain ⟨m, -, hm⟩ := hprog n h0
      exact ih (m + 1) (by omega)

/-- **The progress rule under fairness.** Each state waits for one of several
answers, each of which comes again and again. If a step either makes the
measure smaller or leaves it, and then what is waited for has not come and is
still waited for, the measure reaches zero. `D` is what all inputs meet. -/
theorem exists_measure_eq_zero_of_fair {κ : Type*} {μ : σ → ℕ} {awaits : σ → κ}
    {Comes : κ → ι → Prop} {Inv : σ → Prop} {D : ι → Prop}
    (hstep : ∀ t i, Inv t → D i → μ t ≠ 0 → μ (M.next t i) < μ t
      ∨ ¬ Comes (awaits t) i ∧ μ (M.next t i) ≤ μ t ∧ awaits (M.next t i) = awaits t)
    {s : σ} {env : ℕ → ι} (hInv : ∀ n, Inv (M.stateAt s env n)) (hD : ∀ n, D (env n))
    (hfair : ∀ k n, ∃ m, n ≤ m ∧ Comes k (env m)) :
    ∃ n, μ (M.stateAt s env n) = 0 := by
  refine M.exists_measure_eq_zero (fun n hn => ?_)
  by_contra hno
  have hno : ∀ k, n ≤ k → μ (M.stateAt s env n) ≤ μ (M.stateAt s env (k + 1)) :=
    fun k hk => Nat.not_lt.1 fun hlt => hno ⟨k, hk, hlt⟩
  -- with nothing lost from `n` on, every step waits for what the first waits for
  have hwait : ∀ d, μ (M.stateAt s env (n + d)) = μ (M.stateAt s env n)
      ∧ awaits (M.stateAt s env (n + d)) = awaits (M.stateAt s env n)
      ∧ ¬ Comes (awaits (M.stateAt s env n)) (env (n + d)) := by
    have hone : ∀ d, μ (M.stateAt s env (n + d)) = μ (M.stateAt s env n) →
        ¬ Comes (awaits (M.stateAt s env (n + d))) (env (n + d))
          ∧ μ (M.stateAt s env (n + d + 1)) = μ (M.stateAt s env n)
          ∧ awaits (M.stateAt s env (n + d + 1)) = awaits (M.stateAt s env (n + d)) := by
      intro d hd
      have hle := hno (n + d) (Nat.le_add_right n d)
      rw [stateAt_succ] at hle ⊢
      rcases hstep _ (env (n + d)) (hInv (n + d)) (hD (n + d)) (hd ▸ hn) with hlt | ⟨hc, hμ, ha⟩
      · exact absurd (hd ▸ hlt) (Nat.not_lt.2 hle)
      · exact ⟨hc, Nat.le_antisymm (hd ▸ hμ) hle, ha⟩
    intro d
    induction d with
    | zero => exact ⟨rfl, rfl, (hone 0 rfl).1⟩
    | succ d ih =>
      obtain ⟨-, hμ, ha⟩ := hone d ih.1
      have ha' := ha.trans ih.2.1
      exact ⟨hμ, ha', ha' ▸ (hone (d + 1) hμ).1⟩
  obtain ⟨m, hm, hcomes⟩ := hfair (awaits (M.stateAt s env n)) n
  have hc := (hwait (m - n)).2.2
  rw [Nat.add_sub_cancel' hm] at hc
  exact hc hcomes

end SyncMachine

/-! ## What a run tells

A machine that has something to say in some steps only gives an optional
observation; what a run has told is the list of those that were given. -/

namespace SyncMachine

variable {σ ι ε : Type*} (M : SyncMachine σ ι (Option ε)) {s : σ} {env : ℕ → ι}

/-- What the first `n` steps have told. -/
def told (s : σ) (env : ℕ → ι) (n : ℕ) : List ε := (List.range n).filterMap (M.obsAt s env)

theorem told_succ (n : ℕ) :
    M.told s env (n + 1) = M.told s env n ++ (M.obsAt s env n).toList := by
  unfold told
  rw [List.range_succ, List.filterMap_append, List.filterMap_cons, List.filterMap_nil]
  cases M.obsAt s env n <;> rfl

/-- What is told is not taken back. -/
theorem told_isPrefix_of_le {n m : ℕ} (h : n ≤ m) : M.told s env n <+: M.told s env m := by
  induction h with
  | refl => exact List.prefix_refl _
  | step _ ih =>
    rw [told_succ]
    exact ih.trans (List.prefix_append _ _)

/-- **A state that waits stays, and says nothing,** until what it waits for
comes. -/
theorem exists_stateAt_of_waits {Comes : ι → Prop} {n : ℕ}
    (hstay : ∀ i, ¬ Comes i → M.next (M.stateAt s env n) i = M.stateAt s env n
      ∧ M.obs (M.stateAt s env n) i = none)
    (hcomes : ∃ m, n ≤ m ∧ Comes (env m)) :
    ∃ m, n ≤ m ∧ M.stateAt s env m = M.stateAt s env n ∧ M.told s env m = M.told s env n
      ∧ Comes (env m) := by
  obtain ⟨m, hm, hc⟩ := hcomes
  obtain ⟨d, rfl⟩ := Nat.exists_eq_add_of_le hm
  induction d generalizing n with
  | zero => exact ⟨n, Nat.le_refl n, rfl, rfl, hc⟩
  | succ d ih =>
    by_cases hnow : Comes (env n)
    · exact ⟨n, Nat.le_refl n, rfl, rfl, hnow⟩
    · have hnext : M.stateAt s env (n + 1) = M.stateAt s env n := (hstay _ hnow).1
      have htold : M.told s env (n + 1) = M.told s env n := by
        rw [told_succ, show M.obsAt s env n = none from (hstay _ hnow).2]
        exact List.append_nil _
      rw [Nat.add_comm d 1, ← Nat.add_assoc] at hc
      obtain ⟨m, hm, hst, htl, hcm⟩ := ih (n := n + 1) (hnext ▸ hstay) (Nat.le_add_right _ _) hc
      exact ⟨m, by omega, hst.trans hnext, htl.trans htold, hcm⟩

end SyncMachine
