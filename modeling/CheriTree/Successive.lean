import Mathlib.Data.List.Basic

/-!
# Lists of steps

Steps that each come from somewhere and go on somewhere. A list of them is one
that is *followed* from a place when its first step comes from there, and each
further one from where the one before goes on: nothing is left out and nothing
is done twice. `goesOn` is the place after the last step.

Such a list may be cut anywhere, and put together where the ends meet
(`follows_append`). What its last step is does not matter to those before it, so
it may go on somewhere else instead (`follows_concat`).
-/

namespace Successive

variable {α κ : Type*} (comes goes : α → κ)

/-- **The steps follow each other**, from a place on. -/
def Follows (start : κ) : List α → Prop
  | [] => True
  | a :: l => comes a = start ∧ Follows (goes a) l

/-- The place after the steps. -/
def goesOn (start : κ) : List α → κ
  | [] => start
  | a :: l => goesOn (goes a) l

variable {comes goes} {start : κ} {a : α} {l l' : List α}

theorem goesOn_append :
    goesOn goes start (l ++ l') = goesOn goes (goesOn goes start l) l' := by
  induction l generalizing start with
  | nil => rfl
  | cons a l ih => exact ih

@[simp] theorem goesOn_concat : goesOn goes start (l ++ [a]) = goes a := goesOn_append

theorem follows_append :
    Follows comes goes start (l ++ l')
      ↔ Follows comes goes start l ∧ Follows comes goes (goesOn goes start l) l' := by
  induction l generalizing start with
  | nil => exact ⟨fun h => ⟨trivial, h⟩, fun h => h.2⟩
  | cons a l ih =>
    show comes a = start ∧ Follows comes goes (goes a) (l ++ l')
      ↔ (comes a = start ∧ Follows comes goes (goes a) l)
        ∧ Follows comes goes (goesOn goes (goes a) l) l'
    rw [ih, and_assoc]

theorem follows_concat :
    Follows comes goes start (l ++ [a])
      ↔ Follows comes goes start l ∧ comes a = goesOn goes start l := by
  rw [follows_append]
  exact and_congr_right fun _ => and_iff_left trivial

/-- The steps of the beginning follow each other. -/
theorem Follows.left (h : Follows comes goes start (l ++ l')) : Follows comes goes start l :=
  (follows_append.1 h).1

/-- The steps after a step start where it goes on. -/
theorem Follows.after (h : Follows comes goes start (l ++ a :: l')) :
    Follows comes goes (goes a) l' := (follows_append.1 h).2.2

end Successive
