import Mathlib.Data.List.Induction

/-!
# Bypassing

A source register of an instruction is looked up among the older ones that are
not done yet: from the oldest to the youngest, each of them that writes the
register gives its value, if it has one, in place of what was found before. One
that has no value yet makes the reader wait, if the value is needed now, and is
passed over if it is not.

The lemmas say what such a search finds. A reader that does not wait gets the
value of the youngest that writes its register (`resolve_eq_of_not_stalled`);
entries that do not write it change nothing (`foldl_consult_of_forall_ne`).
-/

namespace Bypass

variable {κ α : Type*} [DecidableEq κ]

/-- An older instruction: the register it writes, and the value once there is
one. -/
structure Entry (κ α : Type*) where
  key : Option κ
  value : Option α

/-- What a search has found: a value, and whether the reader has to wait. -/
structure Info (α : Type*) where
  value : Option α
  stalled : Bool

/-- **One entry is looked at**, after the older ones. -/
def consult (needed : Bool) (k : κ) (info : Info α) (e : Entry κ α) : Info α :=
  if e.key = some k then
    match e.value with
    | some v => ⟨some v, info.stalled⟩
    | none => if needed then ⟨none, true⟩ else info
  else info

/-- **The search**, over the entries from the oldest on. -/
def resolve (needed : Bool) (k : κ) (es : List (Entry κ α)) : Info α :=
  es.foldl (consult needed k) ⟨none, false⟩

/-- The youngest entry that writes a register. -/
def youngest (k : κ) (es : List (Entry κ α)) : Option (Entry κ α) :=
  es.reverse.find? (fun e => decide (e.key = some k))

variable {needed : Bool} {k : κ} {es : List (Entry κ α)}

/-- Entries that do not write the register change nothing. -/
theorem foldl_consult_of_forall_ne (h : ∀ e ∈ es, e.key ≠ some k) (info : Info α) :
    es.foldl (consult needed k) info = info := by
  induction es generalizing info with
  | nil => rfl
  | cons e es ih =>
    have hstay : consult needed k info e = info := if_neg (h e List.mem_cons_self)
    rw [List.foldl_cons, hstay, ih (fun e he => h e (List.mem_cons_of_mem _ he))]

/-- **A search that only the oldest entry answers.** -/
theorem resolve_cons_of_forall_ne {e : Entry κ α} (h : ∀ e ∈ es, e.key ≠ some k) :
    resolve needed k (e :: es) = consult needed k ⟨none, false⟩ e := by
  rw [resolve, List.foldl_cons, foldl_consult_of_forall_ne h]

/-- Nobody waits for an entry that has its value. -/
theorem stalled_resolve_singleton {e : Entry κ α} {v : α} (h : e.value = some v) :
    (resolve needed k [e]).stalled = false := by
  show (consult needed k ⟨none, false⟩ e).stalled = false
  unfold consult
  rw [h]
  split
  · rfl
  · rfl

theorem resolve_concat (es : List (Entry κ α)) (e : Entry κ α) :
    resolve needed k (es ++ [e]) = consult needed k (resolve needed k es) e := by
  rw [resolve, resolve, List.foldl_append]
  rfl

/-- **The youngest entry gives its value**, if it writes the register and has
one. -/
theorem value_resolve_concat {e : Entry κ α} {v : α} (hk : e.key = some k)
    (hv : e.value = some v) : (resolve needed k (es ++ [e])).value = some v := by
  rw [resolve_concat, consult, if_pos hk, hv]

theorem youngest_concat (es : List (Entry κ α)) (e : Entry κ α) :
    youngest k (es ++ [e]) = if e.key = some k then some e else youngest k es := by
  unfold youngest
  rw [List.reverse_append, List.reverse_singleton, List.singleton_append, List.find?_cons]
  by_cases he : e.key = some k
  · rw [if_pos he, decide_eq_true he]
  · rw [if_neg he, decide_eq_false he]

/-- A search that has made the reader wait keeps it waiting. -/
theorem stalled_of_resolve (e : Entry κ α)
    (h : (resolve needed k (es ++ [e])).stalled = false) :
    (resolve needed k es).stalled = false := by
  rw [resolve_concat] at h
  unfold consult at h
  split at h
  · split at h
    · exact h
    · split at h
      · cases h
      · exact h
  · exact h

/-- **A reader that does not wait for what it needs gets the value of the
youngest entry that writes its register.** -/
theorem resolve_eq_of_not_stalled (h : (resolve true k es).stalled = false) :
    (youngest k es = none ∧ (resolve true k es).value = none)
      ∨ ∃ e v, youngest k es = some e ∧ e.value = some v
        ∧ (resolve true k es).value = some v := by
  -- the induction takes the youngest entry off
  induction es using List.reverseRecOn with
  | nil => exact Or.inl ⟨rfl, rfl⟩
  | append_singleton es e ih =>
    have hold := ih (stalled_of_resolve e h)
    rw [youngest_concat]
    by_cases he : e.key = some k
    · rw [if_pos he]
      rw [resolve_concat, consult, if_pos he] at h ⊢
      cases hv : e.value with
      | none =>
        rw [hv] at h
        cases h
      | some v => exact Or.inr ⟨e, v, rfl, hv, rfl⟩
    · rw [if_neg he, resolve_concat, consult, if_neg he]
      exact hold

end Bypass
