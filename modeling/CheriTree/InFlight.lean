import Mathlib.Data.List.Basic

/-!
# Queues, and what is on its way

Requests that are answered in their order wait in a line. Where at most one
enters in a step, and each leaves within `L` steps, the line is never longer
than `L` (`InLine.length_le`): those in it have been there for different numbers
of steps.

A `Fifo` is a queue of bounded depth, by what it promises: it may be kept in any
way, as long as what it shows is what a list of at most `depth` elements would
show. It takes nothing while it is full, even when its oldest element leaves in
the same step.
-/

/-! ## The line -/

/-- **Something on its way**, and for how many steps it has been. -/
structure Aged (α : Type*) where
  item : α
  age : ℕ
deriving DecidableEq, Repr

namespace Aged

variable {α : Type*}

def older (a : Aged α) : Aged α := ⟨a.item, a.age + 1⟩

@[simp] theorem older_item (a : Aged α) : a.older.item = a.item := rfl

@[simp] theorem older_age (a : Aged α) : a.older.age = a.age + 1 := rfl

/-- **One step of the line**: the oldest may leave, and one may enter. -/
def advance (q : List (Aged α)) (leaves : Bool) (enters : Option α) : List (Aged α) :=
  (if leaves then q.tail else q).map older ++ enters.toList.map fun a => ⟨a, 1⟩

/-- The line without its ages. -/
def items (q : List (Aged α)) : List α := q.map item

variable {q : List (Aged α)} {leaves : Bool} {enters : Option α} {L : ℕ}

theorem items_advance :
    items (advance q leaves enters)
      = (if leaves then (items q).tail else items q) ++ enters.toList := by
  unfold items advance
  rw [List.map_append, List.map_map, List.map_map]
  congr 1
  · cases leaves with
    | false => rfl
    | true =>
      show q.tail.map item = (q.map item).tail
      exact List.map_tail
  · cases enters <;> rfl

/-- **A line in which none waits longer than `L`**: each has been there for
longer than those behind it. -/
structure InLine (L : ℕ) (q : List (Aged α)) : Prop where
  older : (q.map age).Pairwise (· > ·)
  pos : ∀ a ∈ q, 0 < a.age
  le : ∀ a ∈ q, a.age ≤ L

namespace InLine

theorem nil : InLine L ([] : List (Aged α)) :=
  ⟨List.Pairwise.nil, fun _ h => absurd h List.not_mem_nil, fun _ h => absurd h List.not_mem_nil⟩

theorem tail (h : InLine L q) : InLine L q.tail where
  older := by
    rw [List.map_tail]
    exact h.older.sublist (List.tail_sublist _)
  pos a ha := h.pos a (List.mem_of_mem_tail ha)
  le a ha := h.le a (List.mem_of_mem_tail ha)

/-- Behind the oldest, none has waited for `L` steps. -/
theorem lt_of_mem_tail (h : InLine L q) {a : Aged α} (ha : a ∈ q.tail) : a.age < L := by
  cases q with
  | nil => cases ha
  | cons first rest =>
    have hgt : first.age > a.age :=
      List.rel_of_pairwise_cons h.older (List.mem_map_of_mem ha)
    exact Nat.lt_of_lt_of_le hgt (h.le first List.mem_cons_self)

/-- **There are at most `L` in the line.** -/
theorem length_le (h : InLine L q) : q.length ≤ L := by
  -- behind the oldest is a line in which none waits as long as it has
  induction q generalizing L with
  | nil => exact Nat.zero_le L
  | cons first rest ih =>
    have hpos := h.pos first List.mem_cons_self
    have hrest : InLine (first.age - 1) rest := by
      refine ⟨h.tail.older, h.tail.pos, fun a ha => ?_⟩
      have hgt : first.age > a.age :=
        List.rel_of_pairwise_cons h.older (List.mem_map_of_mem ha)
      exact Nat.le_sub_one_of_lt hgt
    calc (first :: rest).length = rest.length + 1 := rfl
      _ ≤ first.age - 1 + 1 := Nat.succ_le_succ (ih hrest)
      _ = first.age := Nat.sub_add_cancel hpos
      _ ≤ L := h.le first List.mem_cons_self

/-- **A step keeps the line**, if the oldest leaves when its time is up. -/
theorem advance (h : InLine L q) (hpos : 0 < L)
    (hleaves : ∀ first rest, q = first :: rest → L ≤ first.age → leaves = true) :
    InLine L (advance q leaves enters) := by
  -- those that stay have one more step
  obtain ⟨stay, hstay, hline, hlt⟩ : ∃ stay, (if leaves then q.tail else q) = stay
      ∧ InLine L stay ∧ ∀ a ∈ stay, a.age < L := by
    cases hl : leaves with
    | true => exact ⟨q.tail, rfl, h.tail, fun a ha => h.lt_of_mem_tail ha⟩
    | false =>
      refine ⟨q, rfl, h, fun a ha => ?_⟩
      cases q with
      | nil => cases ha
      | cons first rest =>
        have hfirst : first.age < L := by
          by_contra hno
          have := hleaves first rest rfl (Nat.not_lt.1 hno)
          rw [hl] at this
          cases this
        rcases List.mem_cons.1 ha with rfl | ha
        · exact hfirst
        · exact h.lt_of_mem_tail ha
  unfold Aged.advance
  rw [hstay]
  constructor
  · rw [List.map_append, List.map_map, List.pairwise_append]
    refine ⟨?_, ?_, ?_⟩
    · refine List.pairwise_map.2 ((List.pairwise_map.1 hline.older).imp ?_)
      intro a b hgt
      exact Nat.succ_lt_succ hgt
    · cases enters with
      | none => exact List.Pairwise.nil
      | some item => exact List.pairwise_singleton _ _
    · intro m hm n hn
      obtain ⟨a, ha, rfl⟩ := List.mem_map.1 hm
      obtain ⟨b, hb, rfl⟩ := List.mem_map.1 hn
      obtain ⟨item, -, rfl⟩ := List.mem_map.1 hb
      exact Nat.succ_lt_succ (hline.pos a ha)
  · intro a ha
    rcases List.mem_append.1 ha with ha | ha
    · obtain ⟨b, -, rfl⟩ := List.mem_map.1 ha
      exact Nat.succ_pos b.age
    · obtain ⟨item, -, rfl⟩ := List.mem_map.1 ha
      exact Nat.one_pos
  · intro a ha
    rcases List.mem_append.1 ha with ha | ha
    · obtain ⟨b, hb, rfl⟩ := List.mem_map.1 ha
      exact hlt b hb
    · obtain ⟨item, -, rfl⟩ := List.mem_map.1 ha
      exact hpos

end InLine

end Aged

/-! ## Queues of bounded depth -/

/-- **A FIFO**, by what it promises. The payload it shows means nothing while it
has nothing to show. -/
structure Fifo (α : Type) (depth : ℕ) where
  State : Type
  reset : State
  /-- What is in it, the oldest first. -/
  contents : State → List α
  popValid : State → Bool
  popPayload : State → α
  occupancy : State → ℕ
  next : State → (push : Option α) → (popReady flush : Bool) → State
  contents_reset : contents reset = []
  popValid_eq : ∀ s, popValid s = !(contents s).isEmpty
  popPayload_eq : ∀ s a rest, contents s = a :: rest → popPayload s = a
  occupancy_eq : ∀ s, occupancy s = (contents s).length
  contents_next : ∀ s push popReady flush, contents (next s push popReady flush)
    = if flush then [] else (if popReady then (contents s).tail else contents s)
      ++ if (contents s).length < depth then push.toList else []

namespace Fifo

variable {α : Type} {depth : ℕ} (fifo : Fifo α depth)

/-- **What is pushed is taken** where there is room. -/
theorem contents_push {s : fifo.State} {push : Option α} {popReady : Bool}
    (hroom : (fifo.contents s).length < depth) :
    fifo.contents (fifo.next s push popReady false)
      = (if popReady then (fifo.contents s).tail else fifo.contents s) ++ push.toList := by
  rw [fifo.contents_next, if_neg Bool.false_ne_true, if_pos hroom]

/-- Nothing is in a FIFO that has not been there before or been pushed. -/
theorem mem_next {s : fifo.State} {push : Option α} {popReady flush : Bool} {a : α}
    (ha : a ∈ fifo.contents (fifo.next s push popReady flush)) :
    a ∈ fifo.contents s ∨ push = some a := by
  rw [fifo.contents_next] at ha
  split at ha
  · cases ha
  · rcases List.mem_append.1 ha with ha | ha
    · split at ha
      · exact Or.inl (List.mem_of_mem_tail ha)
      · exact Or.inl ha
    · split at ha
      · exact Or.inr (Option.mem_toList.1 ha)
      · cases ha

/-- What a FIFO shows is in it. -/
theorem popPayload_mem {s : fifo.State} (h : fifo.popValid s = true) :
    fifo.popPayload s ∈ fifo.contents s := by
  rw [fifo.popValid_eq] at h
  cases hs : fifo.contents s with
  | nil =>
    rw [hs] at h
    cases h
  | cons a rest =>
    rw [fifo.popPayload_eq s a rest hs]
    exact List.mem_cons_self

/-- **The FIFO that is a list.** -/
def ofList (α : Type) [Inhabited α] (depth : ℕ) : Fifo α depth where
  State := List α
  reset := []
  contents s := s
  popValid s := !s.isEmpty
  popPayload s := s.headD default
  occupancy s := s.length
  next s push popReady flush :=
    if flush then [] else (if popReady then s.tail else s)
      ++ if s.length < depth then push.toList else []
  contents_reset := rfl
  popValid_eq _ := rfl
  popPayload_eq s a rest h := by rw [h]; rfl
  occupancy_eq _ := rfl
  contents_next _ _ _ _ := rfl

end Fifo
