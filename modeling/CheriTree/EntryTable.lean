import Mathlib.Data.BitVec
import Mathlib.Tactic.Ring

/-!
# Entering code through a table

Protected code is entered at one place, with an index that says what is
wanted: its initialisation, the return from a call it made, or one of the
functions in a table of offsets, four bytes each, counted from one. The
dispatcher computes with the index in the width of a register; `place` is
where it then looks. What it must come to is said by `Closed`: nothing is
taken from outside the table, and a function only by an index that names it.

Two ways of telling an index too large from one that is not are compared with
what they are for. Both look at a sign. With nothing that looks at the start
of the table, the places below it pass both (`slt_finish_iff`,
`msb_sub_finish_iff`), and some index leads to each of them (`exists_place`).
-/

/-- **A table of entries**, of four bytes each, in the address space. -/
structure EntryTable (w : ℕ) where
  start : BitVec w
  entries : ℕ
  fits : start.toNat + 4 * entries < 2 ^ w

namespace EntryTable

variable {w : ℕ}

/-- How far behind the start an index points. -/
def distance (index : BitVec w) : BitVec w := (index - 1) <<< 2

variable (t : EntryTable w)

/-- The first byte behind the table. -/
def finish : BitVec w := t.start + BitVec.ofNat w (4 * t.entries)

/-- Where an index points. -/
def place (index : BitVec w) : BitVec w := t.start + distance index

/-- A byte of the table. -/
def Holds (p : BitVec w) : Prop := t.start.toNat ≤ p.toNat ∧ p.toNat < t.start.toNat + 4 * t.entries

instance (p : BitVec w) : Decidable (t.Holds p) := inferInstanceAs (Decidable (_ ∧ _))

/-- **An index that names an entry.** -/
def Names (index : BitVec w) : Prop := 1 ≤ index.toNat ∧ index.toNat ≤ t.entries

instance (index : BitVec w) : Decidable (t.Names index) := inferInstanceAs (Decidable (_ ∧ _))

/-- The entry an index names. -/
def entry (index : BitVec w) : ℕ := t.start.toNat + 4 * (index.toNat - 1)

/-! ## Dispatch -/

/-- What a dispatcher reaches: one of its labels, or a function by the offset
that was found for it. -/
inductive Target where
  | init
  | returnEntry
  | exit
  | function (offset : BitVec 32)
deriving DecidableEq, Repr

/-- **What a dispatcher comes to**: the place it took an offset from, if it
took one, and what it reached, if it did not stop before. -/
structure Dispatched (w : ℕ) where
  loaded : Option (BitVec w)
  reached : Option Target
deriving DecidableEq

/-- Stopped on the way. -/
def Dispatched.stopped : Dispatched w := ⟨none, none⟩

/-- At a label. -/
def Dispatched.at (target : Target) : Dispatched w := ⟨none, some target⟩

/-- What comes before the table: the section has to be readable and, but for
an index of zero, the saved stack pointer in it, whose tag says whether it has
been initialised. -/
def guarded (readable : Bool) (cspTag : Option Bool) (index : BitVec w) (look : Dispatched w) :
    Dispatched w :=
  if readable = false then .stopped
  else if index = 0 then .at .init
  else
    match cspTag with
    | none => .stopped
    | some tag =>
      if tag = false then .at .exit else if index = -1 then .at .returnEntry else look

/-- The look into the table at a place, by an index that the comparison lets
through or not. -/
def looked (passes : Bool) (p : BitVec w) (word : Option (BitVec 32))
    (lands : BitVec 32 → Bool) : Dispatched w :=
  if passes = false then .at .exit
  else
    match word with
    | none => .stopped
    | some offset => ⟨some p, if lands offset then some (.function offset) else none⟩

/-- **The dispatch is closed**: it reaches a label by the index that is for it,
and a function by an index that names its entry; and no offset is taken from
outside the table. -/
structure Closed (content : BitVec w → BitVec 32) (index : BitVec w) (d : Dispatched w) : Prop where
  init : d.reached = some .init → index = 0
  returnEntry : d.reached = some .returnEntry → index = -1
  function : ∀ offset, d.reached = some (.function offset) →
    t.Names index ∧ offset = content (BitVec.ofNat w (t.entry index))
  loaded : ∀ p, d.loaded = some p → t.Holds p

/-! ## Places -/

theorem toNat_finish : t.finish.toNat = t.start.toNat + 4 * t.entries := by
  have hfits := t.fits
  rw [finish, BitVec.toNat_add, BitVec.toNat_ofNat, Nat.mod_eq_of_lt (a := 4 * _) (by omega),
    Nat.mod_eq_of_lt hfits]

theorem toNat_one (h : 1 < 2 ^ w) : (1 : BitVec w).toNat = 1 := by
  show 1 % 2 ^ w = 1
  exact Nat.mod_eq_of_lt h

theorem toNat_distance (index : BitVec w) :
    (distance index).toNat = 4 * (index - 1).toNat % 2 ^ w := by
  rw [distance, BitVec.toNat_shiftLeft, Nat.shiftLeft_eq, Nat.mul_comm]

variable {t} {index : BitVec w}

/-- **An index that names an entry points at it.** -/
theorem Names.toNat_place (h : t.Names index) : (t.place index).toNat = t.entry index := by
  have hfits := t.fits
  obtain ⟨hpos, hle⟩ := h
  have hindex := index.isLt
  have hone := toNat_one (w := w) (by omega)
  have hsub : (index - 1).toNat = index.toNat - 1 := by
    rw [BitVec.toNat_sub_of_le (BitVec.le_def.2 (by rw [hone]; exact hpos)), hone]
  rw [place, BitVec.toNat_add, toNat_distance, hsub, Nat.mod_eq_of_lt (a := 4 * _) (by omega),
    Nat.mod_eq_of_lt (by omega), entry]

theorem Names.place_eq (h : t.Names index) : t.place index = BitVec.ofNat w (t.entry index) := by
  rw [← h.toNat_place, BitVec.ofNat_toNat, BitVec.setWidth_eq]

theorem Names.holds (h : t.Names index) : t.Holds (t.place index) := by
  obtain ⟨hpos, hle⟩ := h
  rw [Holds, Names.toNat_place ⟨hpos, hle⟩, entry]
  omega

/-- **A place in the table** is that of one of its entries. -/
theorem holds_place_iff (hw : 2 ≤ w) :
    t.Holds (t.place index) ↔
      ∃ j < t.entries, t.place index = t.start + BitVec.ofNat w (4 * j) := by
  have hfits := t.fits
  constructor
  · rintro ⟨hlo, hhi⟩
    obtain ⟨v, rfl⟩ := Nat.exists_eq_add_of_le' hw
    have hstart := t.start.isLt
    have hdist : (distance index).toNat = 4 * ((index - 1).toNat % 2 ^ v) := by
      rw [toNat_distance, show 2 ^ (v + 2) = 4 * 2 ^ v by ring, Nat.mul_mod_mul_left]
    have hlt := (distance index).isLt
    refine ⟨(index - 1).toNat % 2 ^ v, ?_, ?_⟩
    · rw [place, BitVec.toNat_add] at hlo hhi
      rcases Nat.lt_or_ge (t.start.toNat + (distance index).toNat) (2 ^ (v + 2)) with hno | hwrap
      · rw [Nat.mod_eq_of_lt hno] at hhi
        omega
      · -- a place that has wrapped is below the start
        rw [Nat.mod_eq_sub_mod hwrap, Nat.mod_eq_of_lt (by omega)] at hlo
        omega
    · rw [← hdist, BitVec.ofNat_toNat, BitVec.setWidth_eq, place]
  · rintro ⟨j, hj, heq⟩
    rw [heq, Holds, BitVec.toNat_add, BitVec.toNat_ofNat, Nat.mod_eq_of_lt (a := 4 * j) (by omega),
      Nat.mod_eq_of_lt (by omega)]
    omega

/-- **Every place below the table is pointed at**, word by word, by an index
that is neither zero nor minus one. -/
theorem exists_place {k : ℕ} (hw : 3 ≤ w) (hk : 4 * k ≤ t.start.toNat) :
    ∃ index : BitVec w, index ≠ 0 ∧ index ≠ -1 ∧ (t.place index).toNat = t.start.toNat - 4 * k := by
  obtain ⟨v, rfl⟩ := Nat.exists_eq_add_of_le' hw
  have hstart := t.start.isLt
  have hpow : 2 ^ (v + 3) = 4 * 2 ^ (v + 1) := by ring
  have hpos : 2 ≤ 2 ^ (v + 1) := by
    rw [pow_succ]
    have := Nat.one_le_two_pow (n := v)
    omega
  -- four times the index wraps around by what is to be gone back
  let j := 2 ^ (v + 1) - k
  have hj : 4 * j = 2 ^ (v + 3) - 4 * k := by omega
  have hindex : (BitVec.ofNat (v + 3) (j + 1)).toNat = j + 1 := by
    rw [BitVec.toNat_ofNat, Nat.mod_eq_of_lt (by omega)]
  have hone := toNat_one (w := v + 3) (by omega)
  refine ⟨BitVec.ofNat (v + 3) (j + 1), fun h => ?_, fun h => ?_, ?_⟩
  · have := congrArg BitVec.toNat h
    rw [hindex] at this
    exact absurd this (Nat.succ_ne_zero j)
  · have := congrArg BitVec.toNat h
    rw [hindex, BitVec.toNat_neg, hone, Nat.mod_eq_of_lt (by omega)] at this
    omega
  · have hsub : (BitVec.ofNat (v + 3) (j + 1) - 1).toNat = j := by
      rw [BitVec.toNat_sub_of_le (BitVec.le_def.2 (by rw [hone, hindex]; omega)), hone, hindex]
      omega
    rw [place, BitVec.toNat_add, toNat_distance, hsub, hj, Nat.add_mod_mod,
      show t.start.toNat + (2 ^ (v + 3) - 4 * k) = t.start.toNat - 4 * k + 2 ^ (v + 3) by omega,
      Nat.add_mod_right, Nat.mod_eq_of_lt (by omega)]

/-! ## What is closed -/

section

variable {content : BitVec w → BitVec 32}

theorem closed_stopped : t.Closed content index .stopped :=
  ⟨nofun, nofun, nofun, nofun⟩

theorem closed_exit : t.Closed content index (.at .exit) :=
  ⟨nofun, nofun, nofun, nofun⟩

theorem closed_init : t.Closed content 0 (.at .init) :=
  ⟨fun _ => rfl, nofun, nofun, nofun⟩

theorem closed_returnEntry : t.Closed content (-1) (.at .returnEntry) :=
  ⟨nofun, fun _ => rfl, nofun, nofun⟩

/-- Before the table nothing is reached but the labels. -/
theorem closed_guarded_iff {readable : Bool} {cspTag : Option Bool} {look : Dispatched w} :
    t.Closed content index (guarded readable cspTag index look) ↔
      (readable = true → cspTag = some true → index ≠ 0 → index ≠ -1 →
        t.Closed content index look) := by
  unfold guarded
  cases readable with
  | false => exact ⟨fun _ h => absurd h Bool.false_ne_true, fun _ => closed_stopped⟩
  | true =>
    rw [if_neg Bool.true_eq_false_eq_False]
    by_cases hinit : index = 0
    · rw [if_pos hinit, hinit]
      exact ⟨fun _ _ _ h => absurd rfl h, fun _ => closed_init⟩
    · rw [if_neg hinit]
      match cspTag with
      | none => exact ⟨fun _ _ h => (Option.some_ne_none _ h.symm).elim, fun _ => closed_stopped⟩
      | some false =>
        exact ⟨fun _ _ h => absurd (Option.some.inj h) Bool.false_ne_true, fun _ => closed_exit⟩
      | some true =>
        show t.Closed _ _ (if index = -1 then _ else _) ↔ _
        by_cases hret : index = -1
        · rw [if_pos hret, hret]
          exact ⟨fun _ _ _ _ h => absurd rfl h, fun _ => closed_returnEntry⟩
        · rw [if_neg hret]
          exact ⟨fun h _ _ _ _ => h, fun h => h rfl rfl hinit hret⟩

/-- **What is taken from the place of an index**: it is closed where the index
names an entry, and where the place is in the table and nothing is reached. -/
theorem closed_loaded_iff {reached : Option Target}
    (h : reached = none ∨ reached = some (.function (content (t.place index)))) :
    t.Closed content index ⟨some (t.place index), reached⟩ ↔
      t.Names index ∨ t.Holds (t.place index) ∧ reached = none := by
  constructor
  · intro hclosed
    rcases h with hnone | hsome
    · exact Or.inr ⟨hclosed.loaded _ rfl, hnone⟩
    · exact Or.inl (hclosed.function _ hsome).1
  · rintro (hnames | ⟨hholds, rfl⟩)
    · refine ⟨fun hi => ?_, fun hr => ?_, fun offset ho => ?_, ?_⟩
      · rcases h with rfl | rfl <;> cases hi
      · rcases h with rfl | rfl <;> cases hr
      · rcases h with rfl | rfl
        · cases ho
        · cases ho
          exact ⟨hnames, by rw [hnames.place_eq]⟩
      · rintro p ⟨⟩
        exact hnames.holds
    · refine ⟨nofun, nofun, nofun, ?_⟩
      rintro p ⟨⟩
      exact hholds

/-- **The look into the table is closed** where the index names an entry or is
turned away, where nothing can be read, and where what is read is in the table
and nothing is reached by it. -/
theorem closed_looked_iff {passes : Bool} {word : Option (BitVec 32)} {lands : BitVec 32 → Bool}
    (hword : ∀ offset, word = some offset → offset = content (t.place index)) :
    t.Closed content index (looked passes (t.place index) word lands) ↔
      ¬ (¬ t.Names index ∧ passes = true ∧ word ≠ none
        ∧ (t.Holds (t.place index) → lands (content (t.place index)) = true)) := by
  cases passes with
  | false => exact ⟨fun _ h => Bool.false_ne_true h.2.1, fun _ => closed_exit⟩
  | true =>
    cases word with
    | none => exact ⟨fun _ h => h.2.2.1 rfl, fun _ => closed_stopped⟩
    | some offset =>
      obtain rfl := hword offset rfl
      cases hlands : lands (content (t.place index)) with
      | false =>
        have hlooked : looked true (t.place index) (some (content (t.place index))) lands
            = ⟨some (t.place index), none⟩ := by simp [looked, hlands]
        rw [hlooked, closed_loaded_iff (Or.inl rfl)]
        simp only [and_true, Bool.false_eq_true, imp_false, ne_eq, reduceCtorEq, not_false_eq_true,
          true_and]
        tauto
      | true =>
        have hlooked : looked true (t.place index) (some (content (t.place index))) lands
            = ⟨some (t.place index), some (.function (content (t.place index)))⟩ := by
          simp [looked, hlands]
        rw [hlooked, closed_loaded_iff (Or.inr rfl)]
        simp

end

/-! ## What a sign tells -/

variable {v : ℕ} {s : EntryTable (v + 1)} {index : BitVec (v + 1)}

/-- **The signed comparison with the end**, of a table in the lower half of the
address space. -/
theorem slt_finish_iff (h : s.finish.toNat < 2 ^ v) :
    (s.place index).slt s.finish = true ↔
      (s.place index).toNat < s.finish.toNat ∨ 2 ^ v ≤ (s.place index).toNat := by
  have hplace := (s.place index).isLt
  have hpow : 2 ^ (v + 1) = 2 * 2 ^ v := pow_succ' 2 v
  rw [BitVec.slt_iff_toInt_lt, BitVec.toInt_eq_toNat_cond, BitVec.toInt_eq_toNat_cond]
  split <;> split <;> omega

/-- **The sign of the difference from the end.** -/
theorem msb_sub_finish_iff (h : 4 * s.entries ≤ 2 ^ v) :
    (s.place index - s.finish).msb = true ↔
      (distance index).toNat < 4 * s.entries
        ∨ 2 ^ v + 4 * s.entries ≤ (distance index).toNat := by
  have hdist := (distance index).isLt
  have hpow : 2 ^ (v + 1) = 2 * 2 ^ v := pow_succ' 2 v
  have hpos : 0 < 2 ^ v := Nat.two_pow_pos v
  have hdiff : s.place index - s.finish
      = distance index - BitVec.ofNat (v + 1) (4 * s.entries) := by
    rw [place, finish, BitVec.sub_eq_iff_eq_add, BitVec.add_comm s.start (BitVec.ofNat _ _),
      ← BitVec.add_assoc, BitVec.sub_add_cancel, BitVec.add_comm]
  rw [hdiff, BitVec.msb_eq_decide, decide_eq_true_iff, BitVec.toNat_sub, BitVec.toNat_ofNat,
    Nat.mod_eq_of_lt (a := 4 * s.entries) (by omega), Nat.add_sub_cancel]
  by_cases hlt : (distance index).toNat < 4 * s.entries
  · rw [Nat.mod_eq_of_lt (by omega)]
    omega
  · rw [show 2 ^ (v + 1) - 4 * s.entries + (distance index).toNat
        = (distance index).toNat - 4 * s.entries + 2 ^ (v + 1) by omega,
      Nat.add_mod_right, Nat.mod_eq_of_lt (by omega)]
    omega

end EntryTable
