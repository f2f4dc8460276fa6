import CheriTree.EntryTable
import CheriTree.Proteus.EnclaveRuntime

/-!
# The dispatch of an entry

`enclave_entry.S` is included by every enclave, before a table of its own. An
entry with any other index than zero and minus one is looked up there: one is
subtracted, the rest is multiplied by the size of an entry, and what comes out
is compared with the end of the table, as a signed number, and with nothing
else. `StrayIndex` is an index that gets past the comparison without naming an
entry; the dispatch is closed but for those.

The words before the table are code. Each of them is taken for an offset, by
some index, and jumped to.
-/

namespace Proteus

/-- **What an entry finds**: the two sections it was entered with, the memory,
and the table behind the code. -/
structure EntryCode where
  cfg : MemConfig
  device : Word → Word
  mem : TaggedMemory
  pcc : Capability
  c31 : Capability
  table : EntryTable 32

namespace EntryCode

variable (x : EntryCode)

/-! ## The text -/

/-- A load of a capability, `lc.cap`, unless it traps. -/
def lcCap (cs1 : Capability) : Option Capability :=
  if CapCheck.check cs1 cs1.address .load capByteWidth = none then
    some (x.mem.loadCap x.cfg x.device cs1.address)
  else none

/-- A load of a word, `lw.cap`, unless it traps. -/
def lwCap (cs1 : Capability) : Option Word :=
  if CapCheck.check cs1 cs1.address .load LsuAccessWidth.W.byteWidth = none
      ∧ cs1.address.toNat % 4 = 0 then
    some (x.mem.readWord x.cfg x.device cs1.address)
  else none

/-- A jump in the code section, `jr`, is made rather than traps. The lowest bit
is cleared. -/
def jrLands (t3 : Word) : Bool :=
  let target := t3 &&& ~~~1
  decide (target &&& 3 = 0) && decide (checkJumpTarget x.pcc (x.pcc.base + target) = none)

/-- The word at an offset of the code section. -/
def codeWord (offset : Word) : Word :=
  x.mem.readWord x.cfg x.device (UserEnclave.cSetOffset x.pcc offset).address

/-- The look into the table. -/
def tableEntry (a7 : Word) : EntryTable.Dispatched 32 :=
  let t0 := x.table.start
  let t1 := x.table.finish
  let t2 := (a7 - 1) <<< 2
  let t2 := t0 + t2
  if t1.sle t2 then .at .exit
  else
    match x.lwCap (UserEnclave.cSetOffset x.pcc t2) with
    | none => .stopped
    | some t3 => ⟨some t2, if x.jrLands t3 then some (.function t3) else none⟩

/-- **The dispatch**, from the first instruction of an entry on. -/
def dispatch (a7 : Word) : EntryTable.Dispatched 32 :=
  match x.lcCap x.c31 with
  | none => .stopped
  | some _ =>
    if a7 = 0 then .at .init
    else
      match x.lcCap (UserEnclave.cSetOffset x.c31 (BitVec.ofNat 32 DATA_OFFSET_CSP)) with
      | none => .stopped
      | some csp =>
        if csp.tag = false then .at .exit
        else if a7 = -1 then .at .returnEntry
        else x.tableEntry a7

/-! ## Indices that stray -/

/-- An entry with an index other than zero and minus one gets as far as the
table: the data section can be read, and has been initialised. -/
def Initialised : Prop :=
  x.lcCap x.c31 ≠ none
    ∧ ∃ csp, x.lcCap (UserEnclave.cSetOffset x.c31 (BitVec.ofNat 32 DATA_OFFSET_CSP)) = some csp
        ∧ csp.tag = true

/-- **An index that strays**: it names no entry and is taken for one that does.
Where its place is in the table, a jump that traps reaches nothing. -/
structure StrayIndex (a7 : Word) : Prop where
  initialised : x.Initialised
  ne_init : a7 ≠ 0
  ne_return : a7 ≠ -1
  unnamed : ¬ x.table.Names a7
  passes : (x.table.place a7).slt x.table.finish = true
  readable : x.lwCap (UserEnclave.cSetOffset x.pcc (x.table.place a7)) ≠ none
  goes : x.table.Holds (x.table.place a7) → x.jrLands (x.codeWord (x.table.place a7)) = true

section

variable {x} {a7 : Word}

theorem lwCap_eq_some {cs1 : Capability} {v : Word} (h : x.lwCap cs1 = some v) :
    v = x.mem.readWord x.cfg x.device cs1.address := by
  unfold lwCap at h
  split at h
  · exact (Option.some.inj h).symm
  · cases h

theorem tableEntry_eq :
    x.tableEntry a7 = EntryTable.looked ((x.table.place a7).slt x.table.finish) (x.table.place a7)
      (x.lwCap (UserEnclave.cSetOffset x.pcc (x.table.place a7))) x.jrLands := by
  have hcmp : x.table.finish.sle (x.table.place a7) = !(x.table.place a7).slt x.table.finish :=
    BitVec.sle_eq_not_slt
  show (if x.table.finish.sle (x.table.place a7) = true then _ else _) = _
  rw [hcmp]
  unfold EntryTable.looked
  cases (x.table.place a7).slt x.table.finish with
  | false => rfl
  | true => rfl

theorem dispatch_eq :
    x.dispatch a7 = EntryTable.guarded (x.lcCap x.c31).isSome
      ((x.lcCap (UserEnclave.cSetOffset x.c31 (BitVec.ofNat 32 DATA_OFFSET_CSP))).map
        Capability.tag) a7 (x.tableEntry a7) := by
  unfold dispatch EntryTable.guarded
  cases x.lcCap x.c31 with
  | none => rfl
  | some ct0 =>
    cases x.lcCap (UserEnclave.cSetOffset x.c31 (BitVec.ofNat 32 DATA_OFFSET_CSP)) with
    | none => rfl
    | some csp => rfl

/-- **The dispatch is closed exactly but for an index that strays.** -/
theorem dispatch_closed_iff (x : EntryCode) (a7 : Word) :
    x.table.Closed x.codeWord a7 (x.dispatch a7) ↔ ¬ x.StrayIndex a7 := by
  rw [dispatch_eq, EntryTable.closed_guarded_iff, tableEntry_eq,
    EntryTable.closed_looked_iff fun offset hload => lwCap_eq_some hload, Option.isSome_iff_ne_none,
    Option.map_eq_some_iff]
  constructor
  · intro h hstray
    exact h hstray.initialised.1 hstray.initialised.2 hstray.ne_init hstray.ne_return
      ⟨hstray.unnamed, hstray.passes, hstray.readable, hstray.goes⟩
  · rintro h hseal hcsp hinit hret ⟨hunnamed, hpasses, hreadable, hgoes⟩
    exact h ⟨⟨hseal, hcsp⟩, hinit, hret, hunnamed, hpasses, hreadable, hgoes⟩

/-- **Every word before the table is taken for an entry**, by some index. -/
theorem exists_strayIndex {k : ℕ} (hready : x.Initialised) (hpos : 0 < k)
    (hk : 4 * k ≤ x.table.start.toNat) (hlow : x.table.finish.toNat < 2 ^ 31)
    (hread : x.lwCap (UserEnclave.cSetOffset x.pcc
      (BitVec.ofNat 32 (x.table.start.toNat - 4 * k))) ≠ none) :
    ∃ a7, x.StrayIndex a7
      ∧ x.table.place a7 = BitVec.ofNat 32 (x.table.start.toNat - 4 * k) := by
  obtain ⟨a7, hinit, hret, hplace⟩ := EntryTable.exists_place (t := x.table) (by decide) hk
  have heq : x.table.place a7 = BitVec.ofNat 32 (x.table.start.toNat - 4 * k) := by
    rw [← hplace, BitVec.ofNat_toNat, BitVec.setWidth_eq]
  have hbelow : ¬ x.table.Holds (x.table.place a7) := by
    rw [EntryTable.Holds, hplace]
    omega
  have hfinish := x.table.toNat_finish
  refine ⟨a7, ⟨hready, hinit, hret, fun hnames => hbelow hnames.holds, ?_, heq ▸ hread,
    fun hholds => absurd hholds hbelow⟩, heq⟩
  rw [EntryTable.slt_finish_iff (v := 31) hlow, hplace]
  omega

end

end EntryCode

/-! ## The user enclave -/

namespace UserEnclave

variable (x : UserEnclave)

/-- The table of the user enclave has two entries. -/
def entryTable (h : x.enclaveEntriesStart.toNat + 4 * 2 < 2 ^ 32) : EntryTable 32 where
  start := x.enclaveEntriesStart
  entries := 2
  fits := h

/-- **A jump past the table of the user enclave** is an index that gets through
the comparison to a place outside it. -/
theorem dispatch_eq_wild_iff (h : x.enclaveEntriesStart.toNat + 4 * 2 < 2 ^ 32) (a7 : Word) :
    x.dispatch a7 = .wild ↔
      ((x.entryTable h).place a7).slt (x.entryTable h).finish = true
        ∧ ¬ (x.entryTable h).Holds ((x.entryTable h).place a7) := by
  have hcmp : (x.enclaveEntriesStart + 8).sle (x.enclaveEntriesStart + (a7 - 1) <<< 2)
      = !((x.entryTable h).place a7).slt (x.entryTable h).finish := BitVec.sle_eq_not_slt
  have hholds : (x.entryTable h).Holds ((x.entryTable h).place a7) ↔
      x.enclaveEntriesStart + (a7 - 1) <<< 2 = x.enclaveEntriesStart
        ∨ x.enclaveEntriesStart + (a7 - 1) <<< 2 = x.enclaveEntriesStart + 4 := by
    rw [EntryTable.holds_place_iff (by decide)]
    constructor
    · rintro ⟨j, hj, heq⟩
      match j, hj with
      | 0, _ => exact Or.inl (heq.trans (BitVec.add_zero _))
      | 1, _ => exact Or.inr heq
    · rintro (heq | heq)
      · exact ⟨0, Nat.zero_lt_two, heq.trans (BitVec.add_zero _).symm⟩
      · exact ⟨1, Nat.one_lt_two, heq⟩
  unfold dispatch
  simp only
  rw [hcmp, hholds]
  cases ((x.entryTable h).place a7).slt (x.entryTable h).finish with
  | false => simp
  | true =>
    rw [Bool.not_true, if_neg Bool.false_ne_true]
    split
    · rename_i hfirst
      exact ⟨nofun, fun hwild => absurd (Or.inl hfirst) hwild.2⟩
    · rename_i hfirst
      split
      · rename_i hsecond
        exact ⟨nofun, fun hwild => absurd (Or.inr hsecond) hwild.2⟩
      · rename_i hsecond
        exact ⟨fun _ => ⟨rfl, not_or.2 ⟨hfirst, hsecond⟩⟩, fun _ => rfl⟩

end UserEnclave

end Proteus
