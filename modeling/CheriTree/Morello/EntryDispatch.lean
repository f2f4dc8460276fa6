import CheriTree.EntryTable
import CheriTree.Morello.UniqueAlloc

/-!
# The dispatch of an entry at EL1

The port of `enclave_entry.S`. An index is looked up in the table of the
enclave at an address that is added up in 64 bits; what decides is the sign of
its difference from the end of the table (`B.PL`), where Proteus compares. The
capability the entry is read through is that of the program counter, moved
twice, first to the table and then along it, and a third time to the function.

An entry point is not told from any other word of the code section here
either, if it is before the table.
-/

namespace Morello

/-- The offset of the stack pointer in the data section. -/
def DATA_OFFSET_CSP : ℕ := 3 * CAP_LEN

/-- The word at an address. -/
def Memory.wordAt (m : Memory) (a : Word) : BitVec 32 :=
  m.byte (a.toNat + 3) ++ m.byte (a.toNat + 2) ++ m.byte (a.toNat + 1) ++ m.byte a.toNat

/-- A word loaded through a capability, from where it points. -/
def Memory.loadWord (m : Memory) (c : Capability) : Option (BitVec 32) :=
  if c.tag = true ∧ c.isSealed = false ∧ c.perms.load = true ∧ c.InBounds c.address 4 then
    some (m.wordAt c.address)
  else none

/-- `SCOFF`. -/
def CapEncoding.scoff (enc : CapEncoding) (c : Capability) (offset : Word) : Capability :=
  enc.cheriAddressSet c (c.base + offset)

/-- **What an entry finds**: the two sections it was entered with, the memory,
the table behind the code, and the address of the table as the linker left it
in the literal pool. -/
structure EntryCode where
  enc : CapEncoding
  mem : Memory
  pcc : Capability
  c29 : Capability
  table : EntryTable 64
  entriesStart : Word

namespace EntryCode

variable (x : EntryCode)

/-! ## The text -/

/-- A jump, `BR`, lands rather than traps. The lowest bit chooses the
instruction set and is cleared. -/
def brLands (c12 : Capability) : Bool :=
  let target := c12.address &&& ~~~1
  c12.tag && !c12.isSealed && decide (target &&& 3 = 0) && decide (c12.InBounds target 4)

/-- The look into the table. -/
def tableEntry (x7 : Word) : EntryTable.Dispatched 64 :=
  let x13 := x.entriesStart
  let x14 := x.entriesStart + BitVec.ofNat 64 (4 * x.table.entries)
  let x15 := x7 + -1
  let x15 := x15 <<< 2
  let x16 := x13 + x15
  -- `B.PL` branches where the sign of the difference is not set
  if (x16 - x14).msb = false then .at .exit
  else
    let c12 := x.enc.cheriAddressSet x.pcc x.table.start
    let x17 := cheriOffsetGet c12
    let x15' := x17 + x15
    let c12 := x.enc.scoff c12 x15'
    match x.mem.loadWord c12 with
    | none => .stopped
    | some w6 =>
      ⟨some c12.address, if brLands (x.enc.scoff c12 (w6.setWidth 64)) then some (.function w6)
        else none⟩

/-- **The dispatch**, from the first instruction of an entry on. -/
def dispatch (x7 : Word) : EntryTable.Dispatched 64 :=
  match x.mem.loadCap x.c29 x.c29.address with
  | none => .stopped
  | some _ =>
    if x7 = 0 then .at .init
    else
      match x.mem.loadCap x.c29 (x.c29.address + BitVec.ofNat 64 DATA_OFFSET_CSP) with
      | none => .stopped
      | some csp =>
        if csp.tag = false then .at .exit
        else if x7 = -1 then .at .returnEntry
        else x.tableEntry x7

/-! ## Indices that stray -/

/-- An entry with an index other than zero and minus one gets as far as the
table. -/
def Initialised : Prop :=
  x.mem.loadCap x.c29 x.c29.address ≠ none
    ∧ ∃ csp, x.mem.loadCap x.c29 (x.c29.address + BitVec.ofNat 64 DATA_OFFSET_CSP) = some csp
        ∧ csp.tag = true

/-- The capability of the program counter, moved to the table and from there
to an address. -/
def codeCap (a : Word) : Capability :=
  x.enc.cheriAddressSet (x.enc.cheriAddressSet x.pcc x.table.start) a

/-- The jump to the offset that is the word at an address. -/
def JumpLands (a : Word) : Prop :=
  brLands (x.enc.scoff (x.codeCap a) ((x.mem.wordAt a).setWidth 64)) = true

/-- **An index that strays**: it names no entry and is taken for one that does.
Where its place is in the table, a jump that traps reaches nothing. -/
structure StrayIndex (x7 : Word) : Prop where
  initialised : x.Initialised
  ne_init : x7 ≠ 0
  ne_return : x7 ≠ -1
  unnamed : ¬ x.table.Names x7
  passes : (x.table.place x7 - x.table.finish).msb = true
  readable : x.mem.loadWord (x.codeCap (x.table.place x7)) ≠ none
  goes : x.table.Holds (x.table.place x7) → x.JumpLands (x.table.place x7)

section

variable {x} {x7 : Word}

theorem loadWord_eq_some {m : Memory} {c : Capability} {v : BitVec 32}
    (h : m.loadWord c = some v) : v = m.wordAt c.address := by
  unfold Memory.loadWord at h
  split at h
  · exact (Option.some.inj h).symm
  · cases h

theorem cheriAddressSet_base (enc : CapEncoding) (c : Capability) (a : Word) :
    (enc.cheriAddressSet c a).base = c.base := by
  rw [CapEncoding.cheriAddressSet, Capability.tagIf_base, Morello.cheriAddressSet,
    Capability.tagIf_base]

/-- The entry is read at the place of the index. -/
theorem scoff_table (offset : Word) :
    x.enc.scoff (x.enc.cheriAddressSet x.pcc x.table.start)
      (cheriOffsetGet (x.enc.cheriAddressSet x.pcc x.table.start) + offset)
      = x.codeCap (x.table.start + offset) := by
  unfold CapEncoding.scoff codeCap cheriOffsetGet
  rw [cheriAddressSet_address, ← BitVec.add_assoc, BitVec.add_comm _ (x.table.start - _),
    BitVec.sub_add_cancel]

/-- The difference from the end does not depend on where the table is. -/
theorem sub_end (offset : Word) :
    x.entriesStart + offset - (x.entriesStart + BitVec.ofNat 64 (4 * x.table.entries))
      = x.table.start + offset - x.table.finish := by
  have hcancel : ∀ a : Word, a + offset - (a + BitVec.ofNat 64 (4 * x.table.entries))
      = offset - BitVec.ofNat 64 (4 * x.table.entries) := by
    intro a
    rw [BitVec.sub_eq_iff_eq_add, BitVec.add_comm a (BitVec.ofNat _ _), ← BitVec.add_assoc,
      BitVec.sub_add_cancel, BitVec.add_comm]
  rw [hcancel, EntryTable.finish, hcancel]

theorem place_eq : x.table.place x7 = x.table.start + (x7 + -1) <<< 2 := by
  rw [EntryTable.place, EntryTable.distance, BitVec.sub_eq_add_neg]

theorem tableEntry_eq :
    x.tableEntry x7 = EntryTable.looked (x.table.place x7 - x.table.finish).msb (x.table.place x7)
      (x.mem.loadWord (x.codeCap (x.table.place x7)))
      (fun w6 => brLands (x.enc.scoff (x.codeCap (x.table.place x7)) (w6.setWidth 64))) := by
  have haddr : (x.codeCap (x.table.place x7)).address = x.table.place x7 :=
    cheriAddressSet_address _ _
  unfold tableEntry EntryTable.looked
  simp only
  rewrite [scoff_table, sub_end, ← place_eq, haddr]
  rfl

theorem dispatch_eq :
    x.dispatch x7 = EntryTable.guarded (x.mem.loadCap x.c29 x.c29.address).isSome
      ((x.mem.loadCap x.c29 (x.c29.address + BitVec.ofNat 64 DATA_OFFSET_CSP)).map
        Capability.tag) x7 (x.tableEntry x7) := by
  unfold dispatch EntryTable.guarded
  cases x.mem.loadCap x.c29 x.c29.address with
  | none => rfl
  | some c9 =>
    simp only [Option.isSome_some, Bool.true_eq_false, if_false]
    cases x.mem.loadCap x.c29 (x.c29.address + BitVec.ofNat 64 DATA_OFFSET_CSP) with
    | none => rfl
    | some csp => rfl

/-- **The dispatch is closed exactly but for an index that strays.** -/
theorem dispatch_closed_iff (x : EntryCode) (x7 : Word) :
    x.table.Closed x.mem.wordAt x7 (x.dispatch x7) ↔ ¬ x.StrayIndex x7 := by
  have hword : ∀ offset, x.mem.loadWord (x.codeCap (x.table.place x7)) = some offset →
      offset = x.mem.wordAt (x.table.place x7) := by
    intro offset hload
    rw [loadWord_eq_some hload, codeCap, cheriAddressSet_address]
  rw [dispatch_eq, EntryTable.closed_guarded_iff, tableEntry_eq,
    EntryTable.closed_looked_iff hword, Option.isSome_iff_ne_none, Option.map_eq_some_iff]
  constructor
  · intro h hstray
    exact h hstray.initialised.1 hstray.initialised.2 hstray.ne_init hstray.ne_return
      ⟨hstray.unnamed, hstray.passes, hstray.readable, hstray.goes⟩
  · rintro h hseal hcsp hinit hret ⟨hunnamed, hpasses, hreadable, hgoes⟩
    exact h ⟨⟨hseal, hcsp⟩, hinit, hret, hunnamed, hpasses, hreadable, hgoes⟩

/-- **Every word before the table is taken for an entry**, by some index. -/
theorem exists_strayIndex {k : ℕ} (hready : x.Initialised) (hpos : 0 < k)
    (hk : 4 * k ≤ x.table.start.toNat) (hsmall : 4 * x.table.entries + 4 * k ≤ 2 ^ 63)
    (hread : x.mem.loadWord (x.codeCap (BitVec.ofNat 64 (x.table.start.toNat - 4 * k))) ≠ none) :
    ∃ x7, x.StrayIndex x7
      ∧ x.table.place x7 = BitVec.ofNat 64 (x.table.start.toNat - 4 * k) := by
  obtain ⟨x7, hinit, hret, hplace⟩ := EntryTable.exists_place (t := x.table) (by decide) hk
  have heq : x.table.place x7 = BitVec.ofNat 64 (x.table.start.toNat - 4 * k) := by
    rw [← hplace, BitVec.ofNat_toNat, BitVec.setWidth_eq]
  have hbelow : ¬ x.table.Holds (x.table.place x7) := by
    rw [EntryTable.Holds, hplace]
    omega
  refine ⟨x7, ⟨hready, hinit, hret, fun hnames => hbelow hnames.holds, ?_, heq ▸ hread,
    fun hholds => absurd hholds hbelow⟩, heq⟩
  rw [EntryTable.msb_sub_finish_iff (v := 63) (by omega)]
  have hdist := (EntryTable.distance x7).isLt
  have hstart := x.table.start.isLt
  rw [EntryTable.place, BitVec.toNat_add] at hplace
  omega

end

end EntryCode

end Morello
