import CheriTree.Morello.EntryDispatch
import CheriTree.Proteus.EntryDispatch

/-!
# One dispatch, two instruction sets

The two ports of the entry code look for an entry in the same way and stop at
the end of the table in two: Proteus by a signed comparison of two addresses,
Morello by the sign of their difference. On either one the dispatch is closed
but for the indices that get past it without naming an entry.
-/

/-- **The dispatch is closed exactly but for the indices that stray**, on both
ports. -/
theorem entryDispatch_closed_iff (x : Proteus.EntryCode) (a7 : Proteus.Word)
    (y : Morello.EntryCode) (x7 : Morello.Word) :
    (x.table.Closed x.codeWord a7 (x.dispatch a7) ↔ ¬ x.StrayIndex a7)
      ∧ (y.table.Closed y.mem.wordAt x7 (y.dispatch x7) ↔ ¬ y.StrayIndex x7) :=
  ⟨Proteus.EntryCode.dispatch_closed_iff x a7, Morello.EntryCode.dispatch_closed_iff y x7⟩

namespace Proteus

/-- An enclave whose data section has been initialised, with two entries behind
sixteen words of code. -/
def smallEntryCode : EntryCode where
  cfg := ⟨0, 0x1000, Nat.succ_pos _, by decide, by decide⟩
  device := fun _ => 0
  mem := ⟨fun _ => true, fun _ => 0⟩
  pcc := { Capability.root with base := 0x1000, length := 0x100 }
  c31 := { Capability.root with base := 0x2000, length := 0x1000 }
  table := ⟨0x40, 2, by decide⟩

end Proteus

namespace Morello

/-- The same on Morello. -/
def smallEntryCode : EntryCode where
  enc := smallEncoding
  mem := ⟨fun _ => 0, fun _ => smallHeap⟩
  pcc := { smallHeap with base := 0x1000, length := 0x100, fits := fun _ => by decide }
  c29 :=
    { smallHeap with
      base := 0x2000, length := 0x1000, address := 0x2000, fits := fun _ => by decide }
  table := ⟨0x1040, 2, by decide⟩
  entriesStart := 0x80001040

end Morello

/-- **Minus two leads to a word before the table**, on both ports. -/
theorem smallEntryCode_not_closed :
    (Proteus.smallEntryCode.dispatch (-2)).loaded = some 0x34
      ∧ ¬ Proteus.smallEntryCode.table.Closed Proteus.smallEntryCode.codeWord (-2)
          (Proteus.smallEntryCode.dispatch (-2))
      ∧ (Morello.smallEntryCode.dispatch (-2)).loaded = some 0x1034
      ∧ ¬ Morello.smallEntryCode.table.Closed Morello.smallEntryCode.mem.wordAt (-2)
          (Morello.smallEntryCode.dispatch (-2)) := by
  have hproteus : (Proteus.smallEntryCode.dispatch (-2)).loaded = some 0x34 := by decide +kernel
  have hmorello : (Morello.smallEntryCode.dispatch (-2)).loaded = some 0x1034 := by decide +kernel
  refine ⟨hproteus, fun h => ?_, hmorello, fun h => ?_⟩
  · exact absurd (h.loaded _ hproteus) (by decide)
  · exact absurd (h.loaded _ hmorello) (by decide)
