import CheriTree.Morello.SectionHash
import CheriTree.Proteus.ExclusiveOwnership
import CheriTree.Proteus.SectionHash
import CheriTree.Sail.SectionHash
import CheriTree.Sha256

/-!
# One identity, three implementations

The identity of an enclave is the digest of the bytes of its code section, and
`EStoreId` writes the bytes of the digest, in order. The Sail model reads words,
swaps them, hashes them, and swaps the words of the digest that it writes.
Proteus does the same, on a bus that takes words: of a section or of a buffer
that does not start at one, the words are those around it. Morello reads and
writes bytes, with an index that is too narrow for a section of more than two
gigabytes.

So the three agree on the digest of the section, on exactly the sections and
buffers that start at a word on Proteus and that are short enough for Morello.
-/

namespace CheriTree

open ByteOrder

section

variable {f : Sail.CapFormat} {w : ℕ} {b : Morello.Build}

/-- **A section is attested alike** by the three: what each of them writes for
it is its digest. -/
def AttestedAlike (sha256 : List (BitVec 8) → BitVec 256) (p : Sail.Platform f) (n : ℕ) (w : ℕ)
    (cfg : Proteus.MemConfig) (digest : List Proteus.Word → Proteus.Digest)
    (base length buffer : Proteus.Word) (q : Morello.Platform b) (code : Morello.Capability) :
    Prop :=
  Sail.AttestsSection p sha256 n ∧ Proteus.AttestsSection w cfg digest sha256 base length buffer
    ∧ Morello.AttestsSection q sha256 code

/-- **When a section is attested alike.** The cores compute one digest, each on
its own input, and it depends on the bytes that could be left out. -/
theorem attestedAlike_iff (sha256 : List (BitVec 8) → BitVec 256)
    (p : Sail.Platform f) (hwalk : p.WalkReads) (hoff : p.WalkKeepsOffset)
    (hsail : ∀ words, p.sha256 words = sha256 (words.flatMap beBytes))
    (n : ℕ) (hn : n % 4 = 0)
    (cfg : Proteus.MemConfig) (digest : List Proteus.Word → Proteus.Digest)
    (hproteus : ∀ words, digest words = sha256 (words.flatMap beBytes))
    (base length buffer : Proteus.Word)
    (hheld : Proteus.TaggedMemory.Holds cfg base length.toNat) (hpos : 0 < length.toNat)
    (hmod : length.toNat % 4 = 0) (hbuf : Proteus.TaggedMemory.Holds cfg buffer 32)
    (hlast : Counts sha256 length.toNat (length.toNat - 1))
    (q : Morello.Platform b) (hb : 0 < b.maxEntries)
    (hmorello : ∀ bytes (i : Fin Morello.hashByteWidth),
      q.lib.sha256 bytes i = digestByte (sha256 bytes) i)
    (code : Morello.Capability) (htag : code.tag = true) (hseal : code.isSealed = false)
    (hload : code.perms.load = true) (hbase : code.address = code.base)
    (h4 : code.length % Morello.numBytes = 0)
    (hcounts : 2 ^ 31 < code.length → Counts sha256 code.length (2 ^ 31)) :
    AttestedAlike sha256 p n w cfg digest base length buffer q code
      ↔ base.toNat % 4 = 0 ∧ buffer.toNat % 4 = 0 ∧ code.length ≤ 2 ^ 31 := by
  unfold AttestedAlike
  rw [Proteus.attestsSection_iff hproteus hheld hpos hmod hbuf hlast,
    Morello.attestsSection_iff_length_le hb hmorello htag hseal hload hbase h4 hcounts,
    and_iff_right (Sail.attestsSection hwalk hoff hsail hn), and_assoc]

end

/-! ### Sections of one word and of two -/

/-- SHA-256 over words whose highest byte comes first. -/
def sha256Words (words : List (BitVec 32)) : BitVec 256 := Sha256.sha256 (words.flatMap beBytes)

/-- The small platform of the Sail model, with SHA-256. -/
def sailPlatform : Sail.Platform .cheri64 :=
  { Sail.smallPlatform with sha256 := sha256Words }

/-- A memory of four granules, on Proteus. -/
def proteusMemory : Proteus.MemConfig := Proteus.InitData.smallMemory

/-- The hypervisor in the gigabyte below that of EL1, with SHA-256. -/
def morelloPlatform : Morello.Platform .release where
  fmt := fun _ _ => 0
  lib :=
    { State := List (BitVec 8)
      init := []
      process := fun md bytes => md ++ bytes
      done := fun md i => digestByte (Sha256.sha256 md) i
      sha256 := fun bytes i => digestByte (Sha256.sha256 bytes) i
      computes := by
        intro chunks
        have hfold : chunks.foldl (fun md bytes => md ++ bytes) []
            = [] ++ (chunks.map id).flatten :=
          List.foldl_append_eq_append
        rw [List.map_id, List.nil_append] at hfold
        funext i
        exact congrArg (fun md => digestByte (Sha256.sha256 md) i) hfold }
  trusted := ⟨0x80000000, 0x40000000⟩
  smash := fun _ s => s

/-- Four bytes of code. -/
def fourBytes : Morello.Capability where
  tag := true
  base := 0xC0000000
  length := 4
  address := 0xC0000000
  perms := ⟨true, false, true, false, false, false, false, true⟩
  otype := 0
  fits := fun _ => by decide

/-- Eight of them. -/
def eightBytes : Morello.Capability :=
  { fourBytes with
    length := 8
    fits := fun _ => by decide }

/-- The last byte of four counts. -/
theorem counts_four : Counts Sha256.sha256 4 3 := by
  refine ⟨fun _ => 0, fun i => if i = 3 then 1 else 0, fun i hi => ?_, by decide +kernel⟩
  exact (if_neg hi).symm

/-- And the last one of eight. -/
theorem counts_eight : Counts Sha256.sha256 8 7 := by
  refine ⟨fun _ => 0, fun i => if i = 7 then 1 else 0, fun i hi => ?_, by decide +kernel⟩
  exact (if_neg hi).symm

/-- A section of two words, whose digest goes to a buffer that starts at a
word. -/
theorem attestedAlike_words :
    AttestedAlike Sha256.sha256 sailPlatform 8 4 proteusMemory sha256Words
      0x80000000 8 0x80000010 morelloPlatform eightBytes :=
  (attestedAlike_iff Sha256.sha256 sailPlatform
    ⟨fun _ _ _ _ => Prog.silent_throw _, fun _ _ _ _ _ _ _ h => absurd h Prog.throw_ne_ok⟩
    (fun _ _ _ _ _ _ _ _ h => absurd h Prog.throw_ne_ok) (fun _ => rfl) 8 rfl
    proteusMemory sha256Words (fun _ => rfl) 0x80000000 8 0x80000010
    ⟨by decide, by decide⟩ (by decide) (by decide) ⟨by decide, by decide⟩ counts_eight
    morelloPlatform (by decide) (fun _ _ => rfl) eightBytes rfl (by decide) rfl rfl (by decide)
    (fun h => absurd h (by decide))).2 (by decide)

/-- **Two bytes on, the buffer does not get its last two bytes**: the stores of
Proteus are those of the words from two bytes before it on. -/
theorem not_attestedAlike_halfword :
    ¬ AttestedAlike Sha256.sha256 sailPlatform 4 4 proteusMemory sha256Words
      0x80000000 4 0x80000012 morelloPlatform fourBytes := by
  rintro ⟨-, hproteus, -⟩
  have hword := (Proteus.attestsSection_iff (fun _ => rfl) ⟨by decide, by decide⟩ (by decide)
    (by decide) ⟨by decide, by decide⟩ counts_four).1 hproteus
  exact absurd hword.2 (by decide)

end CheriTree
