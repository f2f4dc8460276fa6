import CheriTree.Trapping
import CheriTree.Proteus.CapMachine
import CheriTree.Proteus.TaggedMemory

/-!
# The trusted boot code

The program text of `init_capabilities`, over the helpers of `cheri.h` and
`unique_alloc.c`. It divides what the capability of reset grants: the memory
below the end of the heap goes to the untrusted code, in `DDC` and `PCC`; the
trap handler, copied behind it, goes to `MTCC` with a seal of its own in
`MTDC`; and the rest goes to the allocator of unique memory.

A capability variable of the C code lives in memory, at an address of its own,
and every helper loads it to `ct0` through `DDC`, changes it there, and stores
it back. So which authority untrusted code starts with is decided by what is
in `DDC`, `PCC` and the registers at the end, and by what can be loaded through
them.

Addresses and object types share one format. The capability of regular memory
starts at address zero and keeps the permissions to seal and to unseal, so it
is an authority over every object type below the end of the heap.
-/

namespace Proteus

/-- A capability variable of the boot code. -/
inductive BootVar where
  | root
  | regularMem
  | trustedTrapsSeal
  | trapDataCap
  | trapHandler
  | mepcc
  | uniqueMem
  | heapCap
deriving DecidableEq, Repr

/-- **The boot code in its place**: the memory and the devices, where the
variables are, the end of the heap, the text of the trap handler, the place
`cheri_write_pcc_bounds` jumps to, and the register its jump links in. The
variables are in regular memory, and the copy of the handler fits behind it. -/
structure BootImage where
  cfg : MemConfig
  device : Word → Word
  addr : BootVar → Word
  nonEnclaveTrapData : Word
  heapEnd : Word
  trustedTrapsStart : Word
  trustedTrapsEnd : Word
  resume : Word
  link : RegId
  aligned : ∀ x, (addr x).toNat % capBytes = 0
  held : ∀ x, TaggedMemory.Holds cfg (addr x) 16
  regular : ∀ x, (addr x).toNat + 16 ≤ heapEnd.toNat
  apart : ∀ x y, x ≠ y → addr x ≠ addr y
  fits : heapEnd.toNat + (trustedTrapsEnd - trustedTrapsStart).toNat ≤ 2 ^ 32

/-- The state of the core and its memory. -/
structure BootState (w : ℕ) where
  core : CapState w
  mem : TaggedMemory

/-- A piece of the boot code. -/
abbrev Boot (w : ℕ) (α : Type) := Trapping (BootState w) TrapCause α

/-- The permission to seal, as the ISA numbers it. -/
def PERM_PERMIT_SEAL : ℕ := 7

/-- The permission to unseal. -/
def PERM_PERMIT_UNSEAL : ℕ := 9

/-- The permission to access system registers. -/
def PERM_ACCESS_SYSTEM_REGISTERS : ℕ := 10

/-- `sizeof(struct trap_data)`, with the padding to the alignment of a
capability. -/
def sizeofTrapData : Word := 656

namespace BootImage

variable {w : ℕ} (img : BootImage)

/-- The length of the text of the trap handler. -/
def trustedTrapsLen : Word := img.trustedTrapsEnd - img.trustedTrapsStart

/-! ## Instructions -/

/-- An instruction on the capability registers. -/
def insn (i : CapInstr) : Boot w Unit := fun s =>
  match s.core.exec i with
  | .ok ws => (.ok (), { s with core := s.core.writeAll ws })
  | .error cause => (.error cause, s)

/-- The check of an access relative to `DDC`. -/
def checkDdc (operation : LsuOperationType) (byteWidth : Word) (a : Word) : Boot w Word := fun s =>
  match CapCheck.check (s.core.scrs .ddc) (translate (s.core.scrs .ddc) a) operation byteWidth with
  | some cause => (.error (.cheriException ⟨cause, CapIdx.scr ScrIndex.DDC⟩), s)
  | none => (.ok (translate (s.core.scrs .ddc) a), s)

/-- `LC`. -/
def lc (cd : RegId) (a : Word) : Boot w Unit := do
  let address ← checkDdc .load capByteWidth a
  Trapping.update (fun s =>
    { s with core := s.core.write (.reg cd) (s.mem.loadCap img.cfg img.device address) })

/-- `SC`; `cnull` is stored as the capability that grants nothing. -/
def sc (cs2 : RegId) (a : Word) : Boot w Unit := do
  let address ← checkDdc .store capByteWidth a
  Trapping.update (fun s => { s with
    mem := s.mem.storeCap img.cfg address (if cs2 = 0 then .null else s.core.regs cs2) })

/-- `LBU`. -/
def lbu (a : Word) : Boot w (BitVec 8) := do
  let address ← checkDdc .load LsuAccessWidth.B.byteWidth a
  Trapping.read (fun s => (s.mem.readWord img.cfg img.device address).extractLsb'
    (8 * (address.toNat % 4)) 8)

/-- `SB`. -/
def sb (a : Word) (data : BitVec 8) : Boot w Unit := do
  let address ← checkDdc .store LsuAccessWidth.B.byteWidth a
  Trapping.update (fun s => { s with mem := s.mem.storeByte img.cfg address data })

/-! ## `cheri.h` -/

def cheriMove (dst src : BootVar) : Boot w Unit := do
  img.lc 5 (img.addr src)
  img.sc 5 (img.addr dst)

/-- The helpers `CHERI_SETTER` makes. -/
def cheriSetter (op : ModifyOp) (cap : BootVar) (val : Word) : Boot w Unit := do
  img.lc 5 (img.addr cap)
  insn (.modify op 5 5 0 val)
  img.sc 5 (img.addr cap)

def cheriSetAddr (cap : BootVar) (val : Word) : Boot w Unit := img.cheriSetter .CSetAddr cap val

def cheriSetBoundsExact (cap : BootVar) (val : Word) : Boot w Unit :=
  img.cheriSetter .CSetBoundsExact cap val

def cheriAndPerm (cap : BootVar) (val : Word) : Boot w Unit := img.cheriSetter .CAndPerm cap val

/-- The helpers `CHERI_GETTER` makes. -/
def cheriGetter (field : FieldSelect) (cap : BootVar) : Boot w Word := do
  img.lc 5 (img.addr cap)
  Trapping.read (fun s => (s.core.regs 5).get field)

def cheriGetLen (cap : BootVar) : Boot w Word := img.cheriGetter .len cap

def cheriGetAddr (cap : BootVar) : Boot w Word := img.cheriGetter .addr cap

/-- `cheri_read_ddc`. -/
def cheriReadDdc (cap : BootVar) : Boot w Unit := do
  insn (.cSpecialRW 5 0 ScrIndex.DDC 0)
  img.sc 5 (img.addr cap)

/-- The helpers `CHERI_SCR_ACCESS` makes to write a special register. -/
def cheriWriteScr (scrId : RegId) (cap : BootVar) : Boot w Unit := do
  img.lc 5 (img.addr cap)
  insn (.cSpecialRW 0 5 scrId 0)

def cheriWritePccBounds (bounds : BootVar) : Boot w Unit := do
  img.lc 5 (img.addr bounds)
  insn (.modify .CSetAddr 5 5 0 img.resume)
  insn (.cjalr img.link 5)

/-- `cheri_move_to_reg`. -/
def cheriMoveToReg (cd : RegId) (src : BootVar) : Boot w Unit := img.lc cd (img.addr src)

def cheriGetNull (cap : BootVar) : Boot w Unit := img.sc 0 (img.addr cap)

def cheriClearTag (cap : BootVar) : Boot w Unit := img.cheriSetter .CClearTag cap 0

/-- `memcpy`, byte by byte. -/
def memcpy (dst src : Word) : ℕ → Boot w Unit
  | 0 => pure ()
  | n + 1 => do
    let data ← img.lbu src
    img.sb dst data
    memcpy (dst + 1) (src + 1) n

/-! ## The text -/

/-- `unique_alloc_init`: the heap starts at a multiple of the size of a
capability. -/
def uniqueAllocInit (heap : BootVar) : Boot w Unit := do
  img.cheriMove .heapCap heap
  let address ← img.cheriGetAddr .heapCap
  let alignedAddress := (address + 16 - 1) &&& ~~~(16 - 1)
  if alignedAddress ≠ address then do
    img.cheriSetAddr .heapCap alignedAddress
    let diff := alignedAddress - address
    let len ← img.cheriGetLen .heapCap
    img.cheriSetBoundsExact .heapCap (len - diff)

/-- The capability of regular memory: `[0, heap_end)`. -/
def makeRegularMem : Boot w Unit := do
  img.cheriReadDdc .root
  img.cheriMove .regularMem .root
  img.cheriSetBoundsExact .regularMem img.heapEnd
  img.cheriAndPerm .regularMem (~~~(1 <<< PERM_ACCESS_SYSTEM_REGISTERS))

/-- The seal of the trap handler goes to `MTDC`. -/
def makeTrapsSeal : Boot w Unit := do
  img.cheriMove .trustedTrapsSeal .root
  img.cheriSetAddr .trustedTrapsSeal (BitVec.ofNat 32 ((1 <<< 12) - 17))
  img.cheriSetBoundsExact .trustedTrapsSeal 1
  img.cheriAndPerm .trustedTrapsSeal ((1 <<< PERM_PERMIT_SEAL) ||| (1 <<< PERM_PERMIT_UNSEAL))
  img.cheriWriteScr ScrIndex.MTDC .trustedTrapsSeal
  img.cheriClearTag .trustedTrapsSeal

/-- The trap data of no enclave goes to `c31`. -/
def makeTrapData : Boot w Unit := do
  img.cheriMove .trapDataCap .regularMem
  img.cheriSetAddr .trapDataCap img.nonEnclaveTrapData
  img.cheriSetBoundsExact .trapDataCap sizeofTrapData
  img.cheriMoveToReg 31 .trapDataCap

/-- The trap handler goes to `MTCC`, and nothing to `MEPCC`. -/
def makeTrapHandler : Boot w Unit := do
  img.cheriMove .trapHandler .root
  img.cheriSetAddr .trapHandler img.heapEnd
  img.cheriSetBoundsExact .trapHandler img.trustedTrapsLen
  img.cheriWriteScr ScrIndex.MTCC .trapHandler
  img.cheriClearTag .trapHandler
  img.cheriGetNull .mepcc
  img.cheriWriteScr ScrIndex.MEPCC .mepcc

/-- The allocator gets what is behind the handler. -/
def makeUniqueMem : Boot w Unit := do
  img.cheriMove .uniqueMem .root
  let rootLen ← img.cheriGetLen .root
  let uniqueMemStart := img.heapEnd + img.trustedTrapsLen
  img.cheriSetAddr .uniqueMem uniqueMemStart
  img.cheriSetBoundsExact .uniqueMem (rootLen - uniqueMemStart)
  img.cheriAndPerm .uniqueMem (~~~(1 <<< PERM_ACCESS_SYSTEM_REGISTERS))
  img.uniqueAllocInit .uniqueMem

/-- **`init_capabilities`**. -/
def initCapabilities : Boot w Unit := do
  img.makeRegularMem
  img.memcpy img.heapEnd img.trustedTrapsStart img.trustedTrapsLen.toNat
  img.makeTrapsSeal
  img.makeTrapData
  img.makeTrapHandler
  img.cheriWritePccBounds .regularMem
  img.makeUniqueMem
  img.cheriWriteScr ScrIndex.DDC .regularMem
  -- no trace of the root capability is left in a variable
  img.cheriClearTag .root
  img.cheriClearTag .uniqueMem

/-! ## What untrusted code can get at -/

/-- **The capabilities in reach of untrusted code**: `DDC`, `PCC`, the general
capability registers, and what can be loaded through one of these. -/
inductive Reaches (s : BootState w) : Capability → Prop
  | ddc : Reaches s (s.core.scrs .ddc)
  | pcc : Reaches s s.core.pcc
  | reg (r : RegId) : Reaches s (s.core.regs r)
  | load {c : Capability} {a : Word} (h : Reaches s c)
      (hcheck : CapCheck.check c a .load capByteWidth = none) :
      Reaches s (s.mem.loadCap img.cfg img.device a)

/-- **What untrusted code can make** out of what it reaches and of a sealed
capability it was given. -/
inductive Makes (s : BootState w) (given : Capability) : Capability → Prop
  | reached {c : Capability} (h : img.Reaches s c) : Makes s given c
  | given : Makes s given given
  | modify {c d : Capability} (op : ModifyOp) {rhs : Word} (h : Makes s given c)
      (hop : op ∈ [ModifyOp.CAndPerm, ModifyOp.CSetBounds, ModifyOp.CSetAddr])
      (hd : op.modification.apply c rhs = .ok d) : Makes s given d
  | sealed {c auth d : Capability} {rs1 rs2 : RegId} (h : Makes s given c)
      (ha : Makes s given auth) (hseal : cSeal c auth rs1 rs2 = .ok d) : Makes s given d
  | unsealed {c auth d : Capability} {rs1 rs2 : RegId} (h : Makes s given c)
      (ha : Makes s given auth) (hunseal : cUnseal c auth rs1 rs2 = .ok d) : Makes s given d

/-- Untrusted code can unseal the capability: it can make an authority under
which `CUnseal` gives the capability back unsealed. -/
def CanUnseal (s : BootState w) (c : Capability) : Prop :=
  ∃ auth, img.Makes s c auth ∧ ∃ rs1 rs2, cUnseal c auth rs1 rs2 = .ok c.unsealed

end BootImage

/-- The capability is an authority over an object type, in one of the two
permissions. -/
def Capability.GrantsOtype (c : Capability) (permission : Permissions → Bool) (otype : ℕ) : Prop :=
  c.tag = true ∧ c.isSealed = false ∧ permission c.perms = true ∧ otype ∈ c.range.bytes

/-- **The authority untrusted code is left with.** Nothing it reaches seals or
unseals an object type; nothing it reaches but the capability of the allocator
covers a byte of the handler or of the unique memory, which are what is behind
the heap; and no sealed capability it may come to hold can be unsealed. -/
structure BootImage.Confined {w : ℕ} (img : BootImage) (s : BootState w) : Prop where
  noOtype : ∀ c, img.Reaches s c → ∀ otype ≤ maxOtype,
    ¬ c.GrantsOtype Permissions.permitSeal otype ∧ ¬ c.GrantsOtype Permissions.permitUnseal otype
  regular : ∀ c, img.Reaches s c → c.tag = true →
    c ≠ s.mem.loadCap img.cfg img.device (img.addr .heapCap) →
      ∀ n, img.heapEnd.toNat ≤ n → n < Capability.root.length.toNat → n ∉ c.range.bytes
  keepsSeals : ∀ c : Capability, c.tag = true → c.isSealed = true → ¬ img.CanUnseal s c

/-! ## What the boot code leaves in `DDC` -/

namespace BootImage

variable {w : ℕ} {img : BootImage} {s : BootState w}

/-- The value of a variable. -/
def slot (img : BootImage) (s : BootState w) (x : BootVar) : Capability :=
  s.mem.loadCap img.cfg img.device (img.addr x)

/-- The capability of regular memory, as the boot code makes it. -/
def regularMemCap (img : BootImage) : Capability :=
  { Capability.root with
    length := img.heapEnd
    perms := { Permissions.allowAll with accessSystemRegisters := false } }

/-- `DDC` is `d`, and the variable of regular memory has its value. -/
def Parked (img : BootImage) (d : Capability) (s : BootState w) : Prop :=
  s.core.scrs .ddc = d ∧ img.slot s .regularMem = img.regularMemCap

/-- The piece ends with what it started with, unless it traps. -/
def Keeps {α : Type} (P : BootState w → Prop) (x : Boot w α) : Prop :=
  ∀ s, P s → Trapping.wp x (fun _ => P) (fun _ => True) s

/-- A piece that keeps `P`, and what comes after it. -/
theorem Keeps.then {α β : Type} {P : BootState w → Prop} {x : Boot w α} {f : α → Boot w β}
    {Q : β → BootState w → Prop} (hx : Keeps P x) (hs : P s)
    (hf : ∀ a t, P t → Trapping.wp (f a) Q (fun _ => True) t) :
    Trapping.wp (x >>= f) Q (fun _ => True) s :=
  Trapping.wp_bind.2 (Trapping.wp_mono (hx s hs) hf (fun _ _ => trivial))

theorem Keeps.bind {α β : Type} {P : BootState w → Prop} {x : Boot w α} {f : α → Boot w β}
    (hx : Keeps P x) (hf : ∀ a, Keeps P (f a)) : Keeps P (x >>= f) := fun _ hs =>
  hx.then hs hf

theorem keeps_pure {α : Type} {P : BootState w → Prop} (a : α) : Keeps P (pure a : Boot w α) :=
  fun _ hs => hs

/-! ### Instructions -/

/-- An access through a `DDC` that points at zero goes where it says. -/
theorem wp_checkDdc {d : Capability} (hd : d.address = 0) {operation : LsuOperationType}
    {byteWidth a : Word} {Q : Word → BootState w → Prop} (hddc : s.core.scrs .ddc = d)
    (hQ : Q a s) :
    Trapping.wp (checkDdc operation byteWidth a) Q (fun _ => True) s := by
  have ha : translate (s.core.scrs .ddc) a = a := by
    rw [translate, hddc, hd]
    exact BitVec.zero_add a
  unfold Trapping.wp Trapping.exec checkDdc
  split
  · rename_i b t h
    split at h
    · cases h
    · obtain ⟨h1, rfl⟩ := Prod.mk.inj h
      rw [ha] at h1
      rw [← Except.ok.inj h1]
      exact hQ
  · trivial

/-- An instruction that does not write `DDC` keeps it. -/
theorem wp_insn {i : CapInstr} {Q : Unit → BootState w → Prop}
    (hi : ∀ ws, s.core.exec i = .ok ws →
      Q () { s with core := s.core.writeAll ws }) :
    Trapping.wp (insn i) Q (fun _ => True) s := by
  unfold Trapping.wp Trapping.exec insn
  cases h : s.core.exec i with
  | ok ws => exact hi ws h
  | error cause => trivial

/-- `DDC` is what it was unless one of the writes is to it. -/
theorem ddc_writeAll (core : CapState w) {ws : List CapWrite}
    (h : ∀ x ∈ ws, x.dest ≠ .scr .ddc) : (core.writeAll ws).scrs .ddc = core.scrs .ddc := by
  obtain h' | ⟨x, hx, hd, -⟩ := core.read_writeAll ws (.scr .ddc)
  · exact h'
  · exact absurd hd (h x hx)

/-- A load of a variable. -/
theorem wp_lc {d : Capability} (hd : d.address = 0) {cd : RegId} {x : BootVar}
    {Q : Unit → BootState w → Prop} (hddc : s.core.scrs .ddc = d)
    (hQ : Q () { s with core := s.core.write (.reg cd) (img.slot s x) }) :
    Trapping.wp (img.lc cd (img.addr x)) Q (fun _ => True) s :=
  Trapping.wp_bind.2 (wp_checkDdc hd hddc hQ)

/-- A store to a variable. -/
theorem wp_sc {d : Capability} (hd : d.address = 0) {cs2 : RegId} {x : BootVar}
    {Q : Unit → BootState w → Prop} (hddc : s.core.scrs .ddc = d)
    (hQ : Q () { s with
      mem := s.mem.storeCap img.cfg (img.addr x)
        (if cs2 = 0 then .null else s.core.regs cs2) }) :
    Trapping.wp (img.sc cs2 (img.addr x)) Q (fun _ => True) s :=
  Trapping.wp_bind.2 (wp_checkDdc hd hddc hQ)

/-- A store to a variable gives it the value, and no other one. -/
theorem slot_storeCap (img : BootImage) (s : BootState w) (x y : BootVar) (cap : Capability) :
    img.slot { s with mem := s.mem.storeCap img.cfg (img.addr x) cap } y
      = if y = x then cap else img.slot s y := by
  split
  · rename_i h
    subst h
    exact (img.held y).loadCap_storeCap_self _ _ _
  · rename_i h
    have hne : (img.addr x).toNat ≠ (img.addr y).toNat := fun he =>
      img.apart y x h (BitVec.eq_of_toNat_eq he).symm
    have hx := img.aligned x
    have hy := img.aligned y
    rw [capBytes] at hx hy
    exact (img.held x).loadCap_storeCap_of_apart (img.held y) (by omega) _ _ _

/-- The writes of an instruction on registers alone. -/
theorem dest_of_modify {core : CapState w} {op : ModifyOp} {cd cs1 : RegId} {imm : BitVec 12}
    {rhs : Word} {ws : List CapWrite} (h : core.exec (.modify op cd cs1 imm rhs) = .ok ws) :
    ∀ x ∈ ws, x.dest ≠ .scr .ddc := by
  intro x hx
  simp only [CapState.exec] at h
  split at h
  · obtain rfl := Except.ok.inj h
    rw [List.mem_singleton.1 hx]
    simp
  · cases h

theorem dest_of_cjalr {core : CapState w} {cd cs1 : RegId} {ws : List CapWrite}
    (h : core.exec (.cjalr cd cs1) = .ok ws) : ∀ x ∈ ws, x.dest ≠ .scr .ddc := by
  intro x hx
  obtain ⟨pcc, -, h⟩ := bind_eq_ok.1 h
  obtain rfl := Except.ok.inj h
  rw [List.mem_cons, List.mem_singleton] at hx
  obtain rfl | rfl := hx
  · simp
  · simp

/-- Only the index of `DDC` leads to it. -/
theorem dest_of_cSpecialRW {core : CapState w} {cd cs1 scrId : RegId} {ir : Word}
    {ws : List CapWrite} (hscr : Scr.ofIndex scrId ≠ some .ddc)
    (h : core.exec (.cSpecialRW cd cs1 scrId ir) = .ok ws) : ∀ x ∈ ws, x.dest ≠ .scr .ddc := by
  intro x hx hdest
  simp only [CapState.exec, CapState.cSpecialRW] at h
  split at h
  · obtain rfl := Except.ok.inj h
    split at hx
    · cases hx
    · rw [List.mem_singleton.1 hx] at hdest
      cases hdest
  · split at h
    · cases h
    · rename_i r hr
      obtain ⟨-, h⟩ := ite_error_eq_ok.1 h
      obtain rfl := Except.ok.inj h
      rw [List.mem_append] at hx
      obtain hx | hx := hx
      · split at hx
        · cases hx
        · rw [List.mem_singleton.1 hx] at hdest
          cases hdest
      · split at hx
        · cases hx
        · rw [List.mem_singleton.1 hx] at hdest
          obtain rfl := Dest.scr.inj hdest
          exact hscr hr

/-! ### The helpers keep `DDC` and the variable of regular memory -/

/-- A write to a register is not one to a special register. -/
theorem scrs_write_reg (core : CapState w) (cd : RegId) (c : Capability) :
    (core.write (.reg cd) c).scrs = core.scrs := by
  show (if cd = 0 then core else { core with regs := Function.update core.regs cd c }).scrs = _
  split
  · rfl
  · rfl

section Keeping

variable {d : Capability} (hd : d.address = 0) {x : BootVar} (hx : x ≠ .regularMem)
include hd

theorem keeps_lc (cd : RegId) (y : BootVar) :
    Keeps (img.Parked (w := w) d) (img.lc cd (img.addr y)) := fun s hs =>
  wp_lc hd hs.1 ⟨(congrFun (scrs_write_reg s.core cd _) .ddc).trans hs.1, hs.2⟩

omit hd in
theorem keeps_insn {i : CapInstr}
    (hi : ∀ (core : CapState w) ws, core.exec i = .ok ws → ∀ x ∈ ws, x.dest ≠ .scr .ddc) :
    Keeps (img.Parked (w := w) d) (insn i) := fun s hs =>
  wp_insn fun ws hws => ⟨(ddc_writeAll s.core (hi s.core ws hws)).trans hs.1, hs.2⟩

include hx

theorem keeps_sc (cs2 : RegId) : Keeps (img.Parked (w := w) d) (img.sc cs2 (img.addr x)) :=
  fun s hs => wp_sc hd hs.1 ⟨hs.1, by
    rw [slot_storeCap, if_neg (Ne.symm hx)]
    exact hs.2⟩

theorem keeps_cheriMove (y : BootVar) : Keeps (img.Parked (w := w) d) (img.cheriMove x y) :=
  (keeps_lc hd 5 y).bind fun _ => keeps_sc hd hx 5

theorem keeps_cheriSetter (op : ModifyOp) (val : Word) :
    Keeps (img.Parked (w := w) d) (img.cheriSetter op x val) :=
  (keeps_lc hd 5 x).bind fun _ => (keeps_insn fun _ _ => dest_of_modify).bind fun _ =>
    keeps_sc hd hx 5

omit hx in
theorem keeps_cheriGetter (field : FieldSelect) (y : BootVar) :
    Keeps (img.Parked (w := w) d) (img.cheriGetter field y) :=
  (keeps_lc hd 5 y).bind fun _ _ hs => hs

omit hx in
theorem keeps_cheriWriteScr {scrId : RegId} (hscr : Scr.ofIndex scrId ≠ some .ddc) (y : BootVar) :
    Keeps (img.Parked (w := w) d) (img.cheriWriteScr scrId y) :=
  (keeps_lc hd 5 y).bind fun _ => keeps_insn fun _ _ => dest_of_cSpecialRW hscr

omit hx in
theorem keeps_cheriWritePccBounds (y : BootVar) :
    Keeps (img.Parked (w := w) d) (img.cheriWritePccBounds y) :=
  (keeps_lc hd 5 y).bind fun _ => (keeps_insn fun _ _ => dest_of_modify).bind fun _ =>
    keeps_insn fun _ _ => dest_of_cjalr

omit hx in
/-- A byte stored behind the heap is in no variable. -/
theorem keeps_sb {a : Word} (ha : img.heapEnd.toNat ≤ a.toNat) (data : BitVec 8) :
    Keeps (img.Parked (w := w) d) (img.sb a data) := fun s hs =>
  Trapping.wp_bind.2 (wp_checkDdc hd hs.1 ⟨hs.1, by
    have hreg := img.regular .regularMem
    exact ((img.held .regularMem).loadCap_storeByte (img.aligned .regularMem) (by omega)
      s.mem data img.device).trans hs.2⟩)

omit hx in
theorem keeps_lbu (a : Word) : Keeps (img.Parked (w := w) d) (img.lbu a) := fun _ hs =>
  Trapping.wp_bind.2 (wp_checkDdc hd hs.1 hs)

omit hx in
/-- The copy of the handler goes behind the heap. -/
theorem keeps_memcpy (n : ℕ) (dst src : Word) (hdst : img.heapEnd.toNat ≤ dst.toNat)
    (hfits : dst.toNat + n ≤ 2 ^ 32) :
    Keeps (img.Parked (w := w) d) (img.memcpy dst src n) := by
  induction n generalizing dst src with
  | zero => exact keeps_pure ()
  | succ n ih =>
    refine (keeps_lbu hd src).bind fun data => (keeps_sb hd hdst data).bind fun _ => ?_
    cases n with
    | zero => exact keeps_pure ()
    | succ n =>
      have hadd : (dst + 1).toNat = dst.toNat + 1 := by
        rw [BitVec.toNat_add]
        exact Nat.mod_eq_of_lt (by show dst.toNat + 1 < 2 ^ 32; omega)
      exact ih (dst + 1) (src + 1) (by omega) (by omega)

end Keeping

/-! ### The parts of the boot code -/

theorem address_root : Capability.root.address = 0 := rfl

theorem address_regularMemCap (img : BootImage) : img.regularMemCap.address = 0 := rfl

theorem keeps_makeTrapsSeal : Keeps (img.Parked (w := w) .root) img.makeTrapsSeal := by
  have hx : BootVar.trustedTrapsSeal ≠ .regularMem := by decide
  refine (keeps_cheriMove address_root hx _).bind fun _ => ?_
  refine (keeps_cheriSetter address_root hx _ _).bind fun _ => ?_
  refine (keeps_cheriSetter address_root hx _ _).bind fun _ => ?_
  refine (keeps_cheriSetter address_root hx _ _).bind fun _ => ?_
  refine (keeps_cheriWriteScr address_root (by decide) _).bind fun _ => ?_
  exact keeps_cheriSetter address_root hx _ _

theorem keeps_makeTrapData : Keeps (img.Parked (w := w) .root) img.makeTrapData := by
  have hx : BootVar.trapDataCap ≠ .regularMem := by decide
  refine (keeps_cheriMove address_root hx _).bind fun _ => ?_
  refine (keeps_cheriSetter address_root hx _ _).bind fun _ => ?_
  refine (keeps_cheriSetter address_root hx _ _).bind fun _ => ?_
  exact keeps_lc address_root _ _

theorem keeps_makeTrapHandler : Keeps (img.Parked (w := w) .root) img.makeTrapHandler := by
  have hx : BootVar.trapHandler ≠ .regularMem := by decide
  refine (keeps_cheriMove address_root hx _).bind fun _ => ?_
  refine (keeps_cheriSetter address_root hx _ _).bind fun _ => ?_
  refine (keeps_cheriSetter address_root hx _ _).bind fun _ => ?_
  refine (keeps_cheriWriteScr address_root (by decide) _).bind fun _ => ?_
  refine (keeps_cheriSetter address_root hx _ _).bind fun _ => ?_
  refine (keeps_sc address_root (by decide) _).bind fun _ => ?_
  exact keeps_cheriWriteScr address_root (by decide) _

theorem keeps_uniqueAllocInit (y : BootVar) :
    Keeps (img.Parked (w := w) .root) (img.uniqueAllocInit y) := by
  have hx : BootVar.heapCap ≠ .regularMem := by decide
  refine (keeps_cheriMove address_root hx _).bind fun _ => ?_
  refine (keeps_cheriGetter address_root _ _).bind fun address => ?_
  show Keeps _ (if (address + 16 - 1) &&& ~~~(16 - 1) ≠ address then _ else _)
  split
  · refine (keeps_cheriSetter address_root hx _ _).bind fun _ => ?_
    refine (keeps_cheriGetter address_root _ _).bind fun len => ?_
    exact keeps_cheriSetter address_root hx _ _
  · exact keeps_pure ()

theorem keeps_makeUniqueMem : Keeps (img.Parked (w := w) .root) img.makeUniqueMem := by
  have hx : BootVar.uniqueMem ≠ .regularMem := by decide
  refine (keeps_cheriMove address_root hx _).bind fun _ => ?_
  refine (keeps_cheriGetter address_root _ _).bind fun rootLen => ?_
  refine (keeps_cheriSetter address_root hx _ _).bind fun _ => ?_
  refine (keeps_cheriSetter address_root hx _ _).bind fun _ => ?_
  refine (keeps_cheriSetter address_root hx _ _).bind fun _ => ?_
  exact keeps_uniqueAllocInit _

/-- A setter gives a variable the modified value. -/
theorem wp_cheriSetter {d : Capability} (hd : d.address = 0) {op : ModifyOp} {x : BootVar}
    {val : Word} (himm : op.rhs 0 val = val) {Q : Unit → BootState w → Prop}
    (hddc : s.core.scrs .ddc = d)
    (hQ : ∀ t c, op.modification.apply (img.slot s x) val = .ok c → t.core.scrs .ddc = d →
      img.slot t x = c → Q () t) :
    Trapping.wp (img.cheriSetter op x val) Q (fun _ => True) s := by
  refine Trapping.wp_bind.2 (wp_lc hd hddc (Trapping.wp_bind.2 (wp_insn fun ws hws => ?_)))
  have hcore : (s.core.write (.reg 5) (img.slot s x)).regs 5 = img.slot s x := by
    show Function.update s.core.regs 5 (img.slot s x) 5 = _
    exact Function.update_self _ _ _
  have hkeep := ddc_writeAll (s.core.write (.reg 5) (img.slot s x)) (dest_of_modify hws)
  simp only [CapState.exec, hcore, himm] at hws
  split at hws
  · rename_i c hc
    obtain rfl := Except.ok.inj hws
    refine wp_sc hd (hkeep.trans hddc) (hQ _ c hc (hkeep.trans hddc) ?_)
    rw [slot_storeCap, if_pos rfl]
    show Function.update (s.core.write (.reg 5) (img.slot s x)).regs 5 c 5 = c
    exact Function.update_self _ _ _
  · cases hws

/-- A move gives a variable the value of another. -/
theorem wp_cheriMove {d : Capability} (hd : d.address = 0) {x y : BootVar}
    {Q : Unit → BootState w → Prop} (hddc : s.core.scrs .ddc = d)
    (hQ : ∀ t, t.core.scrs .ddc = d → img.slot t x = img.slot s y → Q () t) :
    Trapping.wp (img.cheriMove x y) Q (fun _ => True) s := by
  refine Trapping.wp_bind.2 (wp_lc hd hddc (wp_sc hd hddc (hQ _ hddc ?_)))
  rw [slot_storeCap, if_pos rfl]
  exact Function.update_self (5 : RegId) (img.slot s y) s.core.regs

/-- `DDC` read to a variable. -/
theorem wp_cheriReadDdc {d : Capability} (hd : d.address = 0) {x : BootVar}
    {Q : Unit → BootState w → Prop} (hddc : s.core.scrs .ddc = d)
    (hQ : ∀ t, t.core.scrs .ddc = d → img.slot t x = d → Q () t) :
    Trapping.wp (img.cheriReadDdc x) Q (fun _ => True) s := by
  refine Trapping.wp_bind.2 (wp_insn fun ws hws => ?_)
  obtain rfl : [⟨.reg 5, s.core.scrs .ddc, s.core.scrs .ddc⟩] = ws := Except.ok.inj hws
  refine wp_sc hd hddc (hQ _ hddc ?_)
  rw [slot_storeCap, if_pos rfl]
  exact (Function.update_self (5 : RegId) (s.core.scrs .ddc) s.core.regs).trans hddc

/-- The bounds of regular memory, set on the capability of reset. -/
theorem setBounds_root (heapEnd : Word) {c : Capability}
    (h : Modification.setBounds.apply .root heapEnd = .ok c) :
    c = { Capability.root with length := heapEnd } := by
  obtain ⟨-, -, rfl⟩ := setBounds_ok h
  rfl

/-- **The first part makes the capability of regular memory.** -/
theorem wp_makeRegularMem (hddc : s.core.scrs .ddc = .root) :
    Trapping.wp img.makeRegularMem (fun _ => img.Parked .root) (fun _ => True) s := by
  refine Trapping.wp_bind.2 (wp_cheriReadDdc address_root hddc fun s₁ h₁ hroot => ?_)
  refine Trapping.wp_bind.2 (wp_cheriMove address_root h₁ fun s₂ h₂ hmem => ?_)
  refine Trapping.wp_bind.2 (wp_cheriSetter address_root rfl h₂ fun s₃ c hc h₃ hset => ?_)
  refine wp_cheriSetter address_root rfl h₃ fun s₄ c' hc' h₄ hand => ⟨h₄, ?_⟩
  rw [hmem, hroot] at hc
  rw [hset, setBounds_root _ hc] at hc'
  rw [hand, ← Except.ok.inj hc', Permissions.assignFromIsaBits_and]
  rfl

/-- `DDC` written from the variable of regular memory. -/
theorem wp_cheriWriteDdc (h : img.Parked .root s) :
    Trapping.wp (img.cheriWriteScr ScrIndex.DDC .regularMem)
      (fun _ => img.Parked img.regularMemCap) (fun _ => True) s := by
  refine Trapping.wp_bind.2 (wp_lc address_root h.1 (wp_insn fun ws hws => ?_))
  rw [← Except.ok.inj hws]
  refine ⟨?_, h.2⟩
  show Function.update s.core.scrs .ddc (Function.update s.core.regs 5 _ 5) .ddc = _
  rw [Function.update_self, Function.update_self]
  exact h.2

/-- **What the boot code leaves in `DDC`**: the capability of regular memory,
with the permissions to seal and to unseal. -/
theorem wp_initCapabilities (hddc : s.core.scrs .ddc = .root) :
    Trapping.wp img.initCapabilities (fun _ t => t.core.scrs .ddc = img.regularMemCap)
      (fun _ => True) s := by
  have hregular := address_regularMemCap img
  refine Trapping.wp_bind.2 (Trapping.wp_mono (wp_makeRegularMem hddc) (fun _ s₁ h₁ => ?_)
    (fun _ _ => trivial))
  refine (keeps_memcpy address_root _ _ _ (le_refl _) img.fits).then h₁ fun _ s₂ h₂ => ?_
  refine keeps_makeTrapsSeal.then h₂ fun _ s₃ h₃ => ?_
  refine keeps_makeTrapData.then h₃ fun _ s₄ h₄ => ?_
  refine keeps_makeTrapHandler.then h₄ fun _ s₅ h₅ => ?_
  refine (keeps_cheriWritePccBounds address_root _).then h₅ fun _ s₆ h₆ => ?_
  refine keeps_makeUniqueMem.then h₆ fun _ s₇ h₇ => ?_
  refine Trapping.wp_bind.2 (Trapping.wp_mono (wp_cheriWriteDdc h₇) (fun _ s₈ h₈ => ?_)
    (fun _ _ => trivial))
  refine (keeps_cheriSetter hregular (by decide) _ _).then h₈ fun _ s₉ h₉ => ?_
  exact Trapping.wp_mono (keeps_cheriSetter hregular (by decide) _ _ s₉ h₉) (fun _ _ h => h.1)
    (fun _ _ => trivial)

/-! ### What follows for the untrusted code -/

/-- The capability of regular memory is an authority over every object type
below the end of the heap. -/
theorem grantsOtype_regularMemCap {otype : ℕ} (h : otype < img.heapEnd.toNat) :
    img.regularMemCap.GrantsOtype Permissions.permitSeal otype
      ∧ img.regularMemCap.GrantsOtype Permissions.permitUnseal otype := by
  have hmem : otype ∈ img.regularMemCap.range.bytes := ⟨Nat.zero_le _, by
    show otype < 0 + img.heapEnd.toNat
    omega⟩
  exact ⟨⟨rfl, Capability.isSealed_otype_unsealed, rfl, hmem⟩,
    ⟨rfl, Capability.isSealed_otype_unsealed, rfl, hmem⟩⟩

/-- **With regular memory in `DDC`, every sealed capability can be unsealed**:
`CSetAddr` points the capability of regular memory at the object type. -/
theorem canUnseal_of_regularMemCap (hddc : s.core.scrs .ddc = img.regularMemCap)
    (hend : maxOtype < img.heapEnd.toNat) {c : Capability} (htag : c.tag = true)
    (hsealed : c.isSealed = true) : img.CanUnseal s c := by
  have hle : c.otype.toNat ≤ maxOtype := of_decide_eq_true hsealed
  have hval : (c.otype.setWidth 32 : Word).toNat = c.otype.toNat := by
    rw [BitVec.toNat_setWidth]
    exact Nat.mod_eq_of_lt (by have := c.otype.isLt; omega)
  have hlt : (c.otype.setWidth 32 : Word) < img.heapEnd := by
    rw [BitVec.lt_def, hval]
    omega
  have hsub : (c.otype.setWidth 32 : Word) - img.regularMemCap.base = c.otype.setWidth 32 :=
    BitVec.sub_zero _
  have hbase : ¬ (c.otype.setWidth 32 : Word) < img.regularMemCap.base := by
    rw [BitVec.lt_def]
    exact Nat.not_lt_zero _
  have hunsealed : img.regularMemCap.isSealed = false := Capability.isSealed_otype_unsealed
  have hset := setAddr_of_lt rfl hunsealed hbase (hsub.symm ▸ hlt)
  rw [hsub] at hset
  refine ⟨_, .modify .CSetAddr (.reached (hddc ▸ .ddc)) (by decide) hset, 0, 0, ?_⟩
  have haddr : ({ img.regularMemCap with offset := c.otype.setWidth 32 } : Capability).address
      = c.otype.setWidth 32 := BitVec.zero_add _
  refine cUnseal_of_authority 0 0 htag hsealed rfl Capability.isSealed_otype_unsealed haddr rfl
    ?_ ?_
  · rw [haddr]
    exact hbase
  · rw [haddr, show ({ img.regularMemCap with
      offset := c.otype.setWidth 32 } : Capability).top = img.heapEnd from BitVec.zero_add _]
    exact BitVec.not_le.2 hlt

/-- What the boot code leaves in `DDC` where it comes to its end. -/
theorem ddc_of_initCapabilities {t : BootState w} (hddc : s.core.scrs .ddc = .root)
    (h : img.initCapabilities.exec s = (.ok (), t)) : t.core.scrs .ddc = img.regularMemCap := by
  have hwp : Trapping.wp img.initCapabilities _ _ s := wp_initCapabilities hddc
  unfold Trapping.wp at hwp
  rw [h] at hwp
  exact hwp

/-- Regular memory in `DDC` confines nothing. -/
theorem not_confined_of_regularMemCap (hddc : s.core.scrs .ddc = img.regularMemCap)
    (hend : maxOtype < img.heapEnd.toNat) : ¬ img.Confined s := by
  intro hconf
  refine (hconf.noOtype _ .ddc 0 (Nat.zero_le _)).1 ?_
  rw [hddc]
  exact (grantsOtype_regularMemCap (by omega)).1

/-- **The boot code never confines the untrusted code.** Whatever the end of
the heap above the object types and whatever the length of the handler, once
the boot code is through untrusted code has an authority over every object
type, and can unseal every capability it is given. -/
theorem initCapabilities_not_confined {s t : BootState w} (hddc : s.core.scrs .ddc = .root)
    (hend : maxOtype < img.heapEnd.toNat) (h : img.initCapabilities.exec s = (.ok (), t)) :
    ¬ img.Confined t
      ∧ (∀ otype ≤ maxOtype, ∃ c, img.Reaches t c ∧ c.GrantsOtype Permissions.permitSeal otype
          ∧ c.GrantsOtype Permissions.permitUnseal otype)
      ∧ ∀ c : Capability, c.tag = true → c.isSealed = true → img.CanUnseal t c := by
  have hend' := ddc_of_initCapabilities hddc h
  refine ⟨not_confined_of_regularMemCap hend' hend, fun otype hle => ?_, fun c htag hsealed => ?_⟩
  · exact ⟨_, .ddc, by rw [hend']; exact grantsOtype_regularMemCap (by omega)⟩
  · exact canUnseal_of_regularMemCap hend' hend htag hsealed

/-! ### A small image -/

/-- Sixty-four kilobytes from `0x80000000` on, with a handler of two words. -/
def small : BootImage where
  cfg := ⟨0x80000000, 0x1000, by decide, MemConfig.aligned_ram, by decide⟩
  device := fun _ => 0
  addr
    | .root => 0x80000100#32
    | .regularMem => 0x80000110#32
    | .trustedTrapsSeal => 0x80000120#32
    | .trapDataCap => 0x80000130#32
    | .trapHandler => 0x80000140#32
    | .mepcc => 0x80000150#32
    | .uniqueMem => 0x80000160#32
    | .heapCap => 0x80000170#32
  nonEnclaveTrapData := 0x80000400#32
  heapEnd := 0x80001000#32
  trustedTrapsStart := 0x80000020#32
  trustedTrapsEnd := 0x80000028#32
  resume := 0x80000200#32
  link := 1
  aligned := by rintro (_ | _) <;> decide
  held := by rintro (_ | _) <;> exact ⟨by decide, by decide⟩
  regular := by rintro (_ | _) <;> decide
  apart := by rintro (_ | _) (_ | _) <;> decide
  fits := by decide

/-- The state of reset, with nothing in memory. -/
def atReset : BootState 8 where
  core :=
    { regs := fun _ => .null
      scrs := fun _ => .root
      pcc := .root
      store := .reset 8 1 }
  mem := ⟨fun _ => false, fun _ => 0⟩

/-- The boot code comes to its end on the small image. -/
theorem exists_exec_small : ∃ t, small.initCapabilities.exec atReset = (.ok (), t) := by
  have hok : (small.initCapabilities.exec atReset).1.isOk = true := by decide +kernel
  generalize small.initCapabilities.exec atReset = r at hok
  obtain ⟨e, t⟩ := r
  cases e with
  | error cause => cases hok
  | ok a => exact ⟨t, rfl⟩

/-- On the small image untrusted code can unseal what the trap handler sealed. -/
theorem small_unseals_trap_data :
    ∃ t, small.initCapabilities.exec atReset = (.ok (), t)
      ∧ ¬ small.Confined t
      ∧ small.CanUnseal t ((Capability.root).sealWith (BitVec.ofNat 12 maxOtype)) := by
  obtain ⟨t, ht⟩ := exists_exec_small
  have hnot := initCapabilities_not_confined rfl (by decide) ht
  exact ⟨t, ht, hnot.1, hnot.2.2 _ rfl (by decide)⟩

/-- **The small image leaves `DDC` as an authority over object type zero.** -/
theorem small_grants_otype_zero :
    ∃ t, small.initCapabilities.exec atReset = (.ok (), t)
      ∧ (∃ c, small.Reaches t c ∧ c.GrantsOtype Permissions.permitUnseal 0)
      ∧ ¬ small.Confined t := by
  obtain ⟨t, ht⟩ := exists_exec_small
  have hddc := ddc_of_initCapabilities rfl ht
  refine ⟨t, ht, ⟨_, .ddc, ?_⟩, not_confined_of_regularMemCap hddc (by decide)⟩
  rw [hddc]
  exact (grantsOtype_regularMemCap (by decide)).2

end BootImage

end Proteus
