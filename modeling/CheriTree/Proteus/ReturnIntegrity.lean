import CheriTree.Proteus.EnclaveRuntime

/-!
# Where the return entry of the user enclave jumps to

`enclave_invoke` pushes the capability to return to and saves the stack
pointer; `enclave_return_entry` loads the saved stack pointer, pops a
capability and jumps to it. The jump is to the return capability of an
invocation that is still pending as long as the saved stack pointer is the one
of that invocation.

It is not always. `use_sensor` pops the argument it pushed before the
invocation, and the stack pointer it then has is saved nowhere: the one saved
by the return entry points at that argument, which the adversary supplied. The
stack of `enclave_init` also reaches down into the static data, past the
argument buffer that the sensor may write. `Cautious` is what an entry has to
keep to; along runs of cautious entries every return is to a pending
invocation.
-/

namespace Proteus

/-- **Every return is to a pending invocation**: at each jump of the return
entry, its capability was stored more often than it was jumped to. -/
def ControlFlowIntact (log : List ReturnEvent) : Prop :=
  ∀ before cap after, log = before ++ .jumped cap :: after →
    before.count (.jumped cap) < before.count (.stored cap)

theorem ControlFlowIntact.nil : ControlFlowIntact [] := by
  intro before cap after h
  cases before <;> cases h

/-- A place in a log with one more event is the last one, or a place before. -/
theorem append_singleton_cases {log before after : List ReturnEvent} {e a : ReturnEvent}
    (h : log ++ [e] = before ++ a :: after) :
    (log = before ∧ e = a) ∨ ∃ after', log = before ++ a :: after' := by
  rcases List.eq_nil_or_concat after with rfl | ⟨after', e', rfl⟩
  · obtain ⟨hl, he⟩ := List.append_inj' h rfl
    exact Or.inl ⟨hl, List.head_eq_of_cons_eq he⟩
  · rw [List.concat_eq_append, ← List.cons_append, ← List.append_assoc] at h
    exact Or.inr ⟨after', List.append_inj_left' h rfl⟩

/-- What a store of a return capability does to the counts. -/
theorem count_stored (log : List ReturnEvent) (ret : Capability) :
    (log ++ [ReturnEvent.stored ret]).count (.stored ret) = log.count (.stored ret) + 1
      ∧ (log ++ [ReturnEvent.stored ret]).count (.jumped ret) = log.count (.jumped ret) := by
  simp

/-- What a jump does to the counts. -/
theorem count_jumped (log : List ReturnEvent) (ret : Capability) :
    (log ++ [ReturnEvent.jumped ret]).count (.stored ret) = log.count (.stored ret)
      ∧ (log ++ [ReturnEvent.jumped ret]).count (.jumped ret) = log.count (.jumped ret) + 1 := by
  simp

/-- A store of a return capability keeps the log intact. -/
theorem ControlFlowIntact.stored {log : List ReturnEvent} (h : ControlFlowIntact log)
    (ret : Capability) : ControlFlowIntact (log ++ [.stored ret]) := by
  intro before cap after heq
  rcases append_singleton_cases heq with ⟨-, he⟩ | ⟨after', hl⟩
  · cases he
  · exact h before cap after' hl

/-- A jump to a pending return capability keeps the log intact. -/
theorem ControlFlowIntact.jumped {log : List ReturnEvent} (h : ControlFlowIntact log)
    {ret : Capability} (hp : log.count (.jumped ret) < log.count (.stored ret)) :
    ControlFlowIntact (log ++ [.jumped ret]) := by
  intro before cap after heq
  rcases append_singleton_cases heq with ⟨rfl, he⟩ | ⟨after', hl⟩
  · rw [← ReturnEvent.jumped.inj he]
    exact hp
  · exact h before cap after' hl

namespace UserEnclave

variable {w : ℕ} (x : UserEnclave)

/-! ## The data section -/

/-- The address of an offset in the data section. -/
def addr (f : ℕ) : Word := x.c31.base + BitVec.ofNat 32 f

/-- The length of the data section. -/
def len : ℕ := x.c31.length.toNat

/-- The capability at an offset of the data section. -/
def slot (m : TaggedMemory) (f : ℕ) : Capability := m.loadCap x.cfg (fun _ => 0) (x.addr f)

/-- The stack pointer at an offset of the data section. -/
def stackCap (sp : ℕ) : Capability :=
  { x.c31 with
    base := x.addr STATIC_LEN
    length := x.c31.length - BitVec.ofNat 32 STATIC_LEN
    offset := BitVec.ofNat 32 sp - BitVec.ofNat 32 STATIC_LEN }

/-- The return capability of `use_sensor`. -/
def ret : Capability := x.returnCap x.useSensorReturn

/-- **A capability the adversary may pass**: it does not reach the saved stack
pointer nor the stack. -/
def Harmless (c : Capability) : Prop :=
  c.tag = true →
    ¬ c.range.Meets ⟨x.c31.base.toNat + DATA_OFFSET_CSP, CAP_LEN⟩
      ∧ ¬ c.range.Meets ⟨x.c31.base.toNat + ARGS_END, x.len - ARGS_END⟩

/-- **The saved stack pointer and what is on the stack from `n` on is kept**:
what is tagged there afterwards was there before. -/
def KeptFrom (n : ℕ) (m m' : TaggedMemory) : Prop :=
  ∀ f, f = DATA_OFFSET_CSP ∨ n ≤ f → f + 16 ≤ x.len → (x.slot m' f).tag = true →
    x.slot m' f = x.slot m f

/-- **What holds between two instructions**, with the saved stack pointer at
`sp`. -/
structure InvAt (sp : ℕ) (s : RuntimeState) : Prop where
  sp_le : sp ≤ x.len
  csp : DATA_OFFSET_CSP + 16 ≤ x.len → (x.slot s.mem DATA_OFFSET_CSP).tag = true →
    x.slot s.mem DATA_OFFSET_CSP = x.stackCap sp
  atTop : s.savedBy = some .init → sp = x.len
  frame : s.savedBy = some .invoke →
    ARGS_END ≤ sp ∧ sp + 48 ≤ x.len ∧ ((x.slot s.mem sp).tag = true → x.slot s.mem sp = x.ret)
      ∧ x.Harmless (x.slot s.mem (sp + 32))
  intact : ControlFlowIntact s.log
  balance : s.log.count (.jumped x.ret) ≤ s.log.count (.stored x.ret)
  pending : s.savedBy = some .invoke →
    s.log.count (.jumped x.ret) < s.log.count (.stored x.ret)

/-- What holds between two entries. -/
def Good (s : RuntimeState) : Prop := ∃ sp, x.InvAt sp s

section

variable {x} {i : EntryInput w} {s : RuntimeState} {sp : ℕ}

theorem toNat_addr {f : ℕ} (h : f ≤ x.len) : (x.addr f).toNat = x.c31.base.toNat + f := by
  have htop := x.top_lt
  unfold len at h
  rw [addr, BitVec.toNat_add, BitVec.toNat_ofNat, Nat.mod_eq_of_lt (a := f) (by omega),
    Nat.mod_eq_of_lt (by omega)]

theorem addr_add (f g : ℕ) : x.addr f + BitVec.ofNat 32 g = x.addr (f + g) := by
  rw [addr, addr, BitVec.ofNat_add f g, BitVec.add_assoc]

theorem holds_addr {f : ℕ} (h : f + 16 ≤ x.len) : TaggedMemory.Holds x.cfg (x.addr f) 16 := by
  have hlo := x.memoryStart_le
  have hhi := x.le_memoryEnd
  rw [TaggedMemory.Holds, toNat_addr (by omega)]
  unfold len at h
  omega

/-- A load in the data section gives the slot, whatever the devices are. -/
theorem loadCap_addr {f : ℕ} (h : f + 16 ≤ x.len) (m : TaggedMemory) (device : Word → Word) :
    m.loadCap x.cfg device (x.addr f) = x.slot m f := by
  rw [slot, (holds_addr h).loadCap_eq, (holds_addr h).loadCap_eq]

theorem KeptFrom.refl (n : ℕ) (m : TaggedMemory) : x.KeptFrom n m m := fun _ _ _ _ => rfl

theorem KeptFrom.trans {n : ℕ} {m m' m'' : TaggedMemory} (h : x.KeptFrom n m m')
    (h' : x.KeptFrom n m' m'') : x.KeptFrom n m m'' := by
  intro f hf hlen htag
  have he := h' f hf hlen htag
  rw [he] at htag ⊢
  exact h f hf hlen htag

/-- A slot that is kept stays harmless. -/
theorem Harmless.of_kept {c c' : Capability} (h : x.Harmless c)
    (hk : c'.tag = true → c' = c) : x.Harmless c' := by
  intro htag
  have he := hk htag
  rw [he] at htag ⊢
  exact h htag

/-- **What keeps the stack keeps the invariant.** -/
theorem InvAt.of_kept (h : x.InvAt sp s) {m : TaggedMemory} {n : ℕ}
    (hk : x.KeptFrom n s.mem m) (hn : s.savedBy = some .invoke → n ≤ sp) :
    x.InvAt sp { s with mem := m } where
  sp_le := h.sp_le
  csp hlen htag := by
    have he := hk DATA_OFFSET_CSP (Or.inl rfl) hlen htag
    show x.slot m _ = _
    rw [he]
    exact h.csp hlen (by rw [← he]; exact htag)
  atTop := h.atTop
  frame hs := by
    obtain ⟨hlo, hhi, hret, hharm⟩ := h.frame hs
    refine ⟨hlo, hhi, fun htag => ?_, ?_⟩
    · have he := hk sp (Or.inr (hn hs)) (by omega) htag
      show x.slot m sp = _
      rw [he]
      exact hret (by rw [← he]; exact htag)
    · exact hharm.of_kept (hk (sp + 32) (Or.inr (by have := hn hs; omega)) (by omega))
  intact := h.intact
  balance := h.balance
  pending := h.pending

/-- The same with nothing on the stack touched. -/
theorem InvAt.of_kept_argsEnd (h : x.InvAt sp s) {m : TaggedMemory}
    (hk : x.KeptFrom ARGS_END s.mem m) : x.InvAt sp { s with mem := m } :=
  h.of_kept hk (fun hs => (h.frame hs).1)

/-- A capability store off the saved stack pointer and below `n`. -/
theorem keptFrom_storeCap (m : TaggedMemory) (cap : Capability) {a n : ℕ} (ha : a + 16 ≤ x.len)
    (hcsp : a + 16 ≤ DATA_OFFSET_CSP ∨ DATA_OFFSET_CSP + 16 ≤ a) (hn : a + 16 ≤ n) :
    x.KeptFrom n m (m.storeCap x.cfg (x.addr a) cap) := by
  intro f hf hlen _
  refine (holds_addr ha).loadCap_storeCap_of_apart (holds_addr hlen) ?_ _ _ _
  rw [toNat_addr (by omega), toNat_addr (by omega)]
  rcases hf with rfl | hf <;> omega

/-- What was stored in a slot is there. -/
theorem slot_storeCap {m : TaggedMemory} {a : ℕ} {cap : Capability} (ha : a + 16 ≤ x.len) :
    x.slot (m.storeCap x.cfg (x.addr a) cap) a = cap :=
  (holds_addr ha).loadCap_storeCap_self _ _ _

/-- A data store off the saved stack pointer and the stack. -/
theorem keptFrom_storeWord (m : TaggedMemory) {a : Word} (data : Word)
    (hcsp : a.toNat + 4 ≤ x.c31.base.toNat + DATA_OFFSET_CSP
      ∨ x.c31.base.toNat + DATA_OFFSET_CSP + 16 ≤ a.toNat)
    (hstack : a.toNat + 4 ≤ x.c31.base.toNat + ARGS_END
      ∨ x.c31.base.toNat + x.len ≤ a.toNat ∨ x.len ≤ ARGS_END) :
    x.KeptFrom ARGS_END m (m.storeWord x.cfg a data) := by
  intro f hf hlen htag
  refine (holds_addr hlen).loadCap_storeWord ?_ _ _ _ htag
  rw [toNat_addr (by omega)]
  rcases hf with rfl | hf <;> omega

/-! ## Rules for the instructions

A trap leaves the state where it is, so each rule asks for the trap's
condition of the state before. -/

open Trapping (wp)

variable {α : Type} {Q : α → RuntimeState → Prop} {E : RuntimeState → Prop}

theorem wp_trapIf {p : Prop} [Decidable p] {R : Unit → RuntimeState → Prop}
    (hQ : ¬ p → R () s) (hE : E s) : wp (trapIf p) R E s := by
  unfold trapIf
  rw [Trapping.wp_lift]
  refine ⟨fun a ha => ?_, fun _ _ => hE⟩
  split at ha
  · cases ha
  · rename_i hp
    exact hQ hp

/-- An instruction that gives a value or traps. -/
theorem wp_orTrap {ε : Type} {v : Except ε α} (hQ : ∀ a, v = .ok a → Q a s) (hE : E s) :
    wp (orTrap v) Q E s := by
  unfold orTrap
  rw [Trapping.wp_lift]
  refine ⟨fun a ha => ?_, fun _ _ => hE⟩
  cases v with
  | error e => cases ha
  | ok b =>
    rw [← Except.ok.inj ha]
    exact hQ b rfl

theorem wp_lcCap {cs1 : Capability} {R : Capability → RuntimeState → Prop}
    (hQ : CapCheck.check cs1 cs1.address .load capByteWidth = none →
      R (s.mem.loadCap x.cfg i.device cs1.address) s) (hE : E s) :
    wp (x.lcCap i cs1) R E s := by
  unfold lcCap
  rw [Trapping.wp_bind]
  exact wp_trapIf (fun hc => hQ (not_not.1 hc)) hE

theorem wp_lwCap {cs1 : Capability} {R : Word → RuntimeState → Prop} (hQ : ∀ v, R v s)
    (hE : E s) : wp (x.lwCap i cs1) R E s := by
  unfold lwCap
  rw [Trapping.wp_bind]
  refine wp_trapIf (fun _ => ?_) hE
  rw [Trapping.wp_bind]
  exact wp_trapIf (fun _ => hQ _) hE

theorem wp_scCap {cs2 cs1 : Capability} {R : Unit → RuntimeState → Prop}
    (hQ : CapCheck.check cs1 cs1.address .store capByteWidth = none →
      R () { s with mem := s.mem.storeCap x.cfg cs1.address cs2 }) (hE : E s) :
    wp (x.scCap cs2 cs1) R E s := by
  unfold scCap
  rw [Trapping.wp_bind]
  exact wp_trapIf (fun hc => hQ (not_not.1 hc)) hE

theorem wp_swCap {rs2 : Word} {cs1 : Capability} {R : Unit → RuntimeState → Prop}
    (hQ : CapCheck.check cs1 cs1.address .store LsuAccessWidth.W.byteWidth = none →
      R () { s with mem := s.mem.storeWord x.cfg cs1.address rs2 }) (hE : E s) :
    wp (x.swCap rs2 cs1) R E s := by
  unfold swCap
  rw [Trapping.wp_bind]
  refine wp_trapIf (fun hc => ?_) hE
  rw [Trapping.wp_bind]
  exact wp_trapIf (fun _ => hQ (not_not.1 hc)) hE

theorem wp_saveCsp {csp ct : Capability} {saver : CspSaver} {R : Unit → RuntimeState → Prop}
    (hQ : CapCheck.check ct ct.address .store capByteWidth = none →
      R () { s with mem := s.mem.storeCap x.cfg ct.address csp, savedBy := some saver })
    (hE : E s) : wp (x.saveCsp csp ct saver) R E s := by
  unfold saveCsp
  rw [Trapping.wp_bind]
  exact wp_scCap hQ hE

/-- An exit changes nothing. -/
theorem wp_enclaveExit {ca0 ca1 cra : Capability} (h : E s) :
    wp (enclaveExit ca0 ca1 cra) (fun _ => E) E s := by
  unfold enclaveExit
  rw [Trapping.wp_bind]
  exact wp_orTrap (fun _ _ => h) h

/-! ### Checks through the data capability -/

/-- **What is in bounds of the data capability is in the data section.** -/
theorem le_len_of_inBounds {f n : ℕ} (hfn : f + n ≤ ARGS_END + 16)
    (h : x.c31.InBounds (x.addr f) (BitVec.ofNat 32 n)) : f + n ≤ x.len := by
  have htop := x.top_lt
  have hlt : f + n < 2 ^ 32 := lt_of_le_of_lt hfn (by decide)
  rw [capBytes] at htop
  rw [Capability.inBounds_iff, addr, BitVec.toNat_add, BitVec.toNat_ofNat, BitVec.toNat_ofNat,
    Nat.mod_eq_of_lt (a := f) (by omega), Nat.mod_eq_of_lt (a := n) (by omega),
    Nat.mod_eq_of_lt (a := x.c31.base.toNat + f) (by omega),
    Nat.mod_eq_of_lt (a := x.c31.base.toNat + f + n) (by omega),
    Nat.mod_eq_of_lt (a := x.c31.base.toNat + x.c31.length.toNat) (by omega)] at h
  unfold len
  omega

/-- An offset at which an access through the data capability is accepted. -/
theorem le_len_of_check {f : ℕ} {op : LsuOperationType} (hop : op ≠ .none) (hf : f ≤ ARGS_END)
    (h : CapCheck.check (cSetOffset x.c31 (BitVec.ofNat 32 f)) (x.addr f) op capByteWidth = none) :
    f + 16 ≤ x.len :=
  le_len_of_inBounds (n := 16) (by omega) ((CapCheck.check_eq_none_iff hop).1 h).2.2.2

/-- An offset from an offset. -/
theorem cIncOffset_cSetOffset (c : Capability) (f g : ℕ) :
    cIncOffset (cSetOffset c (BitVec.ofNat 32 f)) (BitVec.ofNat 32 g)
      = cSetOffset c (BitVec.ofNat 32 (f + g)) := by
  unfold cIncOffset cSetOffset
  rw [BitVec.ofNat_add]

/-- The data capability comes with no offset. -/
theorem cIncOffset_c31 (f : ℕ) :
    cIncOffset x.c31 (BitVec.ofNat 32 f) = cSetOffset x.c31 (BitVec.ofNat 32 f) := by
  unfold cIncOffset cSetOffset
  rw [x.offset_eq_zero]
  congr 1
  exact BitVec.zero_add _

/-- The stack pointer points where it says. -/
theorem address_stackCap (sp : ℕ) : (x.stackCap sp).address = x.addr sp := by
  show x.c31.base + BitVec.ofNat 32 STATIC_LEN
    + (BitVec.ofNat 32 sp - BitVec.ofNat 32 STATIC_LEN) = x.c31.base + BitVec.ofNat 32 sp
  rw [BitVec.add_assoc, BitVec.add_comm (BitVec.ofNat 32 STATIC_LEN), BitVec.sub_add_cancel]

theorem stackCap_add (sp k : ℕ) :
    cIncOffset (x.stackCap sp) (BitVec.ofNat 32 k) = x.stackCap (sp + k) := by
  unfold cIncOffset stackCap
  simp only
  congr 1
  rw [BitVec.ofNat_add, BitVec.sub_eq_add_neg, BitVec.sub_eq_add_neg, BitVec.add_assoc,
    BitVec.add_comm (-BitVec.ofNat 32 STATIC_LEN), ← BitVec.add_assoc]

theorem stackCap_sub {sp k : ℕ} (h : k ≤ sp) :
    cIncOffset (x.stackCap sp) (-BitVec.ofNat 32 k) = x.stackCap (sp - k) := by
  obtain ⟨n, rfl⟩ := Nat.exists_eq_add_of_le' h
  rw [Nat.add_sub_cancel, ← stackCap_add n k]
  unfold cIncOffset
  simp only
  rw [← BitVec.sub_eq_add_neg, BitVec.add_sub_cancel]

/-! ### What the routines keep -/

theorem InvAt.good (h : x.InvAt sp s) : x.Good s := ⟨sp, h⟩

/-- A load keeps what holds. -/
theorem wp_lcCap_any {cs1 : Capability} {R : Capability → RuntimeState → Prop}
    (hQ : ∀ v, R v s) (hE : E s) : wp (x.lcCap i cs1) R E s :=
  wp_lcCap (fun _ => hQ _) hE

/-- A capability store in the static data, off the saved stack pointer. -/
theorem wp_scCap_static {f : ℕ} {cap : Capability} {R : Unit → RuntimeState → Prop}
    (hcsp : f + 16 ≤ DATA_OFFSET_CSP ∨ DATA_OFFSET_CSP + 16 ≤ f) (hf : f + 16 ≤ ARGS_END)
    (h : x.Good s) (hQ : ∀ s', x.Good s' → R () s') :
    wp (x.scCap cap (cSetOffset x.c31 (BitVec.ofNat 32 f))) R x.Good s := by
  refine wp_scCap (fun hc => hQ _ ?_) h
  obtain ⟨sp, h⟩ := h
  exact ⟨sp, h.of_kept_argsEnd
    (keptFrom_storeCap _ _ (le_len_of_check (by decide) (by omega) hc) hcsp hf)⟩

/-- **A save of the stack pointer.** -/
theorem InvAt.save (h : x.InvAt sp s) {sp' : ℕ} (saver : CspSaver)
    (hlen : DATA_OFFSET_CSP + 16 ≤ x.len) (hle : sp' ≤ x.len) (htop : saver = .init → sp' = x.len)
    (hframe : saver = .invoke → ARGS_END ≤ sp' ∧ sp' + 48 ≤ x.len
      ∧ ((x.slot s.mem sp').tag = true → x.slot s.mem sp' = x.ret)
      ∧ x.Harmless (x.slot s.mem (sp' + 32)))
    (hpending : saver = .invoke →
      s.log.count (.jumped x.ret) < s.log.count (.stored x.ret)) :
    x.InvAt sp' { s with
      mem := s.mem.storeCap x.cfg (x.addr DATA_OFFSET_CSP) (x.stackCap sp')
      savedBy := some saver } where
  sp_le := hle
  csp _ _ := slot_storeCap hlen
  atTop hs := htop (Option.some.inj hs)
  frame hs := by
    obtain ⟨hlo, hhi, hret, hharm⟩ := hframe (Option.some.inj hs)
    have hkept : ∀ f, ARGS_END ≤ f → f + 16 ≤ x.len →
        x.slot (s.mem.storeCap x.cfg (x.addr DATA_OFFSET_CSP) (x.stackCap sp')) f
          = x.slot s.mem f := by
      intro f hf hflen
      refine (holds_addr hlen).loadCap_storeCap_of_apart (holds_addr hflen) (Or.inl ?_) _ _ _
      rw [toNat_addr (by omega), toNat_addr (by omega)]
      have : DATA_OFFSET_CSP + 16 ≤ ARGS_END := by decide
      omega
    show ARGS_END ≤ sp' ∧ sp' + 48 ≤ x.len ∧ _
    refine ⟨hlo, hhi, ?_, ?_⟩
    · show (x.slot (s.mem.storeCap _ _ _) sp').tag = true → _
      rw [hkept sp' hlo (by omega)]
      exact hret
    · show x.Harmless (x.slot (s.mem.storeCap _ _ _) (sp' + 32))
      rw [hkept (sp' + 32) (by omega) (by omega)]
      exact hharm
  intact := h.intact
  balance := h.balance
  pending hs := hpending (Option.some.inj hs)

/-- The stack pointer of `enclave_init` is at the top of the data section. -/
theorem stackCap_len {csp : Capability}
    (h : Modification.setBounds.apply (cSetOffset x.c31 (BitVec.ofNat 32 STATIC_LEN))
      (x.c31.length - BitVec.ofNat 32 STATIC_LEN) = .ok csp) :
    cSetOffset csp (x.c31.length - BitVec.ofNat 32 STATIC_LEN) = x.stackCap x.len := by
  obtain ⟨-, -, rfl⟩ := setBounds_ok h
  unfold stackCap cSetOffset
  simp only
  congr 2
  rw [len, BitVec.ofNat_toNat, BitVec.setWidth_eq]

theorem wp_enclaveInit (ct0 : Capability) (h : x.Good s) :
    wp (x.enclaveInit i ct0) (fun _ => x.Good) x.Good s := by
  unfold enclaveInit
  simp only
  rw [Trapping.wp_ite]
  refine ⟨fun _ => wp_enclaveExit h, fun _ => ?_⟩
  rw [Trapping.wp_bind]
  refine wp_scCap_static (by decide) (by decide) h (fun s h => ?_)
  rw [Trapping.wp_bind]
  refine wp_scCap_static (by decide) (by decide) h (fun s h => ?_)
  rw [Trapping.wp_bind]
  refine wp_orTrap (fun csp hcsp => ?_) h
  rw [Trapping.wp_bind]
  refine wp_saveCsp (fun hc => ?_) h
  have hlen := le_len_of_check (by decide) (by decide) hc
  obtain ⟨sp, h⟩ := h
  have h' := (h.save .init hlen (le_refl _) (fun _ => rfl) (by simp) (by simp)).good
  rw [stackCap_len hcsp]
  -- from here on nothing is stored
  rw [Trapping.wp_bind]
  refine wp_orTrap (fun _ _ => ?_) h'
  rw [Trapping.wp_bind]
  refine wp_orTrap (fun _ _ => ?_) h'
  rw [Trapping.wp_bind]
  refine wp_orTrap (fun _ _ => ?_) h'
  rw [Trapping.wp_bind]
  refine wp_orTrap (fun _ _ => ?_) h'
  exact wp_enclaveExit h'

theorem wp_compareId (n : ℕ) (ct3 ct4 : Capability) (h : x.Good s) :
    wp (x.compareId i ct3 ct4 n) (fun _ => x.Good) x.Good s := by
  induction n generalizing ct3 ct4 with
  | zero => exact h
  | succ n ih =>
    unfold compareId
    rw [Trapping.wp_bind]
    refine wp_lwCap (fun t3 => ?_) h
    rw [Trapping.wp_bind]
    refine wp_lwCap (fun t4 => ?_) h
    rw [Trapping.wp_ite]
    exact ⟨fun _ => h, fun _ => ih _ _⟩

/-- The words of an id go to the buffer. -/
theorem wp_eStoreId {rs1 : Word} {cs2 : Capability} {R : Word → RuntimeState → Prop}
    (hlen : DATA_OFFSET_ENCLAVE + DATA_OFFSET_BUF + 32 ≤ x.len)
    (haddr : cs2.address = x.addr (DATA_OFFSET_ENCLAVE + DATA_OFFSET_BUF)) (h : x.Good s)
    (hQ : ∀ v s', x.Good s' → R v s') : wp (x.eStoreId i rs1 cs2) R x.Good s := by
  unfold eStoreId
  rw [Trapping.wp_ite]
  refine ⟨fun _ => ?_, fun _ => hQ _ _ h⟩
  cases i.store.getHash rs1 with
  | none => exact h
  | some found =>
    cases found with
    | none => exact hQ _ _ h
    | some hash =>
      rw [Trapping.wp_bind, Trapping.wp_update, Trapping.wp_pure]
      refine hQ _ _ ?_
      obtain ⟨sp, h⟩ := h
      refine ⟨sp, h.of_kept_argsEnd ?_⟩
      -- word by word, each of the eight in the buffer
      suffices hk : ∀ n ≤ 8, x.KeptFrom ARGS_END s.mem
          ((List.range n).foldl (fun m k =>
            m.storeWord x.cfg (cs2.address + BitVec.ofNat 32 (4 * k))
              (endiannessSwap (digestWord hash k))) s.mem) from hk 8 (le_refl _)
      intro n hn
      induction n with
      | zero => exact .refl _ _
      | succ n ih =>
        rw [List.range_succ, List.foldl_append]
        refine (ih (by omega)).trans ?_
        have hword : cs2.address + BitVec.ofNat 32 (4 * n)
            = x.addr (DATA_OFFSET_ENCLAVE + DATA_OFFSET_BUF + 4 * n) := by
          rw [haddr, addr_add]
        have hnat := toNat_addr (x := x) (f := DATA_OFFSET_ENCLAVE + DATA_OFFSET_BUF + 4 * n)
          (by omega)
        have hbuf : DATA_OFFSET_ENCLAVE + DATA_OFFSET_BUF + 32 ≤ ARGS_END := by decide
        have hcsp : DATA_OFFSET_CSP + 16 ≤ DATA_OFFSET_ENCLAVE + DATA_OFFSET_BUF := by decide
        rw [List.foldl_cons, List.foldl_nil, hword]
        refine keptFrom_storeWord _ _ (Or.inr ?_) (Or.inl ?_)
        · rw [hnat]
          omega
        · rw [hnat]
          omega

theorem wp_storeSensor (ct2 : Capability) (t0 : Word) (h : x.Good s) :
    wp (x.storeSensor i (cSetOffset x.c31 (BitVec.ofNat 32 DATA_OFFSET_ENCLAVE)) ct2 t0)
      (fun _ => x.Good) x.Good s := by
  unfold storeSensor
  simp only [cIncOffset_cSetOffset]
  rw [Trapping.wp_bind]
  refine wp_lcCap_any (fun ct3 => ?_) h
  rw [Trapping.wp_ite]
  refine ⟨fun _ => wp_enclaveExit h, fun _ => ?_⟩
  rw [Trapping.wp_bind]
  refine wp_lcCap_any (fun ct4 => ?_) h
  rw [Trapping.wp_bind]
  refine wp_scCap_static (by decide) (by decide) h (fun s h => ?_)
  rw [Trapping.wp_bind]
  refine wp_lcCap_any (fun ct4 => ?_) h
  rw [Trapping.wp_bind]
  refine wp_scCap_static (by decide) (by decide) h (fun s h => ?_)
  rw [Trapping.wp_bind]
  refine wp_scCap_static (by decide) (by decide) h (fun s h => ?_)
  rw [Trapping.wp_bind]
  refine wp_scCap_static (by decide) (by decide) h (fun s h => ?_)
  exact wp_enclaveExit h

/-- Bounds set within the data capability. -/
theorem setBounds_c31 {f n : ℕ} {cd : Capability} (hfn : f + n ≤ ARGS_END + 16)
    (h : Modification.setBounds.apply (cSetOffset x.c31 (BitVec.ofNat 32 f)) (BitVec.ofNat 32 n)
      = .ok cd) :
    f + n ≤ x.len ∧ cd = { x.c31 with
      base := x.addr f
      length := BitVec.ofNat 32 n
      offset := 0 } := by
  obtain ⟨-, hin, rfl⟩ := setBounds_ok h
  exact ⟨le_len_of_inBounds hfn hin, rfl⟩

theorem wp_setSensorEnclave (h : x.Good s) :
    wp (x.setSensorEnclave i (cSetOffset x.c31 (BitVec.ofNat 32 DATA_OFFSET_ENCLAVE)))
      (fun _ => x.Good) x.Good s := by
  unfold setSensorEnclave
  rw [cIncOffset_cSetOffset, Trapping.wp_bind]
  refine wp_lcCap_any (fun ct2 => ?_) h
  rw [Trapping.wp_ite]
  refine ⟨fun _ => wp_enclaveExit h, fun _ => ?_⟩
  rw [Trapping.wp_bind]
  refine wp_orTrap (fun ct3 hct3 => ?_) h
  obtain ⟨hlen, hct3⟩ := setBounds_c31 (n := 32) (by decide) hct3
  rw [Trapping.wp_bind]
  refine wp_eStoreId hlen ?_ h (fun t1 s h => ?_)
  · rw [hct3, Capability.address]
    exact BitVec.add_zero _
  rw [Trapping.wp_ite]
  refine ⟨fun _ => wp_enclaveExit h, fun _ => ?_⟩
  rw [Trapping.wp_bind]
  refine Trapping.wp_mono (wp_compareId 8 _ _ h) (fun same s h => ?_) (fun _ h => h)
  rw [Trapping.wp_ite]
  exact ⟨fun _ => wp_enclaveExit h, fun _ => wp_storeSensor _ _ h⟩

/-- A push puts a capability below the stack pointer, and keeps what is above. -/
theorem wp_push {cap : Capability} {n : ℕ} {R : Capability → RuntimeState → Prop}
    (hlo : ARGS_END ≤ n) (hhi : n + 16 ≤ x.len) (h : x.Good s)
    (hQ : ∀ m, x.slot m n = cap → x.KeptFrom (n + 16) s.mem m →
      R (x.stackCap n) { s with mem := m }) :
    wp (x.push cap (x.stackCap (n + 16))) R x.Good s := by
  unfold push
  simp only
  rw [show CAP_LEN = 16 from rfl, stackCap_sub (Nat.le_add_left 16 n), Nat.add_sub_cancel,
    Trapping.wp_bind]
  refine wp_scCap (fun _ => ?_) h
  rw [address_stackCap, Trapping.wp_pure]
  have hcsp : DATA_OFFSET_CSP + 16 ≤ ARGS_END := by decide
  exact hQ _ (slot_storeCap hhi) (keptFrom_storeCap _ _ hhi (Or.inr (by omega)) (le_refl _))

theorem InvAt.log_stored (h : x.InvAt sp s) :
    x.InvAt sp { s with log := s.log ++ [.stored x.ret] } where
  sp_le := h.sp_le
  csp := h.csp
  atTop := h.atTop
  frame := h.frame
  intact := h.intact.stored _
  balance := (count_stored s.log x.ret).2 ▸ (h.balance.trans (by
    rw [(count_stored s.log x.ret).1]
    exact Nat.le_succ _))
  pending hs := by
    have := h.pending hs
    show (s.log ++ [ReturnEvent.stored x.ret]).count _
      < (s.log ++ [ReturnEvent.stored x.ret]).count _
    rw [(count_stored s.log x.ret).1, (count_stored s.log x.ret).2]
    omega

/-- **The invocation**: two pushes below the argument pushed before, and a save
of the stack pointer. -/
theorem wp_enclaveInvoke {ca0 ct2 ct3 cra : Capability} {n : ℕ} (hlo : ARGS_END ≤ n)
    (hhi : n + 48 ≤ x.len) (h : x.InvAt sp s) (hsp : s.savedBy = some .invoke → n + 48 ≤ sp)
    (harm : x.Harmless (x.slot s.mem (n + 32))) :
    wp (x.enclaveInvoke i ca0 ct2 ct3 (x.stackCap (n + 16 + 16)) x.useSensorReturn cra)
      (fun _ => x.Good) x.Good s := by
  unfold enclaveInvoke
  rw [Trapping.wp_bind]
  refine wp_push (n := n + 16) (by omega) (by omega) h.good (fun m _ hk => ?_)
  have h := h.of_kept hk (fun hs => by have := hsp hs; omega)
  rw [Trapping.wp_bind]
  refine wp_push (n := n) hlo (by omega) h.good (fun m' hret hk' => ?_)
  have h := h.of_kept hk' (fun hs => by have := hsp hs; omega)
  have harm' : x.Harmless (x.slot m' (n + 32)) := by
    refine harm.of_kept (fun htag => ?_)
    have he := hk' (n + 32) (Or.inr (by omega)) (by omega) htag
    rw [he] at htag ⊢
    exact hk (n + 32) (Or.inr (by omega)) (by omega) htag
  rw [Trapping.wp_bind, Trapping.wp_update]
  have hcount : (s.log ++ [ReturnEvent.stored x.ret]).count (.jumped x.ret)
      < (s.log ++ [ReturnEvent.stored x.ret]).count (.stored x.ret) := by
    rw [(count_stored s.log x.ret).1, (count_stored s.log x.ret).2]
    exact Nat.lt_succ_of_le h.balance
  have h := h.log_stored
  rw [Trapping.wp_bind, cIncOffset_c31]
  refine wp_saveCsp (fun hc => ?_) h.good
  have hlen := le_len_of_check (by decide) (by decide) hc
  have h := (h.save .invoke hlen (by omega) (by simp) (fun _ => ⟨hlo, hhi, fun _ => hret, harm'⟩)
    (fun _ => hcount)).good
  rw [Trapping.wp_bind]
  refine wp_lcCap_any (fun _ => ?_) h
  rw [Trapping.wp_bind]
  refine wp_lcCap_any (fun _ => ?_) h
  rw [Trapping.wp_bind]
  exact wp_orTrap (fun _ _ => h) h

/-- `use_sensor`, with room for its frame above the argument buffer. -/
theorem wp_useSensor {ct0 : Capability} {n : ℕ} (hlo : ARGS_END ≤ n) (h : x.InvAt (n + 48) s)
    (harm : x.Harmless i.ca0) :
    wp (x.useSensor i ct0 (cSetOffset x.c31 (BitVec.ofNat 32 DATA_OFFSET_ENCLAVE))
      (x.stackCap (n + 48))) (fun _ => x.Good) x.Good s := by
  have hhi := h.sp_le
  unfold useSensor
  simp only [cIncOffset_cSetOffset]
  rw [Trapping.wp_bind]
  refine wp_lwCap (fun t0 => ?_) h.good
  rw [Trapping.wp_bind]
  refine wp_push (n := n + 32) (by omega) (by omega) h.good (fun m harg hk => ?_)
  have h := h.of_kept hk (fun _ => by omega)
  rw [Trapping.wp_bind]
  refine wp_orTrap (fun ca0 hca0 => ?_) h.good
  obtain ⟨hargs, hca0⟩ := setBounds_c31 (n := ARGS_LEN) (by decide) hca0
  rw [Trapping.wp_bind]
  refine wp_orTrap (fun _ _ => ?_) h.good
  rw [Trapping.wp_bind]
  refine wp_orTrap (fun ct2 _ => ?_) h.good
  have haddr : ca0.address = x.addr (DATA_OFFSET_ENCLAVE + DATA_OFFSET_ARGS) := by
    rw [hca0, Capability.address]
    exact BitVec.add_zero _
  have hlen : DATA_OFFSET_ENCLAVE + DATA_OFFSET_ARGS + 80 ≤ x.len := hargs
  have hend : DATA_OFFSET_ENCLAVE + DATA_OFFSET_ARGS + 80 = ARGS_END := rfl
  have hcsp : DATA_OFFSET_CSP + 16 ≤ DATA_OFFSET_ENCLAVE + DATA_OFFSET_ARGS := by decide
  -- the seal and the nonce go to the argument buffer
  rw [Trapping.wp_bind]
  refine wp_scCap (fun _ => ?_) h.good
  rw [haddr]
  have hk₁ := keptFrom_storeCap (x := x) m ct2 (n := ARGS_END)
    (a := DATA_OFFSET_ENCLAVE + DATA_OFFSET_ARGS) (by omega) (Or.inr hcsp) (by omega)
  have h := h.of_kept_argsEnd hk₁
  rw [Trapping.wp_bind]
  refine wp_swCap (fun _ => ?_) h.good
  have hnonce : (cIncOffset ca0 (BitVec.ofNat 32 CAP_LEN)).address
      = x.addr (DATA_OFFSET_ENCLAVE + DATA_OFFSET_ARGS + CAP_LEN) := by
    rw [← addr_add, ← haddr]
    show ca0.base + (ca0.offset + _) = ca0.base + ca0.offset + _
    rw [BitVec.add_assoc]
  rw [hnonce]
  have hnat := toNat_addr (x := x) (f := DATA_OFFSET_ENCLAVE + DATA_OFFSET_ARGS + CAP_LEN) (by
    rw [CAP_LEN]
    omega)
  have hcap : CAP_LEN = 16 := rfl
  have hk₂ := keptFrom_storeWord (x := x)
    (m.storeCap x.cfg (x.addr (DATA_OFFSET_ENCLAVE + DATA_OFFSET_ARGS)) ct2) t0
    (a := x.addr (DATA_OFFSET_ENCLAVE + DATA_OFFSET_ARGS + CAP_LEN))
    (Or.inr (by omega)) (Or.inl (by omega))
  have h := h.of_kept_argsEnd hk₂
  rw [Trapping.wp_bind]
  refine wp_lcCap_any (fun _ => ?_) h.good
  rw [Trapping.wp_bind]
  refine wp_orTrap (fun _ _ => ?_) h.good
  rw [Trapping.wp_bind]
  refine wp_lcCap_any (fun _ => ?_) h.good
  rw [Trapping.wp_bind]
  refine wp_lcCap_any (fun _ => ?_) h.good
  refine wp_enclaveInvoke hlo hhi h (fun _ => le_refl _) ?_
  -- the argument pushed is still there, or has lost its tag
  refine (show x.Harmless (x.slot m (n + 32)) from harg ▸ harm).of_kept (fun htag => ?_)
  exact (hk₁.trans hk₂) (n + 32) (Or.inr (by omega)) (by omega) htag

/-- **A word stored through a harmless capability keeps the stack.** -/
theorem Harmless.keptFrom {c : Capability} {a : Word} (h : x.Harmless c) (m : TaggedMemory)
    (data : Word) (hc : CapCheck.check c a .store LsuAccessWidth.W.byteWidth = none) :
    x.KeptFrom ARGS_END m (m.storeWord x.cfg a data) := by
  obtain ⟨htag, -, -, hin⟩ := (CapCheck.check_eq_none_iff (by decide)).1 hc
  obtain ⟨hcsp, hstack⟩ := h htag
  have htop := x.top_lt
  have hend : DATA_OFFSET_CSP + 16 ≤ ARGS_END := by decide
  have hw : LsuAccessWidth.W.byteWidth.toNat = 4 := rfl
  have ha := a.isLt
  rw [capBytes] at htop
  by_cases hwrap : c.EndWraps a LsuAccessWidth.W.byteWidth
  · -- the last word of the address space is past the data section
    obtain ⟨-, -, hpast, -⟩ := hwrap
    rw [hw] at hpast
    refine keptFrom_storeWord _ _ (Or.inr (by omega)) (Or.inr (Or.inl ?_))
    unfold len
    omega
  · have hin := hin.within_iff.2 hwrap
    rw [ByteRange.within_iff, hw] at hin
    rw [ByteRange.meets_iff] at hcsp hstack
    simp only [ByteRange.top, Capability.range_base, Capability.range_length, CAP_LEN]
      at hin hcsp hstack
    exact keptFrom_storeWord _ _ (by omega) (by omega)

theorem wp_storeResult {ct0 ct2 ca0 cra : Capability} (h : x.Good s) (harm : x.Harmless ca0) :
    wp (x.storeResult i ct0 ct2 ca0 cra) (fun _ => x.Good) x.Good s := by
  unfold storeResult
  rw [Trapping.wp_bind]
  refine wp_lwCap (fun t0 => ?_) h
  rw [Trapping.wp_bind]
  refine wp_swCap (fun hc => ?_) h
  obtain ⟨sp, h⟩ := h
  have harm' : x.Harmless (cIncOffset ca0 4) := harm
  have h := (h.of_kept_argsEnd (harm'.keptFrom s.mem (t0 + t0) hc)).good
  rw [Trapping.wp_bind]
  exact wp_orTrap (fun _ _ => wp_enclaveExit h) h

theorem wp_useSensorReturned {ct0 ct1 cra : Capability} {n : ℕ} (hlen : n + 16 ≤ x.len)
    (h : x.Good s) (harm : x.Harmless (x.slot s.mem n)) :
    wp (x.useSensorReturned i ct0 ct1 (x.stackCap n) cra) (fun _ => x.Good) x.Good s := by
  unfold useSensorReturned
  rw [Trapping.wp_bind]
  refine wp_lcCap_any (fun _ => ?_) h
  rw [Trapping.wp_bind]
  refine wp_orTrap (fun _ _ => ?_) h
  rw [Trapping.wp_bind]
  refine wp_lcCap_any (fun _ => ?_) h
  rw [Trapping.wp_bind]
  refine wp_orTrap (fun _ _ => ?_) h
  rw [Trapping.wp_bind]
  refine wp_lcCap (fun _ => ?_) h
  rw [address_stackCap, loadCap_addr hlen, Trapping.wp_bind]
  refine wp_lwCap (fun _ => ?_) h
  rw [Trapping.wp_bind]
  refine wp_lwCap (fun _ => ?_) h
  rw [Trapping.wp_ite]
  exact ⟨fun _ => wp_enclaveExit h, fun _ => wp_storeResult h harm⟩

/-- A capability that is jumped to is tagged. -/
theorem tag_of_jumpToCap {c target : Capability} {r : CapIdx} (h : jumpToCap c r = .ok target) :
    c.tag = true := by
  unfold jumpToCap at h
  split at h
  · cases h
  · split at h
    · cases h
    · rename_i hc
      exact (checkJumpTarget_eq_none_iff.1 hc).1

theorem InvAt.log_jumped (h : x.InvAt sp s) (hs : s.savedBy ≠ some .invoke)
    (hp : s.log.count (.jumped x.ret) < s.log.count (.stored x.ret)) :
    x.InvAt sp { s with log := s.log ++ [.jumped x.ret] } where
  sp_le := h.sp_le
  csp := h.csp
  atTop := h.atTop
  frame := h.frame
  intact := h.intact.jumped hp
  balance := by
    show (s.log ++ [ReturnEvent.jumped x.ret]).count _
      ≤ (s.log ++ [ReturnEvent.jumped x.ret]).count _
    rw [(count_jumped s.log x.ret).1, (count_jumped s.log x.ret).2]
    exact hp
  pending hs' := absurd hs' hs

/-- **The return entry**, where the stack pointer was saved by an invocation. -/
theorem wp_enclaveReturnEntry {ct0 ct1 : Capability} (h : x.InvAt sp s)
    (hs : s.savedBy = some .invoke) :
    wp (x.enclaveReturnEntry i ct0 ct1 (x.stackCap sp)) (fun _ => x.Good) x.Good s := by
  obtain ⟨hlo, hhi, hret, harm⟩ := h.frame hs
  have hpend := h.pending hs
  unfold enclaveReturnEntry
  simp only [show CAP_LEN = 16 from rfl, stackCap_add, Nat.add_assoc, Nat.reduceAdd]
  rw [Trapping.wp_bind]
  refine wp_lcCap (fun _ => ?_) h.good
  rw [address_stackCap, loadCap_addr (by omega), Trapping.wp_bind]
  refine wp_lcCap_any (fun cra => ?_) h.good
  rw [Trapping.wp_bind]
  refine wp_saveCsp (fun hc => ?_) h.good
  have hlen := le_len_of_check (by decide) (by decide) hc
  -- the argument of the invocation stays where it is
  have harm' : x.Harmless (x.slot (s.mem.storeCap x.cfg (x.addr DATA_OFFSET_CSP)
      (x.stackCap (sp + 32))) (sp + 32)) := by
    refine harm.of_kept (fun _ => ?_)
    refine (holds_addr hlen).loadCap_storeCap_of_apart (holds_addr (by omega)) (Or.inl ?_) _ _ _
    rw [toNat_addr (by omega), toNat_addr (by omega)]
    have : DATA_OFFSET_CSP + 16 ≤ ARGS_END := by decide
    omega
  have hle : sp + 32 ≤ x.len := by omega
  have h := h.save .return hlen hle (by simp) (by simp) (by simp)
  rw [Trapping.wp_bind]
  refine wp_orTrap (fun target htarget => ?_) h.good
  have hct2 := hret (tag_of_jumpToCap htarget)
  rw [Trapping.wp_bind, Trapping.wp_update, hct2]
  have h := h.log_jumped (by simp) hpend
  rw [if_pos (show x.ret = x.returnCap x.useSensorReturn from rfl)]
  exact wp_useSensorReturned (by omega) h.good harm'

theorem wp_tableEntry {ct0 : Capability} (h : x.InvAt sp s) (hwild : x.dispatch i.a7 ≠ .wild)
    (harm : x.Harmless i.ca0)
    (hroom : x.dispatch i.a7 = .useSensor → ARGS_END + 3 * CAP_LEN ≤ sp) :
    wp (x.tableEntry i ct0 (cSetOffset x.c31 (BitVec.ofNat 32 DATA_OFFSET_ENCLAVE))
      (x.stackCap sp)) (fun _ => x.Good) x.Good s := by
  unfold tableEntry
  rw [Trapping.wp_ite]
  refine ⟨fun _ => wp_enclaveExit h.good, fun _ => ?_⟩
  rw [Trapping.wp_bind]
  refine wp_lwCap (fun _ => ?_) h.good
  unfold enter
  cases hd : x.dispatch i.a7 with
  | exit => exact wp_enclaveExit h.good
  | setSensorEnclave => exact wp_setSensorEnclave h.good
  | useSensor =>
    have hroom := hroom hd
    rw [CAP_LEN] at hroom
    obtain ⟨n, rfl⟩ := Nat.exists_eq_add_of_le' (show 48 ≤ sp by omega)
    exact wp_useSensor (by omega) h harm
  | wild => exact absurd hd hwild

end

/-- **An entry that keeps to what the runtime can bear.** The adversary has not
put a tagged capability where the stack pointer is saved or on the stack; the
argument does not reach there either; the entry is one of the table; a return
comes only where the stack pointer was last saved by an invocation; and a call
of `use_sensor` finds room for its frame above the argument buffer. -/
structure Cautious (s : RuntimeState) (i : EntryInput w) : Prop where
  untouched : x.KeptFrom ARGS_END s.mem (i.interfere s.mem)
  argument : x.Harmless i.ca0
  inTable : i.a7 ≠ 0 → i.a7 ≠ -1 → x.dispatch i.a7 ≠ .wild
  pending : i.a7 = -1 → s.savedBy = some .invoke
  room : x.dispatch i.a7 = .useSensor →
    (x.slot (i.interfere s.mem) DATA_OFFSET_CSP).tag = true →
      ARGS_END + 3 * CAP_LEN
        ≤ ((x.slot (i.interfere s.mem) DATA_OFFSET_CSP).address - x.c31.base).toNat

/-- The enclave before its first entry: nothing saved, nothing recorded. -/
def Fresh (s : RuntimeState) : Prop :=
  (x.slot s.mem DATA_OFFSET_CSP).tag = false ∧ s.savedBy = none ∧ s.log = []

/-- **The saved stack pointer is where it should be**: at the top of the stack
where `enclave_init` saved it last, and at a return capability of ours, if at
any capability, where `enclave_invoke` did. -/
def CspPlaced (s : RuntimeState) : Prop :=
  DATA_OFFSET_CSP + 16 ≤ x.len → (x.slot s.mem DATA_OFFSET_CSP).tag = true →
    (s.savedBy = some .init → x.slot s.mem DATA_OFFSET_CSP = x.stackCap x.len)
      ∧ (s.savedBy = some .invoke → ∃ sp, x.slot s.mem DATA_OFFSET_CSP = x.stackCap sp
          ∧ ((x.slot s.mem sp).tag = true → x.slot s.mem sp = x.ret))

section

variable {x} {i : EntryInput w} {s : RuntimeState}

theorem InvAt.cspPlaced {sp : ℕ} (h : x.InvAt sp s) : x.CspPlaced s := by
  intro hlen htag
  have hcsp := h.csp hlen htag
  exact ⟨fun hs => (h.atTop hs) ▸ hcsp, fun hs => ⟨sp, hcsp, (h.frame hs).2.2.1⟩⟩

theorem Fresh.good (h : x.Fresh s) : x.Good s := by
  obtain ⟨hcsp, hsaved, hlog⟩ := h
  refine ⟨x.len, le_refl _, fun _ htag => ?_, fun _ => rfl, fun hs => ?_, ?_, ?_, fun hs => ?_⟩
  · rw [hcsp] at htag
    cases htag
  · rw [hsaved] at hs
    cases hs
  · rw [hlog]
    exact .nil
  · rw [hlog]
    exact le_refl _
  · rw [hsaved] at hs
    cases hs

theorem addr_sub_base {f : ℕ} (h : f ≤ x.len) : (x.addr f - x.c31.base).toNat = f := by
  have hlt : f < 2 ^ 32 := lt_of_le_of_lt h x.c31.length.isLt
  rw [addr, BitVec.add_comm, BitVec.add_sub_cancel, BitVec.toNat_ofNat, Nat.mod_eq_of_lt hlt]

/-- **A cautious entry keeps what holds between two entries.** -/
theorem Good.next (h : x.Good s) (hc : x.Cautious s i) : x.Good ((userEnclave x).next s i) := by
  rw [userEnclave_next]
  apply Trapping.wp_state
  obtain ⟨sp, h⟩ := h
  have h := h.of_kept_argsEnd hc.untouched
  unfold entry
  rw [Trapping.wp_bind]
  refine wp_lcCap_any (fun ct0 => ?_) h.good
  rw [Trapping.wp_ite]
  refine ⟨fun _ => wp_enclaveInit ct0 h.good, fun h0 => ?_⟩
  rw [Trapping.wp_bind]
  refine wp_lcCap (fun hck => ?_) h.good
  have hlen := le_len_of_check (by decide) (by decide) hck
  rw [show (cSetOffset x.c31 (BitVec.ofNat 32 DATA_OFFSET_CSP)).address
    = x.addr DATA_OFFSET_CSP from rfl, loadCap_addr hlen, Trapping.wp_ite]
  refine ⟨fun _ => wp_enclaveExit h.good, fun htag => ?_⟩
  rw [Bool.not_eq_true, Bool.not_eq_false'] at htag
  have hcsp := h.csp hlen htag
  rw [hcsp]
  simp only
  rw [Trapping.wp_ite]
  refine ⟨fun h1 => wp_enclaveReturnEntry h (hc.pending h1), fun h1 => ?_⟩
  refine wp_tableEntry h (hc.inTable h0 h1) hc.argument (fun hd => ?_)
  have hroom := hc.room hd htag
  rw [show x.slot (i.interfere s.mem) DATA_OFFSET_CSP = _ from hcsp, address_stackCap,
    addr_sub_base h.sp_le] at hroom
  exact hroom

end

end UserEnclave

open UserEnclave in
/-- **Every return of a cautious run is to a pending invocation**, and the
saved stack pointer is where it should be. -/
theorem userEnclave_returns_pending {w : ℕ} (x : UserEnclave) (s : RuntimeState)
    (is : List (EntryInput w)) (hs : x.Fresh s)
    (hc : (userEnclave x).Along (fun s i => x.Cautious s i) s is) :
    ControlFlowIntact ((userEnclave x).run s is).log
      ∧ x.CspPlaced ((userEnclave x).run s is) := by
  have h : x.Good ((userEnclave x).run s is) :=
    (userEnclave x).run_invariant (fun _ _ h hc => h.next hc) hs.good hc
  obtain ⟨sp, h⟩ := h
  exact ⟨h.intact, h.cspPlaced⟩

/-! ### A user enclave and a sensor -/

namespace UserEnclave

/-- A memory of four kilobytes. -/
def benchMemory : MemConfig := ⟨0x80000000, 256, by decide, MemConfig.aligned_ram, by decide⟩

/-- A capability to some bytes, with every permission. -/
def allOf (base length : Word) : Capability := ⟨true, base, length, 0, .allowAll, .unsealed⟩

/-- A user enclave with a data section of one kilobyte. -/
def bench : UserEnclave where
  cfg := benchMemory
  pcc := allOf 0x80000400 0x200
  c31 := allOf 0x80000000 0x400
  enclaveEntriesStart := 0x80
  sensorIdStart := 0x100
  useSensorReturn := 0x60
  offset_eq_zero := rfl
  memoryStart_le := by decide
  le_memoryEnd := by decide
  top_lt := by decide

/-- The user enclave. -/
def userId : EnclaveId 4 := ⟨true, 0⟩

/-- The sensor enclave. -/
def sensorId : EnclaveId 4 := ⟨true, 1⟩

/-- The memory before the first entry: the seals of the user enclave at the
start of its data section; outside, the entry capabilities and public seals of
the sensor, and the sealed answer the sensor will give. -/
def benchStart : RuntimeState where
  mem := [(0x80000000, userId.signEncSeal),
      (0x80000800, (allOf 0x80000c00 0x100).sealWith sensorId.identSeal),
      (0x80000810, { allOf 0x80000d00 0x100 with
        perms := { Permissions.allowAll with execute := false }
        otype := sensorId.identSeal }),
      (0x80000820, sensorId.signSeal), (0x80000830, sensorId.encSeal),
      (0x80000a00, (allOf 0x80000b00 0x100).sealWith userId.otype)].foldl
    (fun m c => m.storeCap benchMemory c.1 c.2) ⟨fun _ => false, fun _ => 0⟩
  savedBy := none
  log := []

/-- An entry by an adversary who leaves the memory alone. -/
def benchEntry (a7 : Word) (ca0 : Capability) : EntryInput 4 where
  interfere := id
  a7 := a7
  ca0 := ca0
  ca1 := .null
  cra := allOf 0x80000e00 0x100
  store := ⟨4, 2, [⟨true, true, sensorId, 0⟩]⟩
  device := fun _ => 0
  wild := benchStart

/-- `enclave_init`, `set_sensor_enclave` with the sensor, a call of `use_sensor`
with the buffer at `0x80000900`, and the return of the sensor. -/
def benchCall : List (EntryInput 4) :=
  [benchEntry 0 .null, benchEntry 1 (allOf 0x80000800 0x40), benchEntry 2 (allOf 0x80000900 8),
    benchEntry (-1) ((allOf 0x80000a00 16).sealWith (sensorId.otype + 1))]

/-- A second call and its return, and then one return more. -/
def benchReturnAgain : List (EntryInput 4) :=
  [benchEntry 2 (allOf 0x80000900 8),
    benchEntry (-1) ((allOf 0x80000a00 16).sealWith (sensorId.otype + 1)), benchEntry (-1) .null]

/-- An entry ran to its exit, to an invocation, or to a jump by the return
entry. -/
def ranThrough : Except EntryStop EntryOutcome → Bool
  | .ok .wild => false
  | .ok _ => true
  | .error _ => false

theorem bench_fresh : bench.Fresh benchStart := ⟨by decide +kernel, rfl, rfl⟩

/-- An entry of the bench is cautious where its argument, its place in the
table and the stack allow. -/
theorem bench_cautious {s : RuntimeState} {a7 : Word} {ca0 : Capability}
    (harm : bench.Harmless ca0) (htable : a7 ≠ 0 → a7 ≠ -1 → bench.dispatch a7 ≠ .wild)
    (hpend : a7 = -1 → s.savedBy = some .invoke)
    (hroom : bench.dispatch a7 = .useSensor → ARGS_END + 3 * CAP_LEN
      ≤ ((bench.slot s.mem DATA_OFFSET_CSP).address - bench.c31.base).toNat) :
    bench.Cautious s (benchEntry a7 ca0) where
  untouched := .refl _ _
  argument := harm
  inTable := htable
  pending := hpend
  room hd _ := hroom hd

end UserEnclave

open UserEnclave in
/-- A call of `use_sensor` and its return run through, and the return is to the
invocation. -/
theorem bench_call_returns_pending :
    ((userEnclave bench).observe benchStart benchCall).all ranThrough = true
      ∧ ((userEnclave bench).run benchStart benchCall).log
        = [.stored bench.ret, .jumped bench.ret]
      ∧ ControlFlowIntact ((userEnclave bench).run benchStart benchCall).log := by
  refine ⟨by decide +kernel, by decide +kernel, ?_⟩
  refine (userEnclave_returns_pending bench benchStart benchCall bench_fresh ?_).1
  refine ⟨bench_cautious ?_ ?_ ?_ ?_, bench_cautious ?_ ?_ ?_ ?_, bench_cautious ?_ ?_ ?_ ?_,
    bench_cautious ?_ ?_ ?_ ?_, trivial⟩
  all_goals first
    | decide +kernel
    | exact fun _ => by decide +kernel

open UserEnclave in
/-- **The return entry jumps to the adversary's capability.** After two calls
of `use_sensor` that returned, one return more pops the argument of the second
call and jumps to it; no invocation ever stored it. -/
theorem bench_return_again_not_intact :
    bench.Fresh benchStart
      ∧ ((userEnclave bench).observe benchStart (benchCall ++ benchReturnAgain)).all ranThrough
        = true
      ∧ (∀ i ∈ benchCall ++ benchReturnAgain, bench.Harmless i.ca0 ∧ i.interfere = id)
      ∧ ¬ ControlFlowIntact
        ((userEnclave bench).run benchStart (benchCall ++ benchReturnAgain)).log := by
  refine ⟨bench_fresh, by decide +kernel, ?_, fun h => ?_⟩
  · intro i hi
    simp only [benchCall, benchReturnAgain, List.cons_append, List.nil_append, List.mem_cons,
      List.not_mem_nil, or_false] at hi
    rcases hi with rfl | rfl | rfl | rfl | rfl | rfl | rfl
    all_goals exact ⟨fun _ => by decide +kernel, rfl⟩
  · have hlog : ((userEnclave bench).run benchStart (benchCall ++ benchReturnAgain)).log
        = [.stored bench.ret, .jumped bench.ret, .stored bench.ret, .jumped bench.ret]
          ++ .jumped (allOf 0x80000900 8) :: [] := by decide +kernel
    have := h _ _ _ hlog
    exact absurd this (by decide +kernel)

end Proteus
