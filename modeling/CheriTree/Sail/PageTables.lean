import CheriTree.Sail.KeyStore
import CheriTree.Sail.SweepRange

/-!
# The page tables of a 32-bit machine

The walk that the platform leaves open, for `Sv32`: two levels of tables in
physical memory, from the one in `satp` on. It is given with an empty TLB and
with the update of the accessed and dirty bits switched off, so it only reads;
`MXR` and `SUM` of `mstatus`, which nothing else of the model looks at, are
clear.

The pages of `Sv32` have no room for the bits that switch capability loads and
stores off, so both are allowed.
-/

namespace Sail

open Prog

/-- The ways a walk fails (`PTW_Error`), of which an extension has none for a
load. -/
inductive PtwError where
  | PTW_Invalid_Addr
  | PTW_Access
  | PTW_Invalid_PTE
  | PTW_No_Permission
  | PTW_Misaligned
  | PTW_PTE_Update
deriving DecidableEq, Repr

/-- `translationException`. -/
def translationException (ac : AccessType) (e : PtwError) : ExceptionType :=
  match ac with
  | .ReadWrite _ _ => if e = .PTW_Access then .E_SAMO_Access_Fault else .E_SAMO_Page_Fault
  | .Read _ => if e = .PTW_Access then .E_Load_Access_Fault else .E_Load_Page_Fault
  | .Write _ => if e = .PTW_Access then .E_SAMO_Access_Fault else .E_SAMO_Page_Fault
  | .Execute => if e = .PTW_Access then .E_Fetch_Access_Fault else .E_Fetch_Page_Fault

/-- **A page table entry** (`SV32_PTE`). -/
abbrev Sv32Pte := BitVec 32

namespace Sv32Pte

def ppn (pte : Sv32Pte) : BitVec 22 := pte.extractLsb' 10 22

def d (pte : Sv32Pte) : Bool := pte.getLsbD 7

def a (pte : Sv32Pte) : Bool := pte.getLsbD 6

def u (pte : Sv32Pte) : Bool := pte.getLsbD 4

def x (pte : Sv32Pte) : Bool := pte.getLsbD 3

def w (pte : Sv32Pte) : Bool := pte.getLsbD 2

def r (pte : Sv32Pte) : Bool := pte.getLsbD 1

def v (pte : Sv32Pte) : Bool := pte.getLsbD 0

/-- `isPTEPtr`. -/
def isPtr (pte : Sv32Pte) : Bool := !pte.r && !pte.w && !pte.x

/-- `isInvalidPTE`. -/
def isInvalid (pte : Sv32Pte) : Bool := !pte.v || (pte.w && !pte.r)

/-- `checkPTEPermission`: the machine's own accesses are not translated. -/
def checkPermission (pte : Sv32Pte) (ac : AccessType) (priv : Privilege) (mxr doSum : Bool) :
    Except SailError Bool :=
  match priv with
  | .User => .ok (match ac with
    | .Read _ => pte.u && (pte.r || (pte.x && mxr))
    | .Write _ => pte.u && pte.w
    | .ReadWrite _ _ => pte.u && pte.w && (pte.r || (pte.x && mxr))
    | .Execute => pte.u && pte.x)
  | .Supervisor => .ok (match ac with
    | .Read _ => (!pte.u || doSum) && (pte.r || (pte.x && mxr))
    | .Write _ => (!pte.u || doSum) && pte.w
    | .ReadWrite _ _ => (!pte.u || doSum) && pte.w && (pte.r || (pte.x && mxr))
    | .Execute => !pte.u && pte.x)
  | .Machine => .error .internalError

/-- The accessed or the dirty bit would have to be set (`update_PTE_Bits`). -/
def needsUpdate (pte : Sv32Pte) (ac : AccessType) : Bool :=
  !pte.a || (!pte.d && match ac with
    | .Write _ | .ReadWrite _ _ => true
    | .Read _ | .Execute => false)

end Sv32Pte

/-- **The walk** (`walk32`) from the table at `ptb` on, `level` levels above the
last: the physical address and the entry that maps it. -/
def walk32 (p : Platform .cheri64) (vAddr : BitVec 32) (ac : AccessType) (priv : Privilege)
    (mxr doSum : Bool) (ptb : BitVec 34) (level : ℕ) :
    M .cheri64 (Except PtwError (BitVec 34 × Sv32Pte)) := do
  let vpn : BitVec 20 := vAddr.extractLsb' 12 20
  let ptOfs : BitVec 34 := ((vpn >>> (level * 10)).setWidth 10).setWidth 34 <<< 2
  match ← memReadMeta p ac ((ptb + ptOfs).setWidth 32) 4 false with
  | .error _ => pure (.error .PTW_Access)
  | .ok (pte, _) =>
    if Sv32Pte.isInvalid pte then pure (.error .PTW_Invalid_PTE)
    else if Sv32Pte.isPtr pte then
      match level with
      -- an entry of the last level that points on
      | 0 => pure (.error .PTW_Invalid_PTE)
      | level + 1 =>
        walk32 p vAddr ac priv mxr doSum ((Sv32Pte.ppn pte).setWidth 34 <<< 12) level
    else do
      if !(← Prog.lift (Sv32Pte.checkPermission pte ac priv mxr doSum)) then
        pure (.error .PTW_No_Permission)
      else
        -- a larger page has the rest of its number from the address
        let mask : BitVec 22 := (1#22 <<< (level * 10)) - 1
        if Sv32Pte.ppn pte &&& mask ≠ 0 then pure (.error .PTW_Misaligned)
        else
          let ppn := Sv32Pte.ppn pte ||| (vpn.setWidth 22 &&& mask)
          pure (.ok (ppn ++ vAddr.extractLsb' 0 12, pte))
termination_by structural level

/-- `translate32`, from the table in `satp` on. -/
def translate32 (p : Platform .cheri64) (vAddr : BitVec 32) (ac : AccessType) (priv : Privilege) :
    M .cheri64 (TRResult 32) := do
  let s ← get
  let ptb : BitVec 34 := (s.satp.extractLsb' 0 22).setWidth 34 <<< 12
  match ← walk32 p vAddr ac priv false false ptb 1 with
  | .error e => pure (.TR_Failure (translationException ac e) initExtPtw)
  | .ok (pAddr, pte) =>
    if Sv32Pte.needsUpdate pte ac then
      pure (.TR_Failure (translationException ac .PTW_PTE_Update) initExtPtw)
    else pure (.TR_Address (pAddr.setWidth 32) initExtPtw)

/-- **A platform with page tables**: the walk reads them through the memory map
of the platform. -/
def Platform.withSv32 (p : Platform .cheri64) : Platform .cheri64 :=
  { p with walk := fun mode vAddr ac priv =>
      match mode with
      | .Sv32 => translate32 p vAddr ac priv
      | _ => throw .internalError }

variable {p : Platform .cheri64}

/-! ## The walk only reads, and ends -/

theorem silent_walk32 (vAddr : BitVec 32) (ac : AccessType) (priv : Privilege) (mxr doSum : Bool)
    (ptb : BitVec 34) (level : ℕ) : Silent (walk32 p vAddr ac priv mxr doSum ptb level) := by
  induction level generalizing ptb with
  | zero =>
    rw [walk32]
    refine (silent_memReadMeta _ _ _ _).bind (fun result => ?_)
    cases result with
    | error e => exact silent_pure _
    | ok v =>
      refine Silent.ite (silent_pure _) (Silent.ite (silent_pure _) ?_)
      exact (silent_lift _).bind (fun ok => Silent.ite (silent_pure _)
        (Silent.ite (silent_pure _) (silent_pure _)))
  | succ level ih =>
    rw [walk32]
    refine (silent_memReadMeta _ _ _ _).bind (fun result => ?_)
    cases result with
    | error e => exact silent_pure _
    | ok v =>
      refine Silent.ite (silent_pure _) (Silent.ite (ih _) ?_)
      exact (silent_lift _).bind (fun ok => Silent.ite (silent_pure _)
        (Silent.ite (silent_pure _) (silent_pure _)))

theorem silent_translate32 (vAddr : BitVec 32) (ac : AccessType) (priv : Privilege) :
    Silent (translate32 p vAddr ac priv) := by
  refine silent_get.bind (fun s => (silent_walk32 _ _ _ _ _ _ _).bind (fun result => ?_))
  cases result with
  | error e => exact silent_pure _
  | ok v => exact Silent.ite (silent_pure _) (silent_pure _)

/-- A read does not look at the table of identities. -/
theorem ignores_memReadMeta {f : CapFormat} {p : Platform f} (t : ETable f) (ac : AccessType)
    (addr : BitVec f.xlen) (n : ℕ) (readMeta : Bool) :
    Ignores (fun s => { s with etable := t }) (memReadMeta p ac addr n readMeta) := by
  refine (silent_pmpGuard _ _ _).ignores_bind (fun s guard h => pmpGuard_table t h)
    (fun check => ?_)
  cases check with
  | some e => exact ignores_pure _
  | none =>
    intro s r h
    obtain ⟨u, v, hget, h⟩ := Prog.bind_eq_ok.1 h
    obtain ⟨rfl, rfl⟩ := get_eq_ok.1 hget
    refine Prog.bind_eq_ok.2 ⟨_, _, get_eq_ok.2 ⟨rfl, rfl⟩, pure_eq_ok.2 ⟨?_, rfl⟩⟩
    exact (pure_eq_ok.1 h).1

theorem ignores_walk32 (t : ETable .cheri64) (vAddr : BitVec 32) (ac : AccessType)
    (priv : Privilege) (mxr doSum : Bool) (ptb : BitVec 34) (level : ℕ) :
    Ignores (fun s => { s with etable := t }) (walk32 p vAddr ac priv mxr doSum ptb level) := by
  induction level generalizing ptb with
  | zero =>
    rw [walk32]
    refine (silent_memReadMeta _ _ _ _).ignores_bind (ignores_memReadMeta _ _ _ _ _)
      (fun result => ?_)
    cases result with
    | error e => exact ignores_pure _
    | ok v =>
      refine Ignores.ite (ignores_pure _) (Ignores.ite (ignores_pure _) ?_)
      exact (silent_lift _).ignores_bind (ignores_lift _) (fun ok => Ignores.ite (ignores_pure _)
        (Ignores.ite (ignores_pure _) (ignores_pure _)))
  | succ level ih =>
    rw [walk32]
    refine (silent_memReadMeta _ _ _ _).ignores_bind (ignores_memReadMeta _ _ _ _ _)
      (fun result => ?_)
    cases result with
    | error e => exact ignores_pure _
    | ok v =>
      refine Ignores.ite (ignores_pure _) (Ignores.ite (ih _) ?_)
      exact (silent_lift _).ignores_bind (ignores_lift _) (fun ok => Ignores.ite (ignores_pure _)
        (Ignores.ite (ignores_pure _) (ignores_pure _)))

theorem avoids_walk32 (vAddr : BitVec 32) (ac : AccessType) (priv : Privilege) (mxr doSum : Bool)
    (ptb : BitVec 34) (level : ℕ) :
    Avoids .outOfFuel (walk32 p vAddr ac priv mxr doSum ptb level) := by
  have hperm : ∀ pte : Sv32Pte, pte.checkPermission ac priv mxr doSum ≠ .error .outOfFuel := by
    intro pte
    cases priv <;> simp [Sv32Pte.checkPermission]
  induction level generalizing ptb with
  | zero =>
    rw [walk32]
    refine (avoids_memReadMeta _ _ _ _).bind (fun result => ?_)
    cases result with
    | error e => exact avoids_pure _
    | ok v =>
      refine Avoids.ite (avoids_pure _) (Avoids.ite (avoids_pure _) ?_)
      exact (avoids_lift (hperm _)).bind (fun ok => Avoids.ite (avoids_pure _)
        (Avoids.ite (avoids_pure _) (avoids_pure _)))
  | succ level ih =>
    rw [walk32]
    refine (avoids_memReadMeta _ _ _ _).bind (fun result => ?_)
    cases result with
    | error e => exact avoids_pure _
    | ok v =>
      refine Avoids.ite (avoids_pure _) (Avoids.ite (ih _) ?_)
      exact (avoids_lift (hperm _)).bind (fun ok => Avoids.ite (avoids_pure _)
        (Avoids.ite (avoids_pure _) (avoids_pure _)))

/-- **The walk of `Sv32` only reads**, and does not look at the table of
identities. -/
theorem withSv32_walkReads (p : Platform .cheri64) : p.withSv32.WalkReads where
  silent mode vAddr ac priv := by
    cases mode with
    | Sv32 => exact silent_translate32 _ _ _
    | Sbare => exact silent_throw _
    | Sv39 => exact silent_throw _
    | Sv48 => exact silent_throw _
  table mode vAddr ac priv s t r h := by
    cases mode with
    | Sv32 =>
      obtain ⟨u, v, hget, h⟩ := Prog.bind_eq_ok.1 h
      obtain ⟨rfl, rfl⟩ := get_eq_ok.1 hget
      refine Prog.bind_eq_ok.2 ⟨_, _, get_eq_ok.2 ⟨rfl, rfl⟩, ?_⟩
      refine (silent_walk32 _ _ _ _ _ _ _).ignores_bind (ignores_walk32 t _ _ _ _ _ _ _)
        (fun result => ?_) s r h
      cases result with
      | error e => exact ignores_pure _
      | ok v => exact Ignores.ite (ignores_pure _) (ignores_pure _)
    | Sbare => exact absurd h throw_ne_ok
    | Sv39 => exact absurd h throw_ne_ok
    | Sv48 => exact absurd h throw_ne_ok

/-- **The walk of `Sv32` ends.** -/
theorem withSv32_walkEnds (p : Platform .cheri64) : p.withSv32.WalkEnds := by
  intro mode vAddr ac priv
  cases mode with
  | Sv32 =>
    refine avoids_get.bind (fun s => (avoids_walk32 _ _ _ _ _ _ _).bind (fun result => ?_))
    cases result with
    | error e => exact avoids_pure _
    | ok v => exact Avoids.ite (avoids_pure _) (avoids_pure _)
  | Sbare => exact avoids_throw (by simp)
  | Sv39 => exact avoids_throw (by simp)
  | Sv48 => exact avoids_throw (by simp)

end Sail
