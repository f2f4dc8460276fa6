import CheriTree.Sail.IdentityTable

/-!
# What a trap changes, and what an access that fails

An exception writes the trap registers and nothing else (`Trapped`). An access
that fails does so by one exception, and has changed nothing before it. The
page table walk is taken as it is with the update of the page table entries
switched off, which is how the platform starts: it only reads.
-/

namespace Sail

open Prog

variable {f : CapFormat}

/-- **An exception was handled**: the second state is the first one after it. -/
def State.Trapped (s s' : State f) : Prop := ∃ e info, handleException e info s = .ok ((), s')

/-- **A state that differs in registers, identities and memory only**: no trap
was taken between the two. -/
def State.SameControl (s t : State f) : Prop :=
  t = { s with
    x := t.x
    eidCounter := t.eidCounter
    etable := t.etable
    mem := t.mem
    tags := t.tags
    dev := t.dev }

theorem State.SameControl.refl (s : State f) : s.SameControl s := rfl

theorem State.SameControl.wC (s : State f) (r : RegIdx) (v : Capability f) :
    s.SameControl (s.wC r v) := by
  unfold SameControl State.wC
  split
  · rfl
  · rfl

theorem State.SameControl.trans {s t u : State f} (h : s.SameControl t) (h' : t.SameControl u) :
    s.SameControl u := by
  unfold SameControl at *
  rw [h', h]

theorem State.SameControl.traps {s t : State f} (h : s.SameControl t) : t.traps = s.traps :=
  (congrArg State.traps h :)

/-- **The page table walk only reads**: it updates no entry, and it does not
look at the table of identities. -/
structure Platform.WalkReads (p : Platform f) : Prop where
  silent : ∀ mode vAddr ac priv, Silent (p.walk mode vAddr ac priv)
  table : ∀ mode vAddr ac priv (s : State f) (t : ETable f) r,
    p.walk mode vAddr ac priv s = .ok (r, s) →
      p.walk mode vAddr ac priv { s with etable := t } = .ok (r, { s with etable := t })

section Trapped

variable {s s' : State f}

theorem State.Trapped.untrapped (h : s.Trapped s') : s'.untrapped = s.untrapped := by
  obtain ⟨e, info, h⟩ := h
  exact (keeps_handleException e info).eq h

theorem State.Trapped.traps (h : s.Trapped s') : s'.traps = s.traps + 1 := by
  obtain ⟨e, info, h⟩ := h
  obtain ⟨a, t, hget, h⟩ := Prog.bind_eq_ok.1 h
  obtain ⟨rfl, rfl⟩ := get_eq_ok.1 hget
  obtain ⟨pc, t, htrap, h⟩ := Prog.bind_eq_ok.1 h
  have hkeep : t.traps = s.traps :=
    Keeps.eq (g := State.traps) (keeps_trapHandler (fun _ _ _ _ => rfl) (fun _ _ _ => rfl) _ _ _ _)
      htrap
  rw [← modify_eq_ok.1 h, ← hkeep]

/-- A failure by an exception is one. -/
theorem failsBy_exception {α : Type} {bad : α → Prop} {a : α} (e : ExceptionType)
    (info : BitVec f.xlen) (h : bad a) :
    FailsBy State.Trapped bad (do handleException e info; pure a : M f α) :=
  failsBy_bind_pure (fun _ _ _ hx => ⟨e, info, hx⟩) h

theorem trapped_of_failWith {e : CapEx} {reg : RegIdx} {r : Retired}
    (h : failWith e reg s = .ok (r, s')) : r = .RETIRE_FAIL ∧ s.Trapped s' := by
  obtain ⟨u, t, htrap, h⟩ := Prog.bind_eq_ok.1 h
  obtain ⟨rfl, rfl⟩ := pure_eq_ok.1 h
  exact ⟨rfl, _, _, htrap⟩

end Trapped

/-! ## Accesses -/

section Access

variable {p : Platform f} (hwalk : p.WalkReads)

include hwalk

theorem silent_translateAddr (vAddr : BitVec f.xlen) (ac : AccessType) :
    Silent (translateAddr p vAddr ac) := by
  unfold translateAddr
  refine silent_get.bind (fun s => (silent_lift _).bind (fun priv => (silent_lift _).bind ?_))
  exact fun mode => Silent.ite (silent_pure _) (hwalk.silent _ _ _ _)

omit hwalk in
/-- The translation looks at the privilege, at the mode and at what the walk
reads: a change `g` of the state that keeps these keeps it. -/
theorem translateAddr_update {vAddr : BitVec f.xlen} {ac : AccessType} {s : State f}
    {r : TRResult f.xlen} {g : State f → State f}
    (hpriv : effectivePrivilege (g s) ac = effectivePrivilege s ac)
    (hmode : ∀ priv, translationMode (g s) priv = translationMode s priv)
    (hg : ∀ mode priv, p.walk mode vAddr ac priv s = .ok (r, s) →
      p.walk mode vAddr ac priv (g s) = .ok (r, g s))
    (h : translateAddr p vAddr ac s = .ok (r, s)) :
    translateAddr p vAddr ac (g s) = .ok (r, g s) := by
  obtain ⟨u, v, hget, h⟩ := Prog.bind_eq_ok.1 h
  obtain ⟨rfl, rfl⟩ := get_eq_ok.1 hget
  obtain ⟨priv, v, hp, h⟩ := Prog.bind_eq_ok.1 h
  obtain ⟨hp', rfl⟩ := lift_eq_ok.1 hp
  obtain ⟨mode, v, hm, h⟩ := Prog.bind_eq_ok.1 h
  obtain ⟨hm', rfl⟩ := lift_eq_ok.1 hm
  refine Prog.bind_eq_ok.2 ⟨_, _, get_eq_ok.2 ⟨rfl, rfl⟩, ?_⟩
  refine Prog.bind_eq_ok.2 ⟨priv, _, lift_eq_ok.2 ⟨hpriv.trans hp', rfl⟩, ?_⟩
  refine Prog.bind_eq_ok.2 ⟨mode, _, lift_eq_ok.2 ⟨(hmode priv).trans hm', rfl⟩, ?_⟩
  obtain ⟨hbare, h⟩ | ⟨hbare, h⟩ := ite_eq_ok.1 h
  · refine ite_eq_ok.2 (Or.inl ⟨hbare, ?_⟩)
    exact pure_eq_ok.2 ⟨(pure_eq_ok.1 h).1, rfl⟩
  · exact ite_eq_ok.2 (Or.inr ⟨hbare, hg _ _ h⟩)

/-- The translation does not look at the table of identities. -/
theorem translateAddr_table {vAddr : BitVec f.xlen} {ac : AccessType} {s : State f}
    {r : TRResult f.xlen} (t : ETable f) (h : translateAddr p vAddr ac s = .ok (r, s)) :
    translateAddr p vAddr ac { s with etable := t } = .ok (r, { s with etable := t }) :=
  translateAddr_update (g := fun s => { s with etable := t }) rfl (fun _ => rfl)
    (fun _ _ hw => hwalk.table _ _ _ _ _ _ _ hw) h

/-- **A capability load that writes no register** fails by one exception, or
changes nothing. -/
theorem failsBy_loadCapNoreg (auth : Capability f) (vaddr : BitVec f.xlen) :
    FailsBy State.Trapped (· = none) (loadCapNoreg p auth vaddr) := by
  unfold loadCapNoreg
  refine (silent_translateAddr hwalk _ _).failsBy_bind (fun tr => ?_)
  split
  · exact failsBy_throw _
  · exact failsBy_exception _ _ rfl
  · refine Silent.failsBy_bind ?_ (fun r => ?_)
    · exact (silent_memReadMeta _ _ _ _).bind (fun _ => silent_pure _)
    · split
      · exact failsBy_pure (by simp)
      · exact failsBy_exception _ _ rfl

/-- **A word load that writes no register** fails by one exception, or changes
nothing. -/
theorem failsBy_loadWordNoreg (authIdx : BitVec 6) (auth : Capability f) (vaddr : BitVec f.xlen) :
    FailsBy State.Trapped (· = none) (loadWordNoreg p authIdx auth vaddr) := by
  unfold loadWordNoreg
  refine .ite (failsBy_exception _ _ rfl) (.ite (failsBy_exception _ _ rfl)
    (.ite (failsBy_exception _ _ rfl) (.ite (failsBy_exception _ _ rfl)
    (.ite (failsBy_exception _ _ rfl) ?_))))
  refine (silent_translateAddr hwalk _ _).failsBy_bind (fun tr => ?_)
  split
  · exact failsBy_throw _
  · exact failsBy_exception _ _ rfl
  · refine (silent_memReadMeta _ _ _ _).failsBy_bind (fun r => ?_)
    split
    · exact failsBy_pure (by simp)
    · exact failsBy_exception _ _ rfl

end Access

/-- The small platform has no page tables. -/
theorem smallPlatform_walkReads : smallPlatform.WalkReads where
  silent := fun _ _ _ _ => silent_throw _
  table := fun _ _ _ _ _ _ _ h => absurd h throw_ne_ok

end Sail
