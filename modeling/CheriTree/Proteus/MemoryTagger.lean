import Mathlib.Data.Nat.Log
import CheriTree.SyncMachine
import CheriTree.Proteus.CapCheck
import CheriTree.Proteus.MemBus

/-!
# The memory tagger

The tagger stands between the load/store unit and the memory bus. It passes
data commands through, and turns a capability command into four word commands
on consecutive addresses. It keeps one tag per granule of memory: a data write
clears the tag of its granule, a capability store sets the tag of the granule
of its *first* byte when its last word is taken, and a capability load reads
that tag when its last word comes.

Nothing compares the address of a capability command with the granules, or,
for a load, with the memory. `Regular` says that a command does what a granule
is for; along runs of regular commands the tagger is a tagged memory: a tag
read as set vouches for the four words read with it.
-/

namespace Proteus

/-! ## The machine -/

/-- The states of the tagger. -/
inductive TaggerState where
  | PASS_THROUGH
  | CAP_OP
deriving DecidableEq, Repr

/-- A command to the tagger: on the data bus, or on the capability bus. -/
inductive MemReq where
  | write (address wdata : Word) (wmask : BitVec 4)
  | read (address : Word)
  | storeCap (address : Word) (cap : Capability)
  | loadCap (address : Word)
deriving DecidableEq, Repr

/-- A command done, with what it gave. -/
inductive MemEvent where
  | wrote (address wdata : Word) (wmask : BitVec 4)
  | didRead (address rdata : Word)
  | stored (address : Word) (cap : Capability)
  | loaded (address : Word) (cap : Capability)
deriving DecidableEq, Repr

/-- **The tagger**, with the bus behind it. -/
structure MemoryTagger where
  fsm : TaggerState
  cbusWordCtr : ℕ
  cbusReadWords : ℕ → Word
  tags : ℕ → Bool
  bus : MemBus

namespace MemoryTagger

variable (cfg : MemConfig)

/-- The index of the tag of an address: the granule it is in, cut to the
width of an index. -/
def tagIndex (address : Word) : ℕ :=
  (address - BitVec.ofNat 32 cfg.memoryStart).toNat / capBytes % 2 ^ Nat.clog 2 cfg.numTags

/-- The address of the word a capability command is at. -/
def cbusWordAddress (t : MemoryTagger) (address : Word) : Word :=
  address + BitVec.ofNat 32 (4 * t.cbusWordCtr)

/-- **The call the tagger makes on the bus.** The second state is about
capability commands only. -/
def call (t : MemoryTagger) : Option MemReq → BusCall
  | none => .idle
  | some (.write address wdata wmask) =>
    match t.fsm with
    | .PASS_THROUGH => .write address wdata wmask
    | .CAP_OP => .idle
  | some (.read address) =>
    match t.fsm with
    | .PASS_THROUGH => .read address
    | .CAP_OP => .idle
  | some (.storeCap address cap) =>
    .write (t.cbusWordAddress address) (cap.memWord t.cbusWordCtr) 0b1111#4
  | some (.loadCap address) => .read (t.cbusWordAddress address)

/-- A tag written, where the address is in memory. -/
def setTag (t : MemoryTagger) (address : Word) (tag : Bool) : ℕ → Bool :=
  if cfg.InMemory address then Function.update t.tags (tagIndex cfg address) tag else t.tags

/-- **What the tagger does when its call is done**, given the word read. -/
def advance (t : MemoryTagger) (req : MemReq) (rdata : Word) :
    MemoryTagger × Option MemEvent :=
  match req with
  | .write address wdata wmask =>
    ({ t with tags := t.setTag cfg address false }, some (.wrote address wdata wmask))
  | .read address => (t, some (.didRead address rdata))
  | .storeCap address cap =>
    match t.fsm with
    | .PASS_THROUGH => ({ t with cbusWordCtr := t.cbusWordCtr + 1, fsm := .CAP_OP }, none)
    | .CAP_OP =>
      if t.cbusWordCtr = 3 then
        ({ t with
          tags := t.setTag cfg address cap.tag
          cbusWordCtr := 0
          fsm := .PASS_THROUGH }, some (.stored address cap))
      else
        ({ t with cbusWordCtr := t.cbusWordCtr + 1 }, none)
  | .loadCap address =>
    let words := Function.update t.cbusReadWords t.cbusWordCtr rdata
    match t.fsm with
    | .PASS_THROUGH =>
      ({ t with cbusReadWords := words, cbusWordCtr := t.cbusWordCtr + 1, fsm := .CAP_OP }, none)
    | .CAP_OP =>
      if t.cbusWordCtr = 3 then
        ({ t with cbusWordCtr := 0, fsm := .PASS_THROUGH },
          some (.loaded address (.ofMemWords (t.tags (tagIndex cfg address)) words)))
      else
        ({ t with cbusReadWords := words, cbusWordCtr := t.cbusWordCtr + 1 }, none)

/-- **One cycle of the tagger.** -/
def step (t : MemoryTagger) (req : Option MemReq) (i : BusInput) :
    MemoryTagger × Option MemEvent :=
  let t' := { t with bus := t.bus.step cfg (t.call req) i }
  match req with
  | some r =>
    if t.bus.done (t.call req) i then t'.advance cfg r (t.bus.rdata cfg (t.call req) i)
    else (t', none)
  | none => (t', none)

end MemoryTagger

/-- The tagger with the command its client has shown and not seen done. -/
structure TaggerSystem where
  tagger : MemoryTagger
  held : Option MemReq

/-- What a cycle brings: the command the client shows, and the bus. -/
structure TaggerInput where
  req : Option MemReq
  bus : BusInput
deriving DecidableEq, Repr

/-- **The tagger as a machine**; a cycle shows the command done in it. -/
def memoryTagger (cfg : MemConfig) : SyncMachine TaggerSystem TaggerInput (Option MemEvent) where
  step s i :=
    match s.tagger.step cfg i.req i.bus with
    | (t, some e) => (⟨t, none⟩, some e)
    | (t, none) => (⟨t, i.req⟩, none)

/-- The tagger of reset, in front of any memory content. -/
def TaggerSystem.init (ram : ℕ → Word) : TaggerSystem :=
  ⟨⟨.PASS_THROUGH, 0, fun _ => 0, fun _ => false, ⟨.reset, none, ram⟩⟩, none⟩

/-! ## What a tagged memory owes -/

/-- **The client shows a command until it is done.** -/
def TaggerSystem.Held (s : TaggerSystem) (i : TaggerInput) : Prop :=
  ∀ r ∈ s.held, i.req = some r

instance (s : TaggerSystem) (i : TaggerInput) : Decidable (s.Held i) :=
  inferInstanceAs (Decidable (∀ r ∈ s.held, i.req = some r))

/-- **A command that does what a granule is for**: a capability is stored and
loaded at the address of a granule, and loaded from memory. -/
def MemReq.Regular (cfg : MemConfig) : MemReq → Prop
  | .storeCap address _ => address.toNat % capBytes = 0
  | .loadCap address => address.toNat % capBytes = 0 ∧ cfg.InMemory address
  | _ => True

instance (cfg : MemConfig) (r : MemReq) : Decidable (r.Regular cfg) :=
  match r with
  | .storeCap _ _ => inferInstanceAs (Decidable (_ = _))
  | .loadCap _ => inferInstanceAs (Decidable (_ ∧ _))
  | .write _ _ _ => inferInstanceAs (Decidable True)
  | .read _ => inferInstanceAs (Decidable True)

/-- A command done touches one of the bytes of a capability at an address. A
data write counts with all the bytes of its word. -/
def MemEvent.Overlaps (e : MemEvent) (address : Word) : Prop :=
  match e with
  | .wrote a _ _ => (ByteRange.mk (a.toNat / 4 * 4) 4).Meets ⟨address.toNat, capBytes⟩
  | .stored a _ => (ByteRange.mk a.toNat capBytes).Meets ⟨address.toNat, capBytes⟩
  | _ => False

/-- A capability was stored at an address, and nothing touched it since. -/
def StoredSince (log : List MemEvent) (address : Word) (cap : Capability) : Prop :=
  ∃ before since, log = before ++ .stored address cap :: since
    ∧ ∀ e ∈ since, ¬ e.Overlaps address

/-- **Unforgeability**: every capability loaded with a set tag was stored with
a set tag at the same address, and nothing touched it in between. -/
def Unforgeable (log : List MemEvent) : Prop :=
  ∀ before address cap after, log = before ++ .loaded address cap :: after →
    cap.tag = true → StoredSince before address cap

/-! ## Granules -/

namespace MemConfig

variable (cfg : MemConfig)

/-- The granule an address in memory is in. -/
def granule (address : Word) : ℕ := (address.toNat - cfg.memoryStart) / capBytes

/-- The index of the first word of a granule. -/
def granuleWord (g : ℕ) : ℕ := (cfg.memoryStart + g * capBytes) / 4

variable {cfg}

/-- In memory the tag of an address is the one of its granule. -/
theorem tagIndex_eq_granule {address : Word} (h : cfg.InMemory address) :
    MemoryTagger.tagIndex cfg address = cfg.granule address := by
  have hfits := cfg.fits
  have hlt := address.isLt
  obtain ⟨hlo, hhi⟩ := h
  have hsub : (address - BitVec.ofNat 32 cfg.memoryStart).toNat
      = address.toNat - cfg.memoryStart := by
    rw [BitVec.toNat_sub_of_le]
    · rw [BitVec.toNat_ofNat, Nat.mod_eq_of_lt (by omega)]
    · rw [BitVec.le_def, BitVec.toNat_ofNat, Nat.mod_eq_of_lt (by omega)]
      exact hlo
  rw [MemoryTagger.tagIndex, hsub, granule]
  refine Nat.mod_eq_of_lt (lt_of_lt_of_le ?_ (Nat.le_pow_clog (by omega) cfg.numTags))
  rw [Nat.div_lt_iff_lt_mul (by decide)]
  omega

theorem granule_lt {address : Word} (h : cfg.InMemory address) :
    cfg.granule address < cfg.numTags := by
  obtain ⟨hlo, hhi⟩ := h
  rw [granule, Nat.div_lt_iff_lt_mul (by decide)]
  omega

/-- The four words of a capability at the address of a granule. -/
theorem toNat_cbusWordAddress {address : Word} (h : address.toNat % capBytes = 0) {k : ℕ}
    (hk : k < 4) : (address + BitVec.ofNat 32 (4 * k)).toNat = address.toNat + 4 * k := by
  have hlt := address.isLt
  rw [capBytes] at h
  rw [BitVec.toNat_add, BitVec.toNat_ofNat, Nat.mod_eq_of_lt (a := 4 * k) (by omega),
    Nat.mod_eq_of_lt (by omega)]

theorem inMemory_word_iff {address : Word} (h : address.toNat % capBytes = 0) {k : ℕ}
    (hk : k < 4) :
    cfg.InMemory (address + BitVec.ofNat 32 (4 * k)) ↔ cfg.InMemory address := by
  have ha := cfg.aligned
  rw [InMemory, InMemory, toNat_cbusWordAddress h hk]
  rw [capBytes] at *
  omega

theorem granuleWord_granule {address : Word} (h : address.toNat % capBytes = 0)
    (hm : cfg.InMemory address) : cfg.granuleWord (cfg.granule address) = address.toNat / 4 := by
  have ha := cfg.aligned
  obtain ⟨hlo, hhi⟩ := hm
  rw [granuleWord, granule]
  rw [capBytes] at *
  omega

/-- A word of memory outside a granule is none of its words. -/
theorem word_ne_granuleWord {address : Word} (hm : cfg.InMemory address) {g k : ℕ} (hk : k < 4)
    (hg : g ≠ cfg.granule address) : cfg.granuleWord g + k ≠ address.toNat / 4 := by
  have ha := cfg.aligned
  obtain ⟨hlo, hhi⟩ := hm
  rw [granule] at hg
  rw [granuleWord]
  rw [capBytes] at *
  omega

end MemConfig

/-! ## One command -/

theorem StoredSince.append {log : List MemEvent} {address : Word} {cap : Capability}
    (h : StoredSince log address cap) {e : MemEvent} (he : ¬ e.Overlaps address) :
    StoredSince (log ++ [e]) address cap := by
  obtain ⟨before, since, rfl, hsince⟩ := h
  refine ⟨before, since ++ [e], by simp, fun e' he' => ?_⟩
  obtain he' | he' := List.mem_append.1 he'
  · exact hsince e' he'
  · rw [List.mem_singleton.1 he']
    exact he

theorem not_overlaps_wrote {cfg : MemConfig} {a address wdata : Word} {wmask : BitVec 4} {g : ℕ}
    (haddr : address.toNat = cfg.memoryStart + g * capBytes) (hg : g < cfg.numTags)
    (hne : cfg.InMemory a → g ≠ cfg.granule a) :
    ¬ (MemEvent.wrote a wdata wmask).Overlaps address := by
  have ha := cfg.aligned
  simp only [MemEvent.Overlaps, ByteRange.meets_iff, ByteRange.top, MemConfig.InMemory,
    MemConfig.granule] at *
  rw [capBytes] at *
  omega

theorem not_overlaps_stored {cfg : MemConfig} {a address : Word} {cap : Capability} {g : ℕ}
    (haddr : address.toNat = cfg.memoryStart + g * capBytes) (hg : g < cfg.numTags)
    (hal : a.toNat % capBytes = 0) (hne : cfg.InMemory a → g ≠ cfg.granule a) :
    ¬ (MemEvent.stored a cap).Overlaps address := by
  have ha := cfg.aligned
  simp only [MemEvent.Overlaps, ByteRange.meets_iff, ByteRange.top, MemConfig.InMemory,
    MemConfig.granule] at *
  rw [capBytes] at *
  omega

namespace MemoryTagger

variable {cfg : MemConfig} {t : MemoryTagger} {log : List MemEvent}

/-- No command is going on. -/
def AtRest (t : MemoryTagger) : Prop :=
  t.fsm = .PASS_THROUGH ∧ t.cbusWordCtr = 0 ∧ t.bus.Free

/-- How far a capability command is: the words stored are in memory, and the
words loaded are those of memory. -/
def Progress (cfg : MemConfig) (t : MemoryTagger) : MemReq → Prop
  | .storeCap address cap => cfg.InMemory address →
      ∀ j < t.cbusWordCtr, t.bus.ram (address.toNat / 4 + j) = cap.memWord j
  | .loadCap address =>
      ∀ j < t.cbusWordCtr, t.cbusReadWords j = t.bus.ram (address.toNat / 4 + j)
  | _ => False

/-- **The tagger is at work on a command.** -/
def Serves (cfg : MemConfig) (t : MemoryTagger) (r : MemReq) : Prop :=
  t.bus.Serving (t.call (some r))
    ∧ (t.fsm = .PASS_THROUGH ∧ t.cbusWordCtr = 0
      ∨ t.fsm = .CAP_OP ∧ t.cbusWordCtr < 4 ∧ t.Progress cfg r)

/-- The granule a command is about to overwrite. -/
def Overwrites (cfg : MemConfig) (r : MemReq) (g : ℕ) : Prop :=
  match r with
  | .storeCap address _ => cfg.InMemory address ∧ g = cfg.granule address
  | _ => False

/-- **Every set tag vouches for its granule**, those of `ex` excepted: its four
words are those of a tagged capability stored there, untouched since. -/
def Vouches (cfg : MemConfig) (t : MemoryTagger) (log : List MemEvent) (ex : ℕ → Prop) : Prop :=
  ∀ g < cfg.numTags, ¬ ex g → t.tags g = true →
    ∃ cap address, address.toNat = cfg.memoryStart + g * capBytes ∧ cap.tag = true
      ∧ StoredSince log address cap
      ∧ ∀ k < 4, t.bus.ram (cfg.granuleWord g + k) = cap.memWord k

theorem AtRest.serves (h : t.AtRest) (r : MemReq) : t.Serves cfg r :=
  ⟨Or.inl h.2.2, Or.inl ⟨h.1, h.2.1⟩⟩

/-- Tags and words that do not change go on vouching. -/
theorem Vouches.congr {ex : ℕ → Prop} (h : t.Vouches cfg log ex) {t' : MemoryTagger}
    (htags : t'.tags = t.tags) (hram : t'.bus.ram = t.bus.ram) : t'.Vouches cfg log ex := by
  intro g hg hex htag
  rw [htags] at htag
  rw [hram]
  exact h g hg hex htag

/-- A set tag that goes on vouching after a command that left its granule
alone. -/
theorem Vouches.keep {ex : ℕ → Prop} (h : t.Vouches cfg log ex) {ram : ℕ → Word} {e : MemEvent}
    {g : ℕ} (hg : g < cfg.numTags) (hex : ¬ ex g) (htag : t.tags g = true)
    (hram : ∀ k < 4, ram (cfg.granuleWord g + k) = t.bus.ram (cfg.granuleWord g + k))
    (he : ∀ address : Word, address.toNat = cfg.memoryStart + g * capBytes →
      ¬ e.Overlaps address) :
    ∃ cap address, address.toNat = cfg.memoryStart + g * capBytes ∧ cap.tag = true
      ∧ StoredSince (log ++ [e]) address cap
      ∧ ∀ k < 4, ram (cfg.granuleWord g + k) = cap.memWord k := by
  obtain ⟨cap, address, haddr, hcap, hsince, hwords⟩ := h g hg hex htag
  exact ⟨cap, address, haddr, hcap, hsince.append (he address haddr),
    fun k hk => (hram k hk).trans (hwords k hk)⟩

/-- The memory after a word of a capability is written at the address of a
granule in memory. -/
theorem writeWord_capWord {ram : ℕ → Word} {address : Word} {cap : Capability} {k : ℕ}
    (hal : address.toNat % capBytes = 0) (hk : k < 4) (hm : cfg.InMemory address) :
    MemBus.writeWord cfg ram ⟨address + BitVec.ofNat 32 (4 * k), true, cap.memWord k, 0b1111#4⟩
      = Function.update ram (address.toNat / 4 + k) (cap.memWord k) := by
  rw [MemBus.writeWord, if_pos ⟨rfl, (MemConfig.inMemory_word_iff hal hk).2 hm⟩, maskWrite_all,
    MemConfig.toNat_cbusWordAddress hal hk,
    show (address.toNat + 4 * k) / 4 = address.toNat / 4 + k by omega]

theorem writeWord_outside {ram : ℕ → Word} {cmd : MemBusCmd} (h : ¬ cfg.InMemory cmd.address) :
    MemBus.writeWord cfg ram cmd = ram :=
  if_neg fun hc => h hc.2

theorem step_of_done {r : MemReq} {i : BusInput} (h : t.bus.done (t.call (some r)) i = true) :
    t.step cfg (some r) i = advance cfg { t with bus := t.bus.step cfg (t.call (some r)) i } r
      (t.bus.rdata cfg (t.call (some r)) i) := by
  rw [step, h]
  rfl

theorem step_of_wait {r : MemReq} {i : BusInput} (h : t.bus.done (t.call (some r)) i = false) :
    t.step cfg (some r) i = ({ t with bus := t.bus.step cfg (t.call (some r)) i }, none) := by
  rw [step, h]
  rfl

/-- **What a cycle leaves**: the tagger still at work on the command, or at
rest with the command done and, if it loaded a tagged capability, with one
that was stored. -/
def Outcome (cfg : MemConfig) (log : List MemEvent) (r : MemReq)
    (res : MemoryTagger × Option MemEvent) : Prop :=
  match res.2 with
  | none => res.1.Serves cfg r ∧ res.1.Vouches cfg log (Overwrites cfg r)
  | some e => res.1.AtRest ∧ res.1.Vouches cfg (log ++ [e]) (fun _ => False)
      ∧ ∀ address cap, e = .loaded address cap → cap.tag = true → StoredSince log address cap

/-- Progress is about the words, not about the controller of the bus. -/
theorem Progress.congr {r : MemReq} (h : t.Progress cfg r) {bus : MemBus}
    (hram : bus.ram = t.bus.ram) : Progress cfg { t with bus := bus } r := by
  cases r with
  | write => exact h
  | read => exact h
  | storeCap address cap =>
    intro hm j hj
    rw [show (MemoryTagger.bus _).ram = t.bus.ram from hram]
    exact h hm j hj
  | loadCap address =>
    intro j hj
    rw [show (MemoryTagger.bus _).ram = t.bus.ram from hram]
    exact h j hj

/-- A cycle in which the call is not done changes nothing that counts. -/
theorem outcome_wait {r : MemReq} (hs : t.Serves cfg r) (hv : t.Vouches cfg log (Overwrites cfg r))
    {bus : MemBus} (hserving : bus.Serving (t.call (some r))) (hram : bus.ram = t.bus.ram) :
    Outcome cfg log r ({ t with bus := bus }, none) := by
  refine ⟨⟨hserving, ?_⟩, hv.congr rfl hram⟩
  obtain h | ⟨h1, h2, h3⟩ := hs.2
  · exact Or.inl h
  · exact Or.inr ⟨h1, h2, h3.congr hram⟩

theorem outcome_write {address wdata : Word} {wmask : BitVec 4}
    (hs : t.Serves cfg (.write address wdata wmask))
    (hv : t.Vouches cfg log (Overwrites cfg (.write address wdata wmask))) (i : BusInput) :
    Outcome cfg log (.write address wdata wmask)
      (t.step cfg (some (.write address wdata wmask)) i) := by
  obtain ⟨hfsm, hctr⟩ : t.fsm = .PASS_THROUGH ∧ t.cbusWordCtr = 0 := by
    obtain h | ⟨-, -, h⟩ := hs.2
    · exact h
    · exact h.elim
  have hcall : t.call (some (.write address wdata wmask)) = .write address wdata wmask := by
    simp [call, hfsm]
  obtain ⟨hdone, hserving, hram⟩ | ⟨hdone, hfree, hserved⟩ :=
    MemBus.serve_step cfg (by rw [hcall]; simp) hs.1 i
  · rw [step_of_wait hdone]
    exact outcome_wait hs hv hserving hram
  · rw [hcall] at hserved
    rw [step_of_done hdone]
    refine ⟨⟨hfsm, hctr, hfree⟩, fun g hg _ htag => ?_, fun _ _ h => by cases h⟩
    have hram : (t.bus.step cfg (t.call (some (.write address wdata wmask))) i).ram
        = MemBus.writeWord cfg t.bus.ram ⟨address, true, wdata, wmask⟩ := by
      rw [hcall]
      exact hserved
    by_cases hm : cfg.InMemory address
    · -- the tag of its own granule is cleared, so a set tag is another's
      have htag' : Function.update t.tags (tagIndex cfg address) false g = true := by
        simpa only [advance, setTag, if_pos hm] using htag
      have hne : g ≠ cfg.granule address := by
        rintro rfl
        rw [MemConfig.tagIndex_eq_granule hm, Function.update_self] at htag'
        cases htag'
      rw [MemConfig.tagIndex_eq_granule hm, Function.update_of_ne hne] at htag'
      refine hv.keep hg id htag' (fun k hk => ?_)
        (fun a ha => not_overlaps_wrote ha hg (fun _ => hne))
      show (t.bus.step cfg (t.call (some (.write address wdata wmask))) i).ram _ = _
      rw [hram, MemBus.writeWord, if_pos ⟨rfl, hm⟩,
        Function.update_of_ne (MemConfig.word_ne_granuleWord hm hk hne)]
    · have htag' : t.tags g = true := by
        simpa only [advance, setTag, if_neg hm] using htag
      refine hv.keep hg id htag' (fun k hk => ?_)
        (fun a ha => not_overlaps_wrote ha hg (fun h => absurd h hm))
      show (t.bus.step cfg (t.call (some (.write address wdata wmask))) i).ram _ = _
      rw [hram, writeWord_outside hm]

theorem outcome_read {address : Word} (hs : t.Serves cfg (.read address))
    (hv : t.Vouches cfg log (Overwrites cfg (.read address))) (i : BusInput) :
    Outcome cfg log (.read address) (t.step cfg (some (.read address)) i) := by
  obtain ⟨hfsm, hctr⟩ : t.fsm = .PASS_THROUGH ∧ t.cbusWordCtr = 0 := by
    obtain h | ⟨-, -, h⟩ := hs.2
    · exact h
    · exact h.elim
  have hcall : t.call (some (.read address)) = .read address := by simp [call, hfsm]
  obtain ⟨hdone, hserving, hram⟩ | ⟨hdone, hfree, hserved⟩ :=
    MemBus.serve_step cfg (by rw [hcall]; simp) hs.1 i
  · rw [step_of_wait hdone]
    exact outcome_wait hs hv hserving hram
  · rw [hcall] at hserved
    rw [step_of_done hdone]
    refine ⟨⟨hfsm, hctr, hfree⟩, fun g hg _ htag => ?_, fun _ _ h => by cases h⟩
    refine hv.keep hg id htag (fun k _ => ?_) (fun _ _ h => h)
    show (t.bus.step cfg (t.call (some (.read address))) i).ram _ = _
    rw [hcall]
    exact congrFun hserved.2 _

/-- One more word of a capability is in memory. -/
theorem progress_storeCap {address : Word} {cap : Capability} {ram : ℕ → Word}
    (hal : address.toNat % capBytes = 0) (hk : t.cbusWordCtr < 4)
    (hprog : cfg.InMemory address →
      ∀ j < t.cbusWordCtr, t.bus.ram (address.toNat / 4 + j) = cap.memWord j)
    (hram : ram = MemBus.writeWord cfg t.bus.ram ⟨t.cbusWordAddress address, true,
      cap.memWord t.cbusWordCtr, 0b1111#4⟩) (hm : cfg.InMemory address) :
    ∀ j < t.cbusWordCtr + 1, ram (address.toNat / 4 + j) = cap.memWord j := by
  intro j hj
  rw [hram, cbusWordAddress, writeWord_capWord hal hk hm]
  by_cases hlast : j = t.cbusWordCtr
  · rw [hlast, Function.update_self]
  · rw [Function.update_of_ne (by omega)]
    exact hprog hm j (by omega)

/-- A word of a capability is written in no granule but its own. -/
theorem ram_storeCap_of_ne {address : Word} {cap : Capability} {ram : ℕ → Word}
    (hal : address.toNat % capBytes = 0) (hk : t.cbusWordCtr < 4)
    (hram : ram = MemBus.writeWord cfg t.bus.ram ⟨t.cbusWordAddress address, true,
      cap.memWord t.cbusWordCtr, 0b1111#4⟩) {g k : ℕ} (hk' : k < 4)
    (hne : cfg.InMemory address → g ≠ cfg.granule address) :
    ram (cfg.granuleWord g + k) = t.bus.ram (cfg.granuleWord g + k) := by
  rw [hram]
  by_cases hm : cfg.InMemory address
  · rw [cbusWordAddress, writeWord_capWord hal hk hm, Function.update_of_ne]
    rw [← MemConfig.granuleWord_granule hal hm]
    have ha := cfg.aligned
    have hg := hne hm
    simp only [MemConfig.granuleWord, capBytes] at *
    omega
  · rw [writeWord_outside]
    rw [cbusWordAddress]
    exact (MemConfig.inMemory_word_iff hal hk).not.2 hm

theorem outcome_storeCap {address : Word} {cap : Capability}
    (hal : address.toNat % capBytes = 0) (hs : t.Serves cfg (.storeCap address cap))
    (hv : t.Vouches cfg log (Overwrites cfg (.storeCap address cap))) (i : BusInput) :
    Outcome cfg log (.storeCap address cap) (t.step cfg (some (.storeCap address cap)) i) := by
  obtain ⟨hdone, hserving, hram⟩ | ⟨hdone, hfree, hram⟩ :=
    MemBus.serve_step cfg (show t.call (some (.storeCap address cap)) ≠ .idle by simp [call])
      hs.1 i
  · rw [step_of_wait hdone]
    exact outcome_wait hs hv hserving hram
  · rw [step_of_done hdone]
    have hctr : t.cbusWordCtr < 4 := by
      obtain ⟨-, h⟩ | ⟨-, h, -⟩ := hs.2
      · omega
      · exact h
    have hprog : cfg.InMemory address →
        ∀ j < t.cbusWordCtr, t.bus.ram (address.toNat / 4 + j) = cap.memWord j := by
      obtain ⟨-, h⟩ | ⟨-, -, h⟩ := hs.2
      · intro _ j hj
        omega
      · exact h
    have hwords := progress_storeCap hal hctr hprog hram
    have hothers := fun g k (hk : k < 4) (hne : cfg.InMemory address → g ≠ cfg.granule address) =>
      ram_storeCap_of_ne hal hctr hram hk hne
    -- before the last word the command is one word further, and only its own
    -- granule, which is excepted, has changed
    have hmid : ∀ t' : MemoryTagger, t'.fsm = .CAP_OP → t'.cbusWordCtr = t.cbusWordCtr + 1 →
        t'.cbusWordCtr < 4 → t'.tags = t.tags →
        t'.bus = t.bus.step cfg (t.call (some (.storeCap address cap))) i →
        Outcome cfg log (.storeCap address cap) (t', none) := by
      intro t' h1 h2 h3 h4 h5
      refine ⟨⟨Or.inl (h5 ▸ hfree), Or.inr ⟨h1, h3, fun hm j hj => ?_⟩⟩, fun g hg hex htag => ?_⟩
      · rw [h5]
        exact hwords hm j (h2 ▸ hj)
      · rw [h4] at htag
        obtain ⟨c, a, haddr, hc, hsince, hram'⟩ := hv g hg hex htag
        refine ⟨c, a, haddr, hc, hsince, fun k hk => ?_⟩
        rw [h5, ← hram' k hk]
        exact hothers g k hk (fun hm hge => hex ⟨hm, hge⟩)
    cases hfsm : t.fsm with
    | PASS_THROUGH =>
      have hzero : t.cbusWordCtr = 0 := by
        obtain ⟨-, h⟩ | ⟨h, -⟩ := hs.2
        · exact h
        · rw [hfsm] at h
          cases h
      simp only [advance]
      exact hmid _ rfl rfl (by simp [hzero]) rfl rfl
    | CAP_OP =>
      by_cases hlast : t.cbusWordCtr = 3
      · simp only [advance, hlast, if_true]
        refine ⟨⟨rfl, rfl, hfree⟩, fun g hg _ htag => ?_, fun _ _ h => by cases h⟩
        by_cases hown : cfg.InMemory address ∧ g = cfg.granule address
        · obtain ⟨hm, rfl⟩ := hown
          have htag' : cap.tag = true := by
            simpa only [setTag, if_pos hm, MemConfig.tagIndex_eq_granule hm,
              Function.update_self] using htag
          refine ⟨cap, address, ?_, htag', ⟨log, [], rfl, by simp⟩, fun k hk => ?_⟩
          · have ha := cfg.aligned
            simp only [MemConfig.granule, MemConfig.InMemory, capBytes] at *
            omega
          · rw [MemConfig.granuleWord_granule hal hm]
            exact hwords hm k (by omega)
        · have hne : cfg.InMemory address → g ≠ cfg.granule address :=
            fun hm hge => hown ⟨hm, hge⟩
          have htag' : t.tags g = true := by
            by_cases hm : cfg.InMemory address
            · simpa only [setTag, if_pos hm, MemConfig.tagIndex_eq_granule hm,
                Function.update_of_ne (hne hm)] using htag
            · simpa only [setTag, if_neg hm] using htag
          exact hv.keep hg hown htag' (fun k hk => hothers g k hk hne)
            (fun a ha => not_overlaps_stored ha hg hal hne)
      · simp only [advance, hlast, if_false]
        exact hmid _ rfl rfl (show t.cbusWordCtr + 1 < 4 by omega) rfl rfl

theorem outcome_loadCap {address : Word} (hal : address.toNat % capBytes = 0)
    (hm : cfg.InMemory address) (hs : t.Serves cfg (.loadCap address))
    (hv : t.Vouches cfg log (Overwrites cfg (.loadCap address))) (i : BusInput) :
    Outcome cfg log (.loadCap address) (t.step cfg (some (.loadCap address)) i) := by
  obtain ⟨hdone, hserving, hram⟩ | ⟨hdone, hfree, hrdata, hram⟩ :=
    MemBus.serve_step cfg (show t.call (some (.loadCap address)) ≠ .idle by simp [call]) hs.1 i
  · rw [step_of_wait hdone]
    exact outcome_wait hs hv hserving hram
  · rw [step_of_done hdone]
    have hctr : t.cbusWordCtr < 4 := by
      obtain ⟨-, h⟩ | ⟨-, h, -⟩ := hs.2
      · omega
      · exact h
    have hprog : ∀ j < t.cbusWordCtr, t.cbusReadWords j = t.bus.ram (address.toNat / 4 + j) := by
      obtain ⟨-, h⟩ | ⟨-, -, h⟩ := hs.2
      · intro j hj
        omega
      · exact h
    have hword : t.bus.rdata cfg (t.call (some (.loadCap address))) i
        = t.bus.ram (address.toNat / 4 + t.cbusWordCtr) := by
      rw [hrdata, MemBus.readWord, cbusWordAddress,
        if_pos ((MemConfig.inMemory_word_iff hal hctr).2 hm),
        MemConfig.toNat_cbusWordAddress hal hctr]
      congr 1
      omega
    have hwords : ∀ j < t.cbusWordCtr + 1,
        Function.update t.cbusReadWords t.cbusWordCtr
          (t.bus.rdata cfg (t.call (some (.loadCap address))) i) j
          = t.bus.ram (address.toNat / 4 + j) := by
      intro j hj
      by_cases hlast : j = t.cbusWordCtr
      · rw [hlast, Function.update_self, hword]
      · rw [Function.update_of_ne hlast]
        exact hprog j (by omega)
    have hmid : ∀ t' : MemoryTagger, t'.fsm = .CAP_OP → t'.cbusWordCtr = t.cbusWordCtr + 1 →
        t'.cbusWordCtr < 4 → t'.tags = t.tags →
        t'.cbusReadWords = Function.update t.cbusReadWords t.cbusWordCtr
          (t.bus.rdata cfg (t.call (some (.loadCap address))) i) →
        t'.bus = t.bus.step cfg (t.call (some (.loadCap address))) i →
        Outcome cfg log (.loadCap address) (t', none) := by
      intro t' h1 h2 h3 h4 h5 h6
      have hram' : t'.bus.ram = t.bus.ram := h6 ▸ hram
      refine ⟨⟨Or.inl (h6 ▸ hfree), Or.inr ⟨h1, h3, fun j hj => ?_⟩⟩, hv.congr h4 hram'⟩
      rw [h5, hram']
      exact hwords j (h2 ▸ hj)
    cases hfsm : t.fsm with
    | PASS_THROUGH =>
      have hzero : t.cbusWordCtr = 0 := by
        obtain ⟨-, h⟩ | ⟨h, -⟩ := hs.2
        · exact h
        · rw [hfsm] at h
          cases h
      simp only [advance]
      exact hmid _ rfl rfl (by simp [hzero]) rfl rfl rfl
    | CAP_OP =>
      by_cases hlast : t.cbusWordCtr = 3
      · simp only [advance, hlast, if_true]
        refine ⟨⟨rfl, rfl, hfree⟩, fun g hg _ htag => ?_, ?_⟩
        · exact hv.keep hg id htag (fun k _ => congrFun hram _) (fun _ _ h => h)
        · -- the tag read vouches for the words read with it
          rintro a c he htag
          obtain ⟨rfl, rfl⟩ : address = a ∧ _ = c := by simpa using he
          have htag' : t.tags (cfg.granule address) = true := by
            rw [← MemConfig.tagIndex_eq_granule hm]
            exact htag
          obtain ⟨cap, a, haddr, hcap, hsince, hcapwords⟩ :=
            hv _ (MemConfig.granule_lt hm) id htag'
          have ha : a = address := by
            apply BitVec.eq_of_toNat_eq
            have ha := cfg.aligned
            simp only [MemConfig.granule, MemConfig.InMemory, capBytes] at *
            omega
          rw [ha] at hsince
          have hsame : ∀ k < 4, Function.update t.cbusReadWords 3
              (t.bus.rdata cfg (t.call (some (.loadCap address))) i) k = cap.memWord k := by
            intro k hk
            rw [← hcapwords k hk, MemConfig.granuleWord_granule hal hm, ← hlast]
            exact hwords k (by omega)
          rw [Capability.ofMemWords_congr hsame,
            show t.tags (tagIndex cfg address) = cap.tag from htag.trans hcap.symm,
            Capability.ofMemWords_memWord]
          exact hsince
      · simp only [advance, hlast, if_false]
        exact hmid _ rfl rfl (show t.cbusWordCtr + 1 < 4 by omega) rfl rfl rfl

/-- **One cycle on a regular command.** -/
theorem outcome_step {r : MemReq} (hr : r.Regular cfg) (hs : t.Serves cfg r)
    (hv : t.Vouches cfg log (Overwrites cfg r)) (i : BusInput) :
    Outcome cfg log r (t.step cfg (some r) i) := by
  cases r with
  | write address wdata wmask => exact outcome_write hs hv i
  | read address => exact outcome_read hs hv i
  | storeCap address cap => exact outcome_storeCap hr hs hv i
  | loadCap address => exact outcome_loadCap hr.1 hr.2 hs hv i

end MemoryTagger

/-! ## Runs -/

/-- Unforgeability of a longer log is that of the log and of its last
entry. -/
theorem unforgeable_append_singleton {log : List MemEvent} {e : MemEvent} (h : Unforgeable log)
    (he : ∀ address cap, e = .loaded address cap → cap.tag = true →
      StoredSince log address cap) : Unforgeable (log ++ [e]) := by
  intro before address cap after heq htag
  obtain rfl | ⟨after, last, rfl⟩ := List.eq_nil_or_concat after
  · obtain ⟨rfl, hlast⟩ := List.append_inj' heq rfl
    exact he address cap (List.singleton_inj.1 hlast) htag
  · rw [List.concat_eq_append, ← List.cons_append, ← List.append_assoc] at heq
    obtain ⟨rfl, -⟩ := List.append_inj' heq rfl
    exact h before address cap after rfl htag

/-- **What holds between cycles**: at rest every set tag vouches; at work on a
command, every set tag but the one about to be overwritten. -/
def TaggerSystem.Sound (cfg : MemConfig) (s : TaggerSystem) (log : List MemEvent) : Prop :=
  match s.held with
  | none => s.tagger.AtRest ∧ s.tagger.Vouches cfg log (fun _ => False)
  | some r => r.Regular cfg ∧ s.tagger.Serves cfg r
      ∧ s.tagger.Vouches cfg log (MemoryTagger.Overwrites cfg r)

/-- The commands of a run that are done, in order. -/
def eventLog (cfg : MemConfig) (s : TaggerSystem) (is : List TaggerInput) : List MemEvent :=
  ((memoryTagger cfg).observe s is).filterMap id

theorem TaggerSystem.Sound.step {cfg : MemConfig} {s : TaggerSystem} {log : List MemEvent}
    (h : s.Sound cfg log) (hlog : Unforgeable log) {i : TaggerInput} (hheld : s.Held i)
    (hreg : ∀ r ∈ i.req, r.Regular cfg) :
    ((memoryTagger cfg).next s i).Sound cfg (log ++ ((memoryTagger cfg).obs s i).toList)
      ∧ Unforgeable (log ++ ((memoryTagger cfg).obs s i).toList) := by
  cases hreq : i.req with
  | none =>
    have hnone : s.held = none := by
      cases hh : s.held with
      | none => rfl
      | some r => exact absurd ((hheld r hh).symm.trans hreq) (by simp)
    rw [Sound, hnone] at h
    obtain ⟨⟨hfsm, hctr, hfree⟩, hv⟩ := h
    obtain ⟨hfree', hram, -⟩ := MemBus.free_step_idle cfg hfree i.bus
    have hnext : (memoryTagger cfg).next s i
        = ⟨{ s.tagger with bus := s.tagger.bus.step cfg .idle i.bus }, none⟩ := by
      simp only [SyncMachine.next, memoryTagger, hreq, MemoryTagger.step, MemoryTagger.call]
    have hobs : (memoryTagger cfg).obs s i = none := by
      simp only [SyncMachine.obs, memoryTagger, hreq, MemoryTagger.step]
    rw [hnext, hobs, Option.toList_none, List.append_nil]
    exact ⟨⟨⟨hfsm, hctr, hfree'⟩, hv.congr rfl hram⟩, hlog⟩
  | some r =>
    have hr := hreg r hreq
    -- a command just shown is served from rest
    have hserves : s.tagger.Serves cfg r
        ∧ s.tagger.Vouches cfg log (MemoryTagger.Overwrites cfg r) := by
      cases hh : s.held with
      | none =>
        rw [Sound, hh] at h
        exact ⟨h.1.serves r, fun g hg _ htag => h.2 g hg id htag⟩
      | some r' =>
        rw [Sound, hh] at h
        obtain rfl : r' = r := Option.some.inj ((hheld r' hh).symm.trans hreq)
        exact h.2
    have hout := MemoryTagger.outcome_step hr hserves.1 hserves.2 i.bus
    cases hstep : s.tagger.step cfg (some r) i.bus with
    | mk t e =>
      rw [hstep] at hout
      cases e with
      | none =>
        have hnext : (memoryTagger cfg).next s i = ⟨t, some r⟩ := by
          simp only [SyncMachine.next, memoryTagger, hreq, hstep]
        have hobs : (memoryTagger cfg).obs s i = none := by
          simp only [SyncMachine.obs, memoryTagger, hreq, hstep]
        rw [hnext, hobs, Option.toList_none, List.append_nil]
        exact ⟨⟨hr, hout.1, hout.2⟩, hlog⟩
      | some e =>
        have hnext : (memoryTagger cfg).next s i = ⟨t, none⟩ := by
          simp only [SyncMachine.next, memoryTagger, hreq, hstep]
        have hobs : (memoryTagger cfg).obs s i = some e := by
          simp only [SyncMachine.obs, memoryTagger, hreq, hstep]
        rw [hnext, hobs, Option.toList_some]
        exact ⟨⟨hout.1, hout.2.1⟩, unforgeable_append_singleton hlog hout.2.2⟩

theorem TaggerSystem.Sound.run {cfg : MemConfig} {s : TaggerSystem} {log : List MemEvent}
    (h : s.Sound cfg log) (hlog : Unforgeable log) {is : List TaggerInput}
    (hheld : (memoryTagger cfg).Along (fun s i => s.Held i) s is)
    (hreg : ∀ i ∈ is, ∀ r ∈ i.req, r.Regular cfg) :
    Unforgeable (log ++ eventLog cfg s is) := by
  induction is generalizing s log with
  | nil => simpa [eventLog] using hlog
  | cons i is ih =>
    obtain ⟨hs, hl⟩ := h.step hlog hheld.1 (hreg i List.mem_cons_self)
    have hrest := ih hs hl hheld.2 (fun j hj => hreg j (List.mem_cons_of_mem _ hj))
    have hsplit : eventLog cfg s (i :: is) = ((memoryTagger cfg).obs s i).toList
        ++ eventLog cfg ((memoryTagger cfg).next s i) is := by
      rw [eventLog, SyncMachine.observe_cons, List.filterMap_cons]
      cases (memoryTagger cfg).obs s i <;> rfl
    rw [hsplit, ← List.append_assoc]
    exact hrest

theorem TaggerSystem.sound_init (cfg : MemConfig) (ram : ℕ → Word) :
    (TaggerSystem.init ram).Sound cfg [] :=
  ⟨⟨rfl, rfl, rfl, rfl, rfl⟩, fun _ _ _ h => by cases h⟩

/-- **Along every run of regular commands, under every behaviour of the bus, a
capability loaded with its tag set is one that was stored at the same address
with its tag set, and nothing touched it in between.** -/
theorem memoryTagger_unforgeable (cfg : MemConfig) (ram : ℕ → Word) (is : List TaggerInput)
    (hheld : (memoryTagger cfg).Along (fun s i => s.Held i) (.init ram) is)
    (hreg : ∀ i ∈ is, ∀ r ∈ i.req, r.Regular cfg) :
    Unforgeable (eventLog cfg (.init ram) is) := by
  have hlog : Unforgeable [] := fun before _ _ after h => by cases before <;> cases h
  exact (TaggerSystem.sound_init cfg ram).run hlog hheld hreg

/-- Commands shown one after the other to a bus that never waits, each for as
many cycles as it has words. -/
def promptly (reqs : List MemReq) : List TaggerInput :=
  reqs.flatMap fun r => List.replicate (match r with
    | .storeCap _ _ | .loadCap _ => 4
    | _ => 1) ⟨some r, ⟨true, true, 0⟩⟩

/-- A capability is stored, the granule after it written, and the capability
loaded again. -/
theorem stored_then_loaded_unforgeable :
    let cfg : MemConfig := ⟨0x80000000, 4, by decide, by decide, by decide⟩
    let is := promptly [.storeCap 0x80000000 .root, .write 0x80000010 7 0b0001#4,
      .loadCap 0x80000000]
    .loaded 0x80000000 .root ∈ eventLog cfg (.init fun _ => 0) is
      ∧ Unforgeable (eventLog cfg (.init fun _ => 0) is) :=
  ⟨by decide +kernel, memoryTagger_unforgeable _ _ _ (by decide +kernel) (by decide +kernel)⟩

/-- A capability is stored at a granule and one is loaded four bytes further,
under checks that raise nothing. The tag is the one of the granule, the words
are not: the load gives a tagged capability that nothing stored. -/
theorem loadCap_between_granules_forges :
    let cfg : MemConfig := ⟨0x80000000, 4, by decide, by decide, by decide⟩
    let is := promptly [.storeCap 0x80000000 .root, .loadCap 0x80000004]
    (MemAccess.capDdc .store true .root 0x80000000 0).check = none
      ∧ (MemAccess.capDdc .load true .root 0x80000000 4).check = none
      ∧ (memoryTagger cfg).Along (fun s i => s.Held i) (.init fun _ => 0) is
      ∧ ¬ Unforgeable (eventLog cfg (.init fun _ => 0) is) := by
  intro cfg is
  let forged : Capability := .ofMemWords true fun k =>
    if k = 3 then 0 else Capability.root.memWord (k + 1)
  have hlog : eventLog cfg (.init fun _ => 0) is
      = [.stored 0x80000000 .root] ++ .loaded 0x80000004 forged :: [] := by
    decide +kernel
  refine ⟨by decide, by decide, by decide +kernel, fun h => ?_⟩
  obtain ⟨before, since, heq, -⟩ := h _ _ _ _ hlog rfl
  have hmem : MemEvent.stored 0x80000004 forged ∈ [MemEvent.stored 0x80000000 .root] :=
    heq ▸ List.mem_append_right before List.mem_cons_self
  exact absurd hmem (by decide)

end Proteus
