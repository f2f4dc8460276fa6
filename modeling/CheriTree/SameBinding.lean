import CheriTree.Morello.SensorBinding
import CheriTree.Proteus.SensorBinding

/-!
# One attestation, two instruction sets

`set_sensor_enclave` of the two ports looks at the tag and the base of the
encryption seal, the digest that belongs to it, and the base of the seal to
verify with. What it stores is used by other fields. On either port what is
stored is bound to the sensor where these were right already, and a seal that
has been moved off its object type passes.
-/

/-- **The call binds what it stores, or stores nothing, exactly where one that
passes can make all of its stores and was given what it trusts in**, on both
ports. -/
theorem sensorBinding_iff_vouched {w : ℕ} {b : Morello.Build} (x : Proteus.UserEnclave)
    (i : Proteus.EntryInput w) (s : Proteus.RuntimeState) (y : Morello.UserEnclave b)
    (c0 c1 : Morello.Capability) (t : Morello.SensorState b) :
    (x.BindsSensor i s ↔ ∀ hash, x.Passes i s hash →
        Proteus.UserEnclave.ArgReadable i Proteus.CAP_LEN ∧ x.Vouched i s hash)
      ∧ (y.BindsSensor c0 c1 t ↔ ∀ hash, y.Passes c0 c1 t hash →
        y.Storable c0 c1 t hash ∧ y.Vouched c0 c1 t hash) :=
  ⟨Proteus.UserEnclave.bindsSensor_iff x i s, Morello.UserEnclave.bindsSensor_iff y c0 c1 t⟩

namespace Proteus

namespace UserEnclave

/-- The memory of the bench, with the encryption seal of the sensor moved by
one. Its base is where it was. -/
def movedSeal : RuntimeState :=
  { benchStart with
    mem := benchStart.mem.storeCap benchMemory 0x80000820 { sensorId.signSeal with offset := 1 } }

/-- The entry `set_sensor_enclave`, with the capabilities of the sensor. -/
def movedEntry : EntryInput 4 := benchEntry 1 (allOf 0x80000800 0x40)

end UserEnclave

end Proteus

namespace Morello

/-- A user enclave with a data section of a kilobyte. -/
def smallEnclave : UserEnclave .release where
  plat := smallPlatform
  enc := smallEncoding
  pcc := { smallHeap with base := 0xC0000800, length := 0x200, fits := fun _ => by decide }
  c29 :=
    { smallHeap with
      base := 0xC0000000, length := 0x400, address := 0xC0000000, fits := fun _ => by decide }
  csp :=
    { smallHeap with
      base := 0xC00000B0, length := 0x350, address := 0xC0000400, fits := fun _ => by decide }
  sensorIdStart := 0xC0000900
  fits := by decide
  stack := by decide

/-- The argument: where the capabilities of the sensor are. -/
def smallArgument : Capability :=
  { smallHeap with
    base := 0xC0001000, length := 0x40, address := 0xC0001000, fits := fun _ => by decide }

/-- A seal of the sensor, whose object types start at four. -/
def sealAt (base address : Word) (h : base.toNat < 2 ^ 15) : Capability where
  tag := true
  base := base
  length := 1
  address := address
  perms := ⟨false, false, false, false, false, true, true, true⟩
  otype := 0
  fits := fun _ => by omega

/-- The store with the sensor, and its capabilities in memory; the encryption
seal has been moved by one. The id of the sensor is the one of the sources,
which is zeros. -/
def smallState : SensorState .release where
  mem := ⟨fun _ => 0, fun g =>
    if g = 0xC0001000 / CAP_LEN then { smallHeap with otype := 6 }
    else if g = 0xC0001010 / CAP_LEN then { smallHeap with otype := 6 }
    else if g = 0xC0001020 / CAP_LEN then sealAt 4 5 (by decide)
    else if g = 0xC0001030 / CAP_LEN then sealAt 5 5 (by decide)
    else invalidCap⟩
  store := ⟨fun i => ⟨i.val, decide (i.val = 0), decide (i.val = 0), 1, fun _ => 0⟩, 2⟩

end Morello

open Proteus.UserEnclave Morello in
/-- **A seal that has been moved off its object type is stored**, on both
ports. -/
theorem movedSeal_not_bindsSensor :
    ((bench.sensorStore movedEntry).Completes movedSeal ∧ ¬ bench.BindsSensor movedEntry movedSeal)
      ∧ (smallEnclave.sensorStore smallArgument invalidCap).Completes smallState
      ∧ ¬ smallEnclave.BindsSensor smallArgument invalidCap smallState := by
  have hproteus : (bench.sensorStore movedEntry).Completes movedSeal := by
    unfold GuardedStore.Completes
    decide +kernel
  have hmorello : (smallEnclave.sensorStore smallArgument invalidCap).Completes smallState := by
    unfold GuardedStore.Completes
    decide +kernel
  refine ⟨⟨hproteus, fun h => ?_⟩, hmorello, fun h => ?_⟩
  · obtain ⟨e, he, -, -, -, hbound⟩ := h.stored hproteus
    have hcursor := hbound.enc.cursor
    rw [List.mem_singleton.1 he] at hcursor
    exact absurd hcursor (by decide +kernel)
  · obtain ⟨i, -, -, -, hbound⟩ := h.stored hmorello
    have hcursor : _ = getOtype 1 := hbound.enc.cursor
    exact absurd hcursor (by decide +kernel)
