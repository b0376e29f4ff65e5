import WordMachine.Bus.Window
import WordMachine.Device.Basic
import WordMachine.Memory.Basic

/-!
# Bus/Basic — which devices there are and where their registers lie

A bus owns every device that was ever registered on it, each in a slot of its own, and knows by
hardware identifier which slot is in use now. A device that is replaced leaves the registry and keeps
its slot, since a memory may still be wired to it.

Windows never overlap and never run past the last address: `map` refuses such a window and then
changes nothing. `route` is the device and register behind an address.
-/

namespace WordMachine

/-- Where the bus keeps a device. -/
abbrev Slot := Nat

/-- What happens on the bus without being an error. -/
inductive Notice where
  /-- A device was in the middle of an action when it should have ticked. -/
  | tickSkipped
  /-- A word for a device that was in the middle of an action went to memory alone. -/
  | writeIgnored
  /-- A read of a device that was in the middle of an action was answered from memory. -/
  | readFromMemory
  deriving DecidableEq, Repr

def Notice.message : Notice → String
  | .tickSkipped => "device busy, tick skipped"
  | .writeIgnored => "re-entrant device write ignored"
  | .readFromMemory => "re-entrant device read served from memory"

structure Bus where
  /-- Every device there ever was, by slot. -/
  devices : Array Device := #[]
  /-- The slot in use for each hardware identifier, in order of first registration. -/
  registry : List (UInt32 × Slot) := []
  /-- The windows, the one mapped last at the end. -/
  windows : List Window := []
  /-- The devices in the middle of an action, which nothing can reach. -/
  busy : List Slot := []
  /-- What has happened so far. -/
  notices : Array Notice := #[]

namespace Bus

/-- Why a bus refuses a wiring. -/
inductive Error where
  | unknownDevice (hardwareId : UInt32)
  | overlap (base length : Word) (other : UInt32)
  | outOfSpace (base length : Word)
  | memory (e : Memory.Error)
  deriving DecidableEq, Repr

def idString (hardwareId : UInt32) : String := Numeral.hexMarkedString 8 hardwareId.toNat

def windowString (base length : Word) : String :=
  s!"window {Numeral.hexMarkedString 4 base.toNat}+{length}"

def Error.message : Error → String
  | .unknownDevice id => s!"no device with hardware id {idString id}"
  | .overlap base length other =>
    s!"{windowString base length} overlaps device {idString other}"
  | .outOfSpace base length => s!"{windowString base length} runs past the end of memory"
  | .memory e => s!"memory error: {e.message}"

/-- The slot in use for a hardware identifier. -/
def slot? (bus : Bus) (hardwareId : UInt32) : Option Slot :=
  (bus.registry.find? fun entry => entry.1 == hardwareId).map (·.2)

/-- The device in use for a hardware identifier. -/
def device? (bus : Bus) (hardwareId : UInt32) : Option Device :=
  (bus.slot? hardwareId).bind fun slot => bus.devices[slot]?

/-- The hardware identifiers in order of first registration. -/
def hardwareIds (bus : Bus) : List UInt32 := bus.registry.map (·.1)

/-- Put a device on the bus, in the place of any other with its hardware identifier. -/
def register (bus : Bus) (device : Device) : Bus :=
  let slot := bus.devices.size
  let id := device.hardwareId
  { bus with
    devices := bus.devices.push device
    registry :=
      if (bus.slot? id).isSome then
        bus.registry.map fun entry => if entry.1 == id then (id, slot) else entry
      else
        bus.registry ++ [(id, slot)] }

/-- Place the registers of a device at `base`, and no longer where they were. -/
def map (bus : Bus) (hardwareId : UInt32) (base : Word) : Except Error (Window × Bus) :=
  match bus.device? hardwareId with
  | none => .error (.unknownDevice hardwareId)
  | some device =>
    let window : Window := ⟨hardwareId, base, device.registerCount⟩
    let others := bus.windows.filter fun w => w.hardwareId != hardwareId
    if Word.count < window.stop then
      .error (.outOfSpace base window.length)
    else
      match others.find? fun w => w.overlaps window with
      | some other => .error (.overlap base window.length other.hardwareId)
      | none => .ok (window, { bus with windows := others ++ [window] })

/-- The slot in use and the register behind an address. -/
def route? (bus : Bus) (addr : Word) : Option (Slot × Word) :=
  match bus.windows.find? fun w => w.contains addr with
  | none => none
  | some w => (bus.slot? w.hardwareId).map fun slot => (slot, addr - w.base)

/-- Add to what has happened. -/
def note (bus : Bus) (notice : Notice) : Bus := { bus with notices := bus.notices.push notice }

/-- Whether the device in a slot is in the middle of an action. -/
def isBusy (bus : Bus) (slot : Slot) : Bool := bus.busy.contains slot

/-- Put a device back into its slot. -/
def setDevice (bus : Bus) (slot : Slot) (device : Device) : Bus :=
  { bus with devices := bus.devices.setIfInBounds slot device }

/-- Identifiers and windows, in decimal. -/
def summary (bus : Bus) : String :=
  let ids := ", ".intercalate (bus.hardwareIds.map toString)
  let windows := ", ".intercalate (bus.windows.map Window.summary)
  s!"DeviceBus \x7b devices: [{ids}], mappings: [{windows}] \x7d"

end Bus

end WordMachine
