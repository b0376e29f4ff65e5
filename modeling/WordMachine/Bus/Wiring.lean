import WordMachine.Bus.Basic
import WordMachine.Processor.Basic

/-!
# Bus/Wiring — memory cells that stand for device registers

The world behind a wired memory is a bus, and the observers are wires: a `register` wire leads to one
register of the device in a slot, and a `screen` wire tells a display that a word of its picture was
stored. `attach` puts a register wire at every address of every window.

A device that ticks or takes a key is busy until the interrupt it asked for has been delivered. The
words pushed for that interrupt may land in its own window; they are stored and the device is not
told.
-/

namespace WordMachine

/-- What leads from a memory cell to the bus. -/
inductive Wire where
  /-- To a register of the device in a slot. -/
  | register (slot : Slot) (number : Word)
  /-- To the display in a slot, whose picture the cell is part of. -/
  | screen (slot : Slot)
  deriving DecidableEq, Repr

namespace Wire

/-- A store at the cell of a register is a write to the register. -/
def onWrite (wire : Wire) (w : Word) (bus : Bus) : Bus :=
  match wire with
  | register slot number =>
    if bus.isBusy slot then bus.note .writeIgnored
    else
      match bus.devices[slot]? with
      | some device => bus.setDevice slot (device.write number w)
      | none => bus
  | screen slot =>
    match bus.isBusy slot, bus.devices[slot]? with
    | false, some (.display d) => bus.setDevice slot (.display d.markDirty)
    | _, _ => bus

/-- A read at the cell of a register is a read of the register. -/
def onRead (wire : Wire) (bus : Bus) : Option Word × Bus :=
  match wire with
  | register slot number =>
    if bus.isBusy slot then (none, bus.note .readFromMemory)
    else
      match bus.devices[slot]? with
      | some device =>
        match device.read number with
        | (w, device) => (some w, bus.setDevice slot device)
      | none => (none, bus)
  | screen _ => (none, bus)

instance : Observer Wire Bus := ⟨onWrite, onRead⟩

end Wire

namespace Bus

/-- A processor whose memory is wired to a bus. -/
abbrev Board := Processor Wire Bus

/-- What a board does. -/
abbrev Board.Action (α : Type) := Processor.Action Wire Bus α

/-- The addresses and wires of a window, for the device in a slot. -/
def registerWires (window : Window) (slot : Slot) : List (Nat × Wire) :=
  (List.range window.length.toNat).map fun number =>
    (window.base.toNat + number, .register slot (UInt16.ofNat number))

/-- The addresses and wires of all windows whose device is registered. -/
def allWires (bus : Bus) : List (Nat × Wire) :=
  bus.windows.flatMap fun window =>
    match bus.slot? window.hardwareId with
    | some slot => registerWires window slot
    | none => []

/-- Put a register wire at every address of every window, up to the first address without a cell. -/
def attach : Memory.Access Wire Bus Unit := fun s =>
  (s.2.allWires.forM fun (addr, wire) => Memory.watch addr wire) s

/-- Change the bus. -/
@[inline]
def modify (f : Bus → Bus) : Board.Action Unit
  | ⟨regs, mem, bus, cycles, last⟩ => .ok () ⟨regs, mem, f bus, cycles, last⟩

/-- Look something up on the bus. -/
@[inline]
def ofBus {α : Type} (f : Bus → α) : Board.Action α := fun board => .ok (f board.world) board

/-- The same board with other devices in the middle of an action. -/
def setBusy (busy : List Slot) (board : Board) : Board :=
  match board with
  | ⟨regs, mem, bus, cycles, last⟩ => ⟨regs, mem, { bus with busy }, cycles, last⟩

/-- Do `act` while nothing can reach the device in a slot. -/
def withBusy {α : Type} (slot : Slot) (act : Board.Action α) : Board.Action α := fun board =>
  let before := board.world.busy
  match act (setBusy (slot :: before) board) with
  | .ok a board => .ok a (setBusy before board)
  | .error e board => .error e (setBusy before board)

/-- Deliver the interrupt that the device in a slot asked for, if it did. -/
def deliver (slot : Slot) : (request : Option Word) → Board.Action Unit
  | none => return
  | some message => do
    let _ ← withBusy slot (Processor.interrupt message)

/-- Let the device in a slot tick at time `now`. -/
def tickSlot (now : Nat) (slot : Slot) : Board.Action Unit := do
  if ← ofBus (·.isBusy slot) then
    modify fun bus => bus.note .tickSkipped
  else
    match ← ofBus (·.devices[slot]?) with
    | none => return
    | some device =>
      match device.tick now with
      | (device, request) =>
        modify fun bus => bus.setDevice slot device
        deliver slot request

/-- Let every registered device tick at time `now`, in order of registration, up to the first
fault. -/
def tick (now : Nat) : Board.Action Unit := do
  (← ofBus (·.registry)).forM fun entry => tickSlot now entry.2

/-- Let a clock in a slot tick at time `now` if its period has passed, and say whether it has. -/
def pollClock (now : Nat) (slot : Slot) : Board.Action Bool := do
  match ← ofBus (·.devices[slot]?) with
  | some (.clock c) =>
    match c.tick? now with
    | none => return false
    | some c =>
      modify fun bus => bus.setDevice slot (.clock c)
      deliver slot c.request
      return true
  | _ => return false

/-- Press a key of the keyboard in a slot, and say whether it was up before. -/
def pressKey (slot : Slot) (code : Word) : Board.Action Bool := do
  match ← ofBus (·.devices[slot]?) with
  | some (.keyboard k) =>
    match k.press? code with
    | none => return false
    | some k =>
      modify fun bus => bus.setDevice slot (.keyboard k)
      deliver slot k.request
      return true
  | _ => return false

/-- Let go a key of the keyboard in a slot. -/
def releaseKey (bus : Bus) (slot : Slot) (code : Word) : Bus :=
  match bus.devices[slot]? with
  | some (.keyboard k) => bus.setDevice slot (.keyboard (k.release code))
  | _ => bus

end Bus

end WordMachine
