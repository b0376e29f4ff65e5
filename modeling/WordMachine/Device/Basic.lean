import WordMachine.Device.Clock
import WordMachine.Device.Display
import WordMachine.Device.Keyboard
import WordMachine.Device.RegisterBank

/-!
# Device/Basic — what all devices have in common

A device has a hardware identifier, a window of registers numbered from 0, and a tick. A tick
changes the device first and may then ask for an interrupt.
-/

namespace WordMachine

inductive Device where
  | clock (c : Clock)
  | keyboard (k : Keyboard)
  | display (d : Display)
  | bank (b : RegisterBank)
  deriving DecidableEq, Repr

namespace Device

def hardwareId : Device → UInt32
  | clock _ => Clock.hardwareId
  | keyboard _ => Keyboard.hardwareId
  | display _ => Display.hardwareId
  | bank b => b.hardwareId

def name : Device → String
  | clock _ => "clock"
  | keyboard _ => "keyboard"
  | display _ => "display"
  | bank _ => "scratch"

/-- The number of registers. -/
def registerCount : Device → Word
  | clock _ => Clock.registerCount
  | keyboard _ => Keyboard.registerCount
  | display _ => Display.registerCount
  | bank b => b.registerCount

/-- The word in a register, and the device after it has been read. -/
def read (register : Word) : Device → Word × Device
  | clock c => (c.read register, clock c)
  | keyboard k =>
    match k.read register with
    | (w, k) => (w, keyboard k)
  | display d => (d.read register, display d)
  | bank b => (b.read register, bank b)

/-- The device after a word has been written to a register. -/
def write (register value : Word) : Device → Device
  | clock c => clock (c.write register value)
  | keyboard k => keyboard (k.write register value)
  | display d => display (d.write register value)
  | bank b => bank (b.write register value)

/-- The device after a tick at time `now`, and the message it asks to interrupt with. -/
def tick (now : Nat) : Device → Device × Option Word
  | clock c =>
    match c.tick? now with
    | some c => (clock c, c.request)
    | none => (clock c, none)
  | keyboard k => (keyboard k, none)
  | display d => (display d, none)
  | bank b => (bank b.tick, b.request)

end Device

end WordMachine
