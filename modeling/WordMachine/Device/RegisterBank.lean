import WordMachine.Word

/-!
# Device/RegisterBank — plain registers that interrupt on every tick

The simplest device: any number of registers that keep what is written and read one more than they
keep, and a message to interrupt with whenever it is ticked.
-/

namespace WordMachine

structure RegisterBank where
  hardwareId : UInt32
  registers : Array Word
  message : Word := 0
  ticks : UInt32 := 0
  deriving DecidableEq, Repr

namespace RegisterBank

/-- A bank of `count` registers that hold zero. -/
def ofCount (hardwareId : UInt32) (count message : Word) : RegisterBank where
  hardwareId
  registers := Array.replicate count.toNat 0
  message

def registerCount (b : RegisterBank) : Word := UInt16.ofNat b.registers.size

def tick (b : RegisterBank) : RegisterBank := { b with ticks := b.ticks + 1 }

/-- The message that a tick interrupts with, if it is to interrupt. -/
def request (b : RegisterBank) : Option Word := if b.message ≠ 0 then some b.message else none

/-- One more than the register keeps. A register that the bank does not have keeps 0. -/
def read (b : RegisterBank) (register : Word) : Word := b.registers.getD register.toNat 0 + 1

def write (b : RegisterBank) (register value : Word) : RegisterBank :=
  { b with registers := b.registers.setIfInBounds register.toNat value }

end RegisterBank

end WordMachine
