import WordMachine.Word

/-!
# Device/Clock — a programmable tick counter

A clock ticks at most once whenever it is looked at, and not before one period has passed since its
last tick. Times are in nanoseconds.

| register | read                     | write             |
|----------|--------------------------|-------------------|
| 0        | ticks, low word          | interrupt message |
| 1        | ticks, high word         | settings          |
| 2        | settings                 | rate in hertz     |

Bit 0 of the settings lets a tick raise an interrupt.
-/

namespace WordMachine

structure Clock where
  message : Word := 0
  settings : Word := 0
  /-- Ticks in a second, from 1 to 1000. -/
  rate : Word
  ticks : UInt32 := 0
  /-- When it ticked last, or was made. -/
  lastTick : Nat
  deriving DecidableEq, Repr

namespace Clock

def hardwareId : UInt32 := 0x12D0B402

def registerCount : Word := 3

/-- The rate of a clock that is given none. -/
def defaultRate : Word := 60

/-- The nearest rate that a clock can have. -/
def clampRate (rate : Word) : Word := max 1 (min rate 1000)

/-- A clock made at time `now`. -/
def ofRate (rate : Word) (now : Nat) : Clock := { rate := clampRate rate, lastTick := now }

/-- The least time between two ticks. -/
def period (c : Clock) : Nat := 1000000000 / c.rate.toNat

/-- The clock after a tick at time `now`, or `none` if it is too early for one. -/
def tick? (c : Clock) (now : Nat) : Option Clock :=
  if now - c.lastTick < c.period then none
  else some { c with ticks := c.ticks + 1, lastTick := now }

/-- The message that a tick interrupts with, if it is to interrupt. -/
def request (c : Clock) : Option Word :=
  if c.settings &&& 1 ≠ 0 ∧ c.message ≠ 0 then some c.message else none

def read (c : Clock) (register : Word) : Word :=
  if register = 0 then c.ticks.toUInt16
  else if register = 1 then (c.ticks >>> 16).toUInt16
  else if register = 2 then c.settings
  else 0

def write (c : Clock) (register value : Word) : Clock :=
  if register = 0 then { c with message := value }
  else if register = 1 then { c with settings := value }
  else if register = 2 then { c with rate := clampRate value }
  else c

end Clock

end WordMachine
