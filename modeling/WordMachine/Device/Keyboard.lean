import WordMachine.Word

/-!
# Device/Keyboard — a queue of pressed keys

A key that goes down joins the queue, unless it is down already: a key repeats only after it has
been let go.

| register | read                              | write               |
|----------|-----------------------------------|---------------------|
| 0        | takes the oldest key, 0 if none   | interrupt message   |
| 1        | the key pressed last              | empties the queue   |
| 2        | 1 while that key is down, else 0  | nothing             |
-/

namespace WordMachine

structure Keyboard where
  /-- Keys that wait to be read, the oldest first. -/
  queue : List Word := []
  lastKey : Word := 0
  /-- The keys that are down. -/
  held : List Word := []
  message : Word := 0
  deriving DecidableEq, Repr

namespace Keyboard

def hardwareId : UInt32 := 0x30CF7406

def registerCount : Word := 3

/-- How many keys wait to be read. -/
def pending (k : Keyboard) : Nat := k.queue.length

def isHeld (k : Keyboard) (code : Word) : Bool := k.held.contains code

/-- The keyboard after a key has gone down, or `none` if it was down already. -/
def press? (k : Keyboard) (code : Word) : Option Keyboard :=
  if k.isHeld code then none
  else some { k with queue := k.queue ++ [code], lastKey := code, held := code :: k.held }

/-- The keyboard after a key has been let go. The queue is kept. -/
def release (k : Keyboard) (code : Word) : Keyboard :=
  { k with held := k.held.filter (· != code) }

theorem isHeld_release (k : Keyboard) (code other : Word) :
    (k.release code).isHeld other = (other != code && k.isHeld other) := by
  by_cases h : other = code <;> simp [release, isHeld, h]

/-- The message that a pressed key interrupts with, if it is to interrupt. -/
def request (k : Keyboard) : Option Word := if k.message ≠ 0 then some k.message else none

def read (k : Keyboard) (register : Word) : Word × Keyboard :=
  if register = 0 then
    match k.queue with
    | [] => (0, k)
    | code :: queue => (code, { k with queue })
  else if register = 1 then (k.lastKey, k)
  else if register = 2 then (if k.isHeld k.lastKey then 1 else 0, k)
  else (0, k)

def write (k : Keyboard) (register value : Word) : Keyboard :=
  if register = 0 then { k with message := value }
  else if register = 1 then { k with queue := [] }
  else k

end Keyboard

end WordMachine
