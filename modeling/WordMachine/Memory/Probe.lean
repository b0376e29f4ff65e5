import WordMachine.Memory.Basic

/-!
# Memory/Probe — observers that write a log

Two observers to watch a memory with: a recorder, which only notes what is stored at its address,
and an echo, which in addition answers reads with the word stored last, some of its bits flipped.
-/

namespace WordMachine

/-- An observer that notes what is stored at its address. -/
inductive Probe where
  /-- Notes writes under a tag. -/
  | recorder (tag : String) (addr : Nat)
  /-- Notes writes under a tag and answers reads with its last word XOR `mask`. `place` is where the
  log keeps that word. -/
  | echo (tag : String) (place addr : Nat) (mask : Word)
  deriving DecidableEq, Repr

namespace Probe

/-- A stored word as an observer saw it. -/
structure Note where
  tag : String
  addr : Nat
  value : Word
  deriving DecidableEq, Repr

/-- What the probes have seen, and the last word of each echo. -/
structure Log where
  notes : Array Note := #[]
  held : Array Word := #[]

/-- A new echo, whose last word is zero until one is stored. -/
def newEcho (log : Log) (tag : String) (addr : Nat) (mask : Word) : Probe × Log :=
  (.echo tag log.held.size addr mask, { log with held := log.held.push 0 })

instance : Observer Probe Log where
  onWrite
    | recorder tag addr, w, log => { log with notes := log.notes.push ⟨tag, addr, w⟩ }
    | echo tag place addr _, w, log =>
      { log with
        notes := log.notes.push ⟨tag, addr, w⟩
        held := log.held.setIfInBounds place w }
  onRead
    | recorder _ _, log => (none, log)
    | echo _ place _ mask, log => (some (log.held.getD place 0 ^^^ mask), log)

end Probe

end WordMachine
