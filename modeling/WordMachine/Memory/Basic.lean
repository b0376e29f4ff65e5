import WordMachine.Text.Numeral
import WordMachine.Word

/-!
# Memory/Basic — word cells with one observer slot each

A `Memory ω` is a row of cells, each with room for one observer of type `ω`. Observers act on a
world of their own, of type `σ`, through the class `Observer`: a write to an observed cell is
reported to its observer after the store, and a read asks the observer first. They are given the
stored word and their world, never the memory, so a report cannot write to the memory again.

`read` and `write` are the observed accesses. `peek`, `load`, `clear` and `dump` go past the
observers.
-/

namespace WordMachine

/-- Observers of type `ω` that act on a world of type `σ`. -/
class Observer (ω : Type) (σ : outParam Type) where
  /-- The world after the observer has been told of a stored word. -/
  onWrite : ω → Word → σ → σ
  /-- The word to be read in place of the stored one, if the observer supplies one, and the world
  after it has been asked. -/
  onRead : ω → σ → Option Word × σ

/-- A row of cells, each with at most one observer. -/
structure Memory (ω : Type) where
  cells : Array Word
  observers : Array (Option ω)
  size_observers : observers.size = cells.size

namespace Memory

/-- Why a memory refuses an access. -/
inductive Error where
  /-- There is no cell at the address. -/
  | outOfRange (addr capacity : Nat)
  /-- More words than the cells from the load address on. -/
  | programTooLarge (size available : Nat)
  deriving DecidableEq, Repr

def Error.message : Error → String
  | .outOfRange addr capacity =>
    s!"memory address {Numeral.hexMarkedString 4 addr} out of range (capacity {capacity})"
  | .programTooLarge size available =>
    s!"program size {size} exceeds available space {available}"

variable {ω σ : Type}

/-- `capacity` cells that hold zero and are not observed. -/
def ofCapacity (capacity : Nat) : Memory ω where
  cells := Array.replicate capacity 0
  observers := Array.replicate capacity none
  size_observers := by simp

/-- The number of cells. -/
def capacity (m : Memory ω) : Nat := m.cells.size

/-- The stored word at an address. -/
def cell? (m : Memory ω) (addr : Nat) : Option Word := m.cells[addr]?

/-- The observer at an address. -/
def observer? (m : Memory ω) (addr : Nat) : Option ω := m.observers[addr]?.join

/-- Whether the address carries an observer; an address past the end does not. -/
def isWatched (m : Memory ω) (addr : Nat) : Bool := (m.observer? addr).isSome

/-- Store a word and tell nobody. Nothing happens past the end. -/
def store (m : Memory ω) (addr : Nat) (w : Word) : Memory ω where
  cells := m.cells.setIfInBounds addr w
  observers := m.observers
  size_observers := by simp [m.size_observers]

/-- Put an observer at an address, or take it away. Nothing happens past the end. -/
def setObserver (m : Memory ω) (addr : Nat) (observer : Option ω) : Memory ω where
  cells := m.cells
  observers := m.observers.setIfInBounds addr observer
  size_observers := by simp [m.size_observers]

/-- Put the same observer at every address from `start` up to `stop`, or take all of theirs away.
Addresses past the end are left out. -/
def setObservers (m : Memory ω) (start stop : Nat) (observer : Option ω) : Memory ω :=
  (List.range' start (min stop m.capacity - start)).foldl (fun m addr => m.setObserver addr observer)
    m

/-- Store the words in consecutive cells from `addr` on and tell nobody. -/
def storeAll (m : Memory ω) (addr : Nat) (words : List Word) : Memory ω :=
  (words.foldl (fun (m, addr) w => (m.store addr w, addr + 1)) (m, addr)).1

/-- Zero every cell. Observers stay. -/
def clear (m : Memory ω) : Memory ω where
  cells := Array.replicate m.cells.size 0
  observers := m.observers
  size_observers := by simp [m.size_observers]

/-- The cells with addresses from `start` on, at most `count` of them. -/
def dump (m : Memory ω) (start count : Nat) : List (Nat × Word) :=
  (List.range' start (min count (m.capacity - start))).filterMap fun addr =>
    (m.cell? addr).map fun w => (addr, w)

/-- The stored word at an address. -/
def peek (m : Memory ω) (addr : Nat) : Except Error Word :=
  match m.cell? addr with
  | some w => .ok w
  | none => .error (.outOfRange addr m.capacity)

/-- The stored words at addresses from `addr` on, at most `count` of them, where the address after
65535 is 0. Cells that the memory does not have are left out. -/
def window (m : Memory ω) (addr : Word) (count : Nat) : List Word :=
  (List.range count).filterMap fun i => m.cell? (addr + UInt16.ofNat i).toNat

/-- How many cells there are, how many are not zero and how many are observed. -/
def summary (m : Memory ω) : String :=
  let nonZero := m.cells.foldl (fun n w => if w != 0 then n + 1 else n) 0
  let watched := m.observers.foldl (fun n o => if o.isSome then n + 1 else n) 0
  s!"Memory \x7b non_zero_cells: {nonZero}, watched_cells: {watched}, total_cells: {m.capacity} \x7d"

/-! ## Accesses that can fail

An access acts on a memory and the world of its observers. One that fails has changed neither. -/

/-- What is done to a memory and to the world of its observers. -/
abbrev Access (ω σ α : Type) := EStateM Error (Memory ω × σ) α

/-- Do `act` if there is a cell at the address. -/
@[inline]
def within {α : Type} (addr : Nat) (act : Memory ω × σ → α × (Memory ω × σ)) : Access ω σ α :=
  fun s =>
    if addr < s.1.capacity then
      match act s with
      | (a, s) => .ok a s
    else
      .error (.outOfRange addr s.1.capacity) s

/-- Read a word: the observer's, if it supplies one, or else the stored one. -/
def read [Observer ω σ] (addr : Nat) : Access ω σ Word :=
  within addr fun (m, world) =>
    match m.observer? addr with
    | none => (m.cells.getD addr 0, m, world)
    | some observer =>
      match Observer.onRead observer world with
      | (supplied, world) => (supplied.getD (m.cells.getD addr 0), m, world)

/-- Store a number modulo 65536, then tell the observer. -/
def write [Observer ω σ] (addr value : Nat) : Access ω σ Unit :=
  within addr fun (m, world) =>
    match m.observer? addr with
    | none => ((), m.store addr (UInt16.ofNat value), world)
    | some observer =>
      ((), m.store addr (UInt16.ofNat value), Observer.onWrite observer (UInt16.ofNat value) world)

/-- Store words from `addr` on, where there must be a cell even for no words. Nobody is told. -/
def load (addr : Nat) (words : List Word) : Access ω σ Unit := fun s =>
  if addr < s.1.capacity then
    if words.length ≤ s.1.capacity - addr then
      match s with
      | (m, world) => .ok () (m.storeAll addr words, world)
    else
      .error (.programTooLarge words.length (s.1.capacity - addr)) s
  else
    .error (.outOfRange addr s.1.capacity) s

/-- Put an observer at an address, in the place of any other. -/
def watch (addr : Nat) (observer : ω) : Access ω σ Unit :=
  within addr fun (m, world) => ((), m.setObserver addr (some observer), world)

/-- Take away the observer at an address. -/
def unwatch (addr : Nat) : Access ω σ Unit :=
  within addr fun (m, world) => ((), m.setObserver addr none, world)

end Memory

end WordMachine
