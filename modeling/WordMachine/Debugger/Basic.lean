import WordMachine.Computer

/-!
# Debugger/Basic — stepping, breakpoints and views of a computer

A debugger holds a computer and the program it was loaded with. It steps, one instruction at a time,
or runs, a frame of instructions at every `tick`. Either way the devices tick once after every frame.
A run stops at a breakpoint, but only after a step, so that it can be taken up again from there.
What went wrong or well is told in the status line.
-/

namespace WordMachine

structure Debugger where
  computer : Computer
  /-- What a reset loads. -/
  program : List Word
  /-- The addresses to stop at, in ascending order. -/
  breakpoints : List Word := []
  running : Bool := false
  /-- Whether typed keys go to the machine. -/
  capturing : Bool := false
  status : String := "Ready. Press 's' to step, 'r' to run, 'q' to quit."
  /-- The first row of memory in view. -/
  memoryRow : Nat := 0
  /-- Instructions since the devices ticked last. -/
  sinceTick : Nat := 0

namespace Debugger

/-- Words in a row of the memory view. -/
def wordsPerRow : Nat := 8

/-- A word in four hexadecimal digits. -/
def hex (w : Word) : String := String.ofList (Numeral.hex4 w)

/-- Do something with the computer. -/
@[inline]
def onComputer {α : Type} (act : Computer.Action α) :
    Debugger → Except Computer.Error α × Debugger
  | ⟨computer, program, breakpoints, running, capturing, status, memoryRow, sinceTick⟩ =>
    match act computer with
    | .ok a computer =>
      (.ok a,
        ⟨computer, program, breakpoints, running, capturing, status, memoryRow, sinceTick⟩)
    | .error e computer =>
      (.error e,
        ⟨computer, program, breakpoints, running, capturing, status, memoryRow, sinceTick⟩)

def pc (d : Debugger) : Word := d.computer.regs.pc

/-- The instructions of a frame. -/
def frame (d : Debugger) : Nat := d.computer.config.cyclesPerFrame.toNat

/-- Let the devices tick. -/
def tickDevices (d : Debugger) : Debugger :=
  match d.onComputer Computer.tickDevices with
  | (.ok (), d) => { d with sinceTick := 0 }
  | (.error e, d) =>
    { d with sinceTick := 0, status := s!"Device error: {e.message}", running := false }

/-- Execute the instruction at `pc`, whose words are `window`, and let the devices tick if it ends a
frame. -/
@[noinline]
def stepShowing (pc : Word) (window : List Word) (d : Debugger) : Debugger :=
  match d.onComputer Computer.step with
  | (.ok _, d) =>
    let text := String.ofList (Disassembly.ofWords window).1
    let d := { d with status := s!"PC={hex pc}: {text}", sinceTick := d.sinceTick + 1 }
    if d.frame ≤ d.sinceTick then d.tickDevices else d
  | (.error e, d) => { d with status := s!"Error: {e.message}", running := false }

/-- Execute one instruction, and let the devices tick if it ends a frame. -/
def step (d : Debugger) : Debugger := stepShowing d.pc (d.computer.mem.window d.pc 3) d

/-- Start to run. -/
def run (d : Debugger) : Debugger := { d with running := true, status := "Running..." }

/-- Stop running. -/
def pause (d : Debugger) : Debugger :=
  { d with running := false, status := s!"Paused after {d.computer.cycles} cycles." }

/-- Execute up to `n` instructions of a run, and stop it at a breakpoint. -/
def runSteps : (n : Nat) → Debugger → Debugger
  | 0, d => d
  | n + 1, d =>
    let d := d.step
    if d.running then
      if d.breakpoints.contains d.pc then
        { d with running := false, status := s!"Breakpoint at PC={hex d.pc}" }
      else runSteps n d
    else d

/-- Execute a frame of a run, of one instruction at least. -/
def tick (d : Debugger) : Debugger := if d.running then runSteps (max d.frame 1) d else d

/-- Put an address into an ascending list, unless it is there. -/
def insertAddress (addr : Word) : List Word → List Word
  | [] => [addr]
  | first :: rest =>
    if addr < first then addr :: first :: rest
    else if addr = first then first :: rest
    else first :: insertAddress addr rest

theorem mem_insertAddress {addr other : Word} {addrs : List Word} :
    other ∈ insertAddress addr addrs ↔ other = addr ∨ other ∈ addrs := by
  induction addrs with
  | nil => simp [insertAddress]
  | cons first rest ih =>
    simp only [insertAddress]
    split
    · simp
    · split
      · next h => simp [h]
      · simp only [List.mem_cons, ih, or_left_comm]

/-- Stop at an address from now on. -/
def breakAt (d : Debugger) (addr : Word) : Debugger :=
  { d with breakpoints := insertAddress addr d.breakpoints }

/-- Stop at PC from now on, or no longer. -/
def toggleBreakpoint (d : Debugger) : Debugger :=
  if d.breakpoints.contains d.pc then
    { d with
      breakpoints := d.breakpoints.filter (· != d.pc)
      status := s!"Removed breakpoint at PC={hex d.pc}" }
  else
    { d.breakAt d.pc with status := s!"Set breakpoint at PC={hex d.pc}" }

/-- Load the program again and reset the processor. -/
def reset (d : Debugger) : Debugger :=
  let d := { d with running := false, sinceTick := 0 }
  match d.onComputer (Computer.loadImage d.program) with
  | (.ok (), d) => { d with status := "Reset. Ready." }
  | (.error e, d) => { d with status := s!"Reset failed: {e.message}" }

/-- Press a key and let it go. A press that fails leaves the key down. -/
def sendKey (d : Debugger) (code : Word) : Debugger :=
  match d.onComputer (Computer.keyDown code) with
  | (.ok _, d) =>
    let status := s!"Key {Numeral.hexMarkedString 4 code.toNat} sent"
    { d with computer := d.computer.keyUp code, status }
  | (.error e, d) => { d with status := s!"Error: {e.message}" }

/-- The rows that the memory fills, the last one perhaps in part. -/
def rowCount (d : Debugger) : Nat := (d.computer.mem.capacity + (wordsPerRow - 1)) / wordsPerRow

/-- Move the memory view down by `delta` rows, or up, as far as there are rows. -/
def scroll (d : Debugger) (delta : Int) : Debugger :=
  { d with memoryRow := min ((d.memoryRow : Int) + delta).toNat (d.rowCount - 1) }

/-- The instructions from PC on, at most `count` of them: address, text, and whether PC is there. -/
def disassembly (d : Debugger) (count : Nat) : List (Word × Text × Bool) :=
  (Disassembly.ofMemory d.computer.mem d.pc count).map fun (addr, text) =>
    (addr, text, addr == d.pc)

/-- The rows of a memory from `row` on, at most `count` of them and up to the first without a cell:
first address and words. -/
def rowsFrom {ω : Type} (m : Memory ω) : (count row : Nat) → List (Nat × List Word)
  | 0, _ => []
  | count + 1, row =>
    let addr := row * wordsPerRow
    if addr < m.capacity then
      (addr, (m.dump addr wordsPerRow).map (·.2)) :: rowsFrom m count (row + 1)
    else []

/-- The rows of the memory view, at most `count` of them. -/
def memoryRows (d : Debugger) (count : Nat) : List (Nat × List Word) :=
  rowsFrom d.computer.mem count d.memoryRow

end Debugger

end WordMachine
