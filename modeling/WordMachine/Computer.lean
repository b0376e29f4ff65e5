import WordMachine.Assembly.Program
import WordMachine.Bus.Wiring
import WordMachine.Config
import WordMachine.Disassembly
import WordMachine.Image

/-!
# Computer — the machine as a whole

A computer is a board with a clock, a keyboard and a display on its bus, their registers wired into
memory where the configuration puts them. The cells that hold the display's picture carry screen
wires; `rewire` moves these when the display has been pointed elsewhere, and puts the wires of the
registers back where the two overlap.

Time passes only when the computer is told so (`advance`).
-/

namespace WordMachine

open Bus (Board)

structure Computer where
  board : Board
  config : Config
  /-- The picture whose cells carry screen wires. -/
  watched : Option Span := none
  /-- The time in nanoseconds. -/
  now : Nat := 0

namespace Computer

/-- The slots of the three devices, which are registered in this order. -/
def clockSlot : Slot := 0

@[inherit_doc clockSlot]
def keyboardSlot : Slot := 1

@[inherit_doc clockSlot]
def displaySlot : Slot := 2

/-- Why a computer cannot do what it is asked to. -/
inductive Error where
  | assembly (e : Assembly.Error)
  | fault (e : Processor.Fault)
  | memory (e : Memory.Error)
  | bus (e : Bus.Error)
  | image (e : Image.Error)
  | config (e : Config.Error)
  deriving DecidableEq, Repr

def Error.message : Error → String
  | assembly e => s!"assembly failed: {e.message}"
  | fault e => s!"cpu fault: {e.message}"
  | memory e => s!"memory error: {e.message}"
  | bus e => s!"bus error: {e.message}"
  | image e => s!"image error: {e.message}"
  | config e => s!"config error: {e.message}"

/-- What a computer does. It keeps what it has done also where it ends with an error. -/
abbrev Action (α : Type) := EStateM Error Computer α

/-! ## Looking at a computer -/

def regs (c : Computer) : Registers := c.board.regs

def mem (c : Computer) : Memory Wire := c.board.mem

def cycles (c : Computer) : Nat := c.board.cycles

def clock (c : Computer) : Clock :=
  match c.board.world.devices[clockSlot]? with
  | some (.clock k) => k
  | _ => .ofRate c.config.clockRate 0

def keyboard (c : Computer) : Keyboard :=
  match c.board.world.devices[keyboardSlot]? with
  | some (.keyboard k) => k
  | _ => {}

def display (c : Computer) : Display :=
  match c.board.world.devices[displaySlot]? with
  | some (.display d) => d
  | _ => {}

/-! ## Acting on the parts -/

/-- What the board does, as an action of the computer. -/
@[inline]
def onBoard {α : Type} (act : Board.Action α) : Action α
  | ⟨board, config, watched, now⟩ =>
    match act board with
    | .ok a board => .ok a ⟨board, config, watched, now⟩
    | .error e board => .error (.fault e) ⟨board, config, watched, now⟩

/-- What is done to the memory, as an action of the computer; its errors are wrapped by `wrap`. -/
@[inline]
def onMemory {α : Type} (wrap : Memory.Error → Error) (access : Memory.Access Wire Bus α) :
    Action α
  | ⟨⟨regs, mem, bus, cycles, last⟩, config, watched, now⟩ =>
    match access (mem, bus) with
    | .ok a (mem, bus) => .ok a ⟨⟨regs, mem, bus, cycles, last⟩, config, watched, now⟩
    | .error e (mem, bus) => .error (wrap e) ⟨⟨regs, mem, bus, cycles, last⟩, config, watched, now⟩

/-- Change the bus. -/
def onBus (f : Bus → Bus) : Computer → Computer
  | ⟨⟨regs, mem, bus, cycles, last⟩, config, watched, now⟩ =>
    ⟨⟨regs, mem, f bus, cycles, last⟩, config, watched, now⟩

/-! ## Building -/

/-- The bus with the three devices at their places. -/
def wiredBus (config : Config) : Except Bus.Error Bus := do
  let bus : Bus := {}
  let bus := bus.register (.clock (.ofRate config.clockRate 0))
  let bus := bus.register (.keyboard {})
  let bus := bus.register (.display {})
  let (_, bus) ← bus.map Clock.hardwareId config.clockBase
  let (_, bus) ← bus.map Keyboard.hardwareId config.keyboardBase
  let (_, bus) ← bus.map Display.hardwareId config.displayBase
  return bus

/-- The computer of a configuration, at time 0. -/
def ofConfig (config : Config) : Except Error Computer := do
  match config.validate with
  | .error e => throw (.config e)
  | .ok () =>
    match wiredBus config with
    | .error e => throw (.bus e)
    | .ok bus =>
      match Bus.attach (.ofCapacity config.memoryWords.toNat, bus) with
      | .error e _ => throw (.bus (.memory e))
      | .ok () (mem, bus) => return { board := .ofMemory mem bus, config }

/-! ## Running -/

/-- Move the screen wires from one picture to another, within the memory. -/
def moveScreen (before after : Option Span) (mem : Memory Wire) : Memory Wire :=
  let mem :=
    match before with
    | some span => mem.setObservers span.start span.stop none
    | none => mem
  match after with
  | some span => mem.setObservers span.start span.stop (some (.screen displaySlot))
  | none => mem

/-- Let the screen wires follow the display. -/
def rewire : Action Unit := fun c =>
  let window := c.display.window?
  if window = c.watched then .ok () c
  else
    match c with
    | ⟨⟨regs, mem, bus, cycles, last⟩, config, watched, now⟩ =>
      let mem := moveScreen watched window mem
      onMemory (fun e => .bus (.memory e)) Bus.attach
        ⟨⟨regs, mem, bus, cycles, last⟩, config, window, now⟩

/-- Registers and count as at the start. Memory and devices are kept. -/
def reset : Computer → Computer
  | ⟨board, config, watched, now⟩ => ⟨board.reset, config, watched, now⟩

/-- Load words at address 0 and reset the processor. -/
def loadImage (words : List Word) : Action Unit := do
  onMemory .memory (Memory.load 0 words)
  modify reset
  rewire

/-- Assemble a source text, load it and say how many words it has. -/
def loadAssembly (source : Text) : Action Nat := do
  match Assembly.assemble? source with
  | .error e => throw (.assembly e)
  | .ok program =>
    loadImage program.words
    return program.words.length

/-- Let every device tick once. -/
def tickDevices : Action Unit := do
  let now := (← get).now
  onBoard (Bus.tick now)
  rewire

/-- Execute `n` instructions, then let every device tick once. -/
def run (n : Nat) : Action Unit := do
  onBoard (Processor.exec n)
  tickDevices

/-- Execute the instructions of a frame, then let every device tick once. -/
def runFrame : Action Unit := do
  run (← get).config.cyclesPerFrame.toNat

/-- Execute one instruction. The devices do not tick. -/
def step : Action Instruction := do
  let i ← onBoard Processor.step
  rewire
  return i

/-- Press a key, and say whether it was up before. -/
def keyDown (code : Word) : Action Bool := onBoard (Bus.pressKey keyboardSlot code)

/-- Let a key go. -/
def keyUp (code : Word) (c : Computer) : Computer :=
  c.onBus fun bus => bus.releaseKey keyboardSlot code

/-- Whether the picture has changed since this was asked last. -/
def takeDirty (c : Computer) : Bool × Computer :=
  match c.board.world.devices[displaySlot]? with
  | some (.display d) =>
    (d.dirty, c.onBus fun bus => bus.setDevice displaySlot (.display d.markClean))
  | _ => (false, c)

/-- Let time pass. -/
def advance (nanoseconds : Nat) (c : Computer) : Computer := { c with now := c.now + nanoseconds }

/-- The device and register behind an address. -/
def route? (c : Computer) (addr : Word) : Option (Device × Word) := do
  let (slot, register) ← c.board.world.route? addr
  return (← c.board.world.devices[slot]?, register)

end Computer

end WordMachine
