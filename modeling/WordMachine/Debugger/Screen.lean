import WordMachine.Debugger.Basic
import WordMachine.Debugger.Panel

/-!
# Debugger/Screen — what the debugger shows

The screen has two columns of equal width. On the left are the instructions from PC on, the registers
and the status line; on the right are memory, the devices and the keys. The first box of a column takes
the rows that the others leave.
-/

namespace WordMachine

namespace Debugger

/-- The line of an instruction: a dot at a breakpoint, an arrow at PC. -/
def instructionLine (d : Debugger) (addr : Word) (text : Text) (isCurrent : Bool) : Row × Color :=
  let isBreakpoint := d.breakpoints.contains addr
  let dot := if isBreakpoint then "●" else " "
  let arrow := if isCurrent then "▶ " else "  "
  let color : Color := if isCurrent then .yellow else if isBreakpoint then .red else .unset
  (colored color s!"{dot} {arrow}{hex addr}: {String.ofList text}", color)

def instructionsBox (d : Debugger) (width height : Nat) : Panel :=
  let lines := (d.disassembly (height - 2)).map fun (addr, text, isCurrent) =>
    d.instructionLine addr text isCurrent
  box width height .cyan .unset " Disassembly " lines

/-- A row of general registers. -/
def generalLine (regs : Registers) (rs : List Register) : Row :=
  rs.flatMap fun r =>
    plain s!"{r.letter}: " ++ colored .white s!"{hex (regs.get r)}   "

/-- The row of the other registers. -/
def specialLine (regs : Registers) : Row :=
  plain "PC: " ++ colored .yellow (hex regs.pc) ++
    plain "   SP: " ++ colored .white (hex regs.sp) ++
    plain "   EX: " ++ colored (if regs.ex ≠ 0 then .red else .gray) (hex regs.ex) ++
    plain "   IA: " ++ colored .white (hex regs.ia)

/-- The row with the cycle count and whether the machine runs. -/
def stateLine (d : Debugger) : Row :=
  plain "Cycles: " ++ colored .cyan (toString d.computer.cycles) ++ plain "   State: " ++
    (if d.running then colored .green "running" else colored .red "stopped")

def registersBox (d : Debugger) (width height : Nat) : Panel :=
  let regs := d.computer.regs
  box width height .green .unset " Registers " (.ofRows [
    generalLine regs (Register.all.take 4), generalLine regs (Register.all.drop 4),
    specialLine regs, d.stateLine])

def statusBox (d : Debugger) (width height : Nat) : Panel :=
  uniformBox width height .white " Status " [d.status]

/-- The colour of a word of memory: where PC points, where SP points, not zero, zero. -/
def wordColor (d : Debugger) (addr : Nat) (w : Word) : Color :=
  if addr = d.pc.toNat then .yellow
  else if addr = d.computer.regs.sp.toNat then .magenta
  else if w ≠ 0 then .white
  else .darkGray

/-- A row of memory. -/
def memoryLine (d : Debugger) (addr : Nat) (words : List Word) : Row :=
  colored .darkGray s!"{Numeral.hexString 4 addr}: " ++
    (words.zipIdx addr).flatMap fun (w, place) => colored (d.wordColor place w) s!"{hex w} "

def memoryBox (d : Debugger) (width height : Nat) : Panel :=
  let rows := (d.memoryRows (height - 2)).map fun (addr, words) => d.memoryLine addr words
  box width height .magenta .unset s!" Memory ({wordsPerRow} words/row) " (.ofRows rows)

def devicesBox (d : Debugger) (width height : Nat) : Panel :=
  let clock := d.computer.clock
  let keyboard := d.computer.keyboard
  let display := d.computer.display
  let capturing := if d.capturing then " (capturing)" else ""
  let dirty := if display.dirty then "  dirty" else ""
  let border := Numeral.hexString 1 display.border.toNat
  box width height .blue .unset " Devices " (.ofRows [
    plain s!"Clock: {clock.rate} Hz, {clock.ticks} ticks",
    plain s!"Keyboard: {keyboard.pending} pending{capturing}",
    plain s!"Display: vram {hex display.vram}  border {border}{dirty}"])

def helpBox (width height : Nat) : Panel :=
  uniformBox width height .darkGray " Help " [
    "s: Step  r: Run  p: Pause  b: Breakpoint  x: Reset",
    "Tab: Type into machine (Esc releases)",
    "↑↓ PgUp PgDn: Scroll memory  q: Quit"]

/-- The screen, at a width that is even and a height of 20 rows at least. -/
def screen (d : Debugger) (width height : Nat) : Panel :=
  let half := width / 2
  let left := d.instructionsBox half (height - 10) ++ d.registersBox half 7 ++ d.statusBox half 3
  let right := d.memoryBox half (height - 10) ++ d.devicesBox half 5 ++ helpBox half 5
  beside left right

end Debugger

end WordMachine
