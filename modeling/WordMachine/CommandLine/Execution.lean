import WordMachine.Computer
import WordMachine.Json.Printer

/-!
# CommandLine/Execution — running a program for a number of instructions

The devices tick once after every frame of instructions. The run ends early at the first fault of an
instruction or of a device. `Execution.report` is the state at the end as JSON.
-/

namespace WordMachine

namespace CommandLine

/-- How a run has ended. -/
structure Execution where
  computer : Computer
  fault : Option Computer.Error
  /-- A line for each instruction, if the run was traced. -/
  trace : Array String

/-- The trace line of an instruction at `pc`, after it was executed. -/
def traceLine (pc : Word) (c : Computer) : String :=
  let text := (Disassembly.ofWords (c.mem.window pc 3)).1
  let place := String.ofList (Numeral.hex4 pc)
  s!"{place}: {String.ofList (Disassembly.padRight 24 text)} {c.regs.toLine}"

/-- Execute `remaining` instructions after `executed` others, in frames of `frame`. -/
def execute (traced : Bool) (frame : Nat) :
    (remaining executed : Nat) → Array String → Computer → Execution
  | 0, _, lines, c => ⟨c, none, lines⟩
  | remaining + 1, executed, lines, c =>
    let pc := c.regs.pc
    match Computer.step c with
    | .error e c => ⟨c, some e, lines⟩
    | .ok _ c =>
      let lines := if traced then lines.push (traceLine pc c) else lines
      if (executed + 1) % frame = 0 then
        match Computer.tickDevices c with
        | .error e c => ⟨c, some e, lines⟩
        | .ok () c => execute traced frame remaining (executed + 1) lines c
      else execute traced frame remaining (executed + 1) lines c

/-- Run a loaded computer for up to `maxCycles` instructions. A frame has one at least. -/
def Execution.ofComputer (traced : Bool) (maxCycles : Nat) (c : Computer) : Execution :=
  execute traced (max c.config.cyclesPerFrame.toNat 1) maxCycles 0 #[] c

/-- The registers as a JSON object. -/
def registersJson (regs : Registers) : Json :=
  let word (w : Word) : Json := .natural w.toNat
  .object [
    ("gp".toList, .array (regs.general.toList.map word)), ("pc".toList, word regs.pc),
    ("sp".toList, word regs.sp), ("ex".toList, word regs.ex), ("ia".toList, word regs.ia)]

/-- The state at the end of a run as a JSON object. -/
def Execution.report (e : Execution) : Json :=
  .object [
    ("cycles".toList, .natural e.computer.cycles),
    ("registers".toList, registersJson e.computer.regs),
    ("clock_ticks".toList, .natural e.computer.clock.ticks.toNat),
    ("pending_keys".toList, .natural e.computer.keyboard.pending),
    ("fault".toList, match e.fault with
      | some fault => .string fault.message.toList
      | none => .null)]

end CommandLine

end WordMachine
