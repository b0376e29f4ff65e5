import WordMachine.CommandLine.Arguments
import WordMachine.CommandLine.Execution
import WordMachine.CommandLine.Host
import WordMachine.CommandLine.SelfTest

/-!
# CommandLine/Basic — carrying out commands

A command prints what it does and ends early, with a complaint and an exit code, where it cannot go
on. Programs whose name ends in `.asm` are source texts, all others are images.
-/

namespace WordMachine

namespace CommandLine

variable {m : Type → Type} [Monad m] [Host m]

/-- What a command does: it may end early with an exit code. -/
abbrev Shell (m : Type → Type) := ExceptT UInt8 m

def print (line : String) : Shell m Unit := ExceptT.lift (Host.print line)

def blankLine : Shell m Unit := print ""

/-- Complain and end. -/
def failWith {α : Type} (context reason : String) : Shell m α := do
  ExceptT.lift (Host.complain s!"❌ {context}: {reason}")
  throw 1

/-- The contents of a source file. -/
def readSource (name : String) : Shell m Text := do
  match ← ExceptT.lift (Host.readFile name) with
  | .ok source => return source
  | .error e => failWith "Failed to read file" e.message

/-- The program of a source file. -/
def assembleFile (name : String) : Shell m Assembly.Program := do
  match Assembly.assemble? (← readSource name) with
  | .ok program => return program
  | .error e => failWith "Assembly error" e.message

/-- The words of an image file. -/
def readImage (name : String) : Shell m (List Word) := do
  let result : Except Image.Error (List Word) :=
    match ← ExceptT.lift (Host.readFile name) with
    | .ok text => Image.parse text
    | .error e => .error (.io e.message)
  match result with
  | .ok words => return words
  | .error e => failWith "Failed to load image" e.message

/-- The ending of the names of source files. -/
def sourceEnding : Text := ['.', 'a', 's', 'm']

/-- A name without the ending of source files, if it has it. -/
def stem? (name : String) : Option Text :=
  (Text.after? name.toList.reverse sourceEnding.reverse).map List.reverse

/-- The words of a program file, of which there must be one at least. -/
def loadWords (name : String) (announced : Bool) : Shell m (List Word) := do
  let words ←
    if (stem? name).isSome then do
      let program ← assembleFile name
      if announced then
        print s!"📝 Assembled {program.words.length} words"
      pure program.words
    else do
      let words ← readImage name
      if announced then
        print s!"📂 Loaded {words.length} words"
      pure words
  if words.isEmpty then
    failWith "Nothing to execute" name
  return words

/-- The configuration of a file, or the default one. -/
def readConfig : Option String → Shell m Config
  | none => return {}
  | some name => do
    let result : Except Config.Error Config :=
      match ← ExceptT.lift (Host.readFile name) with
      | .ok text => Config.ofJson text
      | .error e => .error (.io e.message)
    match result with
    | .ok config => return config
    | .error e => failWith "Failed to load config" e.message

/-- A computer of a configuration with words loaded. -/
def buildComputer (config : Config) (words : List Word) : Shell m Computer := do
  match Computer.ofConfig config with
  | .error e => failWith "Failed to build machine" e.message
  | .ok computer =>
    match Computer.loadImage words computer with
    | .ok () computer => return computer
    | .error e _ => failWith "Failed to load program" e.message

/-- Print how a run has ended. -/
def printResult (maxCycles : Nat) (e : Execution) : Shell m Unit := do
  blankLine
  print "━━━ Result ━━━"
  print s!"Cycles: {e.computer.cycles}"
  print s!"Registers: {e.computer.regs.toLine}"
  print s!"Clock ticks: {e.computer.clock.ticks}"
  if maxCycles ≤ e.computer.cycles then
    blankLine
    print s!"⚠️  Reached max cycles limit ({maxCycles}). Use --max-cycles to increase."

/-- Run a program. -/
def run (options : RunOptions) : Shell m Unit := do
  if !options.json then
    print s!"🔧 Running: {options.program}"
  let words ← loadWords options.program (!options.json)
  let config ← readConfig options.config
  let computer ← buildComputer config words
  if !options.json then
    blankLine
    print "━━━ Execution ━━━"
  let e := Execution.ofComputer options.trace options.maxCycles computer
  e.trace.forM print
  if options.json then
    print (String.ofList e.report.pretty)
  else
    printResult options.maxCycles e
  match e.fault with
  | none => return
  | some fault =>
    let place := String.ofList (Numeral.hex4 e.computer.regs.pc)
    failWith s!"CPU fault at PC={place}" fault.message

/-- The image file of a source file. -/
def imageName (source : String) : String :=
  String.ofList ((stem? source).getD source.toList ++ ['.', 'h', 'e', 'x'])

/-- Assemble a source file to an image file. -/
def assembleTo (source : String) (output : Option String) : Shell m Unit := do
  let output := output.getD (imageName source)
  print s!"📝 Assembling: {source} → {output}"
  let program ← assembleFile source
  print s!"✓ Assembled {program.words.length} words"
  match ← ExceptT.lift (Host.writeFile output (Image.format program.words)) with
  | .ok () => print s!"✓ Saved to {output}"
  | .error e => failWith "Failed to save image" (Image.Error.io e.message).message

/-- Show the instructions of an image file. -/
def disassemble (name : String) : Shell m Unit := do
  print s!"📖 Disassembling: {name}"
  blankLine
  let words ← readImage name
  print (String.ofList (Disassembly.listing words))

/-- Carry out the checks of the self-test. -/
def selfTest : Shell m Unit := do
  print "━━━ dcpu-emu Self-Test ━━━"
  blankLine
  checks.forM fun (name, ok) =>
    let mark := if ok then "✓" else "✗"
    print s!"{name}... {mark}"
  let passed := (checks.filter (·.2)).length
  let failed := checks.length - passed
  blankLine
  print "━━━━━━━━━━━━━━━━━━━━━━━━━━━━━━"
  print s!"Results: {passed} passed, {failed} failed"
  if failed = 0 then
    print "✓ All tests passed!"
  else
    throw 1

/-- Say what this program is. -/
def banner : Shell m Unit := do
  print "dcpu-emu v0.1.0"
  print "A 16-bit virtual computer"
  blankLine
  print "Use --help for available commands"

/-- Say which version this program is. -/
def version : Shell m Unit := print "dcpu-emu 0.1.0"

/-- Carry out a command. -/
def perform : Command → Shell m Unit
  | .banner => banner
  | .version => version
  | .run options => run options
  | .assemble source output => assembleTo source output
  | .disassemble image => disassemble image
  | .selfTest => selfTest

/-- Carry out a command line, and give the exit code. -/
def performWords (words : List String) : m UInt8 := do
  match command? words with
  | none =>
    Host.complain "error: the command line does not fit any command"
    return 2
  | some command =>
    match ← (perform command).run with
    | .ok () => return 0
    | .error code => return code

end CommandLine

end WordMachine
