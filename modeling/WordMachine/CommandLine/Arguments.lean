import WordMachine.Text.Numeral

/-!
# CommandLine/Arguments — what the words of a command line ask for

Options may stand before or after the operand of a command. A long option takes its value from the
next word or after `=`. Short options can stand together behind one dash; the last of them may have
its value right behind it. After `--` all words are operands.

The commands, their options and what these are when left out are the program's own. How words are
taken apart (`shorts`, `ofWord`, `parts`, `leading?`) follows the behaviour of a third-party parser
of command lines that is no part of the program's source.
-/

namespace WordMachine

namespace CommandLine

/-- What to run, and how to report on it. -/
structure RunOptions where
  program : String
  maxCycles : Nat := 10000
  trace : Bool := false
  json : Bool := false
  config : Option String := none
  deriving DecidableEq, Repr

inductive Command where
  /-- Say what this program is. -/
  | banner
  /-- Say which version this program is. -/
  | version
  /-- Run a program for so many instructions. -/
  | run (options : RunOptions)
  /-- Assemble a source file to an image file. -/
  | assemble (source : String) (output : Option String)
  /-- Show the instructions of an image file. -/
  | disassemble (image : String)
  /-- Check the machine on a few programs. -/
  | selfTest
  deriving DecidableEq, Repr

/-- An option of a command. -/
structure Choice where
  long : String
  short : Option Char := none
  takesValue : Bool := false
  deriving DecidableEq, Repr

/-- A part of a command line. -/
inductive Part where
  | flag (long : String)
  | value (long value : String)
  | operand (word : String)
  deriving DecidableEq, Repr

def verbose : Choice := { long := "verbose", short := 'v' }

def runChoices : List Choice := [
  verbose, { long := "max-cycles", short := 'm', takesValue := true },
  { long := "trace", short := 't' }, { long := "json" },
  { long := "config", short := 'c', takesValue := true }]

def assembleChoices : List Choice := [
  verbose, { long := "output", short := 'o', takesValue := true }]

/-- Short options that stand together, and whether the last one still needs its value. -/
def shorts (choices : List Choice) : List Char → Option (List Part × Option Choice)
  | [] => some ([], none)
  | c :: rest => do
    let choice ← choices.find? fun choice => choice.short == some c
    if choice.takesValue then
      match rest with
      | [] => return ([], some choice)
      | '=' :: value => return ([.value choice.long (String.ofList value)], none)
      | value => return ([.value choice.long (String.ofList value)], none)
    else
      let (parts, open_) ← shorts choices rest
      return (.flag choice.long :: parts, open_)

/-- The parts of one word, and the option that takes the next word as its value. -/
def ofWord (choices : List Choice) (word : String) : Option (List Part × Option Choice) := do
  match word.toList with
  | '-' :: '-' :: long =>
    let name := String.ofList (Text.upTo '=' long)
    let choice ← choices.find? fun choice => choice.long == name
    match long.dropWhile (· != '='), choice.takesValue with
    | [], true => return ([], some choice)
    | [], false => return ([.flag name], none)
    | _ :: value, true => return ([.value name (String.ofList value)], none)
    | _ :: _, false => none
  | '-' :: c :: rest => shorts choices (c :: rest)
  | _ => return ([.operand word], none)

/-- The parts of the words of a command line; `none` if they do not fit the options. -/
def parts (choices : List Choice) : List String → Option (List Part)
  | [] => some []
  | "--" :: rest => some (rest.map .operand)
  | word :: rest => do
    let (found, expecting) ← ofWord choices word
    match expecting, rest with
    | none, rest => return found ++ (← parts choices rest)
    | some choice, value :: rest =>
      if value.startsWith "-" ∧ value ≠ "-" then none
      else return found ++ .value choice.long value :: (← parts choices rest)
    | some _, [] => none

def operands (ps : List Part) : List String :=
  ps.filterMap fun
    | .operand word => some word
    | _ => none

def hasFlag (long : String) (ps : List Part) : Bool := ps.contains (.flag long)

/-- The value of an option, if it is given. -/
def value? (long : String) (ps : List Part) : Option String :=
  ps.findSome? fun
    | .value name value => if name = long then some value else none
    | _ => none

/-- Numbers of cycles have 64 bits. -/
def cyclesLimit : Nat := 0x10000000000000000

/-- The command that follows the name of a command. -/
def commandOf (name : String) (words : List String) : Option Command := do
  match name with
  | "run" =>
    let ps ← parts runChoices words
    let [program] := operands ps | none
    let maxCycles ←
      match value? "max-cycles" ps with
      | none => some 10000
      | some digits => Numeral.unsignedValue? 10 cyclesLimit digits.toList
    return .run {
      program, maxCycles, trace := hasFlag "trace" ps, json := hasFlag "json" ps
      config := value? "config" ps }
  | "asm" =>
    let ps ← parts assembleChoices words
    let [source] := operands ps | none
    return .assemble source (value? "output" ps)
  | "disasm" =>
    let ps ← parts [verbose] words
    let [image] := operands ps | none
    return .disassemble image
  | "test" =>
    let ps ← parts [verbose] words
    if (operands ps).isEmpty then return .selfTest else none
  | _ => none

/-- What the short options in front of a command ask for: `V` for the version, whatever follows it,
and otherwise, if all are `v`, for what the rest of the line asks for. -/
def leading? (onward : Option Command) : List Char → Option Command
  | [] => onward
  | 'V' :: _ => some .version
  | 'v' :: letters => leading? onward letters
  | _ => none

/-- The command that a command line asks for; `none` if it asks for none there is. -/
def command? : List String → Option Command
  | [] => some .banner
  | ["--"] => some .banner
  | "--version" :: _ => some .version
  | "--verbose" :: rest => command? rest
  | word :: rest =>
    match word.toList with
    | '-' :: letter :: letters => leading? (command? rest) (letter :: letters)
    | _ => commandOf word rest

end CommandLine

end WordMachine
