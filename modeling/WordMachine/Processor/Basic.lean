import WordMachine.Instruction.Basic
import WordMachine.Memory.Basic
import WordMachine.Processor.Alu

/-!
# Processor/Basic — fetch, decode, execute

A `Processor ω σ` is a register file and a memory whose observers act on a world of type `σ`. What it
does is an `Action`: it ends with an answer or with a `Fault`, and either way in a state, so that an
instruction that faults half-way keeps what it has done.

One `step` is one instruction. It reads the word at PC and refuses it, with nothing changed, if it
has no operation or would store into a literal. Otherwise it takes the operands' extra words, reads
the source, reads the destination unless the operation is SET, sets EX and stores the result.
-/

namespace WordMachine

/-- A register file, a memory, and the world behind the memory's observers. -/
structure Processor (ω σ : Type) where
  regs : Registers
  mem : Memory ω
  world : σ
  /-- Instructions completed since the last reset. -/
  cycles : Nat := 0
  /-- The instruction completed last. -/
  last : Option Instruction := none

namespace Processor

/-- Why an instruction or an interrupt did not complete. -/
inductive Fault where
  | memory (e : Memory.Error)
  | decode (e : Instruction.DecodeError)
  /-- The instruction at `pc` would store into the literal operand with this code. -/
  | illegalWrite (pc : Word) (operand : Fin 64)
  deriving DecidableEq, Repr

def Fault.message : Fault → String
  | .memory e => s!"memory error: {e.message}"
  | .decode e => s!"decode error: {e.message}"
  | .illegalWrite pc operand =>
    let code := Numeral.hexMarkedString 2 operand
    let place := Numeral.hexMarkedString 4 pc.toNat
    s!"illegal write to literal operand {code} at {place}"

variable {ω σ : Type}

/-- A processor in its initial state over a memory and a world. -/
def ofMemory (mem : Memory ω) (world : σ) : Processor ω σ := ⟨.initial, mem, world, 0, none⟩

/-- Registers, count and record as at the start. Memory and world are kept. -/
def reset (p : Processor ω σ) : Processor ω σ :=
  match p with
  | ⟨_, mem, world, _, _⟩ => ofMemory mem world

/-- What a processor does. -/
abbrev Action (ω σ α : Type) := EStateM Fault (Processor ω σ) α

/-- What is done to the memory and its world, as an action. -/
@[inline]
def onMemory {α : Type} (access : Memory.Access ω σ α) : Action ω σ α
  | ⟨regs, mem, world, cycles, last⟩ =>
    match access (mem, world) with
    | .ok a (mem, world) => .ok a ⟨regs, mem, world, cycles, last⟩
    | .error e (mem, world) => .error (.memory e) ⟨regs, mem, world, cycles, last⟩

/-- Change the registers. -/
@[inline]
def onRegs (f : Registers → Registers) : Action ω σ Unit
  | ⟨regs, mem, world, cycles, last⟩ => .ok () ⟨f regs, mem, world, cycles, last⟩

/-- Look something up in the registers. -/
@[inline]
def ofRegs {α : Type} (f : Registers → α) : Action ω σ α := fun p => .ok (f p.regs) p

variable [Observer ω σ]

def read (addr : Word) : Action ω σ Word := onMemory (Memory.read addr.toNat)

def write (addr value : Word) : Action ω σ Unit := onMemory (Memory.write addr.toNat value.toNat)

/-- SP goes down by one and the word is stored there. -/
def push (w : Word) : Action ω σ Unit := do
  onRegs fun regs => { regs with sp := regs.sp - 1 }
  write (← ofRegs (·.sp)) w

/-- The word at SP, and SP goes up by one. -/
def pop : Action ω σ Word := do
  let w ← read (← ofRegs (·.sp))
  onRegs fun regs => { regs with sp := regs.sp + 1 }
  return w

/-- The word at PC, and PC goes up by one. -/
def nextWord : Action ω σ Word := do
  let addr ← ofRegs (·.pc)
  onRegs fun regs => { regs with pc := addr + 1 }
  read addr

/-- Where an operand is, once its extra word has been taken. -/
inductive Place where
  | register (r : Register)
  | cell (addr : Word)
  | stack
  | sp
  | pc
  | ex
  | literal (w : Word)
  deriving DecidableEq, Repr

/-- Take an operand's extra word, if it has one, and say where the operand is. -/
def resolve : Operand → Action ω σ Place
  | .register r => return .register r
  | .indirect r => return .cell (← ofRegs (·.get r))
  | .indirectOffset r => do
    let offset ← nextWord
    return .cell ((← ofRegs (·.get r)) + offset)
  | .stack => return .stack
  | .peek => return .cell (← ofRegs (·.sp))
  | .pick => do
    let offset ← nextWord
    return .cell ((← ofRegs (·.sp)) + offset)
  | .sp => return .sp
  | .pc => return .pc
  | .ex => return .ex
  | .indirectNext => return .cell (← nextWord)
  | .nextLiteral => return .literal (← nextWord)
  | .inline v => return .literal (UInt16.ofNat v)

/-- The word at a place. The stack is popped. -/
def load : Place → Action ω σ Word
  | .register r => ofRegs (·.get r)
  | .cell addr => read addr
  | .stack => pop
  | .sp => ofRegs (·.sp)
  | .pc => ofRegs (·.pc)
  | .ex => ofRegs (·.ex)
  | .literal w => return w

/-- Put a word at a place. The stack is pushed, and what goes to a literal is dropped. -/
def store (w : Word) : Place → Action ω σ Unit
  | .register r => onRegs fun regs => regs.set r w
  | .cell addr => write addr w
  | .stack => push w
  | .sp => onRegs fun regs => { regs with sp := w }
  | .pc => onRegs fun regs => { regs with pc := w }
  | .ex => onRegs fun regs => { regs with ex := w }
  | .literal _ => return

/-- Carry out an instruction whose word has been taken. NOP leaves its operands alone. -/
def execute (i : Instruction) : Action ω σ Unit := do
  match i.opcode with
  | .nop => return
  | .set =>
    let destination ← resolve i.a
    let source ← resolve i.b
    store (← load source) destination
  | op =>
    let destination ← resolve i.a
    let source ← resolve i.b
    let b ← load source
    let a ← load destination
    let outcome := Alu.compute op a b
    match outcome.ex with
    | some ex => onRegs fun regs => { regs with ex := ex }
    | none => pure ()
    store outcome.result destination

/-- The instruction that the word at `pc` stands for, unless it is one to refuse. -/
def accept (pc word : Word) : Except Fault Instruction :=
  match Instruction.decode word with
  | .error e => .error (.decode e)
  | .ok i => if i.opcode.assigns && i.a.isLiteral then .error (.illegalWrite pc i.a.code) else .ok i

/-- Count and record a completed instruction. -/
def complete (i : Instruction) : Action ω σ Unit
  | ⟨regs, mem, world, cycles, _⟩ => .ok () ⟨regs, mem, world, cycles + 1, some i⟩

/-- Execute one instruction. -/
def step : Action ω σ Instruction := do
  let pc ← ofRegs (·.pc)
  let word ← read pc
  match accept pc word with
  | .error fault => throw fault
  | .ok i =>
    onRegs fun regs => { regs with pc := pc + 1 }
    execute i
    complete i
    return i

/-- Execute `n` instructions, or as many as come before the first fault. -/
def exec : (n : Nat) → Action ω σ Unit
  | 0 => return
  | n + 1 => do
    let _ ← step
    exec n

/-- Deliver an interrupt: push PC and then A, go to IA and put the message into A. While IA is 0
the interrupt is dropped and the answer is `false`. -/
def interrupt (message : Word) : Action ω σ Bool := do
  if (← ofRegs (·.ia)) = 0 then
    return false
  push (← ofRegs (·.pc))
  push (← ofRegs (·.get .a))
  onRegs fun regs => { regs with pc := regs.ia }.set .a message
  return true

/-- The instruction count and the registers, in decimal. -/
def summary (p : Processor ω σ) : String :=
  s!"Cpu \x7b cycles: {p.cycles}, regs: {p.regs.summary} \x7d"

end Processor

end WordMachine
