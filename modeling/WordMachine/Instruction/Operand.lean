import WordMachine.Register

/-!
# Instruction/Operand — the sixty-four operand codes

An operand says where a value is; some take one more word of the program. `ofCode` and `code` are
inverse to each other.
-/

namespace WordMachine

inductive Operand where
  /-- A general register. -/
  | register (r : Register)
  /-- The cell a register points to. -/
  | indirect (r : Register)
  /-- The cell at a register plus the next word. -/
  | indirectOffset (r : Register)
  /-- Pop when read, push when written. -/
  | stack
  /-- The cell SP points to. -/
  | peek
  /-- The cell at SP plus the next word. -/
  | pick
  | sp
  | pc
  | ex
  /-- The cell at the next word. -/
  | indirectNext
  /-- The next word itself. -/
  | nextLiteral
  /-- A small number held in the code. -/
  | inline (v : Fin 32)
  deriving DecidableEq, Repr

namespace Operand

def ofCode (code : Fin 64) : Operand :=
  match code.val with
  | 0x18 => .stack
  | 0x19 => .peek
  | 0x1A => .pick
  | 0x1B => .sp
  | 0x1C => .pc
  | 0x1D => .ex
  | 0x1E => .indirectNext
  | 0x1F => .nextLiteral
  | n =>
    if n < 0x08 then .register (.ofLowBits n)
    else if n < 0x10 then .indirect (.ofLowBits n)
    else if n < 0x18 then .indirectOffset (.ofLowBits n)
    else .inline (Fin.ofNat 32 n)

def code : Operand → Fin 64
  | .register r => Fin.ofNat 64 r.index
  | .indirect r => Fin.ofNat 64 (0x08 + r.index)
  | .indirectOffset r => Fin.ofNat 64 (0x10 + r.index)
  | .stack => 0x18
  | .peek => 0x19
  | .pick => 0x1A
  | .sp => 0x1B
  | .pc => 0x1C
  | .ex => 0x1D
  | .indirectNext => 0x1E
  | .nextLiteral => 0x1F
  | .inline v => Fin.ofNat 64 (0x20 + v)

/-- The code in the last six bits of `n`. -/
def codeOf (n : Nat) : Fin 64 := Fin.ofNat 64 n

@[simp] theorem code_ofCode (c : Fin 64) : (ofCode c).code = c := by revert c; decide

@[simp] theorem ofCode_code (o : Operand) : ofCode o.code = o := by
  cases o with
  | register r | indirect r | indirectOffset r => cases r <;> rfl
  | inline v => revert v; decide
  | _ => rfl

/-- Whether the operand takes one more word of the program. -/
def usesNextWord : Operand → Bool
  | .indirectOffset _ | .pick | .indirectNext | .nextLiteral => true
  | _ => false

/-- Whether the operand is a number, which nothing can be stored into. -/
def isLiteral : Operand → Bool
  | .nextLiteral | .inline _ => true
  | _ => false

end Operand

end WordMachine
