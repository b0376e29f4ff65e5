import WordMachine.Text.Basic

/-!
# Instruction/Opcode — operations, their numbers and their mnemonics

The mnemonic table is larger than the set of operations that can be executed: some of its numbers
have no operation, and those from 0x10 on do not fit the opcode field of an instruction word.
-/

namespace WordMachine

/-- An operation the processor can execute. -/
inductive Opcode where
  | nop | set | add | sub | mul | mli | div | and | bor | xor | shr | asr | shl
  deriving DecidableEq, Repr

namespace Opcode

/-- Every mnemonic with operands, and its number. -/
def table : List (Text × Nat) := [
  (['S', 'E', 'T'], 0x01), (['A', 'D', 'D'], 0x02), (['S', 'U', 'B'], 0x03),
  (['M', 'U', 'L'], 0x04), (['M', 'L', 'I'], 0x05), (['D', 'I', 'V'], 0x06),
  (['D', 'V', 'I'], 0x07), (['M', 'O', 'D'], 0x08), (['M', 'D', 'I'], 0x09),
  (['A', 'N', 'D'], 0x0A), (['B', 'O', 'R'], 0x0B), (['X', 'O', 'R'], 0x0C),
  (['S', 'H', 'R'], 0x0D), (['A', 'S', 'R'], 0x0E), (['S', 'H', 'L'], 0x0F),
  (['I', 'F', 'B'], 0x10), (['I', 'F', 'C'], 0x11), (['I', 'F', 'E'], 0x12),
  (['I', 'F', 'N'], 0x13), (['I', 'F', 'G'], 0x14), (['I', 'F', 'A'], 0x15),
  (['I', 'F', 'L'], 0x16), (['I', 'F', 'U'], 0x17), (['A', 'D', 'X'], 0x1A),
  (['S', 'B', 'X'], 0x1B), (['S', 'T', 'I'], 0x1E), (['S', 'T', 'D'], 0x1F)]

/-- The mnemonic of number 0, which stands outside the table because it takes no operands. -/
def nopMnemonic : Text := ['N', 'O', 'P']

/-- The number of a mnemonic of the table, in either letter case. -/
def numberOf? (mnemonic : Text) : Option Nat :=
  (table.find? fun row => row.1 == Text.upper mnemonic).map (·.2)

/-- The mnemonic of a number. -/
def mnemonicOf? (number : Nat) : Option Text :=
  if number = 0 then some nopMnemonic
  else (table.find? fun row => row.2 == number).map (·.1)

/-- The number of an operation in the opcode field. -/
def number : Opcode → Fin 16
  | nop => 0x0 | set => 0x1 | add => 0x2 | sub => 0x3 | mul => 0x4 | mli => 0x5 | div => 0x6
  | and => 0xA | bor => 0xB | xor => 0xC | shr => 0xD | asr => 0xE | shl => 0xF

/-- The number in the last four bits of `n`. -/
def numberOf (n : Nat) : Fin 16 := Fin.ofNat 16 n

/-- The operation of a number, if it has one. -/
def ofNumber? : Nat → Option Opcode
  | 0x0 => some nop | 0x1 => some set | 0x2 => some add | 0x3 => some sub | 0x4 => some mul
  | 0x5 => some mli | 0x6 => some div | 0xA => some and | 0xB => some bor | 0xC => some xor
  | 0xD => some shr | 0xE => some asr | 0xF => some shl | _ => none

@[simp] theorem ofNumber?_number (op : Opcode) : ofNumber? op.number = some op := by
  cases op <;> rfl

def mnemonic : Opcode → Text
  | nop => nopMnemonic
  | set => ['S', 'E', 'T'] | add => ['A', 'D', 'D'] | sub => ['S', 'U', 'B']
  | mul => ['M', 'U', 'L'] | mli => ['M', 'L', 'I'] | div => ['D', 'I', 'V']
  | and => ['A', 'N', 'D'] | bor => ['B', 'O', 'R'] | xor => ['X', 'O', 'R']
  | shr => ['S', 'H', 'R'] | asr => ['A', 'S', 'R'] | shl => ['S', 'H', 'L']

/-- The table gives every operation its own mnemonic. -/
theorem mnemonicOf?_number (op : Opcode) : mnemonicOf? op.number = some op.mnemonic := by
  cases op <;> decide

/-- Whether the operation refuses a literal as its destination. DIV assigns too, but does not
refuse. -/
def assigns : Opcode → Bool
  | nop | div => false
  | _ => true

end Opcode

end WordMachine
