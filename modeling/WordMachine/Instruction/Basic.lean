import WordMachine.Instruction.Opcode
import WordMachine.Instruction.Operand

/-!
# Instruction/Basic — the layout of an instruction word

A word is three bit fields: the opcode in bits 0 to 3, operand `a` in bits 4 to 9 and operand `b`
in bits 10 to 15. `Fields.toWord` and `Fields.ofWord` are inverse to each other, and so are
`Instruction.encode` and `Instruction.decode` on the words whose opcode has an operation.
-/

namespace WordMachine

/-- The three bit fields of an instruction word. -/
structure Fields where
  op : Fin 16
  a : Fin 64
  b : Fin 64
  deriving DecidableEq, Repr

namespace Fields

def ofWord (w : Word) : Fields where
  op := Opcode.numberOf w.toNat
  a := Operand.codeOf (w.toNat / 16)
  b := Operand.codeOf (w.toNat / 1024)

def toWord (f : Fields) : Word := UInt16.ofNat (f.op + 16 * f.a + 1024 * f.b)

/-- The fields of a word that fields were packed into are those fields. -/
@[simp] theorem ofWord_toWord (f : Fields) : ofWord f.toWord = f := by
  obtain ⟨⟨op, hop⟩, ⟨a, ha⟩, ⟨b, hb⟩⟩ := f
  have : (UInt16.ofNat (op + 16 * a + 1024 * b)).toNat = op + 16 * a + 1024 * b := by
    rw [UInt16.toNat_ofNat']
    omega
  simp only [ofWord, toWord, Opcode.numberOf, Operand.codeOf, this, Fields.mk.injEq, Fin.ofNat,
    Fin.mk.injEq]
  omega

/-- No bit of a word lies outside its fields. -/
@[simp] theorem toWord_ofWord (w : Word) : (ofWord w).toWord = w := by
  have := w.toNat_lt
  rw [← UInt16.toNat_inj]
  simp only [ofWord, toWord, Opcode.numberOf, Operand.codeOf, Fin.ofNat, UInt16.toNat_ofNat']
  omega

end Fields

/-- An operation and where its two values are. The first operand is also the destination. -/
structure Instruction where
  opcode : Opcode
  a : Operand
  b : Operand
  deriving DecidableEq, Repr

namespace Instruction

/-- Why a word is no instruction. -/
inductive DecodeError where
  /-- No operation has the number. -/
  | unknownOpcode (number : Nat)
  deriving DecidableEq, Repr

def DecodeError.message : DecodeError → String
  | .unknownOpcode number => s!"unknown opcode: {Numeral.hexMarkedString 2 number}"

/-- The operation of an opcode field. -/
def operation (number : Nat) : Except DecodeError Opcode :=
  match Opcode.ofNumber? number with
  | some op => .ok op
  | none => .error (.unknownOpcode number)

def decode (w : Word) : Except DecodeError Instruction :=
  let f := Fields.ofWord w
  match operation f.op with
  | .ok op => .ok ⟨op, .ofCode f.a, .ofCode f.b⟩
  | .error e => .error e

/-- The instruction word, without the words that follow it. -/
def encode (i : Instruction) : Word := Fields.toWord ⟨i.opcode.number, i.a.code, i.b.code⟩

/-- **An encoded instruction decodes to itself**, so no two instructions share a word. -/
theorem decode_encode (i : Instruction) : decode i.encode = .ok i := by
  simp [decode, encode, operation]

/-- The number of words, with those that the operands take. -/
def size (i : Instruction) : Nat :=
  1 + (if i.a.usesNextWord then 1 else 0) + (if i.b.usesNextWord then 1 else 0)

end Instruction

end WordMachine
