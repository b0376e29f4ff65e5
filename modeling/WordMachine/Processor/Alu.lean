import WordMachine.Instruction.Opcode
import WordMachine.Word

/-!
# Processor/Alu — what the operations compute

Each operation is given over the integers: a result of any size, of which the low word is stored,
and for some operations a second word for EX. With the result as the low half and EX as the high
half, ADD and MUL are exact in the unsigned reading and MLI in the signed one.
-/

namespace WordMachine

namespace Alu

/-- The word to store, and the word EX takes if the operation sets it. -/
structure Outcome where
  result : Word
  ex : Option Word
  deriving DecidableEq, Repr

/-- The bits a shift by `count` moves out of a word on the low side, or into the high half: the low
word of `a` shifted left by `16 - count`, where shift counts are taken modulo 32. -/
def shiftedOut (a : Word) (count : Nat) : Word :=
  UInt16.ofNat (a.toNat <<< ((48 - count % 32) % 32))

/-- The outcome of an operation on the destination's word `a` and the source's word `b`. -/
def compute (op : Opcode) (a b : Word) : Outcome :=
  let count := b.toNat % 32
  match op with
  | .nop | .set => ⟨b, none⟩
  | .add =>
    let sum := a.toNat + b.toNat
    ⟨UInt16.ofNat sum, some (UInt16.ofNat (sum / 0x10000))⟩
  | .sub => ⟨a - b, some (if a < b then 0xFFFF else 0)⟩
  | .mul =>
    let product := a.toNat * b.toNat
    ⟨UInt16.ofNat product, some (UInt16.ofNat (product / 0x10000))⟩
  | .mli =>
    let product := a.signed * b.signed
    ⟨UInt16.ofInt product, some (UInt16.ofInt (product / 0x10000))⟩
  | .div =>
    if b = 0 then ⟨0, some 0⟩
    else ⟨a / b, some (UInt16.ofNat (a.toNat % b.toNat * 0x10000 / b.toNat))⟩
  | .and => ⟨a &&& b, none⟩
  | .bor => ⟨a ||| b, none⟩
  | .xor => ⟨a ^^^ b, none⟩
  | .shr => ⟨UInt16.ofNat (a.toNat >>> count), some (shiftedOut a count)⟩
  | .asr => ⟨UInt16.ofInt (a.signed >>> count), some (shiftedOut a count)⟩
  | .shl => ⟨UInt16.ofNat (a.toNat <<< count), some (shiftedOut a count)⟩

end Alu

end WordMachine
