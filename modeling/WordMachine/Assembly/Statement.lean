import WordMachine.Assembly.Value
import WordMachine.Instruction.Basic

/-!
# Assembly/Statement — what a source line says

A line defines a label, gives an instruction, or lists values. `Statement.slots` are the words it
puts into the program, one `Value` each, and `Statement.size` is their number (`length_slots`).
-/

namespace WordMachine

namespace Assembly

/-- An operand code and the extra word that goes with it. -/
structure Argument where
  code : Fin 64
  extra : Option Value := none
  deriving DecidableEq, Repr

/-- An operand that takes no extra word. -/
def Argument.plain (operand : Operand) : Argument := ⟨operand.code, none⟩

/-- An operand together with its extra word. -/
def Argument.extended (operand : Operand) (extra : Value) : Argument := ⟨operand.code, some extra⟩

inductive Statement where
  /-- The definition of a label, with the text after it, which means nothing. -/
  | label (name trailing : Text)
  | instruction (op : Fin 16) (a b : Argument)
  | data (values : List Value)
  deriving DecidableEq, Repr

namespace Statement

/-- The words of a statement in order. -/
def slots : Statement → List Value
  | label _ _ => []
  | instruction op a b =>
    .number (Fields.toWord ⟨op, a.code, b.code⟩) :: (a.extra.toList ++ b.extra.toList)
  | data values => values

/-- The number of words of a statement. -/
def size : Statement → Nat
  | label _ _ => 0
  | instruction _ a b => 1 + a.extra.toList.length + b.extra.toList.length
  | data values => values.length

/-- A statement takes as many addresses as it has words. -/
theorem length_slots (s : Statement) : s.slots.length = s.size := by
  cases s <;> simp [slots, size]
  omega

end Statement

end Assembly

end WordMachine
