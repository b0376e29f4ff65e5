import WordMachine.Text.Numeral
import WordMachine.Word

/-!
# Register — the register file

Eight general registers, the program counter, the stack pointer, the overflow register EX and the
interrupt address IA. `Registers.get_set` says what is read after a general register is written.
-/

namespace WordMachine

/-- A general register. -/
inductive Register where
  | a | b | c | x | y | z | i | j
  deriving DecidableEq, Repr

namespace Register

/-- All general registers in the order of their numbers. -/
def all : List Register := [a, b, c, x, y, z, i, j]

/-- The number of a register in an operand field. -/
def index : Register → Fin 8
  | a => 0 | b => 1 | c => 2 | x => 3 | y => 4 | z => 5 | i => 6 | j => 7

def ofIndex : Fin 8 → Register
  | 0 => a | 1 => b | 2 => c | 3 => x | 4 => y | 5 => z | 6 => i | 7 => j

@[simp] theorem ofIndex_index (r : Register) : ofIndex r.index = r := by cases r <;> rfl

@[simp] theorem index_ofIndex (n : Fin 8) : (ofIndex n).index = n := by revert n; decide

/-- The register with the number in the last three bits of `n`. -/
def ofLowBits (n : Nat) : Register := ofIndex (Fin.ofNat 8 n)

theorem index_inj {r s : Register} : r.index = s.index ↔ r = s :=
  ⟨fun h => by rw [← ofIndex_index r, h, ofIndex_index], fun h => h ▸ rfl⟩

/-- The one letter that names a register. -/
def letter : Register → Char
  | a => 'A' | b => 'B' | c => 'C' | x => 'X' | y => 'Y' | z => 'Z' | i => 'I' | j => 'J'

/-- The register a text names, in either letter case. -/
def ofText? (t : Text) : Option Register :=
  all.find? fun r => Text.upper t == [r.letter]

theorem ofText?_letter (r : Register) : ofText? [r.letter] = some r := by cases r <;> decide

end Register

/-- The contents of all registers. -/
structure Registers where
  /-- The general registers by number. -/
  general : Vector Word 8 := Vector.replicate 8 0
  /-- The address of the next instruction. -/
  pc : Word := 0
  /-- The address of the word pushed last. -/
  sp : Word := 0xFFFF
  /-- What the last arithmetic left beside its result. -/
  ex : Word := 0
  /-- Where interrupts go; while it is 0 they are dropped. -/
  ia : Word := 0
  deriving DecidableEq, Repr

namespace Registers

/-- The contents after a reset: SP is 0xFFFF and all else is 0. -/
def initial : Registers := {}

def get (regs : Registers) (r : Register) : Word := regs.general[r.index]

def set (regs : Registers) (r : Register) (w : Word) : Registers :=
  { regs with general := regs.general.set r.index w }

/-- **A write to a general register is seen by reads of that register alone.** -/
theorem get_set (regs : Registers) (r s : Register) (w : Word) :
    (regs.set r w).get s = if r = s then w else regs.get s := by
  have : ((r.index : Nat) = s.index) ↔ r = s := by rw [← Fin.ext_iff, Register.index_inj]
  simp [get, set, Vector.getElem_set, this]

/-- Every register with its contents in hexadecimal. -/
def toLine (regs : Registers) : String :=
  let field (name : String) (w : Word) := s!"{name}={Numeral.hexString 4 w.toNat}"
  let general := Register.all.map fun r => field (String.singleton r.letter) (regs.get r)
  let rest := [field "PC" regs.pc, field "SP" regs.sp, field "EX" regs.ex, field "IA" regs.ia]
  " ".intercalate (general ++ rest)

/-- The contents as fields in decimal. -/
def summary (regs : Registers) : String :=
  let general := ", ".intercalate (regs.general.toList.map fun w => toString w.toNat)
  s!"Registers \x7b gp: [{general}], pc: {regs.pc}, sp: {regs.sp}, ex: {regs.ex}, ia: {regs.ia} \x7d"

end Registers

end WordMachine
