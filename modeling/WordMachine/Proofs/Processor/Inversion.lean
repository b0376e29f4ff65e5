import WordMachine.Proofs.Processor.Meaning

/-!
# Proofs/Processor/Inversion — what has happened if an instruction has succeeded

An instruction that is not a NOP resolves its operands, loads the source, works out what is to be
stored (`result`) and stores it (`execute_eq`).  If it has succeeded then each of these has, and each
read and write among them has found a cell.  So a step that has succeeded comes apart into actions
that have: `exists_of_step` and `exists_of_execute`.
-/

namespace WordMachine

/-- Where an operand is does not depend on PC. -/
theorem Meaning.place_withPc (m : Meaning) (regs : Registers) (pc : Word) :
    m.place { regs with pc } = m.place regs := by
  cases m with
  | pointed base | offset base v => cases base <;> rfl
  | _ => rfl

namespace Processor

/-! ## Places -/

namespace Place

/-- The cell that a place is, while SP is `sp`.  The stack is the cell that SP points to. -/
def address? (sp : Word) : Place → Option Word
  | .cell addr => some addr
  | .stack => some sp
  | _ => none

/-- SP once the word of a place has been taken. -/
def popped (sp : Word) : Place → Word
  | .stack => sp + 1
  | _ => sp

/-- SP when a word is about to be put into the cell of a place. -/
def pushed (sp : Word) : Place → Word
  | .stack => sp - 1
  | _ => sp

end Place

variable {ω σ : Type} [Observer ω σ] {p q : Processor ω σ} {i : Instruction} {o : Operand}
  {x : Place} {addr v w : Word}

/-! ## Reads and writes -/

/-- A read that has succeeded has found a cell, and asked its observer… -/
theorem of_read_eq_ok (h : read addr p = .ok w q) :
    addr.toNat < p.mem.capacity ∧
      w = (p.mem.asked addr.toNat p.world).1.getD (p.mem.word addr.toNat) ∧
      q = { p with world := (p.mem.asked addr.toNat p.world).2 } := by
  by_cases hlt : addr.toNat < p.mem.capacity
  · rw [read_eq hlt] at h
    cases h
    exact ⟨hlt, rfl, rfl⟩
  · obtain ⟨regs, mem, world, cycles, last⟩ := p
    simp only [read, onMemory, Memory.read_eq_error (Nat.le_of_not_lt hlt)] at h
    cases h

/-- …and a write has told it. -/
theorem of_write_eq_ok (h : write addr w p = .ok () q) :
    addr.toNat < p.mem.capacity ∧
      q = { p with
        mem := p.mem.store addr.toNat w
        world := p.mem.told addr.toNat w p.world } := by
  by_cases hlt : addr.toNat < p.mem.capacity
  · rw [write_eq hlt] at h
    cases h
    exact ⟨hlt, rfl⟩
  · rw [write_eq_error (Nat.le_of_not_lt hlt)] at h
    cases h

/-- **Resolving an operand that has succeeded** has read its extra word, or left everything as it is
if there is none. -/
theorem of_resolve_eq_ok (h : resolve o p = .ok x q) :
    (o.usesNextWord = true ∧ ∃ extra, read p.regs.pc (p.goto (p.regs.pc + 1)) = .ok extra q ∧
      x = (Meaning.ofOperand extra o).place p.regs) ∨
    (o.usesNextWord = false ∧ q = p ∧ ∀ extra, x = (Meaning.ofOperand extra o).place p.regs) := by
  cases o with
  | indirectOffset | pick | indirectNext | nextLiteral =>
    change (nextWord >>= _) p = _ at h
    obtain ⟨extra, q', hread, hplace⟩ := exists_of_bind_ok h
    change read p.regs.pc (p.goto (p.regs.pc + 1)) = _ at hread
    cases hplace
    refine .inl ⟨rfl, extra, hread, ?_⟩
    -- By then PC has gone up, and no other register.
    obtain ⟨-, -, rfl⟩ := of_read_eq_ok hread
    rw [← Meaning.place_withPc _ p.regs (p.regs.pc + 1)]
    rfl
  | _ =>
    cases h
    exact .inr ⟨rfl, rfl, fun _ => rfl⟩

/-! ## Instructions -/

/-- What an operation is to store at its destination, once the source is loaded.  SET looks at
nothing else; any other operation loads the destination too, and leaves its mark on EX. -/
def result (op : Opcode) (destination : Place) (v : Word) : Action ω σ Word :=
  if op = .set then return v
  else do
    let w ← load destination
    onRegs fun regs => { regs with ex := (Alu.compute op w v).ex.getD regs.ex }
    return (Alu.compute op w v).result

/-- **An instruction that is not a NOP** stores its result at its destination, last of all. -/
theorem execute_eq {op : Opcode} (hop : op ≠ .nop) (a b : Operand) :
    (execute ⟨op, a, b⟩ : Action ω σ Unit) = (do
      let destination ← resolve a
      let source ← resolve b
      let v ← load source
      let r ← result op destination v
      store r destination) := by
  by_cases hset : op = .set
  · subst hset
    rfl
  · rw [execute_of_ne hop hset]
    have hresult : ∀ x v, (result op x v : Action ω σ Word) = (do
        let w ← load x
        onRegs fun regs => { regs with ex := (Alu.compute op w v).ex.getD regs.ex }
        return (Alu.compute op w v).result) := fun x v => if_neg hset
    simp only [hresult, bind_assoc, pure_bind]
    refine bind_congr fun x => bind_congr fun y => bind_congr fun v => bind_congr fun w => ?_
    cases (Alu.compute op w v).ex <;> rfl

theorem exists_of_execute (hop : i.opcode ≠ .nop) (h : execute i p = .ok () q) :
    ∃ x p₁ y p₂ v p₃ r p₄, resolve i.a p = .ok x p₁ ∧ resolve i.b p₁ = .ok y p₂ ∧
      load y p₂ = .ok v p₃ ∧ result i.opcode x v p₃ = .ok r p₄ ∧ store r x p₄ = .ok () q := by
  obtain ⟨op, a, b⟩ := i
  rw [execute_eq hop] at h
  obtain ⟨x, p₁, ha, h⟩ := exists_of_bind_ok h
  obtain ⟨y, p₂, hb, h⟩ := exists_of_bind_ok h
  obtain ⟨v, p₃, hload, h⟩ := exists_of_bind_ok h
  obtain ⟨r, p₄, hresult, hstore⟩ := exists_of_bind_ok h
  exact ⟨x, p₁, y, p₂, v, p₃, r, p₄, ha, hb, hload, hresult, hstore⟩

/-- **A step that has succeeded** has read a word that it accepted, gone past it, executed the
instruction and recorded it. -/
theorem exists_of_step (h : step p = .ok i q) :
    ∃ word p' q', read p.regs.pc p = .ok word p' ∧ accept p.regs.pc word = .ok i ∧
      execute i (p'.goto (p.regs.pc + 1)) = .ok () q' ∧ q = q'.completed i := by
  change (read p.regs.pc >>= _) p = _ at h
  obtain ⟨word, p', hread, h⟩ := exists_of_bind_ok h
  cases haccept : accept p.regs.pc word with
  | error fault =>
    simp only [haccept] at h
    cases h
  | ok j =>
    simp only [haccept] at h
    change (execute j >>= _) (p'.goto (p.regs.pc + 1)) = _ at h
    obtain ⟨_, q', hexecute, hdone⟩ := exists_of_bind_ok h
    cases hdone
    exact ⟨word, p', q', hread, haccept, hexecute, rfl⟩

/-- An instruction whose operands are left alone. -/
theorem execute_nop (hop : i.opcode = .nop) : (execute i : Action ω σ Unit) = pure () := by
  rw [execute, hop]

end Processor

end WordMachine
