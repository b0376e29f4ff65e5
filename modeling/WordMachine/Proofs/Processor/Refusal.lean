import WordMachine.Proofs.Guarded
import WordMachine.Proofs.Processor.Interrupts

/-!
# Proofs/Processor/Refusal — instruction words that are refused

A word is refused by its own fields: three opcodes have no operation, and eleven of the others
cannot have a literal as their destination (`accept_eq_unknownOpcode_iff`,
`accept_eq_illegalWrite_iff`).  Where no observer stands behind PC (`Fetches`), a step refuses the
word before it has done anything, and nothing else that a step does has such a fault
(`Fetches.step_eq_error_iff`).  An instruction that fails comes after all the ones that were counted
(`exec_eq_error_iff`, `cycles_exec`).
-/

namespace WordMachine

theorem Opcode.ofNumber?_eq_none_iff (number : Fin 16) :
    ofNumber? number = none ↔ (number : Nat) = 7 ∨ (number : Nat) = 8 ∨ (number : Nat) = 9 := by
  revert number
  decide

/-- The opcodes whose destination cannot be a literal. -/
theorem Opcode.any_assigns_iff (number : Fin 16) :
    (ofNumber? number).any assigns = true ↔
      (number : Nat) ∈ [1, 2, 3, 4, 5, 0xA, 0xB, 0xC, 0xD, 0xE, 0xF] := by
  revert number
  decide

/-- The operand codes of literals. -/
theorem Operand.isLiteral_ofCode_iff (code : Fin 64) :
    (ofCode code).isLiteral = true ↔ 0x1F ≤ (code : Nat) := by
  revert code
  decide

namespace Processor

/-! ## Which words are refused -/

theorem accept_eq (pc word : Word) :
    accept pc word =
      match Opcode.ofNumber? (Fields.ofWord word).op with
      | none => .error (.decode (.unknownOpcode (Fields.ofWord word).op))
      | some op =>
        if op.assigns && (Operand.ofCode (Fields.ofWord word).a).isLiteral then
          .error (.illegalWrite pc (Fields.ofWord word).a)
        else
          .ok ⟨op, .ofCode (Fields.ofWord word).a, .ofCode (Fields.ofWord word).b⟩ := by
  unfold accept
  cases hop : Opcode.ofNumber? (Fields.ofWord word).op with
  | none => simp only [Instruction.decode, Instruction.operation, hop]
  | some op => simp only [Instruction.decode, Instruction.operation, hop, Operand.code_ofCode]

/-- **A word has no operation** if its opcode is 7, 8 or 9… -/
theorem accept_eq_unknownOpcode_iff {pc word : Word} {number : Nat} :
    accept pc word = .error (.decode (.unknownOpcode number)) ↔
      number = (Fields.ofWord word).op ∧ (number = 7 ∨ number = 8 ∨ number = 9) := by
  rw [accept_eq]
  have hnone := Opcode.ofNumber?_eq_none_iff (Fields.ofWord word).op
  cases hop : Opcode.ofNumber? (Fields.ofWord word).op with
  | none =>
    rw [hop] at hnone
    constructor
    · intro h
      cases h
      exact ⟨rfl, hnone.mp rfl⟩
    · rintro ⟨rfl, -⟩
      rfl
  | some op =>
    rw [hop] at hnone
    constructor
    · intro h
      dsimp only at h
      split at h <;> cases h
    · rintro ⟨rfl, hnumber⟩
      exact absurd (hnone.mpr hnumber) (Option.some_ne_none op)

/-- …**and would store into a literal** if its opcode is one of eleven and its first operand is a
literal. -/
theorem accept_eq_illegalWrite_iff {pc pc' word : Word} {code : Fin 64} :
    accept pc word = .error (.illegalWrite pc' code) ↔
      pc' = pc ∧ code = (Fields.ofWord word).a ∧ 0x1F ≤ (code : Nat) ∧
        ((Fields.ofWord word).op : Nat) ∈ [1, 2, 3, 4, 5, 0xA, 0xB, 0xC, 0xD, 0xE, 0xF] := by
  rw [accept_eq]
  have hassigns := Opcode.any_assigns_iff (Fields.ofWord word).op
  have hliteral := Operand.isLiteral_ofCode_iff (Fields.ofWord word).a
  cases hop : Opcode.ofNumber? (Fields.ofWord word).op with
  | none =>
    rw [hop] at hassigns
    constructor
    · rintro ⟨⟩
    · rintro ⟨-, -, -, hnumber⟩
      cases hassigns.mpr hnumber
  | some op =>
    rw [hop, Option.any_some] at hassigns
    dsimp only
    split
    · next hboth =>
      obtain ⟨hop, ha⟩ := Bool.and_eq_true_iff.mp hboth
      constructor
      · intro h
        cases h
        exact ⟨rfl, rfl, hliteral.mp ha, hassigns.mp hop⟩
      · rintro ⟨rfl, rfl, -, -⟩
        rfl
    · next hnot =>
      constructor
      · rintro ⟨⟩
      · rintro ⟨-, rfl, ha, hnumber⟩
        exact absurd (Bool.and_eq_true_iff.mpr ⟨hassigns.mpr hnumber, hliteral.mpr ha⟩) hnot

/-! ## Steps that refuse a word -/

/-- A fault of the memory. -/
def Fault.OfMemory (fault : Fault) : Prop := ∃ e, fault = .memory e

variable {ω σ : Type} {p q : Processor ω σ} {w : Word} {fault : Fault} {n : Nat}

/-- **An access to the memory counts nothing**, and only the memory can be at fault. -/
theorem guarded_onMemory {α : Type} (access : Memory.Access ω σ α) :
    Guarded (fun p : Processor ω σ => p.cycles = n) Fault.OfMemory (onMemory access) where
  keeps := by
    refine keeps_iff.mpr fun ⟨regs, mem, world, cycles, last⟩ hp => ?_
    simp only [onMemory]
    cases access (mem, world) <;> exact hp
  error := by
    rintro ⟨regs, mem, world, cycles, last⟩ - e t hend
    simp only [onMemory] at hend
    generalize access (mem, world) = x at hend
    cases x with
    | ok a s => cases hend
    | error e' s =>
      cases hend
      exact ⟨e', rfl⟩

variable [Observer ω σ]

theorem guards_cycles : Guards (fun p : Processor ω σ => p.cycles = n) Fault.OfMemory where
  onRegs _ := .of_exists_ok fun _ hp => ⟨(), _, rfl, hp⟩
  read _ := guarded_onMemory _
  write _ _ := guarded_onMemory _

/-- The word at PC, for which no observer answers or takes notice. -/
structure Fetches (p : Processor ω σ) (w : Word) : Prop where
  cell? : p.mem.cell? p.regs.pc.toNat = some w
  asked : p.mem.asked p.regs.pc.toNat p.world = (none, p.world)

/-- Carry out an instruction whose word is at PC. -/
def carryOut (i : Instruction) : Action ω σ Instruction := do
  onRegs fun regs => { regs with pc := regs.pc + 1 }
  execute i
  complete i
  return i

/-- **What is not refused has no other fault than the memory's.** -/
theorem ofMemory_of_carryOut {i : Instruction} (h : carryOut i p = .error fault q) :
    fault.OfMemory := by
  rcases of_bind_error h with hregs | ⟨_, r, -, h⟩
  · cases hregs
  rcases of_bind_error h with hexecute | ⟨_, _, -, h⟩
  · exact (guards_cycles.execute i).error rfl hexecute
  rcases of_bind_error h with hcomplete | ⟨_, _, -, h⟩
  · cases hcomplete
  · cases h

theorem Fetches.step_eq (h : Fetches p w) :
    step p =
      match accept p.regs.pc w with
      | .error fault => .error fault p
      | .ok i => carryOut i p := by
  have hlt : p.regs.pc.toNat < p.mem.capacity := by
    refine Nat.lt_of_not_le fun hle => ?_
    rw [← Memory.cell?_eq_none_iff, h.cell?] at hle
    cases hle
  have hread : read p.regs.pc p = .ok w p := by
    rw [read_eq hlt, h.asked, Memory.word, h.cell?]
    rfl
  change (read p.regs.pc >>= fun word => _) p = _
  rw [bind_of_ok hread]
  cases accept p.regs.pc w with
  | error fault => rfl
  | ok i => rfl

/-- **A word that is refused changes nothing**, and no other has a fault of its own. -/
theorem Fetches.step_eq_error_iff (h : Fetches p w) (hfault : ¬ fault.OfMemory) :
    step p = .error fault q ↔ accept p.regs.pc w = .error fault ∧ q = p := by
  rw [h.step_eq]
  cases haccept : accept p.regs.pc w with
  | error fault' =>
    constructor
    · intro hend
      cases hend
      exact ⟨rfl, rfl⟩
    · rintro ⟨hfault, rfl⟩
      cases hfault
      rfl
  | ok i =>
    constructor
    · intro hend
      exact absurd (ofMemory_of_carryOut hend) hfault
    · rintro ⟨hnone, -⟩
      cases hnone

/-! ## Runs -/

/-- A step that succeeds counts one… -/
theorem cycles_step {i : Instruction} (h : step p = .ok i q) : q.cycles = p.cycles + 1 := by
  obtain ⟨pc, _, hpc, h⟩ := exists_of_bind_ok h
  cases hpc
  obtain ⟨word, r, hread, h⟩ := exists_of_bind_ok h
  have hr : r.cycles = p.cycles := (guards_cycles.read _).keeps.of_ok rfl hread
  cases haccept : accept p.regs.pc word with
  | error fault =>
    simp only [haccept] at h
    cases h
  | ok j =>
    simp only [haccept] at h
    obtain ⟨_, r', hregs, hrest⟩ := exists_of_bind_ok h
    obtain ⟨_, s, hexecute, hlast⟩ := exists_of_bind_ok hrest
    have hs : s.cycles = r'.cycles := (guards_cycles.execute _).keeps.of_ok rfl hexecute
    cases hregs
    cases hlast
    exact congrArg (· + 1) (hs.trans hr)

/-- …**and a run as many as it has steps**. -/
theorem cycles_exec (h : exec n p = .ok () q) : q.cycles = p.cycles + n := by
  induction n generalizing p with
  | zero =>
    cases h
    rfl
  | succ n ih =>
    obtain ⟨i, r, hstep, hrest⟩ := exists_of_bind_ok h
    rw [ih hrest, cycles_step hstep]
    omega

/-- **A run fails as its first step to fail.** -/
theorem exec_eq_error_iff :
    exec n p = .error fault q ↔
      ∃ k < n, ∃ r, exec k p = .ok () r ∧ step r = .error fault q := by
  constructor
  · intro h
    induction n generalizing p with
    | zero => cases h
    | succ n ih =>
      rcases of_bind_error h with hstep | ⟨i, r, hstep, hrest⟩
      · exact ⟨0, n.succ_pos, p, rfl, hstep⟩
      · obtain ⟨k, hk, s, hexec, hfail⟩ := ih hrest
        exact ⟨k + 1, Nat.succ_lt_succ hk, s, (bind_of_ok hstep).trans hexec, hfail⟩
  · rintro ⟨k, hk, r, hexec, hfail⟩
    obtain ⟨m, rfl⟩ := Nat.exists_eq_add_of_lt hk
    rw [Nat.add_assoc, exec_add, bind_of_ok hexec]
    exact bind_of_error hfail

end Processor

end WordMachine
