import WordMachine.Memory.Probe
import WordMachine.Proofs.Disassembly.RoundTrip
import WordMachine.Proofs.Processor.Meaning

/-!
# Proofs/Disassembly/Walk — the processor and the listing go from instruction to instruction

A listing takes as many words for an instruction as its operands ask for, and so does the processor
when it resolves them.  NOP is the exception: the processor leaves its operands alone, so their
words are executed next, while the listing goes past them.

Main statement: `step_and_listing`.
-/

namespace WordMachine

namespace Disassembly

variable {ω : Type} {m : Memory ω} {i : Instruction}

/-- The word of an instruction and two words after it have room for its operands. -/
theorem snd_ofWords_encode (i : Instruction) (x y : Word) :
    (ofWords [i.encode, x, y]).2 = i.size := by
  have hsize : i.size ≤ 3 := by
    rw [Instruction.size]
    split <;> split <;> omega
  have hlength : ([i.encode, x, y].take i.size).length = i.size := by
    rw [List.length_take]
    exact Nat.min_eq_left hsize
  simp only [ofWords, Instruction.decode_encode, if_pos hlength]

/-- Where every address has a cell, the row from an address on has all words there are room for. -/
theorem cellsFrom_eq (h : m.capacity = Word.count) (addr : Word) :
    cellsFrom m 3 addr =
      [m.word addr.toNat, m.word (addr + 1).toNat, m.word (addr + 1 + 1).toNat] := by
  have hcell : ∀ place : Word, m.cell? place.toNat = some (m.word place.toNat) := fun place => by
    cases hplace : m.cell? place.toNat with
    | none =>
      have hle := Memory.cell?_eq_none_iff.mp hplace
      have hlt := place.toNat_lt_count
      omega
    | some w => rw [Memory.word, hplace, Option.getD_some]
  simp only [cellsFrom, hcell]

/-- A line of a listing is followed by the one at the address after its words. -/
theorem ofMemoryAfter_eq (h : m.capacity = Word.count) (before : List (Word × Text)) (count : Nat)
    (addr : Word) :
    ofMemoryAfter m before (count + 1) addr =
      ofMemoryAfter m ((addr, (ofWords (cellsFrom m 3 addr)).1) :: before) count
        (addr + UInt16.ofNat (ofWords (cellsFrom m 3 addr)).2) := by
  rw [ofMemoryAfter, cellsFrom_eq h]

/-- **The second line of a listing** comes after all words of the first. -/
theorem exists_ofMemory_two (h : m.capacity = Word.count) {addr : Word}
    (hword : m.word addr.toNat = i.encode) :
    ∃ first second,
      ofMemory m addr 2 = [(addr, first), (addr + UInt16.ofNat i.size, second)] := by
  have hsize : (ofWords (cellsFrom m 3 addr)).2 = i.size := by
    rw [cellsFrom_eq h, hword, snd_ofWords_encode]
  let next := cellsFrom m 3 (addr + UInt16.ofNat i.size)
  refine ⟨(ofWords (cellsFrom m 3 addr)).1, (ofWords next).1, ?_⟩
  rw [ofMemory, ofMemoryAfter_eq h, ofMemoryAfter_eq h, hsize]
  rfl

end Disassembly

/-- PC is meant by the operand PC alone. -/
theorem Meaning.ofOperand_eq_pc {extra : Word} {o : Operand} (h : ofOperand extra o = pc) :
    o = .pc := by
  cases o with
  | pc => rfl
  | _ => cases h

/-- A word that is accepted is that of the instruction. -/
theorem Processor.encode_of_accept {pc w : Word} {i : Instruction} (h : accept pc w = .ok i) :
    i.encode = w := by
  cases hdecode : Instruction.decode w with
  | error e =>
    simp only [accept, hdecode] at h
    cases h
  | ok j =>
    simp only [accept, hdecode] at h
    split at h
    · cases h
    · cases h
      exact Disassembly.encode_of_decode hdecode

/-- The address after the words of an instruction. -/
theorem Instruction.after_eq (addr : Word) (i : Instruction) :
    i.b.after (i.a.after (addr + 1)) = addr + UInt16.ofNat i.size := by
  have hone : addr + 1 = addr + UInt16.ofNat 1 := rfl
  rw [Operand.after_eq _ 0, Operand.after_eq _ 0, hone, UInt16.add_assoc, UInt16.add_assoc,
    ← UInt16.ofNat_add, ← UInt16.ofNat_add, Disassembly.length_extraWords,
    Disassembly.length_extraWords]
  congr 2
  rw [size]
  omega

namespace Processor

variable {ω σ : Type} [Observer ω σ] {p p' : Processor ω σ} {i : Instruction}

/-- A step that ends well has executed the instruction whose word was at PC. -/
theorem Plain.encode_of_step (h : p.Plain) (hstep : step p = .ok i p') :
    p.word p.regs.pc = i.encode := by
  change (read p.regs.pc >>= _) p = _ at hstep
  rw [bind_of_ok (h.read_eq _)] at hstep
  cases haccept : accept p.regs.pc (p.word p.regs.pc) with
  | error fault =>
    rw [haccept] at hstep
    cases hstep
  | ok j =>
    rw [haccept] at hstep
    change (execute j >>= _) (p.goto (p.regs.pc + 1)) = _ at hstep
    obtain ⟨_, q, -, hdone⟩ := exists_of_bind_ok hstep
    cases hdone
    exact (encode_of_accept haccept).symm

/-- **NOP goes to the next word**, whatever its operands are… -/
theorem Plain.step_nop (h : p.Plain) (hop : i.opcode = .nop) (hword : p.word p.regs.pc = i.encode) :
    step p = .ok i ((p.goto (p.regs.pc + 1)).completed i) := by
  have haccept : accept p.regs.pc i.encode = .ok i := by
    rw [accept, Instruction.decode_encode]
    simp only [hop, Opcode.assigns, Bool.false_and]
    rfl
  have hexecute : execute i (p.goto (p.regs.pc + 1)) = .ok () (p.goto (p.regs.pc + 1)) := by
    rw [execute, hop]
    rfl
  change (read p.regs.pc >>= _) p = _
  rw [bind_of_ok (h.read_eq _), hword, haccept]
  change (execute i >>= _) (p.goto (p.regs.pc + 1)) = _
  rw [bind_of_ok hexecute]
  rfl

/-- …and any other instruction goes past its words, unless it assigns to PC. -/
theorem Plain.pc_step (h : p.Plain) (hstep : step p = .ok i p') (hop : i.opcode ≠ .nop)
    (hpc : i.a ≠ .pc) : p'.regs.pc = p.regs.pc + UInt16.ofNat i.size := by
  have hresult := h.step_eq hop (h.encode_of_step hstep)
  rw [hstep] at hresult
  split at hresult
  · cases hresult
  · cases hresult
    have hplace : (Meaning.ofOperand (p.word (p.regs.pc + 1)) i.a).place p.regs ≠ .pc :=
      fun heq => hpc (Meaning.ofOperand_eq_pc (Meaning.place_eq_pc heq))
    exact (pc_perform _ _ _ hplace).trans (i.after_eq p.regs.pc)

/-- **After a step PC is at the second line of the listing from before**, unless the instruction
assigns to PC or is a NOP with extra words: after a NOP, PC is at the next word. -/
theorem step_and_listing (h : p.Plain) (hstep : step p = .ok i p')
    (hdestination : i.opcode = .nop ∨ i.a ≠ .pc) :
    ∃ first next second,
      Disassembly.ofMemory p.mem p.regs.pc 2 = [(p.regs.pc, first), (next, second)] ∧
        next = p.regs.pc + UInt16.ofNat i.size ∧
        p'.regs.pc = (if i.opcode = .nop then p.regs.pc + 1 else next) ∧
        (p'.regs.pc = next ↔
          ¬ (i.opcode = .nop ∧ (i.a.usesNextWord = true ∨ i.b.usesNextWord = true))) := by
  have hword := h.encode_of_step hstep
  obtain ⟨first, second, hlisting⟩ := Disassembly.exists_ofMemory_two h.capacity hword
  refine ⟨first, _, second, hlisting, rfl, ?_⟩
  by_cases hop : i.opcode = .nop
  · have hresult := h.step_nop hop hword
    rw [hstep] at hresult
    cases hresult
    have hsize : p.regs.pc + 1 = p.regs.pc + UInt16.ofNat i.size ↔
        ¬ (i.a.usesNextWord = true ∨ i.b.usesNextWord = true) := by
      rw [UInt16.add_right_inj, Instruction.size]
      cases i.a.usesNextWord <;> cases i.b.usesNextWord <;> decide
    simp only [hop, if_true, true_and]
    exact ⟨rfl, hsize⟩
  · have hpc := h.pc_step hstep hop (hdestination.resolve_left hop)
    simp only [hop, if_false, false_and, not_false_eq_true, iff_true]
    exact ⟨hpc, hpc⟩

/-- A NOP with an operand that takes a word. -/
def longNop : Processor Probe Probe.Log := ofWords {} [0x0100, 5]

/-- A SET at the last address, whose literal is at the first. -/
def straddling : Processor Probe Probe.Log :=
  ((ofWords {} [0x20]).withCell 0xFFFF 0x7C01).withRegs { pc := 0xFFFF }

theorem step_and_listing_long :
    (∃ i p' first second, step longNop = .ok i p' ∧
        Disassembly.ofMemory longNop.mem 0 2 = [(0, first), (2, second)] ∧ p'.regs.pc = 1) ∧
      ∃ i p' first second, step straddling = .ok i p' ∧
        Disassembly.ofMemory straddling.mem 0xFFFF 2 = [(0xFFFF, first), (1, second)] ∧
        p'.regs.pc = 1 := by
  constructor
  · let i : Instruction := ⟨.nop, .indirectOffset .a, .register .a⟩
    have hplain : longNop.Plain := plain_ofWords _ _
    have hholds : longNop.Holds [0x0100, 5] := holds_ofWords _ (by decide)
    have hword : longNop.word 0 = i.encode := hholds 0 _ rfl
    have hstep := hplain.step_nop (i := i) rfl hword
    obtain ⟨first, _, second, hlisting, rfl, hpc, -⟩ := step_and_listing hplain hstep (.inl rfl)
    exact ⟨i, _, first, second, hstep, hlisting, hpc⟩
  · let i : Instruction := ⟨.set, .register .a, .nextLiteral⟩
    have hfirst : (ofWords {} [0x20] : Processor Probe Probe.Log).Plain := plain_ofWords _ _
    have hplain : straddling.Plain :=
      ⟨(Memory.capacity_store _ _ _).trans hfirst.capacity,
        fun addr => (Memory.observer?_store _ _ _ _).trans (hfirst.unobserved addr)⟩
    have hcell : straddling.word 0xFFFF = 0x7C01 := by
      refine (hfirst.word_withCell 0xFFFF 0x7C01 0xFFFF).trans ?_
      rw [if_pos rfl]
    have hword : straddling.word straddling.regs.pc = i.encode := hcell.trans (by decide)
    have hstep := hplain.step_eq (i := i) (by decide) hword
    rw [if_neg (by decide)] at hstep
    obtain ⟨first, next, second, hlisting, hnext, hpc, -⟩ :=
      step_and_listing hplain hstep (.inr (by decide))
    obtain rfl : next = 1 := hnext.trans (by decide)
    exact ⟨i, _, first, second, hstep, hlisting, hpc⟩

end Processor

end WordMachine
