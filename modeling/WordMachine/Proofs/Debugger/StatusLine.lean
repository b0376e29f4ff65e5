import WordMachine.Proofs.Debugger.Stepping
import WordMachine.Proofs.Disassembly.Injective
import WordMachine.Proofs.Disassembly.Walk
import WordMachine.Proofs.Processor.Inversion
import WordMachine.Proofs.Processor.Refusal

/-!
# Proofs/Debugger/StatusLine — the status line and the disassembly show one instruction

The status line reads three words from PC on and leaves out those without a cell; the disassembly
reads up to the first without one.  The two are the same wherever PC has a cell, but for one place
(`window_eq_cellsFrom`): where only the last address has no cell and PC is right before it, the
status line takes the word at address 0 for the second one.  An instruction of two words is shown
with it then, and as data by the disassembly.  To be executed there it must be a NOP, which leaves
its operands alone: any other has to find all its words (`next_lt_capacity_of_step`).

Main statement: `status_and_disassembly`.
-/

namespace WordMachine

/-! ## Two windows -/

namespace Memory

variable {ω : Type} {m : Memory ω}

theorem cell?_of_lt {addr : Nat} (h : addr < m.capacity) : m.cell? addr = some (m.word addr) := by
  cases hcell : m.cell? addr with
  | none => exact absurd (cell?_eq_none_iff.mp hcell) (Nat.not_le.mpr h)
  | some w => rw [word, hcell, Option.getD_some]

theorem window_succ (m : Memory ω) (addr : Word) (count : Nat) :
    m.window addr (count + 1) = (m.cell? addr.toNat).toList ++ m.window (addr + 1) count := by
  have hstart : addr + UInt16.ofNat 0 = addr := UInt16.add_zero addr
  have hrest : ∀ i, addr + UInt16.ofNat (i + 1) = addr + 1 + UInt16.ofNat i := fun i => by
    rw [Nat.add_comm, UInt16.ofNat_add, UInt16.add_assoc]
    rfl
  rw [window, List.range_succ_eq_map, List.filterMap_cons, hstart, List.filterMap_map, window]
  simp only [Function.comp_def, Nat.succ_eq_add_one, hrest]
  cases m.cell? addr.toNat <;> rfl

end Memory

namespace Disassembly

variable {ω : Type} {m : Memory ω} {addr w v : Word}

theorem cellsFrom_of_lt (h : addr.toNat < m.capacity) (count : Nat) :
    cellsFrom m (count + 1) addr = m.word addr.toNat :: cellsFrom m count (addr + 1) := by
  rw [cellsFrom, Memory.cell?_of_lt h]

theorem cellsFrom_of_le (h : m.capacity ≤ addr.toNat) (count : Nat) :
    cellsFrom m count addr = [] := by
  cases count with
  | zero => rfl
  | succ count => rw [cellsFrom, Memory.cell?_eq_none_iff.mpr h]

/-- **The two windows are the same where PC has a cell**, but for one place. -/
theorem window_eq_cellsFrom (h : addr.toNat < m.capacity)
    (hgap : ¬ (m.capacity = 0xFFFF ∧ addr = 0xFFFE)) : m.window addr 3 = cellsFrom m 3 addr := by
  have hnext : (addr + 1).toNat = if addr.toNat = 0xFFFF then 0 else addr.toNat + 1 := by
    have := addr.toNat_lt
    rw [UInt16.toNat_add, UInt16.toNat_one]
    split <;> omega
  have hlast : (addr + 1 + 1).toNat =
      if (addr + 1).toNat = 0xFFFF then 0 else (addr + 1).toNat + 1 := by
    have := (addr + 1).toNat_lt
    rw [UInt16.toNat_add, UInt16.toNat_one]
    split <;> omega
  rw [← UInt16.toNat_inj] at hgap
  have hempty : m.window (addr + 1 + 1 + 1) 0 = [] := rfl
  rw [Memory.window_succ, Memory.window_succ, Memory.window_succ, hempty, List.append_nil,
    Memory.cell?_of_lt h, cellsFrom_of_lt h]
  by_cases hnextCell : (addr + 1).toNat < m.capacity
  · rw [Memory.cell?_of_lt hnextCell, cellsFrom_of_lt hnextCell]
    by_cases hlastCell : (addr + 1 + 1).toNat < m.capacity
    · rw [Memory.cell?_of_lt hlastCell, cellsFrom_of_lt hlastCell]
      rfl
    · have hle := Nat.le_of_not_lt hlastCell
      rw [Memory.cell?_eq_none_iff.mpr hle, cellsFrom_of_le hle]
      rfl
  · -- The address after PC has no cell, so the one after that has one only if it is address 0.
    have hle := Nat.le_of_not_lt hnextCell
    have hlastNone : m.capacity ≤ (addr + 1 + 1).toNat := by
      change ¬ (m.capacity = 0xFFFF ∧ addr.toNat = 0xFFFE) at hgap
      split at hnext <;> split at hlast <;> omega
    rw [Memory.cell?_eq_none_iff.mpr hle, Memory.cell?_eq_none_iff.mpr hlastNone,
      cellsFrom_of_le hle]
    rfl

/-- There the one has two words, of which the second is that at address 0, and the other one has
one word. -/
theorem window_at_gap (h : m.capacity = 0xFFFF) :
    m.window 0xFFFE 3 = [m.word 0xFFFE, m.word 0] ∧ cellsFrom m 3 0xFFFE = [m.word 0xFFFE] := by
  have hpc : (0xFFFE : Word).toNat < m.capacity := by
    rw [h]
    decide
  have hgap : m.capacity ≤ (0xFFFE + 1 : Word).toNat := Nat.le_of_eq h
  have hzero : (0xFFFE + 1 + 1 : Word).toNat < m.capacity := by
    rw [h]
    decide
  have hempty : m.window (0xFFFE + 1 + 1 + 1) 0 = [] := rfl
  constructor
  · rw [Memory.window_succ, Memory.window_succ, Memory.window_succ, hempty,
      Memory.cell?_of_lt hpc, Memory.cell?_eq_none_iff.mpr hgap, Memory.cell?_of_lt hzero]
    rfl
  · rw [cellsFrom_of_lt hpc, cellsFrom_of_le hgap]
    rfl

theorem ofWords_of_decode {i : Instruction} (h : Instruction.decode w = .ok i) (rest : List Word) :
    ofWords (w :: rest) =
      if i.size ≤ rest.length + 1 then (instructionText i rest, i.size) else (dataText w, 1) := by
  have hfit : ((w :: rest).take i.size).length = i.size ↔ i.size ≤ rest.length + 1 := by
    rw [List.length_take, List.length_cons]
    omega
  simp only [ofWords, h, hfit]

/-- An instruction of two words is not shown like data. -/
theorem instructionText_ne_dataText {i : Instruction} (hsize : i.size = 2) (v w : Word) :
    instructionText i [v] ≠ dataText w := by
  have hbare : i ≠ bareNop := by
    rintro rfl
    cases hsize
  have hfit : i.size ≤ [v].length + 1 := Nat.le_of_eq hsize
  obtain ⟨x, y, tail, hrest⟩ := exists_words_append hfit
  rw [hrest, instructionText_eq hbare]
  exact lineText_ne_dataText i x y w

/-- A word is shown alone as it is with another after it, unless it is an instruction of two. -/
theorem fst_ofWords_pair_iff (w v : Word) :
    (ofWords [w, v]).1 = (ofWords [w]).1 ↔
      ¬ ∃ i, Instruction.decode w = .ok i ∧ i.size = 2 := by
  cases hdecode : Instruction.decode w with
  | error e =>
    have hnone : ¬ ∃ i, (Except.error e : Except _ Instruction) = .ok i ∧ i.size = 2 := by
      rintro ⟨i, hi, -⟩
      cases hi
    exact iff_of_true (by simp only [ofWords, hdecode]) hnone
  | ok i =>
    have hexists : (∃ j, (Except.ok i : Except Instruction.DecodeError _) = .ok j ∧ j.size = 2) ↔
        i.size = 2 := by simp
    have hpos : 1 ≤ i.size := by
      rw [Instruction.size]
      omega
    rw [hexists, ofWords_of_decode hdecode, ofWords_of_decode hdecode]
    simp only [List.length_singleton, List.length_nil, Nat.zero_add, Nat.reduceAdd]
    by_cases htwo : i.size = 2
    · rw [if_pos (Nat.le_of_eq htwo), if_neg (by omega)]
      exact iff_of_false (instructionText_ne_dataText htwo v w) fun hne => hne htwo
    · refine iff_of_true ?_ htwo
      by_cases hone : i.size = 1
      · rw [if_pos (by omega), if_pos (Nat.le_of_eq hone)]
        exact instructionText_congr (by simp [hone]) (by simp [hone])
      · rw [if_neg (by omega), if_neg (by omega)]

/-- **The two windows start with the same item** where PC has a cell, unless only the last address
has none, PC is right before it, and an instruction of two words is there. -/
theorem fst_ofWords_window_iff (h : addr.toNat < m.capacity) :
    (ofWords (m.window addr 3)).1 = (ofWords (cellsFrom m 3 addr)).1 ↔
      ¬ (m.capacity = 0xFFFF ∧ addr = 0xFFFE ∧
        ∃ i, Instruction.decode (m.word addr.toNat) = .ok i ∧ i.size = 2) := by
  by_cases hgap : m.capacity = 0xFFFF ∧ addr = 0xFFFE
  · obtain ⟨hcapacity, rfl⟩ := hgap
    obtain ⟨hwindow, hcells⟩ := window_at_gap hcapacity
    rw [hwindow, hcells, fst_ofWords_pair_iff]
    simp only [hcapacity, true_and]
    rfl
  · refine iff_of_true (by rw [window_eq_cellsFrom h hgap]) ?_
    rintro ⟨hcapacity, haddr, -⟩
    exact hgap ⟨hcapacity, haddr⟩

/-- The first line of a listing. -/
theorem ofMemory_one (h : addr.toNat < m.capacity) :
    ofMemory m addr 1 = [(addr, (ofWords (cellsFrom m 3 addr)).1)] := by
  rw [ofMemory, ofMemoryAfter, cellsFrom_of_lt h]
  rfl

end Disassembly

/-! ## What a step has found -/

namespace Processor

variable {ω σ : Type} [Observer ω σ] {p q : Processor ω σ} {i : Instruction}

/-- A step that has succeeded has found the word at PC… -/
theorem lt_capacity_of_step (h : step p = .ok i q) : p.regs.pc.toNat < p.mem.capacity := by
  obtain ⟨_, _, _, hread, -⟩ := exists_of_step h
  exact (of_read_eq_ok hread).1

/-- …and the one after it, if the instruction has more than one and is no NOP. -/
theorem next_lt_capacity_of_step (h : step p = .ok i q) (hop : i.opcode ≠ .nop)
    (hsize : 1 < i.size) : (p.regs.pc + 1).toNat < p.mem.capacity := by
  obtain ⟨w, p', q', hread, -, hexecute, -⟩ := exists_of_step h
  obtain ⟨-, -, rfl⟩ := of_read_eq_ok hread
  obtain ⟨x, p₁, y, p₂, v, p₃, r, p₄, ha, hb, -⟩ := exists_of_execute hop hexecute
  rcases of_resolve_eq_ok ha with ⟨-, extra, hread, -⟩ | ⟨hnotA, rfl, -⟩
  · exact (of_read_eq_ok hread).1
  · rcases of_resolve_eq_ok hb with ⟨-, extra, hread, -⟩ | ⟨hnotB, -, -⟩
    · exact (of_read_eq_ok hread).1
    · rw [Instruction.size, hnotA, hnotB] at hsize
      exact absurd hsize (Nat.lt_irrefl 1)

/-- If nothing answers for the word at PC, it is the one that has been executed. -/
theorem Fetches.eq_encode {w : Word} (hfetch : Fetches p w) (h : step p = .ok i q) :
    w = i.encode := by
  obtain ⟨word, _, _, hread, haccept, -⟩ := exists_of_step h
  obtain ⟨-, hword, -⟩ := of_read_eq_ok hread
  rw [hfetch.asked, Memory.word, hfetch.cell?] at hword
  rw [encode_of_accept haccept, hword]
  rfl

end Processor

namespace Debugger

variable {d : Debugger}

/-- Only the last of the addresses has no cell, PC is right before it, and an instruction of two
words is there: the second would have to be at the address without a cell. -/
def AtGap (d : Debugger) (j : Instruction) : Prop :=
  d.computer.mem.capacity = 0xFFFF ∧ d.pc = 0xFFFE ∧
    Instruction.decode (d.computer.mem.word d.pc.toNat) = .ok j ∧ j.size = 2

/-- What the status line says of an instruction at an address. -/
def statusLine (addr : Word) (text : Text) : String := s!"PC={hex addr}: {String.ofList text}"

theorem statusLine_inj {addr : Word} {text text' : Text} :
    statusLine addr text = statusLine addr text' ↔ text = text' := by
  constructor
  · intro h
    have hlist := congrArg String.toList h
    simpa only [statusLine, toString, String.toList_append, List.append_cancel_left_eq,
      String.toList_ofList] using hlist
  · rintro rfl
    rfl

/-- A step that has succeeded shows the instruction at PC, unless the devices have failed. -/
theorem status_step {i : Instruction} {next : Computer}
    (hstep : Computer.step d.computer = .ok i next)
    (htick : d.frame ≤ d.sinceTick + 1 → ∃ later, Computer.tickDevices next = .ok () later) :
    d.step.status = statusLine d.pc (Disassembly.ofWords (d.computer.mem.window d.pc 3)).1 := by
  have hstepped := stepped_step d
  generalize d.step = d' at hstepped ⊢
  cases hstepped with
  | fault h =>
    rw [h] at hstep
    cases hstep
  | within h hframe => rfl
  | frame h hframe htick' => rfl
  | deviceError h hframe htick' =>
    obtain ⟨later, hok⟩ := htick hframe
    rw [h] at hstep
    cases hstep
    rw [htick'] at hok
    cases hok

/-- The processor has made the step too. -/
theorem exists_processor_step {i : Instruction} {c next : Computer}
    (hstep : Computer.step c = .ok i next) :
    ∃ board, Processor.step c.board = .ok i board := by
  obtain ⟨j, _, hboard, hrest⟩ := exists_of_bind_ok hstep
  obtain ⟨_, _, -, hdone⟩ := exists_of_bind_ok hrest
  cases hdone
  rw [Computer.onBoard_eq] at hboard
  cases hend : Processor.step c.board with
  | ok a board =>
    rw [hend] at hboard
    cases hboard
    exact ⟨board, rfl⟩
  | error e board =>
    rw [hend] at hboard
    cases hboard

/-- **After a step that went well the status line shows the instruction that the disassembly showed
at PC**, unless PC was at the gap.  Then the disassembly showed a word of data, and the status line
an instruction with its second word from address 0; and what was executed is a NOP, if nothing but
the memory answers for the word at PC. -/
theorem status_and_disassembly {i : Instruction} {next : Computer}
    (hstep : Computer.step d.computer = .ok i next)
    (htick : d.frame ≤ d.sinceTick + 1 → ∃ later, Computer.tickDevices next = .ok () later) :
    ∃ text : Text, d.disassembly 1 = [(d.pc, text, true)] ∧
      (d.step.status = statusLine d.pc text ↔ ∀ j, ¬ d.AtGap j) ∧
      ∀ j, d.AtGap j →
        text = Disassembly.dataText (d.computer.mem.word d.pc.toNat) ∧
          d.step.status =
            statusLine d.pc (Disassembly.instructionText j [d.computer.mem.word 0]) ∧
          (d.computer.board.Fetches (d.computer.mem.word d.pc.toNat) → i = j ∧ i.opcode = .nop) := by
  obtain ⟨board, hboard⟩ := exists_processor_step hstep
  have hcell : d.pc.toNat < d.computer.mem.capacity := Processor.lt_capacity_of_step hboard
  have hstatus := status_step hstep htick
  refine ⟨(Disassembly.ofWords (Disassembly.cellsFrom d.computer.mem 3 d.pc)).1, ?pane, ?agreement,
    fun j hgap => ?gap⟩
  case pane =>
    rw [disassembly, Disassembly.ofMemory_one hcell, List.map_singleton]
    dsimp only
    rw [beq_self_eq_true]
  case agreement =>
    rw [hstatus, statusLine_inj, Disassembly.fst_ofWords_window_iff hcell]
    constructor
    · rintro hnone j ⟨hcapacity, hpc, hdecode, hsize⟩
      exact hnone ⟨hcapacity, hpc, j, hdecode, hsize⟩
    · rintro hnone ⟨hcapacity, hpc, j, hdecode, hsize⟩
      exact hnone j ⟨hcapacity, hpc, hdecode, hsize⟩
  case gap =>
    obtain ⟨hcapacity, hpc, hdecode, hsize⟩ := hgap
    obtain ⟨hwindow, hcells⟩ := Disassembly.window_at_gap hcapacity
    have hword : d.computer.mem.word d.pc.toNat = d.computer.mem.word 0xFFFE := by
      rw [hpc]
      rfl
    rw [hword] at hdecode ⊢
    refine ⟨?_, ?_, fun hfetch => ?_⟩
    · rw [hpc, hcells, Disassembly.ofWords_of_decode hdecode, if_neg (by simp [hsize])]
    · rw [hstatus, hpc, hwindow, Disassembly.ofWords_of_decode hdecode,
        if_pos (by simp [hsize])]
    · obtain rfl : i = j := by
        rw [hfetch.eq_encode hboard, Instruction.decode_encode] at hdecode
        exact Except.ok.inj hdecode
      refine ⟨rfl, by_contra fun hop => ?_⟩
      have hnext := Processor.next_lt_capacity_of_step hboard hop (by omega)
      change (d.pc + 1).toNat < d.computer.mem.capacity at hnext
      rw [hpc, hcapacity] at hnext
      exact absurd hnext (by decide)

/-- A NOP with an operand that takes a word, in the last cell of a memory that has all but one. -/
def gapped : Debugger where
  computer :=
    let machine := Processor.ofMemory ((Memory.ofCapacity 0xFFFF).store 0xFFFE 0x0100) ({} : Bus)
    { board := machine.withRegs { pc := 0xFFFE }, config := {} }
  program := []

theorem status_and_disassembly_gapped :
    ∃ next, Computer.step gapped.computer = .ok ⟨.nop, .indirectOffset .a, .register .a⟩ next ∧
      gapped.disassembly 1 = [(0xFFFE, "DAT 0x0100".toList, true)] ∧
      gapped.step.status = "PC=fffe: NOP [A + 0x0000], A" := by
  have hcell : ∀ addr, gapped.computer.mem.cell? addr =
      if 0xFFFE = addr ∧ addr < 0xFFFF then some 0x0100
      else if addr < 0xFFFF then some 0 else none := by
    intro addr
    refine (Memory.cell?_store _ _ _ _).trans ?_
    rw [Memory.capacity_ofCapacity, Memory.cell?_ofCapacity]
  have hfetch : gapped.computer.board.Fetches 0x0100 := by
    have hnone : ∀ addr, gapped.computer.board.mem.observer? addr = none := fun addr =>
      (Memory.observer?_store _ _ _ _).trans (Memory.observer?_ofCapacity _ _)
    refine ⟨hcell 0xFFFE, ?_⟩
    rw [Memory.asked, hnone]
  obtain ⟨next, hstep⟩ : ∃ next, Computer.step gapped.computer =
      .ok ⟨.nop, .indirectOffset .a, .register .a⟩ next := by
    exact ⟨_, bind_of_ok (Computer.onBoard_of_ok (hfetch.step_eq.trans rfl))⟩
  have hgap : gapped.AtGap ⟨.nop, .indirectOffset .a, .register .a⟩ := by
    refine ⟨?_, rfl, ?_, rfl⟩
    · exact (Memory.capacity_store _ _ _).trans (Memory.capacity_ofCapacity _)
    · change Instruction.decode ((gapped.computer.mem.cell? 0xFFFE).getD 0) = _
      rw [hcell]
      rfl
  obtain ⟨text, hpane, -, hatGap⟩ := status_and_disassembly hstep fun hframe =>
    absurd hframe (by decide)
  obtain ⟨rfl, hstatus, -⟩ := hatGap _ hgap
  refine ⟨next, hstep, hpane.trans ?_, hstatus.trans ?_⟩
  · change [(_, Disassembly.dataText ((gapped.computer.mem.cell? 0xFFFE).getD 0), _)] = _
    rw [hcell]
    decide +kernel
  · rw [Memory.word, hcell]
    decide +kernel

end Debugger

end WordMachine
