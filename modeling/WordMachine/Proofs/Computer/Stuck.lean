import WordMachine.Proofs.Computer.Guarded
import WordMachine.Proofs.Computer.Stepping
import WordMachine.Proofs.Processor.Refusal

/-!
# Proofs/Computer/Stuck — a computer at a word that is refused

If the word at PC is refused and no register lies behind it, then a step fails and nothing has
changed.  So everything that executes an instruction fails the same way from then on, and no device
ticks: the computer is stuck (`act_of_refused`).  A run that gets there stops with what its steps
have done so far.

Main statement: `stuck_iff`.
-/

namespace WordMachine

open Bus (Board)
open Processor (Fault Fetches)

namespace Computer

/-! ## Where a fault comes from -/

theorem exists_of_onBoard_error {α : Type} {act : Board.Action α} {c c' : Computer} {e : Error}
    (h : onBoard act c = .error e c') :
    ∃ fault, e = .fault fault ∧ act c.board = .error fault c'.board ∧
      c' = { c with board := c'.board } := by
  cases hend : act c.board with
  | ok a board => cases (onBoard_of_ok hend).symm.trans h
  | error fault board =>
    cases (onBoard_of_error hend).symm.trans h
    exact ⟨fault, rfl, rfl, rfl⟩

/-- Moving the wires has errors of the bus alone. -/
theorem rewire_ne_fault {c c' : Computer} {fault : Fault} :
    rewire c ≠ .error (.fault fault) c' := by
  intro h
  rw [rewire_eq] at h
  split at h
  · cases h
  · rw [onMemory_eq] at h
    split at h <;> cases h

/-- **A step fails as the processor's**… -/
theorem step_eq_fault_iff {c c' : Computer} {fault : Fault} :
    step c = .error (.fault fault) c' ↔
      Processor.step c.board = .error fault c'.board ∧ c' = { c with board := c'.board } := by
  constructor
  · intro h
    rcases of_bind_error h with hstep | ⟨i, d, -, hrest⟩
    · obtain ⟨_, hfault, hacted, hsame⟩ := exists_of_onBoard_error hstep
      cases hfault
      exact ⟨hacted, hsame⟩
    · rcases of_bind_error hrest with hrewire | ⟨_, _, -, hpure⟩
      · exact absurd hrewire rewire_ne_fault
      · cases hpure
  · rintro ⟨hstep, hsame⟩
    rw [hsame]
    exact bind_of_error (onBoard_of_error hstep)

/-- Ticks have only the memory's faults… -/
theorem ofMemory_of_tickDevices {c c' : Computer} {fault : Fault}
    (h : tickDevices c = .error (.fault fault) c') : fault.OfMemory := by
  change (onBoard (Bus.tick c.now) >>= fun _ => rewire) c = _ at h
  have hguards : Bus.Guards (fun board => board.cycles = c.board.cycles) Fault.OfMemory :=
    ⟨Processor.guards_cycles, fun _ _ hcycles => hcycles⟩
  rcases of_bind_error h with htick | ⟨_, _, -, hrewire⟩
  · obtain ⟨_, hfault, hticked, -⟩ := exists_of_onBoard_error htick
    cases hfault
    exact (hguards.tick c.now).error rfl hticked
  · exact absurd hrewire rewire_ne_fault

/-- …so that a run in which a word is at fault **fails as the processor's** too. -/
theorem run_eq_fault_iff {c c' : Computer} {n : Nat} {fault : Fault} (hfault : ¬ fault.OfMemory) :
    run n c = .error (.fault fault) c' ↔
      Processor.exec n c.board = .error fault c'.board ∧ c' = { c with board := c'.board } := by
  constructor
  · intro h
    rcases of_bind_error h with hexec | ⟨_, _, -, htick⟩
    · obtain ⟨_, hsame, hacted, hboard⟩ := exists_of_onBoard_error hexec
      cases hsame
      exact ⟨hacted, hboard⟩
    · exact absurd (ofMemory_of_tickDevices htick) hfault
  · rintro ⟨hexec, hsame⟩
    rw [hsame]
    exact bind_of_error (onBoard_of_error hexec)

/-! ## At a word that is refused -/

/-- Where no register lies behind PC, the word there is the stored one. -/
theorem fetches_of_plain {board : Board} {w : Word}
    (hcell : board.mem.cell? board.regs.pc.toNat = some w)
    (hplain : ∀ slot number,
      board.mem.observer? board.regs.pc.toNat ≠ some (.register slot number)) :
    Fetches board w := by
  refine ⟨hcell, ?_⟩
  unfold Memory.asked
  cases hwire : board.mem.observer? board.regs.pc.toNat with
  | none => rfl
  | some wire =>
    cases wire with
    | register slot number => exact absurd hwire (hplain slot number)
    | screen slot => rfl

/-- An operation that executes an instruction at least. -/
inductive Operation.Executes (c : Computer) : Operation → Prop where
  | step : Executes c .step
  | run {n : Nat} (h : 0 < n) : Executes c (.run n)
  | runFrame (h : 0 < c.config.cyclesPerFrame.toNat) : Executes c .runFrame

/-- **An instruction that fails and changes nothing fails again**, whatever executes it. -/
theorem act_of_refused {c : Computer} {fault : Fault}
    (h : Processor.step c.board = .error fault c.board) {op : Operation} (hop : op.Executes c) :
    op.act c = .error (.fault fault) c := by
  have hrun : ∀ n, 0 < n → run n c = .error (.fault fault) c := by
    intro n hn
    obtain ⟨m, rfl⟩ := Nat.exists_eq_succ_of_ne_zero hn.ne'
    have hexec : Processor.exec (m + 1) c.board = .error fault c.board := bind_of_error h
    exact bind_of_error (onBoard_of_error hexec)
  cases hop with
  | step => exact bind_of_error (bind_of_error (onBoard_of_error h))
  | run hn => exact hrun _ hn
  | runFrame hn => exact hrun _ hn

/-- …so that nothing has changed after any number of them. -/
theorem afterAll_of_refused {c : Computer} {fault : Fault}
    (h : Processor.step c.board = .error fault c.board) {ops : List Operation}
    (hops : ∀ op ∈ ops, op.Executes c) : c.afterAll ops = c := by
  induction ops with
  | nil => rfl
  | cons op ops ih =>
    obtain ⟨hop, hrest⟩ := List.forall_mem_cons.mp hops
    have hafter : op.after c = c := by
      rw [Operation.after, act_of_refused h hop]
      rfl
    change (op.after c).afterAll ops = c
    rw [hafter, ih hrest]

/-- **A computer at a word that is refused is stuck and unharmed.**  Where no register lies behind
PC, a step fails with an unknown opcode if the word's is one of the three without an operation, and
with an illegal write if it is one of eleven others and the first operand is a literal.  Then the
computer is as before in everything, and all that executes an instruction fails again, with the same
error, and changes nothing.  A run fails this way at its instruction number `k + 1` with what `k`
instructions have done, and single steps as many have done the same. -/
theorem stuck_iff (c : Computer) :
    (∀ w, c.mem.cell? c.regs.pc.toNat = some w →
      (∀ slot number, c.mem.observer? c.regs.pc.toNat ≠ some (.register slot number)) →
      (∀ number, (∃ c', step c = .error (.fault (.decode (.unknownOpcode number))) c') ↔
        number = (Fields.ofWord w).op ∧ (number = 7 ∨ number = 8 ∨ number = 9)) ∧
      (∀ pc code, (∃ c', step c = .error (.fault (.illegalWrite pc code)) c') ↔
        pc = c.regs.pc ∧ code = (Fields.ofWord w).a ∧ 0x1F ≤ (code : Nat) ∧
          ((Fields.ofWord w).op : Nat) ∈ [1, 2, 3, 4, 5, 0xA, 0xB, 0xC, 0xD, 0xE, 0xF]) ∧
      ∀ fault c', ¬ fault.OfMemory → step c = .error (.fault fault) c' →
        c' = c ∧
          (∀ op : Operation, op.Executes c → op.act c = .error (.fault fault) c) ∧
          ∀ ops : List Operation, (∀ op ∈ ops, op.Executes c) → c.afterAll ops = c) ∧
    ∀ n fault c', ¬ fault.OfMemory → run n c = .error (.fault fault) c' →
      ∃ k < n, ∃ board, Processor.exec k c.board = .ok () board ∧
        Processor.step board = .error fault c'.board ∧ board.cycles = c.cycles + k ∧
        ((∃ w, board.mem.cell? board.regs.pc.toNat = some w) →
          (∀ slot number,
            board.mem.observer? board.regs.pc.toNat ≠ some (.register slot number)) →
          c' = { c with board }) ∧
        (c.Wired → c.Synced → ∃ d, steps k c = .ok () d ∧ d.regs = board.regs ∧
          (∀ addr, d.mem.cell? addr = board.mem.cell? addr) ∧ d.board.world = board.world ∧
          d.cycles = board.cycles) := by
  constructor
  · intro w hcell hplain
    have hfetches : Fetches c.board w := fetches_of_plain hcell hplain
    have hstep : ∀ {fault : Fault}, ¬ fault.OfMemory → ((∃ c', step c = .error (.fault fault) c') ↔
        Processor.accept c.regs.pc w = .error fault) := by
      intro fault hfault
      constructor
      · rintro ⟨c', hstep⟩
        exact ((hfetches.step_eq_error_iff hfault).mp (step_eq_fault_iff.mp hstep).1).1
      · intro haccept
        have hrefused := (hfetches.step_eq_error_iff hfault).mpr ⟨haccept, rfl⟩
        exact ⟨c, step_eq_fault_iff.mpr ⟨hrefused, rfl⟩⟩
    refine ⟨fun number => ?_, fun pc code => ?_, fun fault c' hfault hfailed => ?_⟩
    · rw [hstep (by rintro ⟨e, ⟨⟩⟩)]
      exact Processor.accept_eq_unknownOpcode_iff
    · rw [hstep (by rintro ⟨e, ⟨⟩⟩)]
      exact Processor.accept_eq_illegalWrite_iff
    · obtain ⟨hrefused, hsame⟩ := step_eq_fault_iff.mp hfailed
      obtain ⟨-, hboard⟩ := (hfetches.step_eq_error_iff hfault).mp hrefused
      rw [hboard] at hrefused hsame
      exact ⟨hsame, fun op => act_of_refused hrefused, fun ops => afterAll_of_refused hrefused⟩
  · intro n fault c' hfault hrun
    obtain ⟨hexec, hsame⟩ := (run_eq_fault_iff hfault).mp hrun
    obtain ⟨k, hk, board, hbefore, hstep⟩ := Processor.exec_eq_error_iff.mp hexec
    refine ⟨k, hk, board, hbefore, hstep, Processor.cycles_exec hbefore, ?plain, ?steps⟩
    case plain =>
      rintro ⟨w, hcell⟩ hplain
      obtain ⟨-, hboard⟩ := ((fetches_of_plain hcell hplain).step_eq_error_iff hfault).mp hstep
      rw [hsame, hboard]
    case steps =>
      intro hwired hsync
      obtain ⟨d, hsteps, htrails⟩ := (lockstep_steps k).exists_ok (.refl hwired hsync)
        (onBoard_of_ok hbefore)
      exact ⟨d, hsteps, htrails.regs.symm, fun addr => (htrails.cell?_eq addr).symm,
        htrails.world.symm, htrails.cycles.symm⟩

/-- The computer of `loaded` at the word that it cannot execute. -/
def halted : Computer := stateOf (steps 2 loaded)

theorem stuck_iff_halted :
    (∃ c', step halted = .error (.fault (.illegalWrite 4 0x25)) c') ∧
      halted.afterAll [.run 5, .step, .run 1] = halted := by
  have hcell : halted.mem.cell? halted.regs.pc.toNat = some 0x0251 := by decide +kernel
  have hplain : halted.mem.observer? halted.regs.pc.toNat = none := by decide +kernel
  have hpc : halted.regs.pc = 4 := by decide +kernel
  obtain ⟨-, hwrite, hstuck⟩ := (stuck_iff halted).1 0x0251 hcell fun _ _ h => by
    rw [hplain] at h
    cases h
  have hfails := (hwrite 4 0x25).mpr ⟨hpc.symm, by decide, by decide, by decide⟩
  obtain ⟨c', hfails'⟩ := hfails
  obtain ⟨-, -, hafter⟩ := hstuck _ c' (by rintro ⟨e, ⟨⟩⟩) hfails'
  refine ⟨⟨c', hfails'⟩, hafter _ fun op hop => ?_⟩
  simp only [List.mem_cons, List.not_mem_nil, or_false] at hop
  rcases hop with rfl | rfl | rfl
  · exact .run (by decide)
  · exact .step
  · exact .run (by decide)

end Computer

end WordMachine
