import WordMachine.Memory.Probe
import WordMachine.Proofs.Processor.Unobserved

/-!
# Proofs/Processor/Frame — what an instruction leaves as it is

An instruction changes its destination, and of what it does not name only PC, EX and, by the stack,
SP.  It has no way to change IA, which only reset does: so long as instructions are executed,
interrupts go where they went at the start or are dropped as they were (`ia_exec`).

Main statement: `frame_of_step`.
-/

namespace WordMachine

namespace Processor

variable {ω σ : Type}

/-- **The frame of an instruction** that has led from `p` to `q` on a memory of which no cell is
observed. -/
structure Frame (p : Processor ω σ) (i : Instruction) (q : Processor ω σ) : Prop where
  unobserved : q.Unobserved
  world : q.world = p.world
  ia : q.regs.ia = p.regs.ia
  general (r : Register) : i.a ≠ .register r → q.regs.get r = p.regs.get r
  /-- Where a cell has changed, it is the destination. -/
  cells (addr : Nat) : q.mem.cell? addr ≠ p.mem.cell? addr →
    ((p.destination i).address? q.regs.sp).map (·.toNat) = some addr
  ex : i.opcode ∈ [.nop, .set, .and, .bor, .xor] → i.a ≠ .ex → q.regs.ex = p.regs.ex
  sp : i.opcode ≠ .nop → i.a ≠ .sp → q.regs.sp = p.regs.sp + (i.pops - i.a.shift)
  nop : i.opcode = .nop → q = (p.goto (p.regs.pc + 1)).completed i

/-- A NOP leaves everything as it is but for PC. -/
theorem frame_nop {p : Processor ω σ} {i : Instruction} (h : p.Unobserved) (hop : i.opcode = .nop) :
    Frame p i ((p.goto (p.regs.pc + 1)).completed i) where
  unobserved := h
  world := rfl
  ia := rfl
  general _ _ := rfl
  cells _ hchanged := absurd rfl hchanged
  ex _ _ := rfl
  sp hne := absurd hop hne
  nop _ := rfl

/-- These operations leave nothing for EX. -/
theorem ex_compute {op : Opcode} (h : op ∈ [.nop, .set, .and, .bor, .xor]) (v w : Word) :
    (Alu.compute op w v).ex = none := by
  cases op with
  | nop | set | and | bor | xor => rfl
  | _ => exact absurd h (by decide)

/-- **The result of an operation is put at the destination alone.** -/
theorem frame_put {p : Processor ω σ} {i : Instruction} (h : p.Unobserved) (hop : i.opcode ≠ .nop) :
    Frame p i
      (((p.withRegs (p.settled i)).put (p.outcome i).result (p.destination i)).completed i) where
  unobserved addr := (observer?_put addr).trans (h addr)
  world := world_put _ _ _
  ia := ia_put _ _ _
  general r hne := get_put (Meaning.place_ne rfl hne)
  cells _ := address?_of_cell?_put
  ex hkept hne := by
    refine (ex_put (Meaning.place_ne rfl hne)).trans ?_
    change (p.outcome i).ex.getD p.regs.ex = _
    rw [outcome, ex_compute hkept]
    rfl
  sp _ hne := by
    refine (sp_put (Meaning.place_ne rfl hne)).trans ?_
    refine (Place.pushed_place _ _ _ _).trans ?_
    change p.regs.sp + i.pops - i.a.shift = _
    rw [UInt16.sub_eq_add_neg, UInt16.add_assoc, ← UInt16.sub_eq_add_neg]
  nop hnop := absurd hnop hop

/-! ## IA -/

section Interrupts

variable {α : Type} {ia : Word}

theorem keeps_ia_onMemory (access : Memory.Access ω σ α) :
    Keeps (fun p : Processor ω σ => p.regs.ia = ia) (onMemory access) :=
  keeps_regs_onMemory (P := (·.ia = ia)) access

theorem keeps_ia_onRegs (f : Registers → Registers) (hf : ∀ regs, (f regs).ia = regs.ia) :
    Keeps (fun p : Processor ω σ => p.regs.ia = ia) (onRegs f) :=
  keeps_regs_onRegs (P := (·.ia = ia)) fun regs h => (hf regs).trans h

theorem keeps_ia_ofRegs (f : Registers → α) :
    Keeps (fun p : Processor ω σ => p.regs.ia = ia) (ofRegs f) :=
  keeps_regs_ofRegs (P := (·.ia = ia)) f

variable [Observer ω σ]

theorem keeps_ia_nextWord : Keeps (fun p : Processor ω σ => p.regs.ia = ia) nextWord :=
  (keeps_ia_ofRegs _).bind fun addr =>
    (keeps_ia_onRegs (fun regs => { regs with pc := addr + 1 }) fun _ => rfl).bind fun _ =>
    keeps_ia_onMemory _

theorem keeps_ia_resolve (o : Operand) :
    Keeps (fun p : Processor ω σ => p.regs.ia = ia) (resolve o) := by
  cases o with
  | indirect r | peek => exact (keeps_ia_ofRegs _).bind fun _ => .pure _
  | indirectOffset r | pick =>
    exact keeps_ia_nextWord.bind fun _ => (keeps_ia_ofRegs _).bind fun _ => .pure _
  | indirectNext | nextLiteral => exact keeps_ia_nextWord.bind fun _ => .pure _
  | _ => exact .pure _

theorem keeps_ia_load (x : Place) : Keeps (fun p : Processor ω σ => p.regs.ia = ia) (load x) := by
  cases x with
  | register r => exact keeps_ia_ofRegs (·.get r)
  | cell addr => exact keeps_ia_onMemory _
  | stack =>
    exact (keeps_ia_ofRegs _).bind fun _ => (keeps_ia_onMemory _).bind fun _ =>
      (keeps_ia_onRegs (fun regs => { regs with sp := regs.sp + 1 }) fun _ => rfl).bind fun _ =>
      .pure _
  | sp => exact keeps_ia_ofRegs (·.sp)
  | pc => exact keeps_ia_ofRegs (·.pc)
  | ex => exact keeps_ia_ofRegs (·.ex)
  | literal w => exact .pure w

theorem keeps_ia_store (w : Word) (x : Place) :
    Keeps (fun p : Processor ω σ => p.regs.ia = ia) (store w x) := by
  cases x with
  | register r => exact keeps_ia_onRegs (fun regs => regs.set r w) fun _ => rfl
  | cell addr => exact keeps_ia_onMemory _
  | stack =>
    exact (keeps_ia_onRegs (fun regs => { regs with sp := regs.sp - 1 }) fun _ => rfl).bind fun _ =>
      (keeps_ia_ofRegs _).bind fun _ => keeps_ia_onMemory _
  | sp => exact keeps_ia_onRegs (fun regs => { regs with sp := w }) fun _ => rfl
  | pc => exact keeps_ia_onRegs (fun regs => { regs with pc := w }) fun _ => rfl
  | ex => exact keeps_ia_onRegs (fun regs => { regs with ex := w }) fun _ => rfl
  | literal v => exact .pure ()

theorem keeps_ia_execute (i : Instruction) :
    Keeps (fun p : Processor ω σ => p.regs.ia = ia) (execute i) := by
  by_cases hop : i.opcode = .nop
  · rw [execute_nop hop]
    exact .pure ()
  · obtain ⟨op, a, b⟩ := i
    rw [execute_eq hop]
    refine (keeps_ia_resolve a).bind fun x => (keeps_ia_resolve b).bind fun y =>
      (keeps_ia_load y).bind fun v => Lockstep.bind ?_ fun r => keeps_ia_store r x
    rw [result]
    split
    · exact .pure v
    · exact (keeps_ia_load x).bind fun w => (keeps_ia_onRegs
        (fun regs => { regs with ex := (Alu.compute op w v).ex.getD regs.ex }) fun _ => rfl).bind
        fun _ => .pure _

/-- **No instruction changes IA**, even one that faults… -/
theorem keeps_ia_step : Keeps (fun p : Processor ω σ => p.regs.ia = ia) step := by
  refine (keeps_ia_ofRegs _).bind fun pc => (keeps_ia_onMemory _).bind fun word => ?_
  split
  · exact Lockstep.throw _
  · refine (keeps_ia_onRegs (fun regs => { regs with pc := pc + 1 }) fun _ => rfl).bind fun _ =>
      (keeps_ia_execute _).bind fun _ => ?_
    exact Lockstep.bind (keeps_iff.mpr fun _ h => h) fun _ => .pure _

/-- …**and so no run does**. -/
theorem keeps_ia_exec (n : Nat) : Keeps (fun p : Processor ω σ => p.regs.ia = ia) (exec n) := by
  induction n with
  | zero => exact .pure ()
  | succ n ih => exact keeps_ia_step.bind fun _ => ih

end Interrupts

/-! ## The whole step -/

variable [Observer ω σ]

/-- **A step keeps to the frame of its instruction** if no cell is observed, and a run of any length,
whether it faults or not, never changes IA. -/
theorem frame_of_step (p : Processor ω σ) :
    (p.Unobserved → ∀ i q, step p = .ok i q → Frame p i q) ∧
      ∀ n, (stateOf (exec n p)).regs.ia = p.regs.ia := by
  refine ⟨fun h i q hstep => ?_, fun n => keeps_iff.mp (keeps_ia_exec n) p rfl⟩
  have hdone := h.of_step hstep
  by_cases hop : i.opcode = .nop
  · rw [if_pos hop] at hdone
    exact hdone ▸ frame_nop h hop
  · rw [if_neg hop] at hdone
    exact hdone.1 ▸ frame_put h hop

/-- A processor at `ADD PUSH, POP`. -/
def summing : Processor Probe Probe.Log where
  regs := { sp := 1 }
  mem := (Memory.ofCapacity 3).storeAll 0 [0x6182, 20, 22]
  world := {}

theorem frame_of_step_summing :
    ∃ q, step summing = .ok ⟨.add, .stack, .stack⟩ q ∧ q.regs.sp = 2 ∧
      ∀ addr, addr ≠ 2 → q.mem.cell? addr = summing.mem.cell? addr := by
  have hunobserved : summing.Unobserved := fun _ =>
    (Memory.observer?_storeAll _ _ _ _).trans (Memory.observer?_ofCapacity _ _)
  obtain ⟨q, hstep⟩ : ∃ q, step summing = .ok ⟨.add, .stack, .stack⟩ q := ⟨_, rfl⟩
  have hframe := (frame_of_step summing).1 hunobserved _ _ hstep
  have hsp : q.regs.sp = 2 := hframe.sp (by decide) (by decide)
  refine ⟨q, hstep, hsp, fun addr hne => Decidable.byContradiction fun hchanged => hne ?_⟩
  have hdestination : some q.regs.sp.toNat = some addr := hframe.cells addr hchanged
  rw [hsp] at hdestination
  exact (Option.some.inj hdestination).symm

end Processor

end WordMachine
