import WordMachine.Proofs.Memory.Access
import WordMachine.Proofs.Lockstep

/-!
# Proofs/Processor/Fault — a faulting instruction has written nothing

An instruction reads first and stores once, last of all, and a store that fails has changed no cell
and told no observer.  So whatever reads keep of memory and world, a faulting step spares:
`spares_step`.
-/

namespace WordMachine

namespace Processor

variable {ω σ α : Type} {P : Memory ω × σ → Prop}

theorem keeps_onRegs (f : Registers → Registers) :
    Keeps (fun p : Processor ω σ => P (p.mem, p.world)) (onRegs f) :=
  keeps_of_lockstep (lockstep_onRegs f)

theorem keeps_ofRegs (f : Registers → α) :
    Keeps (fun p : Processor ω σ => P (p.mem, p.world)) (ofRegs f) :=
  keeps_of_lockstep (lockstep_ofRegs f)

variable [Observer ω σ]

/-- A write that fails changes nothing. -/
theorem spares_write (addr w : Word) :
    Spares (fun p : Processor ω σ => P (p.mem, p.world)) (write addr w) := by
  intro p e q hP h
  by_cases hlt : addr.toNat < p.mem.capacity
  · rw [write_eq hlt] at h
    cases h
  · rw [write_eq_error (Nat.le_of_not_lt hlt)] at h
    cases h
    exact hP

theorem spares_store (w : Word) (x : Place) :
    Spares (fun p : Processor ω σ => P (p.mem, p.world)) (store w x) := by
  cases x with
  | cell addr => exact spares_write addr w
  | stack =>
    exact .bind (keeps_onRegs _) fun _ => .bind (keeps_ofRegs _) fun sp => spares_write sp w
  | register r => exact (keeps_onRegs fun regs => regs.set r w).spares
  | sp => exact (keeps_onRegs fun regs => { regs with sp := w }).spares
  | pc => exact (keeps_onRegs fun regs => { regs with pc := w }).spares
  | ex => exact (keeps_onRegs fun regs => { regs with ex := w }).spares
  | literal v => exact .of_forall_ok fun p => ⟨(), p, rfl⟩

variable (hread : ∀ addr, Keeps P (Memory.read addr : Memory.Access ω σ Word))
include hread

theorem keeps_resolve (o : Operand) :
    Keeps (fun p : Processor ω σ => P (p.mem, p.world)) (resolve o) :=
  keeps_of_lockstep (lockstep_resolve hread o)

theorem keeps_load (x : Place) : Keeps (fun p : Processor ω σ => P (p.mem, p.world)) (load x) :=
  keeps_of_lockstep (lockstep_load hread x)

theorem spares_execute (i : Instruction) :
    Spares (fun p : Processor ω σ => P (p.mem, p.world)) (execute i) := by
  obtain ⟨op, a, b⟩ := i
  unfold execute
  split
  · exact .of_forall_ok fun p => ⟨(), p, rfl⟩
  · exact .bind (keeps_resolve hread a) fun destination =>
      .bind (keeps_resolve hread b) fun source =>
      .bind (keeps_load hread source) fun w => spares_store w destination
  · refine .bind (keeps_resolve hread a) fun destination =>
      .bind (keeps_resolve hread b) fun source =>
      .bind (keeps_load hread source) fun v =>
      .bind (keeps_load hread destination) fun w => ?_
    -- EX, if the operation leaves it anything, is a register: only the store can fail
    dsimp only
    split
    · exact .bind (keeps_onRegs _) fun _ => spares_store _ destination
    · exact spares_store _ destination

/-- **A faulting step spares whatever reads keep.** -/
theorem spares_step : Spares (fun p : Processor ω σ => P (p.mem, p.world)) step := by
  refine .bind (keeps_ofRegs _) fun pc => .bind (keeps_of_lockstep (lockstep_read hread pc))
    fun word => ?_
  split
  · exact Keeps.spares (Lockstep.throw _)
  · refine .bind (keeps_onRegs _) fun _ => ?_
    exact (spares_execute hread _).bind_of_forall_ok fun _ p => ⟨_, _, rfl⟩

end Processor

end WordMachine
