import WordMachine.CommandLine.Execution
import WordMachine.Proofs.Debugger.Stepping
import WordMachine.Proofs.Disassembly.Injective

/-!
# Proofs/CommandLine/Trace — when the trace shows the instruction that was executed

The debugger looks at the words at PC before it executes them, and a traced run afterwards.  So the
two show the same instruction just if it has left its own words alone; an instruction that stores
into them is traced as what it has made of itself.

Main statement: `trace_and_status`.
-/

namespace WordMachine

open Disassembly (ofWords padRight)

/-! ## The cells there are -/

/-- Windows of memories with as many cells are as long. -/
theorem Memory.length_window {ω : Type} {m n : Memory ω} (h : m.capacity = n.capacity) (addr : Word)
    (count : Nat) : (m.window addr count).length = (n.window addr count).length := by
  have hcell : ∀ place, (m.cell? place).isSome = (n.cell? place).isSome := fun place => by
    rw [Bool.eq_iff_iff, Option.isSome_iff_ne_none, Option.isSome_iff_ne_none, ne_eq, ne_eq,
      cell?_eq_none_iff, cell?_eq_none_iff, h]
  rw [window, window, List.length_filterMap_eq_countP, List.length_filterMap_eq_countP]
  simp only [hcell]

namespace Computer

theorem keeps_capacity_rewire (n : Nat) : Keeps (fun c => c.mem.capacity = n) rewire := by
  have hwatch : ∀ addr (wire : Wire), Keeps (fun s : Memory Wire × Bus => s.1.capacity = n)
      (Memory.watch addr wire) := fun addr wire => by
    refine keeps_iff.mpr fun s hs => ?_
    unfold Memory.watch Memory.within
    split
    · exact (Memory.capacity_setObserver _ _ _).trans hs
    · exact hs
  have hattach : Keeps (fun s : Memory Wire × Bus => s.1.capacity = n) Bus.attach :=
    keeps_iff.mpr fun s hs => by
      have hall : Keeps (fun s : Memory Wire × Bus => s.1.capacity = n)
          (s.2.allWires.forM fun entry => Memory.watch entry.1 entry.2) :=
        Lockstep.forM _ fun entry _ => hwatch entry.1 entry.2
      exact keeps_iff.mp hall s hs
  refine keeps_iff.mpr fun c h => ?_
  rw [rewire_eq]
  split
  · exact h
  · rw [stateOf_onMemory]
    exact keeps_iff.mp hattach _ ((capacity_moveScreen _ _ _).trans h)

/-- **A step makes no cells and removes none.** -/
theorem keeps_capacity_step (n : Nat) : Keeps (fun c => c.mem.capacity = n) step := by
  have hagrees : Memory.Agreement fun s t : Memory Wire × Bus => s = t ∧ s.1.capacity = n :=
    ⟨fun _ => Memory.keeps_read_of fun _ _ _ h => h,
      fun _ _ => Memory.keeps_write_of fun _ _ _ h => (Memory.capacity_store _ _ _).trans h⟩
  have hboard := Processor.keeps_of_lockstep (Processor.lockstep_step hagrees)
  have hstep : Keeps (fun c => c.mem.capacity = n) (onBoard Processor.step) :=
    keeps_iff.mpr fun c h => by
      rw [stateOf_onBoard]
      exact keeps_iff.mp hboard c.board h
  exact hstep.bind fun _ => (keeps_capacity_rewire n).bind fun _ => .pure _

end Computer

namespace CommandLine

/-! ## The trace -/

/-- An instruction of a run adds its line, if the rest of the run adds to the lines there are. -/
theorem exists_trace_of_step {traced : Bool} {frame remaining : Nat}
    (hrest : ∀ executed lines c, ∃ more,
      (execute traced frame remaining executed lines c).trace = lines ++ more)
    {c c' : Computer} {i : Instruction} (hstep : Computer.step c = .ok i c') (executed : Nat)
    (lines : Array String) :
    ∃ more, (execute traced frame (remaining + 1) executed lines c).trace =
      (if traced then lines.push (traceLine c.regs.pc c') else lines) ++ more := by
  rw [execute, hstep]
  dsimp only
  split
  · cases Computer.tickDevices c' with
    | error e c'' => exact ⟨#[], Array.append_empty.symm⟩
    | ok u c'' => exact hrest _ _ _
  · exact hrest _ _ _

/-- **A run adds to the lines there are.** -/
theorem exists_trace (traced : Bool) (frame remaining executed : Nat) (lines : Array String)
    (c : Computer) :
    ∃ more, (execute traced frame remaining executed lines c).trace = lines ++ more := by
  induction remaining generalizing executed lines c with
  | zero => exact ⟨#[], Array.append_empty.symm⟩
  | succ remaining ih =>
    cases hstep : Computer.step c with
    | error e c' =>
      rw [execute, hstep]
      exact ⟨#[], Array.append_empty.symm⟩
    | ok i c' =>
      obtain ⟨more, hmore⟩ := exists_trace_of_step ih hstep executed lines
      rw [hmore]
      cases traced with
      | true => exact ⟨#[traceLine c.regs.pc c'] ++ more, by simp⟩
      | false => exact ⟨more, rfl⟩

/-- **The trace and the status line show the same instruction** just if the step has left the
instruction's words alone. -/
theorem trace_and_status {c next : Computer} {i : Instruction}
    (hstep : Computer.step c = .ok i next) :
    ∃ before after : Text, ∃ size,
      ofWords (c.mem.window c.regs.pc 3) = (before, size) ∧
        (ofWords (next.mem.window c.regs.pc 3)).1 = after ∧
        (∀ frame remaining executed lines, ∃ more,
          (execute true frame (remaining + 1) executed lines c).trace = lines.push
            s!"{Debugger.hex c.regs.pc}: {String.ofList (padRight 24 after)} {next.regs.toLine}" ++
              more) ∧
        (∀ d : Debugger, d.computer = c →
          (d.frame ≤ d.sinceTick + 1 → ∃ later, Computer.tickDevices next = .ok () later) →
            d.step.status = s!"PC={Debugger.hex c.regs.pc}: {String.ofList before}") ∧
        (after = before ↔
          (next.mem.window c.regs.pc 3).take size = (c.mem.window c.regs.pc 3).take size) := by
  have hcapacity : next.mem.capacity = c.mem.capacity :=
    (Computer.keeps_capacity_step _).of_ok rfl hstep
  have hlength := Memory.length_window hcapacity.symm c.regs.pc 3
  let first := ofWords (c.mem.window c.regs.pc 3)
  refine ⟨first.1, (ofWords (next.mem.window c.regs.pc 3)).1, first.2, rfl, rfl,
    fun frame remaining executed lines => ?trace, fun d hd htick => ?status, ?agreement⟩
  case trace =>
    exact exists_trace_of_step (fun _ _ _ => exists_trace _ _ _ _ _ _) hstep executed lines
  case status =>
    subst hd
    have hstepped := Debugger.stepped_step d
    generalize d.step = d' at hstepped ⊢
    cases hstepped with
    | fault h =>
      rw [h] at hstep
      cases hstep
    | within h hframe => rfl
    | frame h hframe htick' => rfl
    | deviceError h hframe htick' =>
      obtain ⟨later, hok⟩ := htick hframe
      rw [h] at hstep
      cases hstep
      rw [htick'] at hok
      cases hok
  case agreement =>
    rw [eq_comm, Disassembly.fst_ofWords_eq_iff hlength, eq_comm]

/-- The small computer with a program that stores 5 over its own first word. -/
def rewriting : Computer := (Computer.Operation.loadImage [0x95E1, 0]).after Computer.small

theorem trace_and_status_rewriting :
    ∃ (next : Computer) (more : Array String),
      (execute true 2 1 0 #[] rewriting).trace =
        #[s!"0000: MLI A, A                 {next.regs.toLine}"] ++ more ∧
      ({ computer := rewriting, program := [] } : Debugger).step.status =
        "PC=0000: SET [0x0000], 5" := by
  have hsucceeds : Computer.Operation.step.succeeds rewriting = true := by decide +kernel
  obtain ⟨i, c', hstep, hdone⟩ := exists_of_bind_ok (Computer.Operation.act_of_succeeds hsucceeds)
  obtain rfl : c' = Computer.Operation.step.after rewriting := by
    injection hdone
  obtain ⟨before, after, size, hbefore, hafter, htrace, hstatus, -⟩ := trace_and_status hstep
  obtain ⟨more, hmore⟩ := htrace 2 0 0 #[]
  have hpc : Debugger.hex rewriting.regs.pc = "0000" := by decide +kernel
  obtain rfl : before = "SET [0x0000], 5".toList := by
    refine (congrArg Prod.fst hbefore).symm.trans ?_
    decide +kernel
  obtain rfl : after = "MLI A, A".toList := by
    rw [← hafter]
    decide +kernel
  have htext : String.ofList (padRight 24 "MLI A, A".toList) = "MLI A, A                " := by
    decide +kernel
  rw [hpc, htext] at hmore
  have hframe : ¬ Debugger.frame { computer := rewriting, program := [] } ≤ 1 := by decide +kernel
  have hline := hstatus { computer := rewriting, program := [] } rfl fun h => absurd h hframe
  rw [hpc] at hline
  exact ⟨_, more, hmore, hline.trans (by decide +kernel)⟩

end CommandLine

end WordMachine
