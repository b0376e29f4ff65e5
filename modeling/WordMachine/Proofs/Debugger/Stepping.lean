import WordMachine.Debugger.Basic
import WordMachine.Proofs.Computer.Schedule

/-!
# Proofs/Debugger/Stepping — what a step of the debugger does

A step ends in one of four ways (`Stepped`): the instruction fails, or it is executed within a
frame, or it ends the frame and the devices tick well or badly.  So single steps one after the
other, and runs without breakpoints, keep to the schedule of the computer and tell of the first
error (`tells_stepUpTo`, `tells_ticks`).
-/

namespace WordMachine

namespace Debugger

open Computer (paced schedule)

/-! ## One step -/

/-- What the status line says of the instruction at PC once it has been executed. -/
def stepLine (d : Debugger) : String :=
  s!"PC={hex d.pc}: {String.ofList (Disassembly.ofWords (d.computer.mem.window d.pc 3)).1}"

/-- The ways in which a step can end.  Breakpoints and views are left alone. -/
inductive Stepped (d : Debugger) : Debugger → Prop where
  | fault {e : Computer.Error} {c : Computer} (h : Computer.step d.computer = .error e c) :
      Stepped d { d with computer := c, status := s!"Error: {e.message}", running := false }
  | within {i : Instruction} {c : Computer} (h : Computer.step d.computer = .ok i c)
      (hframe : d.sinceTick + 1 < d.frame) :
      Stepped d
        { d with computer := c, status := d.stepLine, sinceTick := d.sinceTick + 1 }
  | frame {i : Instruction} {c c' : Computer} (h : Computer.step d.computer = .ok i c)
      (hframe : d.frame ≤ d.sinceTick + 1) (htick : Computer.tickDevices c = .ok () c') :
      Stepped d { d with computer := c', status := d.stepLine, sinceTick := 0 }
  | deviceError {i : Instruction} {e : Computer.Error} {c c' : Computer}
      (h : Computer.step d.computer = .ok i c) (hframe : d.frame ≤ d.sinceTick + 1)
      (htick : Computer.tickDevices c = .error e c') :
      Stepped d
        { d with
          computer := c', sinceTick := 0, status := s!"Device error: {e.message}"
          running := false }

theorem onComputer_eq {α : Type} (act : Computer.Action α) (d : Debugger) :
    d.onComputer act =
      match act d.computer with
      | .ok a c => (.ok a, { d with computer := c })
      | .error e c => (.error e, { d with computer := c }) := rfl

variable {d : Debugger}

/-- **Every step ends in one of these ways.** -/
theorem stepped_step (d : Debugger) : Stepped d d.step := by
  rw [step, stepShowing, onComputer_eq]
  cases hstep : Computer.step d.computer with
  | error e c => exact .fault hstep
  | ok i c =>
    have hconfig : c.config = d.computer.config :=
      (Computer.keeps_config_step d.computer.config).of_ok rfl hstep
    have hframe : c.config.cyclesPerFrame.toNat = d.frame := by rw [hconfig, frame]
    dsimp only
    rw [frame, hframe]
    split
    · next hend =>
      rw [tickDevices, onComputer_eq]
      dsimp only
      cases htick : Computer.tickDevices c with
      | ok u c' => exact .frame hstep hend htick
      | error e c' => exact .deviceError hstep hend htick
    · next hwithin => exact .within hstep (Nat.lt_of_not_le hwithin)

theorem breakpoints_step (d : Debugger) : d.step.breakpoints = d.breakpoints := by
  have h := stepped_step d
  generalize d.step = d' at h ⊢
  cases h <;> rfl

/-- The frames stay as long as they are. -/
theorem frame_step (d : Debugger) : d.step.frame = d.frame := by
  suffices hconfig : d.step.computer.config = d.computer.config by rw [frame, hconfig, frame]
  have hkeeps := Computer.keeps_config_step d.computer.config
  have hticks := Computer.keeps_config_tickDevices d.computer.config
  have h := stepped_step d
  generalize d.step = d' at h ⊢
  cases h with
  | fault h => exact hkeeps.of_error rfl h
  | within h => exact hkeeps.of_ok rfl h
  | frame h hframe htick => exact hticks.of_ok (hkeeps.of_ok rfl h) htick
  | deviceError h hframe htick => exact hticks.of_error (hkeeps.of_ok rfl h) htick

/-! ## Steps one after the other -/

/-- Whether the status line shows an instruction, as it does after a step that went well. -/
def showsInstruction (d : Debugger) : Bool := ['P', 'C', '='].isPrefixOf d.status.toList

/-- Up to `n` steps, the last of which is the first that does not go well. -/
def stepUpTo : (n : Nat) → Debugger → Debugger
  | 0, d => d
  | n + 1, d => if d.step.showsInstruction then stepUpTo n d.step else d.step

/-- A debugger has the computer of a result and tells of its error.  Without an error it runs or not
as `running` says. -/
inductive Tells (running : Bool) (d : Debugger) :
    EStateM.Result Computer.Error Computer Unit → Prop where
  | ok (hrun : d.running = running) : Tells running d (.ok () d.computer)
  | error {e : Computer.Error} (hrun : d.running = false)
      (hstatus : d.status = s!"Error: {e.message}" ∨ d.status = s!"Device error: {e.message}") :
      Tells running d (.error e d.computer)

theorem showsInstruction_of_line {d' : Debugger} (h : d'.status = d.stepLine) :
    d'.showsInstruction = true := by
  rw [showsInstruction, h, stepLine]
  simp only [String.toList_append, List.append_assoc]
  rfl

theorem showsInstruction_of_error {e : Computer.Error} (h : d.status = s!"Error: {e.message}") :
    d.showsInstruction = false := by
  rw [showsInstruction, h, String.toList_append]
  rfl

theorem showsInstruction_of_deviceError {e : Computer.Error}
    (h : d.status = s!"Device error: {e.message}") : d.showsInstruction = false := by
  rw [showsInstruction, h, String.toList_append]
  rfl

/-- **Steps keep to the schedule**, up to the first that does not go well. -/
theorem tells_stepUpTo (n : Nat) (d : Debugger) :
    (stepUpTo n d).Tells d.running (paced (max d.frame 1) d.sinceTick n d.computer) := by
  induction n generalizing d with
  | zero => exact .ok rfl
  | succ n ih =>
    have hrest := ih d.step
    rw [frame_step] at hrest
    have hstepped := stepped_step d
    rw [stepUpTo, paced]
    generalize d.step = d' at hstepped hrest ⊢
    cases hstepped with
    | fault h =>
      rw [showsInstruction_of_error rfl, if_neg Bool.false_ne_true, bind_of_error h]
      exact .error rfl (.inl rfl)
    | within h hframe =>
      rw [showsInstruction_of_line rfl, if_pos rfl, bind_of_ok h, if_neg (by omega)]
      exact hrest
    | frame h hframe htick =>
      rw [showsInstruction_of_line rfl, if_pos rfl, bind_of_ok h, if_pos (by omega),
        bind_of_ok htick]
      exact hrest
    | deviceError h hframe htick =>
      rw [showsInstruction_of_deviceError rfl, if_neg Bool.false_ne_true, bind_of_ok h,
        if_pos (by omega), bind_of_error htick]
      exact .error rfl (.inr rfl)

/-! ## Runs without breakpoints -/

/-- `k` ticks of the debugger. -/
def ticks : (k : Nat) → Debugger → Debugger
  | 0, d => d
  | k + 1, d => ticks k d.tick

/-- A run of steps goes on where another has ended, unless that has stopped. -/
theorem runSteps_add (m n : Nat) (hrun : d.running = true) :
    runSteps (m + n) d =
      if (runSteps m d).running = true then runSteps n (runSteps m d) else runSteps m d := by
  induction m generalizing d with
  | zero => rw [Nat.zero_add, runSteps, if_pos hrun]
  | succ m ih =>
    rw [Nat.succ_add, runSteps, runSteps]
    split
    · next hstep =>
      split
      · simp
      · exact ih hstep
    · simp

theorem frame_runSteps (n : Nat) (d : Debugger) : (runSteps n d).frame = d.frame := by
  induction n generalizing d with
  | zero => rfl
  | succ n ih =>
    rw [runSteps]
    split
    · split
      · exact frame_step d
      · exact (ih _).trans (frame_step d)
    · exact frame_step d

theorem ticks_of_not_running (k : Nat) (hrun : d.running = false) : ticks k d = d := by
  induction k with
  | zero => rfl
  | succ k ih => rw [ticks, tick, hrun, if_neg Bool.false_ne_true, ih]

/-- Ticks are one long run of steps. -/
theorem ticks_eq_runSteps (k : Nat) (hrun : d.running = true) :
    ticks k d = runSteps (k * max d.frame 1) d := by
  induction k generalizing d with
  | zero => rw [Nat.zero_mul, runSteps, ticks]
  | succ k ih =>
    rw [ticks, tick, if_pos hrun, Nat.succ_mul, Nat.add_comm, runSteps_add _ _ hrun]
    split
    · next hstill => rw [ih hstill, frame_runSteps]
    · next hstopped => exact ticks_of_not_running k (Bool.not_eq_true _ ▸ hstopped)

theorem runSteps_succ (n : Nat) (hbreak : d.breakpoints = []) :
    runSteps (n + 1) d = if d.step.running = true then runSteps n d.step else d.step := by
  rw [runSteps, breakpoints_step, hbreak]
  rfl

/-- A debugger that runs is left running by the steps that go well. -/
theorem running_step (hrun : d.running = true) : d.step.running = d.step.showsInstruction := by
  have h := stepped_step d
  generalize d.step = d' at h ⊢
  cases h with
  | fault h => exact (showsInstruction_of_error rfl).symm
  | within h hframe => exact hrun.trans (showsInstruction_of_line rfl).symm
  | frame h hframe htick => exact hrun.trans (showsInstruction_of_line rfl).symm
  | deviceError h hframe htick => exact (showsInstruction_of_deviceError rfl).symm

/-- **A run without breakpoints is as many single steps**, up to the first that does not go well. -/
theorem runSteps_eq_stepUpTo (n : Nat) (hbreak : d.breakpoints = []) (hrun : d.running = true) :
    runSteps n d = stepUpTo n d := by
  induction n generalizing d with
  | zero => rfl
  | succ n ih =>
    rw [runSteps_succ n hbreak, stepUpTo, ← running_step hrun]
    split
    · next hstep => exact ih ((breakpoints_step d).trans hbreak) hstep
    · rfl

/-- …and so its ticks keep to the schedule. -/
theorem tells_ticks (k : Nat) (hbreak : d.breakpoints = []) (hrun : d.running = true)
    (hsince : d.sinceTick = 0) :
    (ticks k d).Tells true (schedule (max d.frame 1) (k * max d.frame 1) d.computer) := by
  have htells := tells_stepUpTo (k * max d.frame 1) d
  rw [← runSteps_eq_stepUpTo _ hbreak hrun, ← ticks_eq_runSteps k hrun, hrun, hsince,
    Computer.paced_eq_schedule (by omega)] at htells
  exact htells

end Debugger

end WordMachine
