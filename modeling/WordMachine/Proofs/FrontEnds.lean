import WordMachine.CommandLine.Execution
import WordMachine.Proofs.Debugger.Stepping

/-!
# Proofs/FrontEnds — one schedule for all ways to run a computer

The command line counts all instructions and looks for the end of a frame by division, the debugger
counts the instructions since the last tick, and a computer by itself runs whole frames.  All of
them keep to `Computer.schedule`.  Main statement: `frontEnds_agree`.
-/

namespace WordMachine

open Computer (paced schedule)

namespace CommandLine

/-- The computer at the end of a run, with the fault if the run has ended in one. -/
def Execution.result (e : Execution) : EStateM.Result Computer.Error Computer Unit :=
  match e.fault with
  | none => .ok () e.computer
  | some fault => .error fault e.computer

/-- One more instruction is one more in its frame, or the last one. -/
theorem succ_mod {frame : Nat} (hframe : 0 < frame) (executed : Nat) :
    (executed + 1) % frame =
      if frame ≤ executed % frame + 1 then 0 else executed % frame + 1 := by
  have hlt := Nat.mod_lt executed hframe
  rw [← Nat.mod_add_mod]
  split
  · next hlast => rw [show executed % frame + 1 = frame by omega, Nat.mod_self]
  · next hwithin => exact Nat.mod_eq_of_lt (Nat.lt_of_not_le hwithin)

/-- **A run of the command line keeps to the schedule**, whether or not it is traced. -/
theorem result_execute {frame : Nat} (hframe : 0 < frame) (traced : Bool)
    (remaining executed : Nat) (lines : Array String) (c : Computer) :
    (execute traced frame remaining executed lines c).result =
      paced frame (executed % frame) remaining c := by
  induction remaining generalizing executed lines c with
  | zero => rfl
  | succ remaining ih =>
    have hmod := succ_mod hframe executed
    rw [execute, paced]
    cases hstep : Computer.step c with
    | error e c' =>
      rw [bind_of_error hstep]
      rfl
    | ok i c' =>
      rw [bind_of_ok hstep]
      dsimp only
      by_cases hlast : frame ≤ executed % frame + 1
      · rw [if_pos hlast] at hmod ⊢
        rw [if_pos hmod]
        cases htick : Computer.tickDevices c' with
        | error e c'' =>
          rw [bind_of_error htick]
          rfl
        | ok u c'' =>
          rw [bind_of_ok htick, ← hmod]
          exact ih _ _ _
      · rw [if_neg hlast] at hmod ⊢
        rw [if_neg (by omega), ← hmod]
        exact ih _ _ _

end CommandLine

/-- A debugger as it is started with a computer. -/
def Debugger.fresh (c : Computer) (program : List Word) : Debugger := { computer := c, program }

/-- **All ways to run a loaded computer keep to one schedule**, in which the devices tick after every
full frame of `frame` instructions.  So does the command line with any number of instructions; so
does a debugger with as many steps, up to the first that does not go well; so does a debugger that
runs, where `k` ticks are `k` frames unless an error ends them earlier; and so does the computer with
`k` frames, if nothing goes wrong in between and a frame has instructions. -/
theorem frontEnds_agree {config : Config} {words : List Word} {blank c : Computer}
    (hconfig : Computer.ofConfig config = .ok blank)
    (hload : Computer.loadImage words blank = .ok () c) {frame : Nat}
    (hframe : frame = max config.cyclesPerFrame.toNat 1) :
    (∀ traced n, (CommandLine.Execution.ofComputer traced n c).result = schedule frame n c) ∧
      (∀ n, (Debugger.stepUpTo n (.fresh c words)).Tells false (schedule frame n c)) ∧
      (∀ k n, n = k * frame ∨ n ≤ k * frame ∧ (∃ e c', schedule frame n c = .error e c') →
        (Debugger.ticks k (Debugger.run (.fresh c words))).Tells true (schedule frame n c)) ∧
      (0 < config.cyclesPerFrame → ∀ k c',
        Computer.runFrames k c = .ok () c' ↔ schedule frame (k * frame) c = .ok () c') := by
  have hpos : 0 < frame := by omega
  have hkept : c.config = config :=
    (Computer.keeps_config_loadImage words config).of_ok (Computer.config_of_ofConfig hconfig) hload
  have hblank := Computer.furnished_of_ofConfig hconfig
  have hfurnished : c.Furnished := (Computer.keeps_loadImage words).of_ok hblank hload
  have hsynced : c.Synced := (Computer.tracks_loadImage words).ok hblank hload
  have hpaced := fun n => Computer.paced_eq_schedule hpos n
  refine ⟨fun traced n => ?_, fun n => ?_, fun k n hn => ?_, fun hcycles k c' => ?_⟩
  · rw [CommandLine.Execution.ofComputer, hkept, ← hframe, ← hpaced]
    have hresult := CommandLine.result_execute hpos traced n 0 #[] c
    rwa [Nat.zero_mod] at hresult
  · rw [← hpaced, hframe, ← hkept]
    exact Debugger.tells_stepUpTo n (.fresh c words)
  · have htells := Debugger.tells_ticks k (d := Debugger.run (.fresh c words)) rfl rfl rfl
    have hlength : max (Debugger.run (.fresh c words)).frame 1 = frame := by
      rw [hframe, ← hkept]
      rfl
    rw [hlength] at htells
    rcases hn with rfl | ⟨hle, e, c', hfault⟩
    · exact htells
    · obtain ⟨more, hmore⟩ := Nat.exists_eq_add_of_le hle
      have hstays := Computer.paced_add_of_error ((hpaced n).symm ▸ hfault) more
      rw [← hmore, hpaced] at hstays
      rw [hfault, ← hstays]
      exact htells
  · have hlength : config.cyclesPerFrame.toNat = frame := by
      have := UInt64.lt_iff_toNat_lt.mp hcycles
      simp only [UInt64.toNat_zero] at this
      omega
    rw [Computer.schedule_mul hpos]
    exact Computer.runFrames_eq_ok_iff k hfurnished hsynced (by rw [hkept, hlength])

/-- The small configuration with two instructions in a frame. -/
def pacedConfig : Config := { Computer.smallConfig with cyclesPerFrame := 2 }

/-- The computer of `pacedConfig`. -/
def pacedSmall : Computer :=
  match Computer.ofConfig pacedConfig with
  | .ok c => c
  | .error _ => Computer.small

/-- A loop that counts in register A. -/
def countingWords : List Word := [0x8402, 0x81C1]

/-- The computer of `pacedConfig` with the loop. -/
def counting : Computer := (Computer.Operation.loadImage countingWords).after pacedSmall

theorem frontEnds_agree_counting :
    Computer.ofConfig pacedConfig = .ok pacedSmall ∧
      Computer.loadImage countingWords pacedSmall = .ok () counting ∧
      ∃ c, schedule 2 4 counting = .ok () c ∧ c.regs.get .a = 2 ∧
        (CommandLine.Execution.ofComputer true 4 counting).result = .ok () c ∧
        (Debugger.stepUpTo 4 (.fresh counting countingWords)).Tells false (.ok () c) ∧
        (Debugger.ticks 2 (Debugger.run (.fresh counting countingWords))).Tells true (.ok () c) ∧
        Computer.runFrames 2 counting = .ok () c := by
  have hconfig : Computer.ofConfig pacedConfig = .ok pacedSmall := rfl
  have hload : Computer.loadImage countingWords pacedSmall = .ok () counting :=
    have hsucceeds : (Computer.Operation.loadImage countingWords).succeeds pacedSmall = true := by
      decide +kernel
    Computer.Operation.act_of_succeeds hsucceeds
  have hframe : 2 = max pacedConfig.cyclesPerFrame.toNat 1 := by decide
  obtain ⟨hline, hsteps, hticks, hframes⟩ := frontEnds_agree hconfig hload hframe
  have hclean : (CommandLine.Execution.ofComputer false 4 counting).fault = none :=
    Option.isNone_iff_eq_none.mp (by decide +kernel)
  have hend : schedule 2 4 counting =
      .ok () (CommandLine.Execution.ofComputer false 4 counting).computer := by
    rw [← hline false 4, CommandLine.Execution.result, hclean]
  refine ⟨hconfig, hload, _, hend, by decide +kernel, ?_, ?_, ?_, ?_⟩
  · rw [hline true 4, hend]
  · exact hend ▸ hsteps 4
  · exact hend ▸ hticks 2 4 (.inl rfl)
  · exact (hframes (by decide) 2 _).mpr hend

end WordMachine
