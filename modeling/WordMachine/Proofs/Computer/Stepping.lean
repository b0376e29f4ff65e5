import WordMachine.Proofs.Computer.Lag
import WordMachine.Proofs.Computer.Reachable

/-!
# Proofs/Computer/Stepping — a run and single steps come to the same

A run moves the screen wires once, at its end; single steps move them after every instruction.
`Trails` relates a computer that does not move its wires to one that does.  It is kept by every
instruction (`lockstep_step`) and every tick, and once the first computer moves its wires as well,
the two are equal (`Trails.exists_rewire`).  Main statements: `run_agrees` and, for computers whose
wires have been tampered with, `not_run_agrees`.
-/

namespace WordMachine

open Bus (Board Uniform)

namespace Computer

/-- Execute `n` instructions, and move the wires after each. -/
def steps : (n : Nat) → Action Unit
  | 0 => return
  | n + 1 => do
    let _ ← step
    steps n

/-- `c` differs from `d` in its screen wires alone.  Unless the display is dirty, they do not differ
at all and are where its picture is. -/
structure Trails (c d : Computer) : Prop where
  regs : c.board.regs = d.board.regs
  cell?_eq : ∀ addr, c.mem.cell? addr = d.mem.cell? addr
  world : c.board.world = d.board.world
  cycles : c.board.cycles = d.board.cycles
  last : c.board.last = d.board.last
  config : c.config = d.config
  now : c.now = d.now
  wired : c.Wired
  wired' : d.Wired
  sync : c.display.dirty = true ∨ d.watched = c.watched ∧ c.display.window? = c.watched

theorem quiet_screenWire? (picture : Option Span) (addr : Nat) :
    Quiet (screenWire? picture addr) := by
  unfold screenWire?
  split
  · exact .inr rfl
  · exact .inl rfl

namespace Trails

variable {c d : Computer}

protected theorem refl (h : c.Wired) (hsync : c.Synced) : Trails c c :=
  ⟨rfl, fun _ => rfl, rfl, rfl, rfl, rfl, rfl, h, h, .inr ⟨rfl, hsync.symm⟩⟩

theorem display_eq (h : Trails c d) : c.display = d.display := by
  rw [display, display, h.world]

theorem quiet (h : Trails c d) (addr : Nat) :
    c.mem.observer? addr = d.mem.observer? addr ∨
      d.watched ≠ c.watched ∧ Quiet (c.mem.observer? addr) ∧ Quiet (d.mem.observer? addr) := by
  have hcapacity : c.mem.capacity = d.mem.capacity := Memory.capacity_congr h.cell?_eq
  by_cases hlt : addr < c.mem.capacity
  · rw [h.wired.observer?_eq addr hlt, h.wired'.observer?_eq addr (hcapacity ▸ hlt), wire?, wire?,
      ← h.world]
    by_cases heq : d.watched = c.watched
    · exact .inl (by rw [heq])
    · cases c.board.world.wire? addr with
      | some wire => exact .inl rfl
      | none => exact .inr ⟨heq, quiet_screenWire? _ _, quiet_screenWire? _ _⟩
  · have hle := Nat.le_of_not_lt hlt
    rw [Memory.observer?_eq_none_of_capacity_le hle,
      Memory.observer?_eq_none_of_capacity_le (hcapacity ▸ hle)]
    exact .inl rfl

theorem lag (h : Trails c d) :
    Lag c.watched d.watched (c.board.mem, c.board.world) (d.board.mem, d.board.world) := by
  obtain ⟨s, hs⟩ := h.wired.display
  refine ⟨h.world, h.cell?_eq, h.wired.idle, h.quiet, s, hs, ?_⟩
  rw [← Computer.display_eq hs]
  exact h.sync

/-- **Boards in lockstep leave the computers so.** -/
theorem advance (h : Trails c d) {p q : Board}
    (hpq : Processor.Alike (Lag c.watched d.watched) p q)
    (hp : SameWiring (c.board.mem, c.board.world) (p.mem, p.world))
    (hq : SameWiring (d.board.mem, d.board.world) (q.mem, q.world)) :
    Trails { c with board := p } { d with board := q } := by
  refine ⟨hpq.regs, hpq.memory.cell?_eq, hpq.memory.bus_eq, hpq.cycles, hpq.last, h.config, h.now,
    h.wired.of_sameWiring hp, h.wired'.of_sameWiring hq, ?_⟩
  obtain ⟨s, hs, hsync⟩ := hpq.memory.display
  rw [Computer.display_eq hs]
  exact hsync

/-- Moving the wires of the computer ahead leaves the other trailing. -/
theorem exists_rewire_ahead (h : Trails c d) : ∃ d', rewire d = .ok () d' ∧ Trails c d' := by
  obtain ⟨mem, hrewire, hcells, hwired⟩ := exists_rewire h.wired'
  refine ⟨_, hrewire, h.regs, fun addr => ?_, h.world, h.cycles, h.last, h.config, h.now, h.wired,
    hwired, ?_⟩
  · exact (h.cell?_eq addr).trans (hcells addr).symm
  · rcases h.sync with hdirty | ⟨-, hwindow⟩
    · exact .inl hdirty
    · refine .inr ⟨?_, hwindow⟩
      rw [← hwindow, h.display_eq]
      rfl

/-- **Once both move their wires, nothing is left between the computers.** -/
theorem exists_rewire_eq (h : Trails c d) : ∃ e, rewire c = .ok () e ∧ rewire d = .ok () e := by
  obtain ⟨mem, hrewire, hcells, hwired⟩ := exists_rewire h.wired
  obtain ⟨mem', hrewire', hcells', hwired'⟩ := exists_rewire h.wired'
  have hwatched : (c.rewired mem).watched = (d.rewired mem').watched :=
    congrArg Display.window? h.display_eq
  have hmem : mem = mem' := hwired.mem_eq hwired' h.world hwatched fun addr =>
    (hcells addr).trans ((h.cell?_eq addr).trans (hcells' addr).symm)
  have heq : c.rewired mem = d.rewired mem' := by
    have hdisplay := h.display_eq
    obtain ⟨⟨regs, _, world, cycles, last⟩, config, watched, now⟩ := c
    obtain ⟨⟨_, _, _, _, _⟩, _, _, _⟩ := d
    obtain ⟨rfl, -, rfl, rfl, rfl, rfl, rfl, -, -, -⟩ := h
    simp only [rewired, hmem, hdisplay]
  exact ⟨_, hrewire, heq ▸ hrewire'⟩

end Trails

/-! ## Instructions and ticks -/

theorem lockstep_onBoard {α : Type} {act : Board.Action α} (hact : Uniform displaySlot act) :
    Lockstep Trails (onBoard act) (onBoard act) := by
  intro c d h
  have hend := hact Lag.congruence
    (⟨h.regs, h.lag, h.cycles, h.last⟩ : Processor.Alike _ c.board d.board)
  have hc := h.wired.sameWiring_act hact
  have hd := h.wired'.sameWiring_act hact
  rw [onBoard_eq, onBoard_eq]
  generalize act c.board = x at hend hc ⊢
  generalize act d.board = y at hend hd ⊢
  cases hend with
  | ok a hpq => exact .ok a (h.advance hpq hc hd)
  | error e hpq => exact .error _ (h.advance hpq hc hd)

theorem onBoard_bind {α β : Type} (f : Board.Action α) (k : α → Board.Action β) :
    onBoard (f >>= k) = (onBoard f >>= fun a => onBoard (k a)) := by
  funext c
  simp only [bind, EStateM.bind, onBoard_eq]
  cases f c.board with
  | ok a board => rfl
  | error e board => rfl

/-- The wires may be moved after whatever the computer ahead does. -/
theorem lockstep_rewire_ahead {α : Type} {f g : Action α} (h : Lockstep Trails f g) :
    Lockstep Trails f (do let a ← g; rewire; return a) := by
  intro c d hcd
  have hend := h hcd
  change SameEnd Trails (f c) (EStateM.bind g _ d)
  unfold EStateM.bind
  generalize f c = x at hend ⊢
  generalize g d = y at hend ⊢
  cases hend with
  | error e hst => exact .error e hst
  | ok a hst =>
    obtain ⟨d', hrewire, htrails⟩ := hst.exists_rewire_ahead
    change SameEnd Trails _ (EStateM.bind rewire _ _)
    unfold EStateM.bind
    rw [hrewire]
    exact .ok a htrails

/-- **An instruction with its wires left where they are, and one with its wires moved.** -/
theorem lockstep_step : Lockstep Trails (onBoard Processor.step) step :=
  lockstep_rewire_ahead (lockstep_onBoard Bus.uniform_step)

/-- …and so for any number of instructions. -/
theorem lockstep_steps (n : Nat) : Lockstep Trails (onBoard (Processor.exec n)) (steps n) := by
  induction n with
  | zero => exact .pure ()
  | succ n ih =>
    change Lockstep Trails (onBoard (Processor.step >>= fun _ => Processor.exec n)) _
    rw [onBoard_bind]
    exact lockstep_step.bind fun _ => ih

/-! ## The end of a run -/

/-- **After the tick the two computers are equal.** -/
theorem Trails.tickDevices_eq {c d e : Computer} (h : Trails c d) (hc : tickDevices c = .ok () e) :
    tickDevices d = .ok () e := by
  change (onBoard (Bus.tick c.now) >>= fun _ => rewire) c = _ at hc
  change (onBoard (Bus.tick d.now) >>= fun _ => rewire) d = _
  obtain ⟨_, c', htick, hrewire⟩ := exists_of_bind_ok hc
  obtain ⟨d', htick', htrails⟩ := (lockstep_onBoard (Bus.uniform_tick c.now)).exists_ok h htick
  rw [h.now] at htick'
  obtain ⟨e', hrewire₁, hrewire₂⟩ := htrails.exists_rewire_eq
  rw [hrewire] at hrewire₁
  cases hrewire₁
  rw [bind_of_ok htick', hrewire₂]

/-- **A fault comes at the same instruction**, with computers that differ in their screen wires
alone. -/
theorem Trails.exists_fault {e : Processor.Fault} {board : Board} (n : Nat) :
    ∀ {c d : Computer}, Trails c d → Processor.exec n c.board = .error e board →
      ∃ k < n, ∃ p d₁ d₂, Processor.exec k c.board = .ok () p ∧ Processor.step p = .error e board ∧
        steps k d = .ok () d₁ ∧ step d₁ = .error (.fault e) d₂ ∧
        steps n d = .error (.fault e) d₂ ∧ Trails { c with board := p } d₁ ∧
        Trails { c with board } d₂ := by
  induction n with
  | zero =>
    intro c d _ h
    cases h
  | succ n ih =>
    intro c d htrails h
    cases hstep : Processor.step c.board with
    | error e' p =>
      change (Processor.step >>= fun _ => Processor.exec n) c.board = _ at h
      rw [bind_of_error hstep] at h
      cases h
      obtain ⟨d₂, hd₂, htrails₂⟩ := lockstep_step.exists_error htrails (onBoard_of_error hstep)
      exact ⟨0, n.succ_pos, c.board, d, d₂, rfl, hstep, rfl, hd₂, bind_of_error hd₂, htrails,
        htrails₂⟩
    | ok i p =>
      change (Processor.step >>= fun _ => Processor.exec n) c.board = _ at h
      rw [bind_of_ok hstep] at h
      obtain ⟨d', hd', htrails'⟩ := lockstep_step.exists_ok htrails (onBoard_of_ok hstep)
      obtain ⟨k, hk, q, d₁, d₂, hexec, hfault, hsteps, hfault', hsteps', hq, hboard⟩ :=
        ih htrails' h
      refine ⟨k + 1, Nat.succ_lt_succ hk, q, d₁, d₂, ?_, hfault, ?_, hfault', ?_, hq, hboard⟩
      · exact (bind_of_ok hstep).trans hexec
      · exact (bind_of_ok hd').trans hsteps
      · exact (bind_of_ok hd').trans hsteps'

/-- **A run agrees with single steps** on a wired computer that watches the display's picture.  If
the run succeeds, so do the steps and the tick after them, and the computers they end with are the
same.  If an instruction of the run faults, the steps fault at that instruction with the same error,
and the computers differ in their screen wires alone. -/
theorem run_agrees {c : Computer} (hwired : c.Wired) (hsync : c.Synced) (n : Nat) :
    (∀ c', run n c = .ok () c' → (do steps n; tickDevices) c = .ok () c') ∧
      ∀ e board, Processor.exec n c.board = .error e board →
        run n c = .error (.fault e) { c with board } ∧
          ∃ k < n, ∃ p d₁ d₂, Processor.exec k c.board = .ok () p ∧
            Processor.step p = .error e board ∧ steps k c = .ok () d₁ ∧
            p.regs = d₁.board.regs ∧ step d₁ = .error (.fault e) d₂ ∧
            (do steps n; tickDevices) c = .error (.fault e) d₂ ∧
            board.regs = d₂.board.regs ∧ board.cycles = d₂.board.cycles ∧
            board.last = d₂.board.last ∧ (∀ addr, board.mem.cell? addr = d₂.mem.cell? addr) ∧
            board.world = d₂.board.world := by
  have htrails : Trails c c := .refl hwired hsync
  constructor
  · intro c' hrun
    change (onBoard (Processor.exec n) >>= fun _ => tickDevices) c = _ at hrun
    obtain ⟨_, c₁, hexec, htick⟩ := exists_of_bind_ok hrun
    obtain ⟨d₁, hsteps, htrails₁⟩ := (lockstep_steps n).exists_ok htrails hexec
    exact (bind_of_ok hsteps).trans (htrails₁.tickDevices_eq htick)
  · intro e board hfault
    obtain ⟨k, hk, p, d₁, d₂, hexec, hstep, hsteps, hstep', hsteps', hp, htrails₂⟩ :=
      htrails.exists_fault n hfault
    exact ⟨bind_of_error (onBoard_of_error hfault), k, hk, p, d₁, d₂, hexec, hstep, hsteps, hp.regs,
      hstep', bind_of_error hsteps', htrails₂.regs, htrails₂.cycles, htrails₂.last,
      htrails₂.cell?_eq, htrails₂.world⟩

theorem run_agrees_loaded :
    (∃ c', run 2 loaded = .ok () c' ∧ (do steps 2; tickDevices) loaded = .ok () c' ∧
      c'.display.font = 7) ∧
      ∃ e k d₁ d₂, k < 3 ∧ steps k loaded = .ok () d₁ ∧ step d₁ = .error (.fault e) d₂ := by
  have hwired := (furnished_of_reachable reachable_loaded).toWired
  have hsync : loaded.Synced := by decide +kernel
  constructor
  · have hsucceeds : (Operation.run 2).succeeds loaded = true := by decide +kernel
    have hrun := Operation.act_of_succeeds hsucceeds
    have hfont : ((Operation.run 2).after loaded).display.font = 7 := by decide +kernel
    exact ⟨_, hrun, (run_agrees hwired hsync 2).1 _ hrun, hfont⟩
  · cases h : Processor.exec 3 loaded.board with
    | ok _ board =>
      have hfault : (match Processor.exec 3 loaded.board with
        | .ok .. => false | .error .. => true) = true := by decide +kernel
      rw [h] at hfault
      cases hfault
    | error e board =>
      obtain ⟨-, k, hk, -, d₁, d₂, -, -, hsteps, -, hstep, -⟩ :=
        (run_agrees hwired hsync 3).2 e board h
      exact ⟨e, k, d₁, d₂, hk, hsteps, hstep⟩

/-- `loaded` with the wire of the font register cut. -/
def cut : Computer := stateOf (onMemory .memory (Memory.unwatch 29) loaded)

/-- **With a wire cut they do not agree**: the steps move the picture and so mend the wire before
the font is set, the run does not. -/
theorem not_run_agrees :
    ¬ ∀ (c : Computer) (n : Nat) (c' : Computer), c.Synced → run n c = .ok () c' →
      (do steps n; tickDevices) c = .ok () c' := by
  intro h
  have hsync : cut.Synced := by decide +kernel
  have hsucceeds : (Operation.run 2).succeeds cut = true := by decide +kernel
  have hrun := Operation.act_of_succeeds hsucceeds
  have hfont : ((Operation.run 2).after cut).display.font = 0 := by decide +kernel
  have hsteps : (stateOf ((do steps 2; tickDevices : Action Unit) cut)).display.font = 7 := by
    decide +kernel
  rw [h cut 2 _ hsync hrun, stateOf, hfont] at hsteps
  exact absurd hsteps (by decide)

end Computer

end WordMachine
