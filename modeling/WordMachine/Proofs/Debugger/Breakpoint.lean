import Mathlib.Data.List.Chain
import WordMachine.Proofs.Debugger.Stepping

/-!
# Proofs/Debugger/Breakpoint — how a breakpoint can be run through

Once a debugger runs, it is let tick and keys are pressed in any order, and each tick executes
instructions one after the other (`executed`).  These are all that happens to it but for keys: the
first starts where the run starts, each next one where the one before has led, and the last leads to
where the run is left (`Ran`, `ran_events`).  And none but the last has led to a breakpoint.  So a
step that does, be it by a jump or by an interrupt of the clock, ends the run.  But a key that
interrupts between two ticks moves PC where no step has looked: if the handler is at a breakpoint,
the next tick executes it.

Main statement: `executed_at_breakpoint`.
-/

namespace WordMachine

open Bus (Board)

/-! ## Where an interrupt leads -/

/-- The registers after interrupts: PC is where it was or, if interrupts are taken, at the handler. -/
def Vectored (pc ia : Word) (regs : Registers) : Prop :=
  regs.ia = ia ∧ (regs.pc = pc ∨ ia ≠ 0 ∧ regs.pc = ia)

namespace Processor

variable {ω σ : Type}

variable [Observer ω σ]

theorem vectored_push (pc ia w : Word) :
    Keeps (fun p : Processor ω σ => Vectored pc ia p.regs) (push w) := by
  have hsp : Keeps (fun p : Processor ω σ => Vectored pc ia p.regs)
      (onRegs fun regs => { regs with sp := regs.sp - 1 }) := keeps_regs_onRegs fun _ h => h
  exact hsp.bind fun _ => (keeps_regs_ofRegs _).bind fun _ => keeps_regs_onMemory _

/-- **An interrupt leads to the handler or, if it is dropped or cannot be pushed, nowhere.** -/
theorem vectored_interrupt (pc ia message : Word) :
    Keeps (fun p : Processor ω σ => Vectored pc ia p.regs) (interrupt message) := by
  by_cases hia : ia = 0
  · refine keeps_iff.mpr fun p h => ?_
    have hdropped : interrupt message p = .ok false p := by
      rw [interrupt, bind_of_ok (rfl : ofRegs (·.ia) p = .ok p.regs.ia p), if_pos (h.1.trans hia)]
      rfl
    rw [hdropped]
    exact h
  · have hhandler : Keeps (fun p : Processor ω σ => Vectored pc ia p.regs)
        (onRegs fun regs => { regs with pc := regs.ia }.set .a message) :=
      keeps_regs_onRegs fun regs h => ⟨h.1, .inr ⟨hia, h.1⟩⟩
    refine (keeps_regs_ofRegs _).bind fun v => ?_
    split
    · exact .pure false
    · exact (keeps_regs_ofRegs _).bind fun _ => (vectored_push pc ia _).bind fun _ =>
        (keeps_regs_ofRegs _).bind fun _ => (vectored_push pc ia _).bind fun _ =>
        hhandler.bind fun _ => .pure true

end Processor

/-- …and so does a press of a key. -/
theorem Bus.vectored_pressKey (pc ia : Word) (slot : Slot) (code : Word) :
    Keeps (fun board : Board => Vectored pc ia board.regs) (pressKey slot code) := by
  have hofBus : ∀ {α : Type} (f : Bus → α),
      Keeps (fun board : Board => Vectored pc ia board.regs) (ofBus f) :=
    fun f => keeps_iff.mpr fun _ h => h
  have hmodify : ∀ f : Bus → Bus,
      Keeps (fun board : Board => Vectored pc ia board.regs) (Bus.modify f) :=
    fun f => keeps_iff.mpr fun _ h => h
  have hdeliver : ∀ request,
      Keeps (fun board : Board => Vectored pc ia board.regs) (deliver slot request) := by
    intro request
    cases request with
    | none => exact .pure ()
    | some message =>
      refine Lockstep.bind (keeps_iff.mpr fun board h => ?_) fun _ => .pure ()
      rw [stateOf_withBusy]
      exact keeps_iff.mp (Processor.vectored_interrupt pc ia message)
        (setBusy (slot :: board.world.busy) board) h
  refine (hofBus _).bind fun device => ?_
  split
  · split
    · exact .pure false
    · exact (hmodify _).bind fun _ => (hdeliver _).bind fun _ => .pure true
  · exact .pure false

namespace Debugger

/-! ## Keys -/

variable {d : Debugger}

/-- **A key changes PC only by an interrupt**, and leaves breakpoints alone.  It neither starts nor
stops a run. -/
theorem vectored_sendKey (d : Debugger) (code : Word) :
    Vectored d.pc d.computer.regs.ia (d.sendKey code).computer.regs ∧
      (d.sendKey code).breakpoints = d.breakpoints ∧ (d.sendKey code).running = d.running := by
  have hend := keeps_iff.mp
    (Bus.vectored_pressKey d.pc d.computer.regs.ia Computer.keyboardSlot code) d.computer.board
    ⟨rfl, .inl rfl⟩
  rw [sendKey, onComputer_eq, Computer.keyDown, Computer.onBoard_eq]
  generalize Bus.pressKey Computer.keyboardSlot code d.computer.board = x at hend ⊢
  cases x with
  | ok a board => exact ⟨hend, rfl, rfl⟩
  | error e board => exact ⟨hend, rfl, rfl⟩

/-- Keys pressed one after the other. -/
def sendKeys (d : Debugger) (codes : List Word) : Debugger := codes.foldl sendKey d

/-- …and so do any number of keys. -/
theorem vectored_sendKeys (d : Debugger) (codes : List Word) :
    Vectored d.pc d.computer.regs.ia (d.sendKeys codes).computer.regs ∧
      (d.sendKeys codes).breakpoints = d.breakpoints ∧ (d.sendKeys codes).running = d.running := by
  induction codes using List.reverseRecOn with
  | nil => exact ⟨⟨rfl, .inl rfl⟩, rfl, rfl⟩
  | append_singleton codes code ih =>
    obtain ⟨⟨hia, hpc⟩, hbreak, hrun⟩ := ih
    obtain ⟨⟨hia', hpc'⟩, hbreak', hrun'⟩ := vectored_sendKey (d.sendKeys codes) code
    have hlast : d.sendKeys (codes ++ [code]) = (d.sendKeys codes).sendKey code := by
      simp [sendKeys]
    rw [hlast]
    refine ⟨⟨hia'.trans hia, ?_⟩, hbreak'.trans hbreak, hrun'.trans hrun⟩
    rcases hpc' with hpc' | ⟨hne, hpc'⟩
    · rcases hpc with hpc | ⟨hne, hpc⟩
      · exact .inl (hpc'.trans hpc)
      · exact .inr ⟨hne, hpc'.trans hpc⟩
    · exact .inr ⟨hia ▸ hne, hpc'.trans hia⟩

/-! ## The instructions of a run -/

/-- What is done to a debugger that runs. -/
inductive Event where
  | tick
  | key (code : Word)
  deriving DecidableEq, Repr

def Event.act (d : Debugger) : Event → Debugger
  | tick => d.tick
  | key code => d.sendKey code

/-- The debugger after events. -/
def after (events : List Event) (d : Debugger) : Debugger := events.foldl Event.act d

/-- Whether a run stops here: at a breakpoint, or because it has been stopped. -/
def stops (d : Debugger) : Bool := !d.running || d.breakpoints.contains d.pc

/-- The debuggers in which up to `n` steps of a run execute an instruction. -/
def executedSteps : (n : Nat) → Debugger → List Debugger
  | 0, _ => []
  | n + 1, d => d :: if d.step.stops then [] else executedSteps n d.step

/-- The debuggers in which an event executes an instruction, in order. -/
def Event.executed (d : Debugger) : Event → List Debugger
  | tick => if d.running then executedSteps (max d.frame 1) d else []
  | key _ => []

/-- The debuggers in which events execute an instruction, in order. -/
def executed : List Event → Debugger → List Debugger
  | [], _ => []
  | event :: events, d => event.executed d ++ executed events (event.act d)

/-- A run that has stopped. -/
def stopped (d : Debugger) : Debugger :=
  if d.running then { d with running := false, status := s!"Breakpoint at PC={hex d.pc}" } else d

/-- `d'` executes the instruction after that of `d`: no breakpoint stops the run in between, and
nothing happens but keys. -/
def Precedes (d d' : Debugger) : Prop :=
  d.step.stops = false ∧ ∃ codes, d' = d.step.sendKeys codes

/-- How a run of steps is left by its last one. -/
def leave (d : Debugger) : Debugger := if d.step.stops then d.step.stopped else d.step

theorem runSteps_succ_eq (n : Nat) (d : Debugger) :
    runSteps (n + 1) d = if d.step.stops then d.step.stopped else runSteps n d.step := by
  rw [runSteps, stops, stopped]
  cases d.step.running with
  | false => rfl
  | true => rfl

theorem leave_of_stops (hstops : d.step.stops = true) : d.leave = d.step.stopped := by
  rw [leave, if_pos hstops]

theorem leave_of_not_stops (hstops : d.step.stops = false) : d.leave = d.step := by
  rw [leave, hstops, if_neg Bool.false_ne_true]

/-- A run goes on after an instruction just if nothing has stopped it. -/
theorem running_leave (d : Debugger) : d.leave.running = !d.step.stops := by
  cases hstops : d.step.stops with
  | true =>
    rw [leave_of_stops hstops, stopped]
    split
    · rfl
    · next hrun => simpa using hrun
  | false =>
    rw [leave_of_not_stops hstops]
    simp only [stops, Bool.or_eq_false_iff, Bool.not_eq_eq_eq_not, Bool.not_false] at hstops
    exact hstops.1

/-- A run executes the instructions of `l` on its way from `d` to `d'`: each `Precedes` the next, and
but for keys the first of them comes right at the start and the run is left by the last. -/
structure Ran (d : Debugger) (l : List Debugger) (d' : Debugger) : Prop where
  head : ∀ first ∈ l.head?, ∃ codes, first = d.sendKeys codes
  chain : l.IsChain Precedes
  last : ∃ codes, d' = (l.getLast?.elim d leave).sendKeys codes

theorem sendKeys_append (d : Debugger) (codes codes' : List Word) :
    d.sendKeys (codes ++ codes') = (d.sendKeys codes).sendKeys codes' :=
  List.foldl_append

namespace Ran

variable {l l' : List Debugger} {d' d'' : Debugger}

/-- Keys execute nothing. -/
theorem keys (d : Debugger) (codes : List Word) : Ran d [] (d.sendKeys codes) :=
  ⟨fun first hfirst => (Option.not_mem_none first hfirst).elim, .nil, codes, rfl⟩

/-- An instruction that is left by itself. -/
theorem single (d : Debugger) : Ran d [d] d.leave :=
  ⟨fun _ hfirst => ⟨[], (Option.some.inj hfirst).symm⟩, .singleton d, [], rfl⟩

/-- **One part of a run after the other**, if the second executes nothing unless the first has left
the debugger running. -/
theorem trans (h : Ran d l d') (h' : Ran d' l' d'') (hrun : d'.running = false → l' = []) :
    Ran d (l ++ l') d'' := by
  obtain ⟨codes, hlast⟩ := h.last
  obtain ⟨codes', hlast'⟩ := h'.last
  have hfirst : ∀ first ∈ l'.head?, ∃ codes'', first = (l.getLast?.elim d leave).sendKeys codes'' := by
    intro first hmem
    obtain ⟨more, rfl⟩ := h'.head first hmem
    exact ⟨codes ++ more, by rw [hlast, sendKeys_append]⟩
  refine ⟨fun first hmem => ?_, List.isChain_append.mpr ⟨h.chain, h'.chain, ?_⟩, ?_⟩
  · cases l with
    | nil => exact hfirst first hmem
    | cons e l => exact h.head first hmem
  · intro prev hprev next hnext
    obtain ⟨between, hbetween⟩ := hfirst next hnext
    have hstops : prev.step.stops = false := by
      by_contra hstops
      rw [Bool.not_eq_false] at hstops
      have hstopped : d'.running = false := by
        rw [hlast, (vectored_sendKeys _ codes).2.2, Option.mem_def.mp hprev]
        change prev.leave.running = false
        rw [running_leave, hstops]
        rfl
      rw [hrun hstopped] at hnext
      cases hnext
    refine ⟨hstops, between, ?_⟩
    rw [hbetween, Option.mem_def.mp hprev, ← leave_of_not_stops hstops]
    rfl
  · rw [List.getLast?_append]
    cases hend : l'.getLast? with
    | none =>
      rw [hend] at hlast'
      exact ⟨codes ++ codes', by rw [hlast', hlast, sendKeys_append]; rfl⟩
    | some last =>
      rw [hend] at hlast'
      exact ⟨codes', hlast'⟩

end Ran

/-- **The steps of one tick.** -/
theorem ran_runSteps (n : Nat) (d : Debugger) :
    Ran d (executedSteps (n + 1) d) (runSteps (n + 1) d) := by
  induction n generalizing d with
  | zero =>
    rw [runSteps_succ_eq, executedSteps, executedSteps, ite_self]
    exact .single d
  | succ n ih =>
    rw [runSteps_succ_eq, executedSteps]
    cases hstops : d.step.stops with
    | true =>
      rw [if_pos rfl, if_pos rfl, ← leave_of_stops hstops]
      exact .single d
    | false =>
      rw [if_neg Bool.false_ne_true, if_neg Bool.false_ne_true]
      have hfirst := Ran.single d
      rw [leave_of_not_stops hstops] at hfirst
      refine hfirst.trans (ih d.step) fun hrun => ?_
      rw [stops, hrun] at hstops
      cases hstops

theorem executed_of_not_running (events : List Event) (hrun : d.running = false) :
    executed events d = [] := by
  induction events generalizing d with
  | nil => rfl
  | cons event events ih =>
    cases event with
    | tick =>
      have htick : d.tick = d := by rw [tick, hrun, if_neg Bool.false_ne_true]
      rw [executed, Event.executed, hrun, if_neg Bool.false_ne_true, Event.act, htick, ih hrun]
      rfl
    | key code =>
      obtain ⟨-, -, hrun'⟩ := vectored_sendKey d code
      exact ih (hrun'.trans hrun)

theorem ran_event (d : Debugger) (event : Event) : Ran d (event.executed d) (event.act d) := by
  cases event with
  | key code => exact .keys d [code]
  | tick =>
    rw [Event.executed, Event.act, tick]
    split
    · obtain ⟨n, hn⟩ : ∃ n, max d.frame 1 = n + 1 := Nat.exists_eq_add_one.mpr (by omega)
      rw [hn]
      exact ran_runSteps n d
    · exact .keys d []

/-- **The instructions of all events.** -/
theorem ran_events (events : List Event) (d : Debugger) :
    Ran d (executed events d) (after events d) := by
  induction events generalizing d with
  | nil => exact .keys d []
  | cons event events ih =>
    exact (ran_event d event).trans (ih _) fun hrun => executed_of_not_running events hrun

/-! ## Breakpoints -/

theorem stops_of_mem (h : d.pc ∈ d.breakpoints) : d.stops = true := by
  rw [stops, List.contains_iff_mem.mpr h, Bool.or_true]

theorem breakpoints_of_precedes {d' : Debugger} (h : Precedes d d') :
    d'.breakpoints = d.breakpoints := by
  obtain ⟨-, codes, rfl⟩ := h
  exact (vectored_sendKeys d.step codes).2.1.trans (breakpoints_step d)

/-- **An instruction at a breakpoint that comes after another is the handler's first**: keys have led
there, and the step before has not. -/
theorem handler_of_precedes {d' : Debugger} (h : Precedes d d') (hmem : d'.pc ∈ d.breakpoints) :
    d.step.pc ∉ d.breakpoints ∧ d'.computer.regs.ia ≠ 0 ∧ d'.pc = d'.computer.regs.ia := by
  obtain ⟨hgoes, codes, rfl⟩ := h
  have hstep : d.step.pc ∉ d.breakpoints := by
    intro hpc
    rw [← breakpoints_step d] at hpc
    rw [stops_of_mem hpc] at hgoes
    cases hgoes
  obtain ⟨⟨hia, hsame | ⟨hne, hhandler⟩⟩, -, -⟩ := vectored_sendKeys d.step codes
  · exact absurd (hsame ▸ hmem) hstep
  · exact ⟨hstep, hia ▸ hne, hhandler.trans hia.symm⟩

/-- The breakpoints stay as they are. -/
theorem Ran.breakpoints_eq {l : List Debugger} {d' : Debugger} (h : Ran d l d') :
    ∀ s ∈ l, s.breakpoints = d.breakpoints := by
  refine h.chain.induction _ l (fun s t hst hs => (breakpoints_of_precedes hst).trans hs) ?_
  intro hne
  obtain ⟨codes, hfirst⟩ := h.head _ (List.head?_eq_some_head hne)
  rw [hfirst]
  exact (vectored_sendKeys d codes).2.1

/-- **When a run executes the instruction at a breakpoint.**  Apart from the first instruction of the
run this takes a key: the instruction before has not led to a breakpoint, and a key pressed after it
has interrupted and moved PC to the handler, which is the breakpoint.  A step that by itself leads to
a breakpoint, whether by a jump or by an interrupt of a device, is the last one: the run has stopped
there, and whatever happens afterwards is keys. -/
theorem executed_at_breakpoint (d : Debugger) {events : List Event} {before rest : List Debugger}
    {s : Debugger} (h : executed events d.run = before ++ s :: rest) :
    (s.pc ∈ d.breakpoints →
        before = [] ∧ (∃ codes, s = d.run.sendKeys codes) ∨
          ∃ (earlier : List Debugger) (prev : Debugger) (codes : List Word),
            before = earlier ++ [prev] ∧ prev.step.pc ∉ d.breakpoints ∧
            s = prev.step.sendKeys codes ∧ s.computer.regs.ia ≠ 0 ∧
            s.pc = s.computer.regs.ia) ∧
      (s.step.pc ∈ d.breakpoints →
        rest = [] ∧ ∃ (last : Debugger) (codes : List Word), last.running = false ∧
          last.computer = s.step.computer ∧ after events d.run = last.sendKeys codes) := by
  have hran := ran_events events d.run
  have hbreak := hran.breakpoints_eq
  rw [h] at hran hbreak
  obtain ⟨-, hchain, hjoin⟩ := List.isChain_append.mp hran.chain
  constructor
  · intro hs
    rcases List.eq_nil_or_concat' before with rfl | ⟨earlier, prev, rfl⟩
    · exact .inl ⟨rfl, hran.head s rfl⟩
    · have hprecedes : Precedes prev s := hjoin prev (by simp) s rfl
      have hprev : prev.breakpoints = d.breakpoints := hbreak prev (by simp)
      obtain ⟨hstep, hia, hpc⟩ := handler_of_precedes hprecedes (hprev ▸ hs)
      obtain ⟨-, codes, hkeys⟩ := hprecedes
      exact .inr ⟨earlier, prev, codes, rfl, hprev ▸ hstep, hkeys, hia, hpc⟩
  · intro hpc
    have hstop : s.step.stops = true := by
      refine stops_of_mem ?_
      rw [breakpoints_step, hbreak s (by simp)]
      exact hpc
    have hrest : rest = [] := by
      cases rest with
      | nil => rfl
      | cons next rest =>
        obtain ⟨hgoes, -⟩ := (List.isChain_cons.mp hchain).1 next rfl
        rw [hstop] at hgoes
        cases hgoes
    subst hrest
    obtain ⟨codes, hlast⟩ := hran.last
    rw [List.getLast?_concat] at hlast
    refine ⟨rfl, s.leave, codes, ?_, ?_, hlast⟩
    · rw [running_leave, hstop]
      rfl
    · rw [leave_of_stops hstop, stopped]
      split <;> rfl

/-- The small configuration with a tick after every instruction. -/
def briskConfig : Config := { Computer.smallConfig with cyclesPerFrame := 1 }

/-- A program that lets the keyboard interrupt, with the handler at a breakpoint. -/
def keyed : Debugger where
  computer :=
    let blank :=
      match Computer.ofConfig briskConfig with
      | .ok c => c
      | .error _ => Computer.small
    let loaded := (Computer.Operation.loadImage [0x85E1, 24]).after blank
    (Computer.Operation.setRegisters { loaded.regs with sp := 20, ia := 4 }).after loaded
  program := [0x85E1, 24]
  breakpoints := [4]

/-- A key between two ticks makes the second one run through the breakpoint. -/
theorem executed_at_breakpoint_keyed :
    ∃ first handler : Debugger,
      executed [.tick, .key 65, .tick] keyed.run = [first] ++ handler :: [] ∧
      handler.pc ∈ keyed.breakpoints ∧ first.step.pc ∉ keyed.breakpoints ∧
      handler.pc = handler.computer.regs.ia ∧
      (after [.tick, .key 65, .tick] keyed.run).running = true := by
  have hpcs : (executed [.tick, .key 65, .tick] keyed.run).map (·.pc) = [0, 4] := by
    decide +kernel
  have hruns : (after [.tick, .key 65, .tick] keyed.run).running = true := by decide +kernel
  obtain ⟨first, others, hlist, -, hothers⟩ := List.map_eq_cons_iff.mp hpcs
  obtain ⟨handler, rest, rfl, hpc, hrest⟩ := List.map_eq_cons_iff.mp hothers
  obtain rfl := List.map_eq_nil_iff.mp hrest
  have htrace : executed [.tick, .key 65, .tick] keyed.run = [first] ++ handler :: [] := hlist
  have hbreak : handler.pc ∈ keyed.breakpoints := by
    rw [hpc]
    decide
  obtain ⟨hnil, -⟩ | ⟨earlier, prev, codes, heq, hprev, -, -, hia⟩ :=
    (executed_at_breakpoint keyed htrace).1 hbreak
  · cases hnil
  · obtain ⟨-, hlast⟩ := List.append_inj' (show [] ++ [first] = earlier ++ [prev] from heq) rfl
    cases hlast
    exact ⟨first, handler, htrace, hbreak, hprev, hia, hruns⟩

end Debugger

end WordMachine
