import WordMachine.Computer
import WordMachine.Proofs.Bus.Lockstep

/-!
# Proofs/Computer/Operation — what can be done with a computer from outside

A computer is built from a configuration and then used through operations in any order: its own,
the passing of time, and direct access to registers and cells.  Wires are not among what can be
accessed.  An operation that fails has changed the computer all the same (`after`), and `Reachable`
counts the states it leaves.
-/

namespace WordMachine

open Bus (Board)

namespace Computer

/-! ## The computer around a board -/

theorem onBoard_eq {α : Type} (act : Board.Action α) (c : Computer) :
    onBoard act c =
      match act c.board with
      | .ok a board => .ok a { c with board }
      | .error e board => .error (.fault e) { c with board } := rfl

theorem onBoard_of_ok {α : Type} {act : Board.Action α} {c : Computer} {a : α} {board : Board}
    (h : act c.board = .ok a board) : onBoard act c = .ok a { c with board } := by
  rw [onBoard_eq]
  simp only [h]

theorem onBoard_of_error {α : Type} {act : Board.Action α} {c : Computer} {e : Processor.Fault}
    {board : Board} (h : act c.board = .error e board) :
    onBoard act c = .error (.fault e) { c with board } := by
  rw [onBoard_eq]
  simp only [h]

theorem exists_of_onBoard_ok {α : Type} {act : Board.Action α} {c c' : Computer} {a : α}
    (h : onBoard act c = .ok a c') :
    ∃ board, act c.board = .ok a board ∧ c' = { c with board } := by
  cases hend : act c.board with
  | ok a' board =>
    cases (onBoard_of_ok hend).symm.trans h
    exact ⟨board, rfl, rfl⟩
  | error e board =>
    cases (onBoard_of_error hend).symm.trans h

theorem onMemory_eq {α : Type} (wrap : Memory.Error → Error) (access : Memory.Access Wire Bus α)
    (c : Computer) :
    onMemory wrap access c =
      match access (c.board.mem, c.board.world) with
      | .ok a s => .ok a { c with board := { c.board with mem := s.1, world := s.2 } }
      | .error e s =>
        .error (wrap e) { c with board := { c.board with mem := s.1, world := s.2 } } := by
  obtain ⟨⟨regs, mem, bus, cycles, last⟩, config, watched, now⟩ := c
  simp only [onMemory]
  rcases access (mem, bus) with ⟨a, mem', bus'⟩ | ⟨e, mem', bus'⟩
  · rfl
  · rfl

/-- Well or not, nothing but the board has changed… -/
theorem stateOf_onBoard {α : Type} (act : Board.Action α) (c : Computer) :
    stateOf (onBoard act c) = { c with board := stateOf (act c.board) } := by
  rw [onBoard_eq]
  cases act c.board <;> rfl

/-- …and of the board nothing but memory and bus. -/
theorem stateOf_onMemory {α : Type} (wrap : Memory.Error → Error)
    (access : Memory.Access Wire Bus α) (c : Computer) :
    stateOf (onMemory wrap access c) =
      { c with
        board := { c.board with
          mem := (stateOf (access (c.board.mem, c.board.world))).1
          world := (stateOf (access (c.board.mem, c.board.world))).2 } } := by
  rw [onMemory_eq]
  cases access (c.board.mem, c.board.world) <;> rfl

/-- What does not depend on the board is kept by whatever the board does… -/
theorem keeps_beside_onBoard {P : Computer → Prop} (hP : ∀ c board, P c → P { c with board })
    {α : Type} (act : Board.Action α) : Keeps P (onBoard act) := by
  refine keeps_iff.mpr fun c h => ?_
  rw [stateOf_onBoard]
  exact hP c _ h

/-- …and by whatever is done to the memory. -/
theorem keeps_beside_onMemory {P : Computer → Prop} (hP : ∀ c board, P c → P { c with board })
    {α : Type} (wrap : Memory.Error → Error) (access : Memory.Access Wire Bus α) :
    Keeps P (onMemory wrap access) := by
  refine keeps_iff.mpr fun c h => ?_
  rw [stateOf_onMemory]
  exact hP c _ h

theorem rewire_eq (c : Computer) :
    rewire c =
      if c.display.window? = c.watched then .ok () c
      else
        onMemory (fun e => .bus (.memory e)) Bus.attach
          { c with
            board := { c.board with mem := moveScreen c.watched c.display.window? c.mem }
            watched := c.display.window? } := rfl

/-- The computer watches the picture that its display shows. -/
def Synced (c : Computer) : Prop := c.watched = c.display.window?

instance (c : Computer) : Decidable c.Synced :=
  inferInstanceAs (Decidable (c.watched = c.display.window?))

/-! ## Operations -/

/-- What can be asked of a computer. -/
inductive Operation where
  | loadAssembly (source : Text)
  | loadImage (words : List Word)
  | run (n : Nat)
  | runFrame
  | step
  | tickDevices
  | reset
  | keyDown (code : Word)
  | keyUp (code : Word)
  | takeDirty
  | advance (nanoseconds : Nat)
  /-- Give the registers these contents. -/
  | setRegisters (regs : Registers)
  /-- Read a word as the processor would. -/
  | read (addr : Nat)
  /-- Write a word as the processor would. -/
  | write (addr value : Nat)
  /-- Put words into cells. -/
  | load (addr : Nat) (words : List Word)
  /-- Zero all cells. -/
  | clear

namespace Operation

def act : Operation → Action Unit
  | loadAssembly source => do let _ ← Computer.loadAssembly source
  | loadImage words => Computer.loadImage words
  | run n => Computer.run n
  | runFrame => Computer.runFrame
  | step => do let _ ← Computer.step
  | tickDevices => Computer.tickDevices
  | reset => modify Computer.reset
  | keyDown code => do let _ ← Computer.keyDown code
  | keyUp code => modify (Computer.keyUp code)
  | takeDirty => modify fun c => (Computer.takeDirty c).2
  | advance nanoseconds => modify (Computer.advance nanoseconds)
  | setRegisters regs => onBoard (Processor.onRegs fun _ => regs)
  | read addr => do let _ ← onMemory .memory (Memory.read addr)
  | write addr value => onMemory .memory (Memory.write addr value)
  | load addr words => onMemory .memory (Memory.load addr words)
  | clear => modify fun c => { c with board := { c.board with mem := c.board.mem.clear } }

/-- The computer after an operation, whether that succeeded or failed. -/
def after (op : Operation) (c : Computer) : Computer := stateOf (op.act c)

/-- Whether an operation succeeds. -/
def succeeds (op : Operation) (c : Computer) : Bool :=
  match op.act c with
  | .ok .. => true
  | .error .. => false

theorem act_of_succeeds {op : Operation} {c : Computer} (h : op.succeeds c = true) :
    op.act c = .ok () (op.after c) := by
  unfold succeeds at h
  unfold after
  cases hend : op.act c with
  | ok a c' => rfl
  | error e c' =>
    rw [hend] at h
    cases h

theorem act_of_not_succeeds {op : Operation} {c : Computer} (h : op.succeeds c = false) :
    ∃ e, op.act c = .error e (op.after c) := by
  unfold succeeds at h
  unfold after
  cases hend : op.act c with
  | ok a c' =>
    rw [hend] at h
    cases h
  | error e c' => exact ⟨e, rfl⟩

/-- Whether an operation lets the screen wires follow the display when it is done. -/
def rewires : Operation → Bool
  | loadAssembly _ | loadImage _ | run _ | runFrame | step | tickDevices => true
  | _ => false

/-- Whether an operation that fails leaves the display alone, or cannot fail and does so. -/
def steady : Operation → Bool
  | loadAssembly _ | loadImage _ | step | reset => true
  | _ => false

end Operation

/-- The computers there can be: those of a configuration, and what operations make of them. -/
inductive Reachable : Computer → Prop where
  | ofConfig {config : Config} {c : Computer} (h : Computer.ofConfig config = .ok c) : Reachable c
  | after {c : Computer} (op : Operation) (h : Reachable c) : Reachable (op.after c)

/-- A small memory with the three devices at its end. -/
def smallConfig : Config :=
  { memoryWords := 32, clockBase := 20, keyboardBase := 24, displayBase := 28 }

/-- The computer of `smallConfig`, to give examples of. -/
def small : Computer :=
  match ofConfig smallConfig with
  | .ok c => c
  | .error _ => { board := .ofMemory (.ofCapacity 0) {}, config := smallConfig }

theorem reachable_small : Reachable small :=
  have h : ofConfig smallConfig = .ok small := rfl
  .ofConfig h

/-- The small computer with a program that moves the picture, sets the font and then faults. -/
def loaded : Computer := (Operation.loadImage [0xC1E1, 28, 0x9DE1, 29, 0x0251]).after small

theorem reachable_loaded : Reachable loaded := .after _ reachable_small

end Computer

end WordMachine
