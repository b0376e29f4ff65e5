import WordMachine.Proofs.Bus.Traffic
import WordMachine.Proofs.Computer.Reachable

/-!
# Proofs/Computer/Idle — between operations no device is busy

A device is busy while its interrupt is delivered and at no other time, and whatever comes of that,
the devices that were busy before are those that are busy afterwards.  So an operation leaves the
same devices busy (`Operation.keeps_busy`), and a computer that is used from outside has none.

Main statement: `busy_of_reachable`.
-/

namespace WordMachine

open Bus (Board)

namespace Computer

variable {α : Type} {busy : List Slot}

/-- These devices are in the middle of an action. -/
def Engaged (busy : List Slot) (c : Computer) : Prop := c.board.world.busy = busy

/-! ## The parts of an operation -/

theorem keeps_busy_onBoard {act : Board.Action α} (h : Keeps (Bus.Engaged busy) act) :
    Keeps (Engaged busy) (onBoard act) := by
  refine keeps_iff.mpr fun c hc => ?_
  rw [stateOf_onBoard]
  exact keeps_iff.mp h c.board hc

theorem keeps_busy_onMemory {wrap : Memory.Error → Error} {access : Memory.Access Wire Bus α}
    (h : Keeps (fun s : Memory Wire × Bus => s.2.busy = busy) access) :
    Keeps (Engaged busy) (onMemory wrap access) := by
  refine keeps_iff.mpr fun c hc => ?_
  rw [stateOf_onMemory]
  exact keeps_iff.mp h _ hc

theorem keeps_busy_load (addr : Nat) (words : List Word) :
    Keeps (fun s : Memory Wire × Bus => s.2.busy = busy) (Memory.load addr words) := by
  refine keeps_iff.mpr fun s h => ?_
  unfold Memory.load
  split
  · split <;> exact h
  · exact h

theorem keeps_busy_attach :
    Keeps (fun s : Memory Wire × Bus => s.2.busy = busy) Bus.attach := by
  refine keeps_iff.mpr fun s h => ?_
  have hwatch : ∀ entry : Nat × Wire, Keeps (fun s : Memory Wire × Bus => s.2.busy = busy)
      (Memory.watch entry.1 entry.2) := by
    refine fun entry => keeps_iff.mpr fun s h => ?_
    unfold Memory.watch Memory.within
    split <;> exact h
  exact keeps_iff.mp (Lockstep.forM s.2.allWires fun entry _ => hwatch entry) s h

theorem keeps_busy_rewire : Keeps (Engaged busy) rewire := by
  refine keeps_iff.mpr fun c h => ?_
  rw [rewire_eq]
  split
  · exact h
  · exact keeps_iff.mp (keeps_busy_onMemory keeps_busy_attach) _ h

theorem keeps_busy_loadImage (words : List Word) : Keeps (Engaged busy) (loadImage words) := by
  have hreset : Keeps (Engaged busy) (modify reset : Action Unit) := .modify fun _ h => h
  exact (keeps_busy_onMemory (keeps_busy_load 0 words)).bind fun _ =>
    hreset.bind fun _ => keeps_busy_rewire

theorem keeps_busy_loadAssembly (source : Text) : Keeps (Engaged busy) (loadAssembly source) := by
  unfold loadAssembly
  split
  · exact .throw _
  · exact (keeps_busy_loadImage _).bind fun _ => .pure _

theorem keeps_busy_tickDevices : Keeps (Engaged busy) tickDevices :=
  Keeps.get.bind fun c =>
    (keeps_busy_onBoard (Bus.keeps_busy_tick c.now)).bind fun _ => keeps_busy_rewire

theorem keeps_busy_run (n : Nat) : Keeps (Engaged busy) (run n) :=
  (keeps_busy_onBoard (Bus.keeps_busy_exec n)).bind fun _ => keeps_busy_tickDevices

theorem busy_keyUp (c : Computer) (code : Word) :
    (c.keyUp code).board.world.busy = c.board.world.busy := by
  change (c.board.world.releaseKey keyboardSlot code).busy = _
  unfold Bus.releaseKey
  split <;> rfl

theorem busy_takeDirty (c : Computer) : c.takeDirty.2.board.world.busy = c.board.world.busy := by
  unfold takeDirty
  split <;> rfl

/-! ## Operations -/

/-- **An operation leaves the same devices busy**, well or not. -/
theorem Operation.keeps_busy (op : Operation) : Keeps (Engaged busy) op.act := by
  cases op with
  | loadAssembly source => exact (keeps_busy_loadAssembly source).bind fun _ => .pure ()
  | loadImage words => exact keeps_busy_loadImage words
  | run n => exact keeps_busy_run n
  | runFrame => exact Keeps.get.bind fun _ => keeps_busy_run _
  | step =>
    exact ((keeps_busy_onBoard Bus.keeps_busy_step).bind fun _ =>
      keeps_busy_rewire.bind fun _ => .pure _).bind fun _ => .pure ()
  | tickDevices => exact keeps_busy_tickDevices
  | reset => exact .modify fun _ h => h
  | keyDown code =>
    exact (keeps_busy_onBoard (Bus.keeps_busy_pressKey keyboardSlot code)).bind fun _ => .pure ()
  | keyUp code => exact .modify fun c h => (busy_keyUp c code).trans h
  | takeDirty => exact .modify fun c h => (busy_takeDirty c).trans h
  | advance nanoseconds => exact .modify fun _ h => h
  | setRegisters regs =>
    have hregs : Keeps (Bus.Engaged busy) (Processor.onRegs fun _ => regs) :=
      keeps_iff.mpr fun _ h => h
    exact keeps_busy_onBoard hregs
  | read addr =>
    exact (keeps_busy_onMemory (Bus.agreement_busy.read addr)).bind fun _ => .pure ()
  | write addr value => exact keeps_busy_onMemory (Bus.agreement_busy.write addr value)
  | load addr words => exact keeps_busy_onMemory (keeps_busy_load addr words)
  | clear => exact .modify fun _ h => h

/-- **No device of a reachable computer is busy.** -/
theorem busy_of_reachable {c : Computer} (h : Reachable c) : c.board.world.busy = [] := by
  induction h with
  | ofConfig h => exact busy_of_ofConfig h
  | after op _ ih => exact keeps_iff.mp op.keeps_busy _ ih

end Computer

end WordMachine
