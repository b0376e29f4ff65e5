import WordMachine.Proofs.Bus.Lockstep
import WordMachine.Proofs.Memory.Access
import WordMachine.Proofs.Processor.Interrupts

/-!
# Proofs/Bus/Line — where the interrupts go that a device asks for

A device on a board asks for its interrupts on a `Line`, for one the processor.  While the line takes
one the device is busy, and a line that `Spares` it then leaves it as it is, whether the interrupt is
delivered, dropped or fails (`getElem?_deliverOn`).  The processor is such a line
(`spares_interrupt`), which fails if it is jammed: `failed_deliver_iff`.
-/

namespace WordMachine

namespace Bus

variable {slot : Slot} {board : Board}

/-! ## Lines that spare a busy device -/

/-- Where the interrupts go that are asked for. -/
abbrev Line := Word → Board.Action Bool

/-- Whatever comes of an interrupt, it leaves the device in a slot alone while that is busy. -/
def Line.Spares (line : Line) (slot : Slot) : Prop :=
  ∀ message board, board.world.isBusy slot = true →
    (stateOf (line message board)).world.devices[slot]? = board.world.devices[slot]?

/-- The device in a slot is busy, and it is this one. -/
def Occupied (slot : Slot) (found : Option Device) (s : Memory Wire × Bus) : Prop :=
  s.2.isBusy slot = true ∧ s.2.devices[slot]? = found

theorem Occupied.setDevice {found : Option Device} {mem : Memory Wire} {bus : Bus} {other : Slot}
    {d : Device} (h : Occupied slot found (mem, bus)) (hidle : bus.isBusy other = false) :
    Occupied slot found (mem, bus.setDevice other d) := by
  have hne : other ≠ slot := by
    rintro rfl
    exact Bool.noConfusion (hidle.symm.trans h.1)
  refine ⟨h.1, ?_⟩
  rw [getElem?_setDevice, if_neg hne]
  exact h.2

theorem Occupied.onWrite {found : Option Device} {mem : Memory Wire} {bus : Bus}
    (h : Occupied slot found (mem, bus)) (wire : Wire) (w : Word) :
    Occupied slot found (mem, wire.onWrite w bus) := by
  cases wire with
  | register other number =>
    simp only [Wire.onWrite]
    split
    · exact h
    · next hidle =>
      split
      · exact h.setDevice (eq_false_of_ne_true hidle)
      · exact h
  | screen other =>
    simp only [Wire.onWrite]
    split
    · next hidle _ => exact h.setDevice hidle
    · exact h

theorem Occupied.onRead {found : Option Device} {mem : Memory Wire} {bus : Bus}
    (h : Occupied slot found (mem, bus)) (wire : Wire) :
    Occupied slot found (mem, (wire.onRead bus).2) := by
  cases wire with
  | register other number =>
    simp only [Wire.onRead]
    split
    · exact h
    · next hidle =>
      split
      · exact h.setDevice (eq_false_of_ne_true hidle)
      · exact h
  | screen other => exact h

/-- **The processor is a line that spares a busy device.** -/
theorem spares_interrupt (slot : Slot) : Line.Spares Processor.interrupt slot := by
  intro message board hbusy
  have hagrees : Memory.Agreement fun s t : Memory Wire × Bus =>
      s = t ∧ Occupied slot board.world.devices[slot]? s := by
    refine ⟨fun addr => Memory.keeps_read_of fun mem bus _ h => ?_,
      fun addr value => Memory.keeps_write_of fun mem bus _ h => ?_⟩
    · unfold Memory.asked
      cases mem.observer? addr with
      | none => exact h
      | some wire => exact h.onRead wire
    · unfold Memory.told
      cases mem.observer? addr with
      | none => exact h
      | some wire =>
        have hstored : Occupied slot board.world.devices[slot]?
            (mem.store addr (UInt16.ofNat value), bus) := h
        exact hstored.onWrite wire _
  have hkeeps := Processor.keeps_of_lockstep (Processor.lockstep_interrupt hagrees message)
  exact (keeps_iff.mp hkeeps board ⟨hbusy, rfl⟩).2

/-- A line that takes no interrupt but fails. -/
def broken : Line := fun _ => throw (.memory (.outOfRange 0 0))

/-! ## Requests -/

/-- Ask a line for an interrupt while nothing can reach the device in a slot, if it wants one. -/
def deliverOn (line : Line) (slot : Slot) : (request : Option Word) → Board.Action Unit
  | none => return
  | some message => do
    let _ ← withBusy slot (line message)

/-- **The processor is the line that a device is delivered on.** -/
theorem deliverOn_interrupt (slot : Slot) : deliverOn Processor.interrupt slot = deliver slot := by
  funext request
  cases request <;> rfl

/-- Whatever the line answers, the device stays as it is meanwhile. -/
theorem getElem?_deliverOn {line : Line} (hline : line.Spares slot) (request : Option Word) :
    (stateOf (deliverOn line slot request board)).world.devices[slot]? =
      board.world.devices[slot]? := by
  cases request with
  | none => rfl
  | some message =>
    have hbusy : (setBusy (slot :: board.world.busy) board).world.isBusy slot = true := by
      change (slot :: board.world.busy).contains slot = true
      simp
    rw [deliverOn, stateOf_map, stateOf_withBusy]
    exact hline message _ hbusy

/-- What a device asks the processor for fails just if the processor is jammed. -/
theorem failed_deliver_iff (slot : Slot) (request : Option Word) (board : Board) :
    Failed (deliver slot request board) ↔ request ≠ none ∧ board.Jammed := by
  cases request with
  | none => exact iff_of_false id fun h => h.1 rfl
  | some message =>
    rw [deliver, failed_map, failed_withBusy, Processor.failed_interrupt_iff]
    exact (and_iff_right (Option.some_ne_none _)).symm

/-! ## A device put back, and the registers of an idle one -/

/-- The board with another device in a slot. -/
def putDevice (slot : Slot) (d : Device) (board : Board) : Board :=
  { board with world := board.world.setDevice slot d }

theorem getElem?_putDevice {old : Device} (h : board.world.devices[slot]? = some old) (d : Device) :
    (putDevice slot d board).world.devices[slot]? = some d := by
  rw [putDevice, getElem?_setDevice, if_pos rfl, h, Option.map_some]

/-- **An idle device ticks first, and then the interrupt it asked for is delivered.** -/
theorem tickSlot_of_idle {d : Device} (h : board.world.devices[slot]? = some d)
    (hidle : board.world.isBusy slot = false) (now : Nat) :
    tickSlot now slot board =
      deliver slot (d.tick now).2 (putDevice slot (d.tick now).1 board) := by
  have hbusy : ofBus (·.isBusy slot) board = .ok false board := by rw [ofBus, hidle]
  have hfound : ofBus (·.devices[slot]?) board = .ok (some d) board := by rw [ofBus, h]
  change (ofBus (·.isBusy slot) >>= fun busy => _) board = _
  rw [bind_of_ok hbusy, if_neg Bool.false_ne_true]
  change (ofBus (·.devices[slot]?) >>= fun found => _) board = _
  rw [bind_of_ok hfound]
  rfl

/-- A device that a tick leaves as it is does nothing to the board. -/
theorem tickSlot_of_still {d : Device} (h : board.world.devices[slot]? = some d)
    (hidle : board.world.isBusy slot = false) {now : Nat} (hstill : d.tick now = (d, none)) :
    tickSlot now slot board = .ok () board := by
  rw [tickSlot_of_idle h hidle, hstill, putDevice, setDevice_self h]
  rfl

theorem onRead_register {d : Device} (h : board.world.devices[slot]? = some d)
    (hidle : board.world.isBusy slot = false) (register : Word) :
    (Wire.register slot register).onRead board.world =
      (some (d.read register).1, board.world.setDevice slot (d.read register).2) := by
  simp only [Wire.onRead, hidle, Bool.false_eq_true, if_false, h]

theorem onWrite_register {d : Device} (h : board.world.devices[slot]? = some d)
    (hidle : board.world.isBusy slot = false) (register value : Word) :
    (Wire.register slot register).onWrite value board.world =
      board.world.setDevice slot (d.write register value) := by
  simp only [Wire.onWrite, hidle, Bool.false_eq_true, if_false, h]

end Bus

end WordMachine
