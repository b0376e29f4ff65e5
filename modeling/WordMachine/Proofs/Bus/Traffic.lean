import WordMachine.Proofs.Bus.Line
import WordMachine.Proofs.Processor.Interrupts

/-!
# Proofs/Bus/Traffic — what devices make of the words that an interrupt pushes

The two words that an interrupt pushes are stores like any others: a register wire at the cell
passes the word on to its device, and a screen wire marks the picture as changed.  But the device
that asks for the interrupt is busy meanwhile, and a busy device makes nothing of either
(`getElem?_onWrite`).  Afterwards the same devices are busy as before: `keeps_busy_tick`,
`keeps_busy_pressKey`.

Main statement: `deliver_eq_told`.
-/

namespace WordMachine

/-- The device with its picture marked as changed, if it has one. -/
def Device.redrawn : Device → Device
  | .display d => .display d.markDirty
  | d => d

/-- What the device in a slot makes of a word that is stored at a cell with this wire. -/
def Wire.heard (wire : Wire) (slot : Slot) (w : Word) (d : Device) : Device :=
  match wire with
  | .register target number => if target = slot then d.write number w else d
  | .screen target => if target = slot then d.redrawn else d

@[simp] theorem Wire.heard_register (slot : Slot) (number w : Word) (d : Device) :
    (Wire.register slot number).heard slot w d = d.write number w := if_pos rfl

@[simp] theorem Wire.heard_screen (slot : Slot) (w : Word) (d : Device) :
    (Wire.screen slot).heard slot w d = d.redrawn := if_pos rfl

/-- The slot that a wire leads to. -/
def Wire.target : Wire → Slot
  | .register slot _ => slot
  | .screen slot => slot

theorem Wire.heard_of_ne {wire : Wire} {slot : Slot} (h : wire.target ≠ slot) (w : Word)
    (d : Device) : wire.heard slot w d = d := by
  cases wire with
  | register target number => exact if_neg h
  | screen target => exact if_neg h

namespace Bus

open Word (below)

variable {α : Type} {bus : Bus} {board : Board} {slot : Slot}

/-! ## What a wire leads to -/

/-- A busy device is not reached… -/
theorem devices_onWrite_of_busy {wire : Wire} (h : bus.isBusy wire.target = true) (w : Word) :
    (wire.onWrite w bus).devices = bus.devices := by
  cases wire with
  | register target number =>
    have h : bus.isBusy target = true := h
    simp only [Wire.onWrite, h, if_true]
    rfl
  | screen target =>
    have h : bus.isBusy target = true := h
    simp only [Wire.onWrite, h]

/-- …nor is any that the wire does not lead to… -/
theorem getElem?_onWrite_of_ne {wire : Wire} (h : wire.target ≠ slot) (w : Word) (bus : Bus) :
    (wire.onWrite w bus).devices[slot]? = bus.devices[slot]? := by
  cases wire with
  | register target number =>
    simp only [Wire.onWrite]
    split
    · rfl
    · split
      · exact (getElem?_setDevice ..).trans (if_neg h)
      · rfl
  | screen target =>
    simp only [Wire.onWrite]
    split
    · exact (getElem?_setDevice ..).trans (if_neg h)
    · rfl

/-- …and an idle one is. -/
theorem getElem?_onWrite_target {wire : Wire} (h : bus.isBusy wire.target = false) (w : Word) :
    (wire.onWrite w bus).devices[wire.target]? =
      bus.devices[wire.target]?.map (wire.heard wire.target w) := by
  cases wire with
  | register target number =>
    have h : bus.isBusy target = false := h
    simp only [Wire.onWrite, h, Bool.false_eq_true, if_false, Wire.target]
    cases hdevice : bus.devices[target]? with
    | none => exact hdevice
    | some d =>
      rw [Option.map_some, Wire.heard_register, getElem?_setDevice, if_pos rfl, hdevice]
      rfl
  | screen target =>
    have h : bus.isBusy target = false := h
    simp only [Wire.onWrite, h, Wire.target]
    cases hdevice : bus.devices[target]? with
    | none => exact hdevice
    | some d =>
      rw [Option.map_some, Wire.heard_screen]
      cases d with
      | display s => exact (getElem?_setDevice ..).trans (by rw [if_pos rfl, hdevice]; rfl)
      | _ => exact hdevice

/-- **A store reaches the device that the wire leads to**, unless that is busy, and no other. -/
theorem getElem?_onWrite (wire : Wire) (w : Word) (bus : Bus) (slot : Slot) :
    (wire.onWrite w bus).devices[slot]? =
      if bus.isBusy slot then bus.devices[slot]?
      else bus.devices[slot]?.map (wire.heard slot w) := by
  by_cases hslot : wire.target = slot
  · subst hslot
    split
    · next hbusy => rw [devices_onWrite_of_busy hbusy]
    · next hidle => exact getElem?_onWrite_target (eq_false_of_ne_true hidle) w
  · have hmap : bus.devices[slot]?.map (wire.heard slot w) = bus.devices[slot]? := by
      rw [funext (Wire.heard_of_ne hslot w)]
      exact Option.map_id_apply
    rw [hmap, ite_self, getElem?_onWrite_of_ne hslot]

/-! ## Who is busy -/

theorem isBusy_of_free (h : bus.busy = []) (slot : Slot) : bus.isBusy slot = false := by
  rw [isBusy, h]
  rfl

theorem busy_onWrite (wire : Wire) (w : Word) (bus : Bus) :
    (wire.onWrite w bus).busy = bus.busy := by
  cases wire with
  | register target register =>
    simp only [Wire.onWrite]
    split
    · rfl
    · split <;> rfl
  | screen target =>
    simp only [Wire.onWrite]
    split <;> rfl

theorem busy_onRead (wire : Wire) (bus : Bus) : (wire.onRead bus).2.busy = bus.busy := by
  cases wire with
  | register target register =>
    simp only [Wire.onRead]
    split
    · rfl
    · split <;> rfl
  | screen target => rfl

theorem busy_told (mem : Memory Wire) (addr : Nat) (w : Word) (bus : Bus) :
    (mem.told addr w bus).busy = bus.busy := by
  unfold Memory.told
  split
  · rfl
  · exact busy_onWrite ..

theorem busy_asked (mem : Memory Wire) (addr : Nat) (bus : Bus) :
    (mem.asked addr bus).2.busy = bus.busy := by
  unfold Memory.asked
  split
  · rfl
  · exact busy_onRead ..

/-- These devices are in the middle of an action. -/
def Engaged (busy : List Slot) (board : Board) : Prop := board.world.busy = busy

variable {busy : List Slot}

/-- **Reads and writes keep who is busy.** -/
theorem agreement_busy :
    Memory.Agreement fun s t : Memory Wire × Bus => s = t ∧ s.2.busy = busy where
  read addr := Memory.keeps_read_of fun mem bus _ h => (busy_asked mem addr bus).trans h
  write addr _ := Memory.keeps_write_of fun mem bus _ h => (busy_told mem addr _ bus).trans h

theorem keeps_busy_step : Keeps (Engaged busy) Processor.step :=
  Processor.keeps_of_lockstep (Processor.lockstep_step agreement_busy)

theorem keeps_busy_exec (n : Nat) : Keeps (Engaged busy) (Processor.exec n) :=
  Processor.keeps_of_lockstep (Processor.lockstep_exec agreement_busy n)

theorem keeps_busy_ofBus (f : Bus → α) :
    Keeps (Engaged busy) (ofBus f) :=
  keeps_iff.mpr fun _ h => h

theorem keeps_busy_setDevice (slot : Slot) (d : Device) :
    Keeps (Engaged busy) (modify (·.setDevice slot d)) :=
  keeps_iff.mpr fun _ h => h

/-- Whatever a device has done while it was busy, the same are busy afterwards. -/
theorem keeps_busy_deliver (slot : Slot) (request : Option Word) :
    Keeps (Engaged busy) (deliver slot request) := by
  cases request with
  | none => exact .pure ()
  | some message =>
    refine keeps_iff.mpr fun board h => ?_
    rw [deliver, stateOf_map, stateOf_withBusy]
    exact h

theorem keeps_busy_tickSlot (now : Nat) (slot : Slot) :
    Keeps (Engaged busy) (tickSlot now slot) := by
  refine (keeps_busy_ofBus _).bind fun isBusy => ?_
  split
  · exact keeps_iff.mpr fun _ h => h
  · refine (keeps_busy_ofBus _).bind fun found => ?_
    cases found with
    | none => exact .pure ()
    | some d => exact (keeps_busy_setDevice slot _).bind fun _ => keeps_busy_deliver slot _

theorem keeps_busy_tick (now : Nat) :
    Keeps (Engaged busy) (tick now) :=
  (keeps_busy_ofBus _).bind fun registry =>
    Lockstep.forM registry fun entry _ => keeps_busy_tickSlot now entry.2

theorem keeps_busy_pressKey (slot : Slot) (code : Word) :
    Keeps (Engaged busy) (pressKey slot code) := by
  refine (keeps_busy_ofBus _).bind fun found => ?_
  split
  · split
    · exact .pure false
    · exact (keeps_busy_setDevice slot _).bind fun _ =>
        (keeps_busy_deliver slot _).bind fun _ => .pure true
  · exact .pure false

/-! ## An interrupt that a device asks for -/

/-- The bus after the device in a slot has had PC and A pushed. -/
def pushed (slot : Slot) (board : Board) : Bus :=
  { board.mem.told (below board.regs.sp 1).toNat (board.regs.get .a)
      (board.mem.told (below board.regs.sp 0).toNat board.regs.pc
        { board.world with busy := slot :: board.world.busy }) with
    busy := board.world.busy }

/-- **An interrupt is delivered while the device that asks for it is busy.** -/
theorem deliver_eq_told {message : Word} (hia : board.regs.ia ≠ 0) (hfull : board.Full) :
    deliver slot (some message) board =
      .ok () { board.interrupted message with world := pushed slot board } := by
  let board' : Board := setBusy (slot :: board.world.busy) board
  have hdelivered : Processor.interrupt message board' = .ok true _ :=
    Processor.interrupt_eq_told (p := board') hia hfull
  have hwith : withBusy slot (Processor.interrupt message) board =
      .ok true { board.interrupted message with world := pushed slot board } := by
    rw [withBusy, hdelivered]
    rfl
  exact bind_of_ok hwith

end Bus

end WordMachine
