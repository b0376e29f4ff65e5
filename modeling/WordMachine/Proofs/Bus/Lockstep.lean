import WordMachine.Bus.Wiring
import WordMachine.Proofs.Lockstep

/-!
# Proofs/Bus/Lockstep — boards that run and tick side by side

A board reaches its wires through reads and writes, and its bus through ticks and key presses: a
device is put back changed but of the same kind, a notice is added, a device is busy for a while.
A relation of wired memories that allows all of these is a `Congruence`, and an action in lockstep
under every congruence is `Uniform`.  Main statements: `uniform_exec`, `uniform_tick` and
`uniform_pressKey`.

One slot, `screen`, is kept apart: it holds a display, which never asks for an interrupt and so is
never busy.
-/

namespace WordMachine

namespace Device

/-- What does not change about a device. -/
inductive Kind where
  | clock
  | keyboard
  | display
  | bank (hardwareId : UInt32) (registerCount : Word)
  deriving DecidableEq, Repr

def kind : Device → Kind
  | clock _ => .clock
  | keyboard _ => .keyboard
  | display _ => .display
  | bank b => .bank b.hardwareId b.registerCount

@[simp] theorem kind_read (register : Word) (d : Device) : (d.read register).2.kind = d.kind := by
  cases d <;> rfl

@[simp] theorem kind_write (register w : Word) (d : Device) :
    (d.write register w).kind = d.kind := by
  cases d with
  | bank b => simp [write, kind, RegisterBank.write, RegisterBank.registerCount]
  | _ => rfl

@[simp] theorem kind_tick (now : Nat) (d : Device) : (d.tick now).1.kind = d.kind := by
  cases d with
  | clock c =>
    simp only [tick]
    split <;> rfl
  | _ => rfl

/-- A device of the kind of a display is one. -/
theorem exists_display {d : Device} (h : d.kind = .display) : ∃ s, d = .display s := by
  cases d with
  | display s => exact ⟨s, rfl⟩
  | _ => cases h

end Device

namespace Bus

/-! ## Putting devices back, and being busy -/

theorem getElem?_setDevice (bus : Bus) (slot place : Slot) (d : Device) :
    (bus.setDevice slot d).devices[place]? =
      if slot = place then bus.devices[place]?.map fun _ => d else bus.devices[place]? := by
  simp only [setDevice, Array.getElem?_setIfInBounds]
  by_cases h : slot = place
  · subst h
    by_cases hlt : slot < bus.devices.size <;> simp [hlt]
  · simp [h]

/-- Nothing changes when a device is put back as it was. -/
theorem setDevice_self {bus : Bus} {slot : Slot} {d : Device} (h : bus.devices[slot]? = some d) :
    bus.setDevice slot d = bus := by
  have hdevices : bus.devices.setIfInBounds slot d = bus.devices := by
    refine Array.ext_getElem? fun place => ?_
    have hput := getElem?_setDevice bus slot place d
    simp only [setDevice] at hput
    rw [hput]
    split
    · next heq => rw [← heq, h]; rfl
    · rfl
  simp only [setDevice, hdevices]

/-- A device is busy for as long as something is done, and then as it was. -/
theorem stateOf_withBusy {α : Type} (slot : Slot) (act : Board.Action α) (board : Board) :
    stateOf (withBusy slot act board) =
      Bus.setBusy board.world.busy
        (stateOf (act (Bus.setBusy (slot :: board.world.busy) board))) := by
  simp only [withBusy]
  cases act (Bus.setBusy (slot :: board.world.busy) board) <;> rfl

theorem failed_withBusy {α : Type} (slot : Slot) (act : Board.Action α) (board : Board) :
    Failed (withBusy slot act board) ↔
      Failed (act (Bus.setBusy (slot :: board.world.busy) board)) := by
  simp only [withBusy]
  cases act (Bus.setBusy (slot :: board.world.busy) board) <;> rfl

/-! ## Congruences -/

/-- A relation of wired memories that allows whatever a board can do.  Its two buses are the same,
with a display in the slot `screen` that is not busy. -/
structure Congruence (screen : Slot) (R : Memory Wire × Bus → Memory Wire × Bus → Prop) : Prop where
  access : Memory.Agreement R
  bus_eq : ∀ {s t}, R s t → s.2 = t.2
  display : ∀ {s t}, R s t → ∃ d, s.2.devices[screen]? = some (.display d)
  idle : ∀ {s t}, R s t → screen ∉ s.2.busy
  note : ∀ {s t}, R s t → ∀ n, R (s.1, s.2.note n) (t.1, t.2.note n)
  setBusy : ∀ {s t}, R s t → ∀ {busy}, screen ∉ busy →
    R (s.1, { s.2 with busy }) (t.1, { t.2 with busy })
  setDevice : ∀ {s t}, R s t → ∀ {slot old new}, slot ≠ screen → s.2.devices[slot]? = some old →
    new.kind = old.kind → R (s.1, s.2.setDevice slot new) (t.1, t.2.setDevice slot new)

/-- In lockstep under every congruence. -/
def Uniform {α : Type} (screen : Slot) (act : Board.Action α) : Prop :=
  ∀ ⦃R⦄, Congruence screen R → Lockstep (Processor.Alike R) act act

section Uniform

variable {screen : Slot} {α : Type}

theorem uniform_step : Uniform screen Processor.step := fun _ h => Processor.lockstep_step h.access

theorem uniform_exec (n : Nat) : Uniform screen (Processor.exec n) :=
  fun _ h => Processor.lockstep_exec h.access n

/-- While a device other than the screen is busy, what is done stays in lockstep. -/
theorem uniform_withBusy {slot : Slot} (hslot : slot ≠ screen) {act : Board.Action α}
    (hact : Uniform screen act) : Uniform screen (withBusy slot act) := by
  rintro R hR ⟨regs, mem, bus, cycles, last⟩ ⟨_, mem', _, _, _⟩ ⟨rfl, hst, rfl, rfl⟩
  obtain rfl : bus = _ := hR.bus_eq hst
  have hidle : screen ∉ bus.busy := hR.idle hst
  have hbusy : screen ∉ slot :: bus.busy := by
    rw [List.mem_cons, not_or]
    exact ⟨hslot.symm, hidle⟩
  have hstart : Processor.Alike R (Bus.setBusy (slot :: bus.busy) ⟨regs, mem, bus, cycles, last⟩)
      (Bus.setBusy (slot :: bus.busy) ⟨regs, mem', bus, cycles, last⟩) :=
    ⟨rfl, hR.setBusy hst hbusy, rfl, rfl⟩
  have hrestore : ∀ {p q : Board}, Processor.Alike R p q →
      Processor.Alike R (Bus.setBusy bus.busy p) (Bus.setBusy bus.busy q) := fun hpq =>
    ⟨hpq.regs, hR.setBusy hpq.memory hidle, hpq.cycles, hpq.last⟩
  have hend := hact hR hstart
  simp only [withBusy]
  generalize act (Bus.setBusy (slot :: bus.busy) ⟨regs, mem, bus, cycles, last⟩) = x at hend ⊢
  generalize act (Bus.setBusy (slot :: bus.busy) ⟨regs, mem', bus, cycles, last⟩) = y at hend ⊢
  cases hend with
  | ok a hpq => exact .ok a (hrestore hpq)
  | error e hpq => exact .error e (hrestore hpq)

theorem uniform_deliver {slot : Slot} {request : Option Word}
    (hslot : request ≠ none → slot ≠ screen) : Uniform screen (deliver slot request) := by
  intro R hR
  cases request with
  | none => exact .pure ()
  | some message =>
    have hinterrupt : Uniform screen (Processor.interrupt message : Board.Action Bool) :=
      fun _ h => Processor.lockstep_interrupt h.access message
    exact (uniform_withBusy (hslot (by simp)) hinterrupt hR).bind fun _ => .pure ()

variable {β : Type} {R : Memory Wire × Bus → Memory Wire × Bus → Prop} (hR : Congruence screen R)
include hR

/-- What goes on with something looked up on the bus may use what was looked up. -/
theorem sameEnd_ofBus {p q : Board} (hpq : Processor.Alike R p q) {f : Bus → α}
    {k : α → Board.Action β}
    (h : SameEnd (Processor.Alike R) (k (f p.world) p) (k (f p.world) q)) :
    SameEnd (Processor.Alike R) ((ofBus f >>= k) p) ((ofBus f >>= k) q) := by
  change SameEnd _ (k (f p.world) p) (k (f q.world) q)
  have hbus : p.world = q.world := hR.bus_eq hpq.memory
  rw [← hbus]
  exact h

/-- What goes on after a device other than the screen has been put back. -/
theorem sameEnd_setDevice {p q : Board} (hpq : Processor.Alike R p q) {slot : Slot}
    {old new : Device} (hslot : slot ≠ screen) (hold : p.world.devices[slot]? = some old)
    (hkind : new.kind = old.kind) {act : Board.Action α}
    (hact : Lockstep (Processor.Alike R) act act) :
    SameEnd (Processor.Alike R) ((modify (·.setDevice slot new) >>= fun _ => act) p)
      ((modify (·.setDevice slot new) >>= fun _ => act) q) :=
  hact ⟨hpq.regs, hR.setDevice hpq.memory hslot hold hkind, hpq.cycles, hpq.last⟩

omit hR

/-- **A device's tick is in lockstep**: the screen's changes nothing, and any other device may be
put back and may interrupt. -/
theorem uniform_tickSlot (now : Nat) (slot : Slot) : Uniform screen (tickSlot now slot) := by
  intro R hR p q hpq
  refine sameEnd_ofBus hR hpq ?_
  split
  · exact .ok () ⟨hpq.regs, hR.note hpq.memory _, hpq.cycles, hpq.last⟩
  refine sameEnd_ofBus hR hpq ?_
  cases hdevice : p.world.devices[slot]? with
  | none => exact .ok () hpq
  | some device =>
    by_cases hslot : slot = screen
    · obtain ⟨d, hd⟩ := hR.display hpq.memory
      obtain rfl : device = .display d := by
        rw [hslot, hd] at hdevice
        exact (Option.some.inj hdevice).symm
      have hbus : p.world = q.world := hR.bus_eq hpq.memory
      have hself : p.world.setDevice slot (.display d) = p.world := setDevice_self hdevice
      have hself' : q.world.setDevice slot (.display d) = q.world := by rw [← hbus, hself]
      refine .ok () ⟨hpq.regs, ?_, hpq.cycles, hpq.last⟩
      change R (p.mem, p.world.setDevice slot (.display d))
        (q.mem, q.world.setDevice slot (.display d))
      rw [hself, hself']
      exact hpq.memory
    · exact sameEnd_setDevice hR hpq hslot hdevice (Device.kind_tick now device)
        (uniform_deliver (fun _ => hslot) hR)

/-- **A tick of all devices is in lockstep.** -/
theorem uniform_tick (now : Nat) : Uniform screen (tick now) := by
  intro R hR p q hpq
  refine sameEnd_ofBus hR hpq ?_
  exact Lockstep.forM _ (fun entry _ => uniform_tickSlot now entry.2 hR) hpq

/-- **A key press is in lockstep.** -/
theorem uniform_pressKey (slot : Slot) (code : Word) : Uniform screen (pressKey slot code) := by
  intro R hR p q hpq
  refine sameEnd_ofBus hR hpq ?_
  cases hdevice : p.world.devices[slot]? with
  | none => exact .ok false hpq
  | some device =>
    cases device with
    | keyboard k =>
      have hslot : slot ≠ screen := by
        rintro rfl
        obtain ⟨d, hd⟩ := hR.display hpq.memory
        rw [hd] at hdevice
        cases hdevice
      cases hpress : k.press? code with
      | none =>
        simp only [hpress]
        exact .ok false hpq
      | some pressed =>
        have hkind : (Device.keyboard pressed).kind = (Device.keyboard k).kind := rfl
        simp only [hpress]
        exact sameEnd_setDevice hR hpq hslot hdevice hkind
          ((uniform_deliver (fun _ => hslot) hR).bind fun _ => .pure true)
    | _ => exact .ok false hpq

end Uniform

end Bus

end WordMachine
