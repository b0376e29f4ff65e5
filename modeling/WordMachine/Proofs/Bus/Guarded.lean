import WordMachine.Proofs.Bus.Lockstep
import WordMachine.Proofs.Guarded

/-!
# Proofs/Bus/Guarded — ticks and key presses that cannot fail

The devices have no errors of their own: what a tick or a key press can fail with is what the
delivery of an interrupt fails with, and that is what reads and writes fail with (`Bus.Guards`).
Where every address has a cell that is nothing at all, so every device ticks (`guarded_tick`) and
every key goes down (`guarded_pressKey`).
-/

namespace WordMachine

namespace Bus

open Processor (Full Fault)

variable {α : Type} {P : Board → Prop} {E : Fault → Prop}

theorem guarded_ofBus (f : Bus → α) : Guarded P E (ofBus f) :=
  .of_exists_ok fun board h => ⟨f board.world, board, rfl, h⟩

/-- Registers, reads and writes are guarded by a property that the bus has no part in. -/
structure Guards (P : Board → Prop) (E : Fault → Prop) : Prop extends Processor.Guards P E where
  world : ∀ board world, P board → P { board with world }

namespace Guards

variable (h : Guards P E)
include h

theorem modify (f : Bus → Bus) : Guarded P E (modify f) :=
  .of_exists_ok fun board hboard => ⟨(), _, rfl, h.world board (f board.world) hboard⟩

/-- Which devices are busy makes no difference to the property. -/
theorem withBusy {slot : Slot} {act : Board.Action α} (hact : Guarded P E act) :
    Guarded P E (withBusy slot act) where
  keeps := by
    refine keeps_iff.mpr fun board hboard => ?_
    rw [stateOf_withBusy]
    have hstart : P (Bus.setBusy (slot :: board.world.busy) board) := h.world board _ hboard
    exact h.world _ _ (keeps_iff.mp hact.keeps _ hstart)
  error := by
    intro board hboard e t hend
    have hstart : P (Bus.setBusy (slot :: board.world.busy) board) := h.world board _ hboard
    have herror := @hact.error _ hstart
    simp only [Bus.withBusy] at hend
    generalize act (Bus.setBusy (slot :: board.world.busy) board) = x at herror hend
    cases x with
    | ok a board' => cases hend
    | error e' board' =>
      cases hend
      exact herror rfl

/-- An interrupt that a device asked for fails with nothing else than reads and writes do. -/
theorem deliver (slot : Slot) (request : Option Word) : Guarded P E (deliver slot request) := by
  cases request with
  | none => exact .pure ()
  | some message => exact (h.withBusy (h.interrupt message)).bind fun _ => .pure ()

theorem tickSlot (now : Nat) (slot : Slot) : Guarded P E (tickSlot now slot) := by
  refine (guarded_ofBus _).bind fun busy => ?_
  split
  · exact h.modify _
  · refine (guarded_ofBus _).bind fun found => ?_
    cases found with
    | none => exact .pure ()
    | some device => exact (h.modify _).bind fun _ => h.deliver slot _

theorem tick (now : Nat) : Guarded P E (tick now) :=
  (guarded_ofBus _).bind fun _ => .forM (fun (_, slot) => h.tickSlot now slot) _

theorem pressKey (slot : Slot) (code : Word) : Guarded P E (pressKey slot code) := by
  refine (guarded_ofBus _).bind fun found => ?_
  split
  · split
    · exact .pure false
    · exact (h.modify _).bind fun _ => (h.deliver slot _).bind fun _ => .pure true
  · exact .pure false

end Guards

theorem guards_full : Guards Full E := ⟨Processor.guards_full, fun _ _ hboard => hboard⟩

/-- **All devices tick**… -/
theorem guarded_tick (now : Nat) : Guarded Full E (tick now) := guards_full.tick now

/-- …and every key can be pressed. -/
theorem guarded_pressKey (slot : Slot) (code : Word) : Guarded Full E (pressKey slot code) :=
  guards_full.pressKey slot code

end Bus

end WordMachine
