import WordMachine.Proofs.Bus.Lockstep
import WordMachine.Proofs.Memory.Tap

/-!
# Proofs/Bus/Tap — what is read and stored while devices tick

A tick accesses memory only to deliver the interrupts that devices ask for, each while its device is
busy.  So the events of a tick are those of the interrupts, in order of registration and up to the
first fault (`tickEvents`).  What reads and writes keep account of, and changes of a device other
than the screen leave alone, a tick keeps account of too: `Ledger.tick`.
-/

namespace WordMachine

namespace Bus

open Memory (Event)

/-- What goes on with something looked up on the bus. -/
theorem ofBus_bind {α β : Type} (f : Bus → α) (k : α → Board.Action β) (board : Board) :
    (ofBus f >>= k) board = k (f board.world) board := rfl

/-- The events while the interrupt is delivered that the device in a slot asked for. -/
def deliverEvents (slot : Slot) : (request : Option Word) → Board → List (Event Bus)
  | none, _ => []
  | some message, board =>
    Processor.events (Processor.interrupt message) (Bus.setBusy (slot :: board.world.busy) board)

/-- The events while the device in a slot ticks. -/
def slotEvents (now : Nat) (slot : Slot) (board : Board) : List (Event Bus) :=
  if board.world.isBusy slot then []
  else
    match board.world.devices[slot]? with
    | none => []
    | some device =>
      match device.tick now with
      | (device, request) =>
        deliverEvents slot request { board with world := board.world.setDevice slot device }

/-- The events while devices tick one after the other, up to the first fault. -/
def tickEvents (now : Nat) : List (UInt32 × Slot) → Board → List (Event Bus)
  | [], _ => []
  | entry :: entries, board =>
    slotEvents now entry.2 board ++
      match tickSlot now entry.2 board with
      | .ok _ board => tickEvents now entries board
      | .error .. => []

/-- An account of memory, bus and events that allows what a tick can do besides reads and writes.
There is a display in the slot `screen`, which is not busy. -/
structure Ledger (screen : Slot) (I : Memory Wire × Bus → List (Event Bus) → Prop) : Prop
    extends Memory.Account I where
  display : ∀ {s events}, I s events → ∃ d, s.2.devices[screen]? = some (.display d)
  idle : ∀ {s events}, I s events → screen ∉ s.2.busy
  note : ∀ {s events}, I s events → ∀ n, I (s.1, s.2.note n) events
  setBusy : ∀ {s events}, I s events → ∀ {busy}, screen ∉ busy → I (s.1, { s.2 with busy }) events
  setDevice : ∀ {s events}, I s events → ∀ {slot old new}, slot ≠ screen →
    s.2.devices[slot]? = some old → new.kind = old.kind → I (s.1, s.2.setDevice slot new) events

namespace Ledger

variable {screen : Slot} {I : Memory Wire × Bus → List (Event Bus) → Prop} {board : Board}
  {before : List (Event Bus)}

variable (h : Ledger screen I)
include h

theorem deliver {slot : Slot} {request : Option Word} (hslot : request ≠ none → slot ≠ screen)
    (hI : I (board.mem, board.world) before) :
    I ((stateOf (deliver slot request board)).mem, (stateOf (deliver slot request board)).world)
      (before ++ deliverEvents slot request board) := by
  cases request with
  | none =>
    rw [deliverEvents, List.append_nil]
    exact hI
  | some message =>
    have hidle : screen ∉ board.world.busy := h.idle hI
    have hbusy : screen ∉ slot :: board.world.busy := by
      rw [List.mem_cons, not_or]
      exact ⟨(hslot (by simp)).symm, hidle⟩
    have hend := Processor.account_interrupt h.toAccount
      (p := Bus.setBusy (slot :: board.world.busy) board) (h.setBusy hI hbusy) message
    have hstate : stateOf (Bus.deliver slot (some message) board) = _ :=
      (stateOf_map _ () board).trans (stateOf_withBusy slot (Processor.interrupt message) board)
    rw [hstate]
    exact h.setBusy hend hidle

/-- A tick of the screen changes nothing, and any other device may be put back and interrupt. -/
theorem tickSlot (now : Nat) (slot : Slot) (hI : I (board.mem, board.world) before) :
    I ((stateOf (tickSlot now slot board)).mem, (stateOf (tickSlot now slot board)).world)
      (before ++ slotEvents now slot board) := by
  unfold Bus.tickSlot slotEvents
  rw [ofBus_bind]
  cases hbusy : board.world.isBusy slot with
  | true =>
    rw [if_pos rfl, if_pos rfl, List.append_nil]
    exact h.note hI _
  | false =>
    rw [if_neg Bool.false_ne_true, if_neg Bool.false_ne_true, ofBus_bind]
    cases hdevice : board.world.devices[slot]? with
    | none =>
      rw [List.append_nil]
      exact hI
    | some device =>
      have hscreen : slot = screen → ∃ d, device = .display d := by
        rintro rfl
        obtain ⟨d, hd⟩ := h.display hI
        exact ⟨d, Option.some.inj (hdevice.symm.trans hd)⟩
      -- The screen is put back like any device, though the ledger does not allow it to change.
      have hput : I (board.mem, board.world.setDevice slot (device.tick now).1) before := by
        by_cases hslot : slot = screen
        · obtain ⟨d, rfl⟩ := hscreen hslot
          have hself : board.world.setDevice slot (.display d) = board.world :=
            setDevice_self hdevice
          change I (board.mem, board.world.setDevice slot (.display d)) before
          rw [hself]
          exact hI
        · exact h.setDevice hI hslot hdevice (Device.kind_tick now device)
      have hrequest : (device.tick now).2 ≠ none → slot ≠ screen := by
        intro hasked hslot
        obtain ⟨d, rfl⟩ := hscreen hslot
        exact hasked rfl
      let board' : Board := { board with world := board.world.setDevice slot (device.tick now).1 }
      have hready : I (board'.mem, board'.world) before := hput
      exact h.deliver hrequest hready

/-- **A tick of all devices keeps the ledger.** -/
theorem tick (now : Nat) (hI : I (board.mem, board.world) before) :
    I ((stateOf (tick now board)).mem, (stateOf (tick now board)).world)
      (before ++ tickEvents now board.world.registry board) := by
  change I ((stateOf (board.world.registry.forM (fun entry => Bus.tickSlot now entry.2) board)).mem,
    (stateOf (board.world.registry.forM (fun entry => Bus.tickSlot now entry.2) board)).world) _
  generalize board.world.registry = entries
  induction entries generalizing board before with
  | nil =>
    rw [tickEvents, List.append_nil]
    exact hI
  | cons entry entries ih =>
    have hslot := h.tickSlot now entry.2 hI
    have hcons : (entry :: entries).forM (fun entry => Bus.tickSlot now entry.2) =
        (Bus.tickSlot now entry.2 >>= fun _ =>
          entries.forM fun entry => Bus.tickSlot now entry.2) := rfl
    rw [hcons, tickEvents, ← List.append_assoc]
    cases hend : Bus.tickSlot now entry.2 board with
    | ok a board' =>
      rw [bind_of_ok hend]
      rw [hend] at hslot
      exact ih hslot
    | error e board' =>
      rw [bind_of_error hend, List.append_nil]
      rw [hend] at hslot
      exact hslot

end Ledger

end Bus

end WordMachine
