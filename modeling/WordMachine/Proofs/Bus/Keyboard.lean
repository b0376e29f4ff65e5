import WordMachine.Proofs.Bus.Line
import WordMachine.Proofs.Device.Keyboard

/-!
# Proofs/Bus/Keyboard — keys that are pressed on a board

A keyboard on a board is pressed and let go from outside, and its registers are read and written by
whatever uses the board.  While a press asks for an interrupt the keyboard is busy, and nothing can
change it, so it is the same whether the interrupt is delivered, dropped or fails (`Line`).  What a
press leaves and when it fails is in `getElem?_pressKey` and `failed_pressKey_iff`.

Main statement: `keyboard_of_typed`.  After any such past the keyboard is what
`Proofs/Device/Keyboard` says of it.
-/

namespace WordMachine

namespace Bus

open Keyboard (Event ofPast Down accepted taken removed untilEmptied messageSet)

variable {slot : Slot} {board : Board} {past : List Event}

/-! ## Presses -/

/-- Press a key of the keyboard in a slot, whose interrupts go to a line. -/
def pressKeyOn (line : Line) (slot : Slot) (code : Word) : Board.Action Bool := do
  match ← ofBus (·.devices[slot]?) with
  | some (.keyboard k) =>
    match k.press? code with
    | none => return false
    | some k =>
      modify fun bus => bus.setDevice slot (.keyboard k)
      deliverOn line slot k.request
      return true
  | _ => return false

/-- **A key is pressed with the processor as the line.** -/
theorem pressKeyOn_interrupt (slot : Slot) (code : Word) :
    pressKeyOn Processor.interrupt slot code = pressKey slot code := by
  rw [pressKey, ← deliverOn_interrupt]
  rfl

theorem pressKeyOn_of_held {k : Keyboard} (h : board.world.devices[slot]? = some (.keyboard k))
    {code : Word} (hheld : k.isHeld code = true) (line : Line) :
    pressKeyOn line slot code board = .ok false board := by
  change (match board.world.devices[slot]? with | some (.keyboard k) => _ | _ => _ :
    Board.Action Bool) board = _
  simp only [h, Keyboard.press?, if_pos hheld]
  rfl

/-- **A key that was up is pressed first, and then the interrupt is asked for.** -/
theorem pressKeyOn_of_up {k : Keyboard} (h : board.world.devices[slot]? = some (.keyboard k))
    {code : Word} (hup : k.isHeld code = false) (line : Line) :
    pressKeyOn line slot code board =
      (do deliverOn line slot (k.pressed code).request; return true)
        (putDevice slot (.keyboard (k.pressed code)) board) := by
  change (match board.world.devices[slot]? with | some (.keyboard k) => _ | _ => _ :
    Board.Action Bool) board = _
  simp only [h, Keyboard.press?, hup, Bool.false_eq_true, if_false]
  rfl

/-- **Whatever becomes of the interrupt**, the key has been pressed. -/
theorem getElem?_pressKeyOn {line : Line} (hline : line.Spares slot) {k : Keyboard}
    (h : board.world.devices[slot]? = some (.keyboard k)) (code : Word) :
    (stateOf (pressKeyOn line slot code board)).world.devices[slot]? =
      some (.keyboard (k.after (.press code))) := by
  rw [Keyboard.after_press]
  cases hheld : k.isHeld code with
  | true =>
    rw [pressKeyOn_of_held h hheld]
    exact h
  | false =>
    rw [pressKeyOn_of_up h hheld, stateOf_map, getElem?_deliverOn hline]
    exact getElem?_putDevice h _

theorem getElem?_pressKey {k : Keyboard} (h : board.world.devices[slot]? = some (.keyboard k))
    (code : Word) : (stateOf (pressKey slot code board)).world.devices[slot]? =
      some (.keyboard (k.after (.press code))) := by
  rw [← pressKeyOn_interrupt]
  exact getElem?_pressKeyOn (spares_interrupt slot) h code

/-- **A press fails** just if the key was up and its interrupt finds no room. -/
theorem failed_pressKey_iff {k : Keyboard} (h : board.world.devices[slot]? = some (.keyboard k))
    (code : Word) :
    Failed (pressKey slot code board) ↔
      k.isHeld code = false ∧ k.message ≠ 0 ∧ board.Jammed := by
  rw [← pressKeyOn_interrupt]
  cases hheld : k.isHeld code with
  | true =>
    rw [pressKeyOn_of_held h hheld]
    exact iff_of_false id fun h => Bool.noConfusion h.1
  | false =>
    have hrequest : (k.pressed code).request ≠ none ↔ k.message ≠ 0 := by
      rw [Keyboard.request_pressed]
      split <;> simp_all
    rw [pressKeyOn_of_up h hheld, failed_map, deliverOn_interrupt, failed_deliver_iff, hrequest]
    exact (and_iff_right rfl).symm

theorem getElem?_releaseKey {k : Keyboard}
    (h : board.world.devices[slot]? = some (.keyboard k)) (code : Word) :
    (board.world.releaseKey slot code).devices[slot]? = some (.keyboard (k.release code)) := by
  simp only [releaseKey, h]
  exact getElem?_putDevice h _

/-! ## The past of a keyboard -/

/-- A board with a keyboard in a slot to which this was done since it was new, the latest first.
Interrupts may have gone to any lines, and anything may have happened to the board besides. -/
inductive Typed (slot : Slot) : List Event → Board → Prop where
  | new {board : Board} (h : board.world.devices[slot]? = some (.keyboard {})) : Typed slot [] board
  | press {past : List Event} {board : Board} (h : Typed slot past board) {line : Line}
      (hline : line.Spares slot) (code : Word) :
      Typed slot (.press code :: past) (stateOf (pressKeyOn line slot code board))
  | release {past : List Event} {board : Board} (h : Typed slot past board) (code : Word) :
      Typed slot (.release code :: past)
        { board with world := board.world.releaseKey slot code }
  | read {past : List Event} {board : Board} (h : Typed slot past board)
      (hidle : board.world.isBusy slot = false) (register : Word) :
      Typed slot (.read register :: past)
        { board with world := ((Wire.register slot register).onRead board.world).2 }
  | write {past : List Event} {board : Board} (h : Typed slot past board)
      (hidle : board.world.isBusy slot = false) (register value : Word) :
      Typed slot (.write register value :: past)
        { board with world := (Wire.register slot register).onWrite value board.world }
  | beside {past : List Event} {board board' : Board} (h : Typed slot past board)
      (hsame : board'.world.devices[slot]? = board.world.devices[slot]?) : Typed slot past board'

theorem onRead_keyboard {k : Keyboard} (h : board.world.devices[slot]? = some (.keyboard k))
    (hidle : board.world.isBusy slot = false) (register : Word) :
    (Wire.register slot register).onRead board.world =
      (some (k.read register).1, board.world.setDevice slot (.keyboard (k.read register).2)) :=
  onRead_register h hidle register

/-- **The keyboard is what its past makes of it.** -/
theorem Typed.keyboard_eq (h : Typed slot past board) :
    board.world.devices[slot]? = some (.keyboard (ofPast past)) := by
  induction h with
  | new h => exact h
  | press h hline code ih => exact getElem?_pressKeyOn hline ih code
  | release h code ih => exact getElem?_releaseKey ih code
  | read h hidle register ih =>
    rw [onRead_keyboard ih hidle]
    exact getElem?_putDevice ih _
  | write h hidle register value ih =>
    rw [onWrite_register ih hidle]
    exact getElem?_putDevice ih _
  | beside h hsame ih => exact hsame.trans ih

/-- **No key is lost, duplicated or reordered**, whatever is done to a keyboard and whatever its
interrupts come to.  A key is held if its latest press or release was a press.  The keys that were
read since the queue was emptied last and those that wait are the accepted keys in their order,
without those removed until then; registers 1 and 2 tell of the last accepted key.  A release leaves
the queue alone, and so does the press of a key that is down.  The press of any other key puts it
into the queue, and if there is a message it asks for an interrupt with it, once. -/
theorem keyboard_of_typed (h : Typed slot past board) :
    board.world.devices[slot]? = some (.keyboard (ofPast past)) ∧
      (∀ code, (ofPast past).isHeld code = true ↔ Down past code) ∧
      taken past ++ (ofPast past).queue = (accepted past).drop (removed (untilEmptied past)) ∧
      (board.world.isBusy slot = false →
        ((Wire.register slot 0).onRead board.world).1 = some ((ofPast past).queue.headD 0) ∧
          ((Wire.register slot 1).onRead board.world).1 = some ((accepted past).getLastD 0) ∧
          ((Wire.register slot 2).onRead board.world).1 =
            some (if Down past ((accepted past).getLastD 0) then 1 else 0)) ∧
      (∀ code, (ofPast (.release code :: past)).queue = (ofPast past).queue) ∧
      (∀ line : Line, line.Spares slot → ∀ code,
        (Down past code → pressKeyOn line slot code board = .ok false board) ∧
          (¬ Down past code →
            (ofPast (.press code :: past)).queue = (ofPast past).queue ++ [code] ∧
              Typed slot (.press code :: past) (stateOf (pressKeyOn line slot code board)) ∧
              pressKeyOn line slot code board =
                (if messageSet past = 0 then pure true
                  else do let _ ← withBusy slot (line (messageSet past)); return true)
                  (putDevice slot (.keyboard (ofPast (.press code :: past))) board))) ∧
      (∀ code, pressKeyOn Processor.interrupt slot code = pressKey slot code) ∧
      Line.Spares Processor.interrupt slot := by
  have hkeyboard := h.keyboard_eq
  have hdown := Keyboard.isHeld_ofPast past
  refine ⟨hkeyboard, hdown, Keyboard.taken_append_queue past, fun hidle => ?registers, fun _ => rfl,
    fun line hline code => ⟨fun hcode => ?down, fun hcode => ?up⟩, pressKeyOn_interrupt slot,
    spares_interrupt slot⟩
  case registers =>
    rw [onRead_keyboard hkeyboard hidle, onRead_keyboard hkeyboard hidle,
      onRead_keyboard hkeyboard hidle, Keyboard.read_zero, Keyboard.read_one, Keyboard.read_two,
      Keyboard.lastKey_ofPast]
    simp only [hdown, and_self]
  case down => exact pressKeyOn_of_held hkeyboard ((hdown code).mpr hcode) line
  case up =>
    have hpressed := Keyboard.ofPast_press_of_up hcode
    have hup : (ofPast past).isHeld code = false :=
      eq_false_of_ne_true fun hheld => hcode ((hdown code).mp hheld)
    refine ⟨congrArg Keyboard.queue hpressed, h.press hline code, ?_⟩
    rw [pressKeyOn_of_up hkeyboard hup, hpressed, Keyboard.request_pressed,
      Keyboard.message_ofPast]
    split
    · rfl
    · rw [deliverOn, bind_assoc]
      simp only [pure_bind]

/-- A board with a new keyboard. -/
def plugged : Board := .ofMemory (.ofCapacity 0) (({} : Bus).register (.keyboard {}))

/-- Two keys go down, of which one repeats, while all interrupts fail. -/
def mashed : List Event :=
  [.read 0, .press 66, .press 65, .press 65, .write 0 7]

theorem keyboard_of_typed_mashed :
    ∃ board, Typed 0 mashed board ∧ board.world.devices[0]? = some (.keyboard (ofPast mashed)) ∧
      taken mashed ++ (ofPast mashed).queue = [65, 66] ∧
      pressKeyOn broken 0 66 board = .ok false board ∧
      ∃ board', pressKeyOn broken 0 67 board = .error (.memory (.outOfRange 0 0)) board' := by
  have hbroken : broken.Spares 0 := fun _ _ _ => rfl
  have hnew : Typed 0 [] plugged := .new rfl
  have hmessage := hnew.write rfl 0 7
  have hpressed := ((hmessage.press hbroken 65).press hbroken 65).press hbroken 66
  obtain ⟨board, hmashed⟩ : ∃ board, Typed 0 mashed board := ⟨_, hpressed.read rfl 0⟩
  obtain ⟨hkeyboard, -, horder, -, -, hpress, -⟩ := keyboard_of_typed hmashed
  have hdown := (hpress broken hbroken 66).1 (by decide)
  obtain ⟨-, -, hup⟩ := (hpress broken hbroken 67).2 (by decide)
  rw [if_neg (by decide)] at hup
  exact ⟨board, hmashed, hkeyboard, horder.trans (by decide), hdown, _, hup⟩

end Bus

end WordMachine
