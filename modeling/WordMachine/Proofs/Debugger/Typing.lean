import WordMachine.Proofs.Bus.Keyboard
import WordMachine.Proofs.Computer.Traffic
import WordMachine.Proofs.Debugger.Breakpoint

/-!
# Proofs/Debugger/Typing — keys that stay down

A key sent by the debugger is pressed, and let go again if the press does not fail.  The press puts it
into the queue of the keyboard in any case (`Bus.getElem?_pressKey`), and fails just if it asks for an
interrupt and the processor is jammed (`Bus.failed_pressKey_iff`).  So a key stays down just if it
jams, and then the next press of it is lost: `sendKey_keyboard`.

Where every address has a cell no key jams, and a text that is typed is in the queue:
`sendKeys_of_full`.
-/

namespace WordMachine

namespace Debugger

open Computer (keyboardSlot)

variable {d : Debugger} {code other : Word}

/-- The computer has a keyboard in its place, as all that can be reached have. -/
def HasKeyboard (d : Debugger) : Prop :=
  d.computer.board.world.devices[keyboardSlot]? = some (.keyboard d.computer.keyboard)

/-- The press of the key would fail: it would be accepted and interrupt, and the interrupt finds no
room. -/
def Jams (d : Debugger) (code : Word) : Prop :=
  d.computer.keyboard.isHeld code = false ∧ d.computer.keyboard.message ≠ 0 ∧
    d.computer.board.Jammed

instance (d : Debugger) (code : Word) : Decidable (d.Jams code) :=
  inferInstanceAs (Decidable (_ ∧ _))

/-- **A key that jams stays down, and any other is let go.** -/
theorem devices_sendKey (h : d.HasKeyboard) (code : Word) :
    (d.sendKey code).computer.board.world.devices[keyboardSlot]? = some (.keyboard
      (if d.Jams code then d.computer.keyboard.after (.press code)
        else (d.computer.keyboard.after (.press code)).release code)) := by
  have hpressed := Bus.getElem?_pressKey h code
  have hjams : Failed (Bus.pressKey keyboardSlot code d.computer.board) ↔ d.Jams code :=
    Bus.failed_pressKey_iff h code
  rw [sendKey, onComputer_eq, Computer.keyDown, Computer.onBoard_eq]
  generalize Bus.pressKey keyboardSlot code d.computer.board = x at hpressed hjams ⊢
  cases x with
  | ok a board =>
    rw [if_neg (hjams.not.mp id)]
    exact Bus.getElem?_releaseKey hpressed code
  | error e board =>
    rw [if_pos (hjams.mp trivial)]
    exact hpressed

theorem keyboard_sendKey (h : d.HasKeyboard) (code : Word) :
    (d.sendKey code).HasKeyboard ∧ (d.sendKey code).computer.keyboard =
      if d.Jams code then d.computer.keyboard.after (.press code)
        else (d.computer.keyboard.after (.press code)).release code := by
  have hkeyboard := Computer.keyboard_eq (devices_sendKey h code)
  refine ⟨?_, hkeyboard⟩
  rw [HasKeyboard, hkeyboard]
  exact devices_sendKey h code

theorem queue_sendKey (h : d.HasKeyboard) (code : Word) :
    (d.sendKey code).computer.keyboard.queue =
      if d.computer.keyboard.isHeld code then d.computer.keyboard.queue
      else d.computer.keyboard.queue ++ [code] := by
  rw [(keyboard_sendKey h code).2, ← Keyboard.queue_press]
  split <;> rfl

theorem queue_sendKey_of_up (h : d.HasKeyboard) (hup : d.computer.keyboard.isHeld code = false) :
    (d.sendKey code).computer.keyboard.queue = d.computer.keyboard.queue ++ [code] := by
  rw [queue_sendKey h, if_neg (by simp [hup])]

theorem isHeld_sendKey (h : d.HasKeyboard) (code other : Word) :
    (d.sendKey code).computer.keyboard.isHeld other = true ↔
      other = code ∧ d.Jams code ∨ other ≠ code ∧ d.computer.keyboard.isHeld other = true := by
  rw [(keyboard_sendKey h code).2]
  by_cases hjams : d.Jams code
  · rw [if_pos hjams, Keyboard.isHeld_press]
    by_cases hother : other = code <;> simp [hother, hjams]
  · rw [if_neg hjams, Keyboard.isHeld_release, Keyboard.isHeld_press]
    by_cases hother : other = code <;> simp [hother, hjams]

theorem not_jams_of_full (h : d.computer.board.Full) (code : Word) : ¬ d.Jams code :=
  fun hjams => Processor.not_jammed_of_full h hjams.2.2

/-- **A key sent is in the queue once more if it was up, and is let go unless it jams.**  Then it
stays down, and the same key is not taken when it is sent again; in any other case both are.  With all
cells there no key jams. -/
theorem sendKey_keyboard (h : d.HasKeyboard) (code : Word) :
    (d.sendKey code).HasKeyboard ∧
    (d.sendKey code).computer.keyboard.queue =
      (if d.computer.keyboard.isHeld code then d.computer.keyboard.queue
        else d.computer.keyboard.queue ++ [code]) ∧
    (∀ other, (d.sendKey code).computer.keyboard.isHeld other = true ↔
      other = code ∧ d.Jams code ∨ other ≠ code ∧ d.computer.keyboard.isHeld other = true) ∧
    (d.computer.keyboard.isHeld code = false →
      ((d.sendKey code).sendKey code).computer.keyboard.queue =
        d.computer.keyboard.queue ++ if d.Jams code then [code] else [code, code]) ∧
    (d.computer.mem.capacity = Word.count → ¬ d.Jams code) := by
  have hkeeps := (keyboard_sendKey h code).1
  refine ⟨hkeeps, queue_sendKey h code, isHeld_sendKey h code, fun hup => ?twice,
    fun hfull => not_jams_of_full hfull code⟩
  case twice =>
    have hheld : (d.sendKey code).computer.keyboard.isHeld code = true ↔ d.Jams code := by
      simp [isHeld_sendKey h]
    rw [queue_sendKey hkeeps, queue_sendKey_of_up h hup]
    by_cases hjams : d.Jams code
    · rw [if_pos (hheld.mpr hjams), if_pos hjams]
    · rw [if_neg (hheld.not.mpr hjams), if_neg hjams, List.append_assoc]
      rfl

/-- The small computer, whose keys interrupt and whose stack is far behind its last cell. -/
def cramped : Debugger where
  computer :=
    let told := (Computer.Operation.write 24 7).after Computer.small
    (Computer.Operation.setRegisters { told.regs with ia := 1 }).after told
  program := []

/-- The first press fails, and the second is not one. -/
theorem sendKey_keyboard_cramped :
    (cramped.sendKey 65).computer.keyboard.isHeld 65 = true ∧
      ((cramped.sendKey 65).sendKey 65).computer.keyboard.queue = [65] := by
  have hreachable : cramped.computer.Reachable :=
    .after (.setRegisters _) (.after (.write 24 7) Computer.reachable_small)
  have hkeyboard : cramped.HasKeyboard :=
    (Computer.furnished_of_reachable hreachable).exists_keyboard
  have hjams : cramped.Jams 65 := by decide +kernel
  have hqueue : cramped.computer.keyboard.queue = [] := by decide +kernel
  obtain ⟨-, -, hheld, htwice, -⟩ := sendKey_keyboard hkeyboard 65
  refine ⟨(hheld 65).mpr (.inl ⟨rfl, hjams⟩), (htwice hjams.1).trans ?_⟩
  rw [hqueue, if_pos hjams]
  rfl

/-! ## Texts -/

theorem full_sendKey (h : d.computer.Full) (code : Word) : (d.sendKey code).computer.Full := by
  have hpressed := h.of_sameWiring
    (h.toWired.sameWiring_act (Bus.uniform_pressKey keyboardSlot code))
  rw [sendKey, onComputer_eq, Computer.keyDown, Computer.onBoard_eq]
  generalize Bus.pressKey keyboardSlot code d.computer.board = x at hpressed ⊢
  cases x with
  | ok a board => exact hpressed.keyUp code
  | error e board => exact hpressed

/-- **A text that is typed is in the queue, and no key stays down**, if every address has a cell and
no key was down before. -/
theorem sendKeys_of_full (h : d.computer.Full)
    (hup : ∀ code, d.computer.keyboard.isHeld code = false) (codes : List Word) :
    (d.sendKeys codes).computer.keyboard.queue = d.computer.keyboard.queue ++ codes ∧
      ∀ code, (d.sendKeys codes).computer.keyboard.isHeld code = false := by
  induction codes generalizing d with
  | nil => exact ⟨(List.append_nil _).symm, hup⟩
  | cons code codes ih =>
    have hkeyboard : d.HasKeyboard := h.exists_keyboard
    have hlet : ∀ other, (d.sendKey code).computer.keyboard.isHeld other = false := by
      intro other
      rw [← Bool.not_eq_true, isHeld_sendKey hkeyboard]
      simp [not_jams_of_full h.full, hup]
    obtain ⟨hrest, hall⟩ := ih (full_sendKey h code) hlet
    refine ⟨hrest.trans ?_, hall⟩
    rw [queue_sendKey_of_up hkeyboard (hup code), List.append_assoc, List.singleton_append]

end Debugger

end WordMachine
