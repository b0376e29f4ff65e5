import WordMachine.Device.Keyboard

/-!
# Proofs/Device/Keyboard — the queue of a keyboard and its past

The past of a keyboard is what was done to it, the latest first.  It decides which keys are down
(`Down`) and which presses were accepted (`accepted`).  The keyboard in turn decides which keys its
reads have `taken` since the queue was emptied last, and how many were `removed` from the queue.

Main statement: `taken_append_queue`.  What was taken and what still waits are together the accepted
keys in their order, without those that were gone when the queue was emptied last.
-/

namespace WordMachine

namespace Keyboard

/-- What is done to a keyboard. -/
inductive Event where
  | press (code : Word)
  | release (code : Word)
  | read (register : Word)
  | write (register value : Word)
  deriving DecidableEq, Repr

/-- The keyboard after an event.  A press that is not accepted changes nothing. -/
def after (k : Keyboard) : Event → Keyboard
  | .press code => (k.press? code).getD k
  | .release code => k.release code
  | .read register => (k.read register).2
  | .write register value => k.write register value

/-- A new keyboard after all that was done to it, the latest first. -/
def ofPast (past : List Event) : Keyboard := past.foldr (fun e k => k.after e) {}

/-- The latest press or release of a key was a press. -/
def Down (past : List Event) (code : Word) : Prop :=
  past.find? (fun e => e == .press code || e == .release code) = some (.press code)

instance (past : List Event) (code : Word) : Decidable (Down past code) :=
  inferInstanceAs (Decidable (_ = _))

/-- The keys that went down when they were up, in the order of their presses. -/
def accepted : List Event → List Word
  | [] => []
  | .press code :: past => if Down past code then accepted past else accepted past ++ [code]
  | _ :: past => accepted past

/-- The message that was set last, 0 before that. -/
def messageSet : List Event → Word
  | [] => 0
  | .write register value :: past => if register = 0 then value else messageSet past
  | _ :: past => messageSet past

/-- Whether an event empties the queue. -/
def Event.empties : Event → Bool
  | .write register _ => register == 1
  | _ => false

/-- The past when the queue was emptied last, with the write that did so. -/
def untilEmptied (past : List Event) : List Event := past.dropWhile fun e => !e.empties

/-- The keys that were read from a queue with keys since it was emptied last, in order. -/
def taken : List Event → List Word
  | [] => []
  | .read register :: past =>
    if register = 0 ∧ (ofPast past).queue ≠ [] then taken past ++ [((ofPast past).read register).1]
    else taken past
  | .write register _ :: past => if register = 1 then [] else taken past
  | _ :: past => taken past

/-- How many keys were read from the queue, or were in it when it was emptied. -/
def removed : List Event → Nat
  | [] => 0
  | .read register :: past =>
    if register = 0 ∧ (ofPast past).queue ≠ [] then removed past + 1 else removed past
  | .write register _ :: past =>
    if register = 1 then removed past + (ofPast past).pending else removed past
  | _ :: past => removed past

variable {past : List Event} {e : Event} {k : Keyboard} {code other register value : Word}

theorem ofPast_cons (e : Event) (past : List Event) : ofPast (e :: past) = (ofPast past).after e :=
  rfl

/-- The keyboard after a key that was up has gone down. -/
def pressed (k : Keyboard) (code : Word) : Keyboard :=
  { k with queue := k.queue ++ [code], lastKey := code, held := code :: k.held }

theorem isHeld_pressed (k : Keyboard) (code other : Word) :
    (k.pressed code).isHeld other = (other == code || k.isHeld other) := rfl

theorem request_pressed (k : Keyboard) (code : Word) :
    (k.pressed code).request = if k.message = 0 then none else some k.message :=
  ite_not _ _ _

theorem after_press (k : Keyboard) (code : Word) :
    k.after (.press code) = if k.isHeld code then k else k.pressed code := by
  rw [after, press?]
  split <;> rfl

/-- A key that was pressed is in the queue once more if it was up before… -/
theorem queue_press (k : Keyboard) (code : Word) : (k.after (.press code)).queue =
    if k.isHeld code then k.queue else k.queue ++ [code] := by
  rw [after_press]
  split <;> rfl

/-- …and is down in any case. -/
theorem isHeld_press (k : Keyboard) (code other : Word) :
    (k.after (.press code)).isHeld other = (other == code || k.isHeld other) := by
  rw [after_press]
  split
  · next hheld => by_cases h : other = code <;> simp [h, hheld]
  · rfl

theorem read_zero (k : Keyboard) : (k.read 0).1 = k.queue.headD 0 := by
  rw [read, if_pos rfl]
  cases k.queue <;> rfl

theorem read_one (k : Keyboard) : (k.read 1).1 = k.lastKey := rfl

theorem read_two (k : Keyboard) : (k.read 2).1 = if k.isHeld k.lastKey then 1 else 0 := rfl

/-! ## Keys that are down -/

theorem down_press : Down (.press other :: past) code ↔ other = code ∨ Down past code := by
  by_cases h : other = code <;> simp [Down, h]

theorem down_release : Down (.release other :: past) code ↔ other ≠ code ∧ Down past code := by
  by_cases h : other = code <;> simp [Down, h]

/-- Reads and writes let no key go down or up. -/
theorem down_access (h : ∀ other, e ≠ .press other ∧ e ≠ .release other) :
    Down (e :: past) code ↔ Down past code := by
  rw [Down, List.find?_cons_of_neg (by simp [h]), Down]

theorem held_read (k : Keyboard) (register : Word) : (k.read register).2.held = k.held := by
  unfold read
  repeat' split
  all_goals rfl

theorem held_write (k : Keyboard) (register value : Word) :
    (k.write register value).held = k.held := by
  unfold write
  repeat' split
  all_goals rfl

/-- **A key is held just if its latest press or release was a press.** -/
theorem isHeld_ofPast (past : List Event) (code : Word) :
    (ofPast past).isHeld code = true ↔ Down past code := by
  induction past with
  | nil => simp [ofPast, isHeld, Down]
  | cons e past ih =>
    rw [ofPast_cons]
    cases e with
    | press other =>
      rw [down_press, ← ih, after_press]
      split
      · next hheld => exact ⟨.inr, fun h => h.elim (· ▸ hheld) id⟩
      · rw [isHeld_pressed, Bool.or_eq_true, beq_iff_eq, eq_comm]
    | release other =>
      rw [down_release, ← ih, after, isHeld_release, Bool.and_eq_true, bne_iff_ne, ne_comm]
    | read register =>
      rw [down_access (by simp), ← ih, isHeld, after, held_read, isHeld]
    | write register value =>
      rw [down_access (by simp), ← ih, isHeld, after, held_write, isHeld]

theorem ofPast_press_of_up (h : ¬ Down past code) :
    ofPast (.press code :: past) = (ofPast past).pressed code := by
  rw [ofPast_cons, after_press, if_neg (by rwa [isHeld_ofPast])]

/-! ## Last key and message -/

theorem lastKey_read (k : Keyboard) (register : Word) :
    (k.read register).2.lastKey = k.lastKey := by
  unfold read
  repeat' split
  all_goals rfl

theorem lastKey_write (k : Keyboard) (register value : Word) :
    (k.write register value).lastKey = k.lastKey := by
  unfold write
  repeat' split
  all_goals rfl

/-- The key pressed last is the last that was accepted. -/
theorem lastKey_ofPast (past : List Event) : (ofPast past).lastKey = (accepted past).getLastD 0 := by
  induction past with
  | nil => rfl
  | cons e past ih =>
    rw [ofPast_cons]
    cases e with
    | press code =>
      rw [after_press, accepted]
      simp only [isHeld_ofPast]
      split
      · exact ih
      · simp [pressed]
    | release code => exact ih
    | read register => exact (lastKey_read _ _).trans ih
    | write register value => exact (lastKey_write _ _ _).trans ih

theorem message_read (k : Keyboard) (register : Word) :
    (k.read register).2.message = k.message := by
  unfold read
  repeat' split
  all_goals rfl

theorem message_ofPast (past : List Event) : (ofPast past).message = messageSet past := by
  induction past with
  | nil => rfl
  | cons e past ih =>
    rw [ofPast_cons]
    cases e with
    | press code =>
      rw [after_press]
      split
      · exact ih
      · exact ih
    | release code => exact ih
    | read register => exact (message_read _ _).trans ih
    | write register value =>
      rw [after, write, messageSet]
      split
      · rfl
      · split
        · exact ih
        · exact ih

/-! ## The queue -/

theorem queue_read_of_not (h : ¬ (register = 0 ∧ k.queue ≠ [])) :
    (k.read register).2.queue = k.queue := by
  unfold read
  split
  · next hzero =>
    obtain hnil : k.queue = [] := Classical.not_not.mp fun hne => h ⟨hzero, hne⟩
    simp only [hnil]
  · repeat' split
    all_goals rfl

theorem queue_write_of_ne (h : register ≠ 1) : (k.write register value).queue = k.queue := by
  unfold write
  rw [if_neg h]
  split <;> rfl

/-- The accepted keys are those that were gone when the queue was emptied last, those that were
taken since, and those that wait. -/
structure Account (past : List Event) (gone : List Word) : Prop where
  accepted_eq : accepted past = gone ++ (taken past ++ (ofPast past).queue)
  length_gone : gone.length = removed (untilEmptied past)
  removed_eq : removed past = gone.length + (taken past).length

namespace Account

variable {gone : List Word}

/-- An event that neither accepts a key nor removes one leaves the account as it is. -/
theorem keep (h : Account past gone) (haccepted : accepted (e :: past) = accepted past)
    (htaken : taken (e :: past) = taken past) (hremoved : removed (e :: past) = removed past)
    (huntil : untilEmptied (e :: past) = untilEmptied past)
    (hqueue : (ofPast (e :: past)).queue = (ofPast past).queue) : Account (e :: past) gone where
  accepted_eq := by
    rw [haccepted, htaken, hqueue]
    exact h.accepted_eq
  length_gone := by
    rw [huntil]
    exact h.length_gone
  removed_eq := by
    rw [hremoved, htaken]
    exact h.removed_eq

theorem press (h : Account past gone) (code : Word) : Account (.press code :: past) gone where
  accepted_eq := by
    simp only [ofPast_cons, after_press, accepted, taken, isHeld_ofPast]
    split
    · exact h.accepted_eq
    · rw [h.accepted_eq]
      simp [pressed]
  length_gone := h.length_gone
  removed_eq := h.removed_eq

/-- A read of register 0 moves the key that has waited longest to those taken. -/
theorem take (h : Account past gone) (hqueue : (ofPast past).queue ≠ []) :
    Account (.read 0 :: past) gone := by
  obtain ⟨code, rest, hcons⟩ := List.exists_cons_of_ne_nil hqueue
  have hread : (ofPast past).read 0 = (code, { ofPast past with queue := rest }) := by
    simp only [read, hcons, if_true]
  have htaken : taken (.read 0 :: past) = taken past ++ [code] := by
    rw [taken, if_pos ⟨rfl, hqueue⟩, hread]
  have hremoved : removed (.read 0 :: past) = removed past + 1 := by
    rw [removed, if_pos ⟨rfl, hqueue⟩]
  refine ⟨?_, h.length_gone, ?_⟩
  · rw [ofPast_cons, after, hread, htaken]
    exact h.accepted_eq.trans (by simp [hcons])
  · rw [hremoved, htaken, h.removed_eq, List.length_append, List.length_singleton, Nat.add_assoc]

/-- When the queue is emptied, whatever was accepted is gone: removed before, taken since, or
waiting. -/
theorem empty (h : Account past gone) (value : Word) :
    Account (.write 1 value :: past) (accepted past) := by
  have hremoved : removed (.write 1 value :: past) = removed past + (ofPast past).pending := by
    rw [removed, if_pos rfl]
  have hcount : removed past + (ofPast past).pending = (accepted past).length := by
    rw [h.accepted_eq, h.removed_eq, pending, List.length_append, List.length_append,
      Nat.add_assoc]
  refine ⟨?_, ?_, ?_⟩
  · rw [ofPast_cons, taken, if_pos rfl]
    exact (List.append_nil _).symm
  · rw [untilEmptied, List.dropWhile_cons_of_neg (by simp [Event.empties]), hremoved, hcount]
  · rw [hremoved, taken, if_pos rfl, hcount]
    rfl

/-- **Every event keeps account of the accepted keys.** -/
theorem cons (h : Account past gone) (e : Event) : ∃ gone', Account (e :: past) gone' := by
  cases e with
  | press code => exact ⟨gone, h.press code⟩
  | release code => exact ⟨gone, h.keep rfl rfl rfl rfl rfl⟩
  | read register =>
    by_cases htakes : register = 0 ∧ (ofPast past).queue ≠ []
    · obtain ⟨rfl, hqueue⟩ := htakes
      exact ⟨gone, h.take hqueue⟩
    · exact ⟨gone, h.keep rfl (if_neg htakes) (if_neg htakes) rfl (queue_read_of_not htakes)⟩
  | write register value =>
    by_cases hempties : register = 1
    · subst hempties
      exact ⟨accepted past, h.empty value⟩
    · have huntil : untilEmptied (.write register value :: past) = untilEmptied past :=
        List.dropWhile_cons_of_pos (by simpa [Event.empties] using hempties)
      exact ⟨gone, h.keep rfl (if_neg hempties) (if_neg hempties) huntil
        (queue_write_of_ne hempties)⟩

end Account

theorem exists_account (past : List Event) : ∃ gone, Account past gone := by
  induction past with
  | nil => exact ⟨[], rfl, rfl, rfl⟩
  | cons e past ih =>
    obtain ⟨gone, h⟩ := ih
    exact h.cons e

/-- **No key is lost, duplicated or reordered.**  The keys taken since the queue was emptied last and
those that wait are the accepted keys in their order, without those removed until then. -/
theorem taken_append_queue (past : List Event) :
    taken past ++ (ofPast past).queue = (accepted past).drop (removed (untilEmptied past)) := by
  obtain ⟨gone, h⟩ := exists_account past
  rw [h.accepted_eq, ← h.length_gone, List.drop_left]

end Keyboard

end WordMachine
