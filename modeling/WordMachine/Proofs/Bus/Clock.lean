import WordMachine.Proofs.Bus.Line
import WordMachine.Proofs.Device.Clock

/-!
# Proofs/Bus/Clock — a clock that is looked at on a board

A clock on a board is looked at from outside or when the devices of the bus tick, and its registers
are written by whatever uses the board.  While a tick asks for an interrupt the clock is busy, so
that it is the same whether the interrupt is delivered, dropped or fails.

Main statement: `clock_of_wound`.  After any such past the clock is what `Proofs/Device/Clock` says
of it.
-/

namespace WordMachine

namespace Bus

open Clock (Event Tick ofPast ticksOf lastTime latestLook lastWritten? Steady clampRate)

variable {slot : Slot} {board : Board} {rate : Word} {start : Nat} {past : List Event}

/-! ## Looks -/

/-- Let a clock in a slot tick if its period has passed, and say whether it has.  Its interrupts go
to a line. -/
def pollClockOn (line : Line) (now : Nat) (slot : Slot) : Board.Action Bool := do
  match ← ofBus (·.devices[slot]?) with
  | some (.clock c) =>
    match c.tick? now with
    | none => return false
    | some c =>
      modify fun bus => bus.setDevice slot (.clock c)
      deliverOn line slot c.request
      return true
  | _ => return false

/-- **A clock is looked at with the processor as the line.** -/
theorem pollClockOn_interrupt (now : Nat) (slot : Slot) :
    pollClockOn Processor.interrupt now slot = pollClock now slot := by
  rw [pollClock, ← deliverOn_interrupt]
  rfl

theorem pollClockOn_of_none {k : Clock} (h : board.world.devices[slot]? = some (.clock k))
    {now : Nat} (hearly : k.tick? now = none) (line : Line) :
    pollClockOn line now slot board = .ok false board := by
  change (match board.world.devices[slot]? with | some (.clock k) => _ | _ => _ :
    Board.Action Bool) board = _
  simp only [h, hearly]
  rfl

/-- **A clock ticks first, and then the interrupt is asked for.** -/
theorem pollClockOn_of_some {k k' : Clock} (h : board.world.devices[slot]? = some (.clock k))
    {now : Nat} (hdue : k.tick? now = some k') (line : Line) :
    pollClockOn line now slot board =
      (do deliverOn line slot k'.request; return true) (putDevice slot (.clock k') board) := by
  change (match board.world.devices[slot]? with | some (.clock k) => _ | _ => _ :
    Board.Action Bool) board = _
  simp only [h, hdue]
  rfl

/-- **A clock is looked at when the devices tick**, unless it is busy. -/
theorem tickSlot_clock {k : Clock} (h : board.world.devices[slot]? = some (.clock k))
    (hidle : board.world.isBusy slot = false) (now : Nat) :
    tickSlot now slot board = (do let _ ← pollClock now slot) board := by
  rw [tickSlot_of_idle h hidle, ← pollClockOn_interrupt, ← deliverOn_interrupt]
  cases hlook : k.tick? now with
  | none =>
    have hself : putDevice slot (.clock k) board = board := by
      rw [putDevice, setDevice_self h]
    rw [bind_of_ok (pollClockOn_of_none h hlook _)]
    simp only [Device.tick, hlook, hself]
    rfl
  | some k' =>
    simp only [Device.tick, hlook]
    have hpoll := pollClockOn_of_some h hlook Processor.interrupt
    cases hdeliver : deliverOn Processor.interrupt slot k'.request
        (putDevice slot (.clock k') board) with
    | ok _ t =>
      rw [bind_of_ok hdeliver] at hpoll
      rw [bind_of_ok hpoll]
      rfl
    | error e t =>
      rw [bind_of_error hdeliver] at hpoll
      rw [bind_of_error hpoll]

/-! ## The past of a clock -/

/-- A board with a clock in a slot that was made with a rate at a time, and to which this was done
since, the latest first.  Interrupts may have gone to any lines, and anything may have happened to
the board besides. -/
inductive Wound (slot : Slot) (rate : Word) (start : Nat) : List Event → Board → Prop where
  | made {board : Board} (h : board.world.devices[slot]? = some (.clock (.ofRate rate start))) :
    Wound slot rate start [] board
  | look {past : List Event} {board : Board} (h : Wound slot rate start past board) {line : Line}
      (hline : line.Spares slot) (now : Nat) :
      Wound slot rate start (.look now :: past) (stateOf (pollClockOn line now slot board))
  | write {past : List Event} {board : Board} (h : Wound slot rate start past board)
      (hidle : board.world.isBusy slot = false) (register value : Word) :
      Wound slot rate start (.write register value :: past)
        { board with world := (Wire.register slot register).onWrite value board.world }
  | beside {past : List Event} {board board' : Board} (h : Wound slot rate start past board)
      (hsame : board'.world.devices[slot]? = board.world.devices[slot]?) :
      Wound slot rate start past board'

/-- **The clock is what its past makes of it.** -/
theorem Wound.clock_eq (h : Wound slot rate start past board) :
    board.world.devices[slot]? = some (.clock (ofPast rate start past)) := by
  induction h with
  | made h => exact h
  | @look past board h line hline now ih =>
    rw [Clock.ofPast_cons, Clock.after]
    cases htick : (ofPast rate start past).tick? now with
    | none =>
      rw [pollClockOn_of_none ih htick]
      exact ih
    | some k =>
      rw [pollClockOn_of_some ih htick, stateOf_map, getElem?_deliverOn hline]
      exact getElem?_putDevice ih _
  | write h hidle register value ih =>
    rw [onWrite_register ih hidle]
    exact getElem?_putDevice ih _
  | beside h hsame ih => exact hsame.trans ih

/-- **A clock never runs fast**, whatever is done to it and whatever its interrupts come to.  Its rate
is that written last, within bounds.  A look makes it tick once if its period has passed since the
last tick, and then asks for an interrupt, once, if bit 0 of the settings is set and there is a
message; a look that comes earlier does nothing.  So ticks are a period apart, and a clock that has
kept its rate has ticked no more often than there are periods between its making and the latest
look.  Registers 1 and 0 count the ticks. -/
theorem clock_of_wound (h : Wound slot rate start past board) :
    board.world.devices[slot]? = some (.clock (ofPast rate start past)) ∧
      (ofPast rate start past).rate = clampRate ((lastWritten? 2 past).getD rate) ∧
      1 ≤ (ofPast rate start past).rate.toNat ∧ (ofPast rate start past).rate.toNat ≤ 1000 ∧
      (ticksOf rate start past ++ [Tick.mk start (clampRate rate)]).IsChain Tick.Follows ∧
      (∀ r, Steady rate start r past →
        (ticksOf rate start past).length ≤ (latestLook past - start) / (1000000000 / r.toNat)) ∧
      (board.world.isBusy slot = false →
        ∃ low high, ((Wire.register slot 0).onRead board.world).1 = some low ∧
          ((Wire.register slot 1).onRead board.world).1 = some high ∧
          high.toNat * 0x10000 + low.toNat =
            (ticksOf rate start past).length % 0x100000000) ∧
      (∀ line : Line, line.Spares slot → ∀ now,
        Wound slot rate start (.look now :: past) (stateOf (pollClockOn line now slot board)) ∧
          if now < lastTime rate start past + 1000000000 / (ofPast rate start past).rate.toNat then
            ticksOf rate start (.look now :: past) = ticksOf rate start past ∧
              pollClockOn line now slot board = .ok false board
          else
            ticksOf rate start (.look now :: past) =
                ⟨now, (ofPast rate start past).rate⟩ :: ticksOf rate start past ∧
              pollClockOn line now slot board =
                (if (lastWritten? 1 past).getD 0 &&& 1 ≠ 0 ∧ (lastWritten? 0 past).getD 0 ≠ 0 then
                  do
                    let _ ← withBusy slot (line ((lastWritten? 0 past).getD 0))
                    return true
                else pure true)
                  (putDevice slot (.clock (ofPast rate start (.look now :: past))) board)) ∧
      (∀ now, pollClockOn Processor.interrupt now slot = pollClock now slot) ∧
      Line.Spares Processor.interrupt slot ∧
      (board.world.isBusy slot = false →
        ∀ now, tickSlot now slot board = (do let _ ← pollClock now slot) board) := by
  have hclock := h.clock_eq
  obtain ⟨hlow, hhigh⟩ := Clock.rate_bounds rate start past
  refine ⟨hclock, Clock.rate_ofPast past, hlow, hhigh, Clock.isChain_ticksOf past,
    fun r => Clock.length_ticksOf_le, fun hidle => ?registers, fun line hline now =>
    ⟨h.look hline now, ?look⟩, fun now => pollClockOn_interrupt now slot, spares_interrupt slot,
    fun hidle => tickSlot_clock hclock hidle⟩
  case registers =>
    rw [onRead_register hclock hidle, onRead_register hclock hidle]
    exact ⟨_, _, rfl, rfl, Clock.read_ticks past⟩
  case look =>
    have hpos := Clock.period_pos rate start past
    have hperiod : (ofPast rate start past).period =
        1000000000 / (ofPast rate start past).rate.toNat := rfl
    rw [← hperiod]
    have hlast := Clock.lastTick_ofPast rate start past
    split
    · next hearly =>
      have hlt : now - lastTime rate start past < (ofPast rate start past).period := by omega
      refine ⟨Clock.ticksOf_look_of_lt hlt, pollClockOn_of_none hclock ?_ line⟩
      exact Clock.tick?_of_lt (hlast ▸ hlt)
    · next hdue =>
      have hle : (ofPast rate start past).period ≤ now - lastTime rate start past := by omega
      refine ⟨Clock.ticksOf_look_of_le hle, ?_⟩
      rw [pollClockOn_of_some hclock (Clock.tick?_of_le (hlast ▸ hle)) line,
        Clock.ofPast_look_of_le hle]
      change (do deliverOn line slot (ofPast rate start past).request; return true) _ = _
      rw [Clock.request_ofPast]
      split
      · rw [deliverOn, bind_assoc]
        simp only [pure_bind]
      · rfl

/-- A board with a new clock, whose rate is beyond the bounds. -/
def hurried : Board := .ofMemory (.ofCapacity 0) (({} : Bus).register (.clock (.ofRate 3000 5)))

/-- It ticks after a millisecond, is looked at in the past, is slowed down, and ticks again. -/
def slowed : List Event :=
  [.look 501000005, .look 501000004, .write 2 2, .look 0, .look 1000005, .write 1 1, .write 0 7]

theorem clock_of_wound_slowed :
    ∃ board, Wound 0 3000 5 slowed board ∧
      ticksOf 3000 5 slowed = [⟨501000005, 2⟩, ⟨1000005, 1000⟩] ∧
      (ticksOf 3000 5 slowed ++ [Tick.mk 5 1000]).IsChain Tick.Follows ∧
      ((Wire.register 0 0).onRead board.world).1 = some 2 ∧
      pollClockOn broken 501000006 0 board = .ok false board ∧
      (ticksOf 3000 5 (slowed.drop 4)).length ≤ (1000005 - 5) / (1000000000 / 1000) ∧
      ∃ board', pollClockOn broken 1001000005 0 board = .error (.memory (.outOfRange 0 0)) board' ∧
        Wound 0 3000 5 (.look 1001000005 :: slowed) board' := by
  have hbroken : broken.Spares 0 := fun _ _ _ => rfl
  have hmade : Wound 0 3000 5 [] hurried := .made rfl
  have hset := (hmade.write rfl 0 7).write rfl 1 1
  have hticked := hset.look hbroken 1000005
  obtain ⟨board, hboard, hidle⟩ : ∃ board, Wound 0 3000 5 slowed board ∧
      board.world.isBusy 0 = false :=
    ⟨_, (((hticked.look hbroken 0).write rfl 2 2).look hbroken 501000004).look hbroken 501000005, rfl⟩
  obtain ⟨-, -, -, -, hchain, -, hregisters, hlook, -⟩ := clock_of_wound hboard
  obtain ⟨-, -, -, -, -, hcount, -⟩ := clock_of_wound hticked
  have hticks : ticksOf 3000 5 slowed = [⟨501000005, 2⟩, ⟨1000005, 1000⟩] := by decide
  obtain ⟨low, high, hlow, -, hread⟩ := hregisters hidle
  have htwo : low = 2 := by
    have hmod : high.toNat * 0x10000 + low.toNat = 2 := by rw [hread, hticks]; rfl
    have hlt := high.toNat_lt
    exact UInt16.toNat.inj (show low.toNat = 2 by omega)
  have hearly := (hlook broken hbroken 501000006).2
  rw [if_pos (by decide)] at hearly
  obtain ⟨hwound, hdue⟩ := hlook broken hbroken 1001000005
  rw [if_neg (by decide), if_pos (by decide)] at hdue
  refine ⟨board, hboard, hticks, hchain, htwo ▸ hlow, hearly.2, hcount 1000 (by decide), _, hdue.2,
    ?_⟩
  rw [hdue.2] at hwound
  exact hwound

end Bus

end WordMachine
