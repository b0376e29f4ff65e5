import Mathlib.Data.List.Chain
import Mathlib.Data.List.Infix
import WordMachine.Device.Clock

/-!
# Proofs/Device/Clock — the ticks of a clock and its past

The past of a clock is what was done to it since it was made, the latest first: registers were
written, and it was looked at, at times that need not be in order.  The looks that it ticked at are
its ticks, each with the rate the clock had then (`ticksOf`).

Main statements: `isChain_ticksOf`, by which no tick comes before a period has passed since the one
before it, and `length_ticksOf_le`, by which a clock that keeps its rate has no more ticks than
periods.
-/

namespace WordMachine

namespace Clock

/-- What is done to a clock. -/
inductive Event where
  | write (register value : Word)
  /-- A look at the clock, which may tick then. -/
  | look (now : Nat)
  deriving DecidableEq, Repr

/-- The clock after an event.  A look that comes too early changes nothing. -/
def after (k : Clock) : Event → Clock
  | .write register value => k.write register value
  | .look now => (k.tick? now).getD k

/-- A clock made with a rate at a time, after all that was done to it, the latest first. -/
def ofPast (rate : Word) (start : Nat) (past : List Event) : Clock :=
  past.foldr (fun e k => k.after e) (.ofRate rate start)

/-- When a clock ticked, and the rate it had. -/
structure Tick where
  time : Nat
  rate : Word
  deriving DecidableEq, Repr

/-- A tick comes a period after another, or later.  The period is that of its own rate. -/
def Tick.Follows (t earlier : Tick) : Prop := earlier.time + 1000000000 / t.rate.toNat ≤ t.time

/-- The ticks of a clock, the latest first. -/
def ticksOf (rate : Word) (start : Nat) : List Event → List Tick
  | [] => []
  | .write .. :: past => ticksOf rate start past
  | .look now :: past =>
    match (ofPast rate start past).tick? now with
    | none => ticksOf rate start past
    | some _ => ⟨now, (ofPast rate start past).rate⟩ :: ticksOf rate start past

/-- The time of the last tick, or of the making of a clock that has not ticked. -/
def lastTime (rate : Word) (start : Nat) (past : List Event) : Nat :=
  ((ticksOf rate start past).head?.map Tick.time).getD start

/-- The latest time of a look, 0 if there was none. -/
def latestLook : List Event → Nat
  | [] => 0
  | .write .. :: past => latestLook past
  | .look now :: past => max now (latestLook past)

/-- The word that an event writes to a register. -/
def Event.word? (register : Word) : Event → Option Word
  | .write place value => if place = register then some value else none
  | .look _ => none

/-- The word that was written to a register last. -/
def lastWritten? (register : Word) (past : List Event) : Option Word :=
  past.findSome? (Event.word? register)

/-- The clock has had one rate ever since it was made. -/
def Steady (rate : Word) (start : Nat) (r : Word) (past : List Event) : Prop :=
  ∀ earlier, earlier <:+ past → (ofPast rate start earlier).rate = r

instance (rate : Word) (start : Nat) (r : Word) (past : List Event) :
    Decidable (Steady rate start r past) :=
  decidable_of_iff (∀ earlier ∈ past.tails, (ofPast rate start earlier).rate = r) <| by
    simp only [List.mem_tails, Steady]

variable {rate r : Word} {start now : Nat} {past : List Event} {k : Clock}

theorem ofPast_cons (e : Event) (past : List Event) :
    ofPast rate start (e :: past) = (ofPast rate start past).after e := rfl

theorem lastWritten?_write (register place value : Word) (past : List Event) :
    lastWritten? register (.write place value :: past) =
      if place = register then some value else lastWritten? register past := by
  by_cases h : place = register
  · simp [lastWritten?, Event.word?, h]
  · simp [lastWritten?, Event.word?, h]

/-! ## Rates and periods -/

theorem toNat_clampRate (r : Word) : (clampRate r).toNat = max 1 (min r.toNat 1000) := by
  rw [clampRate, UInt16.toNat_max, UInt16.toNat_min]
  rfl

/-- The clock has ticked at a time. -/
def ticked (k : Clock) (now : Nat) : Clock := { k with ticks := k.ticks + 1, lastTick := now }

theorem tick?_of_lt (h : now - k.lastTick < k.period) : k.tick? now = none := if_pos h

theorem tick?_of_le (h : k.period ≤ now - k.lastTick) : k.tick? now = some (k.ticked now) :=
  if_neg (Nat.not_lt.mpr h)

/-- **The clock is what its past makes of it.** -/
theorem ofPast_eq (past : List Event) :
    ofPast rate start past =
      { message := (lastWritten? 0 past).getD 0
        settings := (lastWritten? 1 past).getD 0
        rate := clampRate ((lastWritten? 2 past).getD rate)
        ticks := UInt32.ofNat (ticksOf rate start past).length
        lastTick := lastTime rate start past } := by
  induction past with
  | nil => rfl
  | cons e past ih =>
    rw [ofPast_cons]
    cases e with
    | write register value =>
      simp only [after, write, lastWritten?_write, ih, lastTime, ticksOf]
      by_cases h0 : register = 0
      · simp [h0]
      · by_cases h1 : register = 1
        · simp [h1]
        · by_cases h2 : register = 2
          · simp [h2]
          · simp [h0, h1, h2]
    | look now =>
      have hwritten : ∀ register, lastWritten? register (.look now :: past) =
          lastWritten? register past := fun _ => rfl
      simp only [after, lastTime, ticksOf, hwritten]
      rcases Nat.lt_or_ge (now - (ofPast rate start past).lastTick) (ofPast rate start past).period
        with hearly | hdue
      · rw [tick?_of_lt hearly]
        exact ih
      · rw [tick?_of_le hdue, Option.getD_some, ticked, ih]
        simp only [List.length_cons, UInt32.ofNat_add]
        rfl

theorem rate_ofPast (past : List Event) :
    (ofPast rate start past).rate = clampRate ((lastWritten? 2 past).getD rate) := by
  rw [ofPast_eq]

theorem lastTick_ofPast (rate : Word) (start : Nat) (past : List Event) :
    (ofPast rate start past).lastTick = lastTime rate start past := by
  rw [ofPast_eq]

/-- **The rate is within bounds**, so that there is a period… -/
theorem rate_bounds (rate : Word) (start : Nat) (past : List Event) :
    1 ≤ (ofPast rate start past).rate.toNat ∧ (ofPast rate start past).rate.toNat ≤ 1000 := by
  rw [rate_ofPast, toNat_clampRate]
  omega

/-- …and the period is a millisecond at least. -/
theorem period_pos (rate : Word) (start : Nat) (past : List Event) :
    0 < (ofPast rate start past).period := by
  obtain ⟨hlow, hhigh⟩ := rate_bounds rate start past
  exact Nat.div_pos (by omega) (by omega)

/-! ## Ticks -/

/-- The clock does not tick before its period has passed since the last tick… -/
theorem ticksOf_look_of_lt
    (h : now - lastTime rate start past < (ofPast rate start past).period) :
    ticksOf rate start (.look now :: past) = ticksOf rate start past := by
  rw [← lastTick_ofPast] at h
  simp only [ticksOf, tick?_of_lt h]

/-- …and ticks once when it has. -/
theorem ticksOf_look_of_le
    (h : (ofPast rate start past).period ≤ now - lastTime rate start past) :
    ticksOf rate start (.look now :: past) =
      ⟨now, (ofPast rate start past).rate⟩ :: ticksOf rate start past := by
  rw [← lastTick_ofPast] at h
  simp only [ticksOf, tick?_of_le h]

theorem time_of_mem_head? {t : Tick}
    (h : t ∈ (ticksOf rate start past ++ [Tick.mk start (clampRate rate)]).head?) :
    t.time = lastTime rate start past := by
  unfold lastTime
  cases hticks : ticksOf rate start past with
  | nil =>
    rw [hticks] at h
    cases h
    rfl
  | cons head rest =>
    rw [hticks] at h
    cases h
    rfl

theorem ofPast_look_of_le
    (h : (ofPast rate start past).period ≤ now - lastTime rate start past) :
    ofPast rate start (.look now :: past) = (ofPast rate start past).ticked now := by
  rw [← lastTick_ofPast] at h
  rw [ofPast_cons, after, tick?_of_le h, Option.getD_some]

/-- **No tick comes before a period has passed** since the one before it, or since the making of the
clock. -/
theorem isChain_ticksOf (past : List Event) :
    (ticksOf rate start past ++ [Tick.mk start (clampRate rate)]).IsChain Tick.Follows := by
  induction past with
  | nil => exact List.isChain_singleton _
  | cons e past ih =>
    cases e with
    | write register value => exact ih
    | look now =>
      rcases Nat.lt_or_ge (now - lastTime rate start past) (ofPast rate start past).period
        with hearly | hdue
      · rw [ticksOf_look_of_lt hearly]
        exact ih
      · rw [ticksOf_look_of_le hdue, List.cons_append, List.isChain_cons]
        refine ⟨fun t ht => ?_, ih⟩
        have hpos := period_pos rate start past
        rw [Tick.Follows, time_of_mem_head? ht]
        change _ + (ofPast rate start past).period ≤ now
        omega

theorem lastTime_look_of_le
    (h : (ofPast rate start past).period ≤ now - lastTime rate start past) :
    lastTime rate start (.look now :: past) = now := by
  rw [lastTime, ticksOf_look_of_le h]
  rfl

theorem lastTime_look_of_lt
    (h : now - lastTime rate start past < (ofPast rate start past).period) :
    lastTime rate start (.look now :: past) = lastTime rate start past := by
  rw [lastTime, ticksOf_look_of_lt h, lastTime]

/-- A clock ticks at looks only. -/
theorem lastTime_le (rate : Word) (start : Nat) (past : List Event) :
    lastTime rate start past ≤ max start (latestLook past) := by
  induction past with
  | nil => exact Nat.le_max_left _ _
  | cons e past ih =>
    cases e with
    | write register value => exact ih
    | look now =>
      rcases Nat.lt_or_ge (now - lastTime rate start past) (ofPast rate start past).period
        with hearly | hdue
      · rw [lastTime_look_of_lt hearly, latestLook]
        omega
      · rw [lastTime_look_of_le hdue, latestLook]
        omega

theorem Steady.of_cons {e : Event} (h : Steady rate start r (e :: past)) :
    Steady rate start r past :=
  fun earlier hsuffix => h earlier (hsuffix.trans (List.suffix_cons e past))

theorem Steady.period_eq (h : Steady rate start r past) :
    (ofPast rate start past).period = 1000000000 / r.toNat := by
  rw [period, h past (List.suffix_refl past)]

/-- **Every tick takes a period** of a clock that keeps its rate. -/
theorem add_length_ticksOf_le (h : Steady rate start r past) :
    start + (ticksOf rate start past).length * (1000000000 / r.toNat) ≤
      lastTime rate start past := by
  induction past with
  | nil => simp [ticksOf, lastTime]
  | cons e past ih =>
    have hbefore := ih h.of_cons
    cases e with
    | write register value => exact hbefore
    | look now =>
      rcases Nat.lt_or_ge (now - lastTime rate start past) (ofPast rate start past).period
        with hearly | hdue
      · rw [lastTime_look_of_lt hearly, ticksOf_look_of_lt hearly]
        exact hbefore
      · have hpos := period_pos rate start past
        rw [lastTime_look_of_le hdue, ticksOf_look_of_le hdue, List.length_cons, Nat.succ_mul]
        rw [h.of_cons.period_eq] at hdue hpos
        omega

/-- **A clock that keeps its rate has no more ticks than periods** between its making and the latest
look. -/
theorem length_ticksOf_le (h : Steady rate start r past) :
    (ticksOf rate start past).length ≤ (latestLook past - start) / (1000000000 / r.toNat) := by
  have hpos := period_pos rate start past
  rw [h.period_eq] at hpos
  have hticks := add_length_ticksOf_le h
  have hlast := lastTime_le rate start past
  rw [Nat.le_div_iff_mul_le hpos]
  omega

/-! ## Registers -/

/-- **Registers 1 and 0 together count the ticks**, as far as two words go. -/
theorem read_ticks (past : List Event) :
    ((ofPast rate start past).read 1).toNat * 0x10000 + ((ofPast rate start past).read 0).toNat =
      (ticksOf rate start past).length % 0x100000000 := by
  have hlow : (ofPast rate start past).read 0 =
      (UInt32.ofNat (ticksOf rate start past).length).toUInt16 := by rw [ofPast_eq]; rfl
  have hhigh : (ofPast rate start past).read 1 =
      (UInt32.ofNat (ticksOf rate start past).length >>> 16).toUInt16 := by rw [ofPast_eq]; rfl
  rw [hlow, hhigh, UInt32.toNat_toUInt16, UInt32.toNat_toUInt16, UInt32.toNat_shiftRight,
    UInt32.toNat_ofNat', Nat.shiftRight_eq_div_pow]
  change _ / 2 ^ 16 % 2 ^ 16 * _ + _ = _
  omega

/-- **A tick interrupts** if bit 0 of the settings is set and there is a message. -/
theorem request_ofPast (past : List Event) :
    (ofPast rate start past).request =
      if (lastWritten? 1 past).getD 0 &&& 1 ≠ 0 ∧ (lastWritten? 0 past).getD 0 ≠ 0 then
        some ((lastWritten? 0 past).getD 0)
      else none := by
  rw [ofPast_eq, request]

end Clock

end WordMachine
