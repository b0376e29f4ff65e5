import WordMachine.Proofs.Bus.Lockstep
import WordMachine.Proofs.Bus.Registry
import WordMachine.Proofs.Processor.Interrupts

/-!
# Proofs/Bus/Interrupts — a tick delivers what the devices ask for, one after the other

In a tick every device changes, and then may ask for an interrupt, before the next device does
(`ticked`).  Interrupts that find room reach no device, so those of a tick may as well be delivered
once all devices have changed: `tick_eq_interrupts`.

Main statement: `interrupts_unwind`.  Interrupts that find room are nested, a handler that restores
leads back out of them, and the interrupts of a tick are no different.
-/

namespace WordMachine

namespace Bus

open Processor (interrupts takeA takePc)
open Word (below)

variable {board : Board}

/-- **The interrupt that a device asks for is taken**, and it does not matter which devices are
busy. -/
theorem deliver_eq {slot : Slot} {request : Option Word} (h : board.Takes request.toList) :
    deliver slot request board = .ok () (board.taken request.toList) := by
  cases request with
  | none =>
    rw [Option.toList, Processor.taken_nil]
    rfl
  | some message =>
    let board' : Board := setBusy (slot :: board.world.busy) board
    change (withBusy slot (Processor.interrupt message) >>= _) board = _
    by_cases hia : board.regs.ia = 0
    · have hdropped : Processor.interrupt message board' = .ok false board' :=
        Processor.interrupt_of_masked hia
      rw [bind_of_ok (t := board) (by rw [withBusy, hdropped]; rfl), Processor.taken_of_masked hia]
      rfl
    · have hroom : board.Room 2 := h.resolve_left hia
      have hroom' : board'.Room 2 := ⟨hroom.1, hroom.2⟩
      have hdelivered : Processor.interrupt message board' =
          .ok true (board'.interrupted message) := Processor.interrupt_eq hia hroom'
      rw [bind_of_ok (t := board.interrupted message) (by rw [withBusy, hdelivered]; rfl),
        Option.toList, Processor.taken_cons hia, Processor.taken_nil]
      rfl

/-! ## Ticks -/

/-- What the device in a slot asks for when it ticks, and the bus after that. -/
def slotTicked (now : Nat) (slot : Slot) (bus : Bus) : Option Word × Bus :=
  if bus.isBusy slot then (none, bus.note .tickSkipped)
  else
    match bus.devices[slot]? with
    | none => (none, bus)
    | some device => ((device.tick now).2, bus.setDevice slot (device.tick now).1)

/-- What devices ask for when they tick one after the other, and the bus after that. -/
def ticked (now : Nat) : (entries : List (UInt32 × Slot)) → Bus → List Word × Bus
  | [], bus => ([], bus)
  | entry :: entries, bus =>
    let first := slotTicked now entry.2 bus
    let rest := ticked now entries first.2
    (first.1.toList ++ rest.1, rest.2)

/-- **A device ticks, and then its interrupt is taken.** -/
theorem tickSlot_eq {now : Nat} {slot : Slot}
    (h : board.Takes (slotTicked now slot board.world).1.toList) :
    tickSlot now slot board =
      .ok () ((board.taken (slotTicked now slot board.world).1.toList).withWorld
        (slotTicked now slot board.world).2) := by
  change (if board.world.isBusy slot then _ else _ : Board.Action Unit) board = _
  unfold slotTicked at h ⊢
  split
  · rw [Option.toList, Processor.taken_nil]
    rfl
  · next hidle =>
    rw [if_neg hidle] at h
    change (match board.world.devices[slot]? with | none => _ | some device => _ :
      Board.Action Unit) board = _
    cases hdevice : board.world.devices[slot]? with
    | none =>
      rw [Option.toList, Processor.taken_nil]
      rfl
    | some device =>
      simp only [hdevice] at h
      let bus := board.world.setDevice slot (device.tick now).1
      have hdeliver : deliver slot (device.tick now).2 (board.withWorld bus) = _ :=
        deliver_eq (Processor.takes_withWorld.mpr h)
      rw [Processor.taken_withWorld] at hdeliver
      exact hdeliver

/-- **Interrupts that a tick asks for may as well come after it.** -/
theorem tick_eq {now : Nat} (h : board.Takes (ticked now board.world.registry board.world).1) :
    tick now board = interrupts (ticked now board.world.registry board.world).1
      (board.withWorld (ticked now board.world.registry board.world).2) := by
  rw [Processor.interrupts_eq (Processor.takes_withWorld.mpr h), Processor.taken_withWorld]
  change (board.world.registry.forM fun entry => tickSlot now entry.2) board = _
  generalize board.world.registry = entries at h ⊢
  induction entries generalizing board with
  | nil =>
    change _ = EStateM.Result.ok () ((board.taken []).withWorld board.world)
    rw [Processor.taken_nil]
    rfl
  | cons entry entries ih =>
    let bus := (slotTicked now entry.2 board.world).2
    let first := (slotTicked now entry.2 board.world).1.toList
    have happend : board.Takes (first ++ (ticked now entries bus).1) := h
    obtain ⟨hfirst, hrest⟩ := happend.append
    change (tickSlot now entry.2 >>= fun _ => entries.forM fun entry => tickSlot now entry.2)
      board = .ok () ((board.taken (first ++ (ticked now entries bus).1)).withWorld
        (ticked now entries bus).2)
    rw [bind_of_ok (tickSlot_eq hfirst), Processor.taken_append]
    have hticked : ((board.taken first).withWorld bus).Takes (ticked now entries bus).1 :=
      Processor.takes_withWorld.mpr hrest
    exact (ih hticked).trans (by rw [Processor.taken_withWorld]; rfl)

/-- **Interrupts unwind.**  While IA is 0 they change nothing.  Otherwise, if there is room for
their frames, they are all delivered and the frames are nested; and if the handler restores and lies
outside the frames, two steps for each frame lead back to all registers from before, with the frames
alone left in memory.  The interrupts that devices ask for in a tick are delivered just so. -/
theorem interrupts_unwind :
    (∀ {ω σ : Type} [Observer ω σ] (p : Processor ω σ) (messages : List Word),
      (p.regs.ia = 0 → interrupts messages p = .ok () p) ∧
        (p.regs.ia ≠ 0 → messages.length ≤ 32768 → p.Room (2 * messages.length) →
          ∃ q, interrupts messages p = .ok () q ∧ p.Nested messages q ∧
            (p.Restores →
              (∀ n < 2 * messages.length,
                below p.regs.sp n ≠ p.regs.ia ∧ below p.regs.sp n ≠ p.regs.ia + 1) →
              ∃ r, Processor.exec (2 * messages.length) q = .ok () r ∧ r.regs = p.regs ∧
                r.mem = q.mem ∧ r.world = p.world ∧
                r.cycles = p.cycles + 2 * messages.length))) ∧
      ∀ (now : Nat) (board : Board),
        board.Takes (ticked now board.world.registry board.world).1 →
          tick now board = interrupts (ticked now board.world.registry board.world).1
            (board.withWorld (ticked now board.world.registry board.world).2) := by
  refine ⟨fun p messages => ⟨fun hia => ?masked, fun hia hlength hroom => ?delivered⟩,
    fun now board => tick_eq⟩
  case masked =>
    rw [Processor.interrupts_eq (.inl hia), Processor.taken_of_masked hia]
  case delivered =>
    have hcount : 2 * messages.length ≤ Word.count := by
      simp only [Word.count]
      omega
    exact ⟨p.taken messages, Processor.interrupts_eq (.inr hroom),
      Processor.nested_taken hia hroom.full hcount,
      Processor.exists_unwound hia hroom hcount⟩

/-- A board with two banks that interrupt, whose stack goes from the first address to the last. -/
def eager : Board :=
  let bus : Bus := [Call.register (.bank (.ofCount 1 0 5)), .register (.bank (.ofCount 2 0 6))].foldl
    (fun bus call => call.after bus) {}
  (Processor.ofWords bus [0, takeA.encode, takePc.encode]).withRegs { pc := 7, sp := 1, ia := 1 }

theorem interrupts_unwind_eager :
    ∃ q r, tick 0 eager = .ok () q ∧ q.regs.pc = 1 ∧ q.regs.get .a = 6 ∧ q.regs.sp = 0xFFFD ∧
      [q.word 0, q.word 0xFFFF, q.word 0xFFFE, q.word 0xFFFD] = [7, 0, 1, 5] ∧
      Processor.exec 4 q = .ok () r ∧ r.regs = eager.regs ∧ r.mem = q.mem := by
  have hplain : eager.Plain := (Processor.plain_ofWords _ _).withRegs _
  have hholds : (Processor.ofWords eager.world [0, takeA.encode, takePc.encode] : Board).Holds
      [0, takeA.encode, takePc.encode] := Processor.holds_ofWords _ (by decide)
  have hroom : ∀ count, eager.Room count := fun count =>
    ⟨hplain.capacity, fun n _ => hplain.unobserved _⟩
  obtain ⟨hinterrupts, htick⟩ := interrupts_unwind
  have hmessages : (ticked 0 eager.world.registry eager.world).1 = [5, 6] := by decide +kernel
  have hdelivered := htick 0 eager (.inr (hroom _))
  generalize (ticked 0 eager.world.registry eager.world).2 = bus at hdelivered
  rw [hmessages] at hdelivered
  have hia : eager.regs.ia ≠ 0 := by decide
  obtain ⟨q, hq, hnested, hrestored⟩ := (hinterrupts (eager.withWorld bus) [5, 6]).2 hia
    (by decide) ⟨(hroom 4).1, (hroom 4).2⟩
  have hrestores : (eager.withWorld bus).Restores :=
    Processor.restores_of_words hplain.capacity (hholds 1 _ rfl) (hholds 2 _ rfl)
      (hplain.unobserved _) (hplain.unobserved _)
  have hapart : ∀ n < 4, below eager.regs.sp n ≠ eager.regs.ia ∧
      below eager.regs.sp n ≠ eager.regs.ia + 1 := by decide
  obtain ⟨r, hr, hregs, hmem, -⟩ := hrestored hrestores hapart
  have hlast := hnested.regs 6 rfl
  have hpc := hnested.savedPc
  have hA := hnested.savedA
  refine ⟨q, r, hdelivered.trans hq, ?_, ?_, ?_, ?_, hr, hregs, hmem⟩
  · rw [hlast]; rfl
  · rw [hlast]; rfl
  · rw [hlast]; rfl
  · have hcell : below eager.regs.sp 0 = 0 := by decide
    have h0 : q.word 0 = 7 := hcell ▸ hpc 0 (by decide)
    have h1 : q.word 0xFFFF = 0 := Option.some.inj (hA 0 (by decide))
    have h2 : q.word 0xFFFE = 1 := hpc 1 (by decide)
    have h3 : q.word 0xFFFD = 5 := Option.some.inj (hA 1 (by decide))
    rw [h0, h1, h2, h3]

end Bus

end WordMachine
