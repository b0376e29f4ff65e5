import WordMachine.Proofs.Bus.Keyboard
import WordMachine.Proofs.Computer.Building
import WordMachine.Proofs.Computer.Idle
import WordMachine.Proofs.Device.Clock

/-!
# Proofs/Computer/Traffic — a device does not hear its own interrupt

An interrupt pushes two words, and SP may point into the windows of the devices.  While the keyboard
or the clock interrupts, it is busy and hears nothing, and the other devices are not: they hear what
is pushed into their windows, and the display what is pushed into its picture where no register is
(`heard`).

Main statement: `delivered_of_reachable`.  Where the picture lies over the windows, the display need
not hear of a word that is pushed into it: `not_dirty_of_pushed`.
-/

namespace WordMachine

open Bus (Board)
open Word (below)

namespace Computer

variable {c c' : Computer} {own slot : Slot} {message : Word}

/-! ## What the devices hear -/

/-- What the device in a slot makes of a word that is stored at an address: a write to its register
there, or for the display, where no register is, a change of the watched picture. -/
def heard (c : Computer) (slot : Slot) (addr w : Word) (d : Device) : Device :=
  match c.board.world.route? addr with
  | some (target, number) => if target = slot then d.write number w else d
  | none =>
    if slot = displaySlot ∧ c.watched.any (·.contains addr.toNat) = true then d.redrawn else d

/-- The bus of a full computer is orderly. -/
theorem Full.orderly (h : c.Full) : c.board.world.Orderly :=
  h.toFurnished.orderly (Nat.le_of_eq h.full)

/-- **What a store leads to**: every device hears it that is not busy, and makes of it what it
makes. -/
theorem Full.getElem?_told (h : c.Full) (addr w : Word) (bus : Bus) (slot : Slot) :
    (c.mem.told addr.toNat w bus).devices[slot]? =
      if bus.isBusy slot then bus.devices[slot]?
      else bus.devices[slot]?.map (c.heard slot addr w) := by
  have hlt : addr.toNat < c.mem.capacity := Processor.Full.lt_capacity h.full addr
  unfold Memory.told heard
  rw [h.observer?_eq _ hlt, wire?, h.orderly.wire?_eq_route?]
  cases hroute : c.board.world.route? addr with
  | some route => exact Bus.getElem?_onWrite (.register route.1 route.2) w bus slot
  | none =>
    rw [Option.map_none, Option.none_or, screenWire?]
    by_cases hscreen : c.watched.any (·.contains addr.toNat) = true
    · have hheard : ∀ d : Device, (Wire.screen displaySlot).heard slot w d =
          if slot = displaySlot ∧ c.watched.any (·.contains addr.toNat) = true then d.redrawn
          else d := fun d => by simp only [Wire.heard, hscreen, and_true, eq_comm]
      rw [if_pos hscreen, ← funext hheard]
      exact Bus.getElem?_onWrite (.screen displaySlot) w bus slot
    · have hheard : ∀ d : Device, d =
          if slot = displaySlot ∧ c.watched.any (·.contains addr.toNat) = true then d.redrawn
          else d := fun d => (if_neg fun h => hscreen h.2).symm
      rw [if_neg hscreen, ← funext hheard, Option.map_id_fun', id, ite_self]

/-! ## One interrupt -/

/-- An interrupt has been delivered for the device in a slot, which is `d` now.  The cells below SP
hold PC and A, and the other devices have heard of them in this order.  Nothing else has changed but
PC, A and SP. -/
structure Delivered (c : Computer) (own : Slot) (d : Device) (message : Word) (c' : Computer) :
    Prop where
  regs : c'.regs = { c.regs with pc := c.regs.ia, sp := c.regs.sp - 2 }.set .a message
  savedPc : c'.mem.cell? (c.regs.sp - 1).toNat = some c.regs.pc
  savedA : c'.mem.cell? (c.regs.sp - 2).toNat = some (c.regs.get .a)
  elsewhere : ∀ addr, addr ≠ (c.regs.sp - 1).toNat → addr ≠ (c.regs.sp - 2).toNat →
    c'.mem.cell? addr = c.mem.cell? addr
  device : c'.board.world.devices[own]? = some d
  others : ∀ slot, slot ≠ own → c'.board.world.devices[slot]? =
    c.board.world.devices[slot]?.map fun other =>
      c.heard slot (c.regs.sp - 2) (c.regs.get .a) (c.heard slot (c.regs.sp - 1) c.regs.pc other)

/-- The computer after the device in a slot has become `d` and has interrupted. -/
def interruptedBy (c : Computer) (own : Slot) (d : Device) (message : Word) : Computer :=
  { c with
    board := { c.board.interrupted message with
      world := Bus.pushed own (Bus.putDevice own d c.board) } }

/-- Of what is stored while one device is busy, **the others hear**… -/
theorem Full.getElem?_told_engaged (h : c.Full) (addr w : Word) {bus : Bus}
    (hbusy : bus.busy = [own]) (slot : Slot) :
    (c.mem.told addr.toNat w bus).devices[slot]? =
      if slot = own then bus.devices[slot]?
      else bus.devices[slot]?.map (c.heard slot addr w) := by
  rw [h.getElem?_told, Bus.isBusy, hbusy]
  simp only [List.contains_cons, List.contains_nil, Bool.or_false, beq_iff_eq]

/-- …and so of an interrupt. -/
theorem Full.getElem?_interruptedBy (h : c.Full) (hfree : c.board.world.busy = [])
    {old : Device} (hold : c.board.world.devices[own]? = some old) (d : Device) (message : Word)
    (slot : Slot) :
    (c.interruptedBy own d message).board.world.devices[slot]? =
      if slot = own then some d
      else c.board.world.devices[slot]?.map fun other =>
        c.heard slot (c.regs.sp - 2) (c.regs.get .a)
          (c.heard slot (c.regs.sp - 1) c.regs.pc other) := by
  let start : Bus := { (Bus.putDevice own d c.board).world with busy := own :: c.board.world.busy }
  let first : Bus := c.mem.told (below c.regs.sp 0).toNat c.regs.pc start
  have hstart : start.busy = [own] := congrArg (own :: ·) hfree
  have hfirst : first.busy = [own] := (Bus.busy_told ..).trans hstart
  have hput : start.devices[slot]? =
      if own = slot then some d else c.board.world.devices[slot]? := by
    refine (Bus.getElem?_setDevice ..).trans ?_
    split
    · next heq => rw [← heq, hold, Option.map_some]
    · rfl
  change (c.mem.told (below c.regs.sp 1).toNat (c.regs.get .a) first).devices[slot]? = _
  rw [h.getElem?_told_engaged _ _ hfirst, h.getElem?_told_engaged _ _ hstart, hput]
  by_cases hslot : slot = own
  · simp only [hslot, if_true]
  · rw [if_neg hslot, if_neg hslot, if_neg hslot, if_neg (Ne.symm hslot), Option.map_map]
    rfl

/-- The two cells below SP hold what an interrupt pushes. -/
theorem Full.cell?_interruptedBy (h : c.Full) (own : Slot) (d : Device) (message : Word)
    (addr : Nat) :
    (c.interruptedBy own d message).mem.cell? addr =
      if (c.regs.sp - 2).toNat = addr then some (c.regs.get .a)
      else if (c.regs.sp - 1).toNat = addr then some c.regs.pc else c.mem.cell? addr := by
  have hin : ∀ w : Word, w.toNat = addr ∧ addr < c.mem.capacity ↔ w.toNat = addr := fun w =>
    and_iff_left_of_imp fun heq => heq ▸ Processor.Full.lt_capacity h.full w
  change ((c.mem.store (c.regs.sp - 1).toNat c.regs.pc).store (c.regs.sp - 2).toNat
    (c.regs.get .a)).cell? addr = _
  simp only [Memory.cell?_store, Memory.capacity_store, hin]

/-- **An interrupt is delivered** as it should be. -/
theorem Full.delivered (h : c.Full) (hfree : c.board.world.busy = []) {old d : Device}
    (hold : c.board.world.devices[own]? = some old) (message : Word) :
    c.Delivered own d message (c.interruptedBy own d message) := by
  have hne : (c.regs.sp - 2).toNat ≠ (c.regs.sp - 1).toNat := fun heq => by
    cases Word.below_inj (by decide) (by decide) (UInt16.toNat.inj heq : below _ 1 = below _ 0)
  refine
    { regs := rfl
      savedPc := ?savedPc
      savedA := ?savedA
      elsewhere := fun addr hpc ha => ?elsewhere
      device := ?device
      others := fun slot hslot => ?others }
  case savedPc => rw [h.cell?_interruptedBy, if_neg hne, if_pos rfl]
  case savedA => rw [h.cell?_interruptedBy, if_pos rfl]
  case elsewhere => rw [h.cell?_interruptedBy, if_neg (Ne.symm ha), if_neg (Ne.symm hpc)]
  case device => rw [h.getElem?_interruptedBy hfree hold, if_pos rfl]
  case others => rw [h.getElem?_interruptedBy hfree hold, if_neg hslot]

/-- Moving the wires undoes nothing of it. -/
theorem Delivered.rewired {d : Device} (h : c.Delivered own d message c') {mem : Memory Wire}
    (hcells : ∀ addr, mem.cell? addr = c'.mem.cell? addr) :
    c.Delivered own d message (c'.rewired mem) where
  regs := h.regs
  savedPc := (hcells _).trans h.savedPc
  savedA := (hcells _).trans h.savedA
  elsewhere addr hpc ha := (hcells addr).trans (h.elsewhere addr hpc ha)
  device := h.device
  others := h.others

/-- **An interrupt is delivered** where every address has a cell and IA is not 0. -/
theorem Full.deliver_eq (h : c.Full) (hia : c.regs.ia ≠ 0) (d : Device) :
    Bus.deliver own (some message) (Bus.putDevice own d c.board) =
      .ok () (c.interruptedBy own d message).board := by
  have hput : (Bus.putDevice own d c.board).regs.ia ≠ 0 := hia
  exact Bus.deliver_eq_told hput h.full

/-! ## Keys and ticks -/

theorem Furnished.exists_keyboard (h : c.Furnished) :
    c.board.world.devices[keyboardSlot]? = some (.keyboard c.keyboard) := by
  obtain ⟨d, hd, hkind⟩ := Option.map_eq_some_iff.mp h.keyboard
  cases d with
  | keyboard k => rw [hd, Computer.keyboard, hd]
  | _ => cases hkind

theorem Furnished.exists_clock (h : c.Furnished) :
    c.board.world.devices[clockSlot]? = some (.clock c.clock) := by
  obtain ⟨d, hd, hkind⟩ := Option.map_eq_some_iff.mp h.clock
  cases d with
  | clock k => rw [hd, Computer.clock, hd]
  | _ => cases hkind

theorem clock_eq {k : Clock} (h : c.board.world.devices[clockSlot]? = some (.clock k)) :
    c.clock = k := by
  rw [clock, h]

theorem keyboard_eq {k : Keyboard} (h : c.board.world.devices[keyboardSlot]? = some (.keyboard k)) :
    c.keyboard = k := by
  rw [keyboard, h]

/-- A key that goes down interrupts. -/
theorem Full.keyDown_eq (h : c.Full) (hia : c.regs.ia ≠ 0) {code : Word}
    (hup : c.keyboard.isHeld code = false) (hmessage : c.keyboard.message ≠ 0) :
    keyDown code c = .ok true
      (c.interruptedBy keyboardSlot (.keyboard (c.keyboard.pressed code)) c.keyboard.message) := by
  have hrequest : (c.keyboard.pressed code).request = some c.keyboard.message := by
    rw [Keyboard.request_pressed, if_neg hmessage]
  have hpress := Bus.pressKeyOn_of_up h.exists_keyboard hup Processor.interrupt
  rw [Bus.pressKeyOn_interrupt, Bus.deliverOn_interrupt, hrequest,
    bind_of_ok (h.deliver_eq hia _)] at hpress
  exact onBoard_of_ok hpress

/-- **In a tick only the clock does something.** -/
theorem Furnished.tick_eq (h : c.Furnished) (hfree : c.board.world.busy = []) {board : Board}
    (hclock : Bus.tickSlot c.now clockSlot c.board = .ok () board) :
    Bus.tick c.now c.board = .ok () board := by
  have hsame := h.toWired.sameWiring_act (Bus.uniform_tickSlot c.now clockSlot)
  rw [hclock] at hsame
  have hafter : ({ c with board } : Computer).Furnished := h.of_sameWiring hsame
  have hbusy : board.world.busy = [] := (Bus.keeps_busy_tickSlot c.now clockSlot).of_ok hfree hclock
  have hidle : ∀ slot, board.world.isBusy slot = false := Bus.isBusy_of_free hbusy
  have hkeyboard : Bus.tickSlot c.now keyboardSlot board = .ok () board :=
    Bus.tickSlot_of_still hafter.exists_keyboard (hidle _) rfl
  have hdisplay : Bus.tickSlot c.now displaySlot board = .ok () board := by
    obtain ⟨d, hd⟩ := hafter.display
    exact Bus.tickSlot_of_still hd (hidle _) rfl
  change (c.board.world.registry.forM fun entry => Bus.tickSlot c.now entry.2) c.board = _
  rw [h.registry]
  change (Bus.tickSlot c.now clockSlot >>= fun _ => Bus.tickSlot c.now keyboardSlot >>= fun _ =>
    Bus.tickSlot c.now displaySlot >>= fun _ => pure ()) c.board = _
  rw [bind_of_ok hclock, bind_of_ok hkeyboard, bind_of_ok hdisplay]
  rfl

/-- **A tick of the devices**: what the clock does, and then the wires follow the picture. -/
theorem Furnished.exists_tickDevices (h : c.Furnished) (hfree : c.board.world.busy = [])
    {board : Board} (hclock : Bus.tickSlot c.now clockSlot c.board = .ok () board) :
    ∃ mem, tickDevices c = .ok () (({ c with board } : Computer).rewired mem) ∧
      ∀ addr, mem.cell? addr = board.mem.cell? addr := by
  have htick := h.tick_eq hfree hclock
  have hsame := h.toWired.sameWiring_act (Bus.uniform_tick c.now)
  rw [htick] at hsame
  have hwired : ({ c with board } : Computer).Wired := h.toWired.of_sameWiring hsame
  obtain ⟨mem, hrewire, hcells, -⟩ := exists_rewire hwired
  refine ⟨mem, ?_, hcells⟩
  change (onBoard (Bus.tick c.now) >>= fun _ => rewire) c = _
  rw [bind_of_ok (onBoard_of_ok htick), hrewire]

/-- **A clock that ticks interrupts.** -/
theorem Full.tickSlot_eq (h : c.Full) (hfree : c.board.world.busy = []) (hia : c.regs.ia ≠ 0)
    {k : Clock} (htick : c.clock.tick? c.now = some k) (hrequest : k.request = some message) :
    Bus.tickSlot c.now clockSlot c.board =
      .ok () (c.interruptedBy clockSlot (.clock k) message).board := by
  rw [Bus.tickSlot_of_idle h.exists_clock (Bus.isBusy_of_free hfree _)]
  simp only [Device.tick, htick, hrequest]
  exact h.deliver_eq hia _

/-- The clock has ticked in a tick of the devices and is `k` now, and its interrupt has been
delivered. -/
structure TickDelivered (c : Computer) (k : Clock) (message : Word) (c' : Computer) : Prop
    extends c.Delivered clockSlot (.clock k) message c' where
  clock : c'.clock = k
  message_eq : c'.clock.message = c.clock.message
  settings_eq : c'.clock.settings = c.clock.settings
  rate_eq : c'.clock.rate = c.clock.rate

/-- **A tick in which the clock is to interrupt delivers the interrupt.** -/
theorem Full.tickDelivered (h : c.Full) (hfree : c.board.world.busy = []) (hia : c.regs.ia ≠ 0)
    {k : Clock} (htick : c.clock.tick? c.now = some k) (hrequest : k.request = some message) :
    ∃ c', tickDevices c = .ok () c' ∧ c.TickDelivered k message c' := by
  obtain ⟨mem, hend, hcells⟩ :=
    h.toFurnished.exists_tickDevices hfree (h.tickSlot_eq hfree hia htick hrequest)
  let c' : Computer := (c.interruptedBy clockSlot (.clock k) message).rewired mem
  have hdelivered : c.Delivered clockSlot (.clock k) message c' :=
    (h.delivered hfree h.exists_clock message).rewired hcells
  have hclock : c'.clock = k := clock_eq hdelivered.device
  have hk : k = c.clock.ticked c.now := by
    by_cases hdue : c.clock.period ≤ c.now - c.clock.lastTick
    · rw [Clock.tick?_of_le hdue] at htick
      exact (Option.some.inj htick).symm
    · rw [Clock.tick?_of_lt (Nat.lt_of_not_le hdue)] at htick
      cases htick
  refine ⟨c', hend, { hdelivered with clock := hclock, message_eq := ?_, settings_eq := ?_
                                      rate_eq := ?_ }⟩
  · rw [hclock, hk, Clock.ticked]
  · rw [hclock, hk, Clock.ticked]
  · rw [hclock, hk, Clock.ticked]

/-! ## A picture over the windows

The cells of a full memory are too many to evaluate, so a computer is followed here through the
operations by what it has beside its cells (`Plain`). -/

/-- The bus of the default configuration with its three devices as they are. -/
def plainBus (clock : Clock) (keyboard : Keyboard) (display : Display) : Bus :=
  { bareBus {} with
    devices := #[.clock clock, .keyboard keyboard, .display display]
    windows := deviceWindows {} }

/-- A reachable computer of the default configuration has these devices, watches this picture and is
at this time. -/
structure Plain (c : Computer) (clock : Clock) (keyboard : Keyboard) (display : Display)
    (watched : Option Span) (now : Nat) : Prop where
  reachable : Reachable c
  full : c.Full
  world_eq : c.board.world = plainBus clock keyboard display
  watched_eq : c.watched = watched
  now_eq : c.now = now

namespace Plain

variable {clock clock' : Clock} {keyboard keyboard' : Keyboard} {display display' : Display}
  {watched watched' : Option Span} {now : Nat}

theorem clock_eq (h : c.Plain clock keyboard display watched now) : c.clock = clock :=
  Computer.clock_eq (by rw [h.world_eq]; rfl)

theorem keyboard_eq (h : c.Plain clock keyboard display watched now) : c.keyboard = keyboard :=
  Computer.keyboard_eq (by rw [h.world_eq]; rfl)

theorem display_device (h : c.Plain clock keyboard display watched now) :
    c.board.world.devices[displaySlot]? = some (.display display) := by
  rw [h.world_eq]
  rfl

theorem after (h : c.Plain clock keyboard display watched now) {op : Operation} (board : Board)
    (hafter : op.after c = { c with board, watched := watched' })
    (hworld : board.world = plainBus clock' keyboard' display') :
    (op.after c).Plain clock' keyboard' display' watched' now where
  reachable := .after op h.reachable
  full := keeps_iff.mp op.guarded.keeps c h.full
  world_eq := (congrArg (·.board.world) hafter).trans hworld
  watched_eq := congrArg Computer.watched hafter
  now_eq := (congrArg Computer.now hafter).trans h.now_eq

theorem write (h : c.Plain clock keyboard display watched now) (addr w : Word) (wire : Wire)
    (hwire : ((plainBus clock keyboard display).wire? addr.toNat).or
      (screenWire? watched addr.toNat) = some wire)
    (hworld : wire.onWrite w (plainBus clock keyboard display) =
      plainBus clock' keyboard' display') :
    ((Operation.write addr.toNat w.toNat).after c).Plain clock' keyboard' display' watched now := by
  have hlt : addr.toNat < c.board.mem.capacity := Processor.Full.lt_capacity h.full.full addr
  have hobserver : c.board.mem.observer? addr.toNat = some wire := by
    refine (h.full.observer?_eq _ hlt).trans ?_
    rw [wire?, h.world_eq, h.watched_eq, hwire]
  have hwritten : Memory.write addr.toNat w.toNat (c.board.mem, c.board.world) =
      .ok () (c.board.mem.store addr.toNat w, plainBus clock' keyboard' display') := by
    rw [Memory.write_eq hlt, UInt16.ofNat_toNat, Memory.told, hobserver, h.world_eq, ← hworld]
    rfl
  refine h.after { c.board with
    mem := c.board.mem.store addr.toNat w, world := plainBus clock' keyboard' display' } ?_ rfl
  change stateOf (onMemory .memory (Memory.write addr.toNat w.toNat) c) = _
  rw [stateOf_onMemory, hwritten, ← h.watched_eq]
  rfl

theorem tickDevices (h : c.Plain clock keyboard display watched now)
    (hearly : clock.tick? now = none) (hwindow : display.window? = watched') :
    (Operation.tickDevices.after c).Plain clock keyboard display watched' now := by
  have hfree : c.board.world.busy = [] := busy_of_reachable h.reachable
  have hstill : Bus.tickSlot c.now clockSlot c.board = .ok () c.board := by
    refine Bus.tickSlot_of_still (d := .clock clock) ?_ (Bus.isBusy_of_free hfree _) ?_
    · rw [h.world_eq]
      rfl
    · rw [h.now_eq, Device.tick, hearly]
  obtain ⟨mem, hend, -⟩ := h.full.exists_tickDevices hfree hstill
  have hdisplay : c.display = display := display_eq h.display_device
  refine h.after { c.board with mem } ?_ h.world_eq
  exact (congrArg stateOf hend).trans (by rw [← hwindow, ← hdisplay]; rfl)

theorem takeDirty (h : c.Plain clock keyboard display watched now) :
    (Operation.takeDirty.after c).Plain clock keyboard display.markClean watched now := by
  refine h.after { c.board with world := plainBus clock keyboard display.markClean } ?_ rfl
  have htaken : c.takeDirty.2 =
      c.onBus fun bus => bus.setDevice displaySlot (.display display.markClean) := by
    simp only [Computer.takeDirty, h.display_device]
  refine htaken.trans ?_
  rw [onBus, h.world_eq, ← h.watched_eq]
  rfl

theorem advance (h : c.Plain clock keyboard display watched 0) (nanoseconds : Nat) :
    ((Operation.advance nanoseconds).after c).Plain clock keyboard display watched nanoseconds where
  reachable := .after _ h.reachable
  full := keeps_iff.mp (Operation.advance nanoseconds).guarded.keeps c h.full
  world_eq := h.world_eq
  watched_eq := h.watched_eq
  now_eq := (congrArg (· + nanoseconds) h.now_eq).trans (Nat.zero_add nanoseconds)

theorem setRegisters (h : c.Plain clock keyboard display watched now) (regs : Registers) :
    ((Operation.setRegisters regs).after c).Plain clock keyboard display watched now :=
  h.after { c.board with regs } (by rw [← h.watched_eq]; rfl) h.world_eq

end Plain

theorem regs_setRegisters (regs : Registers) (c : Computer) :
    ((Operation.setRegisters regs).after c).regs = regs := rfl

/-- There is a computer whose picture lies over the windows, and whose clock and keyboard have been
told to interrupt.  The picture has not changed since it was asked for last. -/
theorem exists_overlaid (regs : Registers) :
    ∃ c : Computer, c.regs = regs ∧
      c.Plain { message := 9, settings := 1, rate := 60, lastTick := 0 } { message := 7 }
        { vram := 0xF000 } (some ⟨0xF000, 0xF180⟩) 1000000000 := by
  have hbus : ∃ bus, wiredBus {} = .ok bus ∧ ∀ entry ∈ bus.allWires, entry.1 < Word.count :=
    ⟨_, rfl, by decide +kernel⟩
  obtain ⟨bus, hbus, hwires⟩ := hbus
  obtain ⟨c, h⟩ := exists_ofConfig rfl hbus hwires
  have h₀ : c.Plain { rate := 60, lastTick := 0 } {} {} none 0 := by
    obtain ⟨bus, hbus, -, rfl⟩ := of_ofConfig h
    obtain ⟨rfl, -⟩ := of_wiredBus hbus
    exact ⟨.ofConfig h, full_of_ofConfig h rfl, rfl, rfl, rfl⟩
  have h₁ : Plain _ _ _ { vram := 0xF000, dirty := true } _ _ :=
    h₀.write 0xF020 0xF000 (.register displaySlot 0) (by decide +kernel) rfl
  have hwindow : ({ vram := 0xF000, dirty := true } : Display).window? = some ⟨0xF000, 0xF180⟩ := by
    decide +kernel
  have h₂ : Plain _ _ _ { vram := 0xF000 } (some ⟨0xF000, 0xF180⟩) _ :=
    (h₁.tickDevices (by decide) hwindow).takeDirty
  have h₃ : Plain _ _ { message := 7 } _ _ _ :=
    h₂.write 0xF010 7 (.register keyboardSlot 0) (by decide +kernel) rfl
  have h₄ : Plain _ { message := 9, rate := 60, lastTick := 0 } _ _ _ _ :=
    h₃.write 0xF000 9 (.register clockSlot 0) (by decide +kernel) rfl
  have h₅ : Plain _ { message := 9, settings := 1, rate := 60, lastTick := 0 } _ _ _ _ :=
    h₄.write 0xF001 1 (.register clockSlot 1) (by decide +kernel) rfl
  exact ⟨_, regs_setRegisters regs _, (h₅.advance 1000000000).setRegisters regs⟩

/-! ## Reachable computers -/

/-- **A device does not hear its own interrupt.**  In a reachable computer with a cell for every
address, whatever SP holds: if a key that was up goes down and there are a message and a handler,
then the interrupt is delivered and the keyboard has the key in its queue and among those held, and
nothing else of it has changed.  If the clock ticks and is to interrupt, then that interrupt is
delivered and the clock has ticked, with message, settings and rate as before, also at the end of a
run.  In both cases the cells below SP hold PC and A, and the other devices have heard these, in
this order and if they lie where the device hears, and nothing else. -/
theorem delivered_of_reachable (h : Reachable c) (hwords : c.mem.capacity = Word.count) :
    (c.regs.ia ≠ 0 → ∀ code, c.keyboard.isHeld code = false → c.keyboard.message ≠ 0 →
      ∃ c', keyDown code c = .ok true c' ∧
        c'.keyboard = { c.keyboard with
          queue := c.keyboard.queue ++ [code], lastKey := code
          held := code :: c.keyboard.held } ∧
        c.Delivered keyboardSlot (.keyboard c'.keyboard) c.keyboard.message c') ∧
      (c.regs.ia ≠ 0 → ∀ k message, c.clock.tick? c.now = some k → k.request = some message →
        ∃ c', tickDevices c = .ok () c' ∧ c.TickDelivered k message c') ∧
      ∀ n mid, onBoard (Processor.exec n) c = .ok () mid → mid.regs.ia ≠ 0 →
        ∀ k message, mid.clock.tick? mid.now = some k → k.request = some message →
          ∃ c', run n c = .ok () c' ∧ mid.TickDelivered k message c' := by
  have hfull : c.Full := ⟨furnished_of_reachable h, hwords⟩
  have hfree := busy_of_reachable h
  refine ⟨fun hia code hup hmessage => ?key, fun hia k message => hfull.tickDelivered hfree hia,
    fun n mid hmid hia k message htick hrequest => ?run⟩
  case key =>
    have hdelivered := hfull.delivered (d := .keyboard (c.keyboard.pressed code)) hfree
      hfull.exists_keyboard c.keyboard.message
    have hkeyboard := keyboard_eq hdelivered.device
    refine ⟨_, hfull.keyDown_eq hia hup hmessage, hkeyboard, ?_⟩
    rw [hkeyboard]
    exact hdelivered
  case run =>
    have hexec : Guarded Full (fun _ => True) (onBoard (Processor.exec n)) :=
      guarded_onBoard (Bus.uniform_exec n) (Processor.guarded_exec n) fun _ _ => trivial
    have hbusy := (keeps_busy_onBoard (Bus.keeps_busy_exec n)).of_ok hfree hmid
    obtain ⟨c', hend, hdelivered⟩ :=
      (hexec.keeps.of_ok hfull hmid).tickDelivered hbusy hia htick hrequest
    refine ⟨c', ?_, hdelivered⟩
    rw [run, bind_of_ok hmid, hend]

/-- A clock ticks and a key goes down while PC is pushed into the message register of the keyboard
and A beside it into the picture. -/
theorem delivered_of_reachable_overlaid :
    ∃ c : Computer, Reachable c ∧ c.mem.capacity = Word.count ∧ c.regs.ia ≠ 0 ∧
      c.board.world.route? (c.regs.sp - 1) = some (keyboardSlot, 0) ∧
      (∃ c', keyDown 65 c = .ok true c' ∧
        c'.keyboard = { queue := [65], lastKey := 65, held := [65], message := 7 } ∧
        c.Delivered keyboardSlot (.keyboard c'.keyboard) 7 c') ∧
      ∃ c', tickDevices c = .ok () c' ∧ c.TickDelivered
        { message := 9, settings := 1, rate := 60, ticks := 1, lastTick := 1000000000 } 9 c' := by
  obtain ⟨c, hregs, h⟩ := exists_overlaid { pc := 0x1234, sp := 0xF011, ia := 1 }
  have hia : c.regs.ia ≠ 0 := by
    rw [hregs]
    decide
  have hroute : c.board.world.route? (c.regs.sp - 1) = some (keyboardSlot, 0) := by
    rw [hregs, h.world_eq]
    decide +kernel
  obtain ⟨hkey, htick, -⟩ := delivered_of_reachable h.reachable h.full.full
  rw [h.keyboard_eq] at hkey
  rw [h.clock_eq, h.now_eq] at htick
  exact ⟨c, h.reachable, h.full.full, hia, hroute, hkey hia 65 (by decide) (by decide),
    htick hia _ 9 (by decide +kernel) (by decide)⟩

/-- A word that is pushed into the picture where a register is goes to the register alone. -/
theorem not_dirty_of_pushed :
    ¬ ∀ c, Reachable c → c.mem.capacity = Word.count → c.regs.ia ≠ 0 →
      ∀ code c', c.keyboard.isHeld code = false → c.keyboard.message ≠ 0 →
        keyDown code c = .ok true c' →
        c.watched.any (·.contains (c.regs.sp - 1).toNat) = true → c'.display.dirty = true := by
  intro hall
  obtain ⟨c, hregs, h⟩ := exists_overlaid { pc := 0x1234, sp := 0xF001, ia := 1 }
  have hia : c.regs.ia ≠ 0 := by
    rw [hregs]
    decide
  have hup : c.keyboard.isHeld 65 = false := by
    rw [h.keyboard_eq]
    rfl
  have hmessage : c.keyboard.message ≠ 0 := by
    rw [h.keyboard_eq]
    decide
  have hwatched : c.watched.any (·.contains (c.regs.sp - 1).toNat) = true := by
    rw [hregs, h.watched_eq]
    decide +kernel
  have hdirty := hall c h.reachable h.full.full hia 65 _ hup hmessage
    (h.full.keyDown_eq hia hup hmessage) hwatched
  have hothers := (h.full.delivered (d := .keyboard (c.keyboard.pressed 65))
    (busy_of_reachable h.reachable) h.full.exists_keyboard c.keyboard.message).others displaySlot
    (by decide)
  have hclock : c.board.world.route? (c.regs.sp - 1) = some (clockSlot, 0) := by
    rw [hregs, h.world_eq]
    decide +kernel
  have hnone : c.board.world.route? (c.regs.sp - 2) = none := by
    rw [hregs, h.world_eq]
    decide +kernel
  have hunwatched : c.watched.any (·.contains (c.regs.sp - 2).toNat) = false := by
    rw [hregs, h.watched_eq]
    decide +kernel
  have hunheard : ∀ d, c.heard displaySlot (c.regs.sp - 2) (c.regs.get .a)
      (c.heard displaySlot (c.regs.sp - 1) c.regs.pc d) = d := by
    intro d
    simp only [heard, hclock, hnone, hunwatched]
    rfl
  rw [h.display_device, Option.map_some, hunheard] at hothers
  rw [display_eq hothers] at hdirty
  cases hdirty

end Computer

end WordMachine
