import WordMachine.Proofs.Computer.Wiring

/-!
# Proofs/Computer/Reachable — every reachable computer is wired

A computer comes with three devices and keeps them: their slots, windows and identifiers are those
of its configuration for good (`Furnished`).  With the wires this makes the invariant of all
operations (`furnished_of_reachable`), in whatever order they come and whether or not they succeed.
Main statement: `observer?_of_reachable`, which says what every cell's observer is.
-/

namespace WordMachine

open Bus (Board Uniform)

namespace Computer

/-! ## The three devices -/

/-- The windows of the three devices. -/
def deviceWindows (config : Config) : List Window :=
  [⟨Clock.hardwareId, config.clockBase, Clock.registerCount⟩,
    ⟨Keyboard.hardwareId, config.keyboardBase, Keyboard.registerCount⟩,
    ⟨Display.hardwareId, config.displayBase, Display.registerCount⟩]

/-- Every device has a register. -/
theorem length_pos_of_mem_deviceWindows {config : Config} {w : Window}
    (hw : w ∈ deviceWindows config) : 0 < w.length.toNat := by
  rw [deviceWindows, List.mem_cons, List.mem_cons, List.mem_singleton] at hw
  rcases hw with rfl | rfl | rfl
  · exact show 0 < Clock.registerCount.toNat by decide
  · exact show 0 < Keyboard.registerCount.toNat by decide
  · exact show 0 < Display.registerCount.toNat by decide

/-- Which slot each of the three devices is in. -/
def deviceRegistry : List (UInt32 × Slot) :=
  [(Clock.hardwareId, clockSlot), (Keyboard.hardwareId, keyboardSlot),
    (Display.hardwareId, displaySlot)]

/-- A wired computer with its three devices in place. -/
structure Furnished (c : Computer) : Prop extends c.Wired where
  windows : c.board.world.windows = deviceWindows c.config
  registry : c.board.world.registry = deviceRegistry
  apart : c.board.world.WindowsApart
  clock : c.board.world.devices[clockSlot]?.map Device.kind = some .clock
  keyboard : c.board.world.devices[keyboardSlot]?.map Device.kind = some .keyboard

theorem Furnished.of_sameWiring {c : Computer} (h : c.Furnished) {board : Board}
    (hsame : SameWiring (c.board.mem, c.board.world) (board.mem, board.world)) :
    ({ c with board } : Computer).Furnished where
  toWired := h.toWired.of_sameWiring hsame
  windows := hsame.windows.trans h.windows
  registry := hsame.registry.trans h.registry
  apart := by
    have hwindows : board.world.windows = c.board.world.windows := hsame.windows
    change board.world.windows.Pairwise Window.Apart
    rw [hwindows]
    exact h.apart
  clock := (hsame.kind clockSlot).trans h.clock
  keyboard := (hsame.kind keyboardSlot).trans h.keyboard

/-- **Every slot in the registry holds a device with the registered identifier.** -/
theorem Furnished.exists_device {c : Computer} (h : c.Furnished) {w : Window}
    (hw : w ∈ c.board.world.windows) :
    ∃ slot d, c.board.world.slot? w.hardwareId = some slot ∧
      c.board.world.devices[slot]? = some d ∧ d.hardwareId = w.hardwareId := by
  have hslot : ∀ id, c.board.world.slot? id =
      (deviceRegistry.find? fun entry => entry.1 == id).map (·.2) := fun id => by
    rw [Bus.slot?, h.registry]
  rw [h.windows, deviceWindows, List.mem_cons, List.mem_cons, List.mem_singleton] at hw
  rcases hw with rfl | rfl | rfl
  · obtain ⟨d, hd, hkind⟩ := Option.map_eq_some_iff.mp h.clock
    refine ⟨clockSlot, d, hslot _, hd, ?_⟩
    cases d with
    | clock _ => rfl
    | _ => cases hkind
  · obtain ⟨d, hd, hkind⟩ := Option.map_eq_some_iff.mp h.keyboard
    refine ⟨keyboardSlot, d, hslot _, hd, ?_⟩
    cases d with
    | keyboard _ => rfl
    | _ => cases hkind
  · obtain ⟨d, hd⟩ := h.display
    exact ⟨displaySlot, .display d, hslot _, hd, rfl⟩

/-- Every register has a cell. -/
theorem Furnished.lt_of_holds {c : Computer} (h : c.Furnished) {w : Window}
    (hw : w ∈ c.board.world.windows) {addr : Nat} (hholds : w.Holds addr) :
    addr < c.mem.capacity := by
  obtain ⟨slot, d, hslot, -, -⟩ := h.exists_device hw
  exact h.inMemory _ (Bus.mem_allWires.mpr ⟨w, hw, slot, hslot, hholds, rfl⟩)

/-- Every window ends within the memory. -/
theorem Furnished.stop_le {c : Computer} (h : c.Furnished) {w : Window}
    (hw : w ∈ c.board.world.windows) : w.stop ≤ c.mem.capacity := by
  have hpos : 0 < w.length.toNat := length_pos_of_mem_deviceWindows (h.windows ▸ hw)
  have hlast : w.Holds (w.stop - 1) := by
    simp only [Window.Holds, Window.stop]
    omega
  have hlt := h.lt_of_holds hw hlast
  omega

/-! ## Building -/

/-- The bus with the three devices before they are mapped. -/
def bareBus (config : Config) : Bus where
  devices := #[.clock (.ofRate config.clockRate 0), .keyboard {}, .display {}]
  registry := deviceRegistry

theorem wiredBus_eq (config : Config) :
    wiredBus config = (do
      let (_, bus) ← (bareBus config).map Clock.hardwareId config.clockBase
      let (_, bus) ← bus.map Keyboard.hardwareId config.keyboardBase
      let (_, bus) ← bus.map Display.hardwareId config.displayBase
      return bus) := rfl

/-- **What building leaves on the bus.** -/
theorem of_wiredBus {config : Config} {bus : Bus} (h : wiredBus config = .ok bus) :
    bus = { bareBus config with windows := deviceWindows config } ∧ bus.WindowsApart := by
  rw [wiredBus_eq] at h
  obtain ⟨⟨w₁, bus₁⟩, h₁, hrest⟩ := exists_of_except_ok h
  obtain ⟨⟨w₂, bus₂⟩, h₂, hrest⟩ := exists_of_except_ok hrest
  obtain ⟨⟨w₃, bus₃⟩, h₃, hrest⟩ := exists_of_except_ok hrest
  cases hrest
  have hbare : (bareBus config).WindowsApart := List.Pairwise.nil
  have hapart := Bus.apart_map (Bus.apart_map (Bus.apart_map hbare h₁) h₂) h₃
  obtain ⟨_, hclock, rfl, -, -, rfl⟩ := Bus.map_eq_ok h₁
  obtain ⟨_, hkeyboard, rfl, -, -, rfl⟩ := Bus.map_eq_ok h₂
  obtain ⟨_, hdisplay, rfl, -, -, rfl⟩ := Bus.map_eq_ok h₃
  cases hclock
  cases hkeyboard
  cases hdisplay
  exact ⟨rfl, hapart⟩

/-- **A computer as it has been built**: its cells hold zero, and its registers are wired. -/
theorem of_ofConfig {config : Config} {c : Computer} (h : ofConfig config = .ok c) :
    ∃ bus, wiredBus config = .ok bus ∧
      (∀ entry ∈ bus.allWires, entry.1 < config.memoryWords.toNat) ∧
      c = { board := .ofMemory
              (Bus.attached (.ofCapacity config.memoryWords.toNat) bus.allWires) bus
            config } := by
  unfold ofConfig at h
  split at h
  · cases h
  · split at h
    · cases h
    · next bus hbus =>
      split at h
      · cases h
      · next mem bus' hattach =>
        have hlt := Bus.forall_lt_of_attach hattach
        rw [Bus.attach_eq hlt] at hattach
        cases hattach
        cases h
        rw [Memory.capacity_ofCapacity] at hlt
        exact ⟨bus, hbus, hlt, rfl⟩

/-- A computer starts furnished. -/
theorem furnished_of_ofConfig {config : Config} {c : Computer} (h : ofConfig config = .ok c) :
    c.Furnished := by
  obtain ⟨bus, hbus, hlt, rfl⟩ := of_ofConfig h
  obtain ⟨rfl, hapart⟩ := of_wiredBus hbus
  refine { observer?_eq := fun addr haddr => ?_, inMemory := fun entry hentry => ?_
           display := ⟨_, rfl⟩, idle := List.not_mem_nil, windows := rfl, registry := rfl
           apart := hapart, clock := rfl, keyboard := rfl }
  · change addr < Memory.capacity (Bus.attached _ _) at haddr
    rw [Bus.capacity_attached] at haddr
    refine (Bus.observer?_attached _ _ haddr).trans ?_
    rw [Memory.observer?_ofCapacity]
    rfl
  · have := hlt entry hentry
    change entry.1 < Memory.capacity (Bus.attached _ _)
    rwa [Bus.capacity_attached, Memory.capacity_ofCapacity]

theorem busy_of_ofConfig {config : Config} {c : Computer} (h : ofConfig config = .ok c) :
    c.board.world.busy = [] := by
  obtain ⟨bus, hbus, -, rfl⟩ := of_ofConfig h
  obtain ⟨rfl, -⟩ := of_wiredBus hbus
  rfl

/-! ## Operations -/

/-- **What a board can do keeps a computer furnished.** -/
theorem keeps_onBoard {α : Type} {act : Board.Action α} (hact : Uniform displaySlot act) :
    Keeps Furnished (onBoard act) := by
  refine keeps_iff.mpr fun c h => ?_
  rw [stateOf_onBoard]
  exact h.of_sameWiring (h.toWired.sameWiring_act hact)

theorem keeps_onMemory {α : Type} {wrap : Memory.Error → Error} {access : Memory.Access Wire Bus α}
    (haccess : ∀ s, Keeps (SameWiring s) access) : Keeps Furnished (onMemory wrap access) := by
  refine keeps_iff.mpr fun c h => ?_
  rw [stateOf_onMemory]
  exact h.of_sameWiring (h.toWired.sameWiring_access haccess)

/-- …and so does rewiring. -/
theorem keeps_rewire : Keeps Furnished rewire := by
  refine keeps_iff.mpr fun c h => ?_
  obtain ⟨mem, hrewire, -, hwired⟩ := exists_rewire h.toWired
  rw [hrewire]
  exact { toWired := hwired, windows := h.windows, registry := h.registry, apart := h.apart
          clock := h.clock, keyboard := h.keyboard }

theorem Furnished.reset {c : Computer} (h : c.Furnished) : c.reset.Furnished :=
  h.of_sameWiring h.toWired.sameWiring

theorem keeps_loadImage (words : List Word) : Keeps Furnished (loadImage words) :=
  (keeps_onMemory fun _ => SameWiring.keeps_load 0 words).bind fun _ =>
    (Keeps.modify fun _ h => h.reset).bind fun _ => keeps_rewire

theorem keeps_loadAssembly (source : Text) : Keeps Furnished (loadAssembly source) := by
  unfold loadAssembly
  split
  · exact .throw _
  · exact (keeps_loadImage _).bind fun _ => .pure _

theorem keeps_tickDevices : Keeps Furnished tickDevices :=
  Keeps.get.bind fun c => (keeps_onBoard (Bus.uniform_tick c.now)).bind fun _ => keeps_rewire

theorem keeps_run (n : Nat) : Keeps Furnished (run n) :=
  (keeps_onBoard (Bus.uniform_exec n)).bind fun _ => keeps_tickDevices

theorem keeps_step : Keeps Furnished step :=
  (keeps_onBoard Bus.uniform_step).bind fun _ => keeps_rewire.bind fun _ => .pure _

theorem Furnished.keyUp {c : Computer} (h : c.Furnished) (code : Word) :
    (c.keyUp code).Furnished := by
  refine h.of_sameWiring ?_
  change SameWiring _ (c.board.mem, c.board.world.releaseKey keyboardSlot code)
  unfold Bus.releaseKey
  split
  · next hdevice => exact h.toWired.sameWiring.setDevice hdevice rfl
  · exact h.toWired.sameWiring

theorem Furnished.takeDirty {c : Computer} (h : c.Furnished) : c.takeDirty.2.Furnished := by
  unfold Computer.takeDirty
  split
  · next d hdevice => exact h.of_sameWiring (h.toWired.sameWiring.setDevice hdevice rfl)
  · exact h

/-- **Every operation keeps a computer furnished**, also one that fails. -/
theorem Furnished.after {c : Computer} (h : c.Furnished) (op : Operation) :
    (op.after c).Furnished := by
  suffices hkeeps : Keeps Furnished op.act from keeps_iff.mp hkeeps c h
  cases op with
  | loadAssembly source => exact (keeps_loadAssembly source).bind fun _ => .pure ()
  | loadImage words => exact keeps_loadImage words
  | run n => exact keeps_run n
  | runFrame => exact Keeps.get.bind fun _ => keeps_run _
  | step => exact keeps_step.bind fun _ => .pure ()
  | tickDevices => exact keeps_tickDevices
  | reset => exact .modify fun _ h => h.reset
  | keyDown code =>
    exact (keeps_onBoard (Bus.uniform_pressKey keyboardSlot code)).bind fun _ => .pure ()
  | keyUp code => exact .modify fun _ h => h.keyUp code
  | takeDirty => exact .modify fun _ h => h.takeDirty
  | advance nanoseconds =>
    exact .modify fun _ h =>
      { toWired := ⟨h.observer?_eq, h.inMemory, h.display, h.idle⟩, windows := h.windows
        registry := h.registry, apart := h.apart, clock := h.clock, keyboard := h.keyboard }
  | setRegisters regs =>
    exact keeps_onBoard fun _ _ => Processor.lockstep_onRegs fun _ => regs
  | read addr => exact (keeps_onMemory fun _ => SameWiring.keeps_read addr).bind fun _ => .pure ()
  | write addr value => exact keeps_onMemory fun _ => SameWiring.keeps_write addr value
  | load addr words => exact keeps_onMemory fun _ => SameWiring.keeps_load addr words
  | clear =>
    exact .modify fun c h => h.of_sameWiring
      ⟨Memory.capacity_clear _, Memory.observer?_clear _, rfl, rfl, fun _ => rfl, h.idle⟩

/-- **Every reachable computer is furnished.** -/
theorem furnished_of_reachable {c : Computer} (h : Reachable c) : c.Furnished := by
  induction h with
  | ofConfig h => exact furnished_of_ofConfig h
  | after op _ ih => exact ih.after op

/-! ## The observer of a cell -/

/-- **What every cell of a reachable computer is wired to**: the register of the device whose window
holds the cell, as far from the window's base as the cell is; outside all windows the display, if
the watched picture holds the cell, and else nothing.  The windows are those of the configuration,
apart from each other. -/
theorem observer?_of_reachable {c : Computer} (h : Reachable c) {addr : Nat}
    (haddr : addr < c.mem.capacity) :
    c.board.world.windows = deviceWindows c.config ∧ c.board.world.WindowsApart ∧
      (∃ d, c.board.world.devices[displaySlot]? = some (.display d)) ∧
      (∀ w ∈ c.board.world.windows, w.Holds addr →
        ∃ slot d, c.board.world.slot? w.hardwareId = some slot ∧
          c.board.world.devices[slot]? = some d ∧ d.hardwareId = w.hardwareId ∧
          c.mem.observer? addr =
            some (.register slot (UInt16.ofNat (addr - w.base.toNat)))) ∧
      ((∀ w ∈ c.board.world.windows, ¬ w.Holds addr) →
        c.mem.observer? addr =
          if c.watched.any (·.contains addr) then some (.screen displaySlot) else none) := by
  have hc := furnished_of_reachable h
  refine ⟨hc.windows, hc.apart, hc.display, fun w hw hholds => ?_, fun hnone => ?_⟩
  · obtain ⟨slot, d, hslot, hd, hid⟩ := hc.exists_device hw
    refine ⟨slot, d, hslot, hd, hid, ?_⟩
    rw [hc.observer?_eq addr haddr, wire?, Bus.wire?_of_holds hc.apart hw hslot hholds]
    rfl
  · rw [hc.observer?_eq addr haddr, wire?, Bus.wire?_eq_none hnone]
    rfl

/-- A computer whose picture has been moved over the windows of all its devices. -/
def covered : Computer := Operation.step.after ((Operation.write 28 16).after small)

theorem reachable_covered : Reachable covered := .after _ (.after _ reachable_small)

theorem observer?_covered :
    covered.watched = some ⟨16, 400⟩ ∧
      covered.mem.observer? 16 = some (.screen displaySlot) ∧
      covered.mem.observer? 15 = none ∧
      ∃ slot d, covered.board.world.slot? Clock.hardwareId = some slot ∧
        covered.board.world.devices[slot]? = some d ∧ d.hardwareId = Clock.hardwareId ∧
        covered.mem.observer? 21 = some (.register slot 1) := by
  have hwatched : covered.watched = some ⟨16, 400⟩ := by decide +kernel
  have hclock : ⟨Clock.hardwareId, 20, 3⟩ ∈ covered.board.world.windows := by decide +kernel
  have hout : ∀ addr ≤ 16, ∀ w ∈ covered.board.world.windows, ¬ w.Holds addr := by decide +kernel
  have hcapacity : covered.mem.capacity = 32 := by decide +kernel
  obtain ⟨-, -, -, hin, -⟩ :=
    observer?_of_reachable reachable_covered (show 21 < covered.mem.capacity by omega)
  refine ⟨hwatched, ?_, ?_, hin _ hclock (by decide)⟩
  · obtain ⟨-, -, -, -, hscreen⟩ :=
      observer?_of_reachable reachable_covered (show 16 < covered.mem.capacity by omega)
    rw [hscreen (hout 16 (by decide)), hwatched]
    rfl
  · obtain ⟨-, -, -, -, hnone⟩ :=
      observer?_of_reachable reachable_covered (show 15 < covered.mem.capacity by omega)
    rw [hnone (hout 15 (by decide)), hwatched]
    rfl

end Computer

end WordMachine
