import WordMachine.Proofs.Bus.Tap
import WordMachine.Proofs.Computer.Lag
import WordMachine.Proofs.Computer.Sync

/-!
# Proofs/Computer/Dirty — what makes the display dirty

A store **marks** the display if it goes to a register of the display, or to a word of the picture
as it lies at that moment that is no register of a device (`Marks`).  On a wired computer that
watches the display's picture, a run makes the display dirty if and only if one of its stores does
so, and that although the screen wires stay where they were at its start: while the picture has not
moved they are at its words, and once it has moved the display is dirty already (`Marking`).

Main statements: `dirty_of_run` and, for computers whose wires have been tampered with,
`not_dirty_of_run`.
-/

namespace WordMachine

open Bus (Board)
open Memory (Event)

/-- **A write to one of its four registers makes a display dirty**, and any other does not. -/
theorem Display.dirty_write (d : Display) (register w : Word) :
    (d.write register w).dirty = true ↔ register < registerCount ∨ d.dirty = true := by
  have hregister : register < registerCount ↔
      register = 0 ∨ register = 1 ∨ register = 2 ∨ register = 3 := by
    simp only [UInt16.lt_iff_toNat_lt, ← UInt16.toNat_inj]
    change register.toNat < 4 ↔ register.toNat = 0 ∨ register.toNat = 1 ∨ register.toNat = 2 ∨
      register.toNat = 3
    omega
  rw [hregister, write]
  split
  · simp [*]
  · split
    · simp [*]
    · split
      · simp [*]
      · split
        · simp [*]
        · simp [*]

namespace Computer

/-! ## Stores that mark the display -/

/-- A store at the address goes to a register of the display, or to a word of its picture that is
no register. -/
def Marks (bus : Bus) (addr : Nat) : Prop :=
  (∃ register < Display.registerCount,
      bus.wire? addr = some (.register displaySlot register)) ∨
    bus.wire? addr = none ∧ ∃ d, bus.devices[displaySlot]? = some (.display d) ∧
      d.window?.any (·.contains addr) = true

/-- One of the stores marks the display. -/
def Marked (events : List (Event Bus)) : Prop :=
  ∃ addr w bus, .write addr w bus ∈ events ∧ Marks bus addr

theorem not_marked_nil : ¬ Marked [] := by
  rintro ⟨addr, w, bus, hmem, -⟩
  cases hmem

theorem marked_concat_read {events : List (Event Bus)} {addr : Nat} {bus : Bus} :
    Marked (events ++ [.read addr bus]) ↔ Marked events := by
  simp [Marked]

theorem marked_concat_write {events : List (Event Bus)} {addr : Nat} {w : Word} {bus : Bus} :
    Marked (events ++ [.write addr w bus]) ↔ Marks bus addr ∨ Marked events := by
  simp only [Marked, List.mem_append, List.mem_singleton, Event.write.injEq]
  constructor
  · rintro ⟨addr', w', bus', hmem | ⟨rfl, rfl, rfl⟩, hmarks⟩
    · exact .inr ⟨addr', w', bus', hmem, hmarks⟩
    · exact .inl hmarks
  · rintro (hmarks | ⟨addr', w', bus', hmem, hmarks⟩)
    · exact ⟨addr, w, bus, .inr ⟨rfl, rfl, rfl⟩, hmarks⟩
    · exact ⟨addr', w', bus', .inl hmem, hmarks⟩

section Told

variable {mem : Memory Wire} {bus : Bus} {d : Display} {addr : Nat}

/-- **What a store makes of the display**: it is dirty after a store to a register of the display or
at a screen wire, and as it was after any other. -/
theorem exists_display_told (hd : bus.devices[displaySlot]? = some (.display d))
    (hidle : displaySlot ∉ bus.busy) (w : Word) :
    ∃ d', (mem.told addr w bus).devices[displaySlot]? = some (.display d') ∧
      (d'.dirty = true ↔ ((∃ register < Display.registerCount,
        mem.observer? addr = some (.register displaySlot register)) ∨
          mem.observer? addr = some (.screen displaySlot)) ∨ d.dirty = true) ∧
      (d' = d ∨ d'.dirty = true) := by
  have hfree : bus.isBusy displaySlot = false := by simpa [Bus.isBusy] using hidle
  unfold Memory.told
  cases hwire : mem.observer? addr with
  | none => exact ⟨d, hd, by simp, .inl rfl⟩
  | some wire =>
    cases wire with
    | screen slot =>
      change ∃ d', ((Wire.screen slot).onWrite w bus).devices[displaySlot]? = _ ∧ _
      by_cases hslot : slot = displaySlot
      · subst hslot
        refine ⟨d.markDirty, ?_, by simp [Display.markDirty], .inr rfl⟩
        simp only [Wire.onWrite, hfree, hd, Bus.getElem?_setDevice, if_true, Option.map_some]
      · refine ⟨d, ?_, by simp [hslot], .inl rfl⟩
        simp only [Wire.onWrite]
        split
        · rw [Bus.getElem?_setDevice, if_neg hslot, hd]
        · exact hd
    | register slot number =>
      change ∃ d', ((Wire.register slot number).onWrite w bus).devices[displaySlot]? = _ ∧ _
      by_cases hslot : slot = displaySlot
      · subst hslot
        refine ⟨d.write number w, ?_, ?_, d.write_eq_or_dirty number w⟩
        · simp [Wire.onWrite, hfree, hd, Bus.getElem?_setDevice, Device.write]
        · rw [Display.dirty_write]
          simp
      · refine ⟨d, ?_, by simp [hslot], .inl rfl⟩
        simp only [Wire.onWrite]
        split
        · exact hd
        · split
          · rw [Bus.getElem?_setDevice, if_neg hslot, hd]
          · exact hd

/-- While the watched picture is the display's, the stores that mark the display are those at wires
to it. -/
theorem marks_iff (hd : bus.devices[displaySlot]? = some (.display d))
    (hwire : mem.observer? addr = (bus.wire? addr).or (screenWire? d.window? addr)) :
    Marks bus addr ↔ (∃ register < Display.registerCount,
      mem.observer? addr = some (.register displaySlot register)) ∨
        mem.observer? addr = some (.screen displaySlot) := by
  rw [hwire, Marks]
  cases hregister : bus.wire? addr with
  | some wire =>
    obtain ⟨slot, number, rfl⟩ := Bus.exists_register_of_wire? hregister
    simp
  | none => simp [hd, screenWire?]

end Told

/-! ## The account of a run -/

/-- What memory and bus have become of those of `c` in the course of some events: wired as before,
with the cells that the stores have left, and a display that is dirty if it was so before or a store
has marked it.  As long as it is not dirty it shows the watched picture. -/
structure Marking (c : Computer) (s : Memory Wire × Bus) (events : List (Event Bus)) : Prop where
  wiring : SameWiring (c.board.mem, c.board.world) s
  cell?_eq : ∀ addr, s.1.cell? addr = (c.mem.replay events).cell? addr
  display : ∃ d, s.2.devices[displaySlot]? = some (.display d) ∧
    (d.dirty = true ↔ Marked events ∨ c.display.dirty = true) ∧
    (d.dirty = true ∨ d.window? = c.watched)

variable {c : Computer}

theorem marking_nil (h : c.Wired) (hsync : c.Synced) :
    Marking c (c.board.mem, c.board.world) [] := by
  obtain ⟨d, hd⟩ := h.display
  refine ⟨h.sameWiring, fun _ => rfl, d, hd, ?_, .inr ?_⟩
  · simp only [not_marked_nil, false_or, display_eq hd]
  · rw [← display_eq hd]
    exact hsync.symm

namespace Marking

variable {mem : Memory Wire} {bus : Bus} {events : List (Event Bus)} {addr : Nat}

theorem read (h : Marking c (mem, bus) events) (addr : Nat) :
    Marking c (mem, (mem.asked addr bus).2) (events ++ [.read addr bus]) := by
  obtain ⟨d, hd, hdirty⟩ := h.display
  refine ⟨h.wiring.asked addr, ?_, d, ?_, ?_⟩
  · rw [Memory.replay_concat_read]
    exact h.cell?_eq
  · exact display_asked hd mem addr
  · rwa [marked_concat_read]

/-- An address of a wired computer keeps the wire it is to carry. -/
theorem observer?_eq (h : Marking c (mem, bus) events) (hwired : c.Wired)
    (hlt : addr < mem.capacity) :
    mem.observer? addr = (bus.wire? addr).or (screenWire? c.watched addr) := by
  have hlt : addr < c.mem.capacity := lt_of_lt_of_eq hlt h.wiring.capacity
  have hwires : bus.allWires = c.board.world.allWires :=
    Bus.allWires_congr h.wiring.windows h.wiring.registry
  rw [Bus.wire?, hwires]
  exact (h.wiring.observer?_eq addr).trans (hwired.observer?_eq addr hlt)

/-- **A store is accounted for**: at a wire to the display it marks the display or finds it dirty,
and elsewhere it does neither unless the picture has moved, and then the display is dirty. -/
theorem write (h : Marking c (mem, bus) events) (hwired : c.Wired) (w : Word)
    (hlt : addr < mem.capacity) :
    Marking c (mem.store addr w, mem.told addr w bus) (events ++ [.write addr w bus]) := by
  obtain ⟨d, hd, hdirty, hsync⟩ := h.display
  obtain ⟨d', hd', hdirty', heq⟩ := exists_display_told hd h.wiring.idle w
  refine ⟨h.wiring.told addr w, fun place => ?_, d', hd', ?_, ?_⟩
  · have hcell : mem.cell? place = (c.mem.replay events).cell? place := h.cell?_eq place
    rw [Memory.replay_concat_write, Memory.cell?_store, Memory.cell?_store, hcell,
      Memory.capacity_congr h.cell?_eq]
  · rw [hdirty', marked_concat_write, or_assoc (a := Marks bus addr), ← hdirty]
    -- The wires tell where the picture was at the start.  Either it is still there, or the store
    -- that has moved it has made the display dirty, and what this one does does not matter.
    rcases hsync with hset | hshown
    · simp only [hset, or_true]
    · have hwire := h.observer?_eq hwired hlt
      rw [← hshown] at hwire
      rw [marks_iff hd hwire]
  · rcases heq with rfl | hset
    · exact hsync
    · exact .inl hset

end Marking

/-- **A run keeps account of what marks the display.** -/
theorem Wired.ledger (h : c.Wired) : Bus.Ledger displaySlot (Marking c) where
  read _ hI := hI.read _
  write w hlt hI := hI.write h w hlt
  display hI := by
    obtain ⟨d, hd, -⟩ := hI.display
    exact ⟨d, hd⟩
  idle hI := hI.wiring.idle
  note hI n := ⟨hI.wiring.note n, hI.cell?_eq, hI.display⟩
  setBusy hI busy hbusy :=
    ⟨⟨hI.wiring.capacity, hI.wiring.observer?_eq, hI.wiring.windows, hI.wiring.registry,
      hI.wiring.kind, hbusy⟩, hI.cell?_eq, hI.display⟩
  setDevice hI slot old new hslot hold hkind := by
    obtain ⟨d, hd, hdirty⟩ := hI.display
    refine ⟨hI.wiring.setDevice hold hkind, hI.cell?_eq, d, ?_, hdirty⟩
    rw [Bus.getElem?_setDevice, if_neg hslot]
    exact hd

/-- What is read and stored in the course of a run: first by its instructions, and then by the
interrupts that the devices ask for. -/
def events (n : Nat) (c : Computer) : List (Event Bus) :=
  Processor.events (Processor.exec n) c.board ++
    match Processor.exec n c.board with
    | .ok _ board => Bus.tickEvents c.now board.world.registry board
    | .error .. => []

/-- **A run that succeeds is accounted for**: what it leaves on the board is, before the screen
wires follow the display, and they change neither the bus nor a cell. -/
theorem exists_marking_of_run (h : c.Wired) (hsync : c.Synced) {n : Nat} {c' : Computer}
    (hrun : run n c = .ok () c') :
    ∃ board : Board, Marking c (board.mem, board.world) (events n c) ∧
      c'.board.world = board.world ∧ ∀ addr, c'.mem.cell? addr = board.mem.cell? addr := by
  obtain ⟨_, c₁, hexecuted, htick⟩ := exists_of_bind_ok hrun
  obtain ⟨board₁, hexec, rfl⟩ := exists_of_onBoard_ok hexecuted
  have hfirst := Processor.account_exec h.ledger.toAccount (p := c.board) (marking_nil h hsync) n
  rw [hexec] at hfirst
  change Marking c (board₁.mem, board₁.world) _ at hfirst
  change (onBoard (Bus.tick c.now) >>= fun _ => rewire) _ = _ at htick
  obtain ⟨_, c₂, hticked, hrewire⟩ := exists_of_bind_ok htick
  obtain ⟨board₂, htick, rfl⟩ := exists_of_onBoard_ok hticked
  have hlast := h.ledger.tick c.now hfirst
  rw [htick] at hlast
  obtain ⟨mem, hmoved, hcells, -⟩ := exists_rewire (h.of_sameWiring hlast.wiring)
  cases hrewire.symm.trans hmoved
  refine ⟨board₂, ?_, rfl, hcells⟩
  rw [events, hexec]
  exact hlast

/-! ## Operations that tell nobody of a store -/

/-- Whether an operation reads a cell, or changes cells without telling their wires. -/
def Operation.silent : Operation → Bool
  | loadAssembly _ | loadImage _ | read _ | load _ _ | clear => true
  | _ => false

/-- A wired computer with this display. -/
def Shows (d : Display) (c : Computer) : Prop := c.Wired ∧ c.display = d

theorem keeps_shows_onMemory {α : Type} {wrap : Memory.Error → Error}
    {access : Memory.Access Wire Bus α} (haccess : ∀ s, Keeps (SameWiring s) access)
    (hdisplay : ∀ d, Keeps (fun s : Memory Wire × Bus =>
      s.2.devices[displaySlot]? = some (.display d)) access) (d : Display) :
    Keeps (Shows d) (onMemory wrap access) := by
  refine keeps_iff.mpr fun c ⟨h, hshown⟩ => ?_
  obtain ⟨d', hd⟩ := h.display
  have hend := keeps_iff.mp (hdisplay d') (c.board.mem, c.board.world) hd
  have hsame : d' = d := (display_eq hd).symm.trans hshown
  rw [stateOf_onMemory]
  exact ⟨h.of_sameWiring (h.sameWiring_access haccess), (display_eq hend).trans hsame⟩

theorem keeps_display_load (addr : Nat) (words : List Word) (d : Display) :
    Keeps (fun s : Memory Wire × Bus => s.2.devices[displaySlot]? = some (.display d))
      (Memory.load addr words) := by
  refine keeps_iff.mpr fun ⟨mem, bus⟩ hd => ?_
  unfold Memory.load
  split
  · split
    · exact hd
    · exact hd
  · exact hd

theorem keeps_shows_load (addr : Nat) (words : List Word) (d : Display) :
    Keeps (Shows d) (onMemory .memory (Memory.load addr words)) :=
  keeps_shows_onMemory (fun _ => SameWiring.keeps_load addr words) (keeps_display_load addr words) d

theorem keeps_shows_rewire (d : Display) : Keeps (Shows d) rewire := by
  refine keeps_iff.mpr fun c ⟨h, hshown⟩ => ?_
  obtain ⟨mem, hmoved, -, hwired⟩ := exists_rewire h
  rw [hmoved]
  exact ⟨hwired, hshown⟩

theorem keeps_shows_loadImage (words : List Word) (d : Display) :
    Keeps (Shows d) (loadImage words) :=
  (keeps_shows_load 0 words d).bind fun _ =>
    (Keeps.modify fun _ h => ⟨h.1.of_sameWiring h.1.sameWiring, h.2⟩).bind fun _ =>
      keeps_shows_rewire d

theorem keeps_shows_loadAssembly (source : Text) (d : Display) :
    Keeps (Shows d) (loadAssembly source) := by
  unfold loadAssembly
  split
  · exact .throw _
  · exact (keeps_shows_loadImage _ _).bind fun _ => .pure _

/-- **A silent operation leaves the display alone.** -/
theorem Wired.display_after (h : c.Wired) {op : Operation} (hsilent : op.silent = true) :
    (op.after c).display = c.display := by
  suffices hkeeps : Keeps (Shows c.display) op.act from (keeps_iff.mp hkeeps c ⟨h, rfl⟩).2
  cases op with
  | loadAssembly source => exact (keeps_shows_loadAssembly source _).bind fun _ => .pure ()
  | loadImage words => exact keeps_shows_loadImage words _
  | read addr =>
    exact (keeps_shows_onMemory (fun _ => SameWiring.keeps_read addr)
      (fun d => keeps_display_read d addr) _).bind fun _ => .pure ()
  | load addr words => exact keeps_shows_load addr words _
  | clear =>
    exact .modify fun d h => ⟨h.1.of_sameWiring
      ⟨Memory.capacity_clear _, Memory.observer?_clear _, rfl, rfl, fun _ => rfl, h.1.idle⟩, h.2⟩
  | _ => cases hsilent

/-- **A single store makes the display dirty if it marks it**, and only then. -/
theorem Wired.dirty_after_write (h : c.Wired) (hsync : c.Synced) (addr value : Nat) :
    ((Operation.write addr value).after c).display.dirty = true ↔
      (addr < c.mem.capacity ∧ Marks c.board.world addr) ∨ c.display.dirty = true := by
  rw [Operation.after, Operation.act, onMemory_eq]
  by_cases hlt : addr < c.mem.capacity
  · rw [Memory.write_eq (m := c.board.mem) hlt]
    obtain ⟨d, hd, hdirty, -⟩ := ((marking_nil h hsync).write h (UInt16.ofNat value) hlt).display
    rw [marked_concat_write] at hdirty
    simp only [not_marked_nil, or_false] at hdirty
    simp only [hlt, true_and]
    rwa [display_eq hd]
  · rw [Memory.write_eq_error (m := c.board.mem) (Nat.le_of_not_lt hlt)]
    simp only [hlt, false_and, false_or]
    rfl

/-! ## Runs -/

/-- **When a run makes the display dirty.**  On a wired computer that watches the display's picture,
a run that succeeds leaves the display dirty if and only if it was so before or one of the stores of
the run, by an instruction or an interrupt, marks it; the cells are those that these stores leave.
Reads, loads and other stores never make it dirty. -/
theorem dirty_of_run (hwired : c.Wired) (hsync : c.Synced) :
    (∀ n c', run n c = .ok () c' →
      (c'.display.dirty = true ↔ Marked (events n c) ∨ c.display.dirty = true) ∧
        ∀ addr, c'.mem.cell? addr = (c.mem.replay (events n c)).cell? addr) ∧
      (∀ op : Operation, op.silent = true → (op.after c).display = c.display) ∧
      ∀ addr value, ((Operation.write addr value).after c).display.dirty = true ↔
        (addr < c.mem.capacity ∧ Marks c.board.world addr) ∨ c.display.dirty = true := by
  refine ⟨fun n c' hrun => ?_, fun op => hwired.display_after, hwired.dirty_after_write hsync⟩
  obtain ⟨board, hmarking, hworld, hcells⟩ := exists_marking_of_run hwired hsync hrun
  obtain ⟨d, hd, hdirty, -⟩ := hmarking.display
  rw [← hworld] at hd
  rw [display_eq hd]
  exact ⟨hdirty, fun addr => (hcells addr).trans (hmarking.cell?_eq addr)⟩

/-- The first instruction of `loaded` stores to a register of its display. -/
theorem dirty_of_run_loaded :
    loaded.Synced ∧ loaded.display.dirty = false ∧
      ∃ c', run 1 loaded = .ok () c' ∧ c'.display.dirty = true ∧ Marked (events 1 loaded) := by
  have hsync : loaded.Synced := by decide +kernel
  have hclean : loaded.display.dirty = false := by decide +kernel
  have hsucceeds : (Operation.run 1).succeeds loaded = true := by decide +kernel
  have hrun := Operation.act_of_succeeds hsucceeds
  have hdirty : ((Operation.run 1).after loaded).display.dirty = true := by decide +kernel
  have hwired : loaded.Wired := (furnished_of_reachable reachable_loaded).toWired
  refine ⟨hsync, hclean, _, hrun, hdirty, ?_⟩
  rcases (((dirty_of_run hwired hsync).1 1 _ hrun).1).mp hdirty with hmarked | hbefore
  · exact hmarked
  · rw [hclean] at hbefore
    cases hbefore

/-- The small computer with a program that sets the font, and the wire of the font register cut. -/
def unheard : Computer :=
  stateOf (onMemory .memory (Memory.unwatch 29) ((Operation.loadImage [0x9DE1, 29]).after small))

/-- **With a wire cut a store goes unheard**: it goes to a register of the display, and does not
make it dirty. -/
theorem not_dirty_of_run :
    ¬ ∀ (c : Computer) (n : Nat) (c' : Computer), c.Synced → run n c = .ok () c' →
      (c'.display.dirty = true ↔ Marked (events n c) ∨ c.display.dirty = true) := by
  intro h
  have hsync : unheard.Synced := by decide +kernel
  have hsucceeds : (Operation.run 1).succeeds unheard = true := by decide +kernel
  have hrun := Operation.act_of_succeeds hsucceeds
  have hclean : ((Operation.run 1).after unheard).display.dirty = false := by decide +kernel
  have hstore : (events 1 unheard).any (fun
      | .read .. => false
      | .write addr _ bus => bus.wire? addr = some (.register displaySlot 1)) = true := by
    decide +kernel
  obtain ⟨event, hmem, hevent⟩ := List.any_eq_true.mp hstore
  have hmarked : Marked (events 1 unheard) := by
    cases event with
    | read addr bus => cases hevent
    | write addr w bus =>
      exact ⟨addr, w, bus, hmem, .inl ⟨1, by decide, of_decide_eq_true hevent⟩⟩
  have hdirty := (h unheard 1 _ hsync hrun).mpr (.inl hmarked)
  rw [hclean] at hdirty
  cases hdirty

end Computer

end WordMachine
