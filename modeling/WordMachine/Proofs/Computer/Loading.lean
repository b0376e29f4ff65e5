import WordMachine.Proofs.Computer.Sync

/-!
# Proofs/Computer/Loading — words are loaded whole or not at all

Words are loaded in three parts: they are stored, the processor is reset and the wires are moved.
Only the first can fail, and it looks at the number of words before it stores any: a memory always
has a cell at address 0 (`Furnished.capacity_pos`), and the wires of a reachable computer can always
be moved.  So a computer that refuses words is as it was, and one that takes them is `Reloaded`.

Main statement: `loads_of_reachable`.
-/

namespace WordMachine

namespace Memory

variable {ω σ : Type} {mem : Memory ω} {words : List Word}

/-- Words that fit are stored… -/
theorem load_zero_of_le (hpos : 0 < mem.capacity) (h : words.length ≤ mem.capacity) (world : σ) :
    load 0 words (mem, world) = .ok () (mem.storeAll 0 words, world) :=
  (if_pos hpos).trans (if_pos h)

/-- …and of others not even the first. -/
theorem load_zero_of_lt (h : mem.capacity < words.length) (hpos : 0 < mem.capacity) (world : σ) :
    load 0 words (mem, world) = .error (.programTooLarge words.length mem.capacity) (mem, world) :=
  (if_pos hpos).trans (if_neg (Nat.not_le.mpr h))

end Memory

namespace Computer

variable {c c' : Computer} {words : List Word}

/-- What loading words makes of a computer.  The bus is the one it was, so no device has been told
of anything and no picture is newer than it was. -/
structure Reloaded (c : Computer) (words : List Word) (c' : Computer) : Prop where
  cell?_eq : ∀ addr, c'.mem.cell? addr =
    if addr < words.length then words[addr]? else c.mem.cell? addr
  regs : c'.regs = .initial
  cycles : c'.cycles = 0
  last : c'.board.last = none
  bus : c'.board.world = c.board.world
  config : c'.config = c.config
  now : c'.now = c.now
  watched : c'.watched = c.display.window?
  /-- The wires are those of the registers and of the picture that the display shows. -/
  observer?_eq : ∀ addr < c'.mem.capacity, c'.mem.observer? addr =
    (c.board.world.wire? addr).or (screenWire? c.display.window? addr)

/-- The clock's first register has a cell, so there is one at address 0. -/
theorem Furnished.capacity_pos (h : c.Furnished) : 0 < c.mem.capacity := by
  have hclock : ⟨Clock.hardwareId, c.config.clockBase, Clock.registerCount⟩ ∈
      deviceWindows c.config := List.mem_cons_self
  have hfirst := h.lt_of_holds (h.windows ▸ hclock)
    ⟨Nat.le_refl _, Nat.lt_add_of_pos_right (length_pos_of_mem_deviceWindows hclock)⟩
  exact Nat.zero_lt_of_lt hfirst

/-- **Too many words are refused**, and the computer is as it was… -/
theorem Furnished.loadImage_of_lt (h : c.Furnished) (hlarge : c.mem.capacity < words.length) :
    loadImage words c = .error (.memory (.programTooLarge words.length c.mem.capacity)) c := by
  have hrefused : onMemory .memory (Memory.load 0 words) c =
      .error (.memory (.programTooLarge words.length c.mem.capacity)) c := by
    have hload := Memory.load_zero_of_lt hlarge h.capacity_pos c.board.world
    simp only [onMemory_eq, show c.board.mem = c.mem from rfl, hload]
    rfl
  rw [loadImage, bind_of_error hrefused]

/-- …and all others are taken. -/
theorem Furnished.exists_loadImage (h : c.Furnished) (hfits : words.length ≤ c.mem.capacity) :
    ∃ c', loadImage words c = .ok () c' ∧ Reloaded c words c' := by
  let filled : Computer :=
    { c with board := { c.board with mem := c.mem.storeAll 0 words } }
  have hfilled : onMemory .memory (Memory.load 0 words) c = .ok () filled := by
    have hload := Memory.load_zero_of_le h.capacity_pos hfits c.board.world
    simp only [onMemory_eq, show c.board.mem = c.mem from rfl, hload]
    rfl
  have hfurnished : filled.reset.Furnished :=
    ((keeps_onMemory fun _ => SameWiring.keeps_load 0 words).of_ok h hfilled).reset
  obtain ⟨mem, hrewire, hcells, hwired⟩ := exists_rewire hfurnished.toWired
  refine ⟨filled.reset.rewired mem, ?_, ?_⟩
  · rw [loadImage, bind_of_ok hfilled]
    exact hrewire
  · refine ⟨fun addr => ?_, rfl, rfl, rfl, rfl, rfl, rfl, rfl, hwired.observer?_eq⟩
    refine (hcells addr).trans ((Memory.cell?_storeAll c.mem 0 addr words).trans ?_)
    have hin : 0 ≤ addr ∧ addr < 0 + words.length ∧ addr < c.mem.capacity ↔
        addr < words.length := by omega
    simp only [hin, Nat.sub_zero]

/-- **A computer takes a program whole or not at all.**  It refuses words if and only if they are
more than its cells, and a source text also if that is no program; then it is as it was.  Otherwise
its first cells are the words, all other cells are as they were, the processor is as at the start,
no device has been told, and the wires are those of the registers and of the display's picture. -/
theorem loads_of_reachable (h : Reachable c) :
    (∀ words,
      (c.mem.capacity < words.length →
        loadImage words c = .error (.memory (.programTooLarge words.length c.mem.capacity)) c) ∧
      (words.length ≤ c.mem.capacity →
        ∃ c', loadImage words c = .ok () c' ∧ Reloaded c words c')) ∧
    ∀ source,
      (∀ e, Assembly.assemble? source = .error e →
        loadAssembly source c = .error (.assembly e) c) ∧
      ∀ program, Assembly.assemble? source = .ok program →
        (c.mem.capacity < program.words.length →
          loadAssembly source c =
            .error (.memory (.programTooLarge program.words.length c.mem.capacity)) c) ∧
        (program.words.length ≤ c.mem.capacity →
          ∃ c', loadAssembly source c = .ok program.words.length c' ∧
            Reloaded c program.words c') := by
  have hc := furnished_of_reachable h
  refine ⟨fun words => ⟨hc.loadImage_of_lt, hc.exists_loadImage⟩, fun source => ⟨?refused, ?taken⟩⟩
  case refused =>
    intro e hsource
    simp only [loadAssembly, hsource]
    rfl
  case taken =>
    intro program hsource
    simp only [loadAssembly, hsource]
    refine ⟨fun hlarge => bind_of_error (hc.loadImage_of_lt hlarge), fun hfits => ?_⟩
    obtain ⟨c', hload, hreloaded⟩ := hc.exists_loadImage hfits
    exact ⟨c', bind_of_ok hload, hreloaded⟩

/-- Thirty-two words go over all registers and the picture, and one more is too many. -/
theorem loads_of_reachable_covered :
    (∃ c', loadImage (List.replicate 32 7) covered = .ok () c' ∧ c'.mem.cell? 28 = some 7 ∧
        c'.display = covered.display ∧ c'.mem.observer? 21 = some (.register clockSlot 1)) ∧
      loadImage (List.replicate 33 7) covered =
        .error (.memory (.programTooLarge 33 32)) covered := by
  have hcapacity : covered.mem.capacity = 32 := by decide +kernel
  obtain ⟨himage, -⟩ := loads_of_reachable reachable_covered
  have hlarge := (himage (List.replicate 33 7)).1 (by rw [hcapacity]; decide)
  rw [hcapacity] at hlarge
  refine ⟨?_, hlarge⟩
  obtain ⟨c', hload, hreloaded⟩ := (himage (List.replicate 32 7)).2 (by rw [hcapacity]; decide)
  have hdisplay : c'.display = covered.display := by
    rw [display, hreloaded.bus]
    rfl
  have hcell : c'.mem.cell? 28 = some 7 := (hreloaded.cell?_eq 28).trans (if_pos (by decide))
  have hin : 28 < c'.mem.capacity := by
    by_contra hout
    rw [Memory.cell?_eq_none_iff.mpr (Nat.le_of_not_lt hout)] at hcell
    cases hcell
  refine ⟨c', hload, hcell, hdisplay, ?_⟩
  rw [hreloaded.observer?_eq 21 (by omega)]
  decide +kernel

end Computer

end WordMachine
