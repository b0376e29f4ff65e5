import WordMachine.Proofs.Bus.Lockstep
import WordMachine.Proofs.Bus.Windows
import WordMachine.Proofs.Computer.Operation
import WordMachine.Proofs.Memory.Access

/-!
# Proofs/Computer/Wiring — the wires follow the windows and the picture

`Wired` is the invariant: every cell carries the wire of its register, else a screen wire if it
belongs to the watched picture, else none.  What a board does leaves all wires where they are
(`SameWiring`), so only `rewire` has to be looked at: it moves the screen wires to the display's
picture and puts the register wires back over them (`exists_rewire`).
-/

namespace WordMachine

open Bus (Board Congruence Uniform)

namespace Computer

/-! ## The wire an address is to carry -/

/-- The screen wire of an address, if a picture holds the address. -/
def screenWire? (picture : Option Span) (addr : Nat) : Option Wire :=
  if picture.any (·.contains addr) then some (.screen displaySlot) else none

/-- The wire an address is to carry: registers come before the watched picture. -/
def wire? (c : Computer) (addr : Nat) : Option Wire :=
  (c.board.world.wire? addr).or (screenWire? c.watched addr)

/-- Every cell carries the wire it is to carry, and the display is at its place. -/
structure Wired (c : Computer) : Prop where
  observer?_eq : ∀ addr < c.mem.capacity, c.mem.observer? addr = c.wire? addr
  inMemory : ∀ entry ∈ c.board.world.allWires, entry.1 < c.mem.capacity
  display : ∃ d, c.board.world.devices[displaySlot]? = some (.display d)
  idle : displaySlot ∉ c.board.world.busy

theorem display_eq {c : Computer} {d : Display}
    (h : c.board.world.devices[displaySlot]? = some (.display d)) : c.display = d := by
  rw [display, h]

/-- **Wired computers with the same bus, picture and cells have the same memory.** -/
theorem Wired.mem_eq {c c' : Computer} (h : c.Wired) (h' : c'.Wired)
    (hbus : c.board.world = c'.board.world) (hwatched : c.watched = c'.watched)
    (hcells : ∀ addr, c.mem.cell? addr = c'.mem.cell? addr) : c.mem = c'.mem := by
  have hcapacity : c.mem.capacity = c'.mem.capacity := Memory.capacity_congr hcells
  refine Memory.ext_cells hcells fun addr => ?_
  by_cases hlt : addr < c.mem.capacity
  · rw [h.observer?_eq addr hlt, h'.observer?_eq addr (hcapacity ▸ hlt), wire?, wire?, hbus,
      hwatched]
  · rw [Memory.observer?_eq_none_of_capacity_le (Nat.le_of_not_lt hlt),
      Memory.observer?_eq_none_of_capacity_le (hcapacity ▸ Nat.le_of_not_lt hlt)]

/-! ## What a board leaves alone -/

/-- The same wires at the same addresses, to devices of the same kinds. -/
structure SameWiring (s t : Memory Wire × Bus) : Prop where
  capacity : t.1.capacity = s.1.capacity
  observer?_eq : ∀ addr, t.1.observer? addr = s.1.observer? addr
  windows : t.2.windows = s.2.windows
  registry : t.2.registry = s.2.registry
  kind : ∀ slot : Slot, t.2.devices[slot]?.map Device.kind = s.2.devices[slot]?.map Device.kind
  idle : displaySlot ∉ t.2.busy

namespace SameWiring

variable {s : Memory Wire × Bus} {mem : Memory Wire} {bus : Bus}

theorem store (h : SameWiring s (mem, bus)) (addr : Nat) (w : Word) :
    SameWiring s (mem.store addr w, bus) :=
  ⟨(Memory.capacity_store _ _ _).trans h.capacity, h.observer?_eq, h.windows, h.registry, h.kind,
    h.idle⟩

theorem note (h : SameWiring s (mem, bus)) (n : Notice) : SameWiring s (mem, bus.note n) :=
  ⟨h.capacity, h.observer?_eq, h.windows, h.registry, h.kind, h.idle⟩

theorem setDevice (h : SameWiring s (mem, bus)) {slot : Slot} {old new : Device}
    (hold : bus.devices[slot]? = some old) (hkind : new.kind = old.kind) :
    SameWiring s (mem, bus.setDevice slot new) := by
  refine ⟨h.capacity, h.observer?_eq, h.windows, h.registry, fun place => ?_, h.idle⟩
  rw [← h.kind place, Bus.getElem?_setDevice]
  split
  · next heq =>
    subst heq
    simp [hold, hkind]
  · rfl

theorem onRead (h : SameWiring s (mem, bus)) (wire : Wire) :
    SameWiring s (mem, (wire.onRead bus).2) := by
  cases wire with
  | screen slot => exact h
  | register slot number =>
    simp only [Wire.onRead]
    split
    · exact h.note _
    · cases hdevice : bus.devices[slot]? with
      | none => exact h
      | some device => exact h.setDevice hdevice (Device.kind_read number device)

theorem onWrite (h : SameWiring s (mem, bus)) (wire : Wire) (w : Word) :
    SameWiring s (mem, wire.onWrite w bus) := by
  cases wire with
  | screen slot =>
    simp only [Wire.onWrite]
    split
    · next hdevice => exact h.setDevice hdevice rfl
    · exact h
  | register slot number =>
    simp only [Wire.onWrite]
    split
    · exact h.note _
    · cases hdevice : bus.devices[slot]? with
      | none => exact h
      | some device => exact h.setDevice hdevice (Device.kind_write number w device)

theorem asked (h : SameWiring s (mem, bus)) (addr : Nat) :
    SameWiring s (mem, (mem.asked addr bus).2) := by
  unfold Memory.asked
  cases mem.observer? addr with
  | none => exact h
  | some wire => exact h.onRead wire

theorem told (h : SameWiring s (mem, bus)) (addr : Nat) (w : Word) :
    SameWiring s (mem.store addr w, mem.told addr w bus) := by
  unfold Memory.told
  cases mem.observer? addr with
  | none => exact h.store addr w
  | some wire => exact (h.store addr w).onWrite wire w

theorem keeps_read (addr : Nat) :
    Keeps (SameWiring s) (Memory.read addr : Memory.Access Wire Bus Word) :=
  Memory.keeps_read_of fun _ _ _ h => h.asked addr

theorem keeps_write (addr value : Nat) :
    Keeps (SameWiring s) (Memory.write addr value : Memory.Access Wire Bus Unit) :=
  Memory.keeps_write_of fun _ _ _ h => h.told addr _

theorem keeps_load (addr : Nat) (words : List Word) :
    Keeps (SameWiring s) (Memory.load addr words : Memory.Access Wire Bus Unit) := by
  refine keeps_iff.mpr fun ⟨mem, bus⟩ h => ?_
  unfold Memory.load
  split
  · split
    · exact ⟨(Memory.capacity_storeAll _ _ _).trans h.capacity,
        fun place => (Memory.observer?_storeAll _ _ _ _).trans (h.observer?_eq place), h.windows,
        h.registry, h.kind, h.idle⟩
    · exact h
  · exact h

/-- The wiring is kept by whatever a board can do. -/
theorem congruence (hs : ∃ d, s.2.devices[displaySlot]? = some (.display d)) :
    Congruence displaySlot fun t u => t = u ∧ SameWiring s t where
  access := ⟨keeps_read, keeps_write⟩
  bus_eq := by rintro t _ ⟨rfl, -⟩; rfl
  display := by
    rintro t _ ⟨rfl, h⟩
    obtain ⟨d, hd⟩ := hs
    have hkind := h.kind displaySlot
    rw [hd] at hkind
    obtain ⟨device, hdevice, hdisplay⟩ := Option.map_eq_some_iff.mp hkind
    obtain ⟨d', rfl⟩ := Device.exists_display hdisplay
    exact ⟨d', hdevice⟩
  idle := by rintro t _ ⟨rfl, h⟩; exact h.idle
  note := by rintro t _ ⟨rfl, h⟩ n; exact ⟨rfl, h.note n⟩
  setBusy := by
    rintro t _ ⟨rfl, h⟩ busy hbusy
    exact ⟨rfl, h.capacity, h.observer?_eq, h.windows, h.registry, h.kind, hbusy⟩
  setDevice := by
    rintro t _ ⟨rfl, h⟩ slot old new - hold hkind
    exact ⟨rfl, h.setDevice hold hkind⟩

end SameWiring

/-! ## Rewiring -/

theorem capacity_setObservers {ω : Type} (mem : Memory ω) (start stop : Nat) (o : Option ω) :
    (mem.setObservers start stop o).capacity = mem.capacity :=
  Memory.capacity_congr fun addr => Memory.cell?_setObservers mem start stop addr o

@[simp] theorem cell?_moveScreen (before after : Option Span) (mem : Memory Wire) (addr : Nat) :
    (moveScreen before after mem).cell? addr = mem.cell? addr := by
  cases before <;> cases after <;> simp [moveScreen]

@[simp] theorem capacity_moveScreen (before after : Option Span) (mem : Memory Wire) :
    (moveScreen before after mem).capacity = mem.capacity :=
  Memory.capacity_congr fun addr => cell?_moveScreen before after mem addr

/-- Addresses of the new picture get a screen wire, and those of the old one alone lose theirs. -/
theorem observer?_moveScreen (before after : Option Span) (mem : Memory Wire) {addr : Nat}
    (haddr : addr < mem.capacity) :
    (moveScreen before after mem).observer? addr =
      (screenWire? after addr).or
        (if before.any (·.contains addr) then none else mem.observer? addr) := by
  cases before <;> cases after <;>
    simp only [moveScreen, screenWire?, Memory.observer?_setObservers, capacity_setObservers, haddr,
      Option.any_none, Option.any_some, Span.contains, Bool.and_eq_true, decide_eq_true_eq,
      and_true, Bool.false_eq_true, if_false, Option.none_or]
  · split <;> rfl
  · split <;> rfl

/-- With the screen moved to a picture and the registers attached again, an address carries its
register's wire or else the picture's. -/
theorem Wired.observer?_attached {c : Computer} (h : c.Wired) (picture : Option Span) {addr : Nat}
    (haddr : addr < c.mem.capacity) :
    (Bus.attached (moveScreen c.watched picture c.mem) c.board.world.allWires).observer? addr =
      (c.board.world.wire? addr).or (screenWire? picture addr) := by
  have hmoved : addr < (moveScreen c.watched picture c.mem).capacity := by simpa using haddr
  have hwire : Bus.lastWire? addr c.board.world.allWires = c.board.world.wire? addr := rfl
  rw [Bus.observer?_attached _ _ hmoved, observer?_moveScreen _ _ _ haddr,
    h.observer?_eq addr haddr, wire?, hwire]
  cases c.board.world.wire? addr with
  | some wire => rfl
  | none =>
    by_cases hbefore : c.watched.any (·.contains addr)
    · simp [hbefore]
    · simp [screenWire?, hbefore]

/-- The computer with another memory, watching the display's picture. -/
def rewired (c : Computer) (mem : Memory Wire) : Computer :=
  { c with board := { c.board with mem }, watched := c.display.window? }

/-- **Rewiring succeeds**, and then the wires are right for the display's picture.  No cell has
changed. -/
theorem exists_rewire {c : Computer} (h : c.Wired) :
    ∃ mem, rewire c = .ok () (c.rewired mem) ∧ (∀ addr, mem.cell? addr = c.mem.cell? addr) ∧
      (c.rewired mem).Wired := by
  by_cases hwindow : c.display.window? = c.watched
  · have hself : c.rewired c.mem = c := by rw [rewired, hwindow]; rfl
    refine ⟨c.mem, ?_, fun _ => rfl, hself.symm ▸ h⟩
    rw [rewire, if_pos hwindow, hself]
  · have hcapacity : (moveScreen c.watched c.display.window? c.mem).capacity = c.mem.capacity :=
      capacity_moveScreen _ _ _
    have hattach : Bus.attach (moveScreen c.watched c.display.window? c.mem, c.board.world) =
        .ok () (Bus.attached (moveScreen c.watched c.display.window? c.mem) c.board.world.allWires,
          c.board.world) :=
      Bus.attach_eq fun entry hentry => hcapacity.symm ▸ h.inMemory entry hentry
    have hcells : ∀ addr, (Bus.attached (moveScreen c.watched c.display.window? c.mem)
        c.board.world.allWires).cell? addr = c.mem.cell? addr := fun addr => by simp
    have hcapacity' := Memory.capacity_congr hcells
    refine ⟨_, ?_, hcells, ⟨fun addr haddr => ?_, fun entry hentry => ?_, h.display, h.idle⟩⟩
    · rw [rewire_eq, if_neg hwindow, onMemory_eq]
      simp only [hattach]
      rfl
    · exact h.observer?_attached c.display.window? (lt_of_lt_of_eq haddr hcapacity')
    · exact lt_of_lt_of_eq (h.inMemory entry hentry) hcapacity'.symm

/-! ## What a board keeps -/

theorem Wired.of_sameWiring {c : Computer} (h : c.Wired) {board : Board}
    (hsame : SameWiring (c.board.mem, c.board.world) (board.mem, board.world)) :
    ({ c with board } : Computer).Wired := by
  have hwires : board.world.allWires = c.board.world.allWires :=
    Bus.allWires_congr hsame.windows hsame.registry
  refine ⟨fun addr haddr => ?_, fun entry hentry => ?_, ?_, hsame.idle⟩
  · have hwire : board.world.wire? addr = c.board.world.wire? addr := by
      rw [Bus.wire?, hwires, Bus.wire?]
    refine (hsame.observer?_eq addr).trans ((h.observer?_eq addr ?_).trans ?_)
    · exact lt_of_lt_of_eq haddr hsame.capacity
    · rw [wire?, wire?, hwire]
  · change entry ∈ board.world.allWires at hentry
    rw [hwires] at hentry
    exact lt_of_lt_of_eq (h.inMemory entry hentry) hsame.capacity.symm
  · exact (SameWiring.congruence h.display).display ⟨rfl, hsame⟩

theorem Wired.sameWiring {c : Computer} (h : c.Wired) :
    SameWiring (c.board.mem, c.board.world) (c.board.mem, c.board.world) :=
  ⟨rfl, fun _ => rfl, rfl, rfl, fun _ => rfl, h.idle⟩

/-- **What a board can do leaves the wiring as it is.** -/
theorem Wired.sameWiring_act {c : Computer} (h : c.Wired) {α : Type} {act : Board.Action α}
    (hact : Uniform displaySlot act) :
    SameWiring (c.board.mem, c.board.world)
      ((stateOf (act c.board)).mem, (stateOf (act c.board)).world) := by
  have hkeeps : Keeps (fun p : Board => SameWiring (c.board.mem, c.board.world) (p.mem, p.world))
      act := Processor.keeps_of_lockstep (hact (SameWiring.congruence h.display))
  exact keeps_iff.mp hkeeps c.board h.sameWiring

/-- …and so does an access to the memory. -/
theorem Wired.sameWiring_access {c : Computer} (h : c.Wired) {α : Type}
    {access : Memory.Access Wire Bus α} (haccess : ∀ s, Keeps (SameWiring s) access) :
    SameWiring (c.board.mem, c.board.world) (stateOf (access (c.board.mem, c.board.world))) :=
  keeps_iff.mp (haccess (c.board.mem, c.board.world)) _ h.sameWiring

end Computer

end WordMachine
