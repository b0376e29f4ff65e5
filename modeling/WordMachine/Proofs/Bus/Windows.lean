import WordMachine.Bus.Wiring
import WordMachine.Memory.Lemmas
import Mathlib.Data.List.Pairwise

/-!
# Proofs/Bus/Windows — which wire an address gets

`map` keeps the windows of a bus apart (`apart_map`), so an address lies in one window at most, and
`wire?`, the wire that `attach` leaves at an address, is the one of that window (`wire?_of_holds`)
or none (`wire?_eq_none`).  `attach_eq` and `forall_lt_of_attach`: attaching succeeds exactly when
every window lies within the memory, and then changes no cell and no other observer.
-/

namespace WordMachine

namespace Window

/-- The window holds a cell's address. -/
def Holds (w : Window) (addr : Nat) : Prop := w.base.toNat ≤ addr ∧ addr < w.stop

instance (w : Window) (addr : Nat) : Decidable (w.Holds addr) := instDecidableAnd

/-- Neither window reaches into the other. -/
def Apart (w v : Window) : Prop := w.overlaps v = false

instance : Std.Symm Apart := ⟨fun w v h => by
  simpa only [Apart, overlaps, Bool.and_comm] using h⟩

theorem apart_iff_stop_le {w v : Window} :
    w.Apart v ↔ v.stop ≤ w.base.toNat ∨ w.stop ≤ v.base.toNat := by
  simp only [Apart, overlaps, Bool.and_eq_false_iff, decide_eq_false_iff_not, Nat.not_lt]

/-- **Windows that are apart hold no address in common**… -/
theorem Apart.not_holds {w v : Window} (h : w.Apart v) {addr : Nat} (hw : w.Holds addr) :
    ¬ v.Holds addr := by
  rintro ⟨hbase, hstop⟩
  obtain ⟨hbase', hstop'⟩ := hw
  rw [apart_iff_stop_le] at h
  omega

/-- …and windows that hold some are apart if they hold none in common. -/
theorem apart_of_not_holds {w v : Window} (hw : 0 < w.length.toNat) (hv : 0 < v.length.toNat)
    (h : ∀ addr, w.Holds addr → ¬ v.Holds addr) : w.Apart v := by
  -- Windows that overlap both hold the later of their bases.
  have hlater := h (max w.base.toNat v.base.toNat)
  rw [apart_iff_stop_le]
  simp only [Holds, stop] at hlater ⊢
  omega

end Window

namespace Bus

/-! ## Mapping keeps windows apart -/

/-- No two windows of the bus have an address in common. -/
def WindowsApart (bus : Bus) : Prop := bus.windows.Pairwise Window.Apart

/-- **What a successful `map` does**: the device's window is now the last one, within the addresses
there are and apart from all others. -/
theorem map_eq_ok {bus bus' : Bus} {id : UInt32} {base : Word} {w : Window}
    (h : bus.map id base = .ok (w, bus')) :
    ∃ d, bus.device? id = some d ∧ w = ⟨id, base, d.registerCount⟩ ∧ w.stop ≤ Word.count ∧
      (∀ v ∈ bus.windows, v.hardwareId ≠ id → v.Apart w) ∧
      bus' = { bus with windows := bus.windows.filter (·.hardwareId != id) ++ [w] } := by
  unfold map at h
  cases hd : bus.device? id with
  | none => simp [hd] at h
  | some d =>
    simp only [hd] at h
    split at h
    · cases h
    · next hstop =>
      split at h
      · cases h
      · next hfind =>
        cases h
        refine ⟨d, rfl, rfl, Nat.le_of_not_lt hstop, fun v hv hid => ?_, rfl⟩
        have hv' : v ∈ bus.windows.filter (·.hardwareId != id) := by simp [hv, hid]
        simpa [Window.Apart] using List.find?_eq_none.mp hfind v hv'

/-- **Mapping a device keeps the windows apart.** -/
theorem apart_map {bus bus' : Bus} {id : UInt32} {base : Word} {w : Window}
    (hbus : bus.WindowsApart) (h : bus.map id base = .ok (w, bus')) : bus'.WindowsApart := by
  obtain ⟨d, -, -, -, hapart, rfl⟩ := map_eq_ok h
  refine List.pairwise_append.mpr ⟨hbus.filter _, List.pairwise_singleton _ _, ?_⟩
  intro v hv u hu
  obtain rfl := List.mem_singleton.mp hu
  obtain ⟨hmem, hid⟩ := List.mem_filter.mp hv
  exact hapart v hmem (by simpa using hid)

/-! ## The wire of an address -/

/-- The wire that stands last in a list for an address. -/
def lastWire? (addr : Nat) : List (Nat × Wire) → Option Wire
  | [] => none
  | entry :: rest => (lastWire? addr rest).or (if entry.1 = addr then some entry.2 else none)

theorem lastWire?_eq_none {addr : Nat} :
    ∀ {wires : List (Nat × Wire)}, (∀ wire, (addr, wire) ∉ wires) → lastWire? addr wires = none
  | [], _ => rfl
  | (place, wire) :: rest, h => by
    have hplace : place ≠ addr := fun heq => h wire (by simp [heq])
    have hrest : lastWire? addr rest = none :=
      lastWire?_eq_none fun v hv => h v (List.mem_cons_of_mem _ hv)
    simp [lastWire?, hrest, hplace]

/-- If a list has one wire for an address, that wire stands last. -/
theorem lastWire?_eq_some {addr : Nat} {wire : Wire} :
    ∀ {wires : List (Nat × Wire)}, (addr, wire) ∈ wires → (∀ v, (addr, v) ∈ wires → v = wire) →
      lastWire? addr wires = some wire
  | (place, first) :: rest, hmem, huniq => by
    have huniq' : ∀ v, (addr, v) ∈ rest → v = wire := fun v hv =>
      huniq v (List.mem_cons_of_mem _ hv)
    by_cases hrest : (addr, wire) ∈ rest
    · simp [lastWire?, lastWire?_eq_some hrest huniq']
    · have hnone : lastWire? addr rest = none :=
        lastWire?_eq_none fun v hv => hrest (huniq' v hv ▸ hv)
      obtain ⟨rfl, rfl⟩ := Prod.mk.inj ((List.mem_cons.mp hmem).resolve_right hrest)
      simp [lastWire?, hnone]

/-- The wire that stands last for an address is one of the list. -/
theorem mem_of_lastWire? {addr : Nat} {wire : Wire} :
    ∀ {wires : List (Nat × Wire)}, lastWire? addr wires = some wire → (addr, wire) ∈ wires
  | (place, first) :: rest, h => by
    rcases Option.or_eq_some_iff.mp h with hrest | ⟨-, hfirst⟩
    · exact List.mem_cons_of_mem _ (mem_of_lastWire? hrest)
    · split at hfirst
      · next heq =>
        cases hfirst
        exact heq ▸ List.mem_cons_self
      · cases hfirst

/-- The wire that `attach` leaves at an address. -/
def wire? (bus : Bus) (addr : Nat) : Option Wire := lastWire? addr bus.allWires

theorem mem_registerWires {w : Window} {slot : Slot} {addr : Nat} {wire : Wire} :
    (addr, wire) ∈ registerWires w slot ↔
      w.Holds addr ∧ wire = .register slot (UInt16.ofNat (addr - w.base.toNat)) := by
  simp only [registerWires, List.mem_map, List.mem_range, Prod.mk.injEq, Window.Holds, Window.stop]
  constructor
  · rintro ⟨number, hlt, rfl, rfl⟩
    refine ⟨by omega, ?_⟩
    rw [Nat.add_sub_cancel_left]
  · rintro ⟨⟨hbase, hstop⟩, rfl⟩
    exact ⟨addr - w.base.toNat, by omega, by omega, rfl⟩

theorem mem_allWires {bus : Bus} {addr : Nat} {wire : Wire} :
    (addr, wire) ∈ bus.allWires ↔
      ∃ w ∈ bus.windows, ∃ slot, bus.slot? w.hardwareId = some slot ∧ w.Holds addr ∧
        wire = .register slot (UInt16.ofNat (addr - w.base.toNat)) := by
  simp only [allWires, List.mem_flatMap]
  refine exists_congr fun w => and_congr_right fun _ => ?_
  cases hslot : bus.slot? w.hardwareId with
  | none => simp
  | some slot => simp [mem_registerWires]

/-- **An address in a window gets the wire of that window's device**, to the register as far from
the window's base as the address is. -/
theorem wire?_of_holds {bus : Bus} (hbus : bus.WindowsApart) {w : Window} (hw : w ∈ bus.windows)
    {slot : Slot} (hslot : bus.slot? w.hardwareId = some slot) {addr : Nat} (haddr : w.Holds addr) :
    bus.wire? addr = some (.register slot (UInt16.ofNat (addr - w.base.toNat))) := by
  refine lastWire?_eq_some (mem_allWires.mpr ⟨w, hw, slot, hslot, haddr, rfl⟩) ?_
  intro wire hwire
  obtain ⟨v, hv, slot', hslot', hholds, rfl⟩ := mem_allWires.mp hwire
  have heq : w = v := by
    by_contra hne
    exact (hbus.forall hw hv hne).not_holds haddr hholds
  subst heq
  rw [hslot, Option.some.injEq] at hslot'
  rw [hslot']

/-- An address in no window gets no wire. -/
theorem wire?_eq_none {bus : Bus} {addr : Nat} (h : ∀ w ∈ bus.windows, ¬ w.Holds addr) :
    bus.wire? addr = none := by
  refine lastWire?_eq_none fun wire hwire => ?_
  obtain ⟨w, hw, -, -, hholds, -⟩ := mem_allWires.mp hwire
  exact h w hw hholds

/-- What is attached leads to a register. -/
theorem exists_register_of_wire? {bus : Bus} {addr : Nat} {wire : Wire}
    (h : bus.wire? addr = some wire) : ∃ slot number, wire = .register slot number := by
  obtain ⟨w, -, slot, -, -, heq⟩ := mem_allWires.mp (mem_of_lastWire? h)
  exact ⟨slot, _, heq⟩

/-- The wires depend on windows and registry alone. -/
theorem allWires_congr {bus bus' : Bus} (hw : bus'.windows = bus.windows)
    (hr : bus'.registry = bus.registry) : bus'.allWires = bus.allWires := by
  simp only [allWires, slot?, hw, hr]

/-! ## Attaching -/

/-- Put each wire of a list at its address, one after the other. -/
def attached (mem : Memory Wire) (wires : List (Nat × Wire)) : Memory Wire :=
  wires.foldl (fun mem entry => mem.setObserver entry.1 (some entry.2)) mem

@[simp] theorem capacity_attached (wires : List (Nat × Wire)) (mem : Memory Wire) :
    (attached mem wires).capacity = mem.capacity := by
  induction wires generalizing mem with
  | nil => rfl
  | cons entry rest ih => exact (ih _).trans (Memory.capacity_setObserver _ _ _)

@[simp] theorem cell?_attached (wires : List (Nat × Wire)) (mem : Memory Wire) (addr : Nat) :
    (attached mem wires).cell? addr = mem.cell? addr := by
  induction wires generalizing mem with
  | nil => rfl
  | cons entry rest ih => exact (ih _).trans (Memory.cell?_setObserver _ _ _ _)

/-- **The wire that stands last for an address is the one it gets**; without one, the address keeps
its observer. -/
theorem observer?_attached (wires : List (Nat × Wire)) (mem : Memory Wire) {addr : Nat}
    (haddr : addr < mem.capacity) :
    (attached mem wires).observer? addr = (lastWire? addr wires).or (mem.observer? addr) := by
  induction wires generalizing mem with
  | nil => rfl
  | cons entry rest ih =>
    change (attached (mem.setObserver entry.1 (some entry.2)) rest).observer? addr = _
    rw [ih (mem.setObserver entry.1 (some entry.2)) haddr, Memory.observer?_setObserver, lastWire?,
      Option.or_assoc]
    congr 1
    by_cases h : entry.1 = addr <;> simp [h, haddr]

theorem watch_eq (mem : Memory Wire) (bus : Bus) {addr : Nat} (wire : Wire)
    (h : addr < mem.capacity) :
    Memory.watch addr wire (mem, bus) = .ok () (mem.setObserver addr (some wire), bus) := by
  simp [Memory.watch, Memory.within, h]

private theorem watchAll_eq (wires : List (Nat × Wire)) (mem : Memory Wire) (bus : Bus)
    (h : ∀ entry ∈ wires, entry.1 < mem.capacity) :
    (wires.forM fun (addr, wire) => Memory.watch addr wire) (mem, bus) =
      .ok () (attached mem wires, bus) := by
  induction wires generalizing mem with
  | nil => rfl
  | cons entry rest ih =>
    change EStateM.bind (Memory.watch entry.1 entry.2) _ (mem, bus) = _
    unfold EStateM.bind
    rw [watch_eq mem bus entry.2 (h entry List.mem_cons_self)]
    exact ih _ fun e he => h e (List.mem_cons_of_mem _ he)

private theorem forall_lt_of_watchAll (wires : List (Nat × Wire)) (mem : Memory Wire) (bus : Bus)
    {s : Memory Wire × Bus}
    (h : (wires.forM fun (addr, wire) => Memory.watch addr wire) (mem, bus) = .ok () s) :
    ∀ entry ∈ wires, entry.1 < mem.capacity := by
  induction wires generalizing mem with
  | nil => simp
  | cons entry rest ih =>
    by_cases hlt : entry.1 < mem.capacity
    · change EStateM.bind (Memory.watch entry.1 entry.2) _ (mem, bus) = _ at h
      unfold EStateM.bind at h
      rw [watch_eq mem bus entry.2 hlt] at h
      intro e he
      rcases List.mem_cons.mp he with rfl | hrest
      · exact hlt
      · exact ih _ h e hrest
    · change EStateM.bind (Memory.watch entry.1 entry.2) _ (mem, bus) = _ at h
      simp [EStateM.bind, Memory.watch, Memory.within, hlt] at h

/-- Attaching succeeds when every window lies within the memory. -/
theorem attach_eq {mem : Memory Wire} {bus : Bus}
    (h : ∀ entry ∈ bus.allWires, entry.1 < mem.capacity) :
    attach (mem, bus) = .ok () (attached mem bus.allWires, bus) :=
  watchAll_eq bus.allWires mem bus h

/-- …and only then. -/
theorem forall_lt_of_attach {mem : Memory Wire} {bus : Bus} {s : Memory Wire × Bus}
    (h : attach (mem, bus) = .ok () s) : ∀ entry ∈ bus.allWires, entry.1 < mem.capacity :=
  forall_lt_of_watchAll bus.allWires mem bus h

end Bus

end WordMachine
