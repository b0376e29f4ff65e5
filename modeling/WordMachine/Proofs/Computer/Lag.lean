import WordMachine.Proofs.Computer.Wiring

/-!
# Proofs/Computer/Lag — screen wires that are behind the display

While a computer runs, the display may be pointed elsewhere and the screen wires do not follow until
the run is over.  It makes no difference: the picture can only have moved through a write to a
register of the display, which has made the display dirty, and a screen wire has nothing to tell to
a dirty display.

`Lag` relates two memories that differ in their screen wires alone.  Main statement:
`Lag.congruence`.
-/

namespace WordMachine

open Bus (Congruence)

/-- A write to a display changes nothing or makes it dirty. -/
theorem Display.write_eq_or_dirty (d : Display) (register w : Word) :
    d.write register w = d ∨ (d.write register w).dirty = true := by
  unfold Display.write
  split
  · exact .inr rfl
  · split
    · exact .inr rfl
    · split
      · exact .inr rfl
      · split
        · exact .inr rfl
        · exact .inl rfl

namespace Computer

/-! ## What a board can make of the display -/

/-- The display is not busy, and it is as it was or dirty. -/
structure Onward (bus bus' : Bus) : Prop where
  idle : displaySlot ∉ bus'.busy
  display : ∀ {d}, bus.devices[displaySlot]? = some (.display d) →
    ∃ d', bus'.devices[displaySlot]? = some (.display d') ∧ (d' = d ∨ d'.dirty = true)

namespace Onward

variable {bus : Bus}

protected theorem refl (h : displaySlot ∉ bus.busy) : Onward bus bus :=
  ⟨h, fun hd => ⟨_, hd, .inl rfl⟩⟩

theorem setDevice_of_ne (h : displaySlot ∉ bus.busy) {slot : Slot} (hslot : slot ≠ displaySlot)
    (new : Device) : Onward bus (bus.setDevice slot new) := by
  refine ⟨h, fun {d} hd => ⟨d, ?_, .inl rfl⟩⟩
  rw [Bus.getElem?_setDevice, if_neg hslot]
  exact hd

theorem setDisplay (h : displaySlot ∉ bus.busy) {old new : Display}
    (hold : bus.devices[displaySlot]? = some (.display old)) (hnew : new = old ∨ new.dirty = true) :
    Onward bus (bus.setDevice displaySlot (.display new)) := by
  refine ⟨h, fun {d} hd => ⟨new, ?_, ?_⟩⟩
  · rw [Bus.getElem?_setDevice, if_pos rfl, hold]
    rfl
  · rw [hold] at hd
    cases hd
    exact hnew

theorem onRead (h : displaySlot ∉ bus.busy) (wire : Wire) : Onward bus (wire.onRead bus).2 := by
  cases wire with
  | screen slot => exact .refl h
  | register slot number =>
    simp only [Wire.onRead]
    split
    · exact ⟨h, fun hd => ⟨_, hd, .inl rfl⟩⟩
    · cases hdevice : bus.devices[slot]? with
      | none => exact .refl h
      | some device =>
        by_cases hslot : slot = displaySlot
        · subst hslot
          cases device with
          | display d => exact setDisplay h hdevice (.inl rfl)
          | _ => exact ⟨h, fun hd => by rw [hdevice] at hd; cases hd⟩
        · exact setDevice_of_ne h hslot _

theorem onWrite (h : displaySlot ∉ bus.busy) (wire : Wire) (w : Word) :
    Onward bus (wire.onWrite w bus) := by
  cases wire with
  | screen slot =>
    simp only [Wire.onWrite]
    split
    · next _ hdevice =>
      by_cases hslot : slot = displaySlot
      · subst hslot
        exact setDisplay h hdevice (.inr rfl)
      · exact setDevice_of_ne h hslot _
    · exact .refl h
  | register slot number =>
    simp only [Wire.onWrite]
    split
    · exact ⟨h, fun hd => ⟨_, hd, .inl rfl⟩⟩
    · cases hdevice : bus.devices[slot]? with
      | none => exact .refl h
      | some device =>
        by_cases hslot : slot = displaySlot
        · subst hslot
          cases device with
          | display d => exact setDisplay h hdevice (d.write_eq_or_dirty number w)
          | _ => exact ⟨h, fun hd => by rw [hdevice] at hd; cases hd⟩
        · exact setDevice_of_ne h hslot _

theorem asked (h : displaySlot ∉ bus.busy) (mem : Memory Wire) (addr : Nat) :
    Onward bus (mem.asked addr bus).2 := by
  unfold Memory.asked
  cases mem.observer? addr with
  | none => exact .refl h
  | some wire => exact onRead h wire

theorem told (h : displaySlot ∉ bus.busy) (mem : Memory Wire) (addr : Nat) (w : Word) :
    Onward bus (mem.told addr w bus) := by
  unfold Memory.told
  cases mem.observer? addr with
  | none => exact .refl h
  | some wire => exact onWrite h wire w

end Onward

/-! ## A memory that lags behind -/

/-- No wire, or one that can only make the display dirty. -/
def Quiet (wire : Option Wire) : Prop := wire = none ∨ wire = some (.screen displaySlot)

/-- The same cells and bus, with screen wires for the pictures `before` and `after`.  Where the
wires differ or the display shows yet another picture, it is dirty. -/
structure Lag (before after : Option Span) (s t : Memory Wire × Bus) : Prop where
  bus_eq : s.2 = t.2
  cell?_eq : ∀ addr, s.1.cell? addr = t.1.cell? addr
  idle : displaySlot ∉ s.2.busy
  quiet : ∀ addr, s.1.observer? addr = t.1.observer? addr ∨
    after ≠ before ∧ Quiet (s.1.observer? addr) ∧ Quiet (t.1.observer? addr)
  display : ∃ d, s.2.devices[displaySlot]? = some (.display d) ∧
    (d.dirty = true ∨ after = before ∧ d.window? = before)

namespace Lag

variable {before after : Option Span} {mem mem' : Memory Wire} {bus : Bus}

theorem onward (h : Lag before after (mem, bus) (mem', bus)) {bus' : Bus} (hbus : Onward bus bus') :
    Lag before after (mem, bus') (mem', bus') := by
  refine ⟨rfl, h.cell?_eq, hbus.idle, h.quiet, ?_⟩
  obtain ⟨d, hd, hsync⟩ := h.display
  obtain ⟨d', hd', rfl | hdirty⟩ := hbus.display hd
  · exact ⟨d', hd', hsync⟩
  · exact ⟨d', hd', .inl hdirty⟩

theorem store (h : Lag before after (mem, bus) (mem', bus)) (addr : Nat) (w : Word) :
    Lag before after (mem.store addr w, bus) (mem'.store addr w, bus) := by
  refine ⟨rfl, fun place => ?_, h.idle, h.quiet, h.display⟩
  have hcell : mem.cell? place = mem'.cell? place := h.cell?_eq place
  simp only [Memory.cell?_store, hcell, Memory.capacity_congr h.cell?_eq]

/-- Where the wires differ the display is dirty. -/
theorem exists_dirty (h : Lag before after (mem, bus) (mem', bus)) (hne : after ≠ before) :
    ∃ d, bus.devices[displaySlot]? = some (.display d) ∧ d.markDirty = d := by
  obtain ⟨d, hd, hdirty | ⟨heq, -⟩⟩ := h.display
  · refine ⟨d, hd, ?_⟩
    rw [Display.markDirty, ← hdirty]
  · exact absurd heq hne

theorem asked_of_quiet (h : Quiet (mem.observer? addr)) : mem.asked addr bus = (none, bus) := by
  unfold Memory.asked
  rcases h with h | h
  · rw [h]
  · rw [h]
    rfl

theorem told_of_quiet (h : Quiet (mem.observer? addr)) {d : Display}
    (hd : bus.devices[displaySlot]? = some (.display d)) (hdirty : d.markDirty = d) (w : Word) :
    mem.told addr w bus = bus := by
  unfold Memory.told
  rcases h with h | h
  · rw [h]
  · rw [h]
    change (Wire.screen displaySlot).onWrite w bus = bus
    simp only [Wire.onWrite]
    split
    · next d' _ hd' =>
      obtain rfl : d = d' := by
        rw [hd] at hd'
        cases hd'
        rfl
      rw [hdirty]
      exact Bus.setDevice_self hd
    · rfl

theorem asked_eq (h : Lag before after (mem, bus) (mem', bus)) (addr : Nat) :
    mem.asked addr bus = mem'.asked addr bus := by
  rcases h.quiet addr with heq | ⟨-, hquiet, hquiet'⟩
  · have heq : mem.observer? addr = mem'.observer? addr := heq
    rw [Memory.asked, heq, Memory.asked]
  · rw [asked_of_quiet hquiet, asked_of_quiet hquiet']

theorem told_eq (h : Lag before after (mem, bus) (mem', bus)) (addr : Nat) (w : Word) :
    mem.told addr w bus = mem'.told addr w bus := by
  rcases h.quiet addr with heq | ⟨hne, hquiet, hquiet'⟩
  · have heq : mem.observer? addr = mem'.observer? addr := heq
    rw [Memory.told, heq, Memory.told]
  · obtain ⟨d, hd, hdirty⟩ := h.exists_dirty hne
    rw [told_of_quiet hquiet hd hdirty, told_of_quiet hquiet' hd hdirty]

theorem agreement : Memory.Agreement (Lag before after) := by
  refine Memory.agreement_of (fun h => h.cell?_eq) ?_ ?_
  · intro mem bus mem' bus' addr _ h
    obtain rfl : bus = bus' := h.bus_eq
    rw [← h.asked_eq]
    exact ⟨rfl, h.onward (.asked h.idle mem addr)⟩
  · intro mem bus mem' bus' addr w _ h
    obtain rfl : bus = bus' := h.bus_eq
    rw [← h.told_eq]
    exact (h.store addr w).onward (.told h.idle mem addr w)

/-- **A lag is kept by whatever a board can do.** -/
theorem congruence : Congruence displaySlot (Lag before after) where
  access := agreement
  bus_eq h := h.bus_eq
  display h := by
    obtain ⟨d, hd, -⟩ := h.display
    exact ⟨d, hd⟩
  idle h := h.idle
  note := by
    rintro ⟨mem, bus⟩ ⟨mem', _⟩ h n
    obtain rfl : bus = _ := h.bus_eq
    exact h.onward ⟨h.idle, fun hd => ⟨_, hd, .inl rfl⟩⟩
  setBusy := by
    rintro ⟨mem, bus⟩ ⟨mem', _⟩ h busy hbusy
    obtain rfl : bus = _ := h.bus_eq
    exact h.onward ⟨hbusy, fun hd => ⟨_, hd, .inl rfl⟩⟩
  setDevice := by
    rintro ⟨mem, bus⟩ ⟨mem', _⟩ h slot old new hslot - -
    obtain rfl : bus = _ := h.bus_eq
    exact h.onward (.setDevice_of_ne h.idle hslot new)

end Lag

end Computer

end WordMachine
