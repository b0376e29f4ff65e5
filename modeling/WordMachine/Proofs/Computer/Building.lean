import WordMachine.Proofs.Bus.Attachment
import WordMachine.Proofs.Computer.Guarded
import WordMachine.Proofs.Config.Fields

/-!
# Proofs/Computer/Building — which configurations there are computers of

A configuration is looked at in three places, and in none of them as a whole: `validate` sees the
number of cells alone, `map` a window, the windows mapped before it and the addresses there are, and
`attach` the cells there are.  `Placeable` is what they come to.

* That it is enough: windows within the memory are within the addresses there are, so all three can
  be mapped (`Placeable.wiredBus_eq`), and each of their wires has a cell.
* That nothing less is: a device has a register at least, and the last register of each has a cell
  (`Furnished.stop_le`).

What is built then has a wire wherever the bus routes and nowhere else
(`observer?_of_ofConfig`).  Main statement: `exists_ofConfig_iff`.
-/

namespace WordMachine

namespace Computer

variable {config : Config} {c : Computer}

/-- What a configuration must be so that there is a computer of it. -/
structure Placeable (config : Config) : Prop where
  one_le : 1 ≤ config.memoryWords.toNat
  le_count : config.memoryWords.toNat ≤ Word.count
  disjoint : (deviceWindows config).Pairwise fun w v => ∀ addr, w.Holds addr → ¬ v.Holds addr
  inMemory : ∀ w ∈ deviceWindows config, w.stop ≤ config.memoryWords.toNat

theorem pairwise_apart_iff : (deviceWindows config).Pairwise Window.Apart ↔
    (deviceWindows config).Pairwise fun w v => ∀ addr, w.Holds addr → ¬ v.Holds addr :=
  List.Pairwise.iff_of_mem fun hw hv => ⟨fun h _ => h.not_holds, Window.apart_of_not_holds
    (length_pos_of_mem_deviceWindows hw) (length_pos_of_mem_deviceWindows hv)⟩

/-- **The next of the windows is placed** if it is apart from those that have been. -/
theorem map_bareBus (config : Config) (ws : List Window) {w : Window} {d : Device}
    (hd : (bareBus config).device? w.hardwareId = some d) (hlength : d.registerCount = w.length)
    (hstop : w.stop ≤ Word.count) (hapart : ∀ v ∈ ws, v.Apart w)
    (hnew : w.hardwareId ∉ ws.map (·.hardwareId)) :
    Bus.map { bareBus config with windows := ws } w.hardwareId w.base =
      .ok (w, { bareBus config with windows := ws ++ [w] }) := by
  obtain ⟨id, base, length⟩ := w
  obtain rfl : d.registerCount = length := hlength
  have hothers : ws.filter (·.hardwareId != id) = ws := by
    refine List.filter_eq_self.mpr fun v hv => bne_iff_ne.mpr fun heq => hnew ?_
    exact List.mem_map.mpr ⟨v, hv, heq⟩
  rw [Bus.map_eq { bareBus config with windows := ws } hd hstop fun v hv _ => hapart v hv]
  simp only [hothers]

namespace Placeable

/-- **All three windows can be placed.** -/
theorem wiredBus_eq (h : Placeable config) :
    wiredBus config = .ok { bareBus config with windows := deviceWindows config } := by
  have hstop : ∀ w ∈ deviceWindows config, w.stop ≤ Word.count := fun w hw =>
    (h.inMemory w hw).trans h.le_count
  have hapart := pairwise_apart_iff.mpr h.disjoint
  simp only [deviceWindows, List.forall_mem_cons, List.pairwise_cons] at hstop hapart
  obtain ⟨hclock, hkeyboard, hdisplay, -⟩ := hstop
  obtain ⟨⟨hclockKeyboard, hclockDisplay, -⟩, ⟨hkeyboardDisplay, -⟩, -⟩ := hapart
  have hfirst := map_bareBus config [] rfl rfl hclock (by simp) (by simp)
  have hsecond := map_bareBus config _ rfl rfl hkeyboard
    (List.forall_mem_singleton.mpr hclockKeyboard)
    (show Keyboard.hardwareId ∉ [Clock.hardwareId] by decide)
  have hthird := map_bareBus config _ rfl rfl hdisplay
    (List.forall_mem_cons.mpr ⟨hclockDisplay, List.forall_mem_singleton.mpr hkeyboardDisplay⟩)
    (show Display.hardwareId ∉ [Clock.hardwareId, Keyboard.hardwareId] by decide)
  rw [Computer.wiredBus_eq]
  exact (bind_of_except_ok hfirst).trans
    ((bind_of_except_ok hsecond).trans (bind_of_except_ok hthird))

/-- **A placeable configuration has a computer.** -/
theorem exists_ofConfig (h : Placeable config) : ∃ c, ofConfig config = .ok c := by
  have hvalid := Config.validate_eq_ok_iff.mpr ⟨h.one_le, h.le_count⟩
  refine Computer.exists_ofConfig hvalid h.wiredBus_eq ?_
  rintro ⟨addr, wire⟩ hentry
  obtain ⟨w, hw, -, -, hholds, -⟩ := Bus.mem_allWires.mp hentry
  exact Nat.lt_of_lt_of_le hholds.2 (h.inMemory w hw)

end Placeable

theorem windows_of_ofConfig (h : ofConfig config = .ok c) :
    c.board.world.windows = deviceWindows config := by
  rw [(furnished_of_ofConfig h).windows, config_of_ofConfig h]

/-- …and no other has one. -/
theorem placeable_of_ofConfig (h : ofConfig config = .ok c) : Placeable config := by
  have hvalid : config.validate = .ok () := by
    cases hvalidate : config.validate with
    | ok _ => rfl
    | error e =>
      rw [ofConfig, hvalidate] at h
      cases h
  obtain ⟨hone, hcount⟩ := Config.validate_eq_ok_iff.mp hvalid
  have hfurnished := furnished_of_ofConfig h
  have hwindows := windows_of_ofConfig h
  have hapart : (deviceWindows config).Pairwise Window.Apart := hwindows ▸ hfurnished.apart
  refine ⟨hone, hcount, pairwise_apart_iff.mp hapart, fun w hw => ?_⟩
  rw [← hwindows] at hw
  exact capacity_of_ofConfig h ▸ hfurnished.stop_le hw

/-! ## What is built -/

/-- The bus of a computer is orderly if there are no more cells than addresses. -/
theorem Furnished.orderly (h : c.Furnished) (hle : c.mem.capacity ≤ Word.count) :
    c.board.world.Orderly where
  seated := by
    intro id slot hslot
    obtain ⟨w, hw, rfl⟩ : ∃ w ∈ c.board.world.windows, w.hardwareId = id := by
      have hmem := Bus.mem_registry_of_slot? hslot
      rw [h.registry, deviceRegistry, List.mem_cons, List.mem_cons, List.mem_singleton] at hmem
      rw [h.windows, deviceWindows]
      rcases hmem with heq | heq | heq <;> cases heq <;> simp
    obtain ⟨slot', d, hslot', hd, hid⟩ := h.exists_device hw
    rw [hslot] at hslot'
    cases hslot'
    exact ⟨d, hd, hid⟩
  once := by
    rw [h.windows]
    exact (by decide : [Clock.hardwareId, Keyboard.hardwareId, Display.hardwareId].Nodup)
  registered w hw := by
    obtain ⟨slot, -, hslot, -⟩ := h.exists_device hw
    exact ⟨slot, hslot⟩
  inSpace w hw := (h.stop_le hw).trans hle
  apart := h.apart

theorem orderly_of_ofConfig (h : ofConfig config = .ok c) : c.board.world.Orderly := by
  refine (furnished_of_ofConfig h).orderly ?_
  rw [capacity_of_ofConfig h]
  exact (placeable_of_ofConfig h).le_count

/-- **Memory is wired where the bus routes**, and nowhere else. -/
theorem observer?_of_ofConfig (h : ofConfig config = .ok c) (addr : Word) :
    c.mem.observer? addr.toNat =
      (c.board.world.route? addr).map fun route => .register route.1 route.2 := by
  have horderly := orderly_of_ofConfig h
  by_cases hlt : addr.toNat < c.mem.capacity
  · have hwatched : c.watched = none := by
      obtain ⟨_, -, -, rfl⟩ := of_ofConfig h
      rfl
    rw [(furnished_of_ofConfig h).observer?_eq _ hlt, wire?, hwatched,
      horderly.wire?_eq_route? addr]
    exact Option.or_none
  · have hroute : c.board.world.route? addr = none :=
      horderly.route?_eq_none_iff.mpr fun w hw hholds =>
        hlt ((furnished_of_ofConfig h).lt_of_holds hw hholds)
    rw [Memory.observer?_eq_none_of_capacity_le (Nat.le_of_not_lt hlt), hroute]
    rfl

/-- **Which configurations there are computers of, and what is behind each address then.**  A
configuration has a computer if and only if it asks for one cell at least and for no more than there
are addresses, no two of the three windows have an address in common, and each ends within the
memory.  Then an address that a window holds is routed to the window's device in its slot, to the
register as far from the window's base as the address is, and a read or a write there is one of that
register.
An address that no window holds is not routed, nothing watches it, and if it has a cell a read or a
write there is one of the stored word. -/
theorem exists_ofConfig_iff (config : Config) :
    ((∃ c, ofConfig config = .ok c) ↔ Placeable config) ∧
      ∀ c, ofConfig config = .ok c → ∀ addr : Word,
        (∀ w ∈ deviceWindows config, w.Holds addr.toNat →
          ∃ slot d register, (w.hardwareId, slot) ∈ deviceRegistry ∧
            c.board.world.devices[slot]? = some d ∧ d.hardwareId = w.hardwareId ∧
            w.base.toNat + register.toNat = addr.toNat ∧
            c.board.world.route? addr = some (slot, register) ∧
            Bus.Reaches (c.mem, c.board.world) addr slot register) ∧
        ((∀ w ∈ deviceWindows config, ¬ w.Holds addr.toNat) →
          c.board.world.route? addr = none ∧ c.mem.observer? addr.toNat = none ∧
            (addr.toNat < c.mem.capacity → Bus.Stores (c.mem, c.board.world) addr)) := by
  refine ⟨⟨fun ⟨_, h⟩ => placeable_of_ofConfig h, Placeable.exists_ofConfig⟩, fun c h addr => ?_⟩
  have horderly := orderly_of_ofConfig h
  have hfurnished := furnished_of_ofConfig h
  have hwire := observer?_of_ofConfig h addr
  rw [← windows_of_ofConfig h]
  refine ⟨fun w hw hholds => ?held, fun hfree => ?free⟩
  case held =>
    obtain ⟨slot, d, hslot, hd, hid⟩ := hfurnished.exists_device hw
    have hregistered : (w.hardwareId, slot) ∈ deviceRegistry :=
      hfurnished.registry ▸ Bus.mem_registry_of_slot? hslot
    have hroute := horderly.route?_eq_some_iff.mpr ⟨w, hw, hholds, hslot, hholds.base_add_sub⟩
    rw [hroute] at hwire
    exact ⟨slot, d, _, hregistered, hd, hid, hholds.base_add_sub, hroute,
      Bus.reaches_of_observer? (hfurnished.lt_of_holds hw hholds) (busy_of_ofConfig h) hd hwire⟩
  case free =>
    have hroute := horderly.route?_eq_none_iff.mpr hfree
    rw [hroute] at hwire
    exact ⟨hroute, hwire, fun hlt => Bus.stores_of_observer? hlt hwire⟩

/-- The display of the small computer has the last four of its cells, and with one cell less there
is no such computer. -/
theorem exists_ofConfig_iff_small :
    (∃ c, ofConfig smallConfig = .ok c ∧ Bus.Reaches (c.mem, c.board.world) 31 displaySlot 3) ∧
      ¬ ∃ c, ofConfig { smallConfig with memoryWords := 31 } = .ok c := by
  obtain ⟨hiff, hbuilt⟩ := exists_ofConfig_iff smallConfig
  have hapart : (deviceWindows smallConfig).Pairwise Window.Apart := by
    unfold Window.Apart
    decide +kernel
  have hplaceable : Placeable smallConfig :=
    ⟨by decide, by decide, pairwise_apart_iff.mp hapart, by decide⟩
  constructor
  · obtain ⟨c, h⟩ := hiff.mpr hplaceable
    obtain ⟨hheld, -⟩ := hbuilt c h 31
    obtain ⟨slot, d, register, hregistered, -, -, hsum, -, hreaches⟩ :=
      hheld ⟨Display.hardwareId, 28, Display.registerCount⟩ (by decide) (by decide)
    obtain rfl : slot = displaySlot := by
      simpa [deviceRegistry, Display.hardwareId, Clock.hardwareId, Keyboard.hardwareId]
        using hregistered
    obtain rfl : register = 3 := by
      change 28 + register.toNat = 31 at hsum
      exact UInt16.toNat_inj.mp (Nat.add_left_cancel (hsum.trans (show 31 = 28 + 3 from rfl)))
    exact ⟨c, h, hreaches⟩
  · intro hexists
    have hin := ((exists_ofConfig_iff { smallConfig with memoryWords := 31 }).1.mp hexists).inMemory
    exact absurd (hin ⟨Display.hardwareId, 28, Display.registerCount⟩ (by decide)) (by decide)

end Computer

end WordMachine
