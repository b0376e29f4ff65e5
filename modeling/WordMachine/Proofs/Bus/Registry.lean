import WordMachine.Proofs.Bus.Windows

/-!
# Proofs/Bus/Registry — what registering and mapping keep

A bus starts empty and is changed by registering a device, which may replace another, and by mapping
one, which may move its window (`Call`).  Whatever the history, every identifier in use leads to a
device that has it, every identifier has one window at most, and the windows belong to devices in
use, end with the last address and are apart (`Orderly`).  So the first window that holds an address
is the only one, and the bus routes the address by it: `Orderly.route?_eq_some_iff` and
`Orderly.route?_eq_none_iff`.

`map` refuses a window for one of three reasons (`Refuses`) and then changes nothing.  Main
statement: `routes_of_built`.
-/

namespace WordMachine

theorem Window.contains_iff {w : Window} {addr : Word} :
    w.contains addr = true ↔ w.Holds addr.toNat := by
  simp only [Window.contains, Window.Holds, Bool.and_eq_true, decide_eq_true_eq,
    UInt16.le_iff_toNat_le]

/-- The register behind an address is as far from the window's base as the address is. -/
theorem Window.Holds.base_add_sub {w : Window} {addr : Word} (h : w.Holds addr.toNat) :
    w.base.toNat + (addr - w.base).toNat = addr.toNat := by
  rw [UInt16.toNat_sub_of_le _ _ (UInt16.le_iff_toNat_le.mpr h.1)]
  exact Nat.add_sub_cancel' h.1

namespace Bus

/-! ## The slot in use -/

/-- Giving an identifier another slot does not change which entry an identifier is found in. -/
private theorem find?_reseat (registry : List (UInt32 × Slot)) (key id : UInt32) (slot : Slot) :
    (registry.map fun entry => if entry.1 == key then (key, slot) else entry).find?
        (fun entry => entry.1 == id) =
      (registry.find? fun entry => entry.1 == id).map fun entry =>
        if entry.1 == key then (key, slot) else entry := by
  rw [List.find?_map]
  congr 2
  funext entry
  by_cases h : entry.1 = key <;> simp [h]

/-- **A device that is registered is in use under its identifier**, and what is in use under any
other stays so. -/
theorem slot?_register (bus : Bus) (d : Device) (id : UInt32) :
    (bus.register d).slot? id =
      if id = d.hardwareId then some bus.devices.size else bus.slot? id := by
  by_cases hused : (bus.slot? d.hardwareId).isSome = true
  · have hregistry : (bus.register d).registry = bus.registry.map fun entry =>
        if entry.1 == d.hardwareId then (d.hardwareId, bus.devices.size) else entry :=
      if_pos hused
    rw [slot?, hregistry, find?_reseat, slot?]
    cases hfound : bus.registry.find? fun entry => entry.1 == id with
    | none =>
      have hid : id ≠ d.hardwareId := by
        rintro rfl
        rw [slot?, hfound] at hused
        cases hused
      rw [if_neg hid]
      rfl
    | some entry =>
      have hkey : entry.1 = id := by simpa using List.find?_some hfound
      by_cases hid : id = d.hardwareId <;> simp [hkey, hid]
  · have hregistry : (bus.register d).registry =
        bus.registry ++ [(d.hardwareId, bus.devices.size)] := if_neg hused
    rw [slot?, hregistry, List.find?_append]
    by_cases hid : id = d.hardwareId
    · subst hid
      have hnone : bus.registry.find? (fun entry => entry.1 == d.hardwareId) = none :=
        Option.map_eq_none_iff.mp (Option.not_isSome_iff_eq_none.mp hused)
      simp [hnone]
    · simp [slot?, hid, Ne.symm hid]

theorem mem_registry_of_slot? {bus : Bus} {id : UInt32} {slot : Slot}
    (h : bus.slot? id = some slot) : (id, slot) ∈ bus.registry := by
  obtain ⟨⟨key, slot'⟩, hfound, rfl⟩ := Option.map_eq_some_iff.mp h
  obtain rfl : key = id := by simpa using List.find?_some hfound
  exact List.mem_of_find?_eq_some hfound

/-- A slot is filled for good. -/
theorem getElem?_register_of_some {bus : Bus} {slot : Slot} {old : Device}
    (h : bus.devices[slot]? = some old) (d : Device) :
    (bus.register d).devices[slot]? = some old := by
  have hlt : slot < bus.devices.size := (Array.getElem?_eq_some_iff.mp h).1
  change (bus.devices.push d)[slot]? = some old
  rw [Array.getElem?_push_lt hlt, ← h, Array.getElem?_eq_getElem hlt]

theorem getElem?_register_size (bus : Bus) (d : Device) :
    (bus.register d).devices[bus.devices.size]? = some d :=
  Array.getElem?_push_size

/-! ## Refused windows -/

/-- Why a bus does not place the registers of a device at `base`. -/
inductive Refuses (bus : Bus) (id : UInt32) (base : Word) : Error → Prop where
  | unknownDevice (h : bus.device? id = none) : Refuses bus id base (.unknownDevice id)
  | outOfSpace {d : Device} (hd : bus.device? id = some d)
      (h : Word.count < base.toNat + d.registerCount.toNat) :
      Refuses bus id base (.outOfSpace base d.registerCount)
  /-- Each window starts before the other ends, and the other belongs to another identifier. -/
  | overlap {d : Device} {w : Window} (hd : bus.device? id = some d) (hw : w ∈ bus.windows)
      (hid : w.hardwareId ≠ id) (hbefore : base.toNat < w.stop)
      (hafter : w.base.toNat < base.toNat + d.registerCount.toNat) :
      Refuses bus id base (.overlap base d.registerCount w.hardwareId)

/-- **A window is refused for one of the three reasons**… -/
theorem refuses_of_map {bus : Bus} {id : UInt32} {base : Word} {e : Error}
    (h : bus.map id base = .error e) : bus.Refuses id base e := by
  unfold map at h
  cases hd : bus.device? id with
  | none =>
    simp only [hd] at h
    cases h
    exact .unknownDevice hd
  | some d =>
    simp only [hd] at h
    split at h
    · next hstop =>
      cases h
      exact .outOfSpace hd hstop
    · split at h
      · next w hfind =>
        cases h
        obtain ⟨hw, hid⟩ := List.mem_filter.mp (List.mem_of_find?_eq_some hfind)
        have hoverlaps := List.find?_some hfind
        simp only [Window.overlaps, Bool.and_eq_true, decide_eq_true_eq] at hoverlaps
        exact .overlap hd hw (by simpa using hid) hoverlaps.2 hoverlaps.1
      · cases h

/-- …so there is none for a window within the addresses there are and apart from all others… -/
theorem not_refuses {bus : Bus} {id : UInt32} {base : Word} {d : Device}
    (hd : bus.device? id = some d) (hstop : base.toNat + d.registerCount.toNat ≤ Word.count)
    (hapart : ∀ w ∈ bus.windows, w.hardwareId ≠ id → w.Apart ⟨id, base, d.registerCount⟩)
    (e : Error) : ¬ bus.Refuses id base e := by
  intro h
  cases h with
  | unknownDevice hnone =>
    rw [hd] at hnone
    cases hnone
  | outOfSpace hd' hlt =>
    obtain rfl := Option.some.inj (hd.symm.trans hd')
    exact Nat.not_lt.mpr hstop hlt
  | overlap hd' hw hid hbefore hafter =>
    obtain rfl := Option.some.inj (hd.symm.trans hd')
    rcases Window.apart_iff_stop_le.mp (hapart _ hw hid) with h | h
    · exact Nat.not_lt.mpr h hafter
    · exact Nat.not_lt.mpr h hbefore

/-- …which is placed… -/
theorem map_eq (bus : Bus) {id : UInt32} {base : Word} {d : Device} (hd : bus.device? id = some d)
    (hstop : base.toNat + d.registerCount.toNat ≤ Word.count)
    (hapart : ∀ w ∈ bus.windows, w.hardwareId ≠ id → w.Apart ⟨id, base, d.registerCount⟩) :
    bus.map id base = .ok (⟨id, base, d.registerCount⟩,
      { bus with windows := bus.windows.filter (·.hardwareId != id) ++
          [⟨id, base, d.registerCount⟩] }) := by
  cases hmap : bus.map id base with
  | ok placed =>
    obtain ⟨w, bus'⟩ := placed
    obtain ⟨d', hd', rfl, -, -, rfl⟩ := map_eq_ok hmap
    obtain rfl := Option.some.inj (hd.symm.trans hd')
    rfl
  | error e => exact absurd (refuses_of_map hmap) (not_refuses hd hstop hapart e)

/-- …and no other is. -/
theorem Refuses.map_ne_ok {bus bus' : Bus} {id : UInt32} {base : Word} {e : Error} {w : Window}
    (h : bus.Refuses id base e) : bus.map id base ≠ .ok (w, bus') := by
  intro hmap
  obtain ⟨d, hd, rfl, hstop, hapart, -⟩ := map_eq_ok hmap
  exact not_refuses hd hstop hapart e h

/-! ## Orderly buses -/

/-- What is true of a bus whatever was registered and mapped. -/
structure Orderly (bus : Bus) : Prop where
  /-- An identifier in use leads to a device that has it. -/
  seated : ∀ {id slot}, bus.slot? id = some slot →
    ∃ d, bus.devices[slot]? = some d ∧ d.hardwareId = id
  once : (bus.windows.map (·.hardwareId)).Nodup
  registered : ∀ w ∈ bus.windows, ∃ slot, bus.slot? w.hardwareId = some slot
  inSpace : ∀ w ∈ bus.windows, w.stop ≤ Word.count
  apart : bus.WindowsApart

namespace Orderly

variable {bus : Bus}

protected theorem empty : Orderly {} where
  seated h := by cases h
  once := .nil
  registered w hw := by cases hw
  inSpace w hw := by cases hw
  apart := .nil

protected theorem register (h : bus.Orderly) (d : Device) : (bus.register d).Orderly where
  seated := by
    intro id slot hslot
    rw [slot?_register] at hslot
    split at hslot
    · next hid =>
      cases hslot
      exact ⟨d, getElem?_register_size bus d, hid.symm⟩
    · obtain ⟨old, hold, hid⟩ := h.seated hslot
      exact ⟨old, getElem?_register_of_some hold d, hid⟩
  once := h.once
  registered := by
    intro w hw
    rw [slot?_register]
    split
    · exact ⟨_, rfl⟩
    · exact h.registered w hw
  inSpace := h.inSpace
  apart := h.apart

protected theorem map (h : bus.Orderly) {bus' : Bus} {id : UInt32} {base : Word} {w : Window}
    (hmap : bus.map id base = .ok (w, bus')) : bus'.Orderly := by
  have hapart := apart_map h.apart hmap
  obtain ⟨d, hd, rfl, hstop, -, rfl⟩ := map_eq_ok hmap
  have hothers : ∀ v ∈ bus.windows.filter (·.hardwareId != id),
      v ∈ bus.windows ∧ v.hardwareId ≠ id := fun v hv => by simpa using hv
  refine ⟨h.seated, ?_, fun v hv => ?_, fun v hv => ?_, hapart⟩
  · rw [List.map_append, List.nodup_append]
    refine ⟨h.once.sublist (List.filter_sublist.map _), by simp, ?_⟩
    intro a ha b hb
    obtain ⟨v, hv, rfl⟩ := List.mem_map.mp ha
    rw [List.map_singleton, List.mem_singleton] at hb
    exact hb ▸ (hothers v hv).2
  · rcases List.mem_append.mp hv with hv | hv
    · exact h.registered v (hothers v hv).1
    · obtain rfl := List.mem_singleton.mp hv
      obtain ⟨slot, hslot, -⟩ := Option.bind_eq_some_iff.mp hd
      exact ⟨slot, hslot⟩
  · rcases List.mem_append.mp hv with hv | hv
    · exact h.inSpace v (hothers v hv).1
    · obtain rfl := List.mem_singleton.mp hv
      exact hstop

/-- **No address lies in two windows.** -/
theorem eq_of_holds (h : bus.Orderly) {w v : Window} (hw : w ∈ bus.windows) (hv : v ∈ bus.windows)
    {addr : Nat} (haddr : w.Holds addr) (haddr' : v.Holds addr) : w = v := by
  by_contra hne
  exact (h.apart.forall hw hv hne).not_holds haddr haddr'

/-- The device of a window is in use, under the window's identifier. -/
theorem exists_device (h : bus.Orderly) {w : Window} (hw : w ∈ bus.windows) :
    ∃ d, bus.device? w.hardwareId = some d ∧ d.hardwareId = w.hardwareId := by
  obtain ⟨slot, hslot⟩ := h.registered w hw
  obtain ⟨d, hd, hid⟩ := h.seated hslot
  exact ⟨d, by rw [device?, hslot, Option.bind_some, hd], hid⟩

/-- **An address is routed by the window that holds it**, to the register as far from the window's
base as the address is. -/
theorem route?_eq_some_iff (h : bus.Orderly) {addr : Word} {slot : Slot} {register : Word} :
    bus.route? addr = some (slot, register) ↔
      ∃ w ∈ bus.windows, w.Holds addr.toNat ∧ bus.slot? w.hardwareId = some slot ∧
        w.base.toNat + register.toNat = addr.toNat := by
  have hregister : ∀ {w : Window}, w.Holds addr.toNat →
      (addr - w.base = register ↔ w.base.toNat + register.toNat = addr.toNat) := by
    intro w hw
    rw [← UInt16.toNat_inj, UInt16.toNat_sub_of_le _ _ (UInt16.le_iff_toNat_le.mpr hw.1)]
    have := hw.1
    omega
  unfold route?
  constructor
  · intro hroute
    split at hroute
    · cases hroute
    · next w hfind =>
      obtain ⟨slot', hslot, heq⟩ := Option.map_eq_some_iff.mp hroute
      have hcontains := List.find?_some (p := fun w : Window => w.contains addr) hfind
      have hholds := Window.contains_iff.mp hcontains
      obtain ⟨rfl, hsub⟩ := Prod.mk.inj heq
      exact ⟨w, List.mem_of_find?_eq_some hfind, hholds, hslot, (hregister hholds).mp hsub⟩
  · rintro ⟨w, hw, hholds, hslot, hsum⟩
    split
    · next hfind =>
      exact absurd (Window.contains_iff.mpr hholds) (List.find?_eq_none.mp hfind w hw)
    · next v hfind =>
      have hcontains := List.find?_some (p := fun w : Window => w.contains addr) hfind
      obtain rfl := h.eq_of_holds hw (List.mem_of_find?_eq_some hfind) hholds
        (Window.contains_iff.mp hcontains)
      rw [hslot, Option.map_some, (hregister hholds).mpr hsum]

/-- …and an address that no window holds is not routed. -/
theorem route?_eq_none_iff (h : bus.Orderly) {addr : Word} :
    bus.route? addr = none ↔ ∀ w ∈ bus.windows, ¬ w.Holds addr.toNat := by
  constructor
  · intro hroute w hw hholds
    obtain ⟨slot, hslot⟩ := h.registered w hw
    have hsome := h.route?_eq_some_iff.mpr ⟨w, hw, hholds, hslot, hholds.base_add_sub⟩
    rw [hroute] at hsome
    cases hsome
  · intro hnone
    cases hroute : bus.route? addr with
    | none => rfl
    | some found =>
      obtain ⟨w, hw, hholds, -⟩ := h.route?_eq_some_iff.mp hroute
      exact absurd hholds (hnone w hw)

end Orderly

/-! ## Histories -/

/-- What can be asked of a bus. -/
inductive Call where
  | register (device : Device)
  | map (hardwareId : UInt32) (base : Word)

/-- The bus after a call.  A window that is refused leaves it as it is. -/
def Call.after : Call → Bus → Bus
  | register device, bus => bus.register device
  | map hardwareId base, bus =>
    match bus.map hardwareId base with
    | .ok (_, bus) => bus
    | .error _ => bus

/-- The buses there can be: the empty one, and what calls make of one. -/
inductive Built : Bus → Prop where
  | empty : Built {}
  | after {bus : Bus} (call : Call) (h : Built bus) : Built (call.after bus)

theorem Built.foldl {bus : Bus} (h : bus.Built) (calls : List Call) :
    Built (calls.foldl (fun bus call => call.after bus) bus) := by
  induction calls generalizing bus with
  | nil => exact h
  | cons call calls ih => exact ih (.after call h)

theorem Orderly.after {bus : Bus} (h : bus.Orderly) (call : Call) : (call.after bus).Orderly := by
  cases call with
  | register d => exact h.register d
  | map id base =>
    simp only [Call.after]
    split
    · next hmap => exact h.map hmap
    · exact h

theorem orderly_of_built {bus : Bus} (h : bus.Built) : bus.Orderly := by
  induction h with
  | empty => exact .empty
  | after call _ ih => exact ih.after call

/-- **How a bus routes, whatever was registered and mapped before.**  Every identifier has one
window at most, of a device in use; the windows end with the last address and have no address in
common; an address is routed by the one window that holds it, and not at all if none does.  `map`
fails exactly for the three reasons there are and then changes nothing; if it succeeds, the window
it gives to the identifier is the only thing that is new, and the identifier's old window the only
thing that is gone. -/
theorem routes_of_built {bus : Bus} (h : bus.Built) :
    (bus.windows.map (·.hardwareId)).Nodup ∧
      (∀ w ∈ bus.windows, w.stop ≤ Word.count ∧
        ∃ d, bus.device? w.hardwareId = some d ∧ d.hardwareId = w.hardwareId) ∧
      (∀ w ∈ bus.windows, ∀ v ∈ bus.windows, ∀ addr, w.Holds addr → v.Holds addr → w = v) ∧
      (∀ addr slot register, bus.route? addr = some (slot, register) ↔
        ∃ w ∈ bus.windows, w.Holds addr.toNat ∧ bus.slot? w.hardwareId = some slot ∧
          w.base.toNat + register.toNat = addr.toNat) ∧
      (∀ addr, bus.route? addr = none ↔ ∀ w ∈ bus.windows, ¬ w.Holds addr.toNat) ∧
      ∀ id base,
        ((∃ e, bus.map id base = .error e) ↔ ∃ e, bus.Refuses id base e) ∧
        (∀ e, bus.map id base = .error e →
          bus.Refuses id base e ∧ (Call.map id base).after bus = bus) ∧
        ∀ w bus', bus.map id base = .ok (w, bus') →
          (Call.map id base).after bus = bus' ∧
            (∃ d, bus.device? id = some d ∧ w = ⟨id, base, d.registerCount⟩) ∧
            bus' = { bus with windows := bus.windows.filter (·.hardwareId != id) ++ [w] } := by
  have hbus := orderly_of_built h
  refine ⟨hbus.once, fun w hw => ⟨hbus.inSpace w hw, hbus.exists_device hw⟩,
    fun w hw v hv addr => hbus.eq_of_holds hw hv, fun addr slot register =>
    hbus.route?_eq_some_iff, fun addr => hbus.route?_eq_none_iff, fun id base => ⟨?_, ?_, ?_⟩⟩
  · constructor
    · rintro ⟨e, hmap⟩
      exact ⟨e, refuses_of_map hmap⟩
    · rintro ⟨e, hrefuses⟩
      cases hmap : bus.map id base with
      | error e' => exact ⟨e', rfl⟩
      | ok placed => exact absurd hmap hrefuses.map_ne_ok
  · intro e hmap
    refine ⟨refuses_of_map hmap, ?_⟩
    simp only [Call.after, hmap]
  · intro w bus' hmap
    obtain ⟨d, hd, hw, -, -, hbus'⟩ := map_eq_ok hmap
    refine ⟨?_, ⟨d, hd, hw⟩, hbus'⟩
    simp only [Call.after, hmap]

/-- A bus on which a bank of four registers was replaced by one of two, and then moved to the last
addresses there are. -/
def moved : Bus :=
  [Call.register (.bank (.ofCount 1 4 0)), .register (.bank (.ofCount 2 0 0)), .map 1 0x100,
    .map 2 0x100, .register (.bank (.ofCount 1 2 0)), .map 1 0xFFFE].foldl
      (fun bus call => call.after bus) {}

theorem built_moved : moved.Built := Built.empty.foldl _

/-- The old window routes nothing any more, the new one routes to the device that is in use now, and
neither a third window on top of it nor one past the last address can be had. -/
theorem routes_of_built_moved :
    moved.route? 0x100 = none ∧ moved.route? 0xFFFF = some (2, 1) ∧
      (∃ e, moved.map 2 0xFFFF = .error e) ∧ ∃ e, moved.map 1 0xFFFF = .error e := by
  obtain ⟨-, -, -, hsome, hnone, hmap⟩ := routes_of_built built_moved
  refine ⟨(hnone _).mpr (by decide +kernel), (hsome _ _ _).mpr ⟨⟨1, 0xFFFE, 2⟩, ?_⟩,
    (hmap _ _).1.mpr
      ⟨_, .overlap (d := .bank (.ofCount 2 0 0)) (w := ⟨1, 0xFFFE, 2⟩) ?_ ?_ ?_ ?_ ?_⟩,
    (hmap _ _).1.mpr ⟨_, .outOfSpace (d := .bank (.ofCount 1 2 0)) ?_ ?_⟩⟩
  all_goals decide +kernel

end Bus

end WordMachine
