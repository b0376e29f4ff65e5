import Mathlib.Data.List.Nodup
import WordMachine.Proofs.Bus.Registry
import WordMachine.Proofs.Lockstep

/-!
# Proofs/Bus/Tenure — the registers behind a window whose device was replaced

A window is placed for the device that is in use then, and is as long as that has registers.  A
device that is registered later under the same identifier takes the window over as it is (`Tenure`,
`settled_afterCalls`), until the window is placed anew.  So the bus routes to as many registers as
the first device behind a window has.  They are registers of the device that is in use now if that
has no fewer, as it has if none was replaced; a device with fewer is asked for registers past its
last.
And the wires that `attach` puts into a memory are the routes, whether it comes to an end or not
(`observer?_attach`).

Main statement: `registers_of_route`.
-/

namespace WordMachine

namespace Bus

/-- The bus after calls, of which the latest comes first. -/
def afterCalls : List Call → Bus
  | [] => {}
  | call :: earlier => call.after (afterCalls earlier)

theorem orderly_afterCalls (calls : List Call) : (afterCalls calls).Orderly := by
  induction calls with
  | nil => exact .empty
  | cons call earlier ih => exact ih.after call

/-! ## Who is behind a window -/

/-- The devices behind a window: the one that it was placed for, and those that were registered in
its place since, the latest first. -/
structure Tenure where
  first : Device
  later : List Device := []
  deriving DecidableEq, Repr

/-- The device behind the window now. -/
def Tenure.current (t : Tenure) : Device := t.later.headD t.first

/-- The devices behind the window of an identifier, if it has one. -/
def tenure? (id : UInt32) : List Call → Option Tenure
  | [] => none
  | .register d :: earlier =>
    (tenure? id earlier).map fun t =>
      if d.hardwareId = id then { t with later := d :: t.later } else t
  | .map key base :: earlier =>
    match (afterCalls earlier).map key base with
    | .ok _ =>
      if key = id then ((afterCalls earlier).device? id).map fun d => { first := d }
      else tenure? id earlier
    | .error _ => tenure? id earlier

/-- What a tenure says of a bus. -/
inductive Settled (bus : Bus) (id : UInt32) : Option Tenure → Prop where
  | none (h : ∀ w ∈ bus.windows, w.hardwareId ≠ id) : Settled bus id none
  | some {t : Tenure} {w : Window} (hw : w ∈ bus.windows) (hid : w.hardwareId = id)
      (hlength : w.length = t.first.registerCount) (hd : bus.device? id = some t.current) :
      Settled bus id (some t)

variable {bus bus' : Bus} {id key : UInt32} {base : Word} {w v : Window} {tenure : Option Tenure}

theorem device?_register (d : Device) {old : Device}
    (h : bus.device? id = some old) :
    (bus.register d).device? id = some (if d.hardwareId = id then d else old) := by
  rw [device?, slot?_register]
  by_cases hid : id = d.hardwareId
  · rw [if_pos hid, if_pos hid.symm, Option.bind_some, getElem?_register_size]
  · obtain ⟨slot, hslot, hold⟩ := Option.bind_eq_some_iff.mp h
    rw [if_neg hid, if_neg (Ne.symm hid), hslot, Option.bind_some, getElem?_register_of_some hold]

/-- A device that is registered takes over the window there is… -/
theorem Settled.register (h : Settled bus id tenure) (d : Device) :
    Settled (bus.register d) id (tenure.map fun t =>
      if d.hardwareId = id then { t with later := d :: t.later } else t) := by
  cases h with
  | none h => exact .none h
  | @some t w hw hid hlength hd =>
    have hnow := device?_register d hd
    refine .some hw hid ?_ (hnow.trans ?_)
    · split <;> exact hlength
    · split <;> rfl

/-- …a window is placed for the device in use… -/
theorem settled_map_self (h : bus.map id base = .ok (w, bus')) :
    Settled bus' id ((bus.device? id).map fun d => { first := d }) := by
  obtain ⟨d, hd, rfl, -, -, rfl⟩ := map_eq_ok h
  rw [hd]
  exact .some (List.mem_append_right _ List.mem_cons_self) rfl rfl hd

/-- …and leaves those of other identifiers as they are. -/
theorem Settled.map_other (hkey : key ≠ id) (h : Settled bus id tenure)
    (hmap : bus.map key base = .ok (w, bus')) : Settled bus' id tenure := by
  obtain ⟨d, -, rfl, -, -, rfl⟩ := map_eq_ok hmap
  cases h with
  | none h =>
    refine .none fun v hv => ?_
    rcases List.mem_append.mp hv with hv | hv
    · exact h v (List.mem_filter.mp hv).1
    · obtain rfl := List.mem_singleton.mp hv
      exact hkey
  | some hv hid hlength hd =>
    refine .some (List.mem_append_left _ (List.mem_filter.mpr ⟨hv, ?_⟩)) hid hlength hd
    simpa [hid] using hkey.symm

/-- **Every history says who is behind the windows.** -/
theorem settled_afterCalls (id : UInt32) (calls : List Call) :
    Settled (afterCalls calls) id (tenure? id calls) := by
  induction calls with
  | nil => exact .none fun w hw => by cases hw
  | cons call earlier ih =>
    cases call with
    | register d => exact ih.register d
    | map key base =>
      rw [afterCalls, tenure?, Call.after]
      cases hmap : (afterCalls earlier).map key base with
      | error e => exact ih
      | ok placed =>
        obtain ⟨w, bus'⟩ := placed
        dsimp only
        split
        · next hkey =>
          subst hkey
          exact settled_map_self hmap
        · next hkey => exact ih.map_other hkey hmap

/-! ## Where the windows lead -/

namespace Orderly

variable {slot : Slot}

/-- An identifier has one window. -/
theorem eq_of_hardwareId (h : bus.Orderly) (hw : w ∈ bus.windows) (hv : v ∈ bus.windows)
    (hid : w.hardwareId = v.hardwareId) : w = v :=
  List.inj_on_of_nodup_map h.once hw hv hid

/-- No two identifiers have a slot in common. -/
theorem eq_of_slot? (h : bus.Orderly) (hid : bus.slot? id = some slot)
    (hkey : bus.slot? key = some slot) : id = key := by
  obtain ⟨d, hd, rfl⟩ := h.seated hid
  obtain ⟨d', hd', rfl⟩ := h.seated hkey
  rw [hd] at hd'
  cases hd'
  rfl

/-- **A window leads to as many registers as it is long.** -/
theorem exists_route?_iff (h : bus.Orderly) (hw : w ∈ bus.windows)
    (hslot : bus.slot? w.hardwareId = some slot) (register : Word) :
    (∃ addr, bus.route? addr = some (slot, register)) ↔ register < w.length := by
  rw [UInt16.lt_iff_toNat_lt]
  constructor
  · rintro ⟨addr, hroute⟩
    obtain ⟨v, hv, hholds, hslot', hsum⟩ := h.route?_eq_some_iff.mp hroute
    obtain rfl := h.eq_of_hardwareId hw hv (h.eq_of_slot? hslot hslot')
    have := hholds.2
    rw [Window.stop] at this
    omega
  · intro hlt
    have hspace := h.inSpace w hw
    have hsum : (w.base + register).toNat = w.base.toNat + register.toNat := by
      rw [Window.stop, Word.count] at hspace
      rw [UInt16.toNat_add]
      omega
    refine ⟨w.base + register, h.route?_eq_some_iff.mpr ⟨w, hw, ⟨?_, ?_⟩, hslot, hsum.symm⟩⟩
    · omega
    · rw [Window.stop]
      omega

end Orderly

/-! ## Wires -/

/-- The wires of a bus are its routes. -/
theorem Orderly.mem_allWires_iff (h : bus.Orderly) {addr : Nat} {wire : Wire} :
    (addr, wire) ∈ bus.allWires ↔ ∃ (place : Word) (slot : Slot) (register : Word),
      place.toNat = addr ∧ bus.route? place = some (slot, register) ∧
        wire = .register slot register := by
  rw [mem_allWires]
  constructor
  · rintro ⟨w, hw, slot, hslot, hholds, rfl⟩
    have hlt : addr < Word.count := Nat.lt_of_lt_of_le hholds.2 (h.inSpace w hw)
    have hplace : (UInt16.ofNat addr).toNat = addr := UInt16.toNat_ofNat_of_lt' hlt
    have hregister : (UInt16.ofNat (addr - w.base.toNat)).toNat = addr - w.base.toNat :=
      UInt16.toNat_ofNat_of_lt' (Nat.lt_of_le_of_lt (Nat.sub_le _ _) hlt)
    refine ⟨UInt16.ofNat addr, slot, _, hplace,
      h.route?_eq_some_iff.mpr ⟨w, hw, ?_, hslot, ?_⟩, rfl⟩
    · rw [hplace]
      exact hholds
    · rw [hplace, hregister]
      exact Nat.add_sub_cancel' hholds.1
  · rintro ⟨place, slot, register, rfl, hroute, rfl⟩
    obtain ⟨w, hw, hholds, hslot, hsum⟩ := h.route?_eq_some_iff.mp hroute
    refine ⟨w, hw, slot, hslot, hholds, ?_⟩
    rw [← hsum, Nat.add_sub_cancel_left, UInt16.ofNat_toNat]

/-- **What `attach` wires, it wires to what is routed there**, and all else keeps its observer. -/
theorem observer?_attach (bus : Bus) (mem : Memory Wire) (addr : Nat) :
    (stateOf (attach (mem, bus))).1.observer? addr = mem.observer? addr ∨
      ∃ wire, (addr, wire) ∈ bus.allWires ∧
        (stateOf (attach (mem, bus))).1.observer? addr = some wire := by
  have hwatch : ∀ entry ∈ bus.allWires, Keeps (fun s : Memory Wire × Bus =>
      s.1.observer? addr = mem.observer? addr ∨ ∃ wire, (addr, wire) ∈ bus.allWires ∧
        s.1.observer? addr = some wire) (Memory.watch entry.1 entry.2) := by
    intro entry hentry
    refine keeps_iff.mpr fun s hs => ?_
    by_cases hlt : entry.1 < s.1.capacity
    · rw [watch_eq s.1 s.2 entry.2 hlt, stateOf, Memory.observer?_setObserver]
      split
      · next heq => exact .inr ⟨entry.2, heq.1 ▸ hentry, rfl⟩
      · exact hs
    · simp only [Memory.watch, Memory.within, hlt, if_false]
      exact hs
  exact keeps_iff.mp (Lockstep.forM bus.allWires hwatch) (mem, bus) (.inl rfl)

/-! ## Registers -/

/-- **To which registers a bus routes, whatever was registered and mapped before.**  A window leads
to as many registers as the device has that it was placed for.  So all of them are registers of the
device that is in use now just if this has no fewer; it is the same device if none was registered in
its place since.  And `attach`, on whatever memory and however it ends, wires an address to nothing
but the register that it is routed to. -/
theorem registers_of_route (calls : List Call) :
    (∀ addr slot register, (afterCalls calls).route? addr = some (slot, register) →
      ∃ id t, tenure? id calls = some t ∧ (afterCalls calls).slot? id = some slot ∧
        (afterCalls calls).devices[slot]? = some t.current ∧
        register < t.first.registerCount) ∧
    (∀ id t, tenure? id calls = some t →
      ∃ slot, (afterCalls calls).slot? id = some slot ∧
        (∀ register, (∃ addr, (afterCalls calls).route? addr = some (slot, register)) ↔
          register < t.first.registerCount) ∧
        ((∀ addr register, (afterCalls calls).route? addr = some (slot, register) →
            register < t.current.registerCount) ↔
          t.first.registerCount ≤ t.current.registerCount)) ∧
    ∀ mem addr,
      (stateOf (attach (mem, afterCalls calls))).1.observer? addr ≠ mem.observer? addr →
        ∃ (place : Word) (slot : Slot) (register : Word), place.toNat = addr ∧
          (afterCalls calls).route? place = some (slot, register) ∧
          (stateOf (attach (mem, afterCalls calls))).1.observer? addr =
            some (.register slot register) := by
  have horderly := orderly_afterCalls calls
  refine ⟨fun addr slot register hroute => ?route, fun id t htenure => ?window,
    fun mem addr hnew => ?wire⟩
  case route =>
    obtain ⟨w, hw, hholds, hslot, hsum⟩ := horderly.route?_eq_some_iff.mp hroute
    have hsettled := settled_afterCalls w.hardwareId calls
    generalize htenure : tenure? w.hardwareId calls = tenure at hsettled
    cases hsettled with
    | none h => exact absurd rfl (h w hw)
    | @some t v hv hid hlength hd =>
      obtain rfl := horderly.eq_of_hardwareId hv hw hid
      rw [device?, hslot, Option.bind_some] at hd
      have hlt := (horderly.exists_route?_iff hw hslot register).mp ⟨addr, hroute⟩
      exact ⟨v.hardwareId, t, htenure, hslot, hd, hlength ▸ hlt⟩
  case window =>
    have hsettled := settled_afterCalls id calls
    rw [htenure] at hsettled
    cases hsettled with
    | @some _ w hw hid hlength hd =>
      subst hid
      obtain ⟨slot, hslot⟩ := horderly.registered w hw
      have hroutes := horderly.exists_route?_iff hw hslot
      rw [hlength] at hroutes
      refine ⟨slot, hslot, hroutes, ?_, ?_⟩
      · intro hall
        by_contra hless
        -- The first register that the device has not is behind the window.
        obtain ⟨addr, hroute⟩ := (hroutes t.current.registerCount).mpr (UInt16.not_le.mp hless)
        exact UInt16.lt_irrefl _ (hall addr _ hroute)
      · intro hle addr register hroute
        exact UInt16.lt_of_lt_of_le ((hroutes register).mp ⟨addr, hroute⟩) hle
  case wire =>
    obtain ⟨wire, hwire, hobserver⟩ :=
      (observer?_attach (afterCalls calls) mem addr).resolve_left hnew
    obtain ⟨place, slot, register, hplace, hroute, rfl⟩ := horderly.mem_allWires_iff.mp hwire
    exact ⟨place, slot, register, hplace, hroute, hobserver⟩

/-- A bank of four registers has a window, and is then replaced by one of two. -/
def shrunk : List Call :=
  [.register (.bank (.ofCount 1 2 0)), .map 1 0x100, .register (.bank (.ofCount 1 4 0))]

/-- The bus routes to a register that the second bank does not have. -/
theorem registers_of_route_shrunk :
    tenure? 1 shrunk = some ⟨.bank (.ofCount 1 4 0), [.bank (.ofCount 1 2 0)]⟩ ∧
      ∃ slot addr, (afterCalls shrunk).devices[slot]? = some (.bank (.ofCount 1 2 0)) ∧
        (afterCalls shrunk).route? addr = some (slot, 2) := by
  have htenure : tenure? 1 shrunk = some ⟨.bank (.ofCount 1 4 0), [.bank (.ofCount 1 2 0)]⟩ := by
    decide +kernel
  obtain ⟨hroute, hwindow, -⟩ := registers_of_route shrunk
  obtain ⟨slot, hslot, hregisters, -⟩ := hwindow 1 _ htenure
  obtain ⟨addr, haddr⟩ := (hregisters 2).mpr (by decide)
  obtain rfl : slot = 1 := by
    have hone : (afterCalls shrunk).slot? 1 = some 1 := by decide +kernel
    exact Option.some.inj (hslot.symm.trans hone)
  exact ⟨htenure, 1, addr, by decide +kernel, haddr⟩

end Bus

end WordMachine
