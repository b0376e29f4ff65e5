import WordMachine.Proofs.Bus.Registry
import WordMachine.Proofs.Lockstep
import WordMachine.Proofs.Memory.Access

/-!
# Proofs/Bus/Attachment — what a memory reaches after any number of attaches

`attach` wires every address that the bus routes, and takes no wire away.  So an address that the
bus routes is wired to the register it is routed to, whatever was wired there before; an address
that the bus does not route any more keeps the wire of the last attach that found it routed
(`lastRoute?`), and reaches the register it was routed to then.  Main statement:
`reaches_of_attach`.
-/

namespace WordMachine

namespace Bus

/-! ## Reaching a register -/

/-- A read or a write at the address is one of the register of the device in the slot. -/
def Reaches (s : Memory Wire × Bus) (addr : Word) (slot : Slot) (register : Word) : Prop :=
  ∃ d, s.2.devices[slot]? = some d ∧
    Memory.read addr.toNat s =
      .ok (d.read register).1 (s.1, s.2.setDevice slot (d.read register).2) ∧
    ∀ value, Memory.write addr.toNat value s =
      .ok () (s.1.store addr.toNat (UInt16.ofNat value),
        s.2.setDevice slot (d.write register (UInt16.ofNat value)))

/-- A read or a write at the address is one of the stored word alone. -/
def Stores (s : Memory Wire × Bus) (addr : Word) : Prop :=
  Memory.read addr.toNat s = .ok (s.1.word addr.toNat) s ∧
    ∀ value, Memory.write addr.toNat value s =
      .ok () (s.1.store addr.toNat (UInt16.ofNat value), s.2)

variable {mem : Memory Wire} {bus : Bus}

theorem reaches_of_observer? {addr : Word} {slot : Slot} {register : Word} {d : Device}
    (hlt : addr.toNat < mem.capacity) (hidle : bus.busy = [])
    (hd : bus.devices[slot]? = some d)
    (hwire : mem.observer? addr.toNat = some (.register slot register)) :
    Reaches (mem, bus) addr slot register := by
  have hfree : bus.isBusy slot = false := by simp [isBusy, hidle]
  have hasked : mem.asked addr.toNat bus =
      (some (d.read register).1, bus.setDevice slot (d.read register).2) := by
    rw [Memory.asked, hwire]
    change (Wire.register slot register).onRead bus = _
    simp [Wire.onRead, hfree, hd]
  have htold : ∀ w, mem.told addr.toNat w bus = bus.setDevice slot (d.write register w) := by
    intro w
    rw [Memory.told, hwire]
    change (Wire.register slot register).onWrite w bus = _
    simp [Wire.onWrite, hfree, hd]
  refine ⟨d, hd, ?_, fun value => ?_⟩
  · rw [Memory.read_eq hlt, hasked]
    rfl
  · rw [Memory.write_eq hlt, htold]

theorem stores_of_observer? {addr : Word} (hlt : addr.toNat < mem.capacity)
    (hwire : mem.observer? addr.toNat = none) : Stores (mem, bus) addr := by
  refine ⟨?_, fun value => ?_⟩
  · rw [Memory.read_eq hlt, Memory.asked, hwire]
    rfl
  · rw [Memory.write_eq hlt, Memory.told, hwire]

/-! ## The wires of one attach -/

namespace Orderly

/-- **An address is wired to what it is routed to.** -/
theorem wire?_eq_route? (h : bus.Orderly) (addr : Word) :
    bus.wire? addr.toNat = (bus.route? addr).map fun route => .register route.1 route.2 := by
  cases hroute : bus.route? addr with
  | none => exact wire?_eq_none (h.route?_eq_none_iff.mp hroute)
  | some route =>
    obtain ⟨w, hw, hholds, hslot, hsum⟩ := h.route?_eq_some_iff.mp hroute
    have hregister : UInt16.ofNat (addr.toNat - w.base.toNat) = route.2 := by
      rw [← hsum, Nat.add_sub_cancel_left, UInt16.ofNat_toNat]
    rw [wire?_of_holds h.apart hw hslot hholds, hregister]
    rfl

/-- Every wire has its place among the addresses there are. -/
theorem lt_of_mem_allWires (h : bus.Orderly) {entry : Nat × Wire} (hentry : entry ∈ bus.allWires) :
    entry.1 < Word.count := by
  obtain ⟨w, hw, -, -, hholds, -⟩ := mem_allWires.mp hentry
  exact Nat.lt_of_lt_of_le hholds.2 (h.inSpace w hw)

end Orderly

/-! ## Histories -/

/-- What can be done to a bus and the memory it is attached to. -/
inductive Job where
  | call (c : Call)
  | attach

def Job.after : Job → Memory Wire × Bus → Memory Wire × Bus
  | call c, (mem, bus) => (mem, c.after bus)
  | attach, s => stateOf (Bus.attach s)

/-- A memory without wires and an empty bus after some jobs, of which the latest comes first. -/
def wiredUp : List Job → Memory Wire × Bus
  | [] => (.ofCapacity Word.count, {})
  | job :: earlier => job.after (wiredUp earlier)

/-- Where the last attach that found an address routed has it routed to. -/
def lastRoute? (addr : Word) : List Job → Option (Slot × Word)
  | [] => none
  | .call _ :: earlier => lastRoute? addr earlier
  | .attach :: earlier => ((wiredUp earlier).2.route? addr).or (lastRoute? addr earlier)

/-- A memory of all addresses, with a bus that is orderly and idle. -/
structure Spacious (s : Memory Wire × Bus) : Prop where
  capacity : s.1.capacity = Word.count
  orderly : s.2.Orderly
  idle : s.2.busy = []

/-- There an attach cannot fail. -/
theorem Spacious.attach_eq {s : Memory Wire × Bus} (h : Spacious s) :
    Bus.attach s = .ok () (attached s.1 s.2.allWires, s.2) :=
  Bus.attach_eq fun _ hentry => h.capacity.symm ▸ h.orderly.lt_of_mem_allWires hentry

theorem Call.busy_after (c : Call) (bus : Bus) : (c.after bus).busy = bus.busy := by
  cases c with
  | register d => rfl
  | map id base =>
    simp only [Call.after]
    split
    · next hmap =>
      obtain ⟨_, -, -, -, -, rfl⟩ := map_eq_ok hmap
      rfl
    · rfl

theorem spacious_wiredUp (jobs : List Job) : Spacious (wiredUp jobs) := by
  induction jobs with
  | nil => exact ⟨Memory.capacity_ofCapacity _, .empty, rfl⟩
  | cons job earlier ih =>
    cases job with
    | call c => exact ⟨ih.capacity, ih.orderly.after c, (c.busy_after _).trans ih.idle⟩
    | attach =>
      rw [wiredUp, Job.after, ih.attach_eq]
      exact ⟨(capacity_attached _ _).trans ih.capacity, ih.orderly, ih.idle⟩

theorem wiredUp_attach (jobs : List Job) :
    wiredUp (.attach :: jobs) =
      (attached (wiredUp jobs).1 (wiredUp jobs).2.allWires, (wiredUp jobs).2) := by
  rw [wiredUp, Job.after, (spacious_wiredUp jobs).attach_eq]
  rfl

/-- The bus has a history of its own. -/
theorem snd_wiredUp_attach (jobs : List Job) :
    (wiredUp (.attach :: jobs)).2 = (wiredUp jobs).2 := by
  rw [wiredUp_attach]

theorem snd_wiredUp_call (c : Call) (jobs : List Job) :
    (wiredUp (.call c :: jobs)).2 = c.after (wiredUp jobs).2 := rfl

/-- **An address carries the wire of the last attach that found it routed**, and none if there was
no such attach. -/
theorem observer?_wiredUp (jobs : List Job) (addr : Word) :
    (wiredUp jobs).1.observer? addr.toNat =
      (lastRoute? addr jobs).map fun route => .register route.1 route.2 := by
  induction jobs with
  | nil => exact Memory.observer?_ofCapacity _ _
  | cons job earlier ih =>
    cases job with
    | call c => exact ih
    | attach =>
      have hspacious := spacious_wiredUp earlier
      have haddr : addr.toNat < (wiredUp earlier).1.capacity :=
        hspacious.capacity.symm ▸ addr.toNat_lt_count
      have hlast : lastWire? addr.toNat (wiredUp earlier).2.allWires =
          (wiredUp earlier).2.wire? addr.toNat := rfl
      rw [wiredUp_attach, observer?_attached _ _ haddr, hlast,
        hspacious.orderly.wire?_eq_route? addr, ih, lastRoute?]
      cases (wiredUp earlier).2.route? addr <;> rfl

/-- A device is never taken out of its slot, replaced or not. -/
theorem Call.getElem?_after (c : Call) {bus : Bus} {slot : Slot} {d : Device}
    (h : bus.devices[slot]? = some d) : (c.after bus).devices[slot]? = some d := by
  cases c with
  | register new => exact getElem?_register_of_some h new
  | map id base =>
    simp only [Call.after]
    split
    · next hmap =>
      obtain ⟨_, -, -, -, -, rfl⟩ := map_eq_ok hmap
      exact h
    · exact h

theorem exists_device_of_lastRoute? {jobs : List Job} {addr : Word} {route : Slot × Word}
    (h : lastRoute? addr jobs = some route) :
    ∃ d, (wiredUp jobs).2.devices[route.1]? = some d := by
  induction jobs with
  | nil => cases h
  | cons job earlier ih =>
    cases job with
    | call c =>
      obtain ⟨d, hd⟩ := ih h
      exact ⟨d, c.getElem?_after hd⟩
    | attach =>
      rw [wiredUp_attach]
      rcases Option.or_eq_some_iff.mp h with hroute | ⟨-, hearlier⟩
      · have horderly := (spacious_wiredUp earlier).orderly
        obtain ⟨w, -, -, hslot, -⟩ := horderly.route?_eq_some_iff.mp hroute
        obtain ⟨d, hd, -⟩ := horderly.seated hslot
        exact ⟨d, hd⟩
      · exact ih hearlier

/-- **What every address reaches once the bus is attached again.**  The attach succeeds and leaves
the bus as it is.  An address that the bus routes reaches the register it is routed to, of the
device that is in use for the window.  An address that the bus does not route reaches the register
that the last of the earlier attaches wired it to; only if none did, it is memory and nothing
else. -/
theorem reaches_of_attach (jobs : List Job) :
    ∃ mem, Bus.attach (wiredUp jobs) = .ok () (mem, (wiredUp jobs).2) ∧
      ∀ addr : Word,
        (∀ slot register, (wiredUp jobs).2.route? addr = some (slot, register) →
          (∃ w ∈ (wiredUp jobs).2.windows, w.Holds addr.toNat ∧
            (wiredUp jobs).2.slot? w.hardwareId = some slot) ∧
          Reaches (mem, (wiredUp jobs).2) addr slot register) ∧
        ((wiredUp jobs).2.route? addr = none →
          (∀ slot register, lastRoute? addr jobs = some (slot, register) →
            Reaches (mem, (wiredUp jobs).2) addr slot register) ∧
          (lastRoute? addr jobs = none → Stores (mem, (wiredUp jobs).2) addr)) := by
  have hspacious := spacious_wiredUp jobs
  have hafter : Spacious (attached (wiredUp jobs).1 (wiredUp jobs).2.allWires, (wiredUp jobs).2) :=
    wiredUp_attach jobs ▸ spacious_wiredUp (.attach :: jobs)
  refine ⟨_, hspacious.attach_eq, fun addr => ?_⟩
  have haddr : addr.toNat < (attached (wiredUp jobs).1 (wiredUp jobs).2.allWires).capacity :=
    hafter.capacity.symm ▸ addr.toNat_lt_count
  have hwire := observer?_wiredUp (.attach :: jobs) addr
  rw [wiredUp_attach] at hwire
  have hreaches : ∀ {slot register},
      lastRoute? addr (.attach :: jobs) = some (slot, register) →
      Reaches (attached (wiredUp jobs).1 (wiredUp jobs).2.allWires, (wiredUp jobs).2) addr slot
        register := by
    intro slot register hlast
    obtain ⟨d, hd⟩ := exists_device_of_lastRoute? hlast
    rw [snd_wiredUp_attach] at hd
    rw [hlast] at hwire
    exact reaches_of_observer? haddr hafter.idle hd hwire
  refine ⟨fun slot register hroute => ?_, fun hnone => ⟨fun slot register hlast => ?_,
    fun hlast => ?_⟩⟩
  · obtain ⟨w, hw, hholds, hslot, -⟩ := hspacious.orderly.route?_eq_some_iff.mp hroute
    exact ⟨⟨w, hw, hholds, hslot⟩, hreaches (by rw [lastRoute?, hroute, Option.some_or])⟩
  · exact hreaches (by rw [lastRoute?, hnone, hlast, Option.none_or])
  · rw [lastRoute?, hnone, hlast, Option.none_or] at hwire
    exact stores_of_observer? haddr hwire

/-- A bank of four registers is mapped, attached and mapped elsewhere. -/
def remapped : List Job :=
  [.call (.map 1 0x200), .attach, .call (.map 1 0x100), .call (.register (.bank (.ofCount 1 4 0)))]

/-- Attached again, the bank is still reached through the window it no longer has. -/
theorem reaches_of_attach_remapped :
    (wiredUp remapped).2.route? 0x102 = none ∧ ∃ mem,
      Bus.attach (wiredUp remapped) = .ok () (mem, (wiredUp remapped).2) ∧
        Reaches (mem, (wiredUp remapped).2) 0x102 0 2 := by
  have hbefore : (wiredUp (remapped.drop 2)).2 =
      (Call.map 1 0x100).after ((Call.register (.bank (.ofCount 1 4 0))).after {}) := by
    simp only [remapped, List.drop, snd_wiredUp_call]
    rfl
  have hbus : (wiredUp remapped).2 = (Call.map 1 0x200).after (wiredUp (remapped.drop 2)).2 :=
    (snd_wiredUp_call (.map 1 0x200) (.attach :: remapped.drop 2)).trans
      (congrArg _ (snd_wiredUp_attach _))
  have hroute : (wiredUp remapped).2.route? 0x102 = none := by
    rw [hbus, hbefore]
    decide +kernel
  have hlast : lastRoute? 0x102 remapped = some (0, 2) := by
    have hfirst : (wiredUp (remapped.drop 2)).2.route? 0x102 = some (0, 2) := by
      rw [hbefore]
      decide +kernel
    change ((wiredUp (remapped.drop 2)).2.route? 0x102).or (lastRoute? 0x102 (remapped.drop 2)) = _
    rw [hfirst, Option.some_or]
  obtain ⟨mem, hattach, hreaches⟩ := reaches_of_attach remapped
  exact ⟨hroute, mem, hattach, ((hreaches 0x102).2 hroute).1 0 2 hlast⟩

end Bus

end WordMachine
